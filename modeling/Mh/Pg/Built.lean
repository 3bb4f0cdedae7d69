import Mh.Zone.Exact

/-!
# The zones that `pginit` builds

After `pginit` the entries of a zone hold exactly the pages that were free, they do not touch one
another, and the first and the last page of each carry its record and its tags (`pginit_builds`).

This takes a page database in which no page has a tag of the allocator at the border of a run of
free pages (`Scannable`): such a tag is taken for one of a block next to the run, which has no
record (`pginit_asserts`).  The rest of the kernel does not use these tags.
-/

namespace Mh.Pg

open Mh.Lib Mh.Zone

variable {db : Db} {s : PgZones}

/-- What `pginit` makes of a page database. -/
structure Built (db : Db) (s : PgZones) : Prop where
  /-- The entries of a zone cover the pages of the zone that were free. -/
  cover : ∀ z, freeSet backend s z = freeBefore db db.max z
  /-- No two entries of a zone overlap or touch. -/
  apart : ∀ z e e', Listed s z e → Listed s z e' → e ≠ e' →
    (s.db.pfn e).addr + (s.db.pfn e).size < (s.db.pfn e').addr ∨
      (s.db.pfn e').addr + (s.db.pfn e').size < (s.db.pfn e).addr
  /-- The first page of an entry has its record. -/
  first : ∀ z e, Listed s z e → 0 < (s.db.pfn e).size ∧ (s.db.pfn e).addr = e
  /-- So has the last page. -/
  last : ∀ z e, Listed s z e → (s.db.pfn (e + (s.db.pfn e).size - 1)).addr = e ∧
    (s.db.pfn (e + (s.db.pfn e).size - 1)).size = (s.db.pfn e).size
  /-- The pages of an entry are tagged by their place in it. -/
  tags : ∀ z e, Listed s z e → ∀ x, e ≤ x → x < e + (s.db.pfn e).size →
    s.db.type x = blockType e (s.db.pfn e).size x

/-- Tidy blocks of one zone do not touch. -/
theorem PInv.gap {X : Set Nat} {p q : Nat} (h : PInv s X) (hp : p ∈ starts s X)
    (hq : q ∈ starts s X) (hz : s.db.zone p = s.db.zone q) (hne : p ≠ q) :
    p + (s.db.pfn p).size < q ∨ q + (s.db.pfn q).size < p := by
  have hpq : p + (s.db.pfn p).size ≠ q := h.tidy.maximal _ (mem_ranges hp) _ (mem_ranges hq) hz
  have hqp : q + (s.db.pfn q).size ≠ p := h.tidy.maximal _ (mem_ranges hq) _ (mem_ranges hp) hz.symm
  rcases h.apart hp hq hne with hle | hle
  · exact .inl (lt_of_le_of_ne hle hpq)
  · exact .inr (lt_of_le_of_ne hle hqp)

/-- `pginit` builds the zones of every page database that it can scan. -/
theorem pginit_builds (db : Db) (hdb : Scannable db) : ∃ s, pginit db = .ok s ∧ Built db s := by
  obtain ⟨s, hs, hinv, htags, -, hfree⟩ := pginit_scan hdb
  have hmem : ∀ {z e}, Listed s z e → e ∈ starts s (tagged db) ∧ s.db.zone e = z :=
    fun hl ↦ hinv.zinv.listed_iff.1 hl
  refine ⟨s, hs, fun z ↦ ?_, fun z e e' hl hl' hne ↦ ?_, fun z e hl ↦ ?_, fun z e hl ↦ ?_,
    fun z e hl ↦ htags e (hmem hl).1⟩
  · rw [pg_freeSet hinv]
    exact hfree z
  · obtain ⟨he, hz⟩ := hmem hl
    obtain ⟨he', hz'⟩ := hmem hl'
    rw [(hinv.entry e he).addr, (hinv.entry e' he').addr]
    exact hinv.gap he he' (hz.trans hz'.symm) hne
  · have he := (hmem hl).1
    exact ⟨hinv.size_pos he, (hinv.entry e he).addr⟩
  · have hok := hinv.entry e (hmem hl).1
    exact ⟨hok.lastAddr, hok.lastSize⟩

/-- A page database with two free pages, after one that is not free. -/
def afterTag (t : PfnType) : Db :=
  ⟨fun p ↦ ⟨if p = 1 then t else if p = 2 ∨ p = 3 then .free else .system, 0, 0⟩, 4⟩

/-- The tag of a block that begins there does not matter. -/
theorem pginit_builds_demo : ∃ s, pginit (afterTag .freePzStrt) = .ok s ∧
    Built (afterTag .freePzStrt) s := by
  have hlow : ∀ p < 3, ((afterTag .freePzStrt).type p).isPgzterm = false := by decide
  have hhigh : ∀ p < 2, ((afterTag .freePzStrt).type (p + 2)).isPgzstart = false := by decide
  refine pginit_builds (afterTag .freePzStrt) ⟨by decide, by decide, rfl, ?_, ?_⟩
  · exact fun p hp _ _ ↦ hlow p (Nat.lt_of_succ_lt_succ hp)
  · intro p hp _ hs
    rw [hhigh p (Nat.lt_of_add_lt_add_right hp)] at hs
    cases hs

/-- The tag of a block that ends there is followed to a record that nobody has written. -/
theorem pginit_asserts : ¬∀ db : Db, db.max < 2 ^ 32 → db.type 0 ≠ .free →
    (db.type db.max).isPgzstart = false → ∃ s, pginit db = .ok s ∧ Built db s := by
  intro hall
  obtain ⟨s, hs, -⟩ := hall (afterTag .freePzTerm) (by decide) (by decide) rfl
  have herr : (pginit (afterTag .freePzTerm)).toOption.isNone := by decide +kernel
  rw [hs] at herr
  cases herr

end Mh.Pg
