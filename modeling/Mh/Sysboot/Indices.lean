import Mh.Sysboot.Touch
import Mh.Pg.Scanned

/-!
# The indices of the page database

`pfndb_setup` clears and reserves `pfndb_max` entries, but the assertions let the index `pfndb_max`
pass, and there are two ways to it.  `sysboot` truncates the end of a region for the size of the
database and rounds it up for the marking, so that the last page of a region that ends inside a page
may be the one after the database.  And `pginit` looks at the type of the page after its last block.

Nothing else leaves the database, whatever is allocated and freed later
(`pfndb_indices_iff`).
-/

namespace Mh.Sysboot

open Mh.Lib

variable {map : List E820e} {ukernEnd p n : Nat} {stale : Nat → Nat} {pz : Nat → Nat × Nat}
  {db : Pfndb}

/-! ## The database of the allocator -/

/-- A type by its number.  `pgalloc.c` looks for no type beyond these. -/
def pfnType : Nat → PfnType
  | 0 => .invalid
  | 1 => .heap
  | 2 => .freePzLone
  | 3 => .freePzStrt
  | 4 => .freePzTerm
  | 5 => .fixmem
  | 6 => .user
  | 7 => .free
  | 8 => .system
  | _ => .mmio

theorem pfnType_eq_free : pfnType n = .free ↔ n = pfntFree := by
  rw [pfntFree]
  unfold pfnType
  split <;> simp_all

theorem pfnType_tag (h : pfntFree ≤ n) :
    (pfnType n).isPgzstart = false ∧ (pfnType n).isPgzterm = false := by
  rw [pfntFree] at h
  unfold pfnType
  split <;> first | omega | exact ⟨rfl, rfl⟩

/-- The database that `pginit` is given, with any records in its entries. -/
def Pfndb.toDb (db : Pfndb) (pz : Nat → Nat × Nat) : Pg.Db where
  max := db.max
  pfn i := ⟨pfnType (db.type i), (pz i).1, (pz i).2⟩

/-! ## The property and its condition -/

/-- Every index at which the marking, `pginit` and the calls of any run after them read or write an
entry is below the number of entries that `pfndb_setup` clears. -/
structure IndicesInside (map : List E820e) (ukernEnd : Nat) (stale : Nat → Nat)
    (pz : Nat → Nat × Nat) : Prop where
  mark : Traced.Within (· < pfnMaxaddr map) (Touch.sysbootMark map ukernEnd stale)
  pginit : ∀ db, sysbootMark map ukernEnd stale = .ok db →
    Traced.Within (· < pfnMaxaddr map) (Pg.Touch.pginit (db.toDb pz))
  calls : ∀ db zs ops s op, sysbootMark map ukernEnd stale = .ok db →
    Pg.pginit (db.toDb pz) = .ok zs → Run Pg.Step ⟨zs, []⟩ ops s → Pg.Allowed s op →
    Traced.Within (· < pfnMaxaddr map) (Pg.Touch.exec s op)

/-- The pages that the loops of the marking are to go through. -/
def marks (map : List E820e) (ukernEnd : Nat) : List Nat :=
  (e820Foreach map).flatMap E820e.pfns ++
    (kernelPfns ukernEnd ++ pfndbPfns ukernEnd (pfnMaxaddr map))

/-- The marking comes to its end. -/
def Marked (map : List E820e) (ukernEnd : Nat) : Prop :=
  lpfndb ukernEnd (pfnMaxaddr map) ≤ 2 ^ 32 ∧ ∀ p ∈ marks map ukernEnd, p ≤ pfnMaxaddr map

/-- The last page is left free, and it is of the zone that `PFNZ_TYPE` gives to pages beyond the
database, or the page before it is left free too. -/
def LastFree (map : List E820e) (ukernEnd : Nat) (stale : Nat → Nat) : Prop :=
  let max := pfnMaxaddr map
  LeftFree map ukernEnd stale (max - 1) ∧
    (Pg.pfnzType max (max - 1) = Pg.pfnzType max max ∨ LeftFree map ukernEnd stale (max - 2))

/-- No page that is marked is the one after the database, unless an assertion has stopped the marking
before; and if the marking comes to its end, the last page does not end a block after which
`pginit` looks. -/
structure IndexSafe (map : List E820e) (ukernEnd : Nat) (stale : Nat → Nat) : Prop where
  marks : lpfndb ukernEnd (pfnMaxaddr map) ≤ 2 ^ 32 →
    pfnMaxaddr map ∉ (marks map ukernEnd).takeWhile (· ≤ pfnMaxaddr map)
  last : Marked map ukernEnd → ¬LastFree map ukernEnd stale

/-! ## The marking -/

/-- When the marking looks only at the database. -/
theorem sysbootMark_inside_iff (map : List E820e) (ukernEnd : Nat) (stale : Nat → Nat) :
    Traced.Within (· < pfnMaxaddr map) (Touch.sysbootMark map ukernEnd stale) ↔
      (lpfndb ukernEnd (pfnMaxaddr map) ≤ 2 ^ 32 →
        pfnMaxaddr map ∉ (marks map ukernEnd).takeWhile (· ≤ pfnMaxaddr map)) := by
  rw [Touch.sysbootMark, marks]
  have hloops := Touch.loops_inside_iff E820e.pfns E820e.pfnt (e820Foreach map)
    (kernelPfns ukernEnd) (pfndbPfns ukernEnd (pfnMaxaddr map)) pfntSystem pfntInvalid pfntMmio
    (pfndbSetup stale (pfnMaxaddr map))
  have hmax : (pfndbSetup stale (pfnMaxaddr map)).max = pfnMaxaddr map := rfl
  rw [hmax] at hloops
  generalize pfnMaxaddr map = max at hloops ⊢
  by_cases hfit : 2 ^ 32 < lpfndb ukernEnd max
  · rw [if_pos hfit]
    exact iff_of_true Traced.Within.lift fun h ↦ absurd h (Nat.not_le.2 hfit)
  · rw [if_neg hfit, Traced.within_bind_iff, ← hloops]
    have hsetup : Traced.Within (· < max) (Touch.pfndbSetup stale max) :=
      Traced.Within.note_bind (fun i hi ↦ List.mem_range.1 hi) Traced.Within.pure
    refine ⟨fun h _ ↦ h.2 _ (Touch.res_pfndbSetup stale max),
      fun h ↦ ⟨hsetup, fun db hdb ↦ ?_⟩⟩
    rw [← Except.ok.inj ((Touch.res_pfndbSetup stale max).symm.trans hdb)]
    exact h (Nat.not_lt.1 hfit)

/-- The marking comes to its end just when all its pages are in the database, or the one after
it. -/
theorem exists_sysbootMark_iff :
    (∃ db, sysbootMark map ukernEnd stale = .ok db) ↔ Marked map ukernEnd := by
  have hloops := Touch.loops_return_iff E820e.pfns E820e.pfnt (e820Foreach map)
    (kernelPfns ukernEnd) (pfndbPfns ukernEnd (pfnMaxaddr map)) pfntSystem pfntInvalid pfntMmio
    (pfndbSetup stale (pfnMaxaddr map))
  have hmax : (pfndbSetup stale (pfnMaxaddr map)).max = pfnMaxaddr map := rfl
  rw [hmax] at hloops
  rw [Marked, marks, sysbootMark, ← hloops]
  dsimp only
  generalize pfnMaxaddr map = max
  by_cases hfit : 2 ^ 32 < lpfndb ukernEnd max
  · rw [if_pos hfit]
    exact iff_of_false (fun h ↦ h.elim fun _ h ↦ by cases h) fun h ↦ Nat.not_le.2 hfit h.1
  · rw [if_neg hfit]
    exact (and_iff_right (Nat.not_lt.1 hfit)).symm

/-! ## The database after the marking -/

/-- Every page of the database has been given a type that is no tag of the allocator. -/
theorem pfntFree_le (h : sysbootMark map ukernEnd stale = .ok db) (hp : p < db.max) :
    pfntFree ≤ db.type p := by
  rw [type_of_lt h hp]
  by_cases hm : IsMemory map p
  · exact .inl ⟨le_rfl, hm⟩
  · exact .inr (.inl ⟨by decide, .inr hm⟩)

theorem started_of_sysbootMark (h : sysbootMark map ukernEnd stale = .ok db)
    (pz : Nat → Nat × Nat) : Pg.Started (db.toDb pz) where
  max_lt := by
    have hfit := (sysbootMark_ok h).1
    rw [lpfndb, ipfnSize] at hfit
    show db.max < 2 ^ 32
    omega
  zero := by
    obtain ⟨-, -, ty, -, hty⟩ := sysbootMark_ok h
    have hsys : IsSystem ukernEnd db.max 0 :=
      .inl (List.mem_range.2 (Nat.succ_pos _))
    have hle := (hty 0 pfntSystem).2 (.inr ⟨hsys, le_rfl⟩)
    intro hfree
    rw [show (db.toDb pz).type 0 = pfnType (db.type 0) from rfl, pfnType_eq_free] at hfree
    rw [hfree] at hle
    exact absurd hle (by decide)
  start p hp := (pfnType_tag (pfntFree_le h hp)).1
  term p hp := (pfnType_tag (pfntFree_le h hp)).2

theorem asksLast_iff (h : sysbootMark map ukernEnd stale = .ok db) (pz : Nat → Nat × Nat) :
    Pg.AsksLast (db.toDb pz) ↔ LastFree map ukernEnd stale := by
  have hmax := (sysbootMark_ok h).2.1
  have htype : ∀ p, (db.toDb pz).type p = .free ↔ LeftFree map ukernEnd stale p := fun p ↦
    pfnType_eq_free.trans (type_eq_free h)
  rw [Pg.AsksLast, LastFree, htype, htype, ← hmax]
  exact Iff.rfl

/-! ## The zone of the last page -/

/-- Pages beyond the database are of the last zone. -/
theorem pfnzType_beyond {max : Nat} (hp : max ≤ p) : Pg.pfnzType max p = .high := by
  have h₁ : ¬(min 0 max ≤ p ∧ p < min Pg.kmemEnd max) := fun h ↦
    Nat.not_lt.2 hp (h.2.trans_le (min_le_right _ _))
  have h₂ : ¬(min Pg.kmemEnd max ≤ p ∧ p < max) := fun h ↦ Nat.not_lt.2 hp h.2
  simp only [Pg.pfnzType, h₁, h₂, false_and, if_false]

/-- The pages that the kernel does not map. -/
theorem pfnzType_high {max : Nat} (hk : Pg.kmemEnd ≤ p) (hp : p < max) :
    Pg.pfnzType max p = if p < Pg.pfn4G then .high32 else .high := by
  have h₁ : ¬(min 0 max ≤ p ∧ p < min Pg.kmemEnd max) := fun h ↦
    Nat.not_lt.2 hk (h.2.trans_le (min_le_left _ _))
  have h₂ : min Pg.kmemEnd max ≤ p ∧ p < max := ⟨(min_le_left _ _).trans hk, hp⟩
  simp only [Pg.pfnzType, h₁, h₂, false_and, if_false, true_and]

/-- A database that reaches up to 4GB does not end just after the beginning of a zone. -/
theorem pfnzType_last {max : Nat} (h : 2047 ≤ max) :
    Pg.pfnzType max (max - 2) = Pg.pfnzType max (max - 1) ∨
      Pg.pfnzType max (max - 1) = Pg.pfnzType max max := by
  have hk : Pg.kmemEnd = 384 := by decide
  have h4 : Pg.pfn4G = 2048 := by decide
  rw [pfnzType_high (hk ▸ by omega) (by omega), pfnzType_high (hk ▸ by omega) (by omega),
    pfnzType_beyond le_rfl, h4]
  by_cases hlt : max - 1 < 2048
  · rw [if_pos hlt, if_pos (by omega)]
    exact .inl rfl
  · rw [if_neg hlt]
    exact .inr rfl

/-! ## The indices -/

/-- When all indices are below the number of entries that are cleared: the condition is enough for
every map, and it is necessary for maps whose regions end below 2 ^ 53. -/
theorem pfndb_indices_iff (map : List E820e) (ukernEnd : Nat) (stale : Nat → Nat)
    (pz : Nat → Nat × Nat) :
    (IndexSafe map ukernEnd stale → IndicesInside map ukernEnd stale pz) ∧
      ((∀ e ∈ e820Foreach map, e.lpfn < 2 ^ 32) → IndicesInside map ukernEnd stale pz →
        IndexSafe map ukernEnd stale) := by
  constructor
  · intro hs
    have hmark := (sysbootMark_inside_iff map ukernEnd stale).2 hs.marks
    refine ⟨hmark, fun db hdb ↦ ?_, fun db zs ops s op hdb hzs hrun ha ↦ ?_⟩
    · have hask : ¬Pg.AsksLast (db.toDb pz) := by
        rw [asksLast_iff hdb]
        exact hs.last (exists_sysbootMark_iff.1 ⟨db, hdb⟩)
      rw [← (sysbootMark_ok hdb).2.1]
      exact (Pg.pginit_inside (started_of_sysbootMark hdb pz) hask).1
    · have hask : ¬Pg.AsksLast (db.toDb pz) := by
        rw [asksLast_iff hdb]
        exact hs.last (exists_sysbootMark_iff.1 ⟨db, hdb⟩)
      obtain ⟨-, zs', hzs', hk⟩ := Pg.pginit_inside (started_of_sysbootMark hdb pz) hask
      obtain rfl := Except.ok.inj (hzs'.symm.trans hzs)
      rw [← (sysbootMark_ok hdb).2.1]
      exact ((hk.run (Pg.neverAsks hask) hrun).exec (Pg.neverAsks hask) ha).1
  · intro hlpfn hin
    refine ⟨(sysbootMark_inside_iff map ukernEnd stale).1 hin.mark, fun hm hlast ↦ ?_⟩
    obtain ⟨db, hdb⟩ : ∃ db, sysbootMark map ukernEnd stale = .ok db := exists_sysbootMark_iff.2 hm
    have hmax : db.max = pfnMaxaddr map := (sysbootMark_ok hdb).2.1
    have hbig : 2047 ≤ db.max := by
      rw [hmax]
      exact (maxaddr_ge (e820Foreach map) hlpfn (0xffffffff / pageSize)).1
    have hmem := Pg.max_mem_pginit (started_of_sysbootMark hdb pz) (pfnzType_last hbig)
      ((asksLast_iff hdb pz).2 hlast)
    have hlt := hin.pginit db hdb _ hmem
    exact Nat.lt_irrefl _ (hmax ▸ hlt)

/-- The machine of `pcMap` has no memory where the database ends. -/
theorem pfndb_indices_pcMap :
    IndicesInside pcMap 0xc0400000 (fun _ ↦ 0) fun _ ↦ (0, 0) := by
  refine (pfndb_indices_iff pcMap 0xc0400000 (fun _ ↦ 0) fun _ ↦ (0, 0)).1
    ⟨fun _ ↦ by decide, fun _ hlast ↦ ?_⟩
  have hmem : ¬IsMemory pcMap 2046 := by
    rw [IsMemory]
    decide
  have hmax : pfnMaxaddr pcMap = 2047 := by decide
  obtain ⟨⟨-, -, hfree⟩, -⟩ := hlast
  rw [hmax, if_pos (by decide)] at hfree
  exact hmem hfree

/-- A map with the firmware's ROM below 4GB, less its last 64 kilobytes. -/
def romMap : List E820e :=
  [⟨0, 0x9fc00, 1⟩, ⟨0x100000, 0x7f00000, 1⟩, ⟨0xffc00000, 0x3f0000, 2⟩]

/-- The ROM ends inside page 2047, which is marked although the database has 2047 entries. -/
theorem pfndb_index_overrun : pfnMaxaddr romMap = 2047 ∧
    (∃ i ∈ (Touch.sysbootMark romMap 0xc0400000 fun _ ↦ 0).log, 2047 ≤ i) ∧
    ¬IndicesInside romMap 0xc0400000 (fun _ ↦ 0) fun _ ↦ (0, 0) := by
  have hmax : pfnMaxaddr romMap = 2047 := by decide
  have hno : ¬Traced.Within (· < 2047) (Touch.sysbootMark romMap 0xc0400000 fun _ ↦ 0) := by
    have hiff := sysbootMark_inside_iff romMap 0xc0400000 fun _ ↦ 0
    rw [hmax] at hiff
    rw [hiff]
    intro h
    exact h (by decide) (by decide)
  refine ⟨hmax, ?_, fun h ↦ hno (hmax ▸ h.mark)⟩
  by_contra hall
  exact hno fun i hi ↦ Nat.not_le.1 fun hle ↦ hall ⟨i, hi, hle⟩

end Mh.Sysboot
