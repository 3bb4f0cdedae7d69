import Mh.Pg.Inside
import Mh.Pg.Scan

/-!
# What `pginit` looks at

`pginit` closes its blocks where it is, so that only the last one can end at `pfndb_max`; and that
block has the entry there asked for its type if it has two pages or is of the zone that
`PFNZ_TYPE` gives to pages beyond the database (`AsksLast`).  Nothing is known of that entry: it is
not cleared at boot.

Where `pginit` does not look at it, neither does any later call (`neverAsks`).
-/

namespace Mh.Pg

open Mh.Lib Mh.Zone

variable {db : Db} {sc : Scan} {zs : PgZones} {start i n a : Nat}

/-- The page database when `pginit` is called: no page has a tag of the allocator, the first page is
not free. -/
structure Started (db : Db) : Prop where
  max_lt : db.max < 2 ^ 32
  zero : db.type 0 ≠ .free
  start : ∀ p < db.max, (db.type p).isPgzstart = false
  term : ∀ p < db.max, (db.type p).isPgzterm = false

/-- The last page is free, and it is of the zone of the entry after it, or the page before it is
free too. -/
def AsksLast (db : Db) : Prop :=
  db.type (db.max - 1) = .free ∧
    (db.zone (db.max - 1) = db.zone db.max ∨ db.type (db.max - 2) = .free)

/-- The blocks are of the free pages before page `n`, and the others have not been written. -/
structure Covered (db : Db) (n : Nat) (zs : PgZones) : Prop where
  binv : BInv zs ∅
  max : zs.db.max = db.max
  same : ∀ p, n ≤ p → zs.db.pfn p = db.pfn p
  free : freeAll zs ∅ = {p ∈ db.free | p < n}

namespace Covered

theorem init (hb : Started db) : Covered db 0 (Zone.init db) := by
  have hst : starts (Zone.init db : PgZones) ∅ = ∅ := by
    ext p
    refine iff_of_false ?_ (Set.notMem_empty p)
    rintro ⟨hp, -, hs⟩
    exact Bool.eq_false_iff.1 (hb.start p hp) hs
  refine ⟨⟨hb.max_lt, ?_, fun he ↦ absurd he List.not_mem_nil, ?_, ?_, ?_, ?_⟩, rfl,
    fun _ _ ↦ rfl, ?_⟩
  · rw [hst]
    exact Bins.filed_nil
  · rw [hst]
    exact fun p hp ↦ absurd hp (Set.notMem_empty p)
  · rw [hst]
    exact fun p hp ↦ absurd hp (Set.notMem_empty p)
  · exact fun x hx _ ht ↦ absurd ht (Bool.eq_false_iff.1 (hb.term x hx))
  · rw [hst]
    exact fun p hp ↦ absurd hp (Set.notMem_empty p)
  · ext x
    constructor
    · rintro ⟨p, hp, -⟩
      rw [hst] at hp
      exact absurd hp (Set.notMem_empty p)
    · rintro ⟨-, hx⟩
      exact absurd hx (Nat.not_lt_zero x)

theorem asksAt_iff (h : Covered db i zs) :
    AsksAt zs.db a n zs.db.max ↔ AsksAt db a n db.max := by
  rw [AsksAt, AsksAt, zone_congr h.max, h.max]

/-- A page that is not free adds nothing. -/
theorem skip (h : Covered db i zs) (hfr : db.type i ≠ .free) : Covered db (i + 1) zs := by
  refine ⟨h.binv, h.max, fun p hp ↦ h.same p (Nat.le_of_succ_le hp), h.free.trans ?_⟩
  ext x
  refine and_congr_right fun hx ↦ ?_
  rw [Nat.lt_succ_iff_lt_or_eq, or_iff_left]
  rintro rfl
  exact hfr hx.2

/-- A run may be freed. -/
theorem span (h : Covered db start zs) (hr : FreeRun db start i) (hi : i ≤ db.max)
    (hask : ¬AsksAt db start (i - start) db.max) : Span zs ∅ start (i - start) := by
  have hlt := hr.lt
  have hend : start + (i - start) = i := by omega
  refine ⟨hr.pos, by omega, ?_, ?_, fun hx ↦ absurd hx (Set.notMem_empty _), ?_⟩
  · rw [hend, h.max]
    exact hi
  · -- a block is made of pages before the run
    intro p hp
    left
    have hs := (h.binv.entry p hp).size_pos
    have hm : p + (zs.db.pfn p).size - 1 ∈ freeAll zs ∅ := ⟨p, hp, by omega, by omega⟩
    rw [h.free] at hm
    have hlt := hm.2
    omega
  · intro hend
    refine next_eq_none ?_ (hend.resolve_left (Set.notMem_empty _))
    rwa [h.asksAt_iff]

/-- Closing a run. -/
theorem close (h : Covered db start zs) (hb : Started db) (hr : FreeRun db start i)
    (hi : i ≤ db.max) (hask : ¬AsksAt db start (i - start) db.max) :
    Traced.Within (· < db.max) (Touch.free zs (zs.db.zone start) start (i - start)) ∧
      ∃ t, Zone.free backend zs (zs.db.zone start) start (i - start) = .ok t ∧
        Covered db i t := by
  have hlt := hr.lt
  have hend : start + (i - start) = i := by omega
  have hsp := h.span hr hi hask
  have hno : ¬AsksAt zs.db start (i - start) zs.db.max := by
    rwa [h.asksAt_iff]
  obtain ⟨t, ht, hinv, hdb⟩ := hsp.create h.binv (zs.db.zone start)
  have hfree := hsp.freeAll_eq h.binv hdb
  rw [Set.empty_sdiff] at hinv hfree
  -- the page after the run has not been written
  have hnext : next zs.db start (i - start) = none := by
    by_cases hmax : i = db.max
    · exact next_eq_none hno (by rw [hend, h.max, hmax])
    · rw [next, hend]
      split
      · rfl
      · rw [if_neg]
        rw [Db.type, h.same i hlt.le]
        exact Bool.eq_false_iff.1 (hb.start i (by omega))
  have hhi : (joined zs.db start (i - start)).hi = i := by
    rw [joined_hi, hnext]
    exact hend
  rw [Touch.free, Zone.free, if_neg hsp.size_pos.ne', if_neg hsp.size_pos.ne', ← h.max]
  refine ⟨Touch.create_inside hsp h.binv hno _, t, ht, hinv, ?_, fun p hp ↦ ?_, ?_⟩
  · rw [hdb, Block.db'_max, h.max]
  · rw [hdb, hsp.db'_outside h.binv (.inr (by omega))]
    exact h.same p (by omega)
  · rw [hfree, h.free]
    ext x
    constructor
    · rintro (⟨hx, hx'⟩ | ⟨hx, hx'⟩)
      · exact ⟨hx, hx'.trans hlt⟩
      · have hxi : x < i := hend ▸ hx'
        exact ⟨⟨hxi.trans_le hi, (hr.page x hx hxi).1⟩, hxi⟩
    · rintro ⟨hx, hx'⟩
      by_cases hxs : x < start
      · exact .inl ⟨hx, hxs⟩
      · exact .inr ⟨Nat.not_lt.1 hxs, hend.symm ▸ hx'⟩

/-- The scan looks only at the database before it comes to the last page. -/
theorem scans (hb : Started db) : Scans db (· < db.max) (Covered db) where
  page _ hp := hp
  init := init hb
  max h := h.max
  same h := h.same
  skip h := h.skip
  close hr hi h := h.close hb hr hi.le fun hask ↦ by
    have hlt := hr.lt
    have hend := hask.2
    omega

/-- The end of the scan, where the last run does not have the entry after it asked for its type. -/
theorem kept (h : Covered db n zs) : Kept db ⟨zs, []⟩ := by
  refine ⟨h.binv, h.max, ?_, fun r hr ↦ absurd hr List.not_mem_nil, .nil⟩
  rw [h.free]
  exact Set.sep_subset _ _

end Covered

/-! ## `pginit` -/

namespace FreeRun

/-- Only a last page that is free, in the zone of the entry after it or after a free page, makes the
last run have that entry asked for its type. -/
theorem asksLast (hr : FreeRun db start db.max)
    (hask : AsksAt db start (db.max - start) db.max) : AsksLast db := by
  have hlt := hr.lt
  have hpos := hr.pos
  refine ⟨(hr.page (db.max - 1) (by omega) (by omega)).1, ?_⟩
  by_cases hone : start = db.max - 1
  · left
    have hzone := hask.1
    rwa [hone, Nat.sub_add_cancel (by omega)] at hzone
  · exact .inr (hr.page (db.max - 2) (by omega) (by omega)).1

/-- It does, unless the zone ends before the last page. -/
theorem asksAt (hr : FreeRun db start db.max)
    (hz : db.zone (db.max - 2) = db.zone (db.max - 1) ∨ db.zone (db.max - 1) = db.zone db.max)
    (hask : AsksLast db) : AsksAt db start (db.max - start) db.max := by
  have hlt := hr.lt
  have hpos := hr.pos
  refine ⟨?_, by omega⟩
  by_cases hone : start = db.max - 1
  · have hprev : start - 1 = db.max - 2 := by omega
    have hbegun := hr.begun
    rw [hprev, hone] at hbegun
    rw [hone, Nat.sub_add_cancel (by omega)]
    exact hask.2.elim id fun hfr ↦ hz.resolve_left (hbegun hfr)
  · exact (hr.page (start + 1) (by omega) (by omega)).2.symm

end FreeRun

/-- Unless the last page asks for it, `pginit` looks only at the database, and its blocks are of the
free pages. -/
theorem pginit_inside (hb : Started db) (hask : ¬AsksLast db) :
    Traced.Within (· < db.max) (Touch.pginit db) ∧
      ∃ s, pginit db = .ok s ∧ Kept db ⟨s, []⟩ := by
  obtain ⟨hin, sc, hsc, h⟩ := (Covered.scans hb).foldlM hb.zero
  have hres := (Traced.res_foldlM Touch.res_scanPage (List.range db.max)
    ⟨false, 0, Zone.init db⟩).trans hsc
  cases hst : sc.status with
  | false =>
      refine ⟨hin.bind fun sc' hsc' ↦ ?_, sc.zones, ?_, h.kept.kept⟩
      · obtain rfl := Except.ok.inj (hres.symm.trans hsc')
        rw [hst]
        exact Traced.Within.pure
      · simp only [pginit, hsc, bind, Except.bind, hst]
        rfl
  | true =>
      have hr := h.run hst
      obtain ⟨hclose, t, ht, hk⟩ := (h.start_kept hst).close hb hr le_rfl
        fun ha ↦ hask (hr.asksLast ha)
      refine ⟨hin.bind fun sc' hsc' ↦ ?_, t, ?_, hk.kept⟩
      · obtain rfl := Except.ok.inj (hres.symm.trans hsc')
        rw [if_pos hst]
        exact hclose
      · simp only [pginit, hsc, bind, Except.bind, hst, if_true, Scan.close, ht]

/-- If the last page asks for it, `pginit` looks at the entry after the last one. -/
theorem max_mem_pginit (hb : Started db)
    (hz : db.zone (db.max - 2) = db.zone (db.max - 1) ∨ db.zone (db.max - 1) = db.zone db.max)
    (hask : AsksLast db) : db.max ∈ (Touch.pginit db).log := by
  obtain ⟨-, sc, hsc, h⟩ := (Covered.scans hb).foldlM hb.zero
  have hres := (Traced.res_foldlM Touch.res_scanPage (List.range db.max)
    ⟨false, 0, Zone.init db⟩).trans hsc
  have hst : sc.status = true := by
    by_contra hst
    rcases h.ended (Bool.eq_false_iff.2 hst) with hmax | hfr
    · rw [AsksLast, hmax] at hask
      exact hb.zero hask.1
    · exact hfr hask.1
  have hr := h.run hst
  have hk := h.start_kept hst
  have hsize : 0 < db.max - sc.start := Nat.sub_pos_of_lt hr.lt
  refine Traced.mem_log_right hres ?_
  rw [if_pos hst, Touch.close, Touch.free, if_neg hsize.ne']
  have hmem := Touch.max_mem_create hk.binv hsize (fun hx ↦ absurd hx (Set.notMem_empty _))
    (hk.asksAt_iff.2 (hr.asksAt hz hask)) (sc.zones.db.zone sc.start)
  rwa [hk.max] at hmem

/-- Then no later call looks too far either: pages that are not free at first are in no block. -/
theorem neverAsks (hask : ¬AsksLast db) : NeverAsks db := by
  rintro a n hn hsub ⟨hz, hend⟩
  have hlast : db.max - 1 ∈ db.free := hsub ⟨by omega, by omega⟩
  refine hask ⟨hlast.2, ?_⟩
  by_cases hone : n = 1
  · left
    obtain rfl : a = db.max - 1 := by omega
    rwa [Nat.sub_add_cancel (by omega)] at hz
  · have htwo : db.max - 2 ∈ db.free := hsub ⟨by omega, by omega⟩
    exact .inr htwo.2

end Mh.Pg
