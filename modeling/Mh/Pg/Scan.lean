import Mh.Pg.Touch
import Mh.Pg.Blocks

/-!
# The scan of `pginit`

`pginit` goes through the pages and closes every run of free pages of a zone.  What it makes of the
zones is known from what the closing of a run does (`Scans.close`), which may count on where the run
begins and ends (`FreeRun`); the loop is the same whatever is kept of the zones, and whatever it
looks at while it closes a run.
-/

namespace Mh.Pg

open Mh.Lib Mh.Zone

variable {db : Db} {sc : Scan} {zs : PgZones} {start i k : Nat} {P : Nat → Prop}
  {I : Nat → PgZones → Prop}

/-- The first page that the zones do not account for yet. -/
def Scan.frontier (sc : Scan) (i : Nat) : Nat := if sc.status then sc.start else i

/-- Free pages of one zone, the first of which does not follow another one. -/
structure FreeRun (db : Db) (start i : Nat) : Prop where
  pos : 0 < start
  lt : start < i
  page : ∀ p, start ≤ p → p < i → db.type p = .free ∧ db.zone p = db.zone start
  begun : db.type (start - 1) = .free → db.zone (start - 1) ≠ db.zone start

/-- What is kept of the zones (`I n`, when they account for the pages before `n`) and what may be
looked at (`P`) while the runs before the last page are closed. -/
structure Scans (db : Db) (P : Nat → Prop) (I : Nat → PgZones → Prop) : Prop where
  page : ∀ p < db.max, P p
  init : I 0 (Zone.init db)
  max : ∀ {n zs}, I n zs → zs.db.max = db.max
  same : ∀ {n zs}, I n zs → ∀ p, n ≤ p → zs.db.pfn p = db.pfn p
  skip : ∀ {n zs}, I n zs → db.type n ≠ .free → I (n + 1) zs
  close : ∀ {start i zs}, FreeRun db start i → i < db.max → I start zs →
    Traced.Within P (Touch.free zs (zs.db.zone start) start (i - start)) ∧
      ∃ t, Zone.free backend zs (zs.db.zone start) start (i - start) = .ok t ∧ I i t

/-- The invariant of the loop before page `i`. -/
structure Scanning (db : Db) (I : Nat → PgZones → Prop) (i : Nat) (sc : Scan) : Prop where
  kept : I (sc.frontier i) sc.zones
  run : sc.status = true → FreeRun db sc.start i
  ended : sc.status = false → i = 0 ∨ db.type (i - 1) ≠ .free

namespace Scanning

theorem start_kept (h : Scanning db I i sc) (hst : sc.status = true) : I sc.start sc.zones := by
  have hk := h.kept
  rwa [Scan.frontier, if_pos hst] at hk

theorem page_kept (h : Scanning db I i sc) (hst : sc.status = false) : I i sc.zones := by
  have hk := h.kept
  rwa [Scan.frontier, hst, if_neg Bool.false_ne_true] at hk

/-- A run of one page. -/
theorem single (hpos : 0 < i) (hfr : db.type i = .free)
    (hbegun : db.type (i - 1) = .free → db.zone (i - 1) ≠ db.zone i) : FreeRun db i (i + 1) := by
  refine ⟨hpos, Nat.lt_succ_self i, fun p hp hp' ↦ ?_, hbegun⟩
  obtain rfl : p = i := by omega
  exact ⟨hfr, rfl⟩

/-- One more page. -/
theorem longer (h : FreeRun db start i) (hfr : db.type i = .free)
    (hz : db.zone i = db.zone (i - 1)) : FreeRun db start (i + 1) := by
  have hlt := h.lt
  refine ⟨h.pos, Nat.lt_succ_of_lt hlt, fun p hp hp' ↦ ?_, h.begun⟩
  by_cases hpi : p = i
  · subst hpi
    exact ⟨hfr, hz.trans (h.page (p - 1) (by omega) (by omega)).2⟩
  · exact h.page p hp (by omega)

/-- One iteration. -/
theorem scanPage (hs : Scans db P I) (h : Scanning db I i sc) (hzero : db.type 0 ≠ .free)
    (hi : i < db.max) : Traced.Within P (Touch.scanPage sc i) ∧
      ∃ sc', Pg.scanPage sc i = .ok sc' ∧ Scanning db I (i + 1) sc' := by
  have hfront : sc.frontier i ≤ i := by
    rw [Scan.frontier]
    split
    · exact (h.run ‹_›).lt.le
    · exact le_rfl
  have htype : sc.zones.db.type i = db.type i := congrArg Ipfn.type (hs.same h.kept i hfront)
  have hnote : ∀ j ∈ [i], P j := fun j hj ↦ (List.mem_singleton.1 hj).symm ▸ hs.page i hi
  rw [Touch.scanPage, Pg.scanPage, htype, zone_congr (hs.max h.kept)]
  by_cases hfr : db.type i = .free
  · cases hst : sc.status with
    | false =>
        -- a run begins
        have hpos : 0 < i := by
          refine Nat.pos_of_ne_zero ?_
          rintro rfl
          exact hzero hfr
        have hprev := (h.ended hst).resolve_left hpos.ne'
        refine ⟨?_, ⟨true, i, sc.zones⟩, by simp [hfr], h.page_kept hst,
          fun _ ↦ single hpos hfr fun hp ↦ absurd hp hprev, fun hst' ↦ absurd hst' Bool.noConfusion⟩
        refine Traced.Within.note_bind hnote ?_
        simp only [hfr, decide_true, Bool.not_false, Bool.and_self, if_true]
        exact Traced.Within.pure
    | true =>
        have hrun := h.run hst
        by_cases hz : db.zone i = db.zone (i - 1)
        · -- the run goes on
          refine ⟨?_, sc, by simp [hfr, hz], ?_, fun _ ↦ longer hrun hfr hz,
            fun hst' ↦ absurd (hst.symm.trans hst') Bool.noConfusion⟩
          · refine Traced.Within.note_bind hnote ?_
            simp only [hfr, decide_true, Bool.not_true, Bool.and_false, Bool.false_eq_true, if_false,
              Bool.and_true, hz, ne_eq, not_true_eq_false]
            exact Traced.Within.pure
          · rw [Scan.frontier, if_pos hst]
            exact h.start_kept hst
        · -- the zone ends here
          obtain ⟨hin, t, ht, hk⟩ := hs.close hrun hi (h.start_kept hst)
          refine ⟨?_, ⟨true, i, t⟩, ?_, hk,
            fun _ ↦ single (hrun.pos.trans hrun.lt) hfr fun _ ↦ Ne.symm hz,
            fun hst' ↦ absurd hst' Bool.noConfusion⟩
          · refine Traced.Within.note_bind hnote ?_
            simp only [hfr, decide_true, Bool.not_true, Bool.and_false, Bool.false_eq_true, if_false,
              Bool.and_true, hz, ne_eq, not_false_eq_true, if_true]
            exact Traced.Within.bind hin fun _ _ ↦ Traced.Within.pure
          · simp only [hfr, decide_true, Bool.not_true, Bool.and_false, Bool.and_true,
              Bool.false_eq_true, if_false, ne_eq, hz, not_false_eq_true, if_true, Scan.close, ht,
              bind, Except.bind, pure, Except.pure]
  · cases hst : sc.status with
    | false =>
        refine ⟨?_, sc, by simp [hfr], ?_,
          fun hst' ↦ absurd (hst.symm.trans hst') Bool.noConfusion, fun _ ↦ .inr hfr⟩
        · refine Traced.Within.note_bind hnote ?_
          simp only [hfr, decide_false, Bool.false_and, Bool.false_eq_true, if_false,
            Bool.and_false, Bool.and_self]
          exact Traced.Within.pure
        · rw [Scan.frontier, hst, if_neg Bool.false_ne_true]
          exact hs.skip (h.page_kept hst) hfr
    | true =>
        -- the run has ended
        obtain ⟨hin, t, ht, hk⟩ := hs.close (h.run hst) hi (h.start_kept hst)
        refine ⟨?_, ⟨false, sc.start, t⟩, ?_, hs.skip hk hfr,
          fun hst' ↦ absurd hst' Bool.false_ne_true, fun _ ↦ .inr hfr⟩
        · refine Traced.Within.note_bind hnote ?_
          simp only [hfr, decide_false, Bool.false_and, Bool.false_eq_true, if_false,
            Bool.not_false, Bool.and_self, if_true]
          exact Traced.Within.bind hin fun _ _ ↦ Traced.Within.pure
        · simp only [hfr, decide_false, Bool.false_and, Bool.false_eq_true, if_false,
            Bool.not_false, Bool.and_self, if_true, Scan.close, ht, bind, Except.bind, pure,
            Except.pure]

/-- The loop, over the next `k` pages. -/
theorem foldlM (hs : Scans db P I) (h : Scanning db I i sc) (hzero : db.type 0 ≠ .free)
    (hi : i + k ≤ db.max) : Traced.Within P ((List.range' i k).foldlM Touch.scanPage sc) ∧
      ∃ sc', (List.range' i k).foldlM Pg.scanPage sc = .ok sc' ∧ Scanning db I (i + k) sc' := by
  induction k generalizing i sc with
  | zero => exact ⟨Traced.Within.pure, sc, rfl, h⟩
  | succ k ih =>
      obtain ⟨hin, sc₁, h₁, hsc₁⟩ := h.scanPage hs hzero (by omega)
      obtain ⟨hins, sc', h', hsc'⟩ := ih hsc₁ (by omega)
      rw [List.range'_succ, List.foldlM_cons, List.foldlM_cons]
      refine ⟨hin.bind fun sc₂ h₂ ↦ ?_, sc', ?_, ?_⟩
      · rw [Touch.res_scanPage, h₁] at h₂
        rwa [← Except.ok.inj h₂]
      · rw [h₁]
        exact h'
      · rwa [Nat.add_right_comm] at hsc'

end Scanning

/-- What is kept, at the end of the loop of `pginit`. -/
theorem Scans.foldlM (hs : Scans db P I) (hzero : db.type 0 ≠ .free) :
    Traced.Within P ((List.range db.max).foldlM Touch.scanPage ⟨false, 0, Zone.init db⟩) ∧
      ∃ sc, (List.range db.max).foldlM scanPage ⟨false, 0, Zone.init db⟩ = .ok sc ∧
        Scanning db I db.max sc := by
  have hinit : Scanning db I 0 ⟨false, 0, Zone.init db⟩ :=
    ⟨hs.init, fun hst ↦ absurd hst Bool.false_ne_true, fun _ ↦ .inl rfl⟩
  have h := hinit.foldlM hs hzero (k := db.max) (Nat.zero_add _).le
  rwa [Nat.zero_add, ← List.range_eq_range'] at h

end Mh.Pg
