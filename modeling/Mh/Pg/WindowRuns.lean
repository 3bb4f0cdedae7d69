import Mh.Pg.Runs
import Mh.Pg.Model
import Mathlib.Data.Set.Lattice

/-!
# The window of an allocation

Between the locked section of `pgalloc` and the last `pfndb_settype` the pages that are handed out
carry the tags of a free block, and a block that is freed next to them in this time is joined to
it: an entry is taken off the lists that is on none, and the pages are free while they are in use.

`WInv` is the invariant of the allocator with these pages as the ones whose tags are out of date.
It is kept as long as `pgfree` takes none of their tags (`SmpSafe`).  An allocation never takes
one: the rest that it gives back ends where the free block did, and no free block of a zone ends
where the tags of a pending one begin (`WInv.front`).
-/

namespace Mh.Pg

open Mh.Lib Mh.Zone

variable {Cpu : Type} {db : Db}

/-! ## Tags that are out of date -/

/-- The pages that a CPU has still to set the type of. -/
def Task.stale : Task → Set Nat
  | .typing addr size _ k => {x | addr + k ≤ x ∧ x < addr + size}
  | _ => ∅

/-- The pages of the block that a CPU is about to return. -/
def Task.pages : Task → Set Nat
  | .typing addr size _ _ => Pg.pages addr size
  | _ => ∅

/-- The pages whose tags are out of date. -/
def Smp.stale (s : Smp Cpu) : Set Nat := ⋃ i, (s.task i).stale

/-- The rest of the block that the step allocates from, and a block that is freed, do not end
where a block of another zone begins; and next to a block that is freed `___get_neighbors` takes
no tag that is out of date. -/
def SmpSafe (s : Smp Cpu) : SmpOp Cpu → Prop
  | .pgalloc .. => True
  | .next i => ∀ size type flags z zs e, s.task i = .trying size type flags (z :: zs) →
      flags &&& z.1 ≠ 0 → findfree s.zones z.2 size = some e → size < (s.zones.db.pfn e).size →
      MergeSafe s.zones.db (e + size) ((s.zones.db.pfn e).size - size)
  | .pgfree _ pfn size => MergeSafe s.zones.db pfn size ∧
      (pfn - 1 ∈ s.stale → prev s.zones.db pfn = none) ∧
      (pfn + size ∈ s.stale → next s.zones.db pfn size = none)

/-! ## The invariant -/

/-- A type that is none of the allocator's tags. -/
def Untagged (type : PfnType) : Prop := type.isPgzstart = false ∧ type.isPgzterm = false

/-- A CPU in `pgalloc` asks for pages, under a type of its own. -/
def Task.Ok : Task → Prop
  | .idle => True
  | .trying size type _ _ => 0 < size ∧ Untagged type
  | .typing _ _ type _ => Untagged type

/-- The invariant. -/
structure WInv (s : Smp Cpu) : Prop where
  pinv : PInv s.zones s.stale
  held : ∀ r, s.Held r → OutOk s.zones s.stale r
  out : s.out.Pairwise fun r r' ↦ Disjoint (pages r.1 r.2) (pages r'.1 r'.2)
  apart : ∀ i, ∀ r ∈ s.out, Disjoint (s.task i).pages (pages r.1 r.2)
  tasks : ∀ i j, i ≠ j → Disjoint (s.task i).pages (s.task j).pages
  ok : ∀ i, (s.task i).Ok
  front : ∀ x ∈ s.stale, (s.zones.db.type x).isPgzstart = true →
    ∀ r ∈ ranges s.zones s.stale, r.zone = s.zones.db.zone x → r.hi ≠ x

variable {s s' : Smp Cpu} {zs : PgZones} {i : Cpu} {a n : Nat} {r : Nat × Nat} {t : Task}

/-- A safe step that returns. -/
def SmpSafeStep [DecidableEq Cpu] (s : Smp Cpu) (op : SmpOp Cpu) (s' : Smp Cpu) : Prop :=
  SmpSafe s op ∧ SmpStep s op s'

theorem Task.stale_subset (t : Task) : t.stale ⊆ t.pages := by
  cases t with
  | typing addr size type k => exact fun x hx ↦ ⟨by have := hx.1; omega, hx.2⟩
  | _ => exact Set.Subset.refl _

theorem Smp.stale_subset (s : Smp Cpu) : s.stale ⊆ ⋃ i, (s.task i).pages :=
  Set.iUnion_mono fun i ↦ (s.task i).stale_subset

/-- A range that is handed out has none of the tags that are out of date. -/
theorem WInv.stale_out (h : WInv s) (hr : r ∈ s.out) : Disjoint s.stale (pages r.1 r.2) := by
  refine Disjoint.mono_left s.stale_subset ?_
  rw [Set.disjoint_iUnion_left]
  exact fun i ↦ h.apart i r hr

theorem winv_boot (h : PInv zs ∅) : WInv (Smp.boot zs : Smp Cpu) := by
  have hst : (Smp.boot zs : Smp Cpu).stale = ∅ := Set.iUnion_empty
  refine ⟨?_, fun r hr ↦ ?_, .nil, fun i r hr ↦ absurd hr List.not_mem_nil, fun i j _ ↦ ?_,
    fun i ↦ trivial, fun x hx ↦ ?_⟩
  · rw [hst]
    exact h
  · rcases hr with hr | ⟨i, type, k, hr⟩
    · exact absurd hr List.not_mem_nil
    · cases hr
  · exact Set.disjoint_empty _
  · rw [hst] at hx
    exact absurd hx (Set.notMem_empty x)

/-! ## One CPU goes on -/

section Tasks

/-- The tags that the other CPUs have still to write. -/
def Smp.others (s : Smp Cpu) (i : Cpu) : Set Nat := ⋃ j, ⋃ _ : j ≠ i, (s.task j).stale

theorem stale_split (s : Smp Cpu) (i : Cpu) : s.stale = (s.task i).stale ∪ s.others i := by
  ext x
  simp only [Smp.stale, Smp.others, Set.mem_union, Set.mem_iUnion]
  constructor
  · rintro ⟨j, hj⟩
    by_cases hji : j = i
    · exact .inl (hji ▸ hj)
    · exact .inr ⟨j, hji, hj⟩
  · rintro (hi | ⟨j, -, hj⟩)
    · exact ⟨i, hi⟩
    · exact ⟨j, hj⟩

/-- The tags of one CPU are not those of another. -/
theorem WInv.others_apart (h : WInv s) (i : Cpu) : Disjoint (s.task i).pages (s.others i) := by
  simp only [Smp.others, Set.disjoint_iUnion_right]
  exact fun j hj ↦ (h.tasks i j (Ne.symm hj)).mono_right (s.task j).stale_subset

variable [DecidableEq Cpu]

@[simp] theorem task_setTask_self : (s.setTask i t).task i = t := Function.update_self ..

theorem task_setTask_of_ne {j : Cpu} (h : j ≠ i) : (s.setTask i t).task j = s.task j :=
  Function.update_of_ne h ..

/-- The tags that are out of date when one CPU has gone on. -/
theorem stale_setTask : (s.setTask i t).stale = t.stale ∪ s.others i := by
  rw [stale_split _ i, task_setTask_self]
  congr 1
  refine Set.iUnion_congr fun j ↦ Set.iUnion_congr fun hj ↦ ?_
  rw [task_setTask_of_ne hj]

/-- The blocks of the CPUs stay apart when one of them goes on with its block. -/
theorem tasks_setTask (h : WInv s) (ht : ∀ j, j ≠ i → Disjoint t.pages (s.task j).pages) :
    ∀ j l, j ≠ l → Disjoint ((s.setTask i t).task j).pages ((s.setTask i t).task l).pages := by
  intro j l hjl
  by_cases hj : j = i
  · subst hj
    rw [task_setTask_self, task_setTask_of_ne (Ne.symm hjl)]
    exact ht l (Ne.symm hjl)
  · rw [task_setTask_of_ne hj]
    by_cases hl : l = i
    · subst hl
      rw [task_setTask_self]
      exact (ht j hj).symm
    · rw [task_setTask_of_ne hl]
      exact h.tasks j l hjl

/-- What holds of the old task of a CPU and of its new one holds of the tasks of all. -/
theorem forall_setTask {P : Cpu → Task → Prop} (h : ∀ j, P j (s.task j)) (ht : P i t) :
    ∀ j, P j ((s.setTask i t).task j) := by
  intro j
  by_cases hj : j = i
  · subst hj
    rwa [task_setTask_self]
  · rw [task_setTask_of_ne hj]
    exact h j

/-- A CPU that has no block calls `pgalloc`, or tries the next zone. -/
theorem WInv.try (h : WInv s) {size flags : Nat} {type : PfnType} {zs : List (Nat × PfnZone)}
    (hpg : (s.task i).pages = ∅) (hok : (Task.trying size type flags zs).Ok) :
    WInv (s.setTask i (.trying size type flags zs)) := by
  have hst : (s.setTask i (.trying size type flags zs)).stale = s.stale := by
    have hs : (s.task i).stale = ∅ := Set.subset_empty_iff.1 (hpg ▸ (s.task i).stale_subset)
    rw [stale_setTask, stale_split s i, hs]
    rfl
  refine ⟨?_, fun r hr ↦ ?_, h.out, ?_, ?_, ?_, ?_⟩
  · rw [hst]
    exact h.pinv
  · rw [hst]
    refine h.held r (hr.imp_right ?_)
    rintro ⟨j, type', k, hj⟩
    by_cases hji : j = i
    · subst hji
      rw [task_setTask_self] at hj
      cases hj
    · rw [task_setTask_of_ne hji] at hj
      exact ⟨j, type', k, hj⟩
  · exact forall_setTask (P := fun _ t ↦ ∀ r ∈ s.out, Disjoint t.pages (pages r.1 r.2)) h.apart
      fun r _ ↦ Set.empty_disjoint _
  · exact tasks_setTask h fun j _ ↦ Set.empty_disjoint _
  · exact forall_setTask (P := fun _ t ↦ t.Ok) h.ok hok
  · rw [hst]
    exact h.front

/-! ## The locked section of an allocation -/

omit [DecidableEq Cpu] in
/-- The block that a CPU is about to return is not free. -/
theorem WInv.task_busy (h : WInv s) (j : Cpu) (z : PfnZone) :
    Disjoint (s.task j).pages (freePfns s.zones s.stale z) := by
  cases ht : s.task j with
  | typing addr size type k => exact (h.held (addr, size) (.inr ⟨j, type, k, ht⟩)).busy z
  | _ => exact Set.empty_disjoint _

omit [DecidableEq Cpu] in
/-- The rest of a free block takes no tag that is out of date. -/
theorem WInv.ahead (h : WInv s) {e : Nat} (he : e ∈ starts s.zones s.stale) (hn : 0 < n)
    (hlt : n < (s.zones.db.pfn e).size)
    (hsafe : MergeSafe s.zones.db (e + n) ((s.zones.db.pfn e).size - n))
    (hX : e + (s.zones.db.pfn e).size ∈ s.stale) :
    next s.zones.db (e + n) ((s.zones.db.pfn e).size - n) = none := by
  have hend : e + n + ((s.zones.db.pfn e).size - n) = e + (s.zones.db.pfn e).size := by omega
  have hzn : s.zones.db.zone (e + n) = s.zones.db.zone e :=
    (h.pinv.entry e he).zone (e + n) (by omega) (by omega)
  rw [next]
  split
  · rfl
  · next hz =>
      split
      · next hs =>
          -- the free block would end where the tags of a pending one begin
          have hzone : s.zones.db.zone (e + (s.zones.db.pfn e).size) = s.zones.db.zone e := by
            by_cases h₁ : (s.zones.db.pfn e).size - n = 1
            · rw [← hend, h₁, ← not_not.1 hz]
              exact hzn
            · have hm := hsafe (by omega) hs
              rw [hend] at hm
              exact hm.trans hzn
          rw [hend] at hs
          exact absurd rfl (h.front _ hX hs _ (mem_ranges he) hzone.symm)
      · rfl

/-- A block is taken off the lists. -/
theorem WInv.take (h : WInv s) {e : Nat} {type : PfnType} (hpg : (s.task i).pages = ∅)
    (he : e ∈ starts s.zones s.stale) (hn : 0 < n) (hle : n ≤ (s.zones.db.pfn e).size)
    (hty : Untagged type) (hsafe : n < (s.zones.db.pfn e).size →
      MergeSafe s.zones.db (e + n) ((s.zones.db.pfn e).size - n)) :
    (∃ t, Zone.allocFrom backend s.zones (s.zones.db.zone e) e n = .ok (e, t) ∧
      WInv { s.setTask i (.typing e n type 0) with zones := t } ∧ t.db.max = s.zones.db.max) ∨
    Zone.allocFrom backend s.zones (s.zones.db.zone e) e n = .error .diff := by
  refine (h.pinv.allocFrom he hn hle hsafe fun hlt ↦ h.ahead he hn hlt (hsafe hlt)).imp_left ?_
  rintro ⟨t, hal, hi, hmax, hsame, hends, hfree⟩
  refine ⟨t, hal, ?_, hmax⟩
  have hok := h.pinv.entry e he
  have hzone : t.db.zone = s.zones.db.zone := zone_congr hmax
  have hst : (s.setTask i (.typing e n type 0)).stale = s.stale ∪ pages e n := by
    have hs : (s.task i).stale = ∅ := Set.subset_empty_iff.1 (hpg ▸ (s.task i).stale_subset)
    rw [stale_setTask, stale_split s i, hs, Set.empty_union, Set.union_comm]
    rfl
  have hsub : pages e n ⊆ freePfns s.zones s.stale (s.zones.db.zone e) := fun x hx ↦
    mem_freePfns.2 ⟨e, he, rfl, hx.1, hx.2.trans_le (Nat.add_le_add_left hle e)⟩
  have hless : ∀ z, freePfns t (s.stale ∪ pages e n) z ⊆ freePfns s.zones s.stale z := fun z ↦ by
    rw [hfree]
    exact Set.sdiff_subset
  refine ⟨?_, fun r hr ↦ ?_, h.out, ?_, ?_, ?_, ?_⟩
  · show PInv t (s.setTask i (.typing e n type 0)).stale
    rw [hst]
    exact hi
  · show OutOk t (s.setTask i (.typing e n type 0)).stale r
    rw [hst]
    have hold : ∀ {r}, s.Held r → OutOk t (s.stale ∪ pages e n) r := fun hr ↦
      (h.held _ hr).mono hmax fun z ↦ ((h.held _ hr).busy z).mono_right (hless z)
    rcases hr with hr | ⟨j, type', k, hj⟩
    · exact hold (.inl hr)
    · by_cases hji : j = i
      · subst hji
        obtain ⟨h₁, h₂, -, -⟩ := Task.typing.inj ((task_setTask_self ..).symm.trans hj)
        obtain ⟨a, m⟩ := r
        obtain rfl : e = a := h₁
        obtain rfl : n = m := h₂
        refine ⟨hok.pos, hn, ?_, ?_, fun z ↦ ?_⟩
        · rw [hmax]
          exact (Nat.add_le_add_left hle e).trans hok.bound
        · rw [hzone]
          exact fun x hx hx' ↦ hok.zone x hx (hx'.trans_le (Nat.add_le_add_left hle e))
        · rw [hfree]
          exact Set.disjoint_sdiff_right
      · exact hold (.inr ⟨j, type', k, (task_setTask_of_ne hji).symm.trans hj⟩)
  · refine forall_setTask (P := fun _ t ↦ ∀ r ∈ s.out, Disjoint t.pages (pages r.1 r.2)) h.apart ?_
    exact fun r hr ↦ (((h.held r (.inl hr)).busy _).mono_right hsub).symm
  · exact tasks_setTask h fun j _ ↦ ((h.task_busy j _).mono_right hsub).symm
  · exact forall_setTask (P := fun _ t ↦ t.Ok) h.ok hty
  · show ∀ x ∈ (s.setTask i (.typing e n type 0)).stale, (t.db.type x).isPgzstart = true →
      ∀ r ∈ ranges t (s.setTask i (.typing e n type 0)).stale, r.zone = t.db.zone x → r.hi ≠ x
    rw [hst, hzone]
    intro x hx hs r hr hz hhi
    rw [Db.type, hsame x hx] at hs
    obtain ⟨r', hr', hz', hhi'⟩ := hends r hr
    rcases hx with hx | hx
    · exact h.front x hx hs r' hr' (hz'.trans hz) (hhi'.trans hhi)
    · -- the only page of the block that begins one is its first
      have hbd := hok.bound
      have hxe : x < e + (s.zones.db.pfn e).size := hx.2.trans_le (Nat.add_le_add_left hle e)
      have hxs : x ∈ starts s.zones s.stale :=
        ⟨by omega, h.pinv.clean e he x hx.1 hxe, hs⟩
      obtain rfl := h.pinv.unique hxs he le_rfl
        (Nat.lt_add_of_pos_right (h.pinv.size_pos hxs)) hx.1 hxe
      exact h.pinv.tidy.maximal r' hr' _ (mem_ranges he) (hz'.trans hz) (hhi'.trans hhi)

/-! ## The types, and the return -/

/-- The type of one page is set. -/
theorem WInv.retype (h : WInv s) {type : PfnType} {k : Nat} (ht : s.task i = .typing a n type k)
    (hk : k < n) :
    WInv { s.setTask i (.typing a n type (k + 1)) with
      zones := { s.zones with db := s.zones.db.settypes (a + k) 1 type } } := by
  have hout := h.held (a, n) (.inr ⟨i, type, k, ht⟩)
  have hty : Untagged type := by
    have := h.ok i
    rwa [ht] at this
  have hmem : a + k ∈ (s.task i).pages := by
    rw [ht]
    exact ⟨Nat.le_add_right _ _, by omega⟩
  -- the tag of this page is the only one that is no longer out of date
  have hst : (s.setTask i (.typing a n type (k + 1))).stale = s.stale \ pages (a + k) 1 := by
    rw [stale_setTask, stale_split s i, ht]
    ext x
    have hoth : x = a + k → x ∉ s.others i := fun hx ↦
      Set.disjoint_left.1 (h.others_apart i) (hx ▸ hmem)
    simp only [Task.stale, pages, Set.mem_union, Set.mem_sdiff, Set.mem_ofPred_eq]
    constructor
    · rintro (hx | hx)
      · exact ⟨.inl (by omega), by omega⟩
      · exact ⟨.inr hx, fun hin ↦ hoth (by omega) hx⟩
    · rintro ⟨hx | hx, hin⟩
      · exact .inl (by omega)
      · exact .inr hx
  have hsub : pages (a + k) 1 ⊆ s.stale := by
    intro x hx
    rw [stale_split s i, ht]
    exact .inl ⟨hx.1, by have := hx.2; omega⟩
  have hbd : a + n ≤ s.zones.db.max := hout.bound
  obtain ⟨hi, hr⟩ := h.pinv.settypes hty.1 hty.2 hsub (by omega)
  have hpg : (Task.typing a n type (k + 1)).pages = (s.task i).pages := by
    rw [ht]
    rfl
  refine ⟨?_, fun r hr' ↦ ?_, h.out, ?_, ?_, ?_, ?_⟩
  · show PInv _ (s.setTask i _).stale
    rw [hst]
    exact hi
  · show OutOk _ (s.setTask i _).stale r
    rw [hst]
    have hold : ∀ {r}, s.Held r →
        OutOk { s.zones with db := s.zones.db.settypes (a + k) 1 type }
          (s.stale \ pages (a + k) 1) r := fun hr' ↦
      (h.held _ hr').mono rfl fun z ↦ by
          rw [freePfns, hr]
          exact (h.held _ hr').busy z
    rcases hr' with hr' | ⟨j, type', k', hj⟩
    · exact hold (.inl hr')
    · by_cases hji : j = i
      · subst hji
        obtain ⟨h₁, h₂, -, -⟩ := Task.typing.inj ((task_setTask_self ..).symm.trans hj)
        exact hold (.inr ⟨j, type, k, by rw [← h₁, ← h₂, ht]⟩)
      · exact hold (.inr ⟨j, type', k', (task_setTask_of_ne hji).symm.trans hj⟩)
  · exact forall_setTask (P := fun _ t ↦ ∀ r ∈ s.out, Disjoint t.pages (pages r.1 r.2)) h.apart
      fun r hr ↦ hpg ▸ h.apart i r hr
  · exact tasks_setTask h fun j hj ↦ hpg ▸ h.tasks i j (Ne.symm hj)
  · exact forall_setTask (P := fun _ t ↦ t.Ok) h.ok hty
  · show ∀ x ∈ (s.setTask i _).stale,
      ((s.zones.db.settypes (a + k) 1 type).type x).isPgzstart = true →
      ∀ r ∈ ranges _ (s.setTask i _).stale, r.zone = s.zones.db.zone x → r.hi ≠ x
    rw [hst, hr]
    intro x hx hs
    rw [settypes_type, if_neg (show ¬(a + k ≤ x ∧ x < a + k + 1) from hx.2)] at hs
    exact h.front x hx.1 hs

/-- The call returns. -/
theorem WInv.return (h : WInv s) {type : PfnType} {k : Nat} (ht : s.task i = .typing a n type k)
    (hk : n ≤ k) : WInv { s.setTask i .idle with out := (a, n) :: s.out } := by
  have hst : (s.setTask i .idle).stale = s.stale := by
    have hs : (s.task i).stale = ∅ := by
      rw [ht]
      exact Set.eq_empty_of_forall_notMem fun x hx ↦ by have := hx.1; have := hx.2; omega
    rw [stale_setTask, stale_split s i, hs]
    rfl
  refine ⟨?_, fun r hr ↦ ?_, List.pairwise_cons.2 ⟨fun r hr ↦ ?_, h.out⟩, fun j r hr ↦ ?_, ?_, ?_,
    ?_⟩
  · show PInv _ (s.setTask i _).stale
    rw [hst]
    exact h.pinv
  · show OutOk _ (s.setTask i _).stale r
    rw [hst]
    refine h.held r ?_
    rcases hr with hr | ⟨j, type', k', hj⟩
    · rcases List.mem_cons.1 hr with rfl | hr
      · exact .inr ⟨i, type, k, ht⟩
      · exact .inl hr
    · by_cases hji : j = i
      · subst hji
        cases (task_setTask_self ..).symm.trans hj
      · exact .inr ⟨j, type', k', (task_setTask_of_ne hji).symm.trans hj⟩
  · have := h.apart i r hr
    rwa [ht] at this
  · by_cases hji : j = i
    · subst hji
      show Disjoint ((s.setTask j .idle).task j).pages _
      rw [task_setTask_self]
      exact Set.empty_disjoint _
    · show Disjoint ((s.setTask i .idle).task j).pages _
      rw [task_setTask_of_ne hji]
      rcases List.mem_cons.1 hr with rfl | hr
      · have := h.tasks j i hji
        rwa [ht] at this
      · exact h.apart j r hr
  · exact tasks_setTask h fun j _ ↦ Set.empty_disjoint _
  · exact forall_setTask (P := fun _ t ↦ t.Ok) h.ok trivial
  · show ∀ x ∈ (s.setTask i _).stale, _ → ∀ r ∈ ranges _ (s.setTask i _).stale, _
    rw [hst]
    exact h.front

/-! ## Freeing -/

omit [DecidableEq Cpu] in
/-- A range that is handed out is a block to free. -/
theorem WInv.block (h : WInv s) (hm : (a, n) ∈ s.out) (hsafe : SmpSafe s (.pgfree i a n)) :
    Block s.zones s.stale a n :=
  (h.held _ (.inl hm)).block h.pinv hsafe.1 hsafe.2.1 hsafe.2.2

omit [DecidableEq Cpu] in
/-- `pgfree` of a range that is handed out. -/
theorem WInv.pgfree (h : WInv s) (hm : (a, n) ∈ s.out) (hsafe : SmpSafe s (.pgfree i a n)) :
    ∃ t, Pg.pgfree s.zones a n = .ok t ∧
      WInv { s with zones := t, out := s.out.erase (a, n) } := by
  have hblk := h.block hm hsafe
  obtain ⟨t, ht, hinv, hdb, hfree⟩ := hblk.create h.pinv
  have hX : s.stale \ pages a n = s.stale := sdiff_eq_left.2 (h.stale_out hm)
  have hmax : t.db.max = s.zones.db.max := by rw [hdb, Block.db'_max]
  have hzone : t.db.zone = s.zones.db.zone := zone_congr hmax
  have hperm := List.perm_cons_erase hm
  obtain ⟨hap, hrest⟩ := List.pairwise_cons.1
    ((hperm.pairwise_iff fun hd ↦ Disjoint.symm hd).1 h.out)
  refine ⟨t, ?_, ?_, fun r hr ↦ ?_, hrest, fun j r hr ↦ h.apart j r (List.mem_of_mem_erase hr),
    h.tasks, h.ok, fun x hx hs r hr hz hhi ↦ ?_⟩
  · rw [Pg.pgfree, if_neg, Zone.free, if_neg hblk.size_pos.ne']
    · exact ht
    · rintro (h₀ | h₀)
      · exact hblk.addr_pos.ne' h₀
      · exact hblk.size_pos.ne' h₀
  · show PInv t s.stale
    rw [← hX]
    exact hinv
  · -- the range that is freed is apart from the ones that stay
    show OutOk t s.stale r
    have hd : Disjoint (pages r.1 r.2) (pages a n) := by
      rcases hr with hr | ⟨j, type, k, hj⟩
      · exact (hap r hr).symm
      · have := h.apart j _ hm
        rwa [hj] at this
    have hor : s.Held r := hr.imp_left List.mem_of_mem_erase
    refine (h.held r hor).mono hmax fun z ↦ ?_
    rw [← hX, hfree, Set.disjoint_union_right]
    exact ⟨(h.held r hor).busy z, hd.mono_right fun x hx ↦ hx.2⟩
  · change x ∈ s.stale at hx
    change (t.db.type x).isPgzstart = true at hs
    change r ∈ ranges t s.stale at hr
    change r.zone = t.db.zone x at hz
    rw [← hX] at hx hr
    rw [Db.type, hdb, (hblk.span h.pinv).db'_stale h.pinv.binv hx] at hs
    rw [hzone] at hz
    rw [hblk.ranges_eq h.pinv hdb] at hr
    rcases Range.hi_of_mem_merge (hblk.neighbors h.pinv) hr with ⟨r', hr', hz', hhi'⟩ | ⟨hz', hhi'⟩
    · exact h.front x hx.1 hs r' hr' (hz'.trans hz) (hhi'.trans hhi)
    · obtain rfl := hhi'.symm.trans hhi
      have hnone := hblk.ahead hx.1
      have hsame : s.zones.db.zone a = s.zones.db.zone (a + 1) := by
        by_cases h₁ : n = 1
        · rw [h₁] at hz
          exact hz'.symm.trans hz
        · have := hblk.size_pos
          exact (hblk.zone (a + 1) (by omega) (by omega)).symm
      change (s.zones.db.type (a + n)).isPgzstart = true at hs
      rw [next, if_neg (not_not.2 hsame), if_pos hs] at hnone
      cases hnone

/-! ## A step -/

omit [DecidableEq Cpu] in
/-- The block that a CPU finds is free, and large enough. -/
theorem WInv.findfree (h : WInv s) {z : PfnZone} {e : Nat}
    (hf : Zone.findfree s.zones z n = some e) :
    e ∈ starts s.zones s.stale ∧ s.zones.db.zone e = z ∧ n ≤ (s.zones.db.pfn e).size := by
  obtain ⟨he, hz, hle⟩ := h.pinv.zinv.findfree hf
  rw [range_len] at hle
  exact ⟨he, hz, hle⟩

/-- A CPU in `pgalloc` goes on. -/
theorem WInv.next (h : WInv s) (hsafe : SmpSafe s (.next i)) (hex : s.next i = .ok s') :
    WInv s' ∧ s'.zones.db.max = s.zones.db.max := by
  unfold Smp.next at hex
  cases ht : s.task i with
  | idle =>
      rw [ht] at hex
      rw [← Except.ok.inj hex]
      exact ⟨h, rfl⟩
  | trying size type flags zs =>
      rw [ht] at hex
      have hok := h.ok i
      have hpg : (s.task i).pages = ∅ := by
        rw [ht]
        rfl
      rw [ht] at hok
      cases zs with
      | nil => cases hex
      | cons z zs =>
          obtain ⟨⟨addr, zones⟩, htry, hex⟩ := bind_eq_ok.1 hex
          rw [← Except.ok.inj hex]
          -- the next zone is tried
          have hagain : WInv { s.setTask i (.trying size type flags zs) with zones := s.zones } :=
            h.try hpg hok
          rw [tryZone] at htry
          split at htry
          · next hbit =>
              rw [Zone.alloc, if_neg hok.1.ne'] at htry
              cases hf : Zone.findfree s.zones z.2 size with
              | none =>
                  rw [hf] at htry
                  cases htry
                  exact ⟨hagain, rfl⟩
              | some e =>
                  simp only [hf] at htry
                  obtain ⟨he, hz, hle⟩ := h.findfree hf
                  rw [← hz] at htry
                  rcases h.take hpg he hok.1 hle hok.2 (hsafe _ _ _ _ _ _ ht hbit.2 hf) with
                    ⟨t, hal, hw, hmax⟩ | herr
                  · rw [hal] at htry
                    obtain ⟨rfl, rfl⟩ := Prod.mk.inj (Except.ok.inj htry)
                    rw [if_neg (h.pinv.entry e he).pos.ne']
                    exact ⟨hw, hmax⟩
                  · rw [herr] at htry
                    cases htry
          · cases htry
            exact ⟨hagain, rfl⟩
  | typing addr size type k =>
      rw [ht] at hex
      simp only at hex
      split at hex
      · next hk =>
          rw [← Except.ok.inj hex]
          exact ⟨h.retype ht hk, rfl⟩
      · next hk =>
          rw [← Except.ok.inj hex]
          exact ⟨h.return ht (Nat.not_lt.1 hk), rfl⟩

/-- A safe step keeps the invariant. -/
theorem WInv.step {op : SmpOp Cpu} (h : WInv s) (hsafe : SmpSafe s op) (hst : SmpStep s op s') :
    WInv s' := by
  obtain ⟨ha, hex⟩ := hst
  cases op with
  | pgalloc i size type flags =>
      obtain ⟨hidle, -, hty⟩ := ha
      rw [Smp.exec] at hex
      split at hex
      · cases hex
      · next hn =>
          rw [← Except.ok.inj hex]
          refine h.try ?_ ⟨Nat.pos_of_ne_zero hn, hty⟩
          rw [hidle]
          rfl
  | next i => exact (h.next hsafe hex).1
  | pgfree i pfn size =>
      obtain ⟨t, ht, hw⟩ := h.pgfree ha.2 hsafe
      rw [Smp.exec, ht] at hex
      rw [← Except.ok.inj hex]
      exact hw

end Tasks

/-! ## What holds at every point -/

theorem WInv.heldApart (h : WInv s) : HeldApart s := by
  intro r hr x hx hx' z k e he hin
  have hm := h.pinv.zinv.filed.mem he
  rw [(h.pinv.entry e hm).addr] at hin
  exact Set.disjoint_left.1 ((h.held r hr).busy (s.zones.db.zone e)) ⟨hx, hx'⟩
    (mem_freePfns.2 ⟨e, hm, rfl, hin⟩)

namespace Block

variable {zs : PgZones} {X : Set Nat} {p : Nat}

/-- The entries that `zone_create` takes off the lists are different ones. -/
theorem neighbors_nodup (hb : Block zs X a n) (h : PInv zs X) :
    (Pg.neighbors zs.db a n).Nodup := by
  rw [Pg.neighbors, (hb.span h).getNeighbors_eq h.binv]
  refine List.Nodup.append ?_ ?_ ?_
  · cases prev zs.db a <;> simp
  · cases next zs.db a n <;> simp
  · intro q hq hq'
    exact (hb.span h).prev_ne_next h.binv (Option.mem_toList.1 hq') (Option.mem_toList.1 hq)

/-- The entries that `zone_create` takes off the lists are blocks of the zone. -/
theorem neighbors_mem (hb : Block zs X a n) (h : PInv zs X) (hp : p ∈ Pg.neighbors zs.db a n) :
    p ∈ starts zs X ∧ zs.db.zone p = zs.db.zone a := by
  rw [Pg.neighbors, (hb.span h).getNeighbors_eq h.binv] at hp
  rcases List.mem_append.1 hp with hp | hp
  · obtain ⟨hm, hz, -⟩ := (hb.prev_eq_some h).1 (Option.mem_toList.1 hp)
    exact ⟨hm, hz⟩
  · obtain ⟨hm, hz, -⟩ := (hb.next_eq_some h).1 (Option.mem_toList.1 hp)
    exact ⟨hm, hz⟩

end Block

/-- A block is on a list of its zone. -/
theorem PInv.listed {X : Set Nat} {p : Nat} (h : PInv zs X) (hp : p ∈ starts zs X) :
    ∃ k, p ∈ zs.zlist (zs.db.zone p, k) := ⟨_, h.zinv.mem_bin hp⟩

/-- What an allocation takes off the lists. -/
theorem WInv.rest_neighbors (h : WInv s) {e : Nat} (he : e ∈ starts s.zones s.stale) (hn : 0 < n)
    (hlt : n < (s.zones.db.pfn e).size)
    (hsafe : MergeSafe s.zones.db (e + n) ((s.zones.db.pfn e).size - n)) :
    (e :: neighbors s.zones.db (e + n) ((s.zones.db.pfn e).size - n)).Nodup ∧
      ∀ p ∈ neighbors s.zones.db (e + n) ((s.zones.db.pfn e).size - n),
        p ∈ starts s.zones s.stale ∧ s.zones.db.zone p = s.zones.db.zone e := by
  obtain ⟨t, -, ht, hdb, hst⟩ := h.pinv.remove he
  have hblk := h.pinv.block_of_remove he hdb hst hn hlt hsafe (h.ahead he hn hlt hsafe)
  have hmem := fun {p} ↦ hblk.neighbors_mem ht (p := p)
  have hnd := hblk.neighbors_nodup ht
  rw [hst, hdb] at hmem
  rw [hdb] at hnd
  refine ⟨List.nodup_cons.2 ⟨fun hp ↦ (hmem hp).1.2 rfl, hnd⟩, fun p hp ↦ ⟨(hmem hp).1.1, ?_⟩⟩
  rw [(hmem hp).2]
  exact (h.pinv.entry e he).zone (e + n) (by omega) (by omega)

/-- A safe step takes only entries off the lists that are on one. -/
theorem WInv.removesListed {op : SmpOp Cpu} (h : WInv s) (ha : SmpAllowed s op)
    (hsafe : SmpSafe s op) : RemovesListed s op := by
  have hmap : ∀ {z : PfnZone} {l : List Nat}, l.Nodup →
      (∀ p ∈ l, p ∈ starts s.zones s.stale ∧ s.zones.db.zone p = z) →
      (l.map (Prod.mk z)).Nodup ∧ ∀ r ∈ l.map (Prod.mk z), ∃ k, r.2 ∈ s.zones.zlist (r.1, k) := by
    intro z l hnd hl
    refine ⟨hnd.map fun _ _ hp ↦ (Prod.mk.inj hp).2, fun r hr ↦ ?_⟩
    obtain ⟨p, hp, rfl⟩ := List.mem_map.1 hr
    obtain ⟨hm, rfl⟩ := hl p hp
    exact h.pinv.listed hm
  have hnil : ([] : List (PfnZone × Nat)).Nodup ∧ ∀ r ∈ ([] : List (PfnZone × Nat)),
      ∃ k, r.2 ∈ s.zones.zlist (r.1, k) := ⟨.nil, fun _ hr ↦ absurd hr List.not_mem_nil⟩
  rw [RemovesListed]
  cases op with
  | pgalloc => exact hnil
  | next i =>
      rw [Smp.removals]
      cases ht : s.task i with
      | idle => exact hnil
      | typing => exact hnil
      | trying size type flags zs =>
          cases zs with
          | nil => exact hnil
          | cons z zs =>
              simp only
              have hok := h.ok i
              rw [ht] at hok
              split
              · exact hnil
              · next hbit =>
                  cases hf : Zone.findfree s.zones z.2 size with
                  | none => exact hnil
                  | some e =>
                      obtain ⟨he, hz, hle⟩ := h.findfree hf
                      simp only [(h.pinv.entry e he).addr]
                      split
                      · next hlt =>
                          obtain ⟨hnd, hm⟩ := h.rest_neighbors he hok.1 hlt
                            (hsafe _ _ _ _ _ _ ht hbit hf hlt)
                          refine hmap hnd fun p hp ↦ ?_
                          rcases List.mem_cons.1 hp with rfl | hp
                          · exact ⟨he, hz⟩
                          · exact ⟨(hm p hp).1, (hm p hp).2.trans hz⟩
                      · refine hmap (List.nodup_singleton e) fun p hp ↦ ?_
                        obtain rfl := List.mem_singleton.1 hp
                        exact ⟨he, hz⟩
  | pgfree i pfn size =>
      have hblk := h.block ha.2 hsafe
      exact hmap (hblk.neighbors_nodup h.pinv) fun p hp ↦ hblk.neighbors_mem h.pinv hp

/-! ## Runs -/

section Runs

variable [DecidableEq Cpu]

theorem WInv.run (h : WInv s) {ops : List (SmpOp Cpu)} (hr : Run SmpSafeStep s ops s') : WInv s' :=
  hr.invariant (I := WInv) (fun _ _ _ hs hst ↦ hs.step hst.1 hst.2) h

/-- From `pginit`, in every run of safe steps of any number of CPUs: no page that is handed out is
on a list, and no entry is taken off a list that it is not on. -/
theorem allocated_not_free (hb : Boot db) : ∃ zs, pginit db = .ok zs ∧
    ∀ (ops : List (SmpOp Cpu)) s, Run SmpSafeStep (Smp.boot zs) ops s →
      HeldApart s ∧ ∀ op, SmpAllowed s op → SmpSafe s op → RemovesListed s op := by
  obtain ⟨zs, hzs, hinv, -⟩ := pginit_ok hb
  refine ⟨zs, hzs, fun ops s hr ↦ ?_⟩
  have h := (winv_boot hinv).run hr
  exact ⟨h.heldApart, fun op ha hsafe ↦ h.removesListed ha hsafe⟩

end Runs

/-! ## Three pages -/

theorem boot_threePages : Boot threePages := by
  refine ⟨by decide, fun p _ ↦ ?_, fun p _ ↦ ?_, by decide⟩
  · show (if p = 0 then PfnType.system else .free).isPgzstart = false
    split <;> rfl
  · show (if p = 0 then PfnType.system else .free).isPgzterm = false
    split <;> rfl

/-- One step, if it is allowed. -/
def checked (s : Smp Bool) (op : SmpOp Bool) : Except Panic (Smp Bool) :=
  if SmpAllowed s op then s.exec op else .error .oom

theorem smpStep_of_checked {s s' : Smp Bool} {op : SmpOp Bool} (h : checked s op = .ok s') :
    SmpStep s op s' := by
  rw [checked] at h
  split at h
  · next ha => exact ⟨ha, h⟩
  · cases h

/-- `pginit` of the three pages, and then a run. -/
theorem runThree {B : Type} {g : Smp Bool → B} {b : B} {ops : List (SmpOp Bool)}
    (h : ((pginit threePages).bind fun zs ↦ ops.foldlM checked (Smp.boot zs)).toOption.map g =
      some b) :
    ∃ zs s, pginit threePages = .ok zs ∧ Run SmpStep (Smp.boot zs) ops s ∧ g s = b := by
  cases hp : pginit threePages with
  | error e =>
      rw [hp] at h
      cases h
  | ok zs =>
      rw [hp] at h
      obtain ⟨s, hr, hs⟩ := Run.of_foldlM h
      exact ⟨zs, s, rfl, hr.mono fun _ _ _ ↦ smpStep_of_checked, hs⟩

/-- In four pages there is no block that two pages of a rest could be joined to. -/
theorem WInv.next_safe (h : WInv s) (hmax : s.zones.db.max = 4) (i : Cpu) :
    SmpSafe s (.next i) := by
  intro size type flags z zs e ht _ hf hlt h₂ hst
  obtain ⟨he, -, -⟩ := h.findfree hf
  have hok := h.ok i
  rw [ht] at hok
  have hn : 0 < size := hok.1
  have hpos := (h.pinv.entry e he).pos
  have hbd := (h.pinv.entry e he).bound
  have hlast : e + size + ((s.zones.db.pfn e).size - size) = s.zones.db.max := by omega
  rw [hlast, h.pinv.top] at hst
  cases hst

/-- Calls of `pgalloc` in four pages are safe. -/
theorem WInv.safeRun [DecidableEq Cpu] (h : WInv s) (hmax : s.zones.db.max = 4)
    {ops : List (SmpOp Cpu)} (hops : ∀ i pfn size, SmpOp.pgfree i pfn size ∉ ops)
    (hr : Run SmpStep s ops s') : Run SmpSafeStep s ops s' := by
  induction hr with
  | nil s => exact .nil s
  | @cons s t r op ops hst _ ih =>
      have hsafe : SmpSafe s op := by
        cases op with
        | pgalloc => trivial
        | next i => exact h.next_safe hmax i
        | pgfree i pfn size => exact absurd List.mem_cons_self (hops i pfn size)
      refine .cons ⟨hsafe, hst⟩ (ih (h.step hsafe hst) ?_ fun i pfn size hm ↦
        hops i pfn size (List.mem_cons_of_mem _ hm))
      obtain ⟨-, hex⟩ := hst
      cases op with
      | pgalloc i size type flags =>
          rw [Smp.exec] at hex
          split at hex
          · cases hex
          · rw [← Except.ok.inj hex]
            exact hmax
      | next i => exact (h.next hsafe hex).2.trans hmax
      | pgfree i pfn size => exact absurd List.mem_cons_self (hops i pfn size)

/-- One CPU has a page, and another one has got two and has not yet set their types. -/
def window : List (SmpOp Bool) :=
  [.pgalloc false 1 .user 0, .next false, .next false, .next false, .next false, .next false,
    .next false, .pgalloc true 2 .user 0, .next true, .next true, .next true, .next true]

/-- What that run leads to. -/
theorem windowRun {B : Type} {g : Smp Bool → B} {b : B}
    (h : ((pginit threePages).bind fun zs ↦ window.foldlM checked (Smp.boot zs)).toOption.map g =
      some b) :
    ∃ zs s, pginit threePages = .ok zs ∧ Run SmpSafeStep (Smp.boot zs) window s ∧ WInv s ∧
      g s = b := by
  obtain ⟨zs, s, hzs, hr, hs⟩ := runThree h
  obtain ⟨zs', hzs', hinv, hmax, -⟩ := pginit_ok boot_threePages
  obtain rfl := Except.ok.inj (hzs.symm.trans hzs')
  have hw : WInv (Smp.boot zs : Smp Bool) := winv_boot hinv
  have hsafe := hw.safeRun hmax (fun i pfn size hm ↦ by simp [window] at hm) hr
  exact ⟨zs, s, hzs, hsafe, hw.run hsafe, hs⟩

/-- The pages of the two CPUs are not free. -/
theorem allocated_not_free_three : ∃ zs s, pginit threePages = .ok zs ∧
    Run SmpSafeStep (Smp.boot zs) window s ∧
    s.out = [(1, 1)] ∧ s.task true = .typing 2 2 .user 0 ∧ HeldApart s := by
  obtain ⟨zs, hzs, hok⟩ : ∃ zs, pginit threePages = .ok zs ∧
      ∀ (ops : List (SmpOp Bool)) s, Run SmpSafeStep (Smp.boot zs) ops s → HeldApart s ∧ _ :=
    allocated_not_free boot_threePages
  obtain ⟨zs', s, hzs', hsafe, -, hs⟩ :=
    windowRun (g := fun s ↦ (s.out, s.task true)) (b := ([(1, 1)], .typing 2 2 .user 0))
      (by decide +kernel)
  obtain rfl := Except.ok.inj (hzs.symm.trans hzs')
  exact ⟨zs, s, hzs, hsafe, congrArg Prod.fst hs, congrArg Prod.snd hs, (hok _ _ hsafe).1⟩

/-- The first CPU frees its page while the other is in the window, and takes the page above for
the first one of a free block. -/
def joinsStale (s : Smp Bool) : Bool :=
  s.removals (.pgfree false 1 1) = [(s.zones.db.zone 1, 2)] ∧ (s.zones.db.pfn 2).addr = 2 ∧
    (s.zones.db.pfn 2).size = 2 ∧ s.task true = .typing 2 2 .user 0 ∧
    SmpAllowed s (.pgfree false 1 1)

/-- The block of three pages that it puts on a list. -/
def listsThree (s s' : Smp Bool) : Bool :=
  1 ∈ s'.zones.zlist (s.zones.db.zone 1, 1) ∧ (s'.zones.db.pfn 1).addr = 1 ∧
    (s'.zones.db.pfn 1).size = 3 ∧ s'.task true = .typing 2 2 .user 0

/-- A page that is freed in the window of another CPU takes the pages that this CPU has got back
to the lists: an entry is taken off a list that it is not on, and pages that are handed out are
free. -/
theorem allocated_and_free : ∃ zs s s', Boot threePages ∧ pginit threePages = .ok zs ∧
    Run SmpStep (Smp.boot zs) window s ∧ ¬ RemovesListed s (.pgfree false 1 1) ∧
    SmpStep s (.pgfree false 1 1) s' ∧ s'.Held (2, 2) ∧ ¬ HeldApart s' := by
  obtain ⟨zs, s, hzs, hsafe, hw, hs⟩ :=
    windowRun
      (g := fun s ↦ (joinsStale s, (s.exec (.pgfree false 1 1)).toOption.map (listsThree s)))
      (b := (true, some true)) (by decide +kernel)
  obtain ⟨hrem, haddr, hsize, htask, hal⟩ := of_decide_eq_true (congrArg Prod.fst hs)
  obtain ⟨s', hex, hs'⟩ := exists_eq_ok (congrArg Prod.snd hs)
  obtain ⟨hl, haddr', hsize', htask'⟩ := of_decide_eq_true hs'
  refine ⟨zs, s, s', boot_threePages, hzs, hsafe.mono fun _ _ _ h ↦ h.2, ?_, ⟨hal, hex⟩,
    .inr ⟨true, .user, 0, htask'⟩, fun hap ↦ ?_⟩
  · intro hl
    obtain ⟨k, hk⟩ := hl.2 (s.zones.db.zone 1, 2) (by rw [hrem]; exact List.mem_singleton_self _)
    exact hw.heldApart (2, 2) (.inr ⟨true, .user, 0, htask⟩) 2 le_rfl (by decide) _ k 2 hk
      (by rw [haddr, hsize]; decide)
  · exact hap (2, 2) (.inr ⟨true, .user, 0, htask'⟩) 2 le_rfl (by decide) _ 1 1 hl
      (by rw [haddr', hsize']; decide)

end Mh.Pg
