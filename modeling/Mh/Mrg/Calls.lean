import Mh.Mrg.Tree

/-!
# Allocating and freeing address space

In every run of `vmap_alloc` and `vmap_free`, from the first allocation on, the entries of the
tree tile the range between `VM_MINMMAP_ADDRESS` and `VM_MAXMMAP_ADDRESS`; the free ones are
those of the lists, and `vmap_info` finds for each address the one entry that holds it.

No call trips an assertion but one: a size that does not fit a number of pages below `2 ^ 32`
rounds to 0, which the allocator asserts that it is not asked for (`vmap_tiles`).
-/

namespace Mh.Mrg

open Mh.Lib Mh.Zone

variable {rb : Rb} {vmMaxmmap : Nat} {z t : VZone} {s s' : State} {e vme : Vme} {a n r va : Nat}
  {ty : UInt8} {op : Op}

/-! ## The zone -/

/-- What taking a block from the free nodes does. -/
structure Took (z t : VZone) (a n : Nat) : Prop where
  vinv : VInv t
  block : Block t a n
  covered : covered t = covered z \ Set.Ico a (a + n)
  sub : Set.Ico a (a + n) ⊆ Mrg.covered z
  taken : ∀ e, e.type ≠ vfntFree → (e ∈ t.db.tree ↔ e ∈ z.db.tree)
  size : w32 (t.db.size + n) = w32 z.db.size

/-- The addresses of a node. -/
theorem ico_sub_covered (he : e ∈ z.db.tree) :
    Set.Ico e.addr (e.addr + e.size) ⊆ covered z := fun _ hx ↦ mem_covered.2 ⟨e, he, hx⟩

namespace VInv

/-- `zone_remove` of a free node. -/
theorem remove (rb : Rb) (h : VInv z) (he : e ∈ frees z) :
    ∃ t, Zone.remove (backend rb) z () e = .ok t ∧ t.db.tree = z.db.tree.erase e ∧
      Took z t e.addr e.size := by
  have hrem := h.zinv.remove (backend rb) he (Vme.block_len e).symm
  have hmem : ∀ e', e' ∈ z.db.tree.erase e ↔ e' ≠ e ∧ e' ∈ z.db.tree :=
    fun e' ↦ h.nodup.mem_erase_iff
  refine ⟨_, hrem, rfl, ?_⟩
  set t : VZone := { z.detach e.block.zone e e.block.len with
    db := (backend rb).freeptr z.db e } with ht
  have hfrees : frees t = frees z \ {e} := by
    ext e'
    show e' ∈ z.db.tree.erase e ∧ e'.type = vfntFree ↔ _
    rw [hmem]
    exact ⟨fun ⟨⟨hne, hm⟩, hf⟩ ↦ ⟨⟨hm, hf⟩, hne⟩, fun ⟨⟨hm, hf⟩, hne⟩ ↦ ⟨⟨hne, hm⟩, hf⟩⟩
  have hz : ZInv t (frees t) Vme.block := by
    rw [hfrees]
    exact (h.zinv.detach he).setDb _
  obtain ⟨hv, hc⟩ := h.erase he.1 rfl hz
  have hblock : Block t e.addr e.size := h.block_of_erase he.1 rfl (h.size_pos he.1)
  refine ⟨hv, hblock, hc, ico_sub_covered he.1, fun e' hty ↦ ?_, ?_⟩
  · show e' ∈ z.db.tree.erase e ↔ _
    rw [hmem]
    refine ⟨fun h ↦ h.2, fun hm ↦ ⟨?_, hm⟩⟩
    rintro rfl
    exact hty he.2
  · have hlt := h.size_lt he.1
    show w32 (w32 (z.db.size + (2 ^ 32 - e.size)) + e.size) = w32 z.db.size
    simp only [w32]
    omega

/-- `alloc` from a free node that is large enough. -/
theorem allocFrom (rb : Rb) (h : VInv z) (he : e ∈ frees z) (hn : 0 < n) (hle : n ≤ e.size)
    (hshort : e.size < 2 ^ 31) :
    ∃ t, Zone.allocFrom (backend rb) z () e n = .ok (e.addr, t) ∧ Took z t e.addr n := by
  have hpos := (h.node e he.1).pos
  have hbd := (h.node e he.1).bound
  have hdiff : w32 ((backend rb).size z.db e + (2 ^ 32 - n)) = e.size - n := by
    show (e.size + (2 ^ 32 - n)) % 2 ^ 32 = e.size - n
    omega
  have hsmall : ¬ 2 ^ 31 ≤ e.size - n := by omega
  obtain ⟨z₁, hrem, ht₁, h₁⟩ := h.remove rb he
  by_cases heq : n = e.size
  · subst heq
    refine ⟨z₁, ?_, h₁⟩
    simp only [Zone.allocFrom, hdiff, hrem, bind, Except.bind, Nat.sub_self, Nat.lt_irrefl,
      if_false, pure, Except.pure]
    rfl
  · have hlt : n < e.size := lt_of_le_of_ne hle heq
    obtain ⟨t, hcr, ht⟩ := (h.block_of_erase he.1 ht₁ hlt).create rb h₁.vinv
    have hw : w32 ((backend rb).addr z.db e + n) = e.addr + n :=
      Nat.mod_eq_of_lt (by show e.addr + n < 2 ^ 32; omega)
    have hend : e.addr + n + (e.size - n) = e.addr + e.size := by omega
    have hsub := ico_sub_covered he.1
    have hcov : covered t = covered z \ Set.Ico e.addr (e.addr + n) := by
      rw [ht.covered, h₁.covered, hend]
      ext x
      have hx := @hsub x
      simp only [Set.mem_union, Set.mem_sdiff, Set.mem_Ico] at hx ⊢
      by_cases hc : x ∈ covered z
      · simp only [hc, true_and]
        omega
      · have hnx : ¬ (e.addr ≤ x ∧ x < e.addr + e.size) := fun hx' ↦ hc (hx hx')
        simp only [hc, false_and, false_or, iff_false]
        omega
    refine ⟨t, ?_, ht.vinv, ⟨hpos, hn, by omega, fun e' he' ↦ ?_⟩, hcov, ?_, fun e' hty ↦ ?_, ?_⟩
    · simp only [Zone.allocFrom, hdiff, if_neg hsmall, hrem, bind, Except.bind, hw,
        if_pos (Nat.sub_pos_of_lt hlt), hcr, pure, Except.pure]
      rfl
    · -- an entry that holds the first address of the block would be covered
      by_contra hc
      have hsz := ht.vinv.size_pos he'
      have hx : max e.addr e'.addr ∈ covered t :=
        mem_covered.2 ⟨e', he', le_max_right _ _, by omega⟩
      rw [hcov] at hx
      exact hx.2 ⟨le_max_left _ _, by omega⟩
    · exact (Set.Ico_subset_Ico_right (Nat.add_le_add_left hle _)).trans hsub
    · rw [ht.taken e' hty, h₁.taken e' hty]
    · have hs₁ := h₁.size
      have hs := ht.size
      simp only [w32] at hs₁ hs ⊢
      omega

/-- `vmapzone_alloc`: nothing, or the beginning of a node that was free. -/
theorem alloc (rb : Rb) (h : VInv z) (hn : 0 < n) (hshort : ∀ e ∈ frees z, e.size < 2 ^ 31) :
    Zone.alloc (backend rb) z () n = .ok (0, z) ∨
    ∃ e ∈ frees z, ∃ t, Zone.alloc (backend rb) z () n = .ok (e.addr, t) ∧ 0 < e.addr ∧
      Took z t e.addr n := by
  rw [Zone.alloc, if_neg hn.ne']
  cases hf : findfree z () n with
  | none => exact .inl rfl
  | some e =>
      obtain ⟨he, _, hle⟩ := h.zinv.findfree hf
      rw [Vme.block_len] at hle
      obtain ⟨t, ht, htook⟩ := h.allocFrom rb he hn hle (hshort e he)
      exact .inr ⟨e, he, t, ht, (h.node e he.1).pos, htook⟩

end VInv

/-! ## The map -/

/-- The range that is mapped is not empty, and is shorter than half of the address space. -/
structure Region (vmMaxmmap : Nat) : Prop where
  lt : vmMinmmap < vmMaxmmap
  short : vmMaxmmap - vmMinmmap < 2 ^ 31

/-- The nodes tile the range, and those that are not free are the ranges handed out. -/
structure Mapped (vmMaxmmap : Nat) (z : VZone) (out : Set (Nat × Nat)) : Prop where
  vinv : VInv z
  covered : covered z = Set.Ico vmMinmmap vmMaxmmap
  size : z.db.size = vmMaxmmap - vmMinmmap
  out : ∀ a n, (a, n) ∈ out ↔ ∃ ty, ty ≠ vfntFree ∧ (⟨ty, a, n⟩ : Vme) ∈ z.db.tree

theorem vmMinmmap_eq : vmMinmmap = 1610612736 := by decide

namespace Mapped

/-- A node lies in the range. -/
theorem inside {out : Set (Nat × Nat)} (h : Mapped vmMaxmmap z out) (he : e ∈ z.db.tree) :
    0 < e.size ∧ vmMinmmap ≤ e.addr ∧ e.addr + e.size ≤ vmMaxmmap := by
  have hs := h.vinv.size_pos he
  have hsub := ico_sub_covered he
  rw [h.covered] at hsub
  have hlo := (@hsub e.addr ⟨le_rfl, by omega⟩).1
  have hhi := (@hsub (e.addr + e.size - 1) ⟨by omega, by omega⟩).2
  exact ⟨hs, hlo, by omega⟩

/-- `vmap_init`. -/
theorem init (rb : Rb) (hR : Region vmMaxmmap) :
    ∃ z, vmapInit rb vmMaxmmap = .ok z ∧ Mapped vmMaxmmap z ∅ := by
  have hlt := hR.lt
  have hshort := hR.short
  have hmin := vmMinmmap_eq
  have hb : Block (Zone.init ⟨[], 0⟩) vmMinmmap (vmMaxmmap - vmMinmmap) :=
    ⟨by omega, by omega, by omega, fun e he ↦ absurd he List.not_mem_nil⟩
  obtain ⟨z, hz, h⟩ := hb.create rb vinv_init
  have hfree : vmapInit rb vmMaxmmap = .ok z := by
    rw [vmapInit, Zone.free, if_neg hb.size_pos.ne', hz]
  have hnil : Mrg.covered (Zone.init ⟨[], 0⟩) = ∅ := by
    ext x
    rw [mem_covered]
    simp [Zone.init]
  refine ⟨z, hfree, h.vinv, ?_, ?_, fun a n ↦ ?_⟩
  · rw [h.covered, hnil, Set.empty_union, Nat.add_sub_cancel' hlt.le]
  · have hzero : (Zone.init ⟨[], 0⟩ : VZone).db.size = 0 := rfl
    rw [h.size, hzero, Nat.zero_add, w32]
    exact Nat.mod_eq_of_lt (by omega)
  · refine iff_of_false id ?_
    rintro ⟨ty, hty, hm⟩
    exact absurd ((h.taken _ hty).1 hm) List.not_mem_nil

/-- A block that was free is handed out. -/
theorem handOut {out : Set (Nat × Nat)} (rb : Rb) (hR : Region vmMaxmmap)
    (h : Mapped vmMaxmmap z out) (ht : Took z t a n) (hty : ty ≠ vfntFree) :
    ∃ db, vmapInsert rb t.db a n ty = .ok (⟨ty, a, n⟩, db) ∧
      Mapped vmMaxmmap { t with db := db } (insert (a, n) out) := by
  obtain ⟨db, hdb, hv, htree, hcov, hsz⟩ := ht.vinv.handOut rb ht.block hty
  have hsub := ht.sub
  refine ⟨db, hdb, hv, ?_, ?_, fun b m ↦ ?_⟩
  · rw [hcov, ht.covered, Set.sdiff_union_of_subset hsub, h.covered]
  · have hs := ht.size
    have hshort := hR.short
    show db.size = _
    rw [hsz, hs, h.size]
    exact Nat.mod_eq_of_lt (by omega)
  · show (b, m) ∈ insert (a, n) out ↔ ∃ ty', ty' ≠ vfntFree ∧ (⟨ty', b, m⟩ : Vme) ∈ db.tree
    rw [Set.mem_insert_iff, h.out, htree]
    constructor
    · rintro (heq | ⟨ty', hty', hm⟩)
      · cases heq
        exact ⟨ty, hty, List.mem_cons_self⟩
      · exact ⟨ty', hty', List.mem_cons_of_mem _ ((ht.taken _ hty').2 hm)⟩
    · rintro ⟨ty', hty', hm⟩
      rcases List.mem_cons.1 hm with heq | hm
      · cases heq
        exact .inl rfl
      · exact .inr ⟨ty', hty', (ht.taken _ hty').1 hm⟩

/-- A range that was handed out is freed. -/
theorem takeBack {out : Set (Nat × Nat)} (rb : Rb) (hR : Region vmMaxmmap)
    (h : Mapped vmMaxmmap z out) (hm : (⟨ty, a, n⟩ : Vme) ∈ z.db.tree) (hty : ty ≠ vfntFree) :
    ∃ t, Zone.free (backend rb) { z with db := vmapRemove z.db ⟨ty, a, n⟩ } () a n = .ok t ∧
      Mapped vmMaxmmap t (out \ {(a, n)}) := by
  have hpos := h.vinv.size_pos hm
  have hlt := h.vinv.size_lt hm
  dsimp only at hpos hlt
  set y : VZone := { z with db := vmapRemove z.db ⟨ty, a, n⟩ } with hy
  have hmem : ∀ e', e' ∈ y.db.tree ↔ e' ≠ ⟨ty, a, n⟩ ∧ e' ∈ z.db.tree :=
    fun e' ↦ h.vinv.nodup.mem_erase_iff
  have hfrees : frees y = frees z := by
    ext e'
    show e' ∈ y.db.tree ∧ e'.type = vfntFree ↔ _
    rw [hmem]
    refine ⟨fun ⟨⟨_, hm'⟩, hf⟩ ↦ ⟨hm', hf⟩, fun ⟨hm', hf⟩ ↦ ⟨⟨?_, hm'⟩, hf⟩⟩
    rintro rfl
    exact hty hf
  have hz : ZInv y (frees y) Vme.block := by
    rw [hfrees]
    exact h.vinv.zinv.setDb _
  obtain ⟨hv, hc⟩ := h.vinv.erase hm rfl hz
  obtain ⟨t, ht, hcr⟩ := (h.vinv.block_of_erase hm rfl hpos).create rb hv
  dsimp only [Nat.add_zero, Nat.sub_zero] at ht hcr hc
  refine ⟨t, ?_, hcr.vinv, ?_, ?_, fun b m ↦ ?_⟩
  · rw [Zone.free, if_neg hpos.ne', ht]
  · rw [hcr.covered, hc, Set.sdiff_union_of_subset (ico_sub_covered hm), h.covered]
  · have hshort := hR.short
    have hs := h.size
    rw [hcr.size]
    show w32 (w32 (z.db.size + (2 ^ 32 - n)) + n) = _
    rw [hs]
    simp only [w32]
    omega
  · rw [Set.mem_sdiff, h.out, Set.mem_singleton_iff]
    constructor
    · rintro ⟨⟨ty', hty', hm'⟩, hne⟩
      refine ⟨ty', hty', (hcr.taken _ hty').2 ((hmem _).2 ⟨?_, hm'⟩)⟩
      intro heq
      cases heq
      exact hne rfl
    · rintro ⟨ty', hty', hm'⟩
      obtain ⟨hne, hm'⟩ := (hmem _).1 ((hcr.taken _ hty').1 hm')
      refine ⟨⟨ty', hty', hm'⟩, fun heq ↦ hne ?_⟩
      cases heq
      -- the two entries begin at the same address
      exact h.vinv.unique hm' hm ⟨le_rfl, by dsimp only; omega⟩ ⟨le_rfl, by dsimp only; omega⟩

end Mapped

/-! ## The calls -/

/-- A size that fits into a number of pages below `2 ^ 32`. -/
def Fits : Op → Prop
  | .alloc size _ => size ≤ 2 ^ 32 - pageSize
  | .free .. => True

theorem roundPage_pos (hn : 0 < n) (hle : n ≤ 2 ^ 32 - pageSize) : 0 < roundPage n := by
  simp only [roundPage, truncPage, w32, pageSize_eq] at hle ⊢
  omega

theorem roundPage_eq_zero (hlt : 2 ^ 32 - pageSize < n) (hn : n < 2 ^ 32) : roundPage n = 0 := by
  simp only [roundPage, truncPage, w32, pageSize_eq] at hlt ⊢
  omega

/-- A state once the map is initialized. -/
structure Ready (vmMaxmmap : Nat) (s : State) : Prop where
  initialized : s.vmap.initialized = true
  mapped : Mapped vmMaxmmap s.vmap.zone s.out

/-- The zone that a call works on, which it may have to initialize. -/
theorem ready_ok (rb : Rb) (hR : Region vmMaxmmap) (h : s = State.init ∨ Ready vmMaxmmap s) :
    ∃ z, s.vmap.ready rb vmMaxmmap = .ok z ∧ Mapped vmMaxmmap z s.out := by
  rcases h with rfl | h
  · obtain ⟨z, hz, hmap⟩ := Mapped.init rb hR
    refine ⟨z, ?_, hmap⟩
    rw [Vmap.ready, State.init, if_neg Bool.false_ne_true, hz]
  · refine ⟨s.vmap.zone, ?_, h.mapped⟩
    rw [Vmap.ready, h.initialized]
    rfl

/-- `vmap_alloc` of a size that fits: there is nothing, or it is the beginning of a node that was
free. -/
theorem exec_alloc (rb : Rb) (hR : Region vmMaxmmap) (h : s = State.init ∨ Ready vmMaxmmap s)
    (ha : Allowed s (.alloc n ty)) (hf : n ≤ 2 ^ 32 - pageSize) :
    ∃ z, Mapped vmMaxmmap z s.out ∧
      (exec rb vmMaxmmap s (.alloc n ty) = .ok (0, ⟨⟨true, z⟩, s.out⟩) ∨
        ∃ e ∈ frees z, ∃ t, 0 < e.addr ∧
          exec rb vmMaxmmap s (.alloc n ty) =
            .ok (e.addr, ⟨⟨true, t⟩, insert (e.addr, roundPage n) s.out⟩) ∧
          Mapped vmMaxmmap t (insert (e.addr, roundPage n) s.out)) := by
  obtain ⟨z, hz, hmap⟩ := ready_ok rb hR h
  obtain ⟨hpos, -, hty⟩ := ha
  have hshort : ∀ e ∈ frees z, e.size < 2 ^ 31 := fun e he ↦ by
    have hin := hmap.inside he.1
    have hlen := hR.short
    omega
  refine ⟨z, hmap, ?_⟩
  rcases hmap.vinv.alloc rb (roundPage_pos hpos hf) hshort with hnone | ⟨e, he, t, ht, hr, htook⟩
  · have hv : vmapAllocz rb vmMaxmmap s.vmap n ty = .ok (0, ⟨true, z⟩) := by
      unfold vmapAllocz
      refine bind_eq_ok.2 ⟨z, hz, bind_eq_ok.2 ⟨(0, z), hnone, ?_⟩⟩
      rfl
    have hv' : vmapAlloc rb vmMaxmmap s.vmap n ty = .ok (0, ⟨true, z⟩) := by
      rw [vmapAlloc, hv, Except.mapError]
    refine .inl (bind_eq_ok.2 ⟨_, hv', ?_⟩)
    rfl
  · obtain ⟨db, hdb, hmap'⟩ := hmap.handOut rb hR htook hty
    refine .inr ⟨e, he, { t with db := db }, hr, ?_, hmap'⟩
    have hv : vmapAllocz rb vmMaxmmap s.vmap n ty = .ok (e.addr, ⟨true, { t with db := db }⟩) := by
      unfold vmapAllocz
      refine bind_eq_ok.2 ⟨z, hz, bind_eq_ok.2 ⟨(e.addr, t), ht, ?_⟩⟩
      dsimp only
      rw [if_pos hr.ne']
      exact bind_eq_ok.2 ⟨(_, db), hdb, rfl⟩
    have hv' :
        vmapAlloc rb vmMaxmmap s.vmap n ty = .ok (e.addr, ⟨true, { t with db := db }⟩) := by
      rw [vmapAlloc, hv, Except.mapError]
    refine bind_eq_ok.2 ⟨_, hv', ?_⟩
    dsimp only
    rw [if_neg hr.ne']
    rfl

/-- `vmap_free` of a range that was handed out. -/
theorem exec_free (rb : Rb) (hR : Region vmMaxmmap) (h : s = State.init ∨ Ready vmMaxmmap s)
    (ha : (va, roundPage n) ∈ s.out) :
    ∃ t, exec rb vmMaxmmap s (.free va n) = .ok (0, ⟨⟨true, t⟩, s.out \ {(va, roundPage n)}⟩) ∧
      Mapped vmMaxmmap t (s.out \ {(va, roundPage n)}) := by
  obtain ⟨z, hz, hmap⟩ := ready_ok rb hR h
  obtain ⟨ty, hty, hm⟩ := (hmap.out _ _).1 ha
  have hpos := hmap.vinv.size_pos hm
  have hfind : vmapFind z.db va = some ⟨ty, va, roundPage n⟩ :=
    hmap.vinv.vmapFind_eq_some.2 ⟨hm, le_rfl, Nat.lt_add_of_pos_right hpos⟩
  obtain ⟨t, ht, hmap'⟩ := hmap.takeBack rb hR hm hty
  refine ⟨t, ?_, hmap'⟩
  have hv : vmapFree rb vmMaxmmap s.vmap va n = .ok ⟨true, t⟩ := by
    unfold vmapFree
    refine bind_eq_ok.2 ⟨z, by rw [hz, Except.mapError], ?_⟩
    dsimp only
    rw [hfind]
    dsimp only
    rw [if_neg (not_not.2 rfl), if_neg (not_not.2 rfl), if_neg hty]
    exact bind_eq_ok.2 ⟨t, by rw [ht, Except.mapError], rfl⟩
  exact bind_eq_ok.2 ⟨_, hv, rfl⟩

/-- A call with a size that fits returns. -/
theorem exec_ok (rb : Rb) (hR : Region vmMaxmmap) (h : s = State.init ∨ Ready vmMaxmmap s)
    (ha : Allowed s op) (hf : Fits op) :
    ∃ r s', exec rb vmMaxmmap s op = .ok (r, s') ∧ Ready vmMaxmmap s' := by
  cases op with
  | alloc size type =>
      obtain ⟨z, hmap, hex | ⟨e, _, t, _, hex, hmap'⟩⟩ := exec_alloc rb hR h ha hf
      · exact ⟨0, _, hex, rfl, hmap⟩
      · exact ⟨_, _, hex, rfl, hmap'⟩
  | free va size =>
      obtain ⟨t, hex, hmap⟩ := exec_free rb hR h ha
      exact ⟨0, _, hex, rfl, hmap⟩

/-- A size that does not fit trips the assertion of the allocator. -/
theorem exec_error (rb : Rb) (hR : Region vmMaxmmap) (h : s = State.init ∨ Ready vmMaxmmap s)
    (ha : Allowed s op) (hf : ¬ Fits op) : exec rb vmMaxmmap s op = .error (.zone .size) := by
  obtain ⟨z, hz, -⟩ := ready_ok rb hR h
  cases op with
  | alloc size type =>
      have hzero := roundPage_eq_zero (not_le.1 hf) ha.2.1
      have hv : vmapAllocz rb vmMaxmmap s.vmap size type = .error .size := by
        unfold vmapAllocz
        rw [hz, hzero]
        rfl
      rw [exec, vmapAlloc, hv]
      rfl
  | free va size => exact absurd trivial hf

/-- A call that returns leaves the map in order. -/
theorem Ready.step (rb : Rb) (hR : Region vmMaxmmap) (h : s = State.init ∨ Ready vmMaxmmap s)
    (hs : Step rb vmMaxmmap s op s') : Ready vmMaxmmap s' := by
  obtain ⟨ha, r, hex⟩ := hs
  by_cases hf : Fits op
  · obtain ⟨r', s₁, hex', h₁⟩ := exec_ok rb hR h ha hf
    rw [hex'] at hex
    cases hex
    exact h₁
  · rw [exec_error rb hR h ha hf] at hex
    cases hex

/-- From the first call on the map is in order. -/
theorem Ready.run (rb : Rb) (hR : Region vmMaxmmap) {ops : List Op}
    (hr : Run (Step rb vmMaxmmap) State.init ops s) :
    (s = State.init ∨ Ready vmMaxmmap s) ∧ (ops ≠ [] → Ready vmMaxmmap s) := by
  cases hr with
  | nil _ => exact ⟨.inl rfl, fun hne ↦ absurd rfl hne⟩
  | cons h₁ h₂ =>
      have hready : Ready vmMaxmmap s := h₂.invariant (I := Ready vmMaxmmap)
        (fun _ _ _ h hs ↦ Ready.step rb hR (.inr h) hs) (Ready.step rb hR (.inl rfl) h₁)
      exact ⟨.inr hready, fun _ ↦ hready⟩

/-! ## What holds at every point -/

/-- The entries tile the range, the free ones are those of the lists, and each address is
reported with its entry. -/
structure MapOk (vmMaxmmap : Nat) (s : Vmap) : Prop where
  inside : ∀ e ∈ s.zone.db.tree,
    0 < e.size ∧ vmMinmmap ≤ e.addr ∧ e.addr + e.size ≤ vmMaxmmap
  apart : ∀ e ∈ s.zone.db.tree, ∀ e' ∈ s.zone.db.tree, e ≠ e' →
    e.addr + e.size ≤ e'.addr ∨ e'.addr + e'.size ≤ e.addr
  cover : ∀ x, vmMinmmap ≤ x → x < vmMaxmmap →
    ∃ e ∈ s.zone.db.tree, e.addr ≤ x ∧ x < e.addr + e.size
  nodup : s.zone.db.tree.Nodup ∧ ∀ k, (s.zone.zlist ((), k)).Nodup
  free : ∀ e, e ∈ s.zone.db.tree ∧ e.type = vfntFree ↔ ∃ k < ordmax, e ∈ s.zone.zlist ((), k)
  cls : ∀ k, ∀ e ∈ s.zone.zlist ((), k), 2 ^ k ≤ e.size ∧ e.size < 2 ^ (k + 1)
  bmap : ∀ k < ordmax, (s.zone.bmap ()).getLsbD k = true ↔ s.zone.zlist ((), k) ≠ []
  coalesced : ∀ e ∈ s.zone.db.tree, ∀ e' ∈ s.zone.db.tree, e.type = vfntFree →
    e'.type = vfntFree → e.addr + e.size ≠ e'.addr
  size : s.zone.db.size = vmMaxmmap - vmMinmmap
  info : ∀ e ∈ s.zone.db.tree, ∀ va, e.addr ≤ va → va < e.addr + e.size →
    vmapInfo s va = (e.addr, e.size, e.type)

theorem Ready.mapOk (h : Ready vmMaxmmap s) : MapOk vmMaxmmap s.vmap where
  inside _ he := h.mapped.inside he
  apart _ he _ he' hne := h.mapped.vinv.apart he he' hne
  cover x hlo hhi := by
    rw [← mem_covered, h.mapped.covered]
    exact ⟨hlo, hhi⟩
  nodup := ⟨h.mapped.vinv.nodup, fun _ ↦ h.mapped.vinv.zinv.filed.nodup _⟩
  free e := by
    constructor
    · intro he
      exact ⟨_, msbit_lt (h.mapped.vinv.zinv.len_lt he), h.mapped.vinv.zinv.mem_bin he⟩
    · rintro ⟨k, _, hm⟩
      exact h.mapped.vinv.zinv.filed.mem hm
  cls k e he := by
    obtain ⟨hpos, _, hb⟩ := h.mapped.vinv.zinv.cls he
    rw [Vme.block_len] at hpos
    obtain rfl : k = msbit e.size := by
      have hk := (Prod.mk.inj hb).2
      rwa [Vme.block_len] at hk
    exact ⟨msbit_le hpos, lt_msbit e.size⟩
  bmap := h.mapped.vinv.zinv.bmap ()
  coalesced _ he _ he' hf hf' := h.mapped.vinv.free_apart ⟨he, hf⟩ ⟨he', hf'⟩
  size := h.mapped.size
  info e he va hlo hhi := by
    rw [vmapInfo, h.initialized, if_pos rfl, h.mapped.vinv.vmapFind_eq_some.2 ⟨he, hlo, hhi⟩]

/-- In every run, from the first call on the entries tile the range, and lists, bitmap and
`vmap_info` agree with them; and a call of `vmap_alloc` or `vmap_free` returns just when the
size that it is asked for fits. -/
theorem vmap_tiles (hR : Region vmMaxmmap) {ops : List Op}
    (hr : Run (Step rb vmMaxmmap) State.init ops s) :
    (ops ≠ [] → MapOk vmMaxmmap s.vmap) ∧
      ∀ op, Allowed s op → ((∃ r s', exec rb vmMaxmmap s op = .ok (r, s')) ↔ Fits op) := by
  obtain ⟨hinv, hready⟩ := Ready.run rb hR hr
  refine ⟨fun hne ↦ (hready hne).mapOk, fun op ha ↦ ⟨?_, fun hf ↦ ?_⟩⟩
  · rintro ⟨r, s', hex⟩
    by_contra hf
    rw [exec_error rb hR hinv ha hf] at hex
    cases hex
  · obtain ⟨r, s', hex, -⟩ := exec_ok rb hR hinv ha hf
    exact ⟨r, s', hex⟩

/-- A tree that compares a new node with every node. -/
def everyNode : Rb where
  path tree _ := tree
  path_sub _ _ _ h := h

/-- The range that is left below a stack of 64 MiB. -/
theorem region_stack : Region 0xbb800000 := ⟨by decide, by decide⟩

/-- A process asks for a page. -/
theorem vmap_tiles_page : ∃ s, Run (Step everyNode 0xbb800000) State.init
    [.alloc 5 vfntRwdata] s ∧ MapOk 0xbb800000 s.vmap := by
  have ha : Allowed State.init (.alloc 5 vfntRwdata) := ⟨by decide, by decide, by decide⟩
  have hempty : Run (Step everyNode 0xbb800000) State.init [] State.init := .nil _
  have hf : Fits (.alloc 5 vfntRwdata) := by
    show 5 ≤ 2 ^ 32 - pageSize
    decide
  obtain ⟨r, s, hex⟩ := ((vmap_tiles region_stack hempty).2 _ ha).2 hf
  have hr := hempty.snoc ⟨ha, r, hex⟩
  exact ⟨s, hr, (vmap_tiles region_stack hr).1 (by decide)⟩

/-- In general a call may not return: asked for all of the address space, the size rounds
to 0. -/
theorem vmap_alloc_asserts : ¬∀ op, Allowed State.init op →
    ∃ r s', exec everyNode 0xbb800000 State.init op = .ok (r, s') := by
  intro hall
  have ha : Allowed State.init (.alloc 0xffffffff vfntRwdata) := ⟨by decide, by decide, by decide⟩
  have hf : ¬ Fits (.alloc 0xffffffff vfntRwdata) := by
    show ¬ 0xffffffff ≤ 2 ^ 32 - pageSize
    decide
  obtain ⟨r, s', hex⟩ := hall _ ha
  rw [exec_error everyNode region_stack (.inl rfl) ha hf] at hex
  cases hex

end Mh.Mrg
