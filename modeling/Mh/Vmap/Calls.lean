import Mh.Vmap.Inv

/-!
# Allocating and freeing kernel virtual ranges

In every run from `vmap_init` the bitmap, the lists and the tree of ranges agree, the
free ranges are disjoint and coalesced, and the addresses put into the zone are the
free ones together with the ones handed out.  No call trips an assertion on the
ranges; the only one that can fail is `diff >= 0`, which takes an entry of more than
`2 ^ 31` addresses for a negative number.
-/

namespace Mh.Vmap

open Mh.Lib Mh.Zone

variable {rb : Rb} {z t : VZone} {s s' : State} {e vme : Vme} {a n r : Nat} {op : Op}

/-! ## The calls -/

namespace VInv

/-- `vmapzone_free` of a range that is not free. -/
theorem free (rb : Rb) (h : VInv z) (hb : Block z a n) :
    ∃ t, Zone.free (backend rb) z () a n = .ok t ∧ VInv t ∧
      freeAddrs t = freeAddrs z ∪ addrs a n := by
  rw [Zone.free, if_neg hb.size_pos.ne']
  exact hb.create rb h

/-- `zone_remove` of a node. -/
theorem remove (rb : Rb) (h : VInv z) (he : e ∈ z.db.tree) :
    ∃ t, Zone.remove (backend rb) z () e = .ok t ∧ VInv t ∧
      t.db.tree = z.db.tree.erase e ∧
      freeAddrs t = freeAddrs z \ addrs e.addr e.size := by
  have hlen := Vme.range_len e
  have hrem := h.zinv.remove (backend rb) he hlen.symm
  have hmem : ∀ e', e' ∈ z.db.tree.erase e ↔ e' ≠ e ∧ e' ∈ z.db.tree :=
    fun e' ↦ h.nodup.mem_erase_iff
  refine ⟨_, hrem, ⟨?_, h.nodup.erase e, ?_, ?_, ?_⟩, rfl, ?_⟩
  · have hS : ∀ t : VZone, t.db.tree = z.db.tree.erase e → nodes t = nodes z \ {e} := by
      intro t ht
      ext e'
      show e' ∈ t.db.tree ↔ _
      rw [ht, hmem, and_comm]
      rfl
    rw [hS _ rfl]
    exact (h.zinv.detach he).setDb _
  · refine h.tidy.mono ?_
    rintro _ ⟨e', he', rfl⟩
    exact mem_ranges ((hmem e').1 he').2
  · intro e' he'
    exact h.node e' ((hmem e').1 he').2
  · have hb := h.node e he
    exact without_size h.size (o := some e) fun e' he' ↦ by
      cases he'
      have h₁ := hb.pos
      have h₂ := hb.bound
      exact ⟨he, by omega⟩
  · ext x
    constructor
    · rintro ⟨e', he', hx⟩
      obtain ⟨hne, hm⟩ := (hmem e').1 he'
      refine ⟨⟨e', hm, hx⟩, fun hx' ↦ hne ?_⟩
      exact range_inj (h.node e' hm) (h.node e he)
        (h.tidy.unique (mem_ranges hm) (mem_ranges he) hx hx')
    · rintro ⟨⟨e', hm, hx⟩, hnx⟩
      refine ⟨e', (hmem e').2 ⟨?_, hm⟩, hx⟩
      rintro rfl
      exact hnx hx

/-- What `zone_remove` leaves around a node is a block: its end may be freed. -/
theorem block_of_remove (h : VInv z) (he : e ∈ z.db.tree) (ht : t.db.tree = z.db.tree.erase e)
    (hn : 0 < n) (hlt : n < e.size) : Block t (e.addr + n) (e.size - n) where
  addr_pos := Nat.add_pos_right _ hn
  size_pos := Nat.sub_pos_of_lt hlt
  bound := by
    have hb := (h.node e he).bound
    omega
  clear e' he' := by
    rw [ht] at he'
    obtain ⟨hne, hm⟩ := h.nodup.mem_erase_iff.1 he'
    have hap := h.apart hm he hne
    omega

/-- `alloc` from an entry that is large enough. -/
theorem allocFrom (rb : Rb) (h : VInv z) (he : e ∈ z.db.tree) (hn : 0 < n) (hle : n ≤ e.size) :
    (∃ t, Zone.allocFrom (backend rb) z () e n = .ok (e.addr, t) ∧ VInv t ∧
      freeAddrs t = freeAddrs z \ addrs e.addr n) ∨
    Zone.allocFrom (backend rb) z () e n = .error .diff ∧ 2 ^ 31 < e.size := by
  have hpos := (h.node e he).pos
  have hbd := (h.node e he).bound
  have hdiff : w32 ((backend rb).size z.db e + (2 ^ 32 - n)) = e.size - n := by
    show (e.size + (2 ^ 32 - n)) % 2 ^ 32 = e.size - n
    omega
  by_cases hbig : 2 ^ 31 ≤ e.size - n
  · right
    refine ⟨?_, by omega⟩
    simp only [Zone.allocFrom, hdiff, if_pos hbig]
  · left
    obtain ⟨z₁, hrem, h₁, ht₁, hf₁⟩ := h.remove rb he
    by_cases heq : n = e.size
    · subst heq
      refine ⟨z₁, ?_, h₁, hf₁⟩
      simp only [Zone.allocFrom, hdiff, hrem, bind, Except.bind, Nat.sub_self, Nat.lt_irrefl,
        if_false, pure, Except.pure]
      rfl
    · have hlt : n < e.size := lt_of_le_of_ne hle heq
      obtain ⟨t, hcr, ht, hf⟩ := (h.block_of_remove he ht₁ hn hlt).create rb h₁
      have hw : w32 ((backend rb).addr z.db e + n) = e.addr + n :=
        Nat.mod_eq_of_lt (by show e.addr + n < 2 ^ 32; omega)
      refine ⟨t, ?_, ht, ?_⟩
      · simp only [Zone.allocFrom, hdiff, if_neg hbig, hrem, bind, Except.bind, hw,
          if_pos (Nat.sub_pos_of_lt hlt), hcr, pure, Except.pure]
        rfl
      · rw [hf, hf₁]
        ext x
        have hsub : ∀ x, x ∈ addrs e.addr e.size → x ∈ freeAddrs z := fun x hx ↦ ⟨e, he, hx⟩
        have hx := hsub x
        simp only [addrs, Set.mem_union, Set.mem_sdiff, Set.mem_ofPred_eq] at hx ⊢
        by_cases hf : x ∈ freeAddrs z
        · simp only [hf, true_and]
          omega
        · have hnx : ¬ (e.addr ≤ x ∧ x < e.addr + e.size) := fun hx' ↦ hf (hx hx')
          simp only [hf, false_and, false_or, iff_false]
          omega

/-- `vmapzone_alloc`: nothing, or a range that was free. -/
theorem alloc (rb : Rb) (h : VInv z) (hn : 0 < n) :
    (Zone.alloc (backend rb) z () n = .ok (0, z)) ∨
    (∃ r t, Zone.alloc (backend rb) z () n = .ok (r, t) ∧ VInv t ∧ 0 < r ∧
      addrs r n ⊆ freeAddrs z ∧ freeAddrs t = freeAddrs z \ addrs r n) ∨
    Zone.alloc (backend rb) z () n = .error .diff ∧ ∃ e ∈ z.db.tree, 2 ^ 31 < e.size := by
  rw [Zone.alloc, if_neg hn.ne']
  cases hf : findfree z () n with
  | none => exact .inl rfl
  | some e =>
      obtain ⟨he, _, hle⟩ := h.zinv.findfree hf
      rw [Vme.range_len] at hle
      rcases h.allocFrom rb he hn hle with ⟨t, ht, hi, hfr⟩ | ⟨herr, hbig⟩
      · refine .inr (.inl ⟨e.addr, t, ht, hi, (h.node e he).pos, fun x hx ↦ ⟨e, he, ?_⟩, hfr⟩)
        exact ⟨hx.1, lt_of_lt_of_le hx.2 (Nat.add_le_add_left hle _)⟩
      · exact .inr (.inr ⟨herr, e, he, hbig⟩)

end VInv

/-! ## Runs -/

/-- The invariant of a run: the structures agree, and the addresses put into the zone
are the free ones and the ones handed out. -/
structure SInv (s : State) : Prop where
  vinv : VInv s.zone
  disjoint : Disjoint (freeAddrs s.zone) s.out
  cover : freeAddrs s.zone ∪ s.out = s.given

theorem sinv_init : SInv State.init where
  vinv := vinv_init
  disjoint := Set.disjoint_empty _
  cover := by
    have he : freeAddrs vmapInit = ∅ := by simp [freeAddrs, vmapInit, Zone.init]
    rw [State.init, he, Set.union_empty]

/-- A range of addresses that are not free is a block. -/
theorem Block.of_disjoint (h : VInv z) (ha : 0 < a) (hn : 0 < n) (hb : a + n ≤ 2 ^ 32)
    (hd : Disjoint (addrs a n) (freeAddrs z)) : Block z a n where
  addr_pos := ha
  size_pos := hn
  bound := hb
  clear e he := by
    have hs := h.size_pos he
    by_contra hc
    -- the larger of the two first addresses is in both ranges
    have hx : max a e.addr ∈ addrs a n := ⟨le_max_left _ _, by omega⟩
    have hx' : max a e.addr ∈ addrs e.addr e.size := ⟨le_max_right _ _, by omega⟩
    exact Set.disjoint_left.1 hd hx ⟨e, he, hx'⟩

theorem Allowed.block (h : VInv s.zone) (ha : Allowed s (.free a n)) : Block s.zone a n :=
  .of_disjoint h ha.2.2.1 ha.1 ha.2.2.2.1 ha.2.2.2.2

/-- A call that returns keeps the invariant. -/
theorem SInv.step (h : SInv s) (hst : Step rb s op s') : SInv s' := by
  obtain ⟨ha, r, t, hex, rfl⟩ := hst
  cases op with
  | free va n =>
      obtain ⟨t', ht, hi, hf⟩ := h.vinv.free rb (ha.block h.vinv)
      rw [exec, ht] at hex
      obtain ⟨-, rfl⟩ := Prod.mk.inj (Except.ok.inj hex)
      refine ⟨hi, ?_, ?_⟩
      · show Disjoint (freeAddrs t') (s.out \ addrs va n)
        rw [hf, Set.disjoint_union_left]
        exact ⟨h.disjoint.mono_right Set.sdiff_subset, Set.disjoint_sdiff_right⟩
      · show freeAddrs t' ∪ s.out \ addrs va n = s.given ∪ addrs va n
        rw [hf, ← h.cover, Set.union_assoc, Set.union_sdiff_self, Set.union_assoc,
          Set.union_comm s.out]
  | alloc n =>
      rcases h.vinv.alloc rb ha.1 with hnone | ⟨r', t', ht, hi, hpos, hsub, hf⟩ | ⟨he, _⟩
      · rw [exec, hnone] at hex
        obtain ⟨rfl, rfl⟩ := Prod.mk.inj (Except.ok.inj hex)
        exact ⟨h.vinv, h.disjoint, h.cover⟩
      · rw [exec, ht] at hex
        obtain ⟨rfl, rfl⟩ := Prod.mk.inj (Except.ok.inj hex)
        rw [State.after, if_neg hpos.ne']
        refine ⟨hi, ?_, ?_⟩
        · show Disjoint (freeAddrs t') (s.out ∪ addrs r' n)
          rw [hf, Set.disjoint_union_right]
          exact ⟨h.disjoint.mono_left Set.sdiff_subset, Set.disjoint_sdiff_left⟩
        · show freeAddrs t' ∪ (s.out ∪ addrs r' n) = s.given
          rw [hf, ← h.cover, Set.union_comm s.out, ← Set.union_assoc, Set.sdiff_union_self,
            Set.union_eq_self_of_subset_right hsub]
      · rw [exec, he] at hex
        cases hex

theorem SInv.run (h : SInv s) {ops : List Op} (hr : Run (Step rb) s ops s') : SInv s' :=
  hr.invariant (I := SInv) (fun _ _ _ hs hst ↦ hs.step hst) h

/-! ## What holds at every point -/

/-- The three structures agree on the free ranges, which are disjoint and coalesced,
and the addresses put into the zone are either free or handed out. -/
structure VmapOk (s : State) : Prop where
  bmap : ∀ k < ordmax, (s.zone.bmap ()).getLsbD k = true ↔ s.zone.zlist ((), k) ≠ []
  cls : ∀ k, ∀ e ∈ s.zone.zlist ((), k), 2 ^ k ≤ e.size ∧ e.size < 2 ^ (k + 1)
  nodes : ∀ e, e ∈ s.zone.db.tree ↔ ∃ k < ordmax, e ∈ s.zone.zlist ((), k)
  nodup : s.zone.db.tree.Nodup ∧ ∀ k, (s.zone.zlist ((), k)).Nodup
  apart : ∀ e ∈ s.zone.db.tree, ∀ e' ∈ s.zone.db.tree, e ≠ e' →
    e.addr + e.size < e'.addr ∨ e'.addr + e'.size < e.addr
  nfree : s.zone.nfree () = (s.zone.db.tree.map Vme.size).sum
  size : s.zone.db.size = (s.zone.db.tree.map Vme.size).sum
  disjoint : Disjoint (freeAddrs s.zone) s.out
  cover : freeAddrs s.zone ∪ s.out = s.given

/-- The free addresses are fewer than `2 ^ 32`. -/
theorem VInv.sum_lt (h : VInv z) : (z.db.tree.map Vme.size).sum < 2 ^ 32 := by
  have hle : ∑ e ∈ z.db.tree.toFinset, e.size ≤ 2 ^ 32 - 1 := by
    -- address zero is in no range
    refine sum_lengths_le (fun e ↦ e.addr - 1) ?_ ?_
    · intro e he e' he' hne
      rw [List.mem_toFinset] at he he'
      have hp := (h.node e he).pos
      have hp' := (h.node e' he').pos
      rcases h.apart he he' hne with hlt | hlt
      · left; show e.addr - 1 + e.size ≤ e'.addr - 1; omega
      · right; show e'.addr - 1 + e'.size ≤ e.addr - 1; omega
    · intro e he
      rw [List.mem_toFinset] at he
      have hp := (h.node e he).pos
      have hb := (h.node e he).bound
      show e.addr - 1 + e.size ≤ 2 ^ 32 - 1
      omega
  rw [List.sum_toFinset _ h.nodup] at hle
  exact lt_of_le_of_lt hle (by decide)

theorem SInv.vmapOk (h : SInv s) : VmapOk s where
  bmap := h.vinv.zinv.bmap ()
  cls k e he := by
    obtain ⟨hpos, _, hb⟩ := h.vinv.zinv.cls he
    rw [Vme.range_len] at hpos
    obtain rfl : k = msbit e.size := by
      have hk := (Prod.mk.inj hb).2
      rwa [Vme.range_len] at hk
    exact ⟨msbit_le hpos, lt_msbit e.size⟩
  nodes e := by
    constructor
    · intro he
      exact ⟨_, msbit_lt (h.vinv.zinv.len_lt he), h.vinv.zinv.mem_bin he⟩
    · rintro ⟨k, _, hm⟩
      exact h.vinv.zinv.filed.mem hm
  nodup := ⟨h.vinv.nodup, fun k ↦ h.vinv.zinv.filed.nodup _⟩
  apart e he e' he' hne := h.vinv.apart he he' hne
  nfree := by
    have htot := h.vinv.zinv.total_eq (z := ()) (F := s.zone.db.tree.toFinset) fun e ↦ by
      rw [List.mem_toFinset]
      exact ⟨fun he ↦ ⟨he, rfl⟩, fun he ↦ he.1⟩
    simp only [Vme.range_len] at htot
    rw [List.sum_toFinset _ h.vinv.nodup] at htot
    rw [h.vinv.zinv.nfree, htot]
    exact Nat.mod_eq_of_lt h.vinv.sum_lt
  size := by
    rw [h.vinv.size]
    exact Nat.mod_eq_of_lt h.vinv.sum_lt
  disjoint := h.disjoint
  cover := h.cover

/-- What a call does: no assertion about the ranges fires, and a range it hands out
was free and is not any more. -/
structure CallOk (rb : Rb) (s : State) (op : Op) : Prop where
  error : ∀ e, exec rb s.zone op = .error e → e = .diff ∧ ∃ vme ∈ s.zone.db.tree, 2 ^ 31 < vme.size
  alloc : ∀ n r z, op = .alloc n → exec rb s.zone op = .ok (r, z) → r ≠ 0 →
    addrs r n ⊆ freeAddrs s.zone ∧ Disjoint (addrs r n) s.out ∧ Disjoint (addrs r n) (freeAddrs z)

theorem SInv.callOk (h : SInv s) (ha : Allowed s op) : CallOk rb s op where
  error e he := by
    cases op with
    | free va n =>
        obtain ⟨t, ht, _⟩ := h.vinv.free rb (ha.block h.vinv)
        rw [exec, ht] at he
        cases he
    | alloc n =>
        rcases h.vinv.alloc rb ha.1 with hnone | ⟨_, _, ht, _⟩ | ⟨herr, hbig⟩
        · rw [exec, hnone] at he
          cases he
        · rw [exec, ht] at he
          cases he
        · rw [exec, herr] at he
          cases he
          exact ⟨rfl, hbig⟩
  alloc n r z hop hex hr := by
    subst hop
    rcases h.vinv.alloc rb ha.1 with hnone | ⟨r', t, ht, _, _, hsub, hf⟩ | ⟨herr, _⟩
    · rw [exec, hnone] at hex
      obtain ⟨rfl, -⟩ := Prod.mk.inj (Except.ok.inj hex)
      exact absurd rfl hr
    · rw [exec, ht] at hex
      obtain ⟨rfl, rfl⟩ := Prod.mk.inj (Except.ok.inj hex)
      refine ⟨hsub, h.disjoint.mono_left hsub, ?_⟩
      rw [hf]
      exact Set.disjoint_sdiff_right
    · rw [exec, herr] at hex
      cases hex

/-- From `vmap_init`, whatever is freed and allocated: the tree, the lists and the
bitmap agree, and the calls hand out free addresses only. -/
theorem vmapzone_ok {ops : List Op} (hr : Run (Step rb) State.init ops s) :
    VmapOk s ∧ ∀ op, Allowed s op → CallOk rb s op := by
  have h := sinv_init.run hr
  exact ⟨h.vmapOk, fun op ha ↦ h.callOk ha⟩

/-- A tree that compares a new node with every node. -/
def everyNode : Rb where
  path tree _ := tree
  path_sub _ _ _ h := h

/-- A zone with one entry, from which four addresses can be taken. -/
theorem demo_zone : ∃ z t, Zone.free (backend everyNode) vmapInit () 8 8 = .ok z ∧ VInv z ∧
    z.db.tree = [⟨8, 8, .free⟩] ∧ Zone.alloc (backend everyNode) z () 4 = .ok (8, t) := by
  obtain ⟨z, hz⟩ : ∃ z, Zone.free (backend everyNode) vmapInit () 8 8 = .ok z := ⟨_, rfl⟩
  have htree : z.db.tree = [⟨8, 8, .free⟩] := by
    rw [← Except.ok.inj hz]
    rfl
  have hfind : findfree z () 4 = some ⟨8, 8, .free⟩ := by
    rw [← Except.ok.inj hz]
    rfl
  have hblock : Block vmapInit 8 8 :=
    ⟨by decide, by decide, by decide, fun _ he ↦ absurd he List.not_mem_nil⟩
  obtain ⟨z', hz', hi, -⟩ := vinv_init.free everyNode hblock
  obtain rfl := Except.ok.inj (hz.symm.trans hz')
  rcases hi.allocFrom everyNode (n := 4) (htree ▸ List.mem_cons_self) (by decide) (by decide) with
    ⟨t, ht, _⟩ | ⟨_, hbig⟩
  · refine ⟨z, t, hz, hi, htree, ?_⟩
    rw [Zone.alloc, if_neg (by decide), hfind]
    exact ht
  · exact absurd hbig (by decide)

/-- Eight addresses are freed into the zone and four of them taken. -/
theorem vmapzone_ok_demo : ∃ s, Run (Step everyNode) State.init [.free 8 8, .alloc 4] s ∧
    s.out = addrs 8 4 ∧ VmapOk s := by
  have hd : Disjoint (addrs 8 8) (freeAddrs State.init.zone) := by
    have he : freeAddrs State.init.zone = ∅ := by
      simp [freeAddrs, State.init, vmapInit, Zone.init]
    rw [he]
    exact Set.disjoint_empty _
  obtain ⟨z, t, hz, -, -, ht⟩ := demo_zone
  have hex : exec everyNode vmapInit (.free 8 8) = .ok (0, z) := by rw [exec, hz]; rfl
  have h₁ : Step everyNode State.init (.free 8 8) _ :=
    ⟨⟨by decide, by decide, by decide, by decide, hd⟩, 0, z, hex, rfl⟩
  have h₂ : Step everyNode (State.init.after z (.free 8 8) 0) (.alloc 4) _ :=
    ⟨⟨by decide, by decide⟩, 8, t, ht, rfl⟩
  have hrun := Run.cons h₁ (.cons h₂ (.nil _))
  exact ⟨_, hrun, by simp [State.after, State.init], (vmapzone_ok hrun).1⟩

end Mh.Vmap

/-!
## Freeing undoes allocating

The free ranges of the kernel are the maximal runs of its free addresses, whatever splits and
merges have led to them.  So a call is known by what it does to the addresses: a range that is freed
after it was allocated leaves the free ranges as they were, and two ranges may be freed in either
order (`vmapzone_inverse`).
-/

namespace Mh.Vmap

open Mh.Lib Mh.Zone

variable {z t : VZone} {a n b m r : Nat}

/-- The free addresses determine the free ranges. -/
theorem VInv.ranges_eq (h : VInv z) (ht : VInv t) (hf : freeAddrs z = freeAddrs t) :
    ranges z = ranges t := by
  refine h.tidy.eq_of_cover ht.tidy fun i ↦ ?_
  rw [← freeAddrs_eq, ← freeAddrs_eq]
  exact hf

/-- An allocation takes the beginning of a node. -/
theorem VInv.alloc_node {rb : Rb} (h : VInv z) (hal : Zone.alloc (backend rb) z () n = .ok (r, t))
    (hr : r ≠ 0) : ∃ e ∈ z.db.tree, r = e.addr ∧ 0 < n ∧ n ≤ e.size ∧ VInv t ∧
      freeAddrs t = freeAddrs z \ addrs r n := by
  have hpos : 0 < n := by
    refine Nat.pos_of_ne_zero fun h0 ↦ ?_
    rw [Zone.alloc, if_pos h0] at hal
    cases hal
  rw [Zone.alloc, if_neg hpos.ne'] at hal
  cases hf : findfree z () n with
  | none =>
      rw [hf] at hal
      cases hal
      exact absurd rfl hr
  | some e =>
      obtain ⟨he, -, hle⟩ := h.zinv.findfree hf
      rw [Vme.range_len] at hle
      rw [hf] at hal
      rcases h.allocFrom rb he hpos hle with ⟨t', ht, hi, hfr⟩ | ⟨herr, -⟩
      · obtain ⟨rfl, rfl⟩ := Prod.mk.inj (Except.ok.inj (ht.symm.trans hal))
        exact ⟨e, he, rfl, hpos, hle, hi, hfr⟩
      · cases herr.symm.trans hal

/-- The range that an allocation has returned is a block. -/
theorem VInv.block_of_alloc (rb : Rb) (h : VInv z)
    (hal : Zone.alloc (backend rb) z () n = .ok (r, t)) (hr : r ≠ 0) :
    VInv t ∧ Block t r n ∧ freeAddrs t ∪ addrs r n = freeAddrs z := by
  obtain ⟨e, he, rfl, hn, hle, hi, hf⟩ := h.alloc_node hal hr
  have hbd := (h.node e he).bound
  have hsub : addrs e.addr n ⊆ freeAddrs z :=
    fun x hx ↦ ⟨e, he, hx.1, Nat.lt_of_lt_of_le hx.2 (Nat.add_le_add_left hle e.addr)⟩
  have hdisj : Disjoint (addrs e.addr n) (freeAddrs t) := by
    rw [hf]
    exact Set.disjoint_sdiff_right
  refine ⟨hi, .of_disjoint hi (Nat.pos_of_ne_zero hr) hn (by omega) hdisj, ?_⟩
  rw [hf]
  exact Set.sdiff_union_of_subset hsub

/-- A block stays one when a block that is apart from it is freed. -/
theorem Block.after_free (ht : VInv t) (hb : Block z b m)
    (hd : Disjoint (addrs a n) (addrs b m)) (hf : freeAddrs t = freeAddrs z ∪ addrs a n) :
    Block t b m := by
  refine .of_disjoint ht hb.addr_pos hb.size_pos hb.bound ?_
  rw [hf, Set.disjoint_union_right]
  refine ⟨Set.disjoint_left.2 fun x hx ⟨e, he, hx'⟩ ↦ ?_, hd.symm⟩
  have hcl := hb.clear e he
  have h₁ := hx.1
  have h₂ := hx.2
  have h₃ := hx'.1
  have h₄ := hx'.2
  omega

/-- Freeing one block and then another. -/
theorem VInv.free_free (rb : Rb) (h : VInv z) (ha : Block z a n) (hb : Block z b m)
    (hd : Disjoint (addrs a n) (addrs b m)) :
    ∃ t t', Zone.free (backend rb) z () a n = .ok t ∧ Zone.free (backend rb) t () b m = .ok t' ∧
      VInv t' ∧ freeAddrs t' = freeAddrs z ∪ addrs a n ∪ addrs b m := by
  obtain ⟨t, ht, hi, hf⟩ := h.free rb ha
  obtain ⟨t', ht', hi', hf'⟩ := hi.free rb (hb.after_free hi hd hf)
  exact ⟨t, t', ht, ht', hi', by rw [hf', hf]⟩

/-- Freeing the range that an allocation has just returned restores the free ranges, and two ranges
that do not overlap may be freed in either order. -/
theorem vmapzone_inverse (rb : Rb) (z : VZone) (h : VInv z) :
    (∀ n r t, Zone.alloc (backend rb) z () n = .ok (r, t) → r ≠ 0 →
      ∃ t', Zone.free (backend rb) t () r n = .ok t' ∧ ranges t' = ranges z) ∧
    ∀ a n b m, Block z a n → Block z b m → Disjoint (addrs a n) (addrs b m) →
      ∃ t₁ t₁' t₂ t₂',
        Zone.free (backend rb) z () a n = .ok t₁ ∧ Zone.free (backend rb) t₁ () b m = .ok t₁' ∧
        Zone.free (backend rb) z () b m = .ok t₂ ∧ Zone.free (backend rb) t₂ () a n = .ok t₂' ∧
        ranges t₁' = ranges t₂' := by
  constructor
  · intro n r t hal hr
    obtain ⟨hi, hb, hf⟩ := h.block_of_alloc rb hal hr
    obtain ⟨t', ht', hi', hf'⟩ := hi.free rb hb
    exact ⟨t', ht', hi'.ranges_eq h (hf'.trans hf)⟩
  · intro a n b m ha hb hd
    obtain ⟨t₁, t₁', h₁, h₁', hi₁, hf₁⟩ := h.free_free rb ha hb hd
    obtain ⟨t₂, t₂', h₂, h₂', hi₂, hf₂⟩ := h.free_free rb hb ha hd.symm
    refine ⟨t₁, t₁', t₂, t₂', h₁, h₁', h₂, h₂', hi₁.ranges_eq hi₂ ?_⟩
    rw [hf₁, hf₂, Set.union_right_comm]

/-- A zone with one entry: four addresses are taken and freed again, and two blocks are freed in
either order, of which one touches the entry. -/
theorem vmapzone_inverse_demo : ∃ z : VZone, z.db.tree = [⟨8, 8, .free⟩] ∧
    (∃ t t', Zone.alloc (backend everyNode) z () 4 = .ok (8, t) ∧
      Zone.free (backend everyNode) t () 8 4 = .ok t' ∧ ranges t' = ranges z) ∧
    ∃ t₁ t₁' t₂ t₂',
      Zone.free (backend everyNode) z () 16 4 = .ok t₁ ∧
      Zone.free (backend everyNode) t₁ () 32 8 = .ok t₁' ∧
      Zone.free (backend everyNode) z () 32 8 = .ok t₂ ∧
      Zone.free (backend everyNode) t₂ () 16 4 = .ok t₂' ∧ ranges t₁' = ranges t₂' := by
  obtain ⟨z, t, -, hi, htree, ht⟩ := demo_zone
  obtain ⟨hback, horder⟩ := vmapzone_inverse everyNode z hi
  have hclear : ∀ a n : Nat, 16 ≤ a → ∀ e ∈ z.db.tree, e.addr + e.size ≤ a ∨ a + n ≤ e.addr := by
    intro a n ha e he
    rw [htree] at he
    rw [List.mem_singleton.1 he]
    exact .inl ha
  obtain ⟨t', ht'⟩ := hback 4 8 t ht (by decide)
  refine ⟨z, htree, ⟨t, t', ht, ht'⟩, horder 16 4 32 8
    ⟨by decide, by decide, by decide, hclear 16 4 (by decide)⟩
    ⟨by decide, by decide, by decide, hclear 32 8 (by decide)⟩ ?_⟩
  refine Set.disjoint_left.2 fun x hx hx' ↦ ?_
  have h₁ := hx.2
  have h₂ := hx'.1
  omega

end Mh.Vmap
