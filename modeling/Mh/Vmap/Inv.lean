import Mh.Vmap.Model
import Mh.Zone.Lists

/-!
# The kernel's virtual ranges stay in step

The tree, the lists and the bitmap describe one set of free ranges: `VInv`.  The
ranges are tidy, in the sense of `Mh.Lib.Range.Tidy`: freeing a range joins it with
its neighbours in the tree, and an allocation takes a range out and frees what it
does not need.

The assertions of `vmap_compare_nodes` compare an address with a size, where an end
was meant; they hold nevertheless for ranges that do not overlap and do not contain
address zero.
-/

namespace Mh.Vmap

open Mh.Lib Mh.Zone

variable {rb : Rb} {z t : VZone} {vme e : Vme} {a n va : Nat}

/-- The range of an entry. -/
def Vme.range (vme : Vme) : Range Unit := ⟨vme.addr, vme.addr + vme.size, ()⟩

@[simp] theorem Vme.range_lo (vme : Vme) : vme.range.lo = vme.addr := rfl

@[simp] theorem Vme.range_hi (vme : Vme) : vme.range.hi = vme.addr + vme.size := rfl

@[simp] theorem Vme.range_len (vme : Vme) : vme.range.len = vme.size := Nat.add_sub_cancel_left _ _

/-- The nodes of the tree. -/
def nodes (z : VZone) : Set Vme := {vme | vme ∈ z.db.tree}

/-- The free ranges. -/
def ranges (z : VZone) : Set (Range Unit) := Vme.range '' nodes z

/-- A node of the tree: a free range of addresses other than zero. -/
structure NodeOk (vme : Vme) : Prop where
  pos : 0 < vme.addr
  bound : vme.addr + vme.size ≤ 2 ^ 32
  free : vme.type = .free

/-- The tree and the zone describe one tidy set of free ranges. -/
structure VInv (z : VZone) : Prop where
  zinv : ZInv z (nodes z) Vme.range
  nodup : z.db.tree.Nodup
  tidy : Range.Tidy (ranges z)
  node : ∀ vme ∈ z.db.tree, NodeOk vme
  size : z.db.size = w32 (z.db.tree.map Vme.size).sum

theorem mem_ranges (h : e ∈ z.db.tree) : e.range ∈ ranges z := ⟨e, h, rfl⟩

theorem range_inj (h : NodeOk vme) (h' : NodeOk e) (he : vme.range = e.range) : vme = e := by
  obtain ⟨a, n, ty⟩ := vme
  obtain ⟨a', n', ty'⟩ := e
  have hlo : a = a' := congrArg Range.lo he
  have hhi : a + n = a' + n' := congrArg Range.hi he
  have hty : ty = ty' := h.free.trans h'.free.symm
  subst hlo
  subst hty
  obtain rfl : n = n' := by omega
  rfl

/-- Nothing is free at first. -/
theorem vinv_init : VInv vmapInit where
  zinv := by
    have he : nodes vmapInit = ∅ := by simp [nodes, vmapInit, Zone.init]
    rw [he]
    exact ZInv.init _
  nodup := List.nodup_nil
  tidy := by
    have he : ranges vmapInit = ∅ := by simp [ranges, nodes, vmapInit, Zone.init]
    rw [he]
    exact Range.tidy_empty
  node vme h := absurd h List.not_mem_nil
  size := rfl

namespace VInv

theorem size_pos (h : VInv z) (he : e ∈ z.db.tree) : 0 < e.size := by
  have hp := h.zinv.len_pos he
  rwa [Vme.range_len] at hp

/-- Two nodes are apart, and do not touch. -/
theorem apart (h : VInv z) (he : e ∈ z.db.tree) (he' : vme ∈ z.db.tree) (hne : e ≠ vme) :
    e.addr + e.size < vme.addr ∨ vme.addr + vme.size < e.addr := by
  have hr : e.range ≠ vme.range := fun heq ↦ hne (range_inj (h.node e he) (h.node vme he') heq)
  have h₁ := h.tidy.maximal _ (mem_ranges he) _ (mem_ranges he') rfl
  have h₂ := h.tidy.maximal _ (mem_ranges he') _ (mem_ranges he) rfl
  simp only [Vme.range_lo, Vme.range_hi] at h₁ h₂
  rcases h.tidy.apart _ (mem_ranges he) _ (mem_ranges he') hr with hle | hle
  · exact .inl (lt_of_le_of_ne hle h₁)
  · exact .inr (lt_of_le_of_ne hle h₂)

/-! ## Finding a node -/

theorem vmapCompareKey_eq_zero (h : NodeOk e) (hs : 0 < e.size) :
    vmapCompareKey e va = 0 ↔ e.addr ≤ va ∧ va < e.addr + e.size := by
  have hb := h.bound
  have hw : w32 (e.addr + e.size + (2 ^ 32 - 1)) = e.addr + e.size - 1 := by
    have he : e.addr + e.size + (2 ^ 32 - 1) = e.addr + e.size - 1 + 2 ^ 32 := by omega
    rw [w32, he, Nat.add_mod_right, Nat.mod_eq_of_lt (by omega)]
  rw [vmapCompareKey, hw]
  split
  · exact iff_of_false (by decide) (by omega)
  · split
    · exact iff_of_false (by decide) (by omega)
    · exact iff_of_true rfl (by omega)

/-- `vmap_find` finds the node that holds an address. -/
theorem vmapFind_eq_some (h : VInv z) :
    vmapFind z.db va = some e ↔ e ∈ z.db.tree ∧ e.addr ≤ va ∧ va < e.addr + e.size := by
  rw [vmapFind]
  constructor
  · intro hf
    have hm := List.mem_of_find?_eq_some hf
    have hp := List.find?_some hf
    exact ⟨hm, (vmapCompareKey_eq_zero (h.node e hm) (h.size_pos hm)).1 (of_decide_eq_true hp)⟩
  · rintro ⟨hm, hva⟩
    cases hf : z.db.tree.find? (vmapCompareKey · va = 0) with
    | none =>
        have hn := List.find?_eq_none.1 hf e hm
        rw [decide_eq_true_eq, vmapCompareKey_eq_zero (h.node e hm) (h.size_pos hm)] at hn
        exact absurd hva hn
    | some e' =>
        have hm' := List.mem_of_find?_eq_some hf
        have hd := List.find?_some hf
        have hp := (vmapCompareKey_eq_zero (h.node e' hm') (h.size_pos hm')).1
          (of_decide_eq_true hd)
        have hr := h.tidy.unique (mem_ranges hm') (mem_ranges hm) hp hva
        rw [range_inj (h.node e' hm') (h.node e hm) hr]

/-- The tests of `___get_neighbors` on the type pass. -/
theorem filter_vmapFind (h : VInv z) :
    (vmapFind z.db va).filter (·.type = .free) = vmapFind z.db va := by
  cases hf : vmapFind z.db va with
  | none => rfl
  | some e =>
      have hm := (h.vmapFind_eq_some.1 hf).1
      simp [Option.filter, (h.node e hm).free]

end VInv

/-! ## Removing a node -/

/-- The free addresses are those of the ranges. -/
theorem freeAddrs_eq (z : VZone) : freeAddrs z = Range.cover (ranges z) () := by
  ext x
  constructor
  · rintro ⟨e, he, hx⟩
    exact ⟨e.range, mem_ranges he, rfl, hx⟩
  · rintro ⟨_, ⟨e, he, rfl⟩, _, hx⟩
    exact ⟨e, he, hx⟩

/-- What is left of the database when a node, if any, is removed. -/
def without (db : Db) (o : Option Vme) : Db := o.elim db (vmapRemove db)

theorem without_nodup {db : Db} (hnd : db.tree.Nodup) (o : Option Vme) :
    (without db o).tree.Nodup := by
  cases o with
  | none => exact hnd
  | some vme => exact hnd.erase vme

theorem mem_without {db : Db} (hnd : db.tree.Nodup) {o : Option Vme} :
    e ∈ (without db o).tree ↔ e ∈ db.tree ∧ o ≠ some e := by
  cases o with
  | none => simp [without]
  | some vme =>
      show e ∈ db.tree.erase vme ↔ _
      rw [hnd.mem_erase_iff]
      simp [and_comm, eq_comm]

theorem without_size {db : Db} (hs : db.size = w32 (db.tree.map Vme.size).sum) {o : Option Vme}
    (ho : ∀ e, o = some e → e ∈ db.tree ∧ e.size < 2 ^ 32) :
    (without db o).size = w32 ((without db o).tree.map Vme.size).sum := by
  cases o with
  | none => exact hs
  | some vme =>
      obtain ⟨hm, hlt⟩ := ho vme rfl
      have hsum := List.sum_map_erase Vme.size hm
      show w32 (db.size + (2 ^ 32 - vme.size)) = w32 ((db.tree.erase vme).map Vme.size).sum
      rw [hs, ← hsum, w32, w32, w32]
      omega

namespace VInv

/-- The assertions hold between a node and a range that is apart from it. -/
theorem vmapCompareOk_of_apart {v₁ v₂ : Vme} (h₁ : 0 < v₁.addr) (h₂ : 0 < v₂.addr)
    (hs₁ : 0 < v₁.size) (hs₂ : 0 < v₂.size)
    (h : v₂.addr + v₂.size ≤ v₁.addr ∨ v₁.addr + v₁.size ≤ v₂.addr) :
    vmapCompareOk v₁ v₂ = true := by
  simp only [vmapCompareOk, Bool.and_eq_true, Bool.or_eq_true, decide_eq_true_eq]
  omega

/-- `vmap_insert` of a range that is apart from every node. -/
theorem vmapInsert_eq {db : Db} (ha : 0 < a) (hn : 0 < n)
    (hdb : ∀ e ∈ db.tree, 0 < e.addr ∧ 0 < e.size ∧
      (e.addr + e.size ≤ a ∨ a + n ≤ e.addr)) :
    vmapInsert rb db a n .free =
      .ok (⟨a, n, .free⟩, ⟨⟨a, n, .free⟩ :: db.tree, w32 (db.size + n)⟩) := by
  have hall : (rb.path db.tree ⟨a, n, .free⟩).all (vmapCompareOk ⟨a, n, .free⟩) = true := by
    rw [List.all_eq_true]
    intro e he
    obtain ⟨hp, hs, hc⟩ := hdb e (rb.path_sub _ _ e he)
    exact vmapCompareOk_of_apart ha hp hn hs hc
  have hany : ¬ (rb.path db.tree ⟨a, n, .free⟩).any (·.addr = a) = true := by
    rw [List.any_eq_true]
    rintro ⟨e, he, heq⟩
    obtain ⟨_, hs, hc⟩ := hdb e (rb.path_sub _ _ e he)
    have heq' := of_decide_eq_true heq
    omega
  rw [vmapInsert]
  simp only [hall, if_true, if_neg hany]

/-- The size that `zone_create` computes for a range that may end at `2 ^ 32`. -/
theorem w32_len {lo hi : Nat} (hlo : 0 < lo) (hlt : lo < hi) (hhi : hi ≤ 2 ^ 32) :
    w32 (w32 hi + (2 ^ 32 - lo)) = hi - lo := by
  rw [w32, w32]
  omega

end VInv

/-! ## Freeing

A block `[a, a + n)` of addresses that are not free.  `prev` and `next` are its
neighbours in the tree, `joined` is the block together with them, and `rest` is the
database without them. -/

/-- The neighbour below. -/
def prev (z : VZone) (a n : Nat) : Option Vme := (getNeighbors z.db a n).1

/-- The neighbour above. -/
def next (z : VZone) (a n : Nat) : Option Vme := (getNeighbors z.db a n).2

/-- The block and its neighbours. -/
def joined (z : VZone) (a n : Nat) : Range Unit :=
  Range.join a (a + n) () ((prev z a n).map Vme.range) ((next z a n).map Vme.range)

/-- The database without the neighbours. -/
def rest (z : VZone) (a n : Nat) : Db := without (without z.db (prev z a n)) (next z a n)

/-- The entry of the joined block. -/
def joinedVme (z : VZone) (a n : Nat) : Vme :=
  ⟨(joined z a n).lo, (joined z a n).hi - (joined z a n).lo, .free⟩

/-- A block of addresses that are not free. -/
structure Block (z : VZone) (a n : Nat) : Prop where
  addr_pos : 0 < a
  size_pos : 0 < n
  bound : a + n ≤ 2 ^ 32
  clear : ∀ e ∈ z.db.tree, e.addr + e.size ≤ a ∨ a + n ≤ e.addr

namespace Block

/-- The neighbour below is the node that ends where the block begins. -/
theorem prev_eq_some (hb : Block z a n) (h : VInv z) :
    prev z a n = some e ↔ e ∈ z.db.tree ∧ e.addr + e.size = a := by
  have ha := hb.addr_pos
  have hn := hb.size_pos
  simp only [prev, getNeighbors, if_neg ha.ne', h.filter_vmapFind, h.vmapFind_eq_some]
  constructor
  · rintro ⟨hm, hva⟩
    have hc := hb.clear e hm
    exact ⟨hm, by omega⟩
  · rintro ⟨hm, he⟩
    have hs := h.size_pos hm
    exact ⟨hm, by omega⟩

/-- The neighbour above is the node that begins where the block ends. -/
theorem next_eq_some (hb : Block z a n) (h : VInv z) :
    next z a n = some e ↔ e ∈ z.db.tree ∧ e.addr = a + n := by
  have hn := hb.size_pos
  have hbd := hb.bound
  simp only [next, getNeighbors, h.filter_vmapFind, h.vmapFind_eq_some]
  by_cases htop : a + n = 2 ^ 32
  · -- the end wraps to zero, which is in no range
    have hw : w32 (a + n) = 0 := by rw [htop]; rfl
    rw [hw]
    constructor
    · rintro ⟨hm, hva⟩
      have hp := (h.node e hm).pos
      omega
    · rintro ⟨hm, he⟩
      have hp := (h.node e hm).bound
      have hs := h.size_pos hm
      omega
  · have hw : w32 (a + n) = a + n := Nat.mod_eq_of_lt (by omega)
    rw [hw]
    constructor
    · rintro ⟨hm, hva⟩
      have hc := hb.clear e hm
      exact ⟨hm, by omega⟩
    · rintro ⟨hm, he⟩
      have hs := h.size_pos hm
      exact ⟨hm, by omega⟩

theorem prev_mem (hb : Block z a n) (h : VInv z) (e : Vme) (he : prev z a n = some e) :
    e ∈ z.db.tree :=
  ((hb.prev_eq_some h).1 he).1

theorem next_mem (hb : Block z a n) (h : VInv z) (e : Vme) (he : next z a n = some e) :
    e ∈ z.db.tree :=
  ((hb.next_eq_some h).1 he).1

/-- The block is joined with its neighbours in the tree. -/
theorem joins (hb : Block z a n) (h : VInv z) :
    Range.Joins Vme.range (nodes z) a (a + n) () (prev z a n) (next z a n) where
  tidy := h.tidy
  inj _ he _ he' := range_inj (h.node _ he) (h.node _ he')
  lt := Nat.lt_add_of_pos_right hb.size_pos
  clear := hb.clear
  prev e := by
    rw [hb.prev_eq_some h]
    exact and_congr_right fun _ ↦ (and_iff_right rfl).symm
  next e := by
    rw [hb.next_eq_some h]
    exact and_congr_right fun _ ↦ (and_iff_right rfl).symm

/-- The joined block is a range of addresses other than zero. -/
theorem joined_bounds (hb : Block z a n) (h : VInv z) :
    0 < (joined z a n).lo ∧ (joined z a n).lo < (joined z a n).hi ∧
      (joined z a n).hi ≤ 2 ^ 32 :=
  (hb.joins h).bounds hb.addr_pos hb.bound fun e he ↦ ⟨(h.node e he).pos, (h.node e he).bound⟩

/-- The nodes that stay. -/
theorem mem_rest (h : VInv z) :
    e ∈ (rest z a n).tree ↔ e ∈ z.db.tree ∧ prev z a n ≠ some e ∧ next z a n ≠ some e := by
  rw [rest, mem_without (without_nodup h.nodup _), mem_without h.nodup, and_assoc]

/-- The nodes that stay are clear of the joined block. -/
theorem clear_of_joined (hb : Block z a n) (h : VInv z) (he : e ∈ (rest z a n).tree) :
    e.addr + e.size ≤ (joined z a n).lo ∨ (joined z a n).hi ≤ e.addr := by
  obtain ⟨hm, hp, hq⟩ := (mem_rest h).1 he
  exact (hb.joins h).clear_of_join hm hp hq

theorem joinedVme_notMem (hb : Block z a n) (h : VInv z) :
    joinedVme z a n ∉ (rest z a n).tree := by
  intro hm
  have hc := hb.clear_of_joined h hm
  have hlt := (hb.joined_bounds h).2.1
  simp only [joinedVme] at hc
  omega

theorem joinedVme_range (hb : Block z a n) (h : VInv z) :
    (joinedVme z a n).range = joined z a n := by
  have hlt := (hb.joined_bounds h).2.1
  ext
  · rfl
  · show (joined z a n).lo + ((joined z a n).hi - (joined z a n).lo) = (joined z a n).hi
    omega

theorem rest_size (hb : Block z a n) (h : VInv z) :
    (rest z a n).size = w32 ((rest z a n).tree.map Vme.size).sum := by
  have hsz : ∀ e ∈ z.db.tree, e.size < 2 ^ 32 := by
    intro e he
    have h₁ := (h.node e he).pos
    have h₂ := (h.node e he).bound
    omega
  refine without_size (without_size h.size fun e he ↦ ?_) fun e he ↦ ?_
  · exact ⟨hb.prev_mem h e he, hsz e (hb.prev_mem h e he)⟩
  · have hm := hb.next_mem h e he
    exact ⟨(mem_without h.nodup).2 ⟨hm, (hb.joins h).prev_ne_next he⟩, hsz e hm⟩

/-- `___mkptr` of the joined block. -/
theorem mkptr_joined (rb : Rb) (hb : Block z a n) (h : VInv z) :
    vmapInsert rb (rest z a n) (joined z a n).lo ((joined z a n).hi - (joined z a n).lo) .free =
      .ok (joinedVme z a n, ⟨joinedVme z a n :: (rest z a n).tree,
        w32 ((rest z a n).size + (joinedVme z a n).size)⟩) := by
  obtain ⟨hpos, hlt, _⟩ := hb.joined_bounds h
  refine VInv.vmapInsert_eq hpos (Nat.sub_pos_of_lt hlt) fun e he ↦ ?_
  have hm := ((mem_rest h).1 he).1
  have hc := hb.clear_of_joined h he
  exact ⟨(h.node e hm).pos, h.size_pos hm, by omega⟩

/-- The zone after `zone_create`. -/
theorem zone_create (rb : Rb) (hb : Block z a n) (h : VInv z) :
    ∃ t, Zone.create (backend rb) z () a n = .ok t ∧
      ZInv t (insert (joinedVme z a n)
        {e ∈ nodes z | prev z a n ≠ some e ∧ next z a n ≠ some e}) Vme.range ∧
      t.db = ⟨joinedVme z a n :: (rest z a n).tree,
        w32 ((rest z a n).size + (joinedVme z a n).size)⟩ := by
  obtain ⟨hpos, hlt, hbd⟩ := hb.joined_bounds h
  have hlo : (prev z a n).elim a Vme.addr = (joined z a n).lo := by
    rw [joined]
    cases prev z a n <;> rfl
  have hhi : ((next z a n).elim (w32 (a + n)) fun e ↦ w32 (e.addr + e.size)) =
      w32 (joined z a n).hi := by
    rw [joined]
    cases next z a n <;> rfl
  have hmk := hb.mkptr_joined rb h
  rw [← VInv.w32_len hpos hlt hbd, ← hhi, ← hlo] at hmk
  have hlen : (joinedVme z a n).range.len = (joined z a n).hi - (joined z a n).lo :=
    Vme.range_len _
  refine h.zinv.create (backend rb) (p := prev z a n) (q := next z a n) rfl ?_ ?_ hmk ?_
    (fun _ _ _ _ ↦ rfl) rfl hlen.symm ?_ ?_
  · intro e he
    exact ⟨hb.prev_mem h e he, rfl, (Vme.range_len e).symm⟩
  · intro e he
    exact ⟨hb.next_mem h e he, rfl, (hb.joins h).prev_ne_next he, (Vme.range_len e).symm⟩
  · rintro e he hp hq rfl
    exact hb.joinedVme_notMem h ((mem_rest h).2 ⟨he, hp, hq⟩)
  · rw [hlen]
    exact Nat.sub_pos_of_lt hlt
  · rw [hlen]
    omega

/-- `zone_create` of a block that is not free: it becomes free, and nothing else
does. -/
theorem create (rb : Rb) (hb : Block z a n) (h : VInv z) :
    ∃ t, Zone.create (backend rb) z () a n = .ok t ∧ VInv t ∧
      freeAddrs t = freeAddrs z ∪ addrs a n := by
  obtain ⟨t, ht, hz, hdb⟩ := hb.zone_create rb h
  have hj := hb.joins h
  have hnodes : nodes t = insert (joinedVme z a n)
      {e ∈ nodes z | prev z a n ≠ some e ∧ next z a n ≠ some e} := by
    ext e
    show e ∈ t.db.tree ↔ _
    rw [hdb, List.mem_cons, mem_rest h]
    rfl
  have hranges : ranges t = Range.merge (ranges z) a (a + n) () ((prev z a n).map Vme.range)
      ((next z a n).map Vme.range) := by
    rw [ranges, hnodes]
    exact hj.image_insert (hb.joinedVme_range h)
  refine ⟨t, ht, ⟨?_, ?_, ?_, ?_, ?_⟩, ?_⟩
  · rw [hnodes]
    exact hz
  · rw [hdb]
    exact List.nodup_cons.2 ⟨hb.joinedVme_notMem h,
      without_nodup (without_nodup h.nodup _) _⟩
  · rw [hranges]
    exact hj.tidy_merge
  · rw [hdb]
    obtain ⟨hpos, hlt, hbd⟩ := hb.joined_bounds h
    rintro e (_ | ⟨_, he⟩)
    · refine ⟨hpos, ?_, rfl⟩
      show (joined z a n).lo + ((joined z a n).hi - (joined z a n).lo) ≤ 2 ^ 32
      omega
    · exact h.node e ((mem_rest h).1 he).1
  · rw [hdb]
    show w32 (_ + _) = w32 (List.map Vme.size (_ :: _)).sum
    rw [hb.rest_size h, List.map_cons, List.sum_cons, w32, w32, w32, Nat.mod_add_mod,
      Nat.add_comm]
  · rw [freeAddrs_eq, freeAddrs_eq, hranges, Range.cover_merge h.tidy hj.lt hj.neighbors]
    rfl

end Block

end Mh.Vmap
