import Mh.Mrg.Model
import Mh.Zone.Lists

/-!
# The map of the address space stays in step

The tree holds the free ranges and the ones that have been handed out: `VInv`.  All of them are
tidy, in the sense of `Mh.Lib.Range.Tidy`, where the free ranges are one zone and each of the
others is a zone of its own; so the free ones do not touch one another, and no two ranges
overlap.  The lists hold the free ones.

Freeing a block of addresses that are in no range joins it with the free ranges next to it
(`Block.create`).
-/

namespace Mh.Mrg

open Mh.Lib Mh.Zone

variable {rb : Rb} {z t : VZone} {vme e : Vme} {a n va : Nat} {ty : UInt8}

/-- The range of an entry. -/
def Vme.range (vme : Vme) : Range (Option (Nat × UInt8)) where
  lo := vme.addr
  hi := vme.addr + vme.size
  zone := if vme.type = vfntFree then none else some (vme.addr, vme.type)

/-- The range of an entry, as the zone has it. -/
def Vme.block (vme : Vme) : Range Unit := ⟨vme.addr, vme.addr + vme.size, ()⟩

@[simp] theorem Vme.range_lo (vme : Vme) : vme.range.lo = vme.addr := rfl

@[simp] theorem Vme.range_hi (vme : Vme) : vme.range.hi = vme.addr + vme.size := rfl

@[simp] theorem Vme.block_len (vme : Vme) : vme.block.len = vme.size := Nat.add_sub_cancel_left _ _

/-- The free entries are in one zone. -/
theorem Vme.range_zone_eq_none : e.range.zone = none ↔ e.type = vfntFree := by
  simp [Vme.range]

/-- An entry is known by its range. -/
theorem Vme.range_injective : Function.Injective Vme.range := by
  rintro ⟨ty, a, n⟩ ⟨ty', a', n'⟩ h
  have hlo : a = a' := congrArg Range.lo h
  have hhi : a + n = a' + n' := congrArg Range.hi h
  have hz := congrArg Range.zone h
  subst hlo
  obtain rfl : n = n' := by omega
  simp only [Vme.range] at hz
  split at hz
  · next hf =>
    split at hz
    · next hf' => rw [hf, hf']
    · cases hz
  · split at hz
    · cases hz
    · rw [(Prod.mk.inj (Option.some.inj hz)).2]

/-- The nodes of the tree. -/
def nodes (z : VZone) : Set Vme := {vme | vme ∈ z.db.tree}

/-- The free ones. -/
def frees (z : VZone) : Set Vme := {vme | vme ∈ z.db.tree ∧ vme.type = vfntFree}

/-- Their ranges. -/
def ranges (z : VZone) : Set (Range (Option (Nat × UInt8))) := Vme.range '' nodes z

/-- The addresses of all the nodes. -/
def covered (z : VZone) : Set Nat := Range.total (ranges z)

/-- A node of the tree: a range of addresses other than zero. -/
structure NodeOk (vme : Vme) : Prop where
  pos : 0 < vme.addr
  bound : vme.addr + vme.size ≤ 2 ^ 32

/-- The tree holds tidy ranges, and the zone the free ones among them. -/
structure VInv (z : VZone) : Prop where
  zinv : ZInv z (frees z) Vme.block
  nodup : z.db.tree.Nodup
  tidy : Range.Tidy (ranges z)
  node : ∀ vme ∈ z.db.tree, NodeOk vme

theorem mem_ranges (h : e ∈ z.db.tree) : e.range ∈ ranges z := ⟨e, h, rfl⟩

theorem mem_covered {x : Nat} :
    x ∈ covered z ↔ ∃ e ∈ z.db.tree, e.addr ≤ x ∧ x < e.addr + e.size := by
  constructor
  · rintro ⟨_, ⟨e, he, rfl⟩, hx⟩
    exact ⟨e, he, hx⟩
  · rintro ⟨e, he, hx⟩
    exact ⟨e.range, mem_ranges he, hx⟩

/-- The tree and the zone before anything is freed. -/
theorem vinv_init : VInv (Zone.init ⟨[], 0⟩) where
  zinv := by
    have he : frees (Zone.init ⟨[], 0⟩ : VZone) = ∅ := by simp [frees, Zone.init]
    rw [he]
    exact ZInv.init _
  nodup := List.nodup_nil
  tidy := by
    have he : ranges (Zone.init ⟨[], 0⟩ : VZone) = ∅ := by simp [ranges, nodes, Zone.init]
    rw [he]
    exact Range.tidy_empty
  node vme h := absurd h List.not_mem_nil

namespace VInv

theorem size_pos (h : VInv z) (he : e ∈ z.db.tree) : 0 < e.size := by
  have hp := h.tidy.pos _ (mem_ranges he)
  rw [Vme.range_lo, Vme.range_hi] at hp
  omega

theorem size_lt (h : VInv z) (he : e ∈ z.db.tree) : e.size < 2 ^ 32 := by
  have h₁ := (h.node e he).pos
  have h₂ := (h.node e he).bound
  omega

/-- Two nodes do not overlap. -/
theorem apart (h : VInv z) (he : e ∈ z.db.tree) (he' : vme ∈ z.db.tree) (hne : e ≠ vme) :
    e.addr + e.size ≤ vme.addr ∨ vme.addr + vme.size ≤ e.addr :=
  h.tidy.apart _ (mem_ranges he) _ (mem_ranges he') (Vme.range_injective.ne hne)

/-- An address is in one node only. -/
theorem unique {x : Nat} (h : VInv z) (he : e ∈ z.db.tree) (he' : vme ∈ z.db.tree)
    (hx : e.addr ≤ x ∧ x < e.addr + e.size) (hx' : vme.addr ≤ x ∧ x < vme.addr + vme.size) :
    e = vme :=
  Vme.range_injective (h.tidy.unique (mem_ranges he) (mem_ranges he') hx hx')

/-- Two free nodes do not touch. -/
theorem free_apart (h : VInv z) (he : e ∈ frees z) (he' : vme ∈ frees z) :
    e.addr + e.size ≠ vme.addr := by
  refine h.tidy.maximal _ (mem_ranges he.1) _ (mem_ranges he'.1) ?_
  rw [Vme.range_zone_eq_none.2 he.2, Vme.range_zone_eq_none.2 he'.2]

/-! ## Finding a node -/

theorem vmapCompareKey_eq_zero (h : NodeOk e) (hs : 0 < e.size) :
    vmapCompareKey e va = 0 ↔ e.addr ≤ va ∧ va < e.addr + e.size := by
  have hb := h.bound
  have hp := h.pos
  have hw : w32 (e.addr + w32 (e.size + (2 ^ 32 - 1))) = e.addr + e.size - 1 := by
    rw [w32, w32]
    omega
  rw [vmapCompareKey, hw]
  split
  · exact iff_of_false (by decide) (by omega)
  · split
    · exact iff_of_false (by decide) (by omega)
    · exact iff_of_true rfl (by omega)

/-- `vmap_find` finds the node that holds an address. -/
theorem vmapFind_eq_some (h : VInv z) :
    vmapFind z.db va = some e ↔ e ∈ z.db.tree ∧ e.addr ≤ va ∧ va < e.addr + e.size := by
  have hkey : ∀ e ∈ z.db.tree, vmapCompareKey e va = 0 ↔ e.addr ≤ va ∧ va < e.addr + e.size :=
    fun e he ↦ vmapCompareKey_eq_zero (h.node e he) (h.size_pos he)
  rw [vmapFind]
  constructor
  · intro hf
    have hm := List.mem_of_find?_eq_some hf
    have hp := List.find?_some hf
    exact ⟨hm, (hkey e hm).1 (of_decide_eq_true hp)⟩
  · rintro ⟨hm, hva⟩
    cases hf : z.db.tree.find? (vmapCompareKey · va = 0) with
    | none =>
        have hn := List.find?_eq_none.1 hf e hm
        rw [decide_eq_true_eq, hkey e hm] at hn
        exact absurd hva hn
    | some e' =>
        have hm' := List.mem_of_find?_eq_some hf
        have hp := List.find?_some hf
        rw [h.unique hm' hm ((hkey e' hm').1 (of_decide_eq_true hp)) hva]

end VInv

/-! ## Changing the tree -/

/-- What is left of the database when a node, if any, is removed. -/
def without (db : Db) (o : Option Vme) : Db := o.elim db (vmapRemove db)

theorem without_nodup {db : Db} (hnd : db.tree.Nodup) (o : Option Vme) :
    (without db o).tree.Nodup := by
  cases o with
  | none => exact hnd
  | some vme => exact hnd.erase vme

theorem mem_without {db : Db} (hnd : db.tree.Nodup) {o : Option Vme} :
    e ∈ (without db o).tree ↔ e ∈ db.tree ∧ o ≠ some e := by
  cases o with
  | none => simp [without]
  | some vme =>
      show e ∈ db.tree.erase vme ↔ _
      rw [hnd.mem_erase_iff]
      simp [and_comm, eq_comm]

/-- The size of a node that may be missing. -/
def sizeOpt (o : Option Vme) : Nat := o.elim 0 Vme.size

theorem without_size (db : Db) {o : Option Vme} (ho : ∀ e, o = some e → e.size < 2 ^ 32) :
    w32 ((without db o).size + sizeOpt o) = w32 db.size := by
  cases o with
  | none => rfl
  | some vme =>
      have hlt := ho vme rfl
      show w32 (w32 (db.size + (2 ^ 32 - vme.size)) + vme.size) = w32 db.size
      rw [w32, w32, w32]
      omega

/-- The assertions hold between a node and a range that is apart from it. -/
theorem vmapCompareOk_of_apart {v₁ v₂ : Vme} (h₁ : 0 < v₁.addr) (h₂ : 0 < v₂.addr)
    (hs₁ : 0 < v₁.size) (hs₂ : 0 < v₂.size)
    (h : v₂.addr + v₂.size ≤ v₁.addr ∨ v₁.addr + v₁.size ≤ v₂.addr) :
    vmapCompareOk v₁ v₂ = true := by
  simp only [vmapCompareOk, Bool.and_eq_true, Bool.or_eq_true, decide_eq_true_eq]
  omega

/-- `vmap_insert` of a range that is apart from every node. -/
theorem vmapInsert_eq (rb : Rb) (ty : UInt8) {db : Db} (ha : 0 < a) (hn : 0 < n)
    (hdb : ∀ e ∈ db.tree, 0 < e.addr ∧ 0 < e.size ∧
      (e.addr + e.size ≤ a ∨ a + n ≤ e.addr)) :
    vmapInsert rb db a n ty =
      .ok (⟨ty, a, n⟩, ⟨⟨ty, a, n⟩ :: db.tree, w32 (db.size + n)⟩) := by
  have hall : (rb.path db.tree ⟨ty, a, n⟩).all (vmapCompareOk ⟨ty, a, n⟩) = true := by
    rw [List.all_eq_true]
    intro e he
    obtain ⟨hp, hs, hc⟩ := hdb e (rb.path_sub _ _ e he)
    exact vmapCompareOk_of_apart ha hp hn hs hc
  have hany : ¬ (rb.path db.tree ⟨ty, a, n⟩).any (·.addr = a) = true := by
    rw [List.any_eq_true]
    rintro ⟨e, he, heq⟩
    obtain ⟨_, hs, hc⟩ := hdb e (rb.path_sub _ _ e he)
    have heq' := of_decide_eq_true heq
    omega
  rw [vmapInsert]
  simp only [hall, if_true, if_neg hany]

/-! ## Freeing

A block `[a, a + n)` of addresses that are in no node.  `prev` and `next` are the free nodes
next to it, `joined` is the block together with them, and `rest` is the database without
them. -/

/-- The neighbour below. -/
def prev (z : VZone) (a n : Nat) : Option Vme := (getNeighbors z.db a n).1

/-- The neighbour above. -/
def next (z : VZone) (a n : Nat) : Option Vme := (getNeighbors z.db a n).2

/-- The block and its neighbours. -/
def joined (z : VZone) (a n : Nat) : Range (Option (Nat × UInt8)) :=
  Range.join a (a + n) none ((prev z a n).map Vme.range) ((next z a n).map Vme.range)

/-- The database without the neighbours. -/
def rest (z : VZone) (a n : Nat) : Db := without (without z.db (prev z a n)) (next z a n)

/-- The entry of the joined block. -/
def joinedVme (z : VZone) (a n : Nat) : Vme :=
  ⟨vfntFree, (joined z a n).lo, (joined z a n).hi - (joined z a n).lo⟩

/-- A block of addresses that are in no node. -/
structure Block (z : VZone) (a n : Nat) : Prop where
  addr_pos : 0 < a
  size_pos : 0 < n
  bound : a + n ≤ 2 ^ 32
  clear : ∀ e ∈ z.db.tree, e.addr + e.size ≤ a ∨ a + n ≤ e.addr

namespace Block

theorem lt (hb : Block z a n) : a < a + n := Nat.lt_add_of_pos_right hb.size_pos

/-- The neighbour below is the free node that ends where the block begins. -/
theorem prev_eq_some (hb : Block z a n) (h : VInv z) :
    prev z a n = some e ↔ e ∈ frees z ∧ e.addr + e.size = a := by
  have ha := hb.addr_pos
  have hn := hb.size_pos
  simp only [prev, getNeighbors, if_neg ha.ne', Option.filter_eq_some_iff, h.vmapFind_eq_some,
    decide_eq_true_eq]
  constructor
  · rintro ⟨⟨hm, hva⟩, hf⟩
    have hc := hb.clear e hm
    exact ⟨⟨hm, hf⟩, by omega⟩
  · rintro ⟨⟨hm, hf⟩, he⟩
    have hs := h.size_pos hm
    exact ⟨⟨hm, by omega⟩, hf⟩

/-- The neighbour above is the free node that begins where the block ends. -/
theorem next_eq_some (hb : Block z a n) (h : VInv z) :
    next z a n = some e ↔ e ∈ frees z ∧ e.addr = a + n := by
  have hn := hb.size_pos
  have hbd := hb.bound
  simp only [next, getNeighbors, Option.filter_eq_some_iff, h.vmapFind_eq_some, decide_eq_true_eq]
  by_cases htop : a + n = 2 ^ 32
  · -- the end wraps to zero, which is in no range
    have hw : w32 (a + n) = 0 := by rw [htop]; rfl
    rw [hw]
    constructor
    · rintro ⟨⟨hm, hva⟩, _⟩
      have hp := (h.node e hm).pos
      omega
    · rintro ⟨⟨hm, _⟩, he⟩
      have hp := (h.node e hm).bound
      have hs := h.size_pos hm
      omega
  · have hw : w32 (a + n) = a + n := Nat.mod_eq_of_lt (by omega)
    rw [hw]
    constructor
    · rintro ⟨⟨hm, hva⟩, hf⟩
      have hc := hb.clear e hm
      exact ⟨⟨hm, hf⟩, by omega⟩
    · rintro ⟨⟨hm, hf⟩, he⟩
      have hs := h.size_pos hm
      exact ⟨⟨hm, by omega⟩, hf⟩

theorem prev_mem (hb : Block z a n) (h : VInv z) (e : Vme) (he : prev z a n = some e) :
    e ∈ frees z :=
  ((hb.prev_eq_some h).1 he).1

theorem next_mem (hb : Block z a n) (h : VInv z) (e : Vme) (he : next z a n = some e) :
    e ∈ frees z :=
  ((hb.next_eq_some h).1 he).1

/-- The block is joined with the free nodes next to it. -/
theorem joins (hb : Block z a n) (h : VInv z) :
    Range.Joins Vme.range (nodes z) a (a + n) none (prev z a n) (next z a n) where
  tidy := h.tidy
  inj := Vme.range_injective.injOn
  lt := hb.lt
  clear := hb.clear
  prev e := by
    rw [hb.prev_eq_some h, Vme.range_zone_eq_none, ← and_assoc]
    rfl
  next e := by
    rw [hb.next_eq_some h, Vme.range_zone_eq_none, ← and_assoc]
    rfl

/-- The joined block is a range of addresses other than zero. -/
theorem joined_bounds (hb : Block z a n) (h : VInv z) :
    0 < (joined z a n).lo ∧ (joined z a n).lo < (joined z a n).hi ∧
      (joined z a n).hi ≤ 2 ^ 32 :=
  (hb.joins h).bounds hb.addr_pos hb.bound fun e he ↦ ⟨(h.node e he).pos, (h.node e he).bound⟩

/-- The size of the joined block. -/
theorem joined_size (hb : Block z a n) (h : VInv z) :
    (joinedVme z a n).size = n + sizeOpt (prev z a n) + sizeOpt (next z a n) := by
  show (joined z a n).hi - (joined z a n).lo = _
  rw [joined]
  cases hp : prev z a n with
  | none =>
      cases hq : next z a n with
      | none => exact Nat.add_sub_cancel_left a n
      | some e =>
          have hend := ((hb.next_eq_some h).1 hq).2
          show e.addr + e.size - a = n + 0 + e.size
          omega
  | some e =>
      have hbeg := ((hb.prev_eq_some h).1 hp).2
      cases hq : next z a n with
      | none =>
          show a + n - e.addr = n + e.size + 0
          omega
      | some e' =>
          have hend := ((hb.next_eq_some h).1 hq).2
          show e'.addr + e'.size - e.addr = n + e.size + e'.size
          omega

/-- The nodes that stay. -/
theorem mem_rest (h : VInv z) :
    e ∈ (rest z a n).tree ↔ e ∈ z.db.tree ∧ prev z a n ≠ some e ∧ next z a n ≠ some e := by
  rw [rest, mem_without (without_nodup h.nodup _), mem_without h.nodup, and_assoc]

/-- The nodes that stay are clear of the joined block. -/
theorem clear_of_joined (hb : Block z a n) (h : VInv z) (he : e ∈ (rest z a n).tree) :
    e.addr + e.size ≤ (joined z a n).lo ∨ (joined z a n).hi ≤ e.addr := by
  obtain ⟨hm, hp, hq⟩ := (mem_rest h).1 he
  exact (hb.joins h).clear_of_join hm hp hq

theorem joinedVme_notMem (hb : Block z a n) (h : VInv z) :
    joinedVme z a n ∉ (rest z a n).tree := by
  intro hm
  have hc := hb.clear_of_joined h hm
  have hlt := (hb.joined_bounds h).2.1
  simp only [joinedVme] at hc
  omega

theorem joinedVme_range (hb : Block z a n) (h : VInv z) :
    (joinedVme z a n).range = joined z a n := by
  have hlt := (hb.joined_bounds h).2.1
  ext
  · rfl
  · show (joined z a n).lo + ((joined z a n).hi - (joined z a n).lo) = (joined z a n).hi
    omega
  · rfl

/-- `___mkptr` of the joined block. -/
theorem mkptr_joined (rb : Rb) (hb : Block z a n) (h : VInv z) :
    vmapInsert rb (rest z a n) (joined z a n).lo ((joined z a n).hi - (joined z a n).lo) vfntFree =
      .ok (joinedVme z a n, ⟨joinedVme z a n :: (rest z a n).tree,
        w32 ((rest z a n).size + (joinedVme z a n).size)⟩) := by
  obtain ⟨hpos, hlt, _⟩ := hb.joined_bounds h
  refine vmapInsert_eq rb vfntFree hpos (Nat.sub_pos_of_lt hlt) fun e he ↦ ?_
  have hm := ((mem_rest h).1 he).1
  have hc := hb.clear_of_joined h he
  exact ⟨(h.node e hm).pos, h.size_pos hm, by omega⟩

/-- The zone after `zone_create`. -/
theorem zone_create (rb : Rb) (hb : Block z a n) (h : VInv z) :
    ∃ t, Zone.create (backend rb) z () a n = .ok t ∧
      ZInv t (insert (joinedVme z a n)
        {e ∈ frees z | prev z a n ≠ some e ∧ next z a n ≠ some e}) Vme.block ∧
      t.db = ⟨joinedVme z a n :: (rest z a n).tree,
        w32 ((rest z a n).size + (joinedVme z a n).size)⟩ := by
  obtain ⟨hpos, hlt, hbd⟩ := hb.joined_bounds h
  have hlo : (prev z a n).elim a Vme.addr = (joined z a n).lo := by
    rw [joined]
    cases prev z a n <;> rfl
  have hhi : ((next z a n).elim (w32 (a + n)) fun e ↦ w32 (e.addr + e.size)) =
      w32 (joined z a n).hi := by
    rw [joined]
    cases next z a n <;> rfl
  have hw : w32 (w32 (joined z a n).hi + (2 ^ 32 - (joined z a n).lo)) =
      (joined z a n).hi - (joined z a n).lo := by
    rw [w32, w32]
    omega
  have hmk := hb.mkptr_joined rb h
  rw [← hw, ← hhi, ← hlo] at hmk
  have hlen : (joinedVme z a n).block.len = (joined z a n).hi - (joined z a n).lo :=
    Vme.block_len _
  refine h.zinv.create (backend rb) (p := prev z a n) (q := next z a n) rfl ?_ ?_ hmk ?_
    (fun _ _ _ _ ↦ rfl) rfl hlen.symm ?_ ?_
  · intro e he
    exact ⟨hb.prev_mem h e he, rfl, (Vme.block_len e).symm⟩
  · intro e he
    exact ⟨hb.next_mem h e he, rfl, (hb.joins h).prev_ne_next he, (Vme.block_len e).symm⟩
  · rintro e he hp hq rfl
    exact hb.joinedVme_notMem h ((mem_rest h).2 ⟨he.1, hp, hq⟩)
  · rw [hlen]
    exact Nat.sub_pos_of_lt hlt
  · rw [hlen]
    omega

/-- What `zone_create` does to the tree. -/
structure Created (z t : VZone) (a n : Nat) : Prop where
  vinv : VInv t
  covered : covered t = covered z ∪ Set.Ico a (a + n)
  taken : ∀ e, e.type ≠ vfntFree → (e ∈ t.db.tree ↔ e ∈ z.db.tree)
  size : t.db.size = w32 (z.db.size + n)

/-- `zone_create` of a block that is in no node: it becomes free, and nothing else does. -/
theorem create (rb : Rb) (hb : Block z a n) (h : VInv z) :
    ∃ t, Zone.create (backend rb) z () a n = .ok t ∧ Created z t a n := by
  obtain ⟨t, ht, hz, hdb⟩ := hb.zone_create rb h
  have hj := hb.joins h
  have hmem : ∀ e, e ∈ t.db.tree ↔ e = joinedVme z a n ∨
      e ∈ z.db.tree ∧ prev z a n ≠ some e ∧ next z a n ≠ some e := fun e ↦ by
    rw [hdb, List.mem_cons, mem_rest h]
  have hfrees : frees t = insert (joinedVme z a n)
      {e ∈ frees z | prev z a n ≠ some e ∧ next z a n ≠ some e} := by
    ext e
    show e ∈ t.db.tree ∧ e.type = vfntFree ↔ _
    rw [hmem]
    constructor
    · rintro ⟨rfl | ⟨hm, hp, hq⟩, hf⟩
      · exact .inl rfl
      · exact .inr ⟨⟨hm, hf⟩, hp, hq⟩
    · rintro (rfl | ⟨⟨hm, hf⟩, hp, hq⟩)
      · exact ⟨.inl rfl, rfl⟩
      · exact ⟨.inr ⟨hm, hp, hq⟩, hf⟩
  have hranges : ranges t = Range.merge (ranges z) a (a + n) none ((prev z a n).map Vme.range)
      ((next z a n).map Vme.range) := by
    refine Eq.trans ?_ (hj.image_insert (hb.joinedVme_range h))
    exact congrArg (Vme.range '' ·) (Set.ext hmem)
  refine ⟨t, ht, ⟨?_, ?_, ?_, ?_⟩, ?_, fun e hty ↦ ?_, ?_⟩
  · rw [hfrees]
    exact hz
  · rw [hdb]
    exact List.nodup_cons.2 ⟨hb.joinedVme_notMem h,
      without_nodup (without_nodup h.nodup _) _⟩
  · rw [hranges]
    exact hj.tidy_merge
  · obtain ⟨hpos, hlt, hbd⟩ := hb.joined_bounds h
    intro e he
    rcases (hmem e).1 he with rfl | ⟨hm, -⟩
    · refine ⟨hpos, ?_⟩
      show (joined z a n).lo + ((joined z a n).hi - (joined z a n).lo) ≤ 2 ^ 32
      omega
    · exact h.node e hm
  · rw [Mrg.covered, hranges, Range.total_merge h.tidy hj.lt hj.neighbors]
    rfl
  · rw [hmem]
    constructor
    · rintro (rfl | ⟨hm, -⟩)
      · exact absurd rfl hty
      · exact hm
    · intro hm
      refine .inr ⟨hm, fun hp ↦ hty (hb.prev_mem h e hp).2, fun hq ↦ hty (hb.next_mem h e hq).2⟩
  · have hp := without_size z.db (o := prev z a n)
      fun e he ↦ h.size_lt (hb.prev_mem h e he).1
    have hq := without_size (without z.db (prev z a n)) (o := next z a n)
      fun e he ↦ h.size_lt (hb.next_mem h e he).1
    have hsz := hb.joined_size h
    rw [hdb]
    show w32 ((rest z a n).size + (joinedVme z a n).size) = w32 (z.db.size + n)
    rw [rest, hsz]
    simp only [w32] at hp hq ⊢
    omega

end Block

/-! ## Taking nodes out and putting them in -/

namespace VInv

/-- A node is erased from the tree. -/
theorem erase (h : VInv z) (he : e ∈ z.db.tree) (ht : t.db.tree = z.db.tree.erase e)
    (hz : ZInv t (frees t) Vme.block) :
    VInv t ∧ covered t = covered z \ Set.Ico e.addr (e.addr + e.size) := by
  have hmem : ∀ e', e' ∈ t.db.tree ↔ e' ≠ e ∧ e' ∈ z.db.tree := fun e' ↦ by
    rw [ht]
    exact h.nodup.mem_erase_iff
  refine ⟨⟨hz, ?_, h.tidy.mono ?_, fun e' he' ↦ h.node e' ((hmem e').1 he').2⟩, ?_⟩
  · rw [ht]
    exact h.nodup.erase e
  · rintro _ ⟨e', he', rfl⟩
    exact mem_ranges ((hmem e').1 he').2
  · ext x
    rw [Set.mem_sdiff, mem_covered, mem_covered, Set.mem_Ico]
    constructor
    · rintro ⟨e', he', hx⟩
      obtain ⟨hne, hm⟩ := (hmem e').1 he'
      exact ⟨⟨e', hm, hx⟩, fun hx' ↦ hne (h.unique hm he hx hx')⟩
    · rintro ⟨⟨e', hm, hx⟩, hnx⟩
      refine ⟨e', (hmem e').2 ⟨?_, hm⟩, hx⟩
      rintro rfl
      exact hnx hx

/-- What a node leaves, or the end of it, is a block. -/
theorem block_of_erase (h : VInv z) (he : e ∈ z.db.tree) (ht : t.db.tree = z.db.tree.erase e)
    (hlt : n < e.size) : Block t (e.addr + n) (e.size - n) where
  addr_pos := Nat.add_pos_left (h.node e he).pos _
  size_pos := Nat.sub_pos_of_lt hlt
  bound := by
    have hb := (h.node e he).bound
    omega
  clear e' he' := by
    rw [ht] at he'
    obtain ⟨hne, hm⟩ := h.nodup.mem_erase_iff.1 he'
    have hap := h.apart hm he hne
    omega

/-- `vmap_insert` of a block, as a range that is handed out. -/
theorem handOut (rb : Rb) (h : VInv z) (hb : Block z a n) (hty : ty ≠ vfntFree) :
    ∃ db, vmapInsert rb z.db a n ty = .ok (⟨ty, a, n⟩, db) ∧ VInv { z with db := db } ∧
      db.tree = ⟨ty, a, n⟩ :: z.db.tree ∧
      covered { z with db := db } = covered z ∪ Set.Ico a (a + n) ∧
      db.size = w32 (z.db.size + n) := by
  have hins := vmapInsert_eq rb ty hb.addr_pos hb.size_pos fun e he ↦
    ⟨(h.node e he).pos, h.size_pos he, hb.clear e he⟩
  have hlt := hb.lt
  have hranges : ranges { z with db := ⟨⟨ty, a, n⟩ :: z.db.tree, w32 (z.db.size + n)⟩ } =
      insert (⟨ty, a, n⟩ : Vme).range (ranges z) := by
    have hnodes : nodes { z with db := ⟨⟨ty, a, n⟩ :: z.db.tree, w32 (z.db.size + n)⟩ } =
        insert ⟨ty, a, n⟩ (nodes z) := by
      ext e
      exact List.mem_cons
    rw [ranges, hnodes, Set.image_insert_eq]
    rfl
  refine ⟨_, hins, ⟨?_, ?_, ?_, ?_⟩, rfl, ?_, rfl⟩
  · have hfrees : frees { z with db := ⟨⟨ty, a, n⟩ :: z.db.tree, w32 (z.db.size + n)⟩ } =
        frees z := by
      ext e
      constructor
      · rintro ⟨hm, hf⟩
        rcases List.mem_cons.1 hm with rfl | hm
        · exact absurd hf hty
        · exact ⟨hm, hf⟩
      · rintro ⟨hm, hf⟩
        exact ⟨List.mem_cons_of_mem _ hm, hf⟩
    rw [hfrees]
    exact h.zinv.setDb _
  · refine List.nodup_cons.2 ⟨fun hm ↦ ?_, h.nodup⟩
    have hc := hb.clear _ hm
    have hn := hb.size_pos
    dsimp only at hc
    omega
  · rw [hranges]
    refine h.tidy.insert hlt (hb.joins h).clear_ranges ?_
    rintro _ ⟨e, he, rfl⟩ hz
    have hzone : (⟨ty, a, n⟩ : Vme).range.zone = some (a, ty) := if_neg hty
    rw [hzone] at hz
    have hf : e.type ≠ vfntFree := by
      intro hf
      rw [Vme.range_zone_eq_none.2 hf] at hz
      cases hz
    have hze : e.range.zone = some (e.addr, e.type) := if_neg hf
    rw [hze] at hz
    have haddr := (Prod.mk.inj (Option.some.inj hz)).1
    have hc := hb.clear e he
    have hs := h.size_pos he
    omega
  · rintro e (_ | ⟨_, he⟩)
    · exact ⟨hb.addr_pos, hb.bound⟩
    · exact h.node e he
  · rw [covered, hranges]
    ext x
    constructor
    · rintro ⟨r, rfl | hr, hx⟩
      · exact .inr hx
      · exact .inl ⟨r, hr, hx⟩
    · rintro (⟨r, hr, hx⟩ | hx)
      · exact ⟨r, .inr hr, hx⟩
      · exact ⟨_, .inl rfl, hx⟩

end VInv

end Mh.Mrg
