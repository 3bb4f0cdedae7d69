import Mh.Rb.Shape

/-!
# Searches of the tree in memory

The loops of `rb.c` that go down in a tree do what a search of the tree does.  None of them takes
more steps than the tree is deep.
-/

namespace Mh.Rb

open Lib.RedBlack

variable {ι κ : Type}

/-- The item at the root. -/
def rootItem : Shape ι → Option ι
  | .leaf => none
  | .node _ i _ _ => some i

/-- Where the place of a new leaf is, at the end of a search. -/
def placeOf (r : Way ι × Shape ι) : RbTree.Place ι :=
  match r.2 with
  | .leaf => .free (holeFather r.1) (holeSide r.1)
  | .node _ i _ _ => .found i

theorem placeOf_rootItem {r : Way ι × Shape ι} {i : ι} (h : rootItem r.2 = some i) :
    placeOf r = .found i := by
  obtain ⟨k, s⟩ := r
  cases s with
  | leaf => cases h
  | node c a x y => exact congrArg RbTree.Place.found (Option.some.inj h)

theorem placeOf_leaf {r : Way ι × Shape ι} (h : r.2 = .leaf) :
    placeOf r = .free (holeFather r.1) (holeSide r.1) := by
  rw [placeOf, h]

/-- The item that is equal, or else the closest one on a side. -/
def nearOf (d : Dir) (r : Way ι × Shape ι) : Option ι :=
  (rootItem r.2).or (d.other.first (beside d r.1))

namespace RbTree

variable {t : RbTree ι} {k : Way ι} {s : Shape ι} {fuel : Nat} {cmp : ι → Int} {d : Dir}
  {ops : RbTreeOps ι κ} {key : κ}

theorem search_hit {c : Bool} {i : ι} {x y : Shape ι} (h : cmp i = 0) :
    search cmp k (.join d c i x y) = (k, .join d c i x y) := by
  cases d <;> exact if_pos h

theorem search_join {c : Bool} {i : ι} {x y : Shape ι} (h : cmp i ≠ 0) :
    search cmp k (.join (side (cmp i)) c i x y) = search cmp (⟨side (cmp i), c, i, y⟩ :: k) x := by
  by_cases h1 : cmp i < 0
  · rw [side, if_pos h1]
    exact (if_neg h).trans (if_pos h1)
  · rw [side, if_neg h1]
    exact (if_neg h).trans (if_neg h1)

/-- A search in memory, step by step: it ends at a leaf or at an item that is equal, and else goes
down on a side. -/
theorem At.searchRec {P : Way ι → Shape ι → Nat → Prop} (cmp : ι → Int)
    (hleaf : ∀ k n, P k .leaf (n + 1))
    (hhit : ∀ k d c i x y n, cmp i = 0 → P k (.join d c i x y) (n + 1))
    (hdown : ∀ k c i x y n, cmp i ≠ 0 → t.At k (.join (side (cmp i)) c i x y) →
      P (⟨side (cmp i), c, i, y⟩ :: k) x n → P k (.join (side (cmp i)) c i x y) (n + 1))
    (h : t.At k s) (hf : s.depth < fuel) : P k s fuel := by
  induction fuel generalizing k s with
  | zero => cases hf
  | succ fuel ih =>
    by_cases hs : s = .leaf
    · rw [hs]
      exact hleaf k fuel
    · obtain ⟨c, i, x, y, hs⟩ := Shape.exists_join .left hs
      by_cases h0 : cmp i = 0
      · rw [hs]
        exact hhit k _ c i x y fuel h0
      · obtain ⟨x', y', hj⟩ := Shape.node_eq_join (side (cmp i)) c i x y
        obtain rfl : s = .join (side (cmp i)) c i x' y' := hs.trans hj
        rw [Shape.depth_join] at hf
        exact hdown k c i x' y' fuel h0 h (ih (at_cons.2 h) (by omega))

/-- The loop of `rb_tree_insert_node`. -/
theorem placeLoop_eq (h : t.At k s) (hf : s.depth < fuel) :
    t.placeLoop cmp fuel (rootPtr s) (holeFather k) (holeSide k) =
      some (placeOf (search cmp k s)) := by
  refine h.searchRec (P := fun k s n ↦
    t.placeLoop cmp n (rootPtr s) (holeFather k) (holeSide k) = some (placeOf (search cmp k s)))
    cmp ?_ ?_ ?_ hf
  · intro k n
    rfl
  · intro k d c i x y n h0
    rw [search_hit h0, rootPtr_join, placeLoop, if_pos h0, placeOf]
    cases d <;> rfl
  · intro k c i x y n h0 h ih
    rw [search_join h0, rootPtr_join, placeLoop, if_neg h0, h.child]
    exact ih

/-- The loop of `rb_tree_find_node`. -/
theorem findLoop_eq (h : t.At k s) (hf : s.depth < fuel) :
    t.findLoop cmp fuel (rootPtr s) = some (rootItem (search cmp k s).2) := by
  refine h.searchRec (P := fun k s n ↦
    t.findLoop cmp n (rootPtr s) = some (rootItem (search cmp k s).2)) cmp ?_ ?_ ?_ hf
  · intro k n
    rfl
  · intro k d c i x y n h0
    rw [search_hit h0, rootPtr_join, findLoop, if_pos h0]
    cases d <;> rfl
  · intro k c i x y n h0 h ih
    rw [search_join h0, rootPtr_join, findLoop, if_neg h0, h.child]
    exact ih

/-- The loop of `rb_tree_find_node_geq` and `rb_tree_find_node_leq`, where the items to be kept are
those from which it goes away from a side. -/
theorem nearLoop_eq (cmp : ι → Int) {keep : Int → Bool}
    (hkeep : ∀ v ≠ 0, keep v = true ↔ side v = d.other)
    (h : t.At k s) (hf : s.depth < fuel) :
    t.nearLoop cmp keep fuel (rootPtr s) (d.other.first (beside d k)) =
      some (nearOf d (search cmp k s)) := by
  refine h.searchRec (P := fun k s n ↦
    t.nearLoop cmp keep n (rootPtr s) (d.other.first (beside d k)) =
      some (nearOf d (search cmp k s))) cmp ?_ ?_ ?_ hf
  · intro k n
    rfl
  · intro k e c i x y n h0
    rw [search_hit h0, rootPtr_join, nearLoop, if_pos h0]
    cases e <;> rfl
  · intro k c i x y n h0 h ih
    have hlast : (if keep (cmp i) then some i else d.other.first (beside d k)) =
        d.other.first (beside d (⟨side (cmp i), c, i, y⟩ :: k)) := by
      split_ifs with hk
      · -- the item is between the key and what was the closest one
        have hd : d = (side (cmp i)).other := by rw [(hkeep _ h0).1 hk, Dir.other_other]
        rw [hd, beside_cons_other ⟨side (cmp i), c, i, y⟩, Frame.rest, Dir.other_other]
        simp
      · have hd := Dir.eq_other_of_ne fun hd ↦ hk ((hkeep _ h0).2 hd)
        rw [Dir.other_other] at hd
        rw [← hd, beside_cons_self ⟨side (cmp i), c, i, y⟩]
    rw [search_join h0, rootPtr_join, nearLoop, if_neg h0, h.child, ← ih, ← hlast]
    rfl

end RbTree

end Mh.Rb

/-!
## The next item

`rb_tree_iterate` goes down on a side, and then to the other side as far as it can, or where there
is nothing to go down to it goes up until it comes from the other side.  What it gets to is the next
item on the side.
-/

namespace Mh.Rb

open Lib.RedBlack

variable {ι : Type}

/-- A pointer to the node of an item, if there is one. -/
def optPtr : Option ι → Ptr ι
  | none => .null
  | some i => .node i

namespace RbTree

variable [DecidableEq ι] {t : RbTree ι} {d e : Dir} {c : Bool} {i j : ι} {s x y : Shape ι}
  {k kin : Way ι} {fuel : Nat}

/-- Up, until it comes from the other side. -/
theorem climbLoop_eq (h : t.At k (.join e c i x y)) (hf : k.length < fuel) :
    t.climbLoop d.other fuel (.node i) = some (optPtr (d.other.first (beside d k))) := by
  induction fuel generalizing k e c i x y with
  | zero => cases hf
  | succ fuel ih =>
    rw [climbLoop]
    simp only [h.root_eq_iff, h.father, h.position, Option.bind_eq_bind, Option.bind_some,
      Option.pure_def]
    cases k with
    | nil =>
      rw [if_pos rfl, beside, Dir.first_nil]
      rfl
    | cons f k =>
      rw [if_neg (List.cons_ne_nil f k), holeSide]
      split_ifs with hd
      · have hfirst := first_beside f k
        rw [← hd, Dir.other_other] at hfirst
        rw [hfirst]
        rfl
      · obtain rfl : f.dir = d := by
          have := Dir.eq_other_of_ne (Ne.symm hd)
          rwa [Dir.other_other] at this
        rw [beside_cons_self]
        refine ih (at_cons.1 h) ?_
        rw [List.length_cons] at hf
        omega

/-- Down on a side, as far as there are nodes. -/
theorem dropLoop_eq (h : t.At k (plug kin (.join e c i .leaf x))) (hkin : ∀ f ∈ kin, f.dir = e)
    (hf : kin.length < fuel) :
    t.dropLoop e fuel (rootPtr (plug kin (.join e c i .leaf x))) = some (.node i) := by
  induction fuel generalizing k kin with
  | zero => cases hf
  | succ fuel ih =>
    rcases List.eq_nil_or_concat' kin with rfl | ⟨kin, g, rfl⟩
    · have h' : t.At k (.join e c i .leaf x) := h
      rw [plug_nil, rootPtr_join, dropLoop, h'.child]
      rfl
    · obtain rfl := hkin g (List.mem_append_right _ (List.mem_singleton_self g))
      rw [plug_append] at h ⊢
      have hchild := At.child (h : t.At k (.join g.dir g.red g.val _ g.sib))
      have hne : rootPtr (plug kin (.join g.dir c i .leaf x)) ≠ .null := fun hn ↦
        plug_ne_leaf Shape.join_ne_leaf (rootPtr_eq_null.1 hn)
      rw [plug_cons, plug_nil, Frame.fill, rootPtr_join, dropLoop, hchild, Option.bind_eq_bind,
        Option.bind_some, if_neg hne]
      refine ih (at_cons.2 h) (fun f hf ↦ hkin f (List.mem_append_left _ hf)) ?_
      rw [List.length_append, List.length_singleton] at hf
      omega

/-- The next item on a side of a node. -/
theorem rbTreeIterate_node (h : t.At k (.join d c i x y))
    (hf : (plug k (.join d c i x y)).depth ≤ fuel) :
    t.rbTreeIterate fuel (.node i) d =
      some (optPtr ((d.other.first x.elems).or (d.other.first (beside d k)))) := by
  have hlen := length_add_depth_le k (.join d c i x y)
  rw [Shape.depth_join] at hlen
  rw [rbTreeIterate]
  simp only [h.child, Option.bind_eq_bind, Option.bind_some, reduceCtorEq, if_false]
  by_cases hx : x = .leaf
  · subst hx
    rw [rootPtr_leaf, if_pos rfl, climbLoop_eq h (by omega), Shape.elems, Dir.first_nil]
    rfl
  · rw [if_neg fun hn ↦ hx (rootPtr_eq_null.1 hn)]
    obtain ⟨kin, c', j, z, rfl, hkin⟩ := exists_end d.other hx
    have hkl := length_add_depth_le kin (.join d.other c' j .leaf z)
    rw [dropLoop_eq (at_cons (f := ⟨d, c, i, y⟩).2 h) hkin (by omega), elems_plug d.other,
      beside_eq_nil hkin, Dir.nil_cat, Dir.first_cat, Shape.elems_join, Dir.first_cat, Shape.elems,
      Dir.first_nil,
      Dir.first_cat, Dir.first_singleton]
    rfl

/-- The first item on a side. -/
theorem rbTreeIterate_null (h : t.At [] s)
    (hm : ∀ d a, d.first s.elems = some a → t.minmax d = .node a) :
    t.rbTreeIterate fuel .null d = some (optPtr (d.first s.elems)) := by
  rw [rbTreeIterate]
  simp only [h.root, plug_nil, rootPtr_eq_null, if_true, Option.pure_def]
  split_ifs with hs
  · rw [hs, Shape.elems, Dir.first_nil]
    rfl
  · cases hf : d.first s.elems with
    | none =>
      obtain ⟨c, i, l, r, rfl⟩ := Shape.exists_join .left hs
      rw [Dir.first_eq_none, Shape.elems_join, Dir.cat_eq_nil, Dir.cat_eq_nil] at hf
      cases hf.2.1
    | some a =>
      rw [hm d a hf]
      rfl

end RbTree

end Mh.Rb
