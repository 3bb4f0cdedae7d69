import Mathlib.Data.List.Pairwise
import Mathlib.Data.Set.Insert
import Mh.Rb.Model

/-!
# What a tree is for

A tree of `rb.c` is a set of items, no two of which compare as equal.  The functions add an item to
it, take one from it, and tell which item is equal or closest to a key and which one is next to
another.  What the comparisons have to be for that is `RbTreeOps.Lawful`: the order need not be a
total one, such as that of ranges of addresses.
-/

namespace Mh.Rb

open Lib.RedBlack (Dir Closest)

variable {ι κ : Type}

/-- What `rbtree.h` asks of the comparisons.  What is on a side of a key is there with all that is
beyond it. -/
structure RbTreeOps.Lawful (ops : RbTreeOps ι κ) : Prop where
  flip (a b : ι) : ops.compareNodes a b < 0 ↔ 0 < ops.compareNodes b a
  trans {a b c : ι} : ops.compareNodes a b < 0 → ops.compareNodes b c < 0 →
    ops.compareNodes a c < 0
  key_pos {a b : ι} {key : κ} : ops.compareNodes a b < 0 → 0 < ops.compareKey a key →
    0 < ops.compareKey b key
  key_neg {a b : ι} {key : κ} : ops.compareNodes a b < 0 → ops.compareKey b key < 0 →
    ops.compareKey a key < 0

/-- An item is less than another one. -/
def RbTreeOps.Lt (ops : RbTreeOps ι κ) (a b : ι) : Prop := ops.compareNodes a b < 0

/-- A call of a function of `rb.c`. -/
inductive Op (ι κ : Type)
  /-- `rb_tree_insert_node`. -/
  | insert (object : ι)
  /-- `rb_tree_remove_node`. -/
  | remove (object : ι)
  /-- `rb_tree_find_node`. -/
  | find (key : κ)
  /-- `rb_tree_find_node_geq`. -/
  | findGeq (key : κ)
  /-- `rb_tree_find_node_leq`. -/
  | findLeq (key : κ)
  /-- `rb_tree_iterate`. -/
  | iterate (object : Option ι) (direction : Dir)

namespace Op

variable (ops : RbTreeOps ι κ) (S : Set ι)

/-- A caller removes items of the tree only, and goes on from such items only. -/
def Legal : Op ι κ → Prop
  | remove x => x ∈ S
  | iterate (some x) _ => x ∈ S
  | _ => True

open Classical in
/-- The set after a call. -/
noncomputable def after : Op ι κ → Set ι
  | insert x => if ∃ y ∈ S, ops.compareNodes y x = 0 then S else Insert.insert x S
  | remove x => S \ {x}
  | _ => S

/-- What a call gives back: an item, or `NULL`. -/
def Answers : Op ι κ → Option ι → Prop
  | insert x, r =>
    ∃ y, r = some y ∧
      (y ∈ S ∧ ops.compareNodes y x = 0 ∨ y = x ∧ ∀ z ∈ S, ops.compareNodes z x ≠ 0)
  | remove _, r => r = none
  | find key, r =>
    (∃ y, r = some y ∧ y ∈ S ∧ ops.compareKey y key = 0) ∨
      r = none ∧ ∀ z ∈ S, ops.compareKey z key ≠ 0
  | findGeq key, r =>
    (∃ y, r = some y ∧ y ∈ S ∧ ops.compareKey y key = 0) ∨
      (∀ z ∈ S, ops.compareKey z key ≠ 0) ∧
        Closest (Dir.left.before ops.Lt) (fun z ↦ z ∈ S ∧ 0 < ops.compareKey z key) r
  | findLeq key, r =>
    (∃ y, r = some y ∧ y ∈ S ∧ ops.compareKey y key = 0) ∨
      (∀ z ∈ S, ops.compareKey z key ≠ 0) ∧
        Closest (Dir.right.before ops.Lt) (fun z ↦ z ∈ S ∧ ops.compareKey z key < 0) r
  | iterate none d, r => Closest (d.before ops.Lt) (· ∈ S) r
  | iterate (some x) d, r =>
    Closest (d.other.before ops.Lt) (fun z ↦ z ∈ S ∧ d.other.before ops.Lt x z) r

/-- Every call of a list of calls is legal where it is made. -/
def LegalRun : Set ι → List (Op ι κ) → Prop
  | _, [] => True
  | S, op :: as => op.Legal S ∧ LegalRun (op.after ops S) as

/-- The set after a list of calls. -/
noncomputable def afterRun : Set ι → List (Op ι κ) → Set ι
  | S, [] => S
  | S, op :: as => afterRun (op.after ops S) as

/-- What a list of calls gives back. -/
def AnswersRun : Set ι → List (Op ι κ) → List (Option ι) → Prop
  | _, [], [] => True
  | S, op :: as, r :: rs => op.Answers ops S r ∧ AnswersRun (op.after ops S) as rs
  | _, _, _ => False

end Op

/-! ## Sorted lists of items -/

namespace RbTreeOps.Lawful

variable {ops : RbTreeOps ι κ} {l : List ι} {a b : ι} {key : κ}

theorem compareNodes_self (h : ops.Lawful) (a : ι) : ops.compareNodes a a = 0 := by
  have := h.flip a a
  omega

theorem not_lt_self (h : ops.Lawful) (a : ι) : ¬ ops.Lt a a := by
  rw [Lt, h.compareNodes_self]
  exact lt_irrefl 0

theorem not_before_self (h : ops.Lawful) {d : Dir} : ¬ d.before ops.Lt a a := by
  cases d <;> exact h.not_lt_self a

theorem before_trans (h : ops.Lawful) {d : Dir} {c : ι} (hab : d.before ops.Lt a b)
    (hbc : d.before ops.Lt b c) : d.before ops.Lt a c := by
  cases d
  · exact h.trans hab hbc
  · exact h.trans hbc hab

/-- The comparison with an item, along a sorted list. -/
theorem graded_nodes (h : ops.Lawful) (hl : l.Pairwise ops.Lt) (x : ι) :
    Lib.RedBlack.Graded (ops.compareNodes · x) l := by
  refine hl.imp fun {a b} hab ↦ ⟨fun ha ↦ ?_, fun hb ↦ h.trans hab hb⟩
  exact (h.flip x b).1 (h.trans ((h.flip x a).2 ha) hab)

/-- The comparison with a key, along a sorted list. -/
theorem graded_key (h : ops.Lawful) (hl : l.Pairwise ops.Lt) (key : κ) :
    Lib.RedBlack.Graded (ops.compareKey · key) l :=
  hl.imp fun hab ↦ ⟨h.key_pos hab, h.key_neg hab⟩

theorem nodup (h : ops.Lawful) (hl : l.Pairwise ops.Lt) : l.Nodup := by
  refine hl.imp fun {a b} hab ↦ ?_
  rintro rfl
  exact h.not_lt_self a hab

end RbTreeOps.Lawful

/-! ## Items with keys -/

/-- The comparison of two items, and of an item with a key, by a key that the items have. -/
def RbTreeOps.byKey [LinearOrder κ] (key : ι → κ) : RbTreeOps ι κ where
  compareNodes n1 n2 := if key n1 < key n2 then -1 else if key n1 > key n2 then 1 else 0
  compareKey n k := if k < key n then 1 else if k > key n then -1 else 0

section byKey

variable [LinearOrder κ] {key : ι → κ} {a b : ι} {k : κ}

theorem RbTreeOps.byKey_lt : (RbTreeOps.byKey key).Lt a b ↔ key a < key b := by
  simp only [Lt, byKey]
  split_ifs with h <;> simp [h]

theorem RbTreeOps.byKey_nodes_pos : 0 < (RbTreeOps.byKey key).compareNodes a b ↔ key b < key a := by
  simp only [byKey]
  split_ifs with h h'
  · simp [h.le]
  · simp [h']
  · simp [not_lt.1 h']

theorem RbTreeOps.byKey_nodes_eq_zero :
    (RbTreeOps.byKey key).compareNodes a b = 0 ↔ key a = key b := by
  simp only [byKey]
  split_ifs with h h'
  · simp [h.ne]
  · simp [h'.ne']
  · simp [le_antisymm (not_lt.1 h') (not_lt.1 h)]

theorem RbTreeOps.byKey_key_pos : 0 < (RbTreeOps.byKey key).compareKey a k ↔ k < key a := by
  simp only [byKey]
  split_ifs with h <;> simp [h]

theorem RbTreeOps.byKey_key_neg : (RbTreeOps.byKey key).compareKey a k < 0 ↔ key a < k := by
  simp only [byKey]
  split_ifs with h h'
  · simp [h.le]
  · simp [h']
  · simp [not_lt.1 h']

theorem RbTreeOps.byKey_key_eq_zero : (RbTreeOps.byKey key).compareKey a k = 0 ↔ key a = k := by
  simp only [byKey]
  split_ifs with h h'
  · simp [h.ne']
  · simp [h'.ne]
  · simp [le_antisymm (not_lt.1 h) (not_lt.1 h')]

theorem RbTreeOps.byKey_lawful (key : ι → κ) : (RbTreeOps.byKey key).Lawful where
  flip _ _ := byKey_lt.trans byKey_nodes_pos.symm
  trans h h' := byKey_lt.2 ((byKey_lt.1 h).trans (byKey_lt.1 h'))
  key_pos h h' := byKey_key_pos.2 ((byKey_key_pos.1 h').trans (byKey_lt.1 h))
  key_neg h h' := byKey_key_neg.2 ((byKey_lt.1 h).trans (byKey_key_neg.1 h'))

end byKey

end Mh.Rb
