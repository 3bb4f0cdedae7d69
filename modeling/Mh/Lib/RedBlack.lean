import Mathlib.Data.List.Nodup
import Mathlib.Algebra.GroupWithZero.Nat
import Mathlib.Data.Nat.Log

/-!
# Red-black trees and the paths into them

A tree is taken apart into a path from its root down to a hole and the subtree that is in the hole.
Both sides of a node are treated alike: `Shape.join` builds a node from the side on which its first
subtree is, and `Dir.cat` appends the values of the two in the order of the sides.

`Balanced n t` says that a subtree is a red-black tree of black height `n`, and `Holed n k` that a
path becomes one when a tree of black height `n` is put into its hole (`isRedBlack_plug`).
-/

universe u

namespace Mh.Lib.RedBlack

variable {α : Type u}

/-- A side of a node. -/
inductive Dir
  | left | right
deriving DecidableEq, Repr

namespace Dir

/-- The other side. -/
def other : Dir → Dir
  | left => right
  | right => left

@[simp] theorem other_other (d : Dir) : d.other.other = d := by
  cases d <;> rfl

@[simp] theorem other_ne (d : Dir) : d.other ≠ d := by
  cases d <;> decide

@[simp] theorem ne_other (d : Dir) : d ≠ d.other :=
  d.other_ne.symm

theorem eq_or_eq_other (d e : Dir) : e = d ∨ e = d.other := by
  cases d <;> cases e <;> decide

theorem eq_other_of_ne {d e : Dir} (h : e ≠ d) : e = d.other :=
  (eq_or_eq_other d e).resolve_left h

/-- Append, with the first of two lists on a side. -/
def cat (d : Dir) (xs ys : List α) : List α :=
  match d with
  | left => xs ++ ys
  | right => ys ++ xs

@[simp] theorem cat_assoc (d : Dir) (xs ys zs : List α) :
    d.cat (d.cat xs ys) zs = d.cat xs (d.cat ys zs) := by
  cases d
  · exact List.append_assoc _ _ _
  · exact (List.append_assoc _ _ _).symm

@[simp] theorem cat_nil (d : Dir) (xs : List α) : d.cat xs [] = xs := by
  cases d
  · exact List.append_nil _
  · rfl

@[simp] theorem nil_cat (d : Dir) (xs : List α) : d.cat [] xs = xs := by
  cases d
  · rfl
  · exact List.append_nil _

theorem cat_other (d : Dir) (xs ys : List α) : d.other.cat xs ys = d.cat ys xs := by
  cases d <;> rfl

theorem perm_cat (d : Dir) (xs ys : List α) : (d.cat xs ys).Perm (xs ++ ys) := by
  cases d
  · exact .refl _
  · exact List.perm_append_comm

@[simp] theorem mem_cat {d : Dir} {a : α} {xs ys : List α} : a ∈ d.cat xs ys ↔ a ∈ xs ∨ a ∈ ys := by
  rw [(d.perm_cat xs ys).mem_iff, List.mem_append]

theorem cat_eq_nil {d : Dir} {xs ys : List α} : d.cat xs ys = [] ↔ xs = [] ∧ ys = [] := by
  cases d
  · exact List.append_eq_nil_iff
  · exact List.append_eq_nil_iff.trans and_comm

/-- The value at the end of a list on a side. -/
def first (d : Dir) (xs : List α) : Option α :=
  match d with
  | left => xs.head?
  | right => xs.getLast?

@[simp] theorem first_nil (d : Dir) : d.first ([] : List α) = none := by
  cases d <;> rfl

@[simp] theorem first_singleton (d : Dir) (a : α) : d.first [a] = some a := by
  cases d <;> rfl

@[simp] theorem first_cat (d : Dir) (xs ys : List α) :
    d.first (d.cat xs ys) = (d.first xs).or (d.first ys) := by
  cases d
  · exact List.head?_append
  · exact List.getLast?_append

@[simp] theorem first_other_cat (d : Dir) (xs ys : List α) :
    d.other.first (d.cat xs ys) = (d.other.first ys).or (d.other.first xs) := by
  rw [← cat_other, first_cat]

theorem first_eq_none {d : Dir} {xs : List α} : d.first xs = none ↔ xs = [] := by
  cases d
  · exact List.head?_eq_none_iff
  · exact List.getLast?_eq_none_iff

theorem mem_of_first {d : Dir} {xs : List α} {a : α} (h : d.first xs = some a) : a ∈ xs := by
  cases d
  · exact List.mem_of_head? h
  · exact List.mem_of_getLast? h

/-- A list as it is seen from a side. -/
def seen (d : Dir) (xs : List α) : List α :=
  match d with
  | left => xs
  | right => xs.reverse

@[simp] theorem seen_seen (d : Dir) (xs : List α) : d.seen (d.seen xs) = xs := by
  cases d
  · rfl
  · exact List.reverse_reverse xs

theorem seen_cons (d : Dir) (a : α) (xs : List α) : d.seen (a :: xs) = d.cat [a] (d.seen xs) := by
  cases d
  · rfl
  · exact List.reverse_cons

@[simp] theorem first_seen (d : Dir) (xs : List α) : d.first (d.seen xs) = xs.head? := by
  cases d
  · rfl
  · exact List.getLast?_reverse

@[simp] theorem mem_seen {d : Dir} {a : α} {xs : List α} : a ∈ d.seen xs ↔ a ∈ xs := by
  cases d
  · exact Iff.rfl
  · exact List.mem_reverse

@[simp] theorem length_seen (d : Dir) (xs : List α) : (d.seen xs).length = xs.length := by
  cases d
  · rfl
  · exact List.length_reverse

theorem nodup_cat {d : Dir} {xs ys : List α} :
    (d.cat xs ys).Nodup ↔ xs.Nodup ∧ ys.Nodup ∧ ∀ a ∈ xs, a ∉ ys := by
  rw [(d.perm_cat xs ys).nodup_iff, List.nodup_append']
  exact Iff.rfl

/-- A value is in one place only. -/
theorem eq_of_cat_eq {d : Dir} {l xs ys xs' ys' : List α} {a : α} (hn : l.Nodup)
    (h : l = d.cat xs (d.cat [a] ys)) (h' : l = d.cat xs' (d.cat [a] ys')) : xs' = xs := by
  have key {l xs ys xs' ys' : List α} (hn : l.Nodup) (h : l = xs ++ a :: ys)
      (h' : l = xs' ++ a :: ys') : xs' = xs ∧ ys' = ys := by
    rw [h, List.nodup_append', List.nodup_cons] at hn
    rw [h] at h'
    have ha : a ∉ xs := fun ha ↦ hn.2.2 ha List.mem_cons_self
    obtain ⟨hx, -, hy⟩ := (List.append_cons_inj_of_notMem ha hn.2.1.1).1 h'
    exact ⟨hx.symm, hy.symm⟩
  cases d with
  | left => exact (key hn h h').1
  | right =>
    simp only [cat, List.append_assoc, List.singleton_append] at h h'
    exact (key hn h h').2

end Dir

/-- A binary tree whose nodes are red or black. -/
inductive Shape (α : Type u)
  | leaf
  | node (red : Bool) (a : α) (l r : Shape α)
deriving DecidableEq, Repr

namespace Shape

/-- The node with `x` on side `d` and `y` on the other. -/
def join (d : Dir) (red : Bool) (a : α) (x y : Shape α) : Shape α :=
  match d with
  | .left => node red a x y
  | .right => node red a y x

/-- The values from left to right. -/
def elems : Shape α → List α
  | leaf => []
  | node _ a l r => l.elems ++ a :: r.elems

/-- The colour of the root.  A leaf is black. -/
def red : Shape α → Bool
  | leaf => false
  | node c _ _ _ => c

/-- The same tree with another colour at its root. -/
def paint (c : Bool) : Shape α → Shape α
  | leaf => leaf
  | node _ a l r => node c a l r

/-- The number of nodes on the longest way down. -/
def depth : Shape α → Nat
  | leaf => 0
  | node _ _ l r => max l.depth r.depth + 1

theorem join_other (d : Dir) (c : Bool) (a : α) (x y : Shape α) :
    join d.other c a x y = join d c a y x := by
  cases d <;> rfl

theorem node_eq_join (d : Dir) (c : Bool) (a : α) (l r : Shape α) :
    ∃ x y, node c a l r = join d c a x y := by
  cases d
  · exact ⟨l, r, rfl⟩
  · exact ⟨r, l, rfl⟩

@[simp] theorem red_join (d : Dir) (c : Bool) (a : α) (x y : Shape α) :
    (join d c a x y).red = c := by
  cases d <;> rfl

@[simp] theorem paint_join (d : Dir) (c c' : Bool) (a : α) (x y : Shape α) :
    (join d c a x y).paint c' = join d c' a x y := by
  cases d <;> rfl

@[simp] theorem elems_join (d : Dir) (c : Bool) (a : α) (x y : Shape α) :
    (join d c a x y).elems = d.cat x.elems (d.cat [a] y.elems) := by
  cases d
  · rfl
  · simp [join, elems, Dir.cat]

theorem elems_eq_nil {t : Shape α} : t.elems = [] ↔ t = leaf := by
  constructor
  · intro h
    cases t with
    | leaf => rfl
    | node c a l r => cases (List.append_eq_nil_iff.1 h).2
  · rintro rfl
    rfl

@[simp] theorem elems_paint (c : Bool) (t : Shape α) : (t.paint c).elems = t.elems := by
  cases t <;> rfl

theorem red_paint {t : Shape α} : (t.paint false).red = false := by
  cases t <;> rfl

@[simp] theorem depth_join (d : Dir) (c : Bool) (a : α) (x y : Shape α) :
    (join d c a x y).depth = max x.depth y.depth + 1 := by
  cases d
  · rfl
  · exact congrArg (· + 1) (Nat.max_comm _ _)

theorem join_ne_leaf {d : Dir} {c : Bool} {a : α} {x y : Shape α} : join d c a x y ≠ leaf := by
  intro h
  cases d <;> cases h

/-- A node, seen from a side. -/
theorem exists_join (d : Dir) {t : Shape α} (h : t ≠ leaf) : ∃ c a x y, t = join d c a x y := by
  cases t with
  | leaf => exact absurd rfl h
  | node c a l r =>
    obtain ⟨x, y, h⟩ := node_eq_join d c a l r
    exact ⟨c, a, x, y, h⟩

/-- A red tree is a node. -/
theorem exists_of_red (d : Dir) {t : Shape α} (h : t.red = true) :
    ∃ a x y, t = join d true a x y := by
  cases t with
  | leaf => cases h
  | node c a l r =>
    obtain rfl : c = true := h
    obtain ⟨x, y, h⟩ := node_eq_join d true a l r
    exact ⟨a, x, y, h⟩

/-! ## Balance -/

/-- A red-black tree of black height `n`, whose root may be red. -/
def Balanced : Nat → Shape α → Prop
  | n, leaf => n = 0
  | n, node true _ l r => Balanced n l ∧ Balanced n r ∧ l.red = false ∧ r.red = false
  | n, node false _ l r => ∃ m, n = m + 1 ∧ Balanced m l ∧ Balanced m r

theorem balanced_red {n : Nat} {d : Dir} {a : α} {x y : Shape α} :
    Balanced n (join d true a x y) ↔
      Balanced n x ∧ Balanced n y ∧ x.red = false ∧ y.red = false := by
  cases d
  · exact Iff.rfl
  · constructor
    · rintro ⟨hy, hx, hry, hrx⟩
      exact ⟨hx, hy, hrx, hry⟩
    · rintro ⟨hx, hy, hrx, hry⟩
      exact ⟨hy, hx, hry, hrx⟩

theorem balanced_black {n : Nat} {d : Dir} {a : α} {x y : Shape α} :
    Balanced n (join d false a x y) ↔ ∃ m, n = m + 1 ∧ Balanced m x ∧ Balanced m y := by
  cases d
  · exact Iff.rfl
  · constructor
    · rintro ⟨m, rfl, hy, hx⟩
      exact ⟨m, rfl, hx, hy⟩
    · rintro ⟨m, rfl, hx, hy⟩
      exact ⟨m, rfl, hy, hx⟩

theorem balanced_black_succ {n : Nat} {d : Dir} {a : α} {x y : Shape α} :
    Balanced (n + 1) (join d false a x y) ↔ Balanced n x ∧ Balanced n y := by
  rw [balanced_black]
  constructor
  · rintro ⟨m, hm, h⟩
    rwa [Nat.succ.inj hm]
  · intro h
    exact ⟨n, rfl, h⟩

theorem Balanced.ne_leaf {n : Nat} {t : Shape α} (h : t.Balanced (n + 1)) : t ≠ leaf := by
  rintro rfl
  cases h

/-- A black tree of a height is a node over trees of the height below. -/
theorem Balanced.exists_black (d : Dir) {n : Nat} {t : Shape α} (h : t.Balanced (n + 1))
    (hb : t.red = false) :
    ∃ a x y, t = join d false a x y ∧ x.Balanced n ∧ y.Balanced n := by
  obtain ⟨c, a, x, y, rfl⟩ := exists_join d h.ne_leaf
  rw [red_join] at hb
  subst hb
  exact ⟨a, x, y, rfl, balanced_black_succ.1 h⟩

/-- A black tree of height zero has no node. -/
theorem Balanced.eq_leaf {t : Shape α} (h : t.Balanced 0) (hb : t.red = false) : t = leaf := by
  cases t with
  | leaf => rfl
  | node c a l r =>
    obtain rfl : c = false := hb
    obtain ⟨m, hm, -⟩ := h
    cases hm

/-- A red tree of height zero is one node. -/
theorem Balanced.eq_single {t : Shape α} (h : t.Balanced 0) (hr : t.red = true) :
    ∃ a, t = node true a leaf leaf := by
  obtain ⟨a, x, y, rfl⟩ := exists_of_red .left hr
  obtain ⟨hx, hy, hrx, hry⟩ := balanced_red.1 h
  rw [hx.eq_leaf hrx, hy.eq_leaf hry]
  exact ⟨a, rfl⟩

/-- Painting a red tree black makes it higher by one. -/
theorem Balanced.paint_black {n : Nat} {t : Shape α} (h : t.Balanced n) (hr : t.red = true) :
    (t.paint false).Balanced (n + 1) := by
  obtain ⟨a, x, y, rfl⟩ := exists_of_red .left hr
  obtain ⟨hx, hy, -⟩ := balanced_red.1 h
  rw [paint_join]
  exact balanced_black_succ.2 ⟨hx, hy⟩

/-- There is no node. -/
def isLeaf : Shape α → Bool
  | leaf => true
  | node .. => false

/-- There is no node below the root. -/
def childless : Shape α → Bool
  | leaf => true
  | node _ _ l r => l.isLeaf && r.isLeaf

/-- There are nodes on both sides of the root. -/
def twochildren : Shape α → Bool
  | leaf => false
  | node _ _ l r => !l.isLeaf && !r.isLeaf

@[simp] theorem childless_join (d : Dir) (c : Bool) (a : α) (x y : Shape α) :
    (join d c a x y).childless = (x.isLeaf && y.isLeaf) := by
  cases d
  · rfl
  · exact Bool.and_comm _ _

@[simp] theorem twochildren_join (d : Dir) (c : Bool) (a : α) (x y : Shape α) :
    (join d c a x y).twochildren = (!x.isLeaf && !y.isLeaf) := by
  cases d
  · rfl
  · exact Bool.and_comm _ _

theorem isLeaf_eq_true {t : Shape α} : t.isLeaf = true ↔ t = leaf := by
  cases t
  · exact iff_of_true rfl rfl
  · exact iff_of_false Bool.false_ne_true fun h ↦ by cases h

theorem isLeaf_eq_false {t : Shape α} : t.isLeaf = false ↔ t ≠ leaf := by
  rw [← Bool.not_eq_true, isLeaf_eq_true]

theorem Balanced.isLeaf {n : Nat} {t : Shape α} (h : t.Balanced (n + 1)) : t.isLeaf = false :=
  isLeaf_eq_false.2 h.ne_leaf

/-- A tree of height zero has one node at most. -/
theorem Balanced.childless {t : Shape α} (h : t.Balanced 0) : t.childless = true := by
  cases hr : t.red with
  | false => rw [h.eq_leaf hr]; rfl
  | true =>
    obtain ⟨a, rfl⟩ := h.eq_single hr
    rfl

/-- A red tree that is higher has two children. -/
theorem Balanced.twochildren_red {n : Nat} {t : Shape α} (h : t.Balanced (n + 1))
    (hr : t.red = true) : t.twochildren = true := by
  obtain ⟨a, x, y, rfl⟩ := exists_of_red .left hr
  obtain ⟨hx, hy, -⟩ := balanced_red.1 h
  rw [twochildren_join, hx.isLeaf, hy.isLeaf]
  rfl

/-- So has any tree of height two. -/
theorem Balanced.twochildren {n : Nat} {t : Shape α} (h : t.Balanced (n + 2)) :
    t.twochildren = true := by
  cases hr : t.red with
  | true => exact h.twochildren_red hr
  | false =>
    obtain ⟨a, x, y, rfl, hx, hy⟩ := h.exists_black .left hr
    rw [twochildren_join, hx.isLeaf, hy.isLeaf]
    rfl

/-- A tree of a black height has at least this many nodes. -/
theorem Balanced.two_pow_le {n : Nat} {t : Shape α} (h : t.Balanced n) :
    2 ^ n ≤ t.elems.length + 1 := by
  induction t generalizing n with
  | leaf => rw [show n = 0 from h]; rfl
  | node c a l r ihl ihr =>
    rw [elems, List.length_append, List.length_cons]
    cases c with
    | true =>
      have := ihl h.1
      omega
    | false =>
      obtain ⟨m, rfl, hl, hr⟩ := h
      have hl' := ihl hl
      have hr' := ihr hr
      rw [Nat.pow_succ]
      omega

/-- No way down is longer than twice the black height, and one more below a red root. -/
theorem Balanced.depth_le {n : Nat} {t : Shape α} (h : t.Balanced n) :
    t.depth ≤ 2 * n + t.red.toNat := by
  induction t generalizing n with
  | leaf => exact Nat.zero_le _
  | node c a l r ihl ihr =>
    rw [depth]
    cases c with
    | true =>
      obtain ⟨hl, hr, hrl, hrr⟩ := h
      have hl' := ihl hl
      have hr' := ihr hr
      rw [hrl] at hl'
      rw [hrr] at hr'
      simp only [red, Bool.toNat_true, Bool.toNat_false] at hl' hr' ⊢
      omega
    | false =>
      obtain ⟨m, rfl, hl, hr⟩ := h
      have hl' := ihl hl
      have hr' := ihr hr
      have hcl := Bool.toNat_le l.red
      have hcr := Bool.toNat_le r.red
      simp only [red, Bool.toNat_false]
      omega

end Shape

open Shape

/-- A red-black tree: its root is black, too. -/
def IsRedBlack (t : Shape α) : Prop := t.red = false ∧ ∃ n, t.Balanced n

theorem IsRedBlack.leaf : IsRedBlack (Shape.leaf : Shape α) :=
  ⟨rfl, 0, rfl⟩

/-- The longest way down is logarithmic. -/
theorem IsRedBlack.depth_le_log {t : Shape α} (h : IsRedBlack t) :
    t.depth ≤ 2 * Nat.log 2 (t.elems.length + 1) := by
  obtain ⟨hb, n, hn⟩ := h
  have hd := hn.depth_le
  rw [hb, Bool.toNat_false, Nat.add_zero] at hd
  have hp : n ≤ Nat.log 2 (t.elems.length + 1) :=
    Nat.le_log_of_pow_le (by decide) hn.two_pow_le
  exact hd.trans (Nat.mul_le_mul_left 2 hp)

/-! ## Paths -/

/-- A node on the way down: the side to which the way goes, and what is on the other. -/
structure Frame (α : Type u) where
  dir : Dir
  red : Bool
  val : α
  sib : Shape α
deriving DecidableEq, Repr

/-- The node, with a subtree where the way goes. -/
def Frame.fill (f : Frame α) (t : Shape α) : Shape α := join f.dir f.red f.val t f.sib

/-- The way to the other side, past a subtree. -/
def Frame.turn (f : Frame α) (t : Shape α) : Frame α := ⟨f.dir.other, f.red, f.val, t⟩

@[simp] theorem Frame.fill_turn (f : Frame α) (t : Shape α) : (f.turn t).fill f.sib = f.fill t :=
  join_other _ _ _ _ _

/-- The values of a node and what is on its other side, the node at the given side. -/
def Frame.rest (f : Frame α) : List α := f.dir.cat [f.val] f.sib.elems

theorem Frame.elems_fill (f : Frame α) (t : Shape α) :
    (f.fill t).elems = f.dir.cat t.elems f.rest := by
  rw [Frame.fill, elems_join, Frame.rest]

/-- A way down from the root, the last node first. -/
abbrev Way (α : Type u) := List (Frame α)

/-- The tree, with a subtree in the hole at the end of the path. -/
def plug : Way α → Shape α → Shape α
  | [], t => t
  | f :: k, t => plug k (f.fill t)

@[simp] theorem plug_nil (t : Shape α) : plug [] t = t := rfl

@[simp] theorem plug_cons (f : Frame α) (k : Way α) (t : Shape α) :
    plug (f :: k) t = plug k (f.fill t) := rfl

theorem plug_ne_leaf {k : Way α} {t : Shape α} (h : t ≠ leaf) : plug k t ≠ leaf := by
  induction k generalizing t with
  | nil => exact h
  | cons f k ih => exact ih join_ne_leaf

theorem plug_append (k k' : Way α) (t : Shape α) : plug (k ++ k') t = plug k' (plug k t) := by
  induction k generalizing t with
  | nil => rfl
  | cons f k ih => exact ih _

/-- The way down to a value. -/
theorem exists_plug_of_mem {a : α} {t : Shape α} (h : a ∈ t.elems) :
    ∃ k c l r, t = plug k (node c a l r) := by
  induction t with
  | leaf => cases h
  | node c b l r ihl ihr =>
    rw [elems, List.mem_append, List.mem_cons] at h
    rcases h with h | rfl | h
    · obtain ⟨k, c', l', r', rfl⟩ := ihl h
      refine ⟨k ++ [⟨.left, c, b, r⟩], c', l', r', ?_⟩
      rw [plug_append]
      rfl
    · exact ⟨[], c, l, r, rfl⟩
    · obtain ⟨k, c', l', r', rfl⟩ := ihr h
      refine ⟨k ++ [⟨.right, c, b, l⟩], c', l', r', ?_⟩
      rw [plug_append]
      rfl

/-- What is on a side of the hole. -/
def beside (d : Dir) : Way α → List α
  | [] => []
  | f :: k =>
    if f.dir = d then beside d k else d.cat (beside d k) (d.cat f.sib.elems [f.val])

theorem beside_cons_self (f : Frame α) (k : Way α) : beside f.dir (f :: k) = beside f.dir k :=
  if_pos rfl

theorem beside_cons_other (f : Frame α) (k : Way α) :
    beside f.dir.other (f :: k) = f.dir.cat f.rest (beside f.dir.other k) := by
  rw [beside, if_neg f.dir.ne_other, Dir.cat_other, Dir.cat_other, Frame.rest]

/-- Next to the hole, on its other side, is the last node of the path. -/
theorem first_beside (f : Frame α) (k : Way α) :
    f.dir.first (beside f.dir.other (f :: k)) = some f.val := by
  rw [beside_cons_other, Frame.rest, Dir.cat_assoc, Dir.first_cat, Dir.first_singleton]
  rfl

theorem dir_eq_of_beside_eq_nil {d : Dir} {f : Frame α} {k : Way α}
    (h : beside d (f :: k) = []) : d = f.dir := by
  by_contra hd
  rw [Dir.eq_other_of_ne hd] at h
  have hf := first_beside f k
  rw [h, Dir.first_nil] at hf
  cases hf

theorem elems_plug (d : Dir) (k : Way α) (t : Shape α) :
    (plug k t).elems = d.cat (beside d k) (d.cat t.elems (beside d.other k)) := by
  induction k generalizing t with
  | nil => rw [beside, beside, Dir.nil_cat, Dir.cat_nil, plug_nil]
  | cons f k ih =>
    rw [plug_cons, ih, Frame.elems_fill]
    rcases Dir.eq_or_eq_other f.dir d with rfl | rfl
    · rw [beside_cons_self, beside_cons_other, Dir.cat_assoc]
    · rw [Dir.other_other, beside_cons_self, beside_cons_other]
      simp only [Dir.cat_other, Dir.cat_assoc]

theorem beside_eq_nil {d : Dir} {k : Way α} (h : ∀ f ∈ k, f.dir = d) : beside d k = [] := by
  induction k with
  | nil => rfl
  | cons f k ih =>
    rw [beside, if_pos (h f List.mem_cons_self)]
    exact ih fun g hg ↦ h g (List.mem_cons_of_mem f hg)

/-- The way down to the last node on a side. -/
theorem exists_end (d : Dir) {t : Shape α} (h : t ≠ leaf) :
    ∃ k c a x, t = plug k (join d c a leaf x) ∧ ∀ f ∈ k, f.dir = d := by
  induction t with
  | leaf => exact absurd rfl h
  | node c a l r ihl ihr =>
    have hstep (x y : Shape α) (ht : node c a l r = join d c a x y)
        (ih : x ≠ leaf → ∃ k c a z, x = plug k (join d c a leaf z) ∧ ∀ f ∈ k, f.dir = d) :
        ∃ k c' a' z, node c a l r = plug k (join d c' a' leaf z) ∧ ∀ f ∈ k, f.dir = d := by
      by_cases hx : x = leaf
      · subst hx
        exact ⟨[], c, a, y, ht, fun f hf ↦ (List.not_mem_nil hf).elim⟩
      · obtain ⟨k, c', a', z, rfl, hk⟩ := ih hx
        refine ⟨k ++ [⟨d, c, a, y⟩], c', a', z, ?_, fun f hf ↦ ?_⟩
        · rw [plug_append]
          exact ht
        · rcases List.mem_append.1 hf with hf | hf
          · exact hk f hf
          · rw [List.mem_singleton.1 hf]
    cases d with
    | left => exact hstep l r rfl ihl
    | right => exact hstep r l rfl ihr

/-- The values depend on those in the hole only. -/
theorem elems_plug_congr {k : Way α} {t t' : Shape α} (h : t'.elems = t.elems) :
    (plug k t').elems = (plug k t).elems := by
  rw [elems_plug .left, elems_plug .left, h]

theorem length_add_depth_le (k : Way α) (t : Shape α) :
    k.length + t.depth ≤ (plug k t).depth := by
  induction k generalizing t with
  | nil => exact (Nat.zero_add _).le
  | cons f k ih =>
    have h := ih (f.fill t)
    rw [Frame.fill, depth_join] at h
    rw [plug_cons, List.length_cons]
    exact le_trans (by omega) h

/-- The values along a path, with those of the subtrees beside it. -/
def Way.elems : Way α → List α
  | [] => []
  | f :: k => f.val :: (f.sib.elems ++ Way.elems k)

theorem Way.elems_append (k k' : Way α) :
    Way.elems (k ++ k') = Way.elems k ++ Way.elems k' := by
  induction k with
  | nil => rfl
  | cons f k ih =>
    rw [List.cons_append, Way.elems, Way.elems, ih, List.cons_append, List.append_assoc]

theorem perm_elems_plug (k : Way α) (t : Shape α) :
    (plug k t).elems.Perm (t.elems ++ Way.elems k) := by
  induction k generalizing t with
  | nil => rw [plug_nil, Way.elems, List.append_nil]
  | cons f k ih =>
    refine (ih _).trans ?_
    rw [Frame.elems_fill, Way.elems, ← List.cons_append, ← List.append_assoc]
    refine .append_right _ ((f.dir.perm_cat _ _).trans (.append_left _ ?_))
    exact f.dir.perm_cat _ _

/-! ## Order -/

/-- The order of two values, seen from a side. -/
def Dir.before (d : Dir) (lt : α → α → Prop) (a b : α) : Prop :=
  match d with
  | .left => lt a b
  | .right => lt b a

theorem Dir.before_other {d : Dir} {lt : α → α → Prop} {a b : α} :
    d.other.before lt a b ↔ d.before lt b a := by
  cases d <;> exact Iff.rfl

theorem Dir.pairwise_cat {d : Dir} {lt : α → α → Prop} {xs ys : List α} :
    (d.cat xs ys).Pairwise lt ↔
      xs.Pairwise lt ∧ ys.Pairwise lt ∧ ∀ a ∈ xs, ∀ b ∈ ys, d.before lt a b := by
  cases d with
  | left => exact List.pairwise_append
  | right =>
    rw [cat, List.pairwise_append]
    constructor
    · rintro ⟨hy, hx, h⟩
      exact ⟨hx, hy, fun a ha b hb ↦ h b hb a ha⟩
    · rintro ⟨hx, hy, h⟩
      exact ⟨hy, hx, fun b hb a ha ↦ h a ha b hb⟩

theorem Dir.pairwise_seen {d : Dir} {lt : α → α → Prop} {xs : List α} (h : xs.Pairwise lt) :
    (d.seen xs).Pairwise (d.before lt) := by
  cases d
  · exact h
  · exact List.pairwise_reverse.2 h

/-- The value that comes before all others that have a property, if there is one at all. -/
def Closest (lt : α → α → Prop) (P : α → Prop) : Option α → Prop
  | none => ∀ a, ¬ P a
  | some a => P a ∧ ∀ b, P b → b ≠ a → lt a b

theorem Closest.congr {lt : α → α → Prop} {P Q : α → Prop} {o : Option α} (h : Closest lt P o)
    (hpq : ∀ a, P a ↔ Q a) : Closest lt Q o := by
  rwa [← funext fun a ↦ propext (hpq a)]

/-- In a sorted list, that is the value at the end. -/
theorem Dir.closest_first {d : Dir} {lt : α → α → Prop} {l : List α} (h : l.Pairwise lt) :
    Closest (d.before lt) (· ∈ l) (d.first l) := by
  cases hf : d.first l with
  | none =>
    rw [Dir.first_eq_none.1 hf]
    exact fun a ↦ List.not_mem_nil
  | some a =>
    refine ⟨mem_of_first hf, fun b hb hne ↦ ?_⟩
    cases d with
    | left =>
      obtain ⟨l, rfl⟩ := List.head?_eq_some_iff.1 hf
      exact (List.pairwise_cons.1 h).1 b ((List.mem_cons.1 hb).resolve_left hne)
    | right =>
      obtain ⟨l, rfl⟩ := List.getLast?_eq_some_iff.1 hf
      refine (List.pairwise_append.1 h).2.2 b ?_ a (List.mem_singleton_self a)
      exact (List.mem_append.1 hb).resolve_right fun h ↦ hne (List.mem_singleton.1 h)

/-! ## Searches -/

/-- The place of a key in a tree, by comparison of the values with it: a node whose value is equal,
or the hole of a leaf. -/
def search (cmp : α → Int) : Way α → Shape α → Way α × Shape α
  | k, leaf => (k, leaf)
  | k, node c a l r =>
    if cmp a = 0 then (k, node c a l r)
    else if cmp a < 0 then search cmp (⟨.right, c, a, l⟩ :: k) r
    else search cmp (⟨.left, c, a, r⟩ :: k) l

/-- What is less than the key comes before what is not, and what is greater after it. -/
def Graded (cmp : α → Int) (l : List α) : Prop :=
  l.Pairwise fun a b ↦ (0 < cmp a → 0 < cmp b) ∧ (cmp b < 0 → cmp a < 0)

/-- All that is beside a path has been found less or greater. -/
def Beyond (cmp : α → Int) (k : Way α) : Prop :=
  (∀ a ∈ beside .left k, cmp a < 0) ∧ ∀ a ∈ beside .right k, 0 < cmp a

theorem plug_search (cmp : α → Int) (k : Way α) (t : Shape α) :
    plug (search cmp k t).1 (search cmp k t).2 = plug k t := by
  induction t generalizing k with
  | leaf => rfl
  | node c a l r ihl ihr =>
    rw [search]
    split_ifs
    · rfl
    · rw [ihr]
      rfl
    · rw [ihl]
      rfl

/-- A search ends at a leaf, or at a value that is equal. -/
theorem search_snd (cmp : α → Int) (k : Way α) (t : Shape α) :
    (search cmp k t).2 = leaf ∨
      ∃ c a l r, (search cmp k t).2 = node c a l r ∧ cmp a = 0 := by
  induction t generalizing k with
  | leaf => exact .inl rfl
  | node c a l r ihl ihr =>
    rw [search]
    split_ifs with h
    · exact .inr ⟨c, a, l, r, rfl, h⟩
    · exact ihr _
    · exact ihl _

/-- What a search has passed is less or greater. -/
theorem Beyond.search {cmp : α → Int} {k : Way α} {t : Shape α} (h : Beyond cmp k)
    (hg : Graded cmp (plug k t).elems) : Beyond cmp (search cmp k t).1 := by
  induction t generalizing k with
  | leaf => exact h
  | node c a l r ihl ihr =>
    rw [RedBlack.search]
    have hn : Graded cmp (l.elems ++ a :: r.elems) := by
      rw [elems_plug .left] at hg
      exact ((List.pairwise_append.1 (List.pairwise_append.1 hg).2.1)).1
    obtain ⟨-, hr, hl⟩ := List.pairwise_append.1 hn
    split_ifs with h0 h1
    · exact h
    · refine ihr ⟨fun b hb ↦ ?_, h.2⟩ hg
      have hb : b ∈ Dir.left.cat (beside .left k) (Dir.left.cat l.elems [a]) := hb
      rw [Dir.mem_cat, Dir.mem_cat, List.mem_singleton] at hb
      rcases hb with hb | hb | rfl
      · exact h.1 b hb
      · exact (hl b hb a List.mem_cons_self).2 h1
      · exact h1
    · have h1 : 0 < cmp a := by omega
      refine ihl ⟨h.1, fun b hb ↦ ?_⟩ hg
      have hb : b ∈ Dir.right.cat (beside .right k) (Dir.right.cat r.elems [a]) := hb
      rw [Dir.mem_cat, Dir.mem_cat, List.mem_singleton] at hb
      rcases hb with hb | hb | rfl
      · exact h.2 b hb
      · exact ((List.pairwise_cons.1 hr).1 b hb).1 h1
      · exact h1

/-- A node at the end of a path may be red. -/
def mayRed : Way α → Bool
  | [] => false
  | f :: _ => !f.red

/-- The path becomes a red-black tree with a subtree of black height `n`. -/
def Holed : Nat → Way α → Prop
  | _, [] => True
  | n, f :: k =>
    f.sib.Balanced n ∧ (f.red = true → f.sib.red = false ∧ mayRed k = true) ∧
      Holed (if f.red then n else n + 1) k

theorem holed_red {n : Nat} {f : Frame α} {k : Way α} (hf : f.red = true) :
    Holed n (f :: k) ↔
      f.sib.Balanced n ∧ f.sib.red = false ∧ mayRed k = true ∧ Holed n k := by
  simp only [Holed, hf, if_true, true_implies, and_assoc]

theorem holed_black {n : Nat} {f : Frame α} {k : Way α} (hf : f.red = false) :
    Holed n (f :: k) ↔ f.sib.Balanced n ∧ Holed (n + 1) k := by
  simp only [Holed, hf, Bool.false_eq_true, if_false, false_implies, true_and]

/-- The subtree beside the hole can be exchanged. -/
theorem Holed.sib {n : Nat} {d : Dir} {c : Bool} {a : α} {s s' : Shape α} {k : Way α}
    (hk : Holed n (⟨d, c, a, s⟩ :: k)) (hs : s'.Balanced n) (hr : s'.red = false) :
    Holed n (⟨d, c, a, s'⟩ :: k) :=
  ⟨hs, fun hc ↦ ⟨hr, (hk.2.1 hc).2⟩, hk.2.2⟩

/-- The values along the path do not matter. -/
theorem Holed.relabel {n : Nat} {kin k : Way α} {d : Dir} {c : Bool} {a b : α} {s : Shape α}
    (h : Holed n (kin ++ ⟨d, c, a, s⟩ :: k)) : Holed n (kin ++ ⟨d, c, b, s⟩ :: k) := by
  induction kin generalizing n with
  | nil => exact h
  | cons f kin ih =>
    obtain ⟨hs, hr, hk⟩ := h
    refine ⟨hs, fun hf ↦ ⟨(hr hf).1, ?_⟩, ih hk⟩
    have hm := (hr hf).2
    cases kin with
    | nil => exact hm
    | cons g kin => exact hm

/-- The red-black trees are those with a balanced subtree at the end of a path that fits it. -/
theorem isRedBlack_plug {k : Way α} {t : Shape α} :
    IsRedBlack (plug k t) ↔
      ∃ n, Holed n k ∧ t.Balanced n ∧ (t.red = true → mayRed k = true) := by
  induction k generalizing t with
  | nil =>
    constructor
    · rintro ⟨hb, n, hn⟩
      refine ⟨n, trivial, hn, ?_⟩
      intro hr
      rw [plug_nil, hr] at hb
      cases hb
    · rintro ⟨n, -, hn, hr⟩
      exact ⟨Bool.eq_false_iff.2 fun h ↦ Bool.false_ne_true (hr h), n, hn⟩
  | cons f k ih =>
    rw [plug_cons, ih, Frame.fill]
    cases hf : f.red with
    | true =>
      constructor
      · rintro ⟨n, hk, hn, hr⟩
        obtain ⟨ht, hs, hrt, hrs⟩ := balanced_red.1 hn
        refine ⟨n, (holed_red hf).2 ⟨hs, hrs, hr (red_join _ _ _ _ _), hk⟩, ht, ?_⟩
        intro h
        rw [h] at hrt
        cases hrt
      · rintro ⟨n, hk, hn, hr⟩
        obtain ⟨hs, hrs, hm, hk⟩ := (holed_red hf).1 hk
        refine ⟨n, hk, balanced_red.2 ⟨hn, hs, ?_, hrs⟩, fun _ ↦ hm⟩
        refine Bool.eq_false_iff.2 fun h ↦ ?_
        have := hr h
        rw [mayRed, hf] at this
        cases this
    | false =>
      constructor
      · rintro ⟨n, hk, hn, -⟩
        obtain ⟨m, rfl, ht, hs⟩ := balanced_black.1 hn
        exact ⟨m, (holed_black hf).2 ⟨hs, hk⟩, ht, fun _ ↦ by rw [mayRed, hf]; rfl⟩
      · rintro ⟨n, hk, hn, -⟩
        obtain ⟨hs, hk⟩ := (holed_black hf).1 hk
        refine ⟨n + 1, hk, balanced_black_succ.2 ⟨hn, hs⟩, ?_⟩
        intro h
        rw [red_join] at h
        cases h

/-- A subtree fits a path of its height. -/
theorem Holed.isRedBlack {n : Nat} {k : Way α} {t : Shape α} (hk : Holed n k) (ht : t.Balanced n)
    (hr : t.red = true → mayRed k = true) : IsRedBlack (plug k t) :=
  isRedBlack_plug.2 ⟨n, hk, ht, hr⟩

end Mh.Lib.RedBlack
