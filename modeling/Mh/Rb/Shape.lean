import Mh.Rb.Model

/-!
# The shape of a tree in memory

`At t k s` says that the nodes of `t` make up a tree, which is the subtree `s` in the hole of the
path `k`: pointers to children and to fathers agree, and each node knows on which side of its father
it is.  It does not matter where the tree is taken apart (`at_cons`).

The changes that the functions of `rb.c` make to a tree are changes of the subtree in a hole:
another colour for its root (`At.mark`), or a rotation (`At.reparent`).
-/

namespace Mh.Rb

open Lib.RedBlack

variable {ι : Type}

/-- The pointers to the children, the one on a side first. -/
def pair (d : Dir) (p q : Ptr ι) : Dir → Ptr ι := fun e ↦ if e = d then p else q

section pair

variable {d : Dir} {p q r : Ptr ι}

@[simp] theorem pair_self : pair d p q d = p :=
  if_pos rfl

@[simp] theorem pair_other : pair d p q d.other = q :=
  if_neg d.other_ne

theorem pair_swap : pair d.other p q = pair d q p := by
  funext e
  rcases Dir.eq_or_eq_other d e with rfl | rfl
  · rw [pair_self]
    exact if_neg e.ne_other
  · rw [pair_self, pair_other]

@[simp] theorem update_pair_self : Function.update (pair d p q) d r = pair d r q := by
  funext e
  rcases Dir.eq_or_eq_other d e with rfl | rfl
  · rw [Function.update_self, pair_self]
  · rw [Function.update_of_ne d.other_ne, pair_other, pair_other]

@[simp] theorem update_pair_other : Function.update (pair d p q) d.other r = pair d p r := by
  rw [← pair_swap, update_pair_self, pair_swap]

@[simp] theorem update_both {g : Dir → Ptr ι} :
    Function.update (Function.update g d p) d.other q = pair d p q := by
  funext e
  rcases Dir.eq_or_eq_other d e with rfl | rfl
  · rw [Function.update_of_ne e.ne_other, Function.update_self, pair_self]
  · rw [Function.update_self, pair_other]

theorem update_left_right {g : Dir → Ptr ι} :
    Function.update (Function.update g .left p) .right q = pair .left p q :=
  update_both (d := .left)

end pair

/-- The pointer to a tree. -/
def rootPtr : Shape ι → Ptr ι
  | .leaf => .null
  | .node _ i _ _ => .node i

@[simp] theorem rootPtr_leaf : rootPtr (.leaf : Shape ι) = .null := rfl

@[simp] theorem rootPtr_join (d : Dir) (c : Bool) (i : ι) (x y : Shape ι) :
    rootPtr (.join d c i x y) = .node i := by
  cases d <;> rfl

@[simp] theorem rootPtr_paint (c : Bool) (s : Shape ι) : rootPtr (s.paint c) = rootPtr s := by
  cases s <;> rfl

@[simp] theorem rootPtr_eq_null {s : Shape ι} : rootPtr s = .null ↔ s = .leaf := by
  cases s
  · exact iff_of_true rfl rfl
  · exact iff_of_false (fun h ↦ by cases h) fun h ↦ by cases h

theorem eq_node_of_rootPtr {s : Shape ι} {i : ι} (h : rootPtr s = .node i) :
    ∃ c l r, s = .node c i l r := by
  cases s with
  | leaf => cases h
  | node c j l r =>
    cases h
    exact ⟨c, l, r, rfl⟩

theorem mem_elems_of_rootPtr {s : Shape ι} {i : ι} (h : rootPtr s = .node i) : i ∈ s.elems := by
  obtain ⟨c, l, r, rfl⟩ := eq_node_of_rootPtr h
  exact List.mem_append_right _ List.mem_cons_self

/-- The father of what is in the hole of a path. -/
def holeFather : Way ι → Ptr ι
  | [] => .tree
  | f :: _ => .node f.val

/-- The side of its father on which the hole is. -/
def holeSide : Way ι → Dir
  | [] => .left
  | f :: _ => f.dir

namespace RbTree

variable (t : RbTree ι)

/-- A subtree in memory, on a side of its father. -/
def SubAt : Ptr ι → Dir → Shape ι → Prop
  | _, _, .leaf => True
  | fa, po, .node c i l r =>
    t.cell i = ⟨pair .left (rootPtr l) (rootPtr r), fa, po, c⟩ ∧
      SubAt (.node i) .left l ∧ SubAt (.node i) .right r

/-- A path in memory, with a pointer in its hole. -/
def PathAt : Way ι → Ptr ι → Prop
  | [], p => t.root = p
  | f :: k, p =>
    t.cell f.val = ⟨pair f.dir p (rootPtr f.sib), holeFather k, holeSide k, f.red⟩ ∧
      SubAt t (.node f.val) f.dir.other f.sib ∧ PathAt k (.node f.val)

/-- The tree in memory. -/
structure At (k : Way ι) (s : Shape ι) : Prop where
  path : t.PathAt k (rootPtr s)
  sub : t.SubAt (holeFather k) (holeSide k) s
  nodup : (s.elems ++ Way.elems k).Nodup

variable {t} {t' : RbTree ι} {fa fa' : Ptr ι} {po po' d : Dir} {c c' : Bool} {i j : ι}
  {s s' x y z : Shape ι} {k : Way ι} {f : Frame ι} {p q : Ptr ι}

theorem subAt_join :
    t.SubAt fa po (.join d c i x y) ↔
      t.cell i = ⟨pair d (rootPtr x) (rootPtr y), fa, po, c⟩ ∧
        t.SubAt (.node i) d x ∧ t.SubAt (.node i) d.other y := by
  cases d
  · exact Iff.rfl
  · rw [← pair_swap, ← and_comm (a := t.SubAt _ Dir.right.other y)]
    exact Iff.rfl

/-- Only the nodes of a subtree matter to it. -/
theorem SubAt.congr (h : t.SubAt fa po s) (hc : ∀ a ∈ s.elems, t'.cell a = t.cell a) :
    t'.SubAt fa po s := by
  induction s generalizing fa po with
  | leaf => trivial
  | node c i l r ihl ihr =>
    obtain ⟨hi, hl, hr⟩ := h
    refine ⟨(hc i (List.mem_append_right _ List.mem_cons_self)).trans hi, ?_, ?_⟩
    · exact ihl hl fun a ha ↦ hc a (List.mem_append_left _ ha)
    · exact ihr hr fun a ha ↦ hc a (List.mem_append_right _ (List.mem_cons_of_mem _ ha))

theorem PathAt.congr (h : t.PathAt k p) (hr : t'.root = t.root)
    (hc : ∀ a ∈ Way.elems k, t'.cell a = t.cell a) : t'.PathAt k p := by
  induction k generalizing p with
  | nil => exact hr.trans h
  | cons f k ih =>
    obtain ⟨hf, hs, hk⟩ := h
    refine ⟨(hc _ List.mem_cons_self).trans hf, ?_, ?_⟩
    · refine hs.congr fun a ha ↦ hc a (List.mem_cons_of_mem _ ?_)
      exact List.mem_append_left _ ha
    · refine ih hk fun a ha ↦ hc a (List.mem_cons_of_mem _ ?_)
      exact List.mem_append_right _ ha

/-- Only the root and the nodes matter to the shape. -/
theorem At.congr (h : t.At k s) (hr : t'.root = t.root) (hc : t'.cell = t.cell) : t'.At k s :=
  ⟨h.path.congr hr fun a _ ↦ congrFun hc a, h.sub.congr fun a _ ↦ congrFun hc a, h.nodup⟩

/-- A node can be counted to the path or to the subtree. -/
theorem at_cons : t.At (f :: k) s ↔ t.At k (f.fill s) := by
  have hnodup : (s.elems ++ Way.elems (f :: k)).Nodup ↔
      ((f.fill s).elems ++ Way.elems k).Nodup := by
    rw [← (perm_elems_plug (f :: k) s).nodup_iff, ← (perm_elems_plug k _).nodup_iff, plug_cons]
  constructor
  · rintro ⟨⟨hf, hsib, hk⟩, hs, hn⟩
    refine ⟨?_, subAt_join.2 ⟨hf, hs, hsib⟩, hnodup.1 hn⟩
    rwa [Frame.fill, rootPtr_join]
  · rintro ⟨hk, hs, hn⟩
    rw [Frame.fill, rootPtr_join] at hk
    obtain ⟨hf, hs, hsib⟩ := subAt_join.1 hs
    exact ⟨⟨hf, hsib, hk⟩, hs, hnodup.2 hn⟩

theorem at_append {k' : Way ι} : t.At (k ++ k') s ↔ t.At k' (plug k s) := by
  induction k generalizing s with
  | nil => exact Iff.rfl
  | cons f k ih => exact at_cons.trans ih

/-- The tree as a whole. -/
theorem at_plug : t.At k s ↔ t.At [] (plug k s) := by
  rw [← at_append, List.append_nil]

/-- The subtree on the other side of the last node. -/
theorem at_turn : t.At (f :: k) s ↔ t.At (f.turn s :: k) f.sib := by
  rw [at_cons, at_cons, Frame.fill_turn]

@[simp] theorem get_node : t.get (.node i) = some (t.cell i) := rfl

@[simp] theorem father_node : t.father (.node i) = some (t.cell i).father := rfl

@[simp] theorem position_node : t.position (.node i) = some (t.cell i).position := rfl

@[simp] theorem child_node : t.child (.node i) d = some ((t.cell i).nodes d) := rfl

@[simp] theorem redP_node : t.redP (.node i) = some (t.cell i).red := rfl

theorem At.cell (h : t.At k (.join d c i x y)) :
    t.cell i = ⟨pair d (rootPtr x) (rootPtr y), holeFather k, holeSide k, c⟩ :=
  (subAt_join.1 h.sub).1

theorem At.father (h : t.At k (.join d c i x y)) : t.father (.node i) = some (holeFather k) := by
  rw [RbTree.father, get, Option.map_some, h.cell]

theorem At.position (h : t.At k (.join d c i x y)) : t.position (.node i) = some (holeSide k) := by
  rw [RbTree.position, get, Option.map_some, h.cell]

theorem At.child (h : t.At k (.join d c i x y)) : t.child (.node i) d = some (rootPtr x) := by
  rw [RbTree.child, h.cell]
  exact congrArg some pair_self

theorem At.child_other (h : t.At k (.join d c i x y)) :
    t.child (.node i) d.other = some (rootPtr y) := by
  rw [RbTree.child, h.cell]
  exact congrArg some pair_other

theorem At.cell_head (h : t.At (f :: k) s) :
    t.cell f.val = ⟨pair f.dir (rootPtr s) (rootPtr f.sib), holeFather k, holeSide k, f.red⟩ :=
  h.path.1

theorem At.child_head_other (h : t.At (f :: k) s) :
    t.child (.node f.val) f.dir.other = some (rootPtr f.sib) := by
  rw [RbTree.child, h.cell_head]
  exact congrArg some pair_other

/-- No node is on both sides of its father. -/
theorem At.rootPtr_ne_sib (h : t.At (f :: k) s) (hs : s ≠ .leaf) : rootPtr s ≠ rootPtr f.sib := by
  obtain ⟨c, i, x, y, rfl⟩ := Shape.exists_join .left hs
  rw [rootPtr_join]
  intro he
  refine (List.nodup_append'.1 h.nodup).2.2 (mem_elems_of_rootPtr (rootPtr_join .left c i x y)) ?_
  exact List.mem_cons_of_mem _ (List.mem_append_left _ (mem_elems_of_rootPtr he.symm))

/-- The pointer that leads into the hole. -/
theorem At.child_hole (h : t.At k s) : t.child (holeFather k) (holeSide k) = some (rootPtr s) := by
  cases k with
  | nil => exact congrArg some h.path
  | cons f k =>
    rw [holeFather, RbTree.child, h.cell_head]
    exact congrArg some pair_self

/-- The root, seen from a hole. -/
theorem At.root (h : t.At k s) : t.root = rootPtr (plug k s) :=
  (at_plug.1 h).path

/-- The node in a hole is the root if there is no path to it, since only the root has no father. -/
theorem At.root_eq_iff (h : t.At k (.join d c i x y)) : t.root = .node i ↔ k = [] := by
  constructor
  · intro hr
    obtain ⟨c', l, r, hp⟩ := eq_node_of_rootPtr (h.root.symm.trans hr)
    have h' := at_plug.1 h
    rw [hp] at h'
    have hfa : Ptr.tree = holeFather k := congrArg RbNode.father (h'.sub.1.symm.trans h.cell)
    cases k with
    | nil => rfl
    | cons f k => cases hfa
  · rintro rfl
    rw [h.root, plug_nil, rootPtr_join]

/-- `RB_RED_P` of a subtree. -/
theorem At.redP (h : t.At k s) : t.redP (rootPtr s) = some s.red := by
  cases s with
  | leaf => rfl
  | node c i l r =>
    rw [rootPtr, RbTree.redP, get, Option.map_some, h.sub.1]
    · rfl
    · intro h
      cases h

theorem At.blackP (h : t.At k s) : t.blackP (rootPtr s) = some !s.red := by
  rw [RbTree.blackP, h.redP, Option.map_some]

/-! ## Changes -/

/-- The path with another pointer in its hole. -/
def relink [DecidableEq ι] (t : RbTree ι) : Way ι → Ptr ι → RbTree ι
  | [], q => { t with root := q }
  | f :: _, q =>
    t.put f.val { t.cell f.val with nodes := Function.update (t.cell f.val).nodes f.dir q }

/-- A subtree with another father. -/
def adopt [DecidableEq ι] (t : RbTree ι) (p fa : Ptr ι) (po : Dir) : RbTree ι :=
  match p with
  | .node i => t.put i { t.cell i with father := fa, position := po }
  | _ => t

/-- What a change of the shape leaves alone. -/
structure Keeps (t t' : RbTree ι) : Prop where
  minmax : t'.minmax = t.minmax
  link : t'.link = t.link

theorem Keeps.refl (t : RbTree ι) : Keeps t t := ⟨rfl, rfl⟩

theorem Keeps.trans {u : RbTree ι} (h : Keeps t t') (h' : Keeps t' u) : Keeps t u :=
  ⟨h'.minmax.trans h.minmax, h'.link.trans h.link⟩

variable [DecidableEq ι]

@[simp] theorem put_cell_self {n : RbNode ι} : (t.put i n).cell i = n :=
  Function.update_self _ _ _

theorem put_cell_of_ne {n : RbNode ι} (h : j ≠ i) : (t.put i n).cell j = t.cell j :=
  Function.update_of_ne h _ _

@[simp] theorem put_root {n : RbNode ι} : (t.put i n).root = t.root := rfl
@[simp] theorem put_minmax {n : RbNode ι} : (t.put i n).minmax = t.minmax := rfl
@[simp] theorem put_link {n : RbNode ι} : (t.put i n).link = t.link := rfl

@[simp] theorem relink_minmax : (t.relink k q).minmax = t.minmax := by
  cases k <;> rfl

@[simp] theorem relink_link : (t.relink k q).link = t.link := by
  cases k <;> rfl

theorem relink_cell_of_notMem (h : i ∉ Way.elems k) : (t.relink k q).cell i = t.cell i := by
  cases k with
  | nil => rfl
  | cons f k => exact put_cell_of_ne (List.ne_of_not_mem_cons h)

@[simp] theorem adopt_root : (t.adopt p fa po).root = t.root := by
  cases p <;> rfl

@[simp] theorem adopt_minmax : (t.adopt p fa po).minmax = t.minmax := by
  cases p <;> rfl

@[simp] theorem adopt_link : (t.adopt p fa po).link = t.link := by
  cases p <;> rfl

theorem adopt_cell_of_notMem (h : i ∉ s.elems) :
    (t.adopt (rootPtr s) fa po).cell i = t.cell i := by
  cases s with
  | leaf => rfl
  | node c j l r =>
    refine put_cell_of_ne fun hij ↦ h ?_
    rw [hij]
    exact List.mem_append_right _ List.mem_cons_self

@[simp] theorem modify_node {g : RbNode ι → RbNode ι} :
    t.modify (.node i) g = some (t.put i (g (t.cell i))) := rfl

@[simp] theorem setChild_node :
    t.setChild (.node i) d q =
      some (t.put i { t.cell i with nodes := Function.update (t.cell i).nodes d q }) := rfl

theorem setChild_hole :
    t.setChild (holeFather k) (holeSide k) q = some (t.relink k q) := by
  cases k <;> rfl

theorem PathAt.relink (h : t.PathAt k p) (hn : (Way.elems k).Nodup) :
    (t.relink k q).PathAt k q := by
  cases k with
  | nil => rfl
  | cons f k =>
    obtain ⟨hf, hs, hk⟩ := h
    obtain ⟨hfk, -⟩ := List.nodup_cons.1 hn
    rw [List.mem_append, not_or] at hfk
    refine ⟨?_, ?_, ?_⟩
    · rw [RbTree.relink, put_cell_self, hf, update_pair_self]
    · exact hs.congr fun a ha ↦ put_cell_of_ne fun e ↦ hfk.1 (e ▸ ha)
    · exact hk.congr rfl fun a ha ↦ put_cell_of_ne fun e ↦ hfk.2 (e ▸ ha)

theorem SubAt.adopt (h : t.SubAt fa po s) (hn : s.elems.Nodup) :
    (t.adopt (rootPtr s) fa' po').SubAt fa' po' s := by
  cases s with
  | leaf => trivial
  | node c i l r =>
    obtain ⟨hi, hl, hr⟩ := h
    obtain ⟨-, hir, hlr⟩ := List.nodup_append.1 hn
    refine ⟨?_, ?_, ?_⟩
    · rw [rootPtr, RbTree.adopt, put_cell_self, hi]
    · refine hl.congr fun a ha ↦ put_cell_of_ne ?_
      exact hlr a ha i List.mem_cons_self
    · refine hr.congr fun a ha ↦ put_cell_of_ne ?_
      rintro rfl
      exact (List.nodup_cons.1 hir).1 ha

theorem put_put {n n' : RbNode ι} : (t.put i n).put i n' = t.put i n' :=
  congrArg (RbTree.mk _ _ _) (Function.update_idem _ _ _)

theorem put_comm {n n' : RbNode ι} (h : i ≠ j) : (t.put j n).put i n' = (t.put i n').put j n :=
  congrArg (RbTree.mk _ _ _) (Function.update_comm h.symm _ _ _)

/-- A path is changed apart from a node that is not on it. -/
theorem relink_put {n : RbNode ι} (h : i ∉ Way.elems k) :
    (t.put i n).relink k q = (t.relink k q).put i n := by
  cases k with
  | nil => rfl
  | cons f k =>
    have hne : f.val ≠ i := fun e ↦ h (e ▸ List.mem_cons_self)
    rw [relink, put_cell_of_ne hne, put_comm hne]
    rfl

/-- `RB_MARK_RED` and `RB_MARK_BLACK`. -/
theorem At.mark (h : t.At k (.join d c i x y)) (c' : Bool) :
    ∃ t', t.mark (.node i) c' = some t' ∧ t'.At k (.join d c' i x y) ∧ Keeps t t' := by
  obtain ⟨hp, hs, hn⟩ := h
  obtain ⟨hi, hx, hy⟩ := subAt_join.1 hs
  have hap := hn
  simp only [Shape.elems_join, Dir.nodup_cat, List.nodup_append', List.Disjoint, Dir.mem_cat,
    List.mem_singleton] at hap
  refine ⟨_, rfl, ⟨?_, subAt_join.2 ⟨?_, ?_, ?_⟩, ?_⟩, ⟨rfl, rfl⟩⟩
  · rw [rootPtr_join] at hp ⊢
    exact hp.congr rfl fun a ha ↦ put_cell_of_ne (by grind)
  · rw [put_cell_self, hi]
  · exact hx.congr fun a ha ↦ put_cell_of_ne (by grind)
  · exact hy.congr fun a ha ↦ put_cell_of_ne (by grind)
  · rwa [Shape.elems_join] at hn ⊢

/-- A new leaf. -/
theorem At.plant (h : t.At k .leaf) (hi : i ∉ Way.elems k) (c : Bool) :
    ((t.put i ⟨pair .left .null .null, holeFather k, holeSide k, c⟩).relink k (.node i)).At k
      (.node c i .leaf .leaf) := by
  refine ⟨?_, ⟨?_, trivial, trivial⟩, ?_⟩
  · refine PathAt.relink (h.path.congr rfl fun a ha ↦ put_cell_of_ne ?_) h.nodup
    rintro rfl
    exact hi ha
  · rw [relink_cell_of_notMem hi, put_cell_self]
    rfl
  · exact List.nodup_cons.2 ⟨hi, h.nodup⟩

/-- A node that is not part of the tree. -/
theorem At.put_of_notMem {n : RbNode ι} (h : t.At k s) (hi : i ∉ s.elems ++ Way.elems k) :
    (t.put i n).At k s := by
  rw [List.mem_append, not_or] at hi
  refine ⟨h.path.congr rfl fun a ha ↦ put_cell_of_ne ?_, h.sub.congr fun a ha ↦ put_cell_of_ne ?_,
    h.nodup⟩
  · rintro rfl
    exact hi.2 ha
  · rintro rfl
    exact hi.1 ha

/-- A subtree with another father, and another colour at its root. -/
def graft (t : RbTree ι) (p fa : Ptr ι) (po : Dir) (c : Bool) : RbTree ι :=
  match p with
  | .node i => t.put i { t.cell i with father := fa, position := po, red := c }
  | _ => t

@[simp] theorem graft_root : (t.graft p fa po c).root = t.root := by
  cases p <;> rfl

theorem graft_cell_of_notMem (h : i ∉ s.elems) :
    (t.graft (rootPtr s) fa po c).cell i = t.cell i := by
  cases s with
  | leaf => rfl
  | node c j l r =>
    refine put_cell_of_ne fun hij ↦ h ?_
    rw [hij]
    exact List.mem_append_right _ List.mem_cons_self

theorem SubAt.graft (h : t.SubAt fa po s) (hn : s.elems.Nodup) :
    (t.graft (rootPtr s) fa' po' c).SubAt fa' po' (s.paint c) := by
  cases s with
  | leaf => trivial
  | node c i l r =>
    obtain ⟨hi, hl, hr⟩ := h
    obtain ⟨-, hir, hlr⟩ := List.nodup_append.1 hn
    refine ⟨?_, ?_, ?_⟩
    · rw [rootPtr, RbTree.graft, put_cell_self, hi]
    · refine hl.congr fun a ha ↦ put_cell_of_ne ?_
      exact hlr a ha i List.mem_cons_self
    · refine hr.congr fun a ha ↦ put_cell_of_ne ?_
      rintro rfl
      exact (List.nodup_cons.1 hir).1 ha

/-- A node with one subtree at most is cut out, and the subtree takes its place. -/
theorem At.cut (h : t.At k (.join d c i s .leaf)) (c' : Bool) :
    ((t.relink k (rootPtr s)).graft (rootPtr s) (holeFather k) (holeSide k) c').At k
      (s.paint c') := by
  obtain ⟨hp, hs, hn⟩ := h
  obtain ⟨hi, hs, -⟩ := subAt_join.1 hs
  have hap := hn
  simp only [Shape.elems_join, Dir.nodup_cat, List.nodup_append', List.Disjoint, Dir.mem_cat,
    List.mem_singleton] at hap
  refine ⟨?_, ?_, ?_⟩
  · rw [rootPtr_paint]
    refine (hp.relink (by grind)).congr graft_root fun a ha ↦ ?_
    rw [graft_cell_of_notMem (by grind)]
  · have hs' : (t.relink k (rootPtr s)).SubAt (.node i) d s :=
      hs.congr fun a ha ↦ relink_cell_of_notMem (by grind)
    exact hs'.graft (by grind)
  · rw [Shape.elems_paint, List.nodup_append']
    exact ⟨by grind, by grind, fun a ha ↦ by grind⟩

/-- `rb_tree_reparent_nodes`: the child on a side goes up, and takes over the colour. -/
theorem At.reparent (h : t.At k (.join d c i (.join d c' j x y) z)) :
    ∃ t', t.rbTreeReparentNodes (.node i) d = some t' ∧
      t'.At k (.join d c j x (.join d c' i y z)) ∧ Keeps t t' := by
  obtain ⟨hp, hs, hn⟩ := h
  obtain ⟨hi, hs, hz⟩ := subAt_join.1 hs
  obtain ⟨hj, hx, hy⟩ := subAt_join.1 hs
  have hap := hn
  simp only [Shape.elems_join, Dir.nodup_cat, List.nodup_append', List.Disjoint, Dir.mem_cat,
    List.mem_singleton] at hap
  have hik : i ∉ Way.elems k := by grind
  have hjk : j ∉ Way.elems k := by grind
  have hij : i ≠ j := by grind
  have hcomm (t : RbTree ι) (n n' : RbNode ι) :
      (t.put j n).put i n' = (t.put i n').put j n := put_comm hij
  rw [rootPtr_join] at hi hp
  let u := ((t.relink k (.node j)).put i ⟨pair d (rootPtr y) (rootPtr z), .node j, d.other, c'⟩).put
    j ⟨pair d (rootPtr x) (.node i), holeFather k, holeSide k, c⟩
  have hrun : t.rbTreeReparentNodes (.node i) d = some (u.adopt (rootPtr y) (.node i) d) := by
    simp [rbTreeReparentNodes, hi, hj, setChild_hole, relink_cell_of_notMem hjk,
      relink_cell_of_notMem hik, setFather, setPosition, swapProperties, put_cell_of_ne hij,
      put_cell_of_ne hij.symm, put_put, hcomm]
    cases y with
    | leaf => rfl
    | node c l a r => simp [rootPtr, adopt, put_put, u]
  -- the nodes that are not touched
  have hu (a : ι) (ha : a ≠ i) (ha' : a ≠ j) (hk : a ∉ Way.elems k) : u.cell a = t.cell a :=
    (put_cell_of_ne ha').trans ((put_cell_of_ne ha).trans (relink_cell_of_notMem hk))
  refine ⟨_, hrun, ⟨?_, subAt_join.2 ⟨?_, ?_, ?_⟩, ?_⟩, ?_⟩
  · rw [rootPtr_join]
    refine (hp.relink (by grind)).congr adopt_root fun a ha ↦ ?_
    rw [adopt_cell_of_notMem (by grind), put_cell_of_ne (by grind), put_cell_of_ne (by grind)]
  · rw [adopt_cell_of_notMem (by grind), put_cell_self, rootPtr_join]
  · refine hx.congr fun a ha ↦ ?_
    rw [adopt_cell_of_notMem (by grind), hu a (by grind) (by grind) (by grind)]
  · refine subAt_join.2 ⟨?_, ?_, ?_⟩
    · rw [adopt_cell_of_notMem (by grind), put_cell_of_ne hij, put_cell_self]
    · refine SubAt.adopt (hy.congr fun a ha ↦ ?_) (by grind)
      exact hu a (by grind) (by grind) (by grind)
    · refine hz.congr fun a ha ↦ ?_
      rw [adopt_cell_of_notMem (by grind), hu a (by grind) (by grind) (by grind)]
  · simpa only [Shape.elems_join, Dir.cat_assoc] using hn
  · exact ⟨by simp [u], by simp [u]⟩

end RbTree

end Mh.Rb
