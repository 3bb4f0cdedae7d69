import Mh.Rb.Runs

/-!
# The checks of a tree

With `RBDEBUG`, `rb_tree_check` looks at all nodes of a tree and at the list of them.  It stops
where an assertion does not hold, and so it does for a tree without items, of which it asks that
there be a root.  In any other tree that the functions of `rb.c` have made, all the assertions hold.
-/

namespace Mh.Rb

open Lib.RedBlack

variable {ι κ : Type}

/-- `KASSERT`, of what may not be readable. -/
def kassert (b : Option Bool) : Option Unit := b.bind fun b ↦ if b then some () else none

@[simp] theorem kassert_true : kassert (some true) = some () := rfl

section OrAnd

variable {b b' : Bool} {o : Option Bool}

@[simp] theorem true_orM : (some true <||> o) = some true := rfl
@[simp] theorem false_orM : (some false <||> o) = o := rfl
@[simp] theorem true_andM : (some true <&&> o) = o := rfl
@[simp] theorem false_andM : (some false <&&> o) = some false := rfl

@[simp] theorem some_orM : (some b <||> some b') = some (b || b') := by
  cases b <;> rfl

@[simp] theorem some_andM : (some b <&&> some b') = some (b && b') := by
  cases b <;> rfl

end OrAnd

variable [DecidableEq ι]

/-- `TAILQ_NEXT`. -/
def tailqNext (self : ι) : List ι → Option ι
  | [] => none
  | a :: l => if a = self then l.head? else tailqNext self l

/-- `TAILQ_PREV`. -/
def tailqPrev (self : ι) (l : List ι) : Option ι := tailqNext self l.reverse

namespace RbTree

variable (ops : RbTreeOps ι κ) (t : RbTree ι)

/-- `rb_tree_count_black`. -/
def rbTreeCountBlack : Nat → Ptr ι → Option Nat
  | 0, _ => none
  | _ + 1, .null => some 0
  | fuel + 1, self => do
    let left ← rbTreeCountBlack fuel (← t.child self .left)
    let right ← rbTreeCountBlack fuel (← t.child self .right)
    kassert (some (left = right))
    return left + (← t.blackP self).toNat

/-- A node and its father, in `rb_tree_check_node`. -/
def checkFather (self : ι) : Option Unit := do
  let father ← t.father (.node self)
  let position ← t.position (.node self)
  if t.root = .node self then
    kassert (some (position = .left))
    kassert ((t.child father .left).map (· = .node self))
    kassert (some (father = .tree))
  else
    match father with
    | .node f =>
      let diff := ops.compareNodes self f
      if position = .left then
        kassert (some (diff < 0))
        kassert ((t.child father .left).map (· = .node self))
      else
        kassert (some (diff > 0))
        kassert ((t.child father .right).map (· = .node self))
    | _ => none

/-- A node and the list, in `rb_tree_check_node`. -/
def checkLink (self : ι) : Option Unit := do
  let prev0 ← nodeToItem (← t.rbTreeIterate t.turns (.node self) .left)
  let next0 ← nodeToItem (← t.rbTreeIterate t.turns (.node self) .right)
  kassert (some (prev0 = tailqPrev self t.link))
  kassert (some (next0 = tailqNext self t.link))
  kassert (some (prev0 ≠ none ∨ t.minmax .left = .node self))
  kassert (some (next0 ≠ none ∨ t.minmax .right = .node self))

/-- A child on a side that is red and childless, while there is none on the other. -/
def onlyRed (self : Ptr ι) (d : Dir) : Option Bool := do
  let child ← t.child self d
  let other ← t.child self d.other
  some (child ≠ .null) <&&> some (other = .null) <&&> t.redP child <&&> t.childlessP child

/-- A red node and its relatives, in `rb_tree_check_node`. -/
def checkRed (self : Ptr ι) : Option Unit := do
  kassert (some (t.root ≠ self))
  let father ← t.father self
  let brother ← t.child father (← t.position self).other
  kassert (t.blackP father)
  kassert ((t.childlessP self).map (!·) <||> some (brother = .null) <||> t.redP brother <||>
    t.childlessP brother)
  kassert (t.childlessP self <||> (t.twochildrenP self <&&> t.nephewsBlack self))
  kassert (t.childlessP self <||> t.blackP brother <||>
    (t.twochildrenP brother <&&> t.nephewsBlack brother))

/-- A black node and its relatives, in `rb_tree_check_node`. -/
def checkBlack (self : Ptr ι) : Option Unit := do
  kassert (t.childlessP self <||> t.twochildrenP self <||> t.onlyRed self .left <||>
    t.onlyRed self .right)
  if ← some (decide (t.root ≠ self)) <&&> t.childlessP self <&&>
      (do t.blackP (← t.father self)) then
    let which ← t.position self
    let relative0 ← t.rbTreeIterate t.turns self which.other
    kassert (some (relative0 ≠ .null))
    let relative ← t.rbTreeIterate t.turns relative0 which.other
    kassert (some (relative ≠ .null))
    kassert ((t.child relative which).map (· = .null))

/-- A node and its relatives, in `rb_tree_check_node`. -/
def checkColour (self : Ptr ι) : Option Unit := do
  if ← t.redP self then t.checkRed self else t.checkBlack self

/-- `RB_CHILDLESS_P` of what is further down. -/
def childlessBelow (self : Ptr ι) (ds : List Dir) : Option Bool := do
  t.childlessP (← ds.foldlM t.child self)

/-- What is below a node on a side, and what is on the other, in `rb_tree_check_node`. -/
def checkSide (self : Ptr ι) (d : Dir) : Option Unit := do
  let child ← t.child self d
  kassert (some (child = .null) <||> t.childlessP child <||>
    (t.child self d.other).map (· ≠ .null))

/-- How deep it is on the other side of a node if a child does not have two children, in
`rb_tree_check_node`. -/
def checkDeep (self : Ptr ι) (d : Dir) : Option Unit := do
  kassert ((do t.twochildrenP (← t.child self d)) <||>
    t.childlessBelow self [d.other] <||>
    t.childlessBelow self [d.other, .left] <||>
    t.childlessBelow self [d.other, .left, .left] <||>
    t.childlessBelow self [d.other, .left, .right] <||>
    t.childlessBelow self [d.other, .right] <||>
    t.childlessBelow self [d.other, .right, .left] <||>
    t.childlessBelow self [d.other, .right, .right])

/-- What is next to a node with two children has no child on the side of the node, in
`rb_tree_check_node`. -/
def checkInterior (self : Ptr ι) (d : Dir) : Option Unit := do
  let next ← t.rbTreeIterate t.turns self d
  kassert (some (next ≠ .null))
  kassert ((t.child next d.other).map (· = .null))

/-- What `rb_tree_check_node` does with `red_check`. -/
def redCheckNode (self : Ptr ι) : Option Unit := do
  kassert (some (t.root ≠ self) <||> t.blackP self)
  let _ ← t.rbTreeCountBlack t.turns self
  t.checkColour self
  kassert (some (t.root = self) <||> (t.father self).map (t.root = ·) <||>
    (do t.twochildrenP (← t.father (← t.father self))))
  t.checkSide self .left
  t.checkSide self .right
  t.checkDeep self .left
  t.checkDeep self .right
  if ← t.twochildrenP self then
    t.checkInterior self .left
    t.checkInterior self .right

/-- `rb_tree_check_node`. -/
def rbTreeCheckNode (self : ι) (prev : Option ι) (redCheck : Bool) : Option Unit := do
  kassert (some (prev.all fun prev ↦ ops.compareNodes prev self < 0))
  t.checkFather ops self
  t.checkLink self
  if redCheck then t.redCheckNode (.node self)

/-- `rb_tree_check`: none where an assertion does not hold. -/
def rbTreeCheck (redCheck : Bool) : Option Unit := do
  kassert (some (t.root ≠ .null))
  kassert ((t.position t.root).map (· = .left))
  t.link.forM fun self ↦ t.rbTreeCheckNode ops self none false
  if redCheck then
    kassert (t.blackP t.root)
    kassert (some (t.root = .null) <||> (t.rbTreeCountBlack t.turns t.root).map (· ≠ 0))
    t.link.forM fun self ↦ t.rbTreeCheckNode ops self none true

variable {ops t} {S : Set ι} {s x y : Shape ι} {k : Way ι} {d : Dir} {c : Bool} {i : ι}
  {n fuel : Nat} {f : Frame ι}

/-! ## What a node shows of its subtree -/

theorem At.childlessP (h : t.At k s) : t.childlessP (rootPtr s) = some s.childless := by
  cases s with
  | leaf => rfl
  | node c i l r =>
    rw [rootPtr, RbTree.childlessP, get, Option.map_some, h.sub.1]
    · cases l <;> cases r <;> rfl
    · intro h
      cases h

theorem At.twochildrenP (h : t.At k s) : t.twochildrenP (rootPtr s) = some s.twochildren := by
  cases s with
  | leaf => rfl
  | node c i l r =>
    rw [rootPtr, RbTree.twochildrenP, get, Option.map_some, h.sub.1]
    · cases l <;> cases r <;> rfl
    · intro h
      cases h

omit [DecidableEq ι] in
/-- The subtree on a side of a node. -/
theorem At.down (h : t.At k (.join d c i x y)) : t.At (⟨d, c, i, y⟩ :: k) x :=
  at_cons.2 h

omit [DecidableEq ι] in
theorem At.swapSides (h : t.At k (.join d c i x y)) : t.At k (.join d.other c i y x) := by
  rwa [Shape.join_other]

/-- `rb_tree_count_black`. -/
theorem countBlack_eq (h : t.At k s) (hb : s.Balanced n) (hf : s.depth < fuel) :
    t.rbTreeCountBlack fuel (rootPtr s) = some n := by
  induction fuel generalizing k s n with
  | zero => cases hf
  | succ fuel ih =>
    by_cases hs : s = .leaf
    · obtain rfl := hs
      rw [show n = 0 from hb]
      rfl
    · obtain ⟨c, i, x, y, rfl⟩ := Shape.exists_join .left hs
      rw [Shape.depth_join] at hf
      obtain ⟨m, hx, hy, hm⟩ : ∃ m, x.Balanced m ∧ y.Balanced m ∧ m + (!c).toNat = n := by
        cases c with
        | true =>
          obtain ⟨hx, hy, -⟩ := Shape.balanced_red.1 hb
          exact ⟨n, hx, hy, rfl⟩
        | false =>
          obtain ⟨m, rfl, hx, hy⟩ := Shape.balanced_black.1 hb
          exact ⟨m, hx, hy, rfl⟩
      have hl := ih h.down hx (by omega)
      have hr := ih h.swapSides.down hy (by omega)
      have hc := h.child
      have hc' : t.child (.node i) .right = _ := h.child_other
      have hbl := h.blackP
      rw [rootPtr_join] at hbl ⊢
      simp [rbTreeCountBlack, hc, hc', hl, hr, hbl, hm]

/-! ## The checks of a node -/

/-- The next item of a node with a child on the side has no child on the other. -/
theorem iterate_end (h : t.At k (.join d c i x y)) (hx : x.isLeaf = false)
    (hf : (plug k (.join d c i x y)).depth ≤ fuel) :
    ∃ j, t.rbTreeIterate fuel (.node i) d = some (.node j) ∧
      t.child (.node j) d.other = some .null := by
  obtain ⟨kin, c', j, z, rfl, hkin⟩ := exists_end d.other (Shape.isLeaf_eq_false.1 hx)
  refine ⟨j, ?_, ?_⟩
  · rw [rbTreeIterate_node h hf, elems_plug d.other, beside_eq_nil hkin, Dir.nil_cat, Dir.first_cat,
      Shape.elems_join, Shape.elems, Dir.nil_cat, Dir.first_cat, Dir.first_singleton]
    rfl
  · have hj : t.At (kin ++ ⟨d, c, i, y⟩ :: k) (.join d.other c' j .leaf z) := at_append.2 h.down
    exact hj.child

theorem checkInterior_eq (h : t.At k (.join d c i x y)) (hx : x.isLeaf = false)
    (hf : (plug k (.join d c i x y)).depth ≤ t.turns) : t.checkInterior (.node i) d = some () := by
  obtain ⟨j, hj, hc⟩ := iterate_end h hx hf
  simp [checkInterior, hj, hc]

theorem checkSide_eq (h : t.At k (.join d c i x y)) (hx : x.Balanced n) (hy : y.Balanced n) :
    t.checkSide (.node i) d = some () := by
  have hch := h.down.childlessP
  cases n with
  | zero =>
    rw [hx.childless] at hch
    simp [checkSide, h.child, hch]
  | succ n =>
    have hy := hy.ne_leaf
    have hx := hx.ne_leaf
    simp [checkSide, h.child, h.child_other, hch, hx, hy]

theorem childlessBelow_nil : t.childlessBelow (rootPtr s) [] = t.childlessP (rootPtr s) := rfl

theorem childlessBelow_cons (h : t.At k (.join d c i x y)) {ds : List Dir} :
    t.childlessBelow (.node i) (d :: ds) = t.childlessBelow (rootPtr x) ds := by
  rw [childlessBelow, List.foldlM_cons, h.child]
  rfl

/-- A tree of height one has at most childless nodes two levels below. -/
theorem childlessBelow_one (h : t.At k s) (hb : s.Balanced 1) {o : Option Bool} :
    (t.childlessBelow (rootPtr s) [.left] <||> t.childlessBelow (rootPtr s) [.left, .left] <||> o) =
      some true := by
  obtain ⟨c, i, x, y, rfl⟩ := Shape.exists_join .left hb.ne_leaf
  rw [rootPtr_join, childlessBelow_cons h, childlessBelow_cons h, childlessBelow_nil,
    h.down.childlessP]
  cases c with
  | false =>
    obtain ⟨hx, -⟩ := Shape.balanced_black_succ.1 hb
    rw [hx.childless]
    rfl
  | true =>
    obtain ⟨hx, -, hrx, -⟩ := Shape.balanced_red.1 hb
    obtain ⟨j, z, w, rfl, hz, -⟩ := hx.exists_black .left hrx
    rw [rootPtr_join, childlessBelow_cons h.down, childlessBelow_nil, h.down.down.childlessP,
      hz.childless, true_orM, some_orM, Bool.or_true]

theorem checkDeep_eq (h : t.At k (.join d c i x y)) (hx : x.Balanced n) (hy : y.Balanced n) :
    t.checkDeep (.node i) d = some () := by
  have htwo := h.down.twochildrenP
  have hch := h.swapSides.down.childlessP
  have hbelow (ds : List Dir) : t.childlessBelow (.node i) (d.other :: ds) =
    t.childlessBelow (rootPtr y) ds := childlessBelow_cons h.swapSides
  simp only [checkDeep, hbelow, childlessBelow_nil, hch, h.child, Option.bind_eq_bind,
    Option.bind_some, htwo]
  rcases n with - | - | n
  · rw [hy.childless]
    simp
  · rw [childlessBelow_one h.swapSides.down hy]
    simp
  · rw [hx.twochildren]
    simp

theorem checkFather_eq (hops : ops.Lawful) (h : t.At k (.join d c i x y))
    (hl : (plug k (.join d c i x y)).elems.Pairwise ops.Lt) : t.checkFather ops i = some () := by
  have hhole := h.child_hole
  rw [rootPtr_join] at hhole
  rw [checkFather]
  simp only [h.father, h.position, h.root_eq_iff, Option.bind_eq_bind, Option.bind_some]
  cases k with
  | nil =>
    rw [if_pos rfl]
    simp only [holeFather, holeSide] at hhole ⊢
    simp [hhole]
  | cons f k =>
    rw [if_neg (List.cons_ne_nil f k)]
    have hlt : f.dir.before ops.Lt i f.val := by
      rw [elems_plug f.dir, beside_cons_other, Frame.rest] at hl
      refine (Dir.pairwise_cat.1 (Dir.pairwise_cat.1 hl).2.1).2.2 i ?_ f.val ?_
      · rw [Shape.elems_join]
        simp
      · simp
    simp only [holeFather, holeSide] at hhole ⊢
    obtain ⟨e, c', b, z⟩ := f
    cases e with
    | left =>
      have hdiff : ops.compareNodes i b < 0 := hlt
      simp [hhole, hdiff]
    | right =>
      have hdiff : 0 < ops.compareNodes i b := (hops.flip b i).1 hlt
      simp [hhole, hdiff]

theorem tailqNext_append {xs ys : List ι} (h : i ∉ xs) :
    tailqNext i (xs ++ i :: ys) = ys.head? := by
  induction xs with
  | nil => exact if_pos rfl
  | cons a xs ih =>
    rw [List.mem_cons, not_or] at h
    rw [List.cons_append, tailqNext, if_neg (Ne.symm h.1), ih h.2]

theorem checkLink_eq (hw : t.Wf s) (hi : i ∈ s.elems) : t.checkLink i = some () := by
  obtain ⟨xs, ys, he⟩ := List.append_of_mem hi
  have hn : s.elems.Nodup := (List.append_nil s.elems ▸ hw.shape.nodup :)
  rw [he, List.nodup_append', List.nodup_cons] at hn
  have hprev : t.rbTreeIterate t.turns (.node i) .left = some (optPtr xs.getLast?) :=
    hw.iterate_eq (d := .left) he
  have hnext : t.rbTreeIterate t.turns (.node i) .right = some (optPtr ys.head?) :=
    hw.iterate_eq (d := .right) (r := xs) (by rw [he]; simp [Dir.cat])
  have htn : tailqNext i t.link = ys.head? := by
    rw [hw.link, he]
    exact tailqNext_append fun h ↦ hn.2.2 h List.mem_cons_self
  have htp : tailqPrev i t.link = xs.getLast? := by
    rw [hw.link, he, tailqPrev, List.reverse_append, List.reverse_cons, List.append_assoc,
      List.singleton_append, tailqNext_append, List.head?_reverse]
    rw [List.mem_reverse]
    exact hn.2.1.1
  have hmin (hx : xs = []) : t.minmax .left = .node i := by
    refine hw.minmax .left i ?_
    rw [he, hx]
    rfl
  have hmax (hy : ys = []) : t.minmax .right = .node i := by
    refine hw.minmax .right i ?_
    rw [he, hy]
    exact List.getLast?_concat
  simp only [checkLink, hprev, hnext, Option.bind_eq_bind, Option.bind_some, nodeToItem_optPtr, htn,
    htp]
  by_cases hx : xs = [] <;> by_cases hy : ys = [] <;> simp [hx, hy, hmin, hmax]

theorem checkRed_eq (h : t.At k (.join d true i x y)) (hb : (Shape.join d true i x y).Balanced n)
    (hk : Holed n k) (hm : mayRed k = true) : t.checkRed (.node i) = some () := by
  obtain ⟨hx, hy, hrx, hry⟩ := Shape.balanced_red.1 hb
  cases k with
  | nil => cases hm
  | cons f k =>
    have hsib := at_turn.1 h
    have hfather := (at_cons.1 h).blackP
    have hfr : f.red = false := by simpa [mayRed] using hm
    rw [Frame.fill, rootPtr_join, Shape.red_join, hfr] at hfather
    have hroot : t.root ≠ .node i := mt h.root_eq_iff.1 (List.cons_ne_nil f k)
    have hch := h.childlessP
    have htw := h.twochildrenP
    rw [rootPtr_join] at hch htw
    obtain ⟨hs, -⟩ := (holed_black hfr).1 hk
    simp only [checkRed, h.father, h.position, holeFather, holeSide, Option.bind_eq_bind,
      Option.bind_some, h.child_head_other, hfather, hsib.redP, hsib.childlessP, hch, htw,
      hsib.blackP, hsib.twochildrenP, h.nephewsBlack]
    cases n with
    | zero =>
      rw [hs.childless]
      simp [hroot, hx.eq_leaf hrx, hy.eq_leaf hry, Shape.isLeaf]
    | succ n =>
      cases hsr : f.sib.red with
      | false => simp [hroot, hx.isLeaf, hy.isLeaf, hrx, hry]
      | true =>
        obtain ⟨b, p, q, hj⟩ := Shape.exists_of_red .left hsr
        rw [hj] at hs hsib
        obtain ⟨hp, hq, hrp, hrq⟩ := Shape.balanced_red.1 hs
        rw [hj, rootPtr_join, hsib.nephewsBlack]
        simp [hroot, hx.isLeaf, hy.isLeaf, hrx, hry, hp.isLeaf, hq.isLeaf, hrp, hrq]

/-- A black node with one child, which is red. -/
theorem onlyRed_or (h : t.At k (.join .left false i x y)) (hx : x.Balanced n) (hy : y.Balanced n) :
    (t.childlessP (.node i) <||> t.twochildrenP (.node i) <||> t.onlyRed (.node i) .left <||>
      t.onlyRed (.node i) .right) = some true := by
  have hch := h.childlessP
  have htw := h.twochildrenP
  have hcr : t.child (.node i) .right = some (rootPtr y) := h.child_other
  rw [rootPtr_join] at hch htw
  simp only [hch, htw, onlyRed, h.child, hcr, Dir.other, h.down.redP, h.down.childlessP,
    h.swapSides.down.redP, h.swapSides.down.childlessP, Option.bind_eq_bind, Option.bind_some]
  cases n with
  | zero =>
    cases hrx : x.red <;> cases hry : y.red
    · simp [hx.eq_leaf hrx, hy.eq_leaf hry, Shape.isLeaf]
    · obtain ⟨b, rfl⟩ := hy.eq_single hry
      simp [hx.eq_leaf hrx, Shape.isLeaf, Shape.childless, rootPtr]
    · obtain ⟨b, rfl⟩ := hx.eq_single hrx
      simp [hy.eq_leaf hry, Shape.isLeaf, Shape.childless, rootPtr]
    · obtain ⟨b, rfl⟩ := hy.eq_single hry
      obtain ⟨b, rfl⟩ := hx.eq_single hrx
      simp [Shape.isLeaf]
  | succ n => simp [hx.isLeaf, hy.isLeaf]

/-- The second item from a black leaf, away from it past its father. -/
theorem iterate_relative (h : t.At (f :: k) (.join d false i .leaf .leaf))
    (hs : f.sib.isLeaf = false)
    (hf : (plug (f :: k) (.join d false i .leaf .leaf)).depth ≤ t.turns) :
    ∃ a, t.rbTreeIterate t.turns (.node i) f.dir.other = some (.node f.val) ∧
      t.rbTreeIterate t.turns (.node f.val) f.dir.other = some (.node a) ∧
      t.child (.node a) f.dir = some .null := by
  have he : Shape.join d false i .leaf .leaf = .join f.dir.other false i .leaf .leaf := by
    cases d <;> cases f.dir <;> rfl
  have hfather : t.At k (.join f.dir.other f.red f.val f.sib (.join d false i .leaf .leaf)) :=
    (at_cons.1 h).swapSides
  have hd : (plug k (.join f.dir.other f.red f.val f.sib (.join d false i .leaf .leaf))).depth ≤
      t.turns := by
    rw [Shape.join_other]
    exact hf
  obtain ⟨a, ha, hc⟩ := iterate_end hfather hs hd
  rw [Dir.other_other] at hc
  refine ⟨a, ?_, ha, hc⟩
  rw [he] at h hf
  rw [rbTreeIterate_node h hf, Shape.elems, Dir.first_nil, Dir.other_other, first_beside]
  rfl

theorem checkBlack_eq (h : t.At k (.join .left false i x y)) (hx : x.Balanced n)
    (hy : y.Balanced n) (hk : Holed (n + 1) k)
    (hf : (plug k (.join .left false i x y)).depth ≤ t.turns) :
    t.checkBlack (.node i) = some () := by
  rw [checkBlack, onlyRed_or h hx hy]
  by_cases hroot : t.root = .node i
  · simp [hroot]
  · obtain ⟨f, k, rfl⟩ : ∃ f k', k = f :: k' := by
      cases k with
      | nil => exact absurd (h.root_eq_iff.2 rfl) hroot
      | cons f k => exact ⟨f, k, rfl⟩
    have hch := h.childlessP
    rw [rootPtr_join, Shape.childless_join] at hch
    have hfather := (at_cons.1 h).blackP
    rw [Frame.fill, rootPtr_join, Shape.red_join] at hfather
    cases hlx : x.isLeaf && y.isLeaf with
    | false => simp [hroot, hch, hlx]
    | true =>
      obtain ⟨hlx, hly⟩ := Bool.and_eq_true_iff.1 hlx
      obtain rfl := Shape.isLeaf_eq_true.1 hlx
      obtain rfl := Shape.isLeaf_eq_true.1 hly
      obtain ⟨a, ha, hb, hc⟩ := iterate_relative h hk.1.isLeaf hf
      cases hr : f.red with
      | true =>
        simp [hroot, hch, h.father, holeFather, hfather, hr, Shape.isLeaf]
      | false =>
        simp [hroot, hch, h.father, holeFather, hfather, hr, Shape.isLeaf, h.position, holeSide, ha,
          hb, hc]

/-- The grandfather of a node has two children. -/
theorem checkGrandfather (h : t.At k (.join d c i x y)) (hb : (Shape.join d c i x y).Balanced n)
    (hk : Holed n k) (hm : c = true → mayRed k = true) :
    (some (decide (t.root = .node i)) <||> (t.father (.node i)).map (t.root = ·) <||>
      (do t.twochildrenP (← t.father (← t.father (.node i))))) = some true := by
  match k, h, hk, hm with
  | [], h, _, _ => simp [h.root_eq_iff]
  | [f], h, _, _ => simp [h.father, holeFather, (at_cons.1 h : t.At [] (.join ..)).root_eq_iff]
  | f :: g :: k, h, hk, hm =>
    have hf : t.At (g :: k) (.join f.dir f.red f.val (.join d c i x y) f.sib) := at_cons.1 h
    have hg := (at_cons.1 hf).twochildrenP
    rw [Frame.fill, rootPtr_join, Shape.twochildren_join,
      Shape.isLeaf_eq_false.2 Shape.join_ne_leaf] at hg
    have hsib : g.sib.isLeaf = false := by
      cases hfr : f.red with
      | false => exact ((holed_black hfr).1 hk).2.1.isLeaf
      | true =>
        obtain ⟨-, -, -, hk⟩ := (holed_red hfr).1 hk
        cases c with
        | true => rw [mayRed, hfr] at hm; cases hm rfl
        | false =>
          obtain ⟨m, rfl, -⟩ := Shape.balanced_black.1 hb
          exact hk.1.isLeaf
    simp only [h.father, holeFather, Option.bind_eq_bind, Option.bind_some, hf.father, hg, hsib,
      Option.map_some, some_orM]
    simp

theorem redCheckNode_eq (hw : t.Wf s) (hi : i ∈ s.elems) : t.redCheckNode (.node i) = some () := by
  obtain ⟨k, c, x, y, rfl⟩ := exists_plug_of_mem hi
  have h : t.At k (.join .left c i x y) := at_plug.2 hw.shape
  obtain ⟨n, hk, hb, hm⟩ := isRedBlack_plug.1 hw.redBlack
  have hf := hw.depth_lt_turns
  have hd := length_add_depth_le k (.node c i x y)
  have hcount := countBlack_eq h hb (Nat.lt_of_le_of_lt (Nat.le_of_add_left_le hd) hf)
  have hred := h.redP
  have hblack := h.blackP
  have htwo := h.twochildrenP
  rw [rootPtr_join] at hcount hred hblack htwo
  obtain ⟨m, hx, hy⟩ : ∃ m, x.Balanced m ∧ y.Balanced m := by
    cases c with
    | true => exact ⟨n, hb.1, hb.2.1⟩
    | false =>
      obtain ⟨m, -, hx, hy⟩ := hb
      exact ⟨m, hx, hy⟩
  have hsides : t.checkSide (.node i) .left = some () ∧ t.checkSide (.node i) .right = some () :=
    ⟨checkSide_eq h hx hy, checkSide_eq h.swapSides hy hx⟩
  have hdeep : t.checkDeep (.node i) .left = some () ∧ t.checkDeep (.node i) .right = some () :=
    ⟨checkDeep_eq h hx hy, checkDeep_eq h.swapSides hy hx⟩
  have hrootblack : (some (decide (t.root ≠ .node i)) <||> t.blackP (.node i)) = some true := by
    cases c with
    | false => rw [hblack]; simp
    | true =>
      have hroot : t.root ≠ .node i := fun he ↦ by
        rw [h.root_eq_iff.1 he] at hm
        cases hm rfl
      simp [hroot]
  have hcolour : t.checkColour (.node i) = some () := by
    rw [checkColour, hred]
    cases c with
    | true => exact checkRed_eq h hb hk (hm rfl)
    | false =>
      obtain ⟨m, rfl, hx, hy⟩ := hb
      exact checkBlack_eq h hx hy hk hf.le
  have hinterior (hlx : x.isLeaf = false) (hly : y.isLeaf = false) :
      t.checkInterior (.node i) .left = some () ∧ t.checkInterior (.node i) .right = some () :=
    ⟨checkInterior_eq h hlx hf.le, checkInterior_eq h.swapSides hly hf.le⟩
  rw [redCheckNode, hrootblack, hcount, checkGrandfather h hb hk hm]
  simp only [kassert_true, Option.bind_eq_bind, Option.bind_some, hcolour, hsides, hdeep, htwo,
    Shape.twochildren_join]
  cases hlx : x.isLeaf with
  | true => rfl
  | false =>
    cases hly : y.isLeaf with
    | true => rfl
    | false =>
      obtain ⟨hl, hr⟩ := hinterior hlx hly
      rw [hl, hr]
      rfl

/-! ## The check of a tree -/

theorem rbTreeCheckNode_eq (hops : ops.Lawful) (hw : t.Wf s) (hl : s.elems.Pairwise ops.Lt)
    (hi : i ∈ s.elems) (redCheck : Bool) : t.rbTreeCheckNode ops i none redCheck = some () := by
  have hlink := checkLink_eq hw hi
  have hred := redCheckNode_eq hw hi
  obtain ⟨k, c, x, y, rfl⟩ := exists_plug_of_mem hi
  have h : t.At k (.join .left c i x y) := at_plug.2 hw.shape
  cases redCheck <;> simp [rbTreeCheckNode, checkFather_eq hops h hl, hlink, hred]

omit [DecidableEq ι] in
theorem forM_eq {l : List ι} {g : ι → Option Unit} (h : ∀ a ∈ l, g a = some ()) :
    l.forM g = some () := by
  induction l with
  | nil => rfl
  | cons a l ih =>
    have hrest := ih fun b hb ↦ h b (List.mem_cons_of_mem a hb)
    rw [List.forM_eq_forM] at hrest ⊢
    rw [List.forM_cons, h a List.mem_cons_self, Option.bind_eq_bind, Option.bind_some, hrest]

/-- All assertions hold where there is a root. -/
theorem Holds.check (hops : ops.Lawful) (h : t.Holds ops S) (redCheck : Bool) :
    t.rbTreeCheck ops redCheck = some () ↔ S.Nonempty := by
  obtain ⟨s, hw, hl, hS⟩ := h
  have hroot := hw.shape.root
  rw [plug_nil] at hroot
  by_cases hs : s = .leaf
  · subst hs
    refine iff_of_false ?_ ?_
    · rw [rbTreeCheck, hroot]
      intro h
      cases h
    · rintro ⟨i, hi⟩
      exact List.not_mem_nil ((hS i).2 hi)
  · obtain ⟨c, i, x, y, rfl⟩ := Shape.exists_join .left hs
    have hnode (red : Bool) : t.link.forM (fun j ↦ t.rbTreeCheckNode ops j none red) = some () := by
      rw [hw.link]
      exact forM_eq fun j hj ↦ rbTreeCheckNode_eq hops hw hl hj red
    have hi : i ∈ (Shape.join .left c i x y).elems := by
      rw [Shape.elems_join]
      simp
    refine iff_of_true ?_ ⟨i, (hS i).1 hi⟩
    obtain ⟨hblack, n, hb⟩ := hw.redBlack
    have hcount := countBlack_eq hw.shape hb hw.depth_lt_turns
    have hredP := hw.shape.blackP
    have hn : n ≠ 0 := by
      rintro rfl
      exact hs (hb.eq_leaf hblack)
    rw [hblack, rootPtr_join] at hredP
    rw [rootPtr_join] at hroot hcount
    cases redCheck <;>
      simp [rbTreeCheck, hroot, hw.shape.position, holeSide, hnode, hredP, hcount, hn]

/-- After any legal calls, in any order, the check of the tree finds all its assertions to hold, if
there are items in the tree at all. -/
theorem check_run_iff (hops : ops.Lawful) (t : RbTree ι) (as : List (Op ι κ))
    (hl : Op.LegalRun ops ∅ as) (redCheck : Bool) :
    ∃ t' rs, t.rbTreeInit.run ops as = some (t', rs) ∧
      (t'.rbTreeCheck ops redCheck = some () ↔ (Op.afterRun ops ∅ as).Nonempty) := by
  obtain ⟨t', rs, hrun, -, h⟩ := (holds_init t).run hops hl
  exact ⟨t', rs, hrun, h.check hops redCheck⟩

theorem check_run_iff_numbers :
    ∃ t' rs, zeros.rbTreeInit.run (.byKey id) numberCalls = some (t', rs) ∧
      (t'.rbTreeCheck (.byKey id) true = some () ↔
        (Op.afterRun (.byKey id) ∅ numberCalls).Nonempty) :=
  check_run_iff (RbTreeOps.byKey_lawful id) zeros numberCalls (by
    simp [numberCalls, Op.LegalRun, Op.Legal, Op.after, RbTreeOps.byKey_nodes_eq_zero]) true

end RbTree

end Mh.Rb
