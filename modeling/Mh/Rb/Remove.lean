import Mh.Rb.Insert

/-!
# Rebalancing after a removal

`rb_tree_removal_rebalance` is called for a subtree, which may be empty, whose black height is less
by one than that of its brother.  It passes the fault on to the father where the brother can go red,
and otherwise removes it with three rotations at most.
-/

namespace Mh.Rb.RbTree

open Lib.RedBlack

variable {ι : Type} [DecidableEq ι] {t : RbTree ι} {d : Dir} {c : Bool} {a b : ι}
  {s p q : Shape ι} {k : Way ι} {f : Frame ι} {n fuel : Nat} {l : List ι}

/-- Case 4: the far nephew is red. -/
theorem At.removal_last (h : t.At (⟨d, c, a, .join d false b p q⟩ :: k) s) (hs : s.Balanced n)
    (hp : p.Balanced n) (hq : q.Balanced n) (hr : q.red = true)
    (hk : Holed (n + 1) (⟨d, c, a, .join d false b p q⟩ :: k)) :
    ∃ t₁, t.mark (rootPtr q) false = some t₁ ∧
      Settled t (plug (⟨d, c, a, .join d false b p q⟩ :: k) s).elems
        (t₁.rbTreeReparentNodes (.node a) d.other) := by
  obtain ⟨e, u, v, rfl⟩ := Shape.exists_of_red .left hr
  -- down to the nephew
  have h₀ : t.At (⟨d.other, false, b, p⟩ :: ⟨d.other, c, a, s⟩ :: k) (.join .left true e u v) := by
    rw [at_cons, Frame.fill, Shape.join_other]
    exact at_turn.1 h
  obtain ⟨t₁, ht₁, h₁, hk₁⟩ := h₀.mark false
  have h₁' : t₁.At k (.join d.other c a (.join d.other false b (.join .left false e u v) p) s) :=
    at_cons.1 (at_cons.1 h₁)
  obtain ⟨t₂, ht₂, h₂, hk₂⟩ := h₁'.reparent
  rw [rootPtr_join]
  refine ⟨t₁, ht₁, t₂, _, ht₂, at_plug.1 h₂, ?_, elems_plug_congr ?_, hk₁.trans hk₂⟩
  · have hfar : (Shape.join .left false e u v).Balanced (n + 1) := by
      have := hq.paint_black hr
      rwa [Shape.paint_join] at this
    have hnear : (Shape.join d.other false a p s).Balanced (n + 1) :=
      Shape.balanced_black_succ.2 ⟨hp, hs⟩
    cases c with
    | true =>
      obtain ⟨-, -, hm, hk⟩ := (holed_red rfl).1 hk
      refine hk.isRedBlack (Shape.balanced_red.2 ⟨hfar, hnear, ?_, ?_⟩) fun _ ↦ hm
      · exact Shape.red_join _ _ _ _ _
      · exact Shape.red_join _ _ _ _ _
    | false =>
      obtain ⟨-, hk⟩ := (holed_black rfl).1 hk
      refine hk.isRedBlack (Shape.balanced_black_succ.2 ⟨hfar, hnear⟩) fun h ↦ ?_
      rw [Shape.red_join] at h
      cases h
  · simp [Frame.fill, Dir.cat_other]

omit [DecidableEq ι] in
/-- `RB_BLACK_P` of the children. -/
theorem At.blackP_children (h : t.At k (.join d c b p q)) :
    t.blackP (rootPtr p) = some !p.red ∧ t.blackP (rootPtr q) = some !q.red := by
  refine ⟨(at_cons (f := ⟨d, c, b, q⟩).2 h).blackP, ?_⟩
  have hq : t.At k (Frame.fill ⟨d.other, c, b, p⟩ q) := by rwa [Frame.fill, Shape.join_other]
  exact (at_cons.2 hq).blackP

omit [DecidableEq ι] in
theorem At.nephewsBlack (h : t.At k (.join d c b p q)) :
    t.nephewsBlack (.node b) = some (!p.red && !q.red) := by
  obtain ⟨hpb, hqb⟩ := h.blackP_children
  have hp := h.child
  have hq := h.child_other
  cases d with
  | left => simp only [RbTree.nephewsBlack, hp, show t.child (.node b) .right = _ from hq, hpb, hqb,
      Option.bind_eq_bind, Option.bind_some, Option.pure_def]
  | right => simp only [RbTree.nephewsBlack, hp, show t.child (.node b) .left = _ from hq, hpb, hqb,
      Option.bind_eq_bind, Option.bind_some, Option.pure_def, Bool.and_comm]

/-- Cases 2b, 3 and 4: the brother is black, and a nephew is red unless the father is. -/
theorem removalTurn_settled (h : t.At (⟨d, c, a, .join d false b p q⟩ :: k) s) (hs : s.Balanced n)
    (hp : p.Balanced n) (hq : q.Balanced n)
    (hk : Holed (n + 1) (⟨d, c, a, .join d false b p q⟩ :: k))
    (hc : p.red = false → q.red = false → c = true) :
    Settled t (plug (⟨d, c, a, .join d false b p q⟩ :: k) s).elems
      (t.removalTurn (.node a) d (.node b)) := by
  have hbro : t.At (⟨d.other, c, a, s⟩ :: k) (.join d false b p q) := at_turn.1 h
  have hfa : t.redP (.node a) = some c := by rw [redP_node, h.cell_head]
  have hbb : t.blackP (.node b) = some true := by
    rw [← rootPtr_join d false b p q, hbro.blackP, Shape.red_join, Bool.not_false]
  rw [removalTurn]
  simp only [hfa, hbb, hbro.nephewsBlack, hbro.child_other, hbro.blackP_children.2,
    Option.bind_eq_bind, Option.bind_some, Option.pure_def]
  cases hq' : q.red with
  | true =>
    -- case 4 at once
    obtain ⟨t₁, ht₁, hset⟩ := h.removal_last hs hp hq hq' hk
    simp only [Bool.not_true, Bool.and_false, Bool.false_eq_true, if_false, ht₁,
      Option.bind_some]
    exact hset
  | false =>
    cases hp' : p.red with
    | true =>
      -- case 3 comes first
      obtain ⟨e, u, v, rfl⟩ := Shape.exists_of_red d hp'
      obtain ⟨hu, hv, hub, hvb⟩ := Shape.balanced_red.1 hp
      obtain ⟨t₁, ht₁, h₁, hk₁⟩ := hbro.reparent
      have h₁' : t₁.At (⟨d, c, a, .join d false e u (.join d true b v q)⟩ :: k) s := at_turn.2 h₁
      have hfar := Shape.balanced_red (d := d) (a := b).2 ⟨hv, hq, hvb, hq'⟩
      have hk' : Holed (n + 1) (⟨d, c, a, .join d false e u (.join d true b v q)⟩ :: k) :=
        hk.sib (Shape.balanced_black_succ.2 ⟨hu, hfar⟩) (Shape.red_join _ _ _ _ _)
      obtain ⟨t₂, ht₂, hset⟩ := h₁'.removal_last hs hu hfar
        (Shape.red_join _ _ _ _ _) hk'
      have hchild := h₁'.child_head_other
      dsimp only at hchild
      rw [rootPtr_join] at hchild
      simp only [Bool.not_true, Bool.not_false, Bool.false_and, Bool.and_false,
        Bool.false_eq_true, if_false, if_true, ht₁, Option.bind_some, hchild, h₁.child_other, ht₂]
      have he : (plug (⟨d, c, a, .join d false e u (.join d true b v q)⟩ :: k) s).elems =
          (plug (⟨d, c, a, .join d false b (.join d true e u v) q⟩ :: k) s).elems :=
        elems_plug_congr (k := k) (by simp [Frame.fill])
      exact he ▸ hset.of_keeps hk₁
    | false =>
      -- case 2b
      obtain rfl := hc hp' hq'
      obtain ⟨t₁, ht₁, h₁, hk₁⟩ := (at_cons.1 h).mark false
      have h₁' : t₁.At (⟨d.other, false, a, s⟩ :: k) (.join d false b p q) := by
        rw [at_cons, Frame.fill, Shape.join_other]
        exact h₁
      obtain ⟨t₂, ht₂, h₂, hk₂⟩ := h₁'.mark true
      simp only [Bool.not_false, Bool.and_self, if_true, ht₁, Option.bind_some, ht₂]
      obtain ⟨-, -, hm, hk⟩ := (holed_red rfl).1 hk
      refine ⟨t₂, _, rfl, at_plug.1 (at_cons.1 h₂), ?_, elems_plug_congr ?_, hk₁.trans hk₂⟩
      · have hbro' := Shape.balanced_red (d := d) (a := b).2 ⟨hp, hq, hp', hq'⟩
        exact hk.isRedBlack (Shape.balanced_black_succ.2 ⟨hbro', hs⟩) fun _ ↦ hm
      · simp [Frame.fill, Dir.cat_other]

theorem removalRebalance_settled (h : t.At (f :: k) s) (hs : s.Balanced n) (hb : s.red = false)
    (hk : Holed (n + 1) (f :: k)) (hfuel : (f :: k).length ≤ fuel) :
    Settled t (plug (f :: k) s).elems (rbTreeRemovalRebalance fuel t (.node f.val) f.dir) := by
  induction fuel generalizing t f k s n with
  | zero => cases hfuel
  | succ fuel ih =>
    obtain ⟨d, c, a, v⟩ := f
    have hhole : t.child (.node a) d = some (rootPtr s) := h.child_hole
    have hred : t.redP (rootPtr s) = some false := hb ▸ h.redP
    have hbro : t.child (.node a) d.other = some (rootPtr v) := h.child_head_other
    have hfa : t.blackP (.node a) = some !c := by
      rw [RbTree.blackP, redP_node, h.cell_head, Option.map_some]
    have hv : v.Balanced (n + 1) := hk.1
    rw [rbTreeRemovalRebalance]
    simp only [hhole, hred, hbro, hfa, Option.bind_eq_bind, Option.bind_some, Bool.false_eq_true,
      if_false]
    cases hvr : v.red with
    | true =>
      -- case 1, and the new brother is black
      obtain ⟨b, p, q, rfl⟩ := Shape.exists_of_red d hvr
      obtain ⟨hp, hq, hpb, hqb⟩ := Shape.balanced_red.1 hv
      have hc : c = false := by
        refine Bool.eq_false_iff.2 fun hc ↦ ?_
        rw [(hk.2.1 hc).1] at hvr
        cases hvr
      subst hc
      have hneph : t.nephewsBlack (.node b) = some (!p.red && !q.red) :=
        (at_turn.1 h).nephewsBlack
      have hbr : t.redP (.node b) = some true := by
        rw [← rootPtr_join d true b p q, (at_turn.1 h).redP, Shape.red_join]
      have h₀ : t.At k (.join d.other false a (.join d.other true b q p) s) := by
        have h := at_cons.1 h
        rwa [Frame.fill, ← Shape.join_other, ← Shape.join_other d true] at h
      obtain ⟨t₁, ht₁, h₁, hk₁⟩ := h₀.reparent
      have h₁' : t₁.At (⟨d, true, a, p⟩ :: ⟨d, false, b, q⟩ :: k) s := by
        rw [at_cons, at_cons, Frame.fill, Frame.fill, ← Shape.join_other, ← Shape.join_other d true]
        exact h₁
      obtain ⟨-, hk₀⟩ := (holed_black rfl).1 hk
      have hk' : Holed (n + 1) (⟨d, true, a, p⟩ :: ⟨d, false, b, q⟩ :: k) :=
        (holed_red rfl).2 ⟨hp, hpb, rfl, (holed_black rfl).2 ⟨hq, hk₀⟩⟩
      have hchild : t₁.child (.node a) d.other = some (rootPtr p) := h₁'.child_head_other
      have he : (plug (⟨d, true, a, p⟩ :: ⟨d, false, b, q⟩ :: k) s).elems =
          (plug (⟨d, false, a, .join d true b p q⟩ :: k) s).elems :=
        elems_plug_congr (k := k) (by simp [Frame.fill])
      rw [rootPtr_join]
      simp only [hneph, hpb, hqb, hbr, Bool.not_false, Bool.and_self, Option.bind_some, if_true,
        ht₁, hchild]
      obtain ⟨e, u, w, rfl, hu, hw⟩ := hp.exists_black d hpb
      rw [rootPtr_join]
      exact he ▸ (removalTurn_settled h₁' hs hu hw hk' fun _ _ ↦ rfl).of_keeps hk₁
    | false =>
      obtain ⟨b, p, q, rfl, hp, hq⟩ := hv.exists_black d hvr
      have hneph : t.nephewsBlack (.node b) = some (!p.red && !q.red) :=
        (at_turn.1 h).nephewsBlack
      have hbr : t.redP (.node b) = some false := by
        rw [← rootPtr_join d false b p q, (at_turn.1 h).redP, Shape.red_join]
      rw [rootPtr_join]
      simp only [hneph, hbr, Option.bind_some, Bool.false_eq_true, if_false]
      by_cases hall : c = false ∧ p.red = false ∧ q.red = false
      · -- all are black: the brother goes red
        obtain ⟨rfl, hpb, hqb⟩ := hall
        obtain ⟨-, hk₀⟩ := (holed_black rfl).1 hk
        obtain ⟨t₁, ht₁, h₁, hk₁⟩ := At.mark (at_turn.1 h) true
        have h₁' : t₁.At k (.join d.other false a (.join d true b p q) s) := at_cons.1 h₁
        have hbal : (Shape.join d.other false a (.join d true b p q) s).Balanced (n + 1) :=
          Shape.balanced_black_succ.2 ⟨Shape.balanced_red.2 ⟨hp, hq, hpb, hqb⟩, hs⟩
        have he : (plug k (.join d.other false a (.join d true b p q) s)).elems =
            (plug (⟨d, false, a, .join d false b p q⟩ :: k) s).elems :=
          elems_plug_congr (k := k) (by simp [Frame.fill, Dir.cat_other])
        simp only [hpb, hqb, Bool.not_false, Bool.and_self, if_true, ht₁, Option.bind_some,
          h₁'.root_eq_iff, h₁'.father, h₁'.position, Option.pure_def]
        cases k with
        | nil =>
          rw [if_pos rfl]
          exact ⟨t₁, _, rfl, h₁', ⟨Shape.red_join _ _ _ _ _, n + 1, hbal⟩, he, hk₁⟩
        | cons g k =>
          rw [if_neg (List.cons_ne_nil _ _), ← he]
          refine (ih h₁' hbal (Shape.red_join _ _ _ _ _) hk₀ ?_).of_keeps hk₁
          rw [List.length_cons] at hfuel
          omega
      · have hcond : (!c && (!p.red && !q.red)) = false := by
          revert hall
          cases c <;> cases p.red <;> cases q.red <;> simp
        rw [hcond, if_neg Bool.false_ne_true]
        refine removalTurn_settled h hs hp hq hk fun hpb hqb ↦ ?_
        simpa [hpb, hqb] using hall

end Mh.Rb.RbTree

/-!
## Removal

A node with one child at most is cut out of the tree.  For a node with two children, the item next
to it, on the side away from its father, is cut out and takes its place.
-/

namespace Mh.Rb.RbTree

open Lib.RedBlack

variable {ι : Type} [DecidableEq ι] {t : RbTree ι} {d : Dir} {c : Bool} {i j : ι}
  {s x y : Shape ι} {k : Way ι} {f : Frame ι} {n fuel : Nat} {l : List ι}

/-! ## The ends of the list -/

/-- A list with an item, and what is on the sides of the item. -/
structure Around (l : List ι) (i : ι) (z : Dir → List ι) : Prop where
  eq : ∀ e : Dir, l = e.cat (z e) (e.cat [i] (z e.other))
  nodup : l.Nodup

theorem Around.erase_eq {z : Dir → List ι} (h : Around l i z) (e : Dir) :
    l.erase i = e.cat (z e) (z e.other) := by
  have hn := h.nodup
  have hl := h.eq .left
  rw [hl] at hn
  have hi : i ∉ z .left := by
    rw [Dir.nodup_cat] at hn
    intro hm
    exact hn.2.2 i hm (Dir.mem_cat.2 (.inl (List.mem_singleton_self i)))
  have he : l.erase i = Dir.left.cat (z .left) (z .right) := by
    rw [hl]
    refine (List.erase_append_right _ hi).trans (congrArg _ ?_)
    exact List.erase_cons_head _ _
  cases e with
  | left => exact he
  | right => exact he

omit [DecidableEq ι] in
/-- The item is at an end if nothing is beyond it. -/
theorem Around.minmax_iff {z : Dir → List ι} (h : Around l i z)
    (hm : ∀ d a, d.first l = some a → t.minmax d = .node a) (e : Dir) :
    t.minmax e = .node i ↔ z e = [] := by
  have hf := hm e
  have hn := h.nodup
  rw [h.eq e] at hf hn
  rw [Dir.first_cat, Dir.first_cat, Dir.first_singleton] at hf
  rw [Dir.nodup_cat] at hn
  constructor
  · intro hi
    cases hz : e.first (z e) with
    | none => exact Dir.first_eq_none.1 hz
    | some b =>
      rw [hz] at hf
      rw [hf b rfl] at hi
      cases hi
      exact absurd (Dir.mem_cat.2 (.inl (List.mem_singleton_self i)))
        (hn.2.2 i (Dir.mem_of_first hz))
  · intro hz
    rw [hz, Dir.first_nil] at hf
    exact hf i rfl

/-- The ends of the list without the item. -/
theorem Around.minmax_erase {z : Dir → List ι} (h : Around l i z) {m : Dir → Ptr ι}
    (hm : ∀ d a, d.first l = some a → t.minmax d = .node a)
    (hkeep : ∀ e, z e ≠ [] → m e = t.minmax e)
    (hnew : ∀ e a, z e = [] → e.first (z e.other) = some a → m e = .node a) {e : Dir} {a : ι}
    (ha : e.first (l.erase i) = some a) : m e = .node a := by
  rw [h.erase_eq e, Dir.first_cat] at ha
  by_cases hz : z e = []
  · rw [hz, Dir.first_nil] at ha
    exact hnew e a hz ha
  · obtain ⟨b, hb⟩ := Option.ne_none_iff_exists'.1 fun hf ↦ hz (Dir.first_eq_none.1 hf)
    rw [hb] at ha
    rw [hkeep e hz]
    refine hm e a ?_
    rw [h.eq e, Dir.first_cat, hb]
    exact ha

omit [DecidableEq ι] in
/-- The list of the items around a node of the tree. -/
theorem around_join (h : t.At k (.join d c i x y)) :
    Around (plug k (.join d c i x y)).elems i fun e ↦
      e.cat (beside e k) (if e = d then x else y).elems := by
  refine ⟨fun e ↦ ?_, (perm_elems_plug k _).nodup_iff.2 h.nodup⟩
  rw [elems_plug e]
  rcases Dir.eq_or_eq_other d e with rfl | rfl
  · rw [if_pos rfl, if_neg e.other_ne, Shape.elems_join]
    simp [Dir.cat_other]
  · rw [if_neg d.other_ne, Dir.other_other, if_pos rfl, ← Shape.join_other, Shape.elems_join]
    simp [Dir.cat_other]

/-! ## Childless nodes -/

omit [DecidableEq ι] in
theorem around_leaf (h : t.At k (.node c i .leaf .leaf)) :
    Around (plug k (.node c i .leaf .leaf)).elems i fun e ↦ beside e k := by
  have ha := around_join (d := .left) h
  simp only [ite_self, Shape.elems, Dir.cat_nil] at ha
  exact ha

/-- The ends of the list after `rb_tree_prune_node`. -/
def prunedEnds (t : RbTree ι) (i : ι) (k : Way ι) : Dir → Ptr ι :=
  if t.minmax (holeSide k) = .node i then
    let minmax := Function.update t.minmax (holeSide k) (holeFather k)
    if k = [] then Function.update minmax .right (holeFather k) else minmax
  else t.minmax

theorem rbTreePruneNode_eq (h : t.At k (.node c i .leaf .leaf)) (fuel : Nat) (rebalance : Bool) :
    ∃ u : RbTree ι, u.At k .leaf ∧ u.minmax = t.prunedEnds i k ∧ u.link = t.link.erase i ∧
      t.rbTreePruneNode fuel i rebalance =
        if rebalance then rbTreeRemovalRebalance fuel u (holeFather k) (holeSide k)
        else some u := by
  have hat : t.At k (.join .left c i .leaf .leaf) := h
  have hcut := hat.cut c
  have hi : i ∉ (.leaf : Shape ι).elems ++ Way.elems k := (List.nodup_cons.1 h.nodup).1
  let u : RbTree ι :=
    { t.relink k .null with minmax := t.prunedEnds i k, link := t.link.erase i }
  have hu : u.At k .leaf := hcut.congr rfl rfl
  refine ⟨_, hu.put_of_notMem (n := { u.cell i with father := .null }) hi, rfl, rfl, ?_⟩
  simp [rbTreePruneNode, hat.position, hat.father, hat.child, setChild_hole, unlinkNode, setFather,
    hat.root_eq_iff, u, prunedEnds]

theorem prunedEnds_eq (h : Around l i fun e ↦ beside e k)
    (hm : ∀ d a, d.first l = some a → t.minmax d = .node a) {e : Dir} {a : ι}
    (ha : e.first (l.erase i) = some a) : t.prunedEnds i k e = .node a := by
  refine h.minmax_erase hm ?_ ?_ ha
  · intro e hz
    cases k with
    | nil => exact absurd rfl hz
    | cons f k =>
      rw [prunedEnds, if_neg (List.cons_ne_nil f k)]
      split_ifs with hi
      · refine Function.update_of_ne ?_ _ _
        rintro rfl
        exact hz ((h.minmax_iff hm _).1 hi)
      · rfl
  · intro e a hz hb
    cases k with
    | nil =>
      rw [beside, Dir.first_nil] at hb
      cases hb
    | cons f k =>
      obtain rfl := dir_eq_of_beside_eq_nil hz
      rw [first_beside] at hb
      rw [prunedEnds, if_neg (List.cons_ne_nil f k), holeSide, if_pos ((h.minmax_iff hm _).2 hz),
        Function.update_self]
      exact congrArg Ptr.node (Option.some.inj hb)

/-- `rb_tree_prune_node`. -/
theorem rbTreePruneNode_wf (hw : t.Wf (plug k (.node c i .leaf .leaf))) (hf : k.length ≤ fuel) :
    ∃ t' s, t.rbTreePruneNode fuel i (!c && !k.isEmpty) = some t' ∧ t'.Wf s ∧
      s.elems = (plug k (.node c i .leaf .leaf)).elems.erase i := by
  have hat := at_plug.2 hw.shape
  have har := around_leaf hat
  obtain ⟨u, hu, hum, hul, hrun⟩ := rbTreePruneNode_eq hat fuel (!c && !k.isEmpty)
  have hl : (plug k .leaf).elems = (plug k (.node c i .leaf .leaf)).elems.erase i := by
    rw [har.erase_eq .left]
    exact elems_plug .left k _
  have hends {d : Dir} {a : ι} (ha : d.first ((plug k (.node c i .leaf .leaf)).elems.erase i) =
      some a) : u.minmax d = .node a := by
    rw [hum]
    exact prunedEnds_eq har hw.minmax ha
  obtain ⟨n, hk, hbal, hred⟩ := isRedBlack_plug.1 hw.redBlack
  rw [hrun]
  cases k with
  | nil =>
    refine ⟨u, .leaf, by simp, ⟨hu, .leaf, fun d a ha ↦ ?_, ?_⟩, hl⟩
    · exact hends (hl ▸ ha)
    · rw [hul, hw.link]
      exact hl.symm
  | cons f k =>
    cases c with
    | true =>
      obtain rfl : n = 0 := hbal.1
      refine ⟨u, _, by simp, ⟨at_plug.1 hu, ?_, fun d a ha ↦ ?_, ?_⟩, hl⟩
      · exact hk.isRedBlack rfl fun h ↦ by cases h
      · exact hends (hl ▸ ha)
      · rw [hul, hl, hw.link]
    | false =>
      obtain ⟨m, rfl, hm, -⟩ := hbal
      obtain rfl : m = 0 := hm
      have hs := removalRebalance_settled hu (n := 0) rfl rfl hk hf
      rw [hl] at hs
      exact hs.wf (fun d a ha ↦ hends ha) (by rw [hul, hw.link])

/-! ## Nodes with one child -/

/-- The ends of the list after `rb_tree_prune_blackred_branch`. -/
def branchEnds (t : RbTree ι) (i j : ι) (d : Dir) (k : Way ι) : Dir → Ptr ι :=
  if k = [] then Function.update t.minmax d.other (.node j)
  else if t.minmax (holeSide k) = .node i then Function.update t.minmax (holeSide k) (.node j)
  else t.minmax

theorem rbTreePruneBlackredBranch_eq (h : t.At k (.join d c i (.join d true j x y) .leaf)) :
    ∃ u : RbTree ι, u.At k (.join d c j x y) ∧ u.minmax = t.branchEnds i j d k ∧
      u.link = t.link.erase i ∧ t.rbTreePruneBlackredBranch i d = some u := by
  have hcut := h.cut c
  have hap := h.nodup
  simp only [Shape.elems_join, Dir.nodup_cat, List.nodup_append', List.Disjoint, Dir.mem_cat,
    List.mem_singleton] at hap
  have hi : i ∉ (Shape.join d c j x y).elems ++ Way.elems k := by
    simp only [Shape.elems_join, List.mem_append, Dir.mem_cat, List.mem_singleton]
    grind
  have hij : i ≠ j := by grind
  have hik : i ∉ Way.elems k := by grind
  have hjk : j ∉ Way.elems k := by grind
  rw [Shape.paint_join, rootPtr_join] at hcut
  let u : RbTree ι := { (t.relink k (.node j)).graft (.node j) (holeFather k) (holeSide k) c with
    minmax := t.branchEnds i j d k, link := t.link.erase i }
  have hu : u.At k (.join d c j x y) := hcut.congr rfl rfl
  refine ⟨_, hu.put_of_notMem (n := { u.cell i with father := .null }) hi, rfl, rfl, ?_⟩
  have hson := h.child
  rw [rootPtr_join] at hson
  simp [rbTreePruneBlackredBranch, h.father, hson, setChild_hole, unlinkNode,
    setFather, copyProperties, h.root_eq_iff, u, branchEnds, h.cell, relink_put hjk, put_put,
    graft, put_cell_of_ne hij, relink_cell_of_notMem hik, relink_cell_of_notMem hjk]

theorem branchEnds_eq
    (h : Around l i fun e ↦ e.cat (beside e k) (if e = d then .node true j .leaf .leaf
      else .leaf : Shape ι).elems)
    (hm : ∀ d a, d.first l = some a → t.minmax d = .node a) {e : Dir} {a : ι}
    (ha : e.first (l.erase i) = some a) : t.branchEnds i j d k e = .node a := by
  refine h.minmax_erase hm ?_ ?_ ha
  · intro e hz
    rw [branchEnds]
    split_ifs with hk hi
    · subst hk
      refine Function.update_of_ne ?_ _ _
      rintro rfl
      rw [if_neg d.other_ne] at hz
      exact hz (Dir.cat_nil _ _)
    · refine Function.update_of_ne ?_ _ _
      rintro rfl
      exact hz ((h.minmax_iff hm _).1 hi)
    · rfl
  · intro e a hz hb
    rcases Dir.eq_or_eq_other d e with rfl | rfl
    · rw [if_pos rfl] at hz
      cases (Dir.cat_eq_nil.1 hz).2
    · have hi := (h.minmax_iff hm _).2 hz
      rw [if_neg d.other_ne, Shape.elems, Dir.cat_nil] at hz
      rw [Dir.other_other, if_pos rfl, Dir.first_other_cat] at hb
      have hj : t.branchEnds i j d k d.other = .node j := by
        rw [branchEnds]
        cases k with
        | nil => rw [if_pos rfl, Function.update_self]
        | cons f k =>
          rw [dir_eq_of_beside_eq_nil hz] at hi ⊢
          rw [if_neg (List.cons_ne_nil f k), holeSide, if_pos hi, Function.update_self]
      rw [hj]
      cases d <;> exact congrArg Ptr.node (Option.some.inj hb)

/-- `rb_tree_prune_blackred_branch`. -/
theorem rbTreePruneBlackredBranch_wf (hw : t.Wf (plug k (.join d c i s .leaf))) (hs : s ≠ .leaf) :
    ∃ t' s', t.rbTreePruneBlackredBranch i d = some t' ∧ t'.Wf s' ∧
      s'.elems = (plug k (.join d c i s .leaf)).elems.erase i := by
  have hat := at_plug.2 hw.shape
  obtain ⟨n, hk, hbal, -⟩ := isRedBlack_plug.1 hw.redBlack
  -- the node is black, and the child is red
  obtain ⟨rfl, rfl, j, rfl⟩ : c = false ∧ n = 1 ∧ ∃ j, s = .node true j .leaf .leaf := by
    cases c with
    | true =>
      obtain ⟨hs', rfl, hb, -⟩ := Shape.balanced_red.1 hbal
      exact absurd (hs'.eq_leaf hb) hs
    | false =>
      obtain ⟨m, rfl, hs', rfl⟩ := Shape.balanced_black.1 hbal
      refine ⟨rfl, rfl, hs'.eq_single ?_⟩
      exact eq_true_of_ne_false fun hb ↦ hs (hs'.eq_leaf hb)
  have hat' : t.At k (.join d false i (.join d true j .leaf .leaf) .leaf) := by
    cases d <;> exact hat
  have har := around_join hat
  obtain ⟨u, hu, hum, hul, hrun⟩ := rbTreePruneBlackredBranch_eq hat'
  have hl : (plug k (.join d false j .leaf .leaf)).elems =
      (plug k (.join d false i (.node true j .leaf .leaf) .leaf)).elems.erase i := by
    rw [har.erase_eq d, elems_plug d, if_pos rfl, if_neg d.other_ne, Shape.elems_join]
    simp [Shape.elems]
  refine ⟨u, _, hrun, ⟨at_plug.1 hu, ?_, fun e a ha ↦ ?_, ?_⟩, hl⟩
  · exact hk.isRedBlack (Shape.balanced_black_succ.2 ⟨rfl, rfl⟩) fun h ↦ by
      rw [Shape.red_join] at h
      cases h
  · rw [hum]
    exact branchEnds_eq har hw.minmax (hl ▸ ha)
  · rw [hul, hl, hw.link]

end Mh.Rb.RbTree
