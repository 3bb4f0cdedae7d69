import Mh.Rb.Shape

/-!
# Rebalancing after an insertion

A red node below a red father is the only fault of a tree that `rb_tree_insert_rebalance` gets.  As
long as the uncle is red it moves the fault up by two levels, and otherwise one or two rotations
remove it.  The order of the items does not change.
-/

namespace Mh.Rb.RbTree

open Lib.RedBlack

variable {ι : Type} {t : RbTree ι} {d : Dir} {c : Bool} {i : ι} {s x y : Shape ι} {k : Way ι}
  {f g : Frame ι} {n fuel : Nat} {l : List ι}

/-- The tree after a step, with the same items, is a red-black tree again. -/
def Settled (t : RbTree ι) (l : List ι) (o : Option (RbTree ι)) : Prop :=
  ∃ t' s, o = some t' ∧ t'.At [] s ∧ IsRedBlack s ∧ s.elems = l ∧ Keeps t t'

/-- What is settled after some other change is settled. -/
theorem Settled.of_keeps {t' : RbTree ι} {o : Option (RbTree ι)} (h : Settled t' l o)
    (ht : Keeps t t') : Settled t l o := by
  obtain ⟨u, s, ho, hs, hb, hl, hu⟩ := h
  exact ⟨u, s, ho, hs, hb, hl, ht.trans hu⟩

variable [DecidableEq ι]

/-- The side on which a father is of its own father. -/
theorem At.which (h : t.At (f :: g :: k) s) :
    (if Ptr.node f.val = (t.cell g.val).nodes .right then Dir.right else .left) = g.dir := by
  have h' := at_cons.1 h
  have hne := h'.rootPtr_ne_sib Shape.join_ne_leaf
  rw [h'.cell_head]
  rw [Frame.fill, rootPtr_join] at hne ⊢
  cases hd : g.dir with
  | left => exact if_neg hne
  | right => exact if_pos rfl

/-- Once a black subtree of the right height is in the hole, all that is left to do is to mark the
root. -/
theorem At.mark_root (h : t.At k s) (hk : Holed n k) (hs : s.Balanced n) (hr : s.red = false)
    (hne : s ≠ .leaf) (hl : (plug k s).elems = l) : Settled t l (t.mark t.root false) := by
  have hb : IsRedBlack (plug k s) := hk.isRedBlack hs fun h ↦ by rw [hr] at h; cases h
  obtain ⟨c, i, x, y, hp⟩ := Shape.exists_join .left (plug_ne_leaf hne)
  have h' := at_plug.1 h
  rw [h.root]
  rw [hp] at h' hb hl ⊢
  obtain rfl : c = false := hb.1
  obtain ⟨t', ht', hat, hk⟩ := h'.mark false
  rw [rootPtr_join]
  exact ⟨t', _, ht', hat, hb, hl, hk⟩

/-- Cases 2 and 3: the uncle is black. -/
theorem insertTurn_settled (h : t.At (f :: g :: k) s) (hs : s.Balanced n) (hr : s.red = true)
    (hk : Holed n (f :: g :: k)) (hf : f.red = true) (hg : g.red = false)
    (hu : g.sib.red = false) :
    Settled t (plug (f :: g :: k) s).elems
      (t.insertTurn (rootPtr s) (.node f.val) (.node g.val) g.dir) := by
  obtain ⟨e, _, a, u⟩ := f
  obtain ⟨d, _, b, v⟩ := g
  obtain ⟨i, x, y, rfl⟩ := Shape.exists_of_red d.other hr
  dsimp only at hf hg hu
  subst hf hg
  obtain ⟨hus, hub, -, hkg⟩ := (holed_red rfl).1 hk
  obtain ⟨hvs, hk₀⟩ := (holed_black rfl).1 hkg
  dsimp only at hus hub hvs
  obtain ⟨hx, hy, hxb, hyb⟩ := Shape.balanced_red.1 hs
  have hne := h.rootPtr_ne_sib Shape.join_ne_leaf
  rw [rootPtr_join] at hne
  rcases Dir.eq_or_eq_other d e with rfl | rfl
  · -- case 3 at once
    have hc := h.child_head_other
    have h₀ : t.At k (.join e false b (.join e true a (.join e.other true i x y) u) v) :=
      at_cons.1 (at_cons.1 h)
    obtain ⟨t₁, ht₁, h₁, hk₁⟩ := h₀.reparent
    have hrun : t.insertTurn (rootPtr (.join e.other true i x y)) (.node a) (.node b) e =
        t₁.mark t₁.root false := by
      simp only [insertTurn, hc, Option.bind_eq_bind, Option.bind_some, rootPtr_join, if_neg hne,
        Option.pure_def, ht₁]
    have hbal : (Shape.join e false a (.join e.other true i x y) (.join e true b u v)).Balanced
        (n + 1) :=
      Shape.balanced_black_succ.2 ⟨hs, Shape.balanced_red.2 ⟨hus, hvs, hub, hu⟩⟩
    rw [hrun]
    refine (h₁.mark_root hk₀ hbal (Shape.red_join _ _ _ _ _) Shape.join_ne_leaf ?_).of_keeps hk₁
    refine elems_plug_congr ?_
    simp [Frame.fill]
  · -- case 2 comes first
    have hc := h.child_hole
    have h₀ : t.At (⟨d, false, b, v⟩ :: k) (.join d.other true a (.join d.other true i x y) u) :=
      at_cons.1 h
    obtain ⟨t₁, ht₁, h₁, hk₁⟩ := h₀.reparent
    have h₁' : t₁.At k (.join d false b (.join d true i (.join d.other true a y u) x) v) := by
      have h := at_cons.1 h₁
      rwa [Frame.fill, Shape.join_other d true i] at h
    obtain ⟨t₂, ht₂, h₂, hk₂⟩ := h₁'.reparent
    have hrun : t.insertTurn (rootPtr (.join d.other true i x y)) (.node a) (.node b) d =
        t₂.mark t₂.root false := by
      rw [holeFather, holeSide] at hc
      simp only [insertTurn, hc, Option.bind_eq_bind, Option.bind_some, if_true, ht₁, ht₂]
    have hbal : (Shape.join d false i (.join d.other true a y u) (.join d true b x v)).Balanced
        (n + 1) :=
      Shape.balanced_black_succ.2 ⟨Shape.balanced_red.2 ⟨hy, hus, hyb, hub⟩,
        Shape.balanced_red.2 ⟨hx, hvs, hxb, hu⟩⟩
    rw [hrun]
    refine ((h₂.mark_root hk₀ hbal (Shape.red_join _ _ _ _ _) Shape.join_ne_leaf ?_).of_keeps
      hk₂).of_keeps hk₁
    refine elems_plug_congr ?_
    simp [Frame.fill, Dir.cat_other]

/-- Case 1: the uncle is red, and goes black with the father. -/
theorem At.flip (h : t.At (f :: g :: k) s) (hu : g.sib.red = true) :
    ∃ t₁ t₂, t.mark (rootPtr g.sib) false = some t₁ ∧ t₁.mark (.node f.val) false = some t₂ ∧
      t₂.At k (.join g.dir g.red g.val (.join f.dir false f.val s f.sib) (g.sib.paint false)) ∧
      Keeps t t₂ := by
  obtain ⟨d, c, b, v⟩ := g
  obtain ⟨j, x, y, rfl⟩ : ∃ j x y, v = .join .left true j x y := Shape.exists_of_red .left hu
  have h₀ : t.At (Frame.turn ⟨d, c, b, .join .left true j x y⟩ (f.fill s) :: k)
      (.join .left true j x y) := at_turn.1 (at_cons.1 h)
  obtain ⟨t₁, ht₁, h₁, hk₁⟩ := h₀.mark false
  have h₁' : t₁.At (⟨d, c, b, .join .left false j x y⟩ :: k) (f.fill s) := at_turn.2 h₁
  obtain ⟨t₂, ht₂, h₂, hk₂⟩ := h₁'.mark false
  refine ⟨t₁, t₂, ?_, ht₂, ?_, hk₁.trans hk₂⟩
  · rwa [rootPtr_join]
  · rw [Shape.paint_join]
    exact at_cons.1 h₂

theorem insertLoop_settled (h : t.At (f :: k) s) (hs : s.Balanced n) (hr : s.red = true)
    (hk : Holed n (f :: k)) (hf : f.red = true) (hfuel : (f :: k).length ≤ fuel) :
    Settled t (plug (f :: k) s).elems (insertLoop fuel t (rootPtr s) (.node f.val)) := by
  induction fuel generalizing t f k s n with
  | zero => cases hfuel
  | succ fuel ih =>
    obtain ⟨hfs, hfb, hm, hkf⟩ := (holed_red hf).1 hk
    cases k with
    | nil => cases hm
    | cons g k =>
      have hg : g.red = false := by simpa [mayRed] using hm
      obtain ⟨hgs, hkg⟩ := (holed_black hg).1 hkf
      have hfather : t.father (.node f.val) = some (.node g.val) := by
        rw [father_node, h.cell_head]
        rfl
      have huncle := (at_cons.1 h).child_head_other
      have hblack := (at_turn.1 (at_cons.1 h)).blackP
      rw [insertLoop]
      simp only [hfather, child_node (d := .right), h.which, huncle, hblack, Option.bind_eq_bind,
        Option.bind_some]
      cases hu : g.sib.red with
      | false =>
        rw [Bool.not_false, if_pos rfl]
        exact insertTurn_settled h hs hr hk hf hg hu
      | true =>
        obtain ⟨t₁, t₂, ht₁, ht₂, h₂, hk₂⟩ := h.flip hu
        simp only [ht₁, ht₂, Option.bind_some, Bool.not_true, Bool.false_eq_true, if_false,
          h₂.root_eq_iff, Option.pure_def]
        have hfb' := Shape.balanced_black_succ (d := f.dir) (a := f.val).2 ⟨hs, hfs⟩
        have hgb := hgs.paint_black hu
        have he (c : Bool) : (plug k (.join g.dir c g.val (.join f.dir false f.val s f.sib)
            (g.sib.paint false))).elems = (plug (f :: g :: k) s).elems :=
          elems_plug_congr (by simp [Frame.fill])
        cases k with
        | nil =>
          rw [if_pos rfl]
          refine ⟨t₂, _, rfl, h₂, ⟨?_, n + 1 + 1, ?_⟩, he _, hk₂⟩
          · rw [Shape.red_join, hg]
          · rw [hg]
            exact Shape.balanced_black_succ.2 ⟨hfb', hgb⟩
        | cons f' k =>
          obtain ⟨t₃, ht₃, h₃, hk₃⟩ := h₂.mark true
          have hb : t₃.blackP (.node f'.val) = some !f'.red := by
            rw [RbTree.blackP, redP_node, h₃.cell_head, Option.map_some]
          have hbal := Shape.balanced_red (d := g.dir) (a := g.val).2
            ⟨hfb', hgb, Shape.red_join _ _ _ _ _, Shape.red_paint⟩
          simp only [ht₃, Option.bind_some, h₃.father, holeFather, hb]
          rw [if_neg (List.cons_ne_nil _ _)]
          cases hf' : f'.red with
          | false =>
            refine ⟨t₃, _, rfl, at_plug.1 h₃, hkg.isRedBlack hbal fun _ ↦ ?_, he _, hk₂.trans hk₃⟩
            rw [mayRed, hf', Bool.not_false]
          | true =>
            have := ih h₃ hbal (Shape.red_join _ _ _ _ _) hkg hf' (by simp at hfuel ⊢; omega)
            rw [he, rootPtr_join] at this
            exact (this.of_keeps hk₃).of_keeps hk₂

/-! ## The new leaf -/

/-- A tree in memory, with its least and its greatest item and the list of its items. -/
structure Wf (t : RbTree ι) (s : Shape ι) : Prop where
  shape : t.At [] s
  redBlack : IsRedBlack s
  minmax : ∀ d i, d.first s.elems = some i → t.minmax d = .node i
  link : t.link = s.elems

omit [DecidableEq ι] in
theorem Settled.wf {o : Option (RbTree ι)} (h : Settled t l o)
    (hm : ∀ d i, d.first l = some i → t.minmax d = .node i) (hl : t.link = l) :
    ∃ t' s, o = some t' ∧ t'.Wf s ∧ s.elems = l := by
  obtain ⟨t', s, ho, hat, hb, rfl, hk⟩ := h
  exact ⟨t', s, ho, ⟨hat, hb, fun d i hi ↦ hk.minmax ▸ hm d i hi, hk.link.trans hl⟩, rfl⟩

/-- The state before the rebalancing. -/
def planted (t : RbTree ι) (i : ι) (link : List ι) : Way ι → RbTree ι
  | [] =>
    { (t.put i ⟨pair .left .null .null, .tree, .left, false⟩).relink [] (.node i) with
      minmax := fun _ ↦ .node i, link }
  | f :: k =>
    { (t.put i ⟨pair .left .null .null, .node f.val, f.dir, true⟩).relink (f :: k) (.node i) with
      minmax := if .node f.val = t.minmax f.dir then Function.update t.minmax f.dir (.node i)
        else t.minmax
      link }

theorem insertAt_nil (h : t.At [] .leaf) :
    t.insertAt fuel i .tree .left = some (t.planted i (i :: t.link) []) := by
  have hr : t.root = .null := h.root
  simp [insertAt, planted, setFather, setPosition, RbTree.mark, linkNode, child, setChild, hr,
    relink, put, update_left_right]

theorem insertAt_cons (h : t.At (f :: k) .leaf) (hi : i ∉ Way.elems (f :: k)) :
    t.insertAt fuel i (.node f.val) f.dir =
      let link := if f.dir = .left then insertBefore f.val i t.link else insertAfter f.val i t.link
      let u := t.planted i link (f :: k)
      if f.red then u.rbTreeInsertRebalance fuel (.node i) else some u := by
  have hne : f.val ≠ i := fun e ↦ hi (e ▸ List.mem_cons_self)
  have hf := h.cell_head
  have hr : t.root ≠ .node i := by
    intro he
    have hm := (perm_elems_plug (f :: k) .leaf).mem_iff.1 (mem_elems_of_rootPtr (h.root ▸ he))
    exact hi hm
  obtain ⟨d, c, a, s⟩ := f
  simp [insertAt, planted, setFather, setPosition, RbTree.mark, linkNode, hne, hne.symm, hr,
    relink, put, update_left_right, hf]
  cases d <;> rfl

/-- The new leaf is in the hole, and red unless it is the root. -/
theorem At.planted (h : t.At k .leaf) (hi : i ∉ Way.elems k) (link : List ι) :
    (t.planted i link k).At k (.node (!k.isEmpty) i .leaf .leaf) := by
  cases k with
  | nil => exact (h.plant hi false).congr rfl rfl
  | cons f k => exact (h.plant hi true).congr rfl rfl

theorem insertBefore_append {a b : ι} {xs ys : List ι} (h : a ∉ xs) :
    insertBefore a b (xs ++ a :: ys) = xs ++ b :: a :: ys := by
  induction xs with
  | nil => exact if_pos rfl
  | cons c xs ih =>
    rw [List.mem_cons, not_or] at h
    rw [List.cons_append, insertBefore, if_neg (Ne.symm h.1), ih h.2]
    rfl

theorem insertAfter_append {a b : ι} {xs ys : List ι} (h : a ∉ xs) :
    insertAfter a b (xs ++ a :: ys) = xs ++ a :: b :: ys := by
  induction xs with
  | nil => exact if_pos rfl
  | cons c xs ih =>
    rw [List.mem_cons, not_or] at h
    rw [List.cons_append, insertAfter, if_neg (Ne.symm h.1), ih h.2]
    rfl

/-- The list with the new item next to its father. -/
theorem link_planted {b : ι} (hn : (plug (f :: k) .leaf).elems.Nodup) :
    (if f.dir = .left then insertBefore f.val b (plug (f :: k) .leaf).elems
      else insertAfter f.val b (plug (f :: k) .leaf).elems) =
      f.dir.cat (beside f.dir (f :: k)) (f.dir.cat [b] (beside f.dir.other (f :: k))) := by
  rw [elems_plug f.dir, beside_cons_other, Frame.rest] at hn ⊢
  obtain ⟨d, c, a, s⟩ := f
  rw [Dir.cat_assoc, Shape.elems, Dir.nil_cat] at hn ⊢
  simp only [Dir.nodup_cat, Dir.mem_cat, List.mem_singleton] at hn
  cases d with
  | left => exact (if_pos rfl).trans (insertBefore_append fun h ↦ hn.2.2 a h (.inl rfl))
  | right =>
    refine (if_neg Dir.noConfusion).trans ?_
    simp only [Dir.cat, List.append_assoc, List.singleton_append]
    rw [← List.append_assoc, insertAfter_append, List.append_assoc]
    · rfl
    · rw [List.mem_append, or_comm]
      exact hn.2.1.2.2 a rfl

/-- The new item is the least or the greatest one if its father has been that, on its side. -/
theorem minmax_planted (hn : (plug k .leaf).elems.Nodup)
    (hm : ∀ d a, d.first (plug k .leaf).elems = some a → t.minmax d = .node a) {e : Dir} {a : ι}
    (ha : e.first (plug k (.node true i .leaf .leaf)).elems = some a) :
    (t.planted i l k).minmax e = .node a := by
  cases k with
  | nil =>
    rw [plug_nil, Shape.elems, Shape.elems] at ha
    rw [show [] ++ i :: [] = [i] from rfl, Dir.first_singleton] at ha
    exact congrArg Ptr.node (Option.some.inj ha)
  | cons f k =>
    have hmf := hm f.dir
    have hmo := hm f.dir.other
    rw [elems_plug f.dir, Shape.elems, Dir.nil_cat] at hn hmf hmo
    rw [elems_plug f.dir, Shape.elems, Shape.elems] at ha
    have hfirst := first_beside f k
    have hmem := Dir.mem_of_first hfirst
    simp only [Dir.nodup_cat] at hn
    have hval {d : Dir} : (t.planted i l (f :: k)).minmax d =
        (if .node f.val = t.minmax f.dir then Function.update t.minmax f.dir (.node i)
          else t.minmax) d := rfl
    rw [hval]
    rcases Dir.eq_or_eq_other f.dir e with rfl | rfl
    · rw [Dir.first_cat, Dir.first_cat, List.nil_append, Dir.first_singleton] at ha
      rw [Dir.first_cat, hfirst] at hmf
      cases hb : f.dir.first (beside f.dir (f :: k)) with
      | none =>
        rw [hb] at ha hmf
        rw [if_pos (hmf f.val rfl).symm, Function.update_self]
        exact congrArg Ptr.node (Option.some.inj ha)
      | some b =>
        rw [hb] at ha hmf
        rw [if_neg, hmf b rfl]
        · exact congrArg Ptr.node (Option.some.inj ha)
        · rw [hmf b rfl]
          intro he
          cases he
          exact hn.2.2 _ (Dir.mem_of_first hb) hmem
    · -- the other end is beyond the father
      obtain ⟨b, hb⟩ : ∃ b, f.dir.other.first (beside f.dir.other (f :: k)) = some b :=
        Option.ne_none_iff_exists'.1 fun h ↦ by rw [Dir.first_eq_none.1 h] at hmem; cases hmem
      have hab : b = a := by
        rw [Dir.first_other_cat, Dir.first_other_cat, hb] at ha
        exact Option.some.inj ha
      have hold : t.minmax f.dir.other = .node b := hmo b (by rw [Dir.first_other_cat, hb]; rfl)
      rw [← hab, ← hold]
      split_ifs
      · exact Function.update_of_ne f.dir.other_ne _ _
      · rfl

/-- `rb_tree_insert_node`, where the item is new. -/
theorem insertAt_wf (hw : t.Wf (plug k .leaf)) (hi : i ∉ Way.elems k) (hf : k.length ≤ fuel) :
    ∃ t' s, t.insertAt fuel i (holeFather k) (holeSide k) = some t' ∧ t'.Wf s ∧
      s.elems = (plug k (.node true i .leaf .leaf)).elems := by
  have hat := at_plug.2 hw.shape
  have hn := (perm_elems_plug k .leaf).nodup_iff.2 hat.nodup
  have hmm {l : List ι} {d : Dir} {a : ι} :=
    minmax_planted (i := i) (l := l) (e := d) (a := a) hn hw.minmax
  obtain ⟨n, hk, hn0, -⟩ := isRedBlack_plug.1 hw.redBlack
  obtain rfl : n = 0 := hn0
  have hsingle : (Shape.node true i .leaf .leaf).Balanced 0 := ⟨rfl, rfl, rfl, rfl⟩
  cases k with
  | nil =>
    have hp := hat.planted hi (i :: t.link)
    refine ⟨_, _, insertAt_nil hat, ⟨hp, ⟨rfl, 1, 0, rfl, rfl, rfl⟩, fun d a ha ↦ hmm ha, ?_⟩, rfl⟩
    exact congrArg (i :: ·) hw.link
  | cons f k =>
    rw [holeFather, holeSide, insertAt_cons hat hi, hw.link, link_planted hn]
    have hp := hat.planted hi (f.dir.cat (beside f.dir (f :: k))
      (f.dir.cat [i] (beside f.dir.other (f :: k))))
    have hl : (plug (f :: k) (.node true i .leaf .leaf)).elems = f.dir.cat (beside f.dir (f :: k))
        (f.dir.cat [i] (beside f.dir.other (f :: k))) := elems_plug f.dir _ _
    cases hr : f.red with
    | false =>
      refine ⟨_, _, if_neg Bool.false_ne_true, ⟨at_plug.1 hp, ?_, fun d a ha ↦ hmm ha, hl.symm⟩,
        rfl⟩
      refine hk.isRedBlack hsingle fun _ ↦ ?_
      rw [mayRed, hr, Bool.not_false]
    | true =>
      have hs := insertLoop_settled hp hsingle rfl hk hr hf
      rw [if_pos rfl, rbTreeInsertRebalance, hp.father (d := .left)]
      exact hs.wf (fun d a ha ↦ hmm ha) hl.symm

end Mh.Rb.RbTree
