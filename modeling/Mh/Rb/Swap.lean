import Mh.Rb.Search
import Mh.Rb.Remove

/-!
# Removal of a node with two children

The item next to the node, the standin, is cut out of the tree, with the only son it can have put in
its place.  It then gets the children and the place of the node.
-/

namespace Mh.Rb.RbTree

open Lib.RedBlack

variable {ι : Type} [DecidableEq ι] {t v : RbTree ι} {d : Dir} {c c' : Bool} {i j : ι}
  {s x y : Shape ι} {k kin : Way ι} {fuel : Nat} {fa : Ptr ι}

/-- A subtree moves from one node to another. -/
theorem moveSon_eq (hi : (t.cell i).nodes d = rootPtr s) (hj : j ∉ s.elems)
    (hs : t.SubAt fa d s) (hn : s.elems.Nodup) (hne : s ≠ .leaf) :
    ∃ v, t.moveSon i (.node j) d = some v ∧ v.SubAt (.node j) d s ∧
      v.cell j = { t.cell j with nodes := Function.update (t.cell j).nodes d (rootPtr s) } ∧
      (∀ a, a ≠ j → a ∉ s.elems → v.cell a = t.cell a) ∧ v.root = t.root ∧ Keeps t v := by
  obtain ⟨e, b, l, r, rfl⟩ : ∃ e b l r, s = .node e b l r := by
    cases s with
    | leaf => exact absurd rfl hne
    | node e b l r => exact ⟨e, b, l, r, rfl⟩
  have hb : b ∈ (Shape.node e b l r).elems := List.mem_append_right _ List.mem_cons_self
  have hbj : b ≠ j := fun h ↦ hj (h ▸ hb)
  let u := t.put j { t.cell j with nodes := Function.update (t.cell j).nodes d (.node b) }
  have hu : u.SubAt fa d (.node e b l r) := hs.congr fun a ha ↦ put_cell_of_ne fun h ↦ hj (h ▸ ha)
  have hpos : (t.cell b).position = d := congrArg RbNode.position hs.1
  refine ⟨u.adopt (.node b) (.node j) d, ?_, hu.adopt hn, ?_, ?_, rfl, ⟨rfl, rfl⟩⟩
  · rw [rootPtr] at hi
    simp [moveSon, hi, setFather, adopt, u, put_cell_of_ne hbj, hpos]
  · exact (adopt_cell_of_notMem (s := .node e b l r) hj).trans put_cell_self
  · intro a haj ha
    exact (adopt_cell_of_notMem (s := .node e b l r) ha).trans (put_cell_of_ne haj)

/-- The standin, with the children of the node already, gets its place. -/
theorem takePlace_eq (hi : (t.cell i).father = holeFather k ∧ (t.cell i).position = holeSide k ∧
      (t.cell i).red = c) (hij : i ≠ j)
    (hj : (t.cell j).nodes = pair d (rootPtr x) (rootPtr y)) (hx : t.SubAt (.node j) d x)
    (hy : t.SubAt (.node j) d.other y) (hk : t.PathAt k (.node i))
    (hn : ((Shape.join d c j x y).elems ++ Way.elems k).Nodup) :
    ∃ v, t.takePlace i (.node j) = some v ∧ v.At k (.join d c j x y) ∧ Keeps t v ∧
      (i ∉ Way.elems k → v.cell i = t.cell i) := by
  have hap := hn
  simp only [Shape.elems_join, Dir.nodup_cat, List.nodup_append', List.Disjoint, Dir.mem_cat,
    List.mem_singleton] at hap
  let u := t.put j ⟨pair d (rootPtr x) (rootPtr y), holeFather k, holeSide k, c⟩
  refine ⟨u.relink k (.node j), ?_, ⟨?_, subAt_join.2 ⟨?_, ?_, ?_⟩, hn⟩, ⟨?_, ?_⟩, ?_⟩
  · simp [takePlace, copyProperties, setFather, put_put, hj, hi, put_cell_of_ne hij,
      setChild_hole, u]
  · rw [rootPtr_join]
    refine PathAt.relink (hk.congr rfl fun a ha ↦ put_cell_of_ne ?_) (by grind)
    grind
  · rw [relink_cell_of_notMem (by grind), put_cell_self]
  · refine hx.congr fun a ha ↦ ?_
    rw [relink_cell_of_notMem (by grind), put_cell_of_ne (by grind)]
  · refine hy.congr fun a ha ↦ ?_
    rw [relink_cell_of_notMem (by grind), put_cell_of_ne (by grind)]
  · exact relink_minmax
  · exact relink_link
  · intro hik
    rw [relink_cell_of_notMem hik, put_cell_of_ne hij]

/-- The standin is a child of the node: it gets the other one. -/
theorem At.swap_near (h : t.At (⟨d, c, i, y⟩ :: k) (.join d c' j s .leaf)) (hy : y ≠ .leaf) :
    ∃ v u, t.moveSon i (.node j) d.other = some v ∧ v.takePlace i (.node j) = some u ∧
      u.At (⟨d, c, j, y⟩ :: k) s ∧ Keeps t u := by
  obtain ⟨hp, hsub, hn⟩ := at_cons.1 h
  rw [Frame.fill, rootPtr_join] at hp
  obtain ⟨hi, hsub, hsy⟩ := subAt_join.1 hsub
  obtain ⟨hj, hs, -⟩ := subAt_join.1 hsub
  have hap := hn
  simp only [Frame.fill, Shape.elems_join, Dir.nodup_cat, List.nodup_append', List.Disjoint,
    Dir.mem_cat, List.mem_singleton] at hap
  have hiy : (t.cell i).nodes d.other = rootPtr y := by
    rw [hi]
    exact pair_other
  obtain ⟨v, hv, hvy, hvj, hva, hvr, hvk⟩ := moveSon_eq (j := j) hiy (by grind) hsy (by grind) hy
  have hvi : v.cell i = t.cell i := hva i (by grind) (by grind)
  obtain ⟨u, hu, huat, huk, -⟩ := takePlace_eq (t := v) (d := d) (k := k) (c := c) (i := i) (j := j)
    (x := s) (y := y) ⟨by rw [hvi, hi], by rw [hvi, hi], by rw [hvi, hi]⟩ (by grind)
    (by rw [hvj, hj]; exact update_pair_other) (hs.congr fun a ha ↦ hva a (by grind) (by grind)) hvy
    (hp.congr hvr fun a ha ↦ hva a (by grind) (by grind)) (by
      simp only [Shape.elems_join, Dir.nodup_cat, List.nodup_append', List.Disjoint, Dir.mem_cat,
        List.mem_singleton]
      grind)
  exact ⟨v, u, hv, hu, at_cons.2 huat, hvk.trans huk⟩

/-- The standin is out of the tree: it gets both children. -/
theorem At.swap_far (h : t.At k (.join d c i x y))
    (hj : j ∉ (Shape.join d c i x y).elems ++ Way.elems k) (hx : x ≠ .leaf) (hy : y ≠ .leaf) :
    ∃ v w u, t.moveSon i (.node j) d = some v ∧ v.moveSon i (.node j) d.other = some w ∧
      w.takePlace i (.node j) = some u ∧ u.At k (.join d c j x y) ∧ Keeps t u := by
  obtain ⟨hp, hsub, hn⟩ := h
  rw [rootPtr_join] at hp
  obtain ⟨hi, hsx, hsy⟩ := subAt_join.1 hsub
  have hap := hn
  simp only [Shape.elems_join, Dir.nodup_cat, List.nodup_append', List.Disjoint, Dir.mem_cat,
    List.mem_singleton] at hap
  simp only [Shape.elems_join, List.mem_append, Dir.mem_cat, List.mem_singleton, not_or] at hj
  have hix : (t.cell i).nodes d = rootPtr x := by
    rw [hi]
    exact pair_self
  obtain ⟨v, hv, hvx, hvj, hva, hvr, hvk⟩ := moveSon_eq (j := j) hix (by grind) hsx (by grind) hx
  have hvi : v.cell i = t.cell i := hva i (by grind) (by grind)
  have hiy : (v.cell i).nodes d.other = rootPtr y := by
    rw [hvi, hi]
    exact pair_other
  obtain ⟨w, hw, hwy, hwj, hwa, hwr, hwk⟩ := moveSon_eq (j := j) hiy (by grind)
    (hsy.congr fun a ha ↦ hva a (by grind) (by grind)) (by grind) hy
  have hwi : w.cell i = t.cell i := (hwa i (by grind) (by grind)).trans hvi
  obtain ⟨u, hu, huat, huk, -⟩ := takePlace_eq (t := w) (d := d) (k := k) (c := c) (i := i) (j := j)
    (x := x) (y := y) ⟨by rw [hwi, hi], by rw [hwi, hi], by rw [hwi, hi]⟩ (by grind)
    (by rw [hwj, hvj]; exact update_both) (hvx.congr fun a ha ↦ hwa a (by grind) (by grind)) hwy
    (hp.congr (hwr.trans hvr) fun a ha ↦
      (hwa a (by grind) (by grind)).trans (hva a (by grind) (by grind))) (by
      simp only [Shape.elems_join, Dir.nodup_cat, List.nodup_append', List.Disjoint, Dir.mem_cat,
        List.mem_singleton]
      grind)
  exact ⟨v, w, u, hv, hw, hu, huat, (hvk.trans hwk).trans huk⟩

/-- The son of a standin that is a child of the node. -/
theorem At.releaseSon_near (h : t.At k (.join d c' j s .leaf)) (hd : holeSide k = d)
    (hs : s.red = true ∨ s = .leaf) :
    ∃ v, t.releaseSon (.node j) true = some (v, !c' && !s.red) ∧
      v.At k (.join d c' j (s.paint false) .leaf) ∧ Keeps t v := by
  subst hd
  have hb : t.blackP (.node j) = some !c' := by
    rw [← rootPtr_join (holeSide k) c' j s .leaf, h.blackP, Shape.red_join]
  have hson : t.At (⟨holeSide k, c', j, .leaf⟩ :: k) s := at_cons.2 h
  rcases hs with hs | rfl
  · obtain ⟨a, l, r, rfl⟩ := Shape.exists_of_red .left hs
    obtain ⟨v, hv, hat, hk⟩ := hson.mark false
    refine ⟨v, ?_, ?_, hk⟩
    · have hr := hson.redP
      rw [rootPtr_join, Shape.red_join] at hr
      simp only [releaseSon, h.position, h.father, h.child, hr, hv, Option.bind_eq_bind,
        Option.bind_some, if_true, rootPtr_join, Shape.red_join, Bool.not_true, Bool.and_false,
        Option.pure_def]
    · rw [Shape.paint_join]
      exact at_cons.1 hat
  · refine ⟨t, ?_, h, .refl t⟩
    simp only [releaseSon, h.position, h.father, h.child, RbTree.redP, Option.bind_eq_bind,
      Option.bind_some, if_true, rootPtr_leaf, Shape.red, hb, Bool.not_false, Bool.and_true,
      Option.pure_def, Bool.false_eq_true, if_false]

/-- The son of a standin farther down goes to the father of the standin, who is without it then. -/
theorem At.releaseSon_far (h : t.At k (.join d c' j s .leaf)) (hd : (holeSide k).other = d)
    (hs : s.red = true ∨ s = .leaf) :
    ∃ v u, t.releaseSon (.node j) false = some (v, !c' && !s.red) ∧
      v.setChild (holeFather k) (holeSide k) (rootPtr s) = some u ∧ u.At k (s.paint false) ∧
      Keeps t u := by
  subst hd
  have hb : t.blackP (.node j) = some !c' := by
    rw [← rootPtr_join (holeSide k).other c' j s .leaf, h.blackP, Shape.red_join]
  have hson : t.At (⟨(holeSide k).other, c', j, .leaf⟩ :: k) s := at_cons.2 h
  have hcut := h.cut false
  rcases hs with hs | rfl
  · obtain ⟨a, l, r, rfl⟩ := Shape.exists_of_red .left hs
    have hr : (t.cell a).red = true := by rw [hson.cell]
    have hak : a ∉ Way.elems k := by
      have hn := (List.nodup_append'.1 h.nodup).2.2
      simp only [Shape.elems_join, List.Disjoint, Dir.mem_cat, List.mem_singleton] at hn
      grind
    rw [rootPtr_join] at hcut ⊢
    refine ⟨t.graft (.node a) (holeFather k) (holeSide k) false, _, ?_, setChild_hole, ?_, ?_⟩
    · simp [releaseSon, h.cell, hr, RbTree.mark, setFather, setPosition,
        put_put, graft]
    · rw [graft, relink_put hak]
      rw [graft, relink_cell_of_notMem hak] at hcut
      exact hcut
    · exact ⟨relink_minmax, relink_link⟩
  · refine ⟨t, _, ?_, setChild_hole, hcut, relink_minmax, relink_link⟩
    simp only [releaseSon, h.position, h.father, h.child, RbTree.redP, Option.bind_eq_bind,
      Option.bind_some, rootPtr_leaf, Shape.red, hb, Bool.not_false, Bool.and_true,
      Option.pure_def, Bool.false_eq_true, if_false]

theorem At.forget (h : t.At k s) (hi : i ∉ s.elems ++ Way.elems k)
    (hm : ∀ d, t.minmax d ≠ .node i) :
    ∃ u, t.forget i = some u ∧ u.At k s ∧ u.minmax = t.minmax ∧ u.link = t.link.erase i := by
  have hu : ({ t with link := t.link.erase i } : RbTree ι).At k s := h.congr rfl rfl
  refine ⟨_, ?_, hu.put_of_notMem (n := { t.cell i with father := .null }) hi, rfl, rfl⟩
  simp [RbTree.forget, unlinkNode, setFather, hm]

/-- All but the rebalancing: the standin is where the node has been, and its son where the standin
has been. -/
theorem At.swap (h : t.At (kin ++ ⟨d, c, i, y⟩ :: k) (.join d c' j s .leaf)) (hy : y ≠ .leaf)
    (hkin : ∀ f ∈ kin, f.dir = d.other) (hs : s.red = true ∨ s = .leaf) (fuel : Nat) :
    ∃ v, v.At (kin ++ ⟨d, c, j, y⟩ :: k) (s.paint false) ∧ Keeps t v ∧
      t.rbTreeSwapPruneAndRebalance fuel i (.node j) = (v.forget i).bind fun t ↦
        if !c' && !s.red then rbTreeRemovalRebalance fuel t
          (holeFather (kin ++ ⟨d, c, j, y⟩ :: k)) (holeSide (kin ++ ⟨d, c, j, y⟩ :: k))
        else some t := by
  have hpos := h.position
  have hfa := h.father
  have hchild := h.child
  rw [rbTreeSwapPruneAndRebalance]
  cases kin with
  | nil =>
    obtain ⟨u, hu, hat, hk⟩ := At.releaseSon_near h rfl hs
    obtain ⟨v, w, hv, hw, hwat, hwk⟩ := hat.swap_near hy
    refine ⟨w, hwat, hk.trans hwk, ?_⟩
    simp only [List.nil_append, holeFather, holeSide] at hpos hfa hchild hu ⊢
    simp only [hpos, hfa, hchild, hu, hv, hw, Option.bind_eq_bind, Option.bind_some, decide_true,
      if_true, Option.pure_def]
  | cons g kin =>
    have hg := hkin g List.mem_cons_self
    obtain ⟨v, u, hv, hu, hat, hk⟩ := At.releaseSon_far (d := d) h
      (by rw [List.cons_append, holeSide, hg, Dir.other_other]) hs
    have hx : plug (g :: kin) (s.paint false) ≠ .leaf := plug_ne_leaf (k := kin) Shape.join_ne_leaf
    have hat' : u.At k (.join d c i (plug (g :: kin) (s.paint false)) y) :=
      at_cons.1 (at_append.1 hat)
    have hn := h.nodup
    rw [Way.elems_append, List.nodup_append'] at hn
    have hne : g.val ≠ i := by
      intro he
      refine (List.nodup_append'.1 hn.2.1).2.2 (List.mem_cons_self (a := g.val)) ?_
      rw [he]
      exact List.mem_cons_self
    have hj : j ∉ (Shape.join d c i (plug (g :: kin) (s.paint false)) y).elems ++ Way.elems k := by
      have hp := perm_elems_plug (g :: kin ++ ⟨d, c, i, y⟩ :: k) (s.paint false)
      rw [plug_append] at hp
      intro hm
      have hm := ((perm_elems_plug k _).symm.trans hp).mem_iff.1 hm
      rw [Shape.elems_paint, Way.elems_append, List.mem_append] at hm
      simp only [Shape.elems_join, Dir.nodup_cat, Dir.mem_cat, List.mem_singleton,
        List.Disjoint] at hn
      grind
    obtain ⟨u₁, u₂, u₃, h₁, h₂, h₃, hat₃, hk₃⟩ := hat'.swap_far hj hx hy
    refine ⟨u₃, at_append.2 (at_cons.2 hat₃), hk.trans hk₃, ?_⟩
    have hfar : (Ptr.node g.val = .node i) = False := eq_false fun he ↦ hne (Ptr.node.inj he)
    simp only [List.cons_append, holeFather, holeSide, hg] at hpos hfa hchild hu ⊢
    simp only [hpos, hfa, hchild, hv, hu, h₁, h₂, h₃, hfar, Option.bind_eq_bind, Option.bind_some,
      decide_false, Bool.false_eq_true, if_false, Option.pure_def, Dir.other_other]

/-- The items without the node, once the son of the standin is in the place of that. -/
theorem elems_swap (h : t.At (kin ++ ⟨d, c, i, y⟩ :: k) (.join d c' j s .leaf))
    (hkin : ∀ f ∈ kin, f.dir = d.other) :
    (plug (kin ++ ⟨d, c, j, y⟩ :: k) (s.paint false)).elems =
      (plug (kin ++ ⟨d, c, i, y⟩ :: k) (.join d c' j s .leaf)).elems.erase i := by
  have har := around_join (at_cons.1 (at_append.1 h))
  rw [plug_append, plug_append, plug_cons, plug_cons]
  refine Eq.trans ?_ (har.erase_eq d).symm
  have hb := beside_eq_nil hkin
  rw [if_pos rfl, if_neg d.other_ne, elems_plug d k, elems_plug d kin, hb, Frame.fill,
    Shape.elems_join, elems_plug d kin, hb]
  simp [Shape.elems, Dir.cat_other]

/-- `rb_tree_swap_prune_and_rebalance`. -/
theorem rbTreeSwapPruneAndRebalance_wf
    (hw : t.Wf (plug (kin ++ ⟨d, c, i, y⟩ :: k) (.join d c' j s .leaf))) (hy : y ≠ .leaf)
    (hkin : ∀ f ∈ kin, f.dir = d.other) (hf : (kin ++ ⟨d, c, i, y⟩ :: k).length ≤ fuel) :
    ∃ t' s', t.rbTreeSwapPruneAndRebalance fuel i (.node j) = some t' ∧ t'.Wf s' ∧
      s'.elems = (plug (kin ++ ⟨d, c, i, y⟩ :: k) (.join d c' j s .leaf)).elems.erase i := by
  have hat := at_plug.2 hw.shape
  have hl := elems_swap hat hkin
  have hn := (perm_elems_plug _ _).nodup_iff.2 hat.nodup
  have har := around_join (at_cons.1 (at_append.1 hat))
  have hmin := hw.minmax
  rw [plug_append] at hmin
  obtain ⟨n, hk, hbal, -⟩ := isRedBlack_plug.1 hw.redBlack
  have hs : s.red = true ∨ s = .leaf := by
    rcases Bool.eq_false_or_eq_true s.red with hr | hr
    · exact .inl hr
    · cases c' with
      | true =>
        obtain ⟨hs, rfl, -⟩ := Shape.balanced_red.1 hbal
        exact .inr (hs.eq_leaf hr)
      | false =>
        obtain ⟨m, -, hs, rfl⟩ := Shape.balanced_black.1 hbal
        exact .inr (hs.eq_leaf hr)
  obtain ⟨v, hv, hvk, hrun⟩ := At.swap hat hy hkin hs fuel
  -- there are items on both sides of the node
  have hz (e : Dir) : e.cat (beside e k)
      (if e = d then plug kin (.join d c' j s .leaf) else y).elems ≠ [] := by
    intro hz
    obtain ⟨-, hz⟩ := Dir.cat_eq_nil.1 hz
    split_ifs at hz
    · exact plug_ne_leaf Shape.join_ne_leaf (Shape.elems_eq_nil.1 hz)
    · exact hy (Shape.elems_eq_nil.1 hz)
  have hends (e : Dir) : t.minmax e ≠ .node i := fun he ↦ hz e ((har.minmax_iff hmin e).1 he)
  have hi : i ∉ (s.paint false).elems ++ Way.elems (kin ++ ⟨d, c, j, y⟩ :: k) := by
    rw [← (perm_elems_plug _ _).mem_iff, hl]
    exact List.Nodup.not_mem_erase hn
  obtain ⟨u, hu, hat', hum, hul⟩ := hv.forget hi (fun e ↦ hvk.minmax ▸ hends e)
  have hmm {e : Dir} {a : ι} (ha : e.first (plug (kin ++ ⟨d, c, j, y⟩ :: k)
      (s.paint false)).elems = some a) : u.minmax e = .node a := by
    rw [hum, hvk.minmax]
    rw [hl, plug_append] at ha
    exact har.minmax_erase hmin (fun _ _ ↦ rfl) (fun e _ h ↦ absurd h (hz e)) ha
  have hlink : u.link = (plug (kin ++ ⟨d, c, j, y⟩ :: k) (s.paint false)).elems := by
    rw [hul, hvk.link, hw.link, hl]
  have hk' : Holed n (kin ++ ⟨d, c, j, y⟩ :: k) := hk.relabel
  have hdone (hb : (s.paint false).Balanced n) : u.Wf (plug (kin ++ ⟨d, c, j, y⟩ :: k)
      (s.paint false)) := by
    refine ⟨at_plug.1 hat', hk'.isRedBlack hb fun h ↦ ?_, fun e a ha ↦ hmm ha, hlink⟩
    rw [Shape.red_paint] at h
    cases h
  rw [hrun, hu, Option.bind_some, ← hl]
  cases c' with
  | true =>
    obtain ⟨hs', rfl, hsb, -⟩ := Shape.balanced_red.1 hbal
    obtain rfl := hs'.eq_leaf hsb
    exact ⟨u, _, rfl, hdone rfl, rfl⟩
  | false =>
    obtain ⟨m, rfl, hs', rfl⟩ := Shape.balanced_black.1 hbal
    rcases hs with hr | rfl
    · rw [hr]
      exact ⟨u, _, rfl, hdone (hs'.paint_black hr), rfl⟩
    · have hlen : (kin ++ ⟨d, c, j, y⟩ :: k).length ≤ fuel := by
        rw [List.length_append, List.length_cons] at hf ⊢
        exact hf
      obtain ⟨g, rest, hg⟩ := List.exists_cons_of_ne_nil
        (List.append_ne_nil_of_right_ne_nil kin (List.cons_ne_nil (⟨d, c, j, y⟩ : Frame ι) k))
      rw [hg] at hat' hk' hlen hlink ⊢
      have hset := removalRebalance_settled hat' (n := 0) rfl rfl hk' hlen
      exact hset.wf (fun e a ha ↦ hmm (hg ▸ ha)) hlink

/-- `rb_tree_remove_node`. -/
theorem rbTreeRemoveNode_wf (hw : t.Wf s) (hi : i ∈ s.elems) (hf : s.depth ≤ fuel) :
    ∃ t' s', t.rbTreeRemoveNode fuel i = some t' ∧ t'.Wf s' ∧ s'.elems = s.elems.erase i := by
  obtain ⟨k, c, l, r, rfl⟩ := exists_plug_of_mem hi
  have hat := at_plug.2 hw.shape
  have hlen := length_add_depth_le k (.node c i l r)
  rw [Shape.depth] at hlen
  have hcell : t.cell i = ⟨pair .left (rootPtr l) (rootPtr r), holeFather k, holeSide k, c⟩ :=
    hat.sub.1
  have hleft : t.child (.node i) .left = some (rootPtr l) := At.child (d := .left) hat
  have hchildless : t.childlessP (.node i) = some (decide (l = .leaf ∧ r = .leaf)) := by
    rw [childlessP, get_node, Option.map_some, hcell]
    · simp [show pair .left (rootPtr l) (rootPtr r) .right = rootPtr r from rfl]
    · intro h
      cases h
  have htwo : t.twochildrenP (.node i) = some (decide (l ≠ .leaf ∧ r ≠ .leaf)) := by
    rw [twochildrenP, get_node, Option.map_some, hcell]
    · simp [show pair .left (rootPtr l) (rootPtr r) .right = rootPtr r from rfl]
    · intro h
      cases h
  rw [rbTreeRemoveNode]
  simp only [hchildless, htwo, hleft, Option.bind_eq_bind, Option.bind_some, decide_eq_true_eq,
    rootPtr_eq_null]
  by_cases hl : l = .leaf <;> by_cases hr : r = .leaf
  · subst hl hr
    have hb : t.blackP (.node i) = some !c := by
      rw [RbTree.blackP, redP_node, hcell, Option.map_some]
    have hroot : t.root = .node i ↔ k = [] := At.root_eq_iff (d := .left) hat
    have hflag : ((!c) && decide (t.root ≠ .node i)) = (!c && !k.isEmpty) := by
      cases k <;> simp [hroot]
    simp only [hb, Option.bind_some, and_self, if_true, hflag]
    exact rbTreePruneNode_wf hw (by omega)
  · subst hl
    simp only [hr, and_false, ne_eq, not_true, false_and, if_false, if_true]
    exact rbTreePruneBlackredBranch_wf (d := .right) hw hr
  · subst hr
    simp only [hl, false_and, ne_eq, not_true, and_false, if_false]
    exact rbTreePruneBlackredBranch_wf (d := .left) hw hl
  · simp only [hl, hr, ne_eq, not_false_eq_true, and_self, if_false, if_true,
      At.position (d := .left) hat, Option.bind_some]
    -- the standin is the next item on the side away from the father
    obtain ⟨x, y, hj, hx, hy⟩ : ∃ x y, Shape.node c i l r = .join (holeSide k).other c i x y ∧
        x ≠ .leaf ∧ y ≠ .leaf := by
      cases (holeSide k).other with
      | left => exact ⟨l, r, rfl, hl, hr⟩
      | right => exact ⟨r, l, rfl, hr, hl⟩
    obtain ⟨kin, c', j, s, rfl, hkin⟩ := exists_end (holeSide k).other.other hx
    rw [hj] at hw hat hf ⊢
    have hfirst : (holeSide k).other.other.first
        (plug kin (.join (holeSide k).other.other c' j .leaf s)).elems = some j := by
      rw [elems_plug (holeSide k).other.other, beside_eq_nil hkin, Dir.nil_cat, Dir.first_cat,
        Shape.elems_join, Shape.elems, Dir.nil_cat, Dir.first_cat, Dir.first_singleton]
      rfl
    rw [rbTreeIterate_node hat hf, hfirst]
    rw [Shape.join_other (holeSide k).other] at hw hf ⊢
    have hp : plug k (.join (holeSide k).other c i
          (plug kin (.join (holeSide k).other c' j s .leaf)) y) =
        plug (kin ++ ⟨(holeSide k).other, c, i, y⟩ :: k)
          (.join (holeSide k).other c' j s .leaf) :=
      (plug_append kin (⟨(holeSide k).other, c, i, y⟩ :: k) _).symm
    have hk := length_add_depth_le (kin ++ ⟨(holeSide k).other, c, i, y⟩ :: k)
      (.join (holeSide k).other c' j s .leaf)
    rw [hp] at hw hf ⊢
    exact rbTreeSwapPruneAndRebalance_wf hw hy hkin (by omega)

end Mh.Rb.RbTree
