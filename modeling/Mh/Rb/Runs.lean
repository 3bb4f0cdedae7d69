import Mh.Rb.Search
import Mh.Rb.Spec
import Mh.Rb.Swap

/-!
# The tree is a set

Over any calls of the functions of `rb.c` a tree stays a red-black tree of the items that have been
inserted and not been removed, and what the functions return is what the set of these items says.
The loops take no more turns than twice the logarithm of the number of items.
-/

namespace Mh.Rb

open Lib.RedBlack

variable {ι κ : Type} [DecidableEq ι]

namespace RbTree

variable (ops : RbTreeOps ι κ) (t : RbTree ι)

/-- The turns that a loop may take. -/
def turns : Nat := 2 * Nat.log 2 (t.link.length + 1) + 1

/-- The item of a node, or `NULL`. -/
def nodeToItem : Ptr ι → Option (Option ι)
  | .null => some none
  | .tree => none
  | .node i => some (some i)

/-- A call. -/
def apply : Op ι κ → Option (RbTree ι × Option ι)
  | .insert x => do
    let (t, y) ← t.rbTreeInsertNode ops t.turns x
    return (t, some y)
  | .remove x => do return (← t.rbTreeRemoveNode t.turns x, none)
  | .find key => do return (t, ← t.rbTreeFindNode ops t.turns key)
  | .findGeq key => do return (t, ← t.rbTreeFindNodeGeq ops t.turns key)
  | .findLeq key => do return (t, ← t.rbTreeFindNodeLeq ops t.turns key)
  | .iterate o d => do return (t, ← nodeToItem (← t.rbTreeIterate t.turns (optPtr o) d))

/-- One call after the other. -/
def run : RbTree ι → List (Op ι κ) → Option (RbTree ι × List (Option ι))
  | t, [] => some (t, [])
  | t, op :: as => do
    let (t, r) ← t.apply ops op
    let (t, rs) ← run t as
    return (t, r :: rs)

/-- The tree holds the items of a set. -/
def Holds (S : Set ι) : Prop :=
  ∃ s, t.Wf s ∧ s.elems.Pairwise ops.Lt ∧ ∀ i, i ∈ s.elems ↔ i ∈ S

variable {ops t} {S : Set ι} {s : Shape ι}

omit [DecidableEq ι] in
/-- No way down takes more turns. -/
theorem Wf.depth_lt_turns (hw : t.Wf s) : s.depth < t.turns := by
  have h := hw.redBlack.depth_le_log
  rw [turns, hw.link]
  omega

omit [DecidableEq ι] in
theorem nodeToItem_optPtr (r : Option ι) : nodeToItem (optPtr r) = some r := by
  cases r <;> rfl

omit [DecidableEq ι] in
/-- Another order that agrees on the items. -/
theorem Holds.congr {ops' : RbTreeOps ι κ} (h : t.Holds ops S)
    (hlt : ∀ a ∈ S, ∀ b ∈ S, ops.Lt a b → ops'.Lt a b) : t.Holds ops' S := by
  obtain ⟨s, hw, hl, hS⟩ := h
  exact ⟨s, hw, hl.imp_of_mem fun ha hb ↦ hlt _ ((hS _).1 ha) _ ((hS _).1 hb), hS⟩

/-! ## Searches -/

omit [DecidableEq ι] in
/-- What is beside the end of a search. -/
theorem elems_search (cmp : ι → Int) (s : Shape ι) :
    s.elems = beside .left (search cmp [] s).1 ++
      ((search cmp [] s).2.elems ++ beside .right (search cmp [] s).1) := by
  have h := elems_plug .left (search cmp [] s).1 (search cmp [] s).2
  rwa [plug_search] at h

omit [DecidableEq ι] in
/-- A search ends at an item that is equal, or there is none, and it ends between what is less and
what is greater. -/
theorem search_cases {cmp : ι → Int} (hg : Graded cmp s.elems) :
    (∃ i, rootItem (search cmp [] s).2 = some i ∧ i ∈ s.elems ∧ cmp i = 0) ∨
      (search cmp [] s).2 = .leaf ∧ Beyond cmp (search cmp [] s).1 ∧
        s.elems = beside .left (search cmp [] s).1 ++ beside .right (search cmp [] s).1 := by
  have he := elems_search cmp s
  rcases search_snd cmp [] s with h | ⟨c, i, l, r, h, h0⟩
  · refine .inr ⟨h, Beyond.search ⟨fun a ha ↦ (List.not_mem_nil ha).elim,
      fun a ha ↦ (List.not_mem_nil ha).elim⟩ hg, ?_⟩
    rwa [h] at he
  · refine .inl ⟨i, by rw [h]; rfl, ?_, h0⟩
    rw [he, h, Shape.elems]
    simp

omit [DecidableEq ι] in
/-- Where a search ends at a leaf no item is equal. -/
theorem ne_zero_of_beyond {cmp : ι → Int} {k : Way ι} (h : Beyond cmp k) {z : ι}
    (hz : z ∈ beside .left k ++ beside .right k) : cmp z ≠ 0 := by
  rcases List.mem_append.1 hz with hz | hz
  · exact (h.1 z hz).ne
  · exact (h.2 z hz).ne'

/-- What a comparison with a key tells of an item on a side of it. -/
def past (d : Dir) (diff : Int) : Prop :=
  match d with
  | .left => diff < 0
  | .right => 0 < diff

theorem not_past_other {d : Dir} {v : Int} (h : past d.other v) : ¬ past d v := by
  cases d
  · exact fun h' ↦ lt_asymm h h'
  · exact fun h' ↦ lt_asymm h h'

omit [DecidableEq ι] in
theorem past_of_beyond {cmp : ι → Int} {k : Way ι} (h : Beyond cmp k) {d : Dir} {z : ι}
    (hz : z ∈ beside d k) : past d (cmp z) := by
  cases d
  · exact h.1 z hz
  · exact h.2 z hz

omit [DecidableEq ι] in
/-- The item that is equal, or else the closest one on a side. -/
theorem nearOf_cases {lt : ι → ι → Prop} {cmp : ι → Int} (hl : s.elems.Pairwise lt)
    (hg : Graded cmp s.elems) (d : Dir) :
    (∃ i, nearOf d (search cmp [] s) = some i ∧ i ∈ s.elems ∧ cmp i = 0) ∨
      (∀ z ∈ s.elems, cmp z ≠ 0) ∧
        Closest (d.other.before lt) (fun z ↦ z ∈ s.elems ∧ past d (cmp z))
          (nearOf d (search cmp [] s)) := by
  rcases search_cases hg with ⟨i, hi, hmem, h0⟩ | ⟨hleaf, hb, he⟩
  · exact .inl ⟨i, by rw [nearOf, hi]; rfl, hmem, h0⟩
  · have hsides (z : ι) : z ∈ s.elems ↔
        z ∈ beside d (search cmp [] s).1 ∨ z ∈ beside d.other (search cmp [] s).1 := by
      rw [he, List.mem_append]
      cases d
      · exact Iff.rfl
      · exact or_comm
    refine .inr ⟨fun z hz ↦ ne_zero_of_beyond hb (he ▸ hz), ?_⟩
    · have hpair : (beside d (search cmp [] s).1).Pairwise lt := by
        rw [he] at hl
        cases d
        · exact (List.pairwise_append.1 hl).1
        · exact (List.pairwise_append.1 hl).2.1
      rw [nearOf, hleaf, rootItem, Option.none_or]
      refine (Dir.closest_first hpair).congr fun z ↦ ?_
      constructor
      · intro hz
        exact ⟨(hsides z).2 (.inl hz), past_of_beyond hb hz⟩
      · rintro ⟨hz, hp⟩
        exact ((hsides z).1 hz).resolve_right fun hz ↦ not_past_other (past_of_beyond hb hz) hp

/-! ## The functions -/

/-- The call finds the tree as a set and leaves it as one, and gives what the set says. -/
def Meets (ops : RbTreeOps ι κ) (t : RbTree ι) (S : Set ι) (op : Op ι κ) : Prop :=
  ∃ t' r, t.apply ops op = some (t', r) ∧ op.Answers ops S r ∧ t'.Holds ops (op.after ops S)

theorem Holds.find (hops : ops.Lawful) (h : t.Holds ops S) (key : κ) :
    t.Meets ops S (.find key) := by
  obtain ⟨s, hw, hl, hS⟩ := h
  refine ⟨t, rootItem (search (ops.compareKey · key) [] s).2, ?_, ?_, s, hw, hl, hS⟩
  · rw [apply, rbTreeFindNode, hw.shape.root, plug_nil, findLoop_eq hw.shape hw.depth_lt_turns]
    rfl
  · rcases search_cases (hops.graded_key hl key) with ⟨i, hi, hmem, h0⟩ | ⟨hleaf, hb, he⟩
    · exact .inl ⟨i, hi, (hS i).1 hmem, h0⟩
    · refine .inr ⟨by rw [hleaf]; rfl, fun z hz ↦ ?_⟩
      rw [← hS, he] at hz
      exact ne_zero_of_beyond hb hz

omit [DecidableEq ι] in
theorem Holds.findNear (hops : ops.Lawful) (h : t.Holds ops S) (key : κ) (keep : Int → Bool)
    (d : Dir) (hkeep : ∀ v ≠ 0, keep v = true ↔ side v = d.other) :
    ∃ r, t.nearLoop (ops.compareKey · key) keep t.turns t.root none = some r ∧
      ((∃ y, r = some y ∧ y ∈ S ∧ ops.compareKey y key = 0) ∨
        (∀ z ∈ S, ops.compareKey z key ≠ 0) ∧
          Closest (d.other.before ops.Lt) (fun z ↦ z ∈ S ∧ past d (ops.compareKey z key)) r) := by
  obtain ⟨s, hw, hl, hS⟩ := h
  have hrun := nearLoop_eq (ops.compareKey · key) hkeep hw.shape hw.depth_lt_turns
  rw [beside, Dir.first_nil] at hrun
  refine ⟨nearOf d (search (ops.compareKey · key) [] s), ?_, ?_⟩
  · rw [hw.shape.root, plug_nil, hrun]
  · simp only [← hS]
    exact nearOf_cases hl (hops.graded_key hl key) d

theorem Holds.insert (hops : ops.Lawful) (h : t.Holds ops S) (x : ι) :
    t.Meets ops S (.insert x) := by
  obtain ⟨s, hw, hl, hS⟩ := h
  have hplace : t.placeLoop (ops.compareNodes · x) t.turns t.root .tree .left =
      some (placeOf (search (ops.compareNodes · x) [] s)) := by
    rw [hw.shape.root, plug_nil]
    exact placeLoop_eq hw.shape hw.depth_lt_turns
  rcases search_cases (hops.graded_nodes hl x) with ⟨i, hi, hmem, h0⟩ | ⟨hleaf, hb, he⟩
  · have hins : t.rbTreeInsertNode ops t.turns x = some (t, i) := by
      rw [rbTreeInsertNode, hplace, placeOf_rootItem hi]
      rfl
    refine ⟨t, some i, by rw [apply, hins]; rfl, ⟨i, rfl, .inl ⟨(hS i).1 hmem, h0⟩⟩, s, hw, hl, ?_⟩
    intro j
    rw [Op.after, if_pos ⟨i, (hS i).1 hmem, h0⟩, hS]
  · have hp := plug_search (ops.compareNodes · x) [] s
    rw [hleaf, plug_nil] at hp
    rw [placeOf_leaf hleaf] at hplace
    generalize (search (ops.compareNodes · x) [] s).1 = k at *
    have hne : ∀ z ∈ S, ops.compareNodes z x ≠ 0 := by
      intro z hz
      rw [← hS, he] at hz
      exact ne_zero_of_beyond hb hz
    have hx : x ∉ Way.elems k := by
      intro hm
      have hm : x ∈ (plug k .leaf).elems := (perm_elems_plug k .leaf).mem_iff.2 hm
      rw [hp, hS] at hm
      exact hne x hm (hops.compareNodes_self x)
    have hlen := length_add_depth_le k (.leaf : Shape ι)
    have hd := hw.depth_lt_turns
    rw [hp] at hlen
    have hk : k.length ≤ t.turns := by omega
    obtain ⟨t', s', hrun, hw', he'⟩ := insertAt_wf (hp ▸ hw) hx hk
    rw [elems_plug .left] at he'
    refine ⟨t', some x, ?_, ⟨x, rfl, .inr ⟨rfl, hne⟩⟩, s', hw', ?_, fun i ↦ ?_⟩
    · rw [apply, rbTreeInsertNode, hplace]
      simp only [Option.bind_eq_bind, Option.bind_some, hrun]
      rfl
    · rw [he] at hl
      obtain ⟨hll, hlr, hlt⟩ := List.pairwise_append.1 hl
      rw [he']
      refine List.pairwise_append.2 ⟨hll, List.pairwise_cons.2 ⟨fun b hb' ↦ ?_, hlr⟩, ?_⟩
      · exact (hops.flip x b).2 (hb.2 b hb')
      · intro a ha b hb'
        rcases List.mem_cons.1 hb' with rfl | hb'
        · exact hb.1 a ha
        · exact hlt a ha b hb'
    · rw [Op.after, if_neg fun ⟨y, hy, h0⟩ ↦ hne y hy h0, Set.mem_insert_iff, ← hS, he, he']
      simp only [Shape.elems, Dir.mem_cat, List.mem_append, List.mem_cons, Dir.other]
      grind

theorem Holds.remove (hops : ops.Lawful) (h : t.Holds ops S) {x : ι} (hx : x ∈ S) :
    t.Meets ops S (.remove x) := by
  obtain ⟨s, hw, hl, hS⟩ := h
  obtain ⟨t', s', hrun, hw', he⟩ :=
    rbTreeRemoveNode_wf hw ((hS x).2 hx) hw.depth_lt_turns.le
  refine ⟨t', none, by rw [apply, hrun]; rfl, rfl, s', hw', ?_, fun i ↦ ?_⟩
  · rw [he]
    exact hl.sublist List.erase_sublist
  · rw [he, (hops.nodup hl).mem_erase_iff, hS, and_comm]
    rfl

theorem Holds.iterateNull (h : t.Holds ops S) (d : Dir) :
    t.Meets ops S (.iterate none d) := by
  obtain ⟨s, hw, hl, hS⟩ := h
  refine ⟨t, d.first s.elems, ?_, (Dir.closest_first hl).congr hS, s, hw, hl, hS⟩
  rw [apply, optPtr, rbTreeIterate_null hw.shape hw.minmax]
  simp only [Option.bind_eq_bind, Option.bind_some, nodeToItem_optPtr]
  rfl

/-- The next item on a side is the next one in the list. -/
theorem Wf.iterate_eq (hw : t.Wf s) {d : Dir} {i : ι} {l r : List ι}
    (he : s.elems = d.cat l (d.cat [i] r)) :
    t.rbTreeIterate t.turns (.node i) d = some (optPtr (d.other.first l)) := by
  have hi : i ∈ s.elems := by
    rw [he]
    exact Dir.mem_cat.2 (.inr (Dir.mem_cat.2 (.inl (List.mem_singleton_self i))))
  obtain ⟨k, c, u, v, hs⟩ := exists_plug_of_mem hi
  obtain ⟨y, z, hj⟩ := Shape.node_eq_join d c i u v
  rw [hj] at hs
  have hat := hw.shape
  have hd := hw.depth_lt_turns.le
  have hn : s.elems.Nodup := (List.append_nil s.elems ▸ hat.nodup :)
  have hz : s.elems = d.cat (d.cat (beside d k) y.elems)
      (d.cat [i] (d.cat z.elems (beside d.other k))) := by
    rw [hs, elems_plug d, Shape.elems_join]
    simp only [Dir.cat_assoc]
  rw [hs] at hat hd
  rw [rbTreeIterate_node (at_plug.2 hat) hd, ← Dir.first_other_cat,
    Dir.eq_of_cat_eq hn he hz]

omit [DecidableEq ι] in
/-- Where an item is in the list. -/
theorem exists_cat_of_mem (d : Dir) {l : List ι} {i : ι} (h : i ∈ l) :
    ∃ xs ys, l = d.cat xs (d.cat [i] ys) := by
  obtain ⟨xs, ys, rfl⟩ := List.append_of_mem h
  cases d
  · exact ⟨xs, ys, rfl⟩
  · exact ⟨ys, xs, by simp [Dir.cat]⟩

theorem Holds.iterateNode (hops : ops.Lawful) (h : t.Holds ops S) {x : ι} (hx : x ∈ S) (d : Dir) :
    t.Meets ops S (.iterate (some x) d) := by
  obtain ⟨s, hw, hl, hS⟩ := h
  obtain ⟨xs, ys, he⟩ := exists_cat_of_mem d ((hS x).2 hx)
  refine ⟨t, d.other.first xs, ?_, ?_, s, hw, hl, hS⟩
  · rw [apply, optPtr, hw.iterate_eq he]
    simp only [Option.bind_eq_bind, Option.bind_some, nodeToItem_optPtr]
    rfl
  · rw [he] at hl
    obtain ⟨hfront, hrest, hacross⟩ := Dir.pairwise_cat.1 hl
    obtain ⟨-, -, hback⟩ := Dir.pairwise_cat.1 hrest
    refine (Dir.closest_first hfront).congr fun a ↦ ?_
    rw [← hS, he, Dir.before_other]
    constructor
    · intro ha
      exact ⟨Dir.mem_cat.2 (.inl ha),
        hacross a ha x (Dir.mem_cat.2 (.inl (List.mem_singleton_self x)))⟩
    · rintro ⟨ha, hlt⟩
      refine (Dir.mem_cat.1 ha).resolve_right fun ha ↦ ?_
      rcases Dir.mem_cat.1 ha with ha | ha
      · rw [List.mem_singleton.1 ha] at hlt
        exact hops.not_before_self hlt
      · have hgt := hback x (List.mem_singleton_self x) a ha
        exact hops.not_before_self (hops.before_trans hlt hgt)

theorem Holds.findGeq (hops : ops.Lawful) (h : t.Holds ops S) (key : κ) :
    t.Meets ops S (.findGeq key) := by
  obtain ⟨r, hr, ha⟩ := h.findNear hops key (0 < ·) .right fun v hv ↦ by
    rw [decide_eq_true_eq, side]
    split_ifs with h
    · exact iff_of_false h.not_gt (by decide)
    · exact iff_of_true (lt_of_le_of_ne (not_lt.1 h) hv.symm) rfl
  exact ⟨t, r, by rw [apply, rbTreeFindNodeGeq, hr]; rfl, ha, h⟩

theorem Holds.findLeq (hops : ops.Lawful) (h : t.Holds ops S) (key : κ) :
    t.Meets ops S (.findLeq key) := by
  obtain ⟨r, hr, ha⟩ := h.findNear hops key (· < 0) .left fun v hv ↦ by
    rw [decide_eq_true_eq, side]
    split_ifs with h
    · exact iff_of_true h rfl
    · exact iff_of_false h (by decide)
  exact ⟨t, r, by rw [apply, rbTreeFindNodeLeq, hr]; rfl, ha, h⟩

/-- A legal call does what it does to the set. -/
theorem Holds.apply (hops : ops.Lawful) (h : t.Holds ops S) (op : Op ι κ) (hl : op.Legal S) :
    t.Meets ops S op := by
  cases op with
  | insert x => exact h.insert hops x
  | remove x => exact h.remove hops hl
  | find key => exact h.find hops key
  | findGeq key => exact h.findGeq hops key
  | findLeq key => exact h.findLeq hops key
  | iterate o d =>
    cases o with
    | none => exact h.iterateNull d
    | some x => exact h.iterateNode hops hl d

omit [DecidableEq ι] in
theorem wf_init (t : RbTree ι) : t.rbTreeInit.Wf .leaf where
  shape := ⟨rfl, trivial, List.nodup_nil⟩
  redBlack := IsRedBlack.leaf
  minmax d i h := by
    rw [Shape.elems, Dir.first_nil] at h
    cases h
  link := rfl

omit [DecidableEq ι] in
theorem holds_init (t : RbTree ι) : t.rbTreeInit.Holds ops ∅ :=
  ⟨.leaf, wf_init t, List.Pairwise.nil, fun i ↦ by simp [Shape.elems]⟩

theorem Holds.run (hops : ops.Lawful) (h : t.Holds ops S) {as : List (Op ι κ)}
    (hl : Op.LegalRun ops S as) :
    ∃ t' rs, t.run ops as = some (t', rs) ∧ Op.AnswersRun ops S as rs ∧
      t'.Holds ops (Op.afterRun ops S as) := by
  induction as generalizing t S with
  | nil => exact ⟨t, [], rfl, trivial, h⟩
  | cons op as ih =>
    obtain ⟨t₁, r, hr, ha, h₁⟩ := h.apply hops op hl.1
    obtain ⟨t₂, rs, hrs, has, h₂⟩ := ih h₁ hl.2
    refine ⟨t₂, r :: rs, ?_, ⟨ha, has⟩, h₂⟩
    rw [RbTree.run, hr]
    simp only [Option.bind_eq_bind, Option.bind_some, hrs]
    rfl

/-- Over any legal calls, in any order, no function reads a node that is not there or takes more
turns than twice the logarithm of the size, every result is what the set of the items says, and in
the end the tree is a red-black tree that holds this set. -/
theorem run_eq_set (hops : ops.Lawful) (t : RbTree ι) (as : List (Op ι κ))
    (hl : Op.LegalRun ops ∅ as) :
    ∃ t' rs, t.rbTreeInit.run ops as = some (t', rs) ∧ Op.AnswersRun ops ∅ as rs ∧
      t'.Holds ops (Op.afterRun ops ∅ as) :=
  (holds_init t).run hops hl

/-- Calls on a tree of numbers. -/
def numberCalls : List (Op Nat Nat) :=
  [.insert 3, .insert 1, .insert 2, .insert 3, .remove 1, .findGeq 1, .iterate (some 2) .right]

/-- Memory in which there is no tree yet. -/
def zeros : RbTree Nat := ⟨.null, fun _ ↦ .null, [], fun _ ↦ ⟨fun _ ↦ .null, .null, .left, false⟩⟩

theorem run_eq_set_numbers :
    ∃ t' rs, zeros.rbTreeInit.run (.byKey id) numberCalls = some (t', rs) ∧
      Op.AnswersRun (.byKey id) ∅ numberCalls rs ∧
      t'.Holds (.byKey id) (Op.afterRun (.byKey id) ∅ numberCalls) :=
  run_eq_set (RbTreeOps.byKey_lawful id) zeros numberCalls (by
    simp [numberCalls, Op.LegalRun, Op.Legal, Op.after, RbTreeOps.byKey_nodes_eq_zero])

/-! ## All items -/

/-- The loop of `RB_TREE_FOREACH`, from the left, and of `RB_TREE_FOREACH_REVERSE`: the items it
visits. -/
def foreachLoop (t : RbTree ι) (d : Dir) : Nat → Option ι → Option (List ι)
  | 0, _ => none
  | _ + 1, none => some []
  | n + 1, some i => do
    let next ← nodeToItem (← t.rbTreeIterate t.turns (.node i) d.other)
    return i :: (← foreachLoop t d n next)

/-- `RB_TREE_FOREACH` and `RB_TREE_FOREACH_REVERSE`. -/
def rbTreeForeach (t : RbTree ι) (d : Dir) : Option (List ι) := do
  t.foreachLoop d (t.link.length + 1) (← nodeToItem (← t.rbTreeIterate t.turns .null d))

theorem Wf.foreachLoop_eq (hw : t.Wf s) {d : Dir} {xs l : List ι}
    (he : s.elems = d.cat xs (d.seen l)) : t.foreachLoop d (l.length + 1) l.head? = some l := by
  induction l generalizing xs with
  | nil => rfl
  | cons i l ih =>
    rw [Dir.seen_cons] at he
    have hnext : t.rbTreeIterate t.turns (.node i) d.other = some (optPtr l.head?) := by
      rw [hw.iterate_eq (d := d.other) (l := d.seen l) (r := xs), Dir.other_other, Dir.first_seen]
      rw [he, Dir.cat_other, Dir.cat_other, Dir.cat_assoc]
    have hi : s.elems = d.cat (d.cat xs [i]) (d.seen l) := by rw [he, Dir.cat_assoc]
    have hrest := ih hi
    rw [List.head?_cons, List.length_cons, foreachLoop, hnext]
    simp only [Option.bind_eq_bind, Option.bind_some, nodeToItem_optPtr, hrest]
    rfl

/-- The macros visit every item of the set once, in order. -/
theorem Holds.foreach (h : t.Holds ops S) (d : Dir) :
    ∃ l, t.rbTreeForeach d = some l ∧ l.Pairwise (d.before ops.Lt) ∧ ∀ i, i ∈ l ↔ i ∈ S := by
  obtain ⟨s, hw, hl, hS⟩ := h
  refine ⟨d.seen s.elems, ?_, Dir.pairwise_seen hl, fun i ↦ by rw [Dir.mem_seen, hS]⟩
  have hloop := hw.foreachLoop_eq (l := d.seen s.elems) (show s.elems = d.cat [] _ by simp)
  rw [Dir.length_seen, ← Dir.first_seen d, Dir.seen_seen] at hloop
  rw [rbTreeForeach, hw.link, rbTreeIterate_null hw.shape hw.minmax]
  simp only [Option.bind_eq_bind, Option.bind_some, nodeToItem_optPtr, hloop]

/-- After any legal calls, in any order, the macros visit every item of the set once, from the least
one up or from the greatest one down. -/
theorem foreach_run_eq (hops : ops.Lawful) (t : RbTree ι) (as : List (Op ι κ))
    (hl : Op.LegalRun ops ∅ as) (d : Dir) :
    ∃ t' rs l, t.rbTreeInit.run ops as = some (t', rs) ∧ t'.rbTreeForeach d = some l ∧
      l.Pairwise (d.before ops.Lt) ∧ ∀ i, i ∈ l ↔ i ∈ Op.afterRun ops ∅ as := by
  obtain ⟨t', rs, hrun, -, h⟩ := (holds_init t).run hops hl
  obtain ⟨l, hl⟩ := h.foreach d
  exact ⟨t', rs, l, hrun, hl⟩

theorem foreach_run_eq_numbers :
    ∃ t' rs l, zeros.rbTreeInit.run (.byKey id) numberCalls = some (t', rs) ∧
      t'.rbTreeForeach .right = some l ∧ l.Pairwise (Dir.right.before (RbTreeOps.byKey id).Lt) ∧
      ∀ i, i ∈ l ↔ i ∈ Op.afterRun (.byKey id) ∅ numberCalls :=
  foreach_run_eq (RbTreeOps.byKey_lawful id) zeros numberCalls (by
    simp [numberCalls, Op.LegalRun, Op.Legal, Op.after, RbTreeOps.byKey_nodes_eq_zero]) .right

end RbTree

end Mh.Rb
