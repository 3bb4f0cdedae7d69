import Mathlib.Logic.Function.Basic
import Mh.Lib.RedBlack

/-!
# The tree of `rb.c`

The devices of the kernel, the virtual memory of a process and its disks are kept in trees of
`ukern/lib/gen/rb.c`, which are built of nodes that are in the items themselves.  A node has a
pointer to either child and, in one word, a pointer to its father, its colour and the side of its
father on which it is.

The root is treated as the left child of a father, too: the code takes the address of `rbt_root` for
that of a node.  There is nothing else in that node, and to read the rest of it, or to follow a null
pointer, is an error: a function gives none then, and also where its loop takes more steps than the
fuel it has been given.

The list `link`, of the items in order, is what a tree has with `RBDEBUG` in addition.
-/

namespace Mh.Rb

open Lib.RedBlack (Dir)

/-- A `struct rb_node *`: the sentinel, the address of `rbt_root` or the node of an item. -/
inductive Ptr (ι : Type)
  | null
  | tree
  | node (i : ι)
deriving DecidableEq, Repr

/-- `struct rb_node`. -/
structure RbNode (ι : Type) where
  /-- `rb_nodes`. -/
  nodes : Dir → Ptr ι
  /-- `RB_FATHER`. -/
  father : Ptr ι
  /-- `RB_POSITION`. -/
  position : Dir
  /-- `RB_FLAG_RED`. -/
  red : Bool

/-- `rb_tree_ops_t`. -/
structure RbTreeOps (ι : Type) (κ : Type) where
  compareNodes : ι → ι → Int
  compareKey : ι → κ → Int

/-- `struct rb_tree`, with the nodes of all items. -/
structure RbTree (ι : Type) where
  /-- `rbt_root`. -/
  root : Ptr ι
  /-- `rbt_minmax`. -/
  minmax : Dir → Ptr ι
  /-- `rbt_nodes`. -/
  link : List ι
  /-- The `rb_node` of an item. -/
  cell : ι → RbNode ι

/-- `rb_nodes[diff < 0]`. -/
def side (diff : Int) : Dir := if diff < 0 then .right else .left

/-- `TAILQ_INSERT_BEFORE`. -/
def insertBefore {ι : Type} [DecidableEq ι] (f x : ι) : List ι → List ι
  | [] => []
  | a :: l => if a = f then x :: a :: l else a :: insertBefore f x l

/-- `TAILQ_INSERT_AFTER`. -/
def insertAfter {ι : Type} [DecidableEq ι] (f x : ι) : List ι → List ι
  | [] => []
  | a :: l => if a = f then a :: x :: l else a :: insertAfter f x l

namespace RbTree

variable {ι κ : Type} [DecidableEq ι] (t : RbTree ι)

/-! ## The macros of `rbtree.h` -/

/-- `*rb`. -/
def get : Ptr ι → Option (RbNode ι)
  | .node i => some (t.cell i)
  | _ => none

/-- Write the node of an item. -/
def put (i : ι) (n : RbNode ι) : RbTree ι := { t with cell := Function.update t.cell i n }

/-- Change `*rb`. -/
def modify (p : Ptr ι) (f : RbNode ι → RbNode ι) : Option (RbTree ι) :=
  match p with
  | .node i => some (t.put i (f (t.cell i)))
  | _ => none

/-- `rb->rb_nodes[d]`. -/
def child (p : Ptr ι) (d : Dir) : Option (Ptr ι) :=
  match p, d with
  | .node i, d => some ((t.cell i).nodes d)
  | .tree, .left => some t.root
  | _, _ => none

/-- `rb->rb_nodes[d] = q`. -/
def setChild (p : Ptr ι) (d : Dir) (q : Ptr ι) : Option (RbTree ι) :=
  match p, d with
  | .node i, d =>
    some (t.put i { t.cell i with nodes := Function.update (t.cell i).nodes d q })
  | .tree, .left => some { t with root := q }
  | _, _ => none

/-- `RB_FATHER`. -/
def father (p : Ptr ι) : Option (Ptr ι) := (t.get p).map (·.father)

/-- `RB_POSITION`. -/
def position (p : Ptr ι) : Option Dir := (t.get p).map (·.position)

/-- `RB_RED_P`. -/
def redP : Ptr ι → Option Bool
  | .null => some false
  | p => (t.get p).map (·.red)

/-- `RB_BLACK_P`. -/
def blackP (p : Ptr ι) : Option Bool := (t.redP p).map (!·)

/-- `RB_CHILDLESS_P`. -/
def childlessP : Ptr ι → Option Bool
  | .null => some true
  | p => (t.get p).map fun n ↦ n.nodes .left = .null ∧ n.nodes .right = .null

/-- `RB_TWOCHILDREN_P`. -/
def twochildrenP : Ptr ι → Option Bool
  | .null => some false
  | p => (t.get p).map fun n ↦ n.nodes .left ≠ .null ∧ n.nodes .right ≠ .null

/-- `RB_SET_FATHER`. -/
def setFather (p q : Ptr ι) : Option (RbTree ι) := t.modify p ({ · with father := q })

/-- `RB_SET_POSITION`. -/
def setPosition (p : Ptr ι) (d : Dir) : Option (RbTree ι) := t.modify p ({ · with position := d })

/-- `RB_MARK_RED`, or `RB_MARK_BLACK`. -/
def mark (p : Ptr ι) (red : Bool) : Option (RbTree ι) := t.modify p ({ · with red })

/-- `RB_SWAP_PROPERTIES`. -/
def swapProperties (p q : Ptr ι) : Option (RbTree ι) := do
  let a ← t.get p
  let b ← t.get q
  let t ← t.modify p ({ · with position := b.position, red := b.red })
  t.modify q ({ · with position := a.position, red := a.red })

/-- `RB_COPY_PROPERTIES`. -/
def copyProperties (p q : Ptr ι) : Option (RbTree ι) := do
  let b ← t.get q
  t.modify p ({ · with position := b.position, red := b.red })

/-! ## Searches -/

/-- `rb_tree_init`. -/
def rbTreeInit : RbTree ι := { t with root := .null, minmax := fun _ ↦ .null, link := [] }

/-- The loop of `rb_tree_find_node`. -/
def findLoop (cmp : ι → Int) : Nat → Ptr ι → Option (Option ι)
  | 0, _ => none
  | _ + 1, .null => some none
  | _ + 1, .tree => none
  | fuel + 1, .node i => do
    if cmp i = 0 then return some i
    findLoop cmp fuel (← t.child (.node i) (side (cmp i)))

/-- `rb_tree_find_node`. -/
def rbTreeFindNode (ops : RbTreeOps ι κ) (fuel : Nat) (key : κ) : Option (Option ι) :=
  t.findLoop (ops.compareKey · key) fuel t.root

/-- The loop of `rb_tree_find_node_geq` and `rb_tree_find_node_leq`, which keep the last node that
they pass on a side of the key. -/
def nearLoop (cmp : ι → Int) (keep : Int → Bool) : Nat → Ptr ι → Option ι → Option (Option ι)
  | 0, _, _ => none
  | _ + 1, .null, last => some last
  | _ + 1, .tree, _ => none
  | fuel + 1, .node i, last => do
    if cmp i = 0 then return some i
    let last := if keep (cmp i) then some i else last
    nearLoop cmp keep fuel (← t.child (.node i) (side (cmp i))) last

/-- `rb_tree_find_node_geq`. -/
def rbTreeFindNodeGeq (ops : RbTreeOps ι κ) (fuel : Nat) (key : κ) : Option (Option ι) :=
  t.nearLoop (ops.compareKey · key) (0 < ·) fuel t.root none

/-- `rb_tree_find_node_leq`. -/
def rbTreeFindNodeLeq (ops : RbTreeOps ι κ) (fuel : Nat) (key : κ) : Option (Option ι) :=
  t.nearLoop (ops.compareKey · key) (· < 0) fuel t.root none

/-! ## Rotation -/

/-- `rb_tree_reparent_nodes`. -/
def rbTreeReparentNodes (oldFather : Ptr ι) (which : Dir) : Option (RbTree ι) := do
  let other := which.other
  let grandpa ← t.father oldFather
  let oldChild ← t.child oldFather which
  let newFather := oldChild
  let newChild := oldFather
  let t ← t.setChild grandpa (← t.position oldFather) newFather
  let t ← t.setChild newChild which (← t.child oldChild other)
  let t ← t.setChild newFather other newChild
  let t ← t.setFather newFather grandpa
  let t ← t.setFather newChild newFather
  let t ← t.swapProperties newFather newChild
  let t ← t.setPosition newChild other
  let p ← t.child newChild which
  if p = .null then return t
  let t ← t.setFather p newChild
  t.setPosition p which

/-! ## Insertion -/

/-- Where a search for the place of a new leaf ends. -/
inductive Place (ι : Type)
  | found (tobj : ι)
  | free (parent : Ptr ι) (position : Dir)

/-- The first loop of `rb_tree_insert_node`. -/
def placeLoop (cmp : ι → Int) : Nat → (tmp parent : Ptr ι) → Dir → Option (Place ι)
  | 0, _, _, _ => none
  | _ + 1, .null, parent, position => some (.free parent position)
  | _ + 1, .tree, _, _ => none
  | fuel + 1, .node i, _, _ => do
    if cmp i = 0 then return .found i
    placeLoop cmp fuel (← t.child (.node i) (side (cmp i))) (.node i) (side (cmp i))

/-- The end of `rb_tree_insert_rebalance`, where the uncle is black: cases 2 and 3. -/
def insertTurn (self father grandpa : Ptr ι) (which : Dir) : Option (RbTree ι) := do
  let t ← if self = (← t.child father which.other) then t.rbTreeReparentNodes father which.other
    else pure t
  let t ← t.rbTreeReparentNodes grandpa which
  t.mark t.root false

/-- The loop of `rb_tree_insert_rebalance`. -/
def insertLoop : Nat → RbTree ι → (self father : Ptr ι) → Option (RbTree ι)
  | 0, _, _, _ => none
  | fuel + 1, t, self, father => do
    let grandpa ← t.father father
    let which : Dir := if father = (← t.child grandpa .right) then .right else .left
    let uncle ← t.child grandpa which.other
    if ← t.blackP uncle then return ← t.insertTurn self father grandpa which
    let t ← t.mark uncle false
    let t ← t.mark father false
    if t.root = grandpa then return t
    let t ← t.mark grandpa true
    let self := grandpa
    let father ← t.father self
    if ← t.blackP father then return t
    insertLoop fuel t self father

/-- `rb_tree_insert_rebalance`. -/
def rbTreeInsertRebalance (fuel : Nat) (self : Ptr ι) : Option (RbTree ι) := do
  insertLoop fuel t self (← t.father self)

/-- `RB_TAILQ_INSERT_HEAD`, `RB_TAILQ_INSERT_BEFORE` and `RB_TAILQ_INSERT_AFTER`, as
`rb_tree_insert_node` makes use of them. -/
def linkNode (self : ι) (position : Dir) : Option (RbTree ι) :=
  if t.root = .node self then some { t with link := self :: t.link }
  else
    match (t.cell self).father, position with
    | .node f, .left => some { t with link := insertBefore f self t.link }
    | .node f, .right => some { t with link := insertAfter f self t.link }
    | _, _ => none

/-- What `rb_tree_insert_node` does at the place it has found. -/
def insertAt (fuel : Nat) (self : ι) (parent : Ptr ι) (position : Dir) : Option (RbTree ι) := do
  let t ← t.setFather (.node self) parent
  let t ← t.setPosition (.node self) position
  let (t, rebalance) ← if parent = .tree then do
      let t ← t.mark (.node self) false
      pure ({ t with minmax := fun _ ↦ .node self }, false)
    else do
      let t := { t with
        minmax := if parent = t.minmax position then Function.update t.minmax position (.node self)
          else t.minmax }
      let t ← t.mark (.node self) true
      pure (t, ← t.redP parent)
  let t ← t.setChild (.node self) .left (← t.child parent position)
  let t ← t.setChild (.node self) .right (← t.child parent position)
  let t ← t.setChild parent position (.node self)
  let t ← t.linkNode self position
  if rebalance then t.rbTreeInsertRebalance fuel (.node self) else return t

/-- `rb_tree_insert_node`: the tree, and the item that it returns. -/
def rbTreeInsertNode (ops : RbTreeOps ι κ) (fuel : Nat) (object : ι) : Option (RbTree ι × ι) := do
  match ← t.placeLoop (ops.compareNodes · object) fuel t.root .tree .left with
  | .found tobj => return (t, tobj)
  | .free parent position => return (← t.insertAt fuel object parent position, object)

/-! ## Iteration -/

/-- The loop of `rb_tree_iterate` that goes up, until the father is in the direction. -/
def climbLoop (other : Dir) : Nat → Ptr ι → Option (Ptr ι)
  | 0, _ => none
  | fuel + 1, self => do
    if t.root = self then return .null
    if other = (← t.position self) then return ← t.father self
    climbLoop other fuel (← t.father self)

/-- The loop of `rb_tree_iterate` that goes down. -/
def dropLoop (other : Dir) : Nat → Ptr ι → Option (Ptr ι)
  | 0, _ => none
  | fuel + 1, self => do
    let p ← t.child self other
    if p = .null then return self
    dropLoop other fuel p

/-- `rb_tree_iterate`, with nodes for items; `.null` for the sentinel. -/
def rbTreeIterate (fuel : Nat) (object : Ptr ι) (direction : Dir) : Option (Ptr ι) := do
  let other := direction.other
  if object = .null then
    if t.root = .null then return .null
    return t.minmax direction
  let p ← t.child object direction
  if p = .null then t.climbLoop other fuel object else t.dropLoop other fuel p

/-! ## Removal -/

/-- `RB_BLACK_P` of both children. -/
def nephewsBlack (brother : Ptr ι) : Option Bool := do
  return (← t.blackP (← t.child brother .left)) && (← t.blackP (← t.child brother .right))

/-- The end of the loop of `rb_tree_removal_rebalance`: cases 2b, 3 and 4. -/
def removalTurn (parent : Ptr ι) (which : Dir) (brother : Ptr ι) : Option (RbTree ι) := do
  let other := which.other
  if (← t.redP parent) && (← t.blackP brother) && (← t.nephewsBlack brother) then
    let t ← t.mark parent false
    t.mark brother true
  else
    let (t, brother) ← if ← t.blackP (← t.child brother other) then do
        let t ← t.rbTreeReparentNodes brother which
        pure (t, ← t.child parent other)
      else pure (t, brother)
    let t ← t.mark (← t.child brother other) false
    t.rbTreeReparentNodes parent other

/-- `rb_tree_removal_rebalance`. -/
def rbTreeRemovalRebalance : Nat → RbTree ι → Ptr ι → Dir → Option (RbTree ι)
  | 0, _, _, _ => none
  | fuel + 1, t, parent, which => do
    if ← t.redP (← t.child parent which) then return t
    let other := which.other
    let brother ← t.child parent other
    if (← t.blackP parent) && (← t.nephewsBlack brother) then
      if ← t.redP brother then
        let t ← t.rbTreeReparentNodes parent other
        t.removalTurn parent which (← t.child parent other)
      else
        let t ← t.mark brother true
        if t.root = parent then return t
        rbTreeRemovalRebalance fuel t (← t.father parent) (← t.position parent)
    else t.removalTurn parent which brother

/-- `RB_TAILQ_REMOVE`. -/
def unlinkNode (self : ι) : RbTree ι := { t with link := t.link.erase self }

/-- `rb_tree_prune_node`. -/
def rbTreePruneNode (fuel : Nat) (self : ι) (rebalance : Bool) : Option (RbTree ι) := do
  let which ← t.position (.node self)
  let father ← t.father (.node self)
  let wasRoot : Bool := t.root = .node self
  let t ← t.setChild father which (← t.child (.node self) .left)
  let t := t.unlinkNode self
  let t := { t with
    minmax := if t.minmax which = Ptr.node self then
        let minmax := Function.update t.minmax which father
        if wasRoot then Function.update minmax .right father else minmax
      else t.minmax }
  let t ← t.setFather (.node self) .null
  if rebalance then rbTreeRemovalRebalance fuel t father which else return t

/-- The first part of `rb_tree_swap_prune_and_rebalance`: the son of the standin goes black if it is
red, and gets the father of the standin for its own if that is not the node to be removed.  The
result is whether the rest is to rebalance the tree. -/
def releaseSon (standin : Ptr ι) (near : Bool) : Option (RbTree ι × Bool) := do
  let standinWhich ← t.position standin
  let standinFather ← t.father standin
  let standinSon ← t.child standin (if near then standinWhich else standinWhich.other)
  if ← t.redP standinSon then
    let t ← t.mark standinSon false
    if near then return (t, false)
    let t ← t.setFather standinSon standinFather
    return (← t.setPosition standinSon standinWhich, false)
  else return (t, ← t.blackP standin)

/-- A child on a side moves from the node to be removed to the standin. -/
def moveSon (self : ι) (standin : Ptr ι) (d : Dir) : Option (RbTree ι) := do
  let t ← t.setChild standin d (← t.child (.node self) d)
  t.setFather (← t.child standin d) standin

/-- The standin gets the place of the node to be removed. -/
def takePlace (self : ι) (standin : Ptr ι) : Option (RbTree ι) := do
  let t ← t.copyProperties standin (.node self)
  let t ← t.setFather standin (← t.father (.node self))
  t.setChild (← t.father standin) (← t.position standin) standin

/-- The node is removed from the list, and is not the least or the greatest one any more. -/
def forget (self : ι) : Option (RbTree ι) := do
  let t := t.unlinkNode self
  let position ← t.position (.node self)
  let father ← t.father (.node self)
  let t := { t with
    minmax := if t.minmax position = Ptr.node self then Function.update t.minmax position father
      else t.minmax }
  t.setFather (.node self) .null

/-- `rb_tree_swap_prune_and_rebalance`. -/
def rbTreeSwapPruneAndRebalance (fuel : Nat) (self : ι) (standin : Ptr ι) : Option (RbTree ι) := do
  let standinWhich ← t.position standin
  let standinOther := standinWhich.other
  let standinFather ← t.father standin
  let near : Bool := standinFather = .node self
  let standinSon ← t.child standin (if near then standinWhich else standinOther)
  let (t, rebalance) ← t.releaseSon standin near
  let (t, standinFather, standinOther) ← if near then pure (t, standin, standinOther) else do
    let t ← t.setChild standinFather standinWhich standinSon
    let t ← t.moveSon self standin standinOther
    pure (t, standinFather, standinWhich)
  let t ← t.moveSon self standin standinOther
  let t ← t.takePlace self standin
  let t ← t.forget self
  if rebalance then rbTreeRemovalRebalance fuel t standinFather standinWhich else return t

/-- `rb_tree_prune_blackred_branch`. -/
def rbTreePruneBlackredBranch (self : ι) (which : Dir) : Option (RbTree ι) := do
  let father ← t.father (.node self)
  let son ← t.child (.node self) which
  let wasRoot : Bool := t.root = .node self
  let t ← t.copyProperties son (.node self)
  let t ← t.setChild father (← t.position son) son
  let t ← t.setFather son father
  let t := t.unlinkNode self
  let position ← t.position (.node self)
  let t := { t with
    minmax := if wasRoot then Function.update t.minmax which.other son
      else if t.minmax position = Ptr.node self then Function.update t.minmax position son
      else t.minmax }
  t.setFather (.node self) .null

/-- `rb_tree_remove_node`. -/
def rbTreeRemoveNode (fuel : Nat) (self : ι) : Option (RbTree ι) := do
  if ← t.childlessP (.node self) then
    let rebalance := (← t.blackP (.node self)) && (t.root ≠ .node self)
    t.rbTreePruneNode fuel self rebalance
  else if ← t.twochildrenP (.node self) then
    let which := (← t.position (.node self)).other
    let standin ← t.rbTreeIterate fuel (.node self) which
    t.rbTreeSwapPruneAndRebalance fuel self standin
  else
    let which : Dir := if (← t.child (.node self) .left) = .null then .right else .left
    t.rbTreePruneBlackredBranch self which

end RbTree

end Mh.Rb
