import Mh.Zone.Alloc
import Mathlib.Data.Set.Insert
import Mathlib.Order.CompletePartialOrder

/-!
# Kernel virtual ranges

`src/vmap.c`: the free ranges of the kernel's virtual address space, kept in a tree
keyed by address (`vmap_rbtree`) and in a zone of `alloc.c`.

The tree is taken to be an ordered map for its comparison functions.  What matters of
it is the set of its nodes, and which of them `rb_tree_insert_node` compares a new
node with: those on the way to its place, any of which may trip the assertions of
`vmap_compare_nodes`.  `Rb` is that choice.

`State` adds what the code does not record: the addresses handed out and the
addresses ever put into the zone.
-/

namespace Mh.Vmap

open Mh.Zone

/-- `VFNT_INVALID`, `VFNT_FREE`, `VFNT_MAP`. -/
inductive VfnType
  | invalid
  | free
  | map
deriving DecidableEq, Repr

/-- `struct vme`. -/
structure Vme where
  addr : Nat
  size : Nat
  type : VfnType
deriving DecidableEq, Repr

/-- `vmap_rbtree` and `vmap_size`. -/
structure Db where
  tree : List Vme
  size : Nat
deriving DecidableEq, Repr

/-- The nodes that inserting a node into the tree compares it with. -/
structure Rb where
  path : List Vme → Vme → List Vme
  path_sub : ∀ tree vme, ∀ n ∈ path tree vme, n ∈ tree

/-- `vmap_remove`. -/
def vmapRemove (db : Db) (vme : Vme) : Db where
  tree := db.tree.erase vme
  size := w32 (db.size + (2 ^ 32 - vme.size))

/-- `vmap_compare_key`. -/
def vmapCompareKey (vme : Vme) (va : Nat) : Int :=
  if va < vme.addr then 1
  else if w32 (vme.addr + vme.size + (2 ^ 32 - 1)) < va then -1
  else 0

/-- `vmap_find`. -/
def vmapFind (db : Db) (va : Nat) : Option Vme := db.tree.find? (vmapCompareKey · va = 0)

/-- The assertions of `vmap_compare_nodes`. -/
def vmapCompareOk (vmap1 vmap2 : Vme) : Bool :=
  (vmap1.addr < vmap2.addr || vmap2.size < vmap1.addr) &&
    (vmap2.addr < vmap1.addr || vmap1.size < vmap2.addr)

/-- `vmap_insert`.  A node that compares equal to one of the tree is not added. -/
def vmapInsert (rb : Rb) (db : Db) (start len : Nat) (type : VfnType) :
    Except Panic (Vme × Db) :=
  let vme : Vme := ⟨start, len, type⟩
  let seen := rb.path db.tree vme
  if seen.all (vmapCompareOk vme) then
    .ok (vme, { tree := if seen.any (·.addr = start) then db.tree else vme :: db.tree
                size := w32 (db.size + len) })
  else .error .overlap

/-- `___get_neighbors`. -/
def getNeighbors (db : Db) (addr size : Nat) : Option Vme × Option Vme :=
  let free (o : Option Vme) : Option Vme := o.filter (·.type = .free)
  (if addr = 0 then none else free (vmapFind db (addr - 1)), free (vmapFind db (w32 (addr + size))))

/-- What `vmap.c` compiles `alloc.c` against. -/
def backend (rb : Rb) : Backend Db Vme where
  addr _ vme := vme.addr
  size _ vme := vme.size
  getNeighbors db addr size := .ok (getNeighbors db addr size)
  mkptr db addr size := vmapInsert rb db addr size .free
  freeptr := vmapRemove

/-- The tree and `vmap_zone`. -/
abbrev VZone := Zones Unit Db Vme

/-- `vmap_init`. -/
def vmapInit : VZone := Zone.init ⟨[], 0⟩

/-- The calls of the zone. -/
inductive Op
  | free (va size : Nat)
  | alloc (size : Nat)
deriving DecidableEq, Repr

/-- `vmapzone_free` and `vmapzone_alloc`. -/
def exec (rb : Rb) (z : VZone) : Op → Except Panic (Nat × VZone)
  | .free va size => (Zone.free (backend rb) z () va size).map fun z ↦ (0, z)
  | .alloc size => Zone.alloc (backend rb) z () size

/-! ## Runs -/

/-- The addresses of a range. -/
def addrs (va size : Nat) : Set Nat := {x | va ≤ x ∧ x < va + size}

/-- The free addresses. -/
def freeAddrs (z : VZone) : Set Nat := {x | ∃ vme ∈ z.db.tree, x ∈ addrs vme.addr vme.size}

/-- The zone, the addresses handed out and not freed since, and the addresses ever
put into the zone. -/
structure State where
  zone : VZone
  out : Set Nat
  given : Set Nat

/-- The calls a client may make: it frees ranges that are not empty, are below
`2 ^ 31` in size, do not wrap, do not contain zero and are not free. -/
def Allowed (s : State) : Op → Prop
  | .free va size => 0 < size ∧ size < 2 ^ 31 ∧ 0 < va ∧ va + size ≤ 2 ^ 32 ∧
      Disjoint (addrs va size) (freeAddrs s.zone)
  | .alloc size => 0 < size ∧ size < 2 ^ 32

/-- The state after a call that returns `r`. -/
def State.after (s : State) (z : VZone) : Op → Nat → State
  | .free va size, _ => ⟨z, s.out \ addrs va size, s.given ∪ addrs va size⟩
  | .alloc size, r => if r = 0 then { s with zone := z } else ⟨z, s.out ∪ addrs r size, s.given⟩

/-- A call that returns. -/
def Step (rb : Rb) (s : State) (op : Op) (s' : State) : Prop :=
  Allowed s op ∧ ∃ r z, exec rb s.zone op = .ok (r, z) ∧ s' = s.after z op r

/-- Nothing is free and nothing has been handed out. -/
def State.init : State := ⟨vmapInit, ∅, ∅⟩

end Mh.Vmap
