import Mh.Zone.Alloc
import Mh.Lib.Run
import Mathlib.Data.Set.Insert

/-!
# The address space of a process

`vmap.c` of `libmrg`: the map of the part of a process's address space that `mmap` takes its
ranges from.  The entries of `vmap_rbtree` are the free ranges, which are also in a zone of
`alloc.c`, and the ranges that have been handed out, each with the type that the page fault
handler goes by.  `alloc.c` is that of the kernel, but for its includes and the names of `ffs`
and `fls`.

`malloc` and the tree are taken to be correct.  What matters of the tree is the set of its
nodes, and which of them `rb_tree_insert_node` compares a new node with, any of which may trip
the assertions of `vmap_compare_nodes`.  `Rb` is that choice.

`State` adds what the code does not record: the ranges handed out and not freed since.
-/

namespace Mh.Mrg

open Mh.Zone

/-! ## The tree -/

/-- `VFNT_INVALID`. -/
def vfntInvalid : UInt8 := 0

/-- `VFNT_FREE`. -/
def vfntFree : UInt8 := 1

/-- `VFNT_RWDATA`. -/
def vfntRwdata : UInt8 := 3

/-- `struct vme`. -/
structure Vme where
  type : UInt8
  addr : Nat
  size : Nat
deriving DecidableEq, Repr

/-- `vmap_rbtree` and `vmap_size`. -/
structure Db where
  tree : List Vme
  size : Nat
deriving DecidableEq, Repr

/-- The nodes that inserting a node into the tree compares it with. -/
structure Rb where
  path : List Vme → Vme → List Vme
  path_sub : ∀ tree vme, ∀ n ∈ path tree vme, n ∈ tree

/-- What stops a process here: an assertion of `alloc.c` or of `vmap_compare_nodes`, and the
four of `vmap_free`. -/
inductive Panic
  | zone (e : Zone.Panic)
  | null
  | addr
  | size
  | type
deriving DecidableEq, Repr

/-- `vmap_remove`. -/
def vmapRemove (db : Db) (vme : Vme) : Db where
  tree := db.tree.erase vme
  size := w32 (db.size + (2 ^ 32 - vme.size))

/-- `vmap_compare_key`. -/
def vmapCompareKey (vme : Vme) (va : Nat) : Int :=
  if va < vme.addr then 1
  else if w32 (vme.addr + w32 (vme.size + (2 ^ 32 - 1))) < va then -1
  else 0

/-- `vmap_find`. -/
def vmapFind (db : Db) (va : Nat) : Option Vme := db.tree.find? (vmapCompareKey · va = 0)

/-- The assertions of `vmap_compare_nodes`. -/
def vmapCompareOk (vmap1 vmap2 : Vme) : Bool :=
  (vmap1.addr < vmap2.addr || vmap2.size < vmap1.addr) &&
    (vmap2.addr < vmap1.addr || vmap1.size < vmap2.addr)

/-- `vmap_insert`.  A node that compares equal to one of the tree is not added. -/
def vmapInsert (rb : Rb) (db : Db) (start len : Nat) (type : UInt8) :
    Except Zone.Panic (Vme × Db) :=
  let vme : Vme := ⟨type, start, len⟩
  let seen := rb.path db.tree vme
  if seen.all (vmapCompareOk vme) then
    .ok (vme, { tree := if seen.any (·.addr = start) then db.tree else vme :: db.tree
                size := w32 (db.size + len) })
  else .error .overlap

/-! ## The allocator -/

/-- `___get_neighbors`. -/
def getNeighbors (db : Db) (addr size : Nat) : Option Vme × Option Vme :=
  let free (o : Option Vme) : Option Vme := o.filter (·.type = vfntFree)
  (if addr = 0 then none else free (vmapFind db (addr - 1)), free (vmapFind db (w32 (addr + size))))

/-- What `vmap.c` compiles `alloc.c` against. -/
def backend (rb : Rb) : Backend Db Vme where
  addr _ vme := vme.addr
  size _ vme := vme.size
  getNeighbors db addr size := .ok (getNeighbors db addr size)
  mkptr db addr size := vmapInsert rb db addr size vfntFree
  freeptr := vmapRemove

/-- The tree and `vmap_zone`. -/
abbrev VZone := Zones Unit Db Vme

/-- `VM_MINMMAP_ADDRESS`: `768L << L1_SHIFT`. -/
def vmMinmmap : Nat := 768 * 2 ^ 21

/-- The static variables of `vmap.c`. -/
structure Vmap where
  initialized : Bool
  zone : VZone

section Code

variable (rb : Rb) (vmMaxmmap : Nat)

/-- `vmap_init`.  `VM_MAXMMAP_ADDRESS` is the end of the stack's range, whose size comes with
the system headers. -/
def vmapInit : Except Zone.Panic VZone :=
  Zone.free (backend rb) (Zone.init ⟨[], 0⟩) () vmMinmmap (vmMaxmmap - vmMinmmap)

/-- The zone once it has been initialized. -/
def Vmap.ready (s : Vmap) : Except Zone.Panic VZone :=
  if s.initialized then .ok s.zone else vmapInit rb vmMaxmmap

/-- `vmap_alloc`, with the assertions that it may trip. -/
def vmapAllocz (s : Vmap) (size : Nat) (type : UInt8) : Except Zone.Panic (Nat × Vmap) := do
  let z ← s.ready rb vmMaxmmap
  let pgsz := roundPage size
  let (va, z) ← Zone.alloc (backend rb) z () pgsz
  if va ≠ 0 then
    let (_, db) ← vmapInsert rb z.db va pgsz type
    return (va, ⟨true, { z with db := db }⟩)
  else return (va, ⟨true, z⟩)

/-- `vmap_alloc`. -/
def vmapAlloc (s : Vmap) (size : Nat) (type : UInt8) : Except Panic (Nat × Vmap) :=
  (vmapAllocz rb vmMaxmmap s size type).mapError .zone

/-- `vmap_free`. -/
def vmapFree (s : Vmap) (va size : Nat) : Except Panic Vmap := do
  let z ← (s.ready rb vmMaxmmap).mapError .zone
  let size := roundPage size
  match vmapFind z.db va with
  | none => throw .null
  | some vme =>
    if vme.addr ≠ va then throw .addr
    else if vme.size ≠ size then throw .size
    else if vme.type = vfntFree then throw .type
    else
      let z ←
        (Zone.free (backend rb) { z with db := vmapRemove z.db vme } () va size).mapError .zone
      return ⟨true, z⟩

/-- `vmap_info`: the start, the size and the type that it stores. -/
def vmapInfo (s : Vmap) (va : Nat) : Nat × Nat × UInt8 :=
  match if s.initialized then vmapFind s.zone.db va else none with
  | none => (0, 0, vfntInvalid)
  | some vme => (vme.addr, vme.size, vme.type)

end Code

/-! ## Runs -/

/-- The calls of a process. -/
inductive Op
  | alloc (size : Nat) (type : UInt8)
  | free (va size : Nat)
deriving DecidableEq, Repr

/-- The map, and the ranges handed out and not freed since, each by its address and its size
in full pages. -/
structure State where
  vmap : Vmap
  out : Set (Nat × Nat)

/-- The static variables at first, and nothing has been handed out. -/
def State.init : State := ⟨⟨false, Zone.init ⟨[], 0⟩⟩, ∅⟩

/-- The calls that a process may make: it asks for ranges that are not empty, by another type
than that of free ones, and frees the ranges that it has got. -/
def Allowed (s : State) : Op → Prop
  | .alloc size type => 0 < size ∧ size < 2 ^ 32 ∧ type ≠ vfntFree
  | .free va size => (va, roundPage size) ∈ s.out

/-- What a call returns, with the state that it leaves. -/
def exec (rb : Rb) (vmMaxmmap : Nat) (s : State) : Op → Except Panic (Nat × State)
  | .alloc size type => do
    let (va, v) ← vmapAlloc rb vmMaxmmap s.vmap size type
    return (va, ⟨v, if va = 0 then s.out else insert (va, roundPage size) s.out⟩)
  | .free va size => do
    let v ← vmapFree rb vmMaxmmap s.vmap va size
    return (0, ⟨v, s.out \ {(va, roundPage size)}⟩)

/-- A call that returns. -/
def Step (rb : Rb) (vmMaxmmap : Nat) (s : State) (op : Op) (s' : State) : Prop :=
  Allowed s op ∧ ∃ r, exec rb vmMaxmmap s op = .ok (r, s')

end Mh.Mrg
