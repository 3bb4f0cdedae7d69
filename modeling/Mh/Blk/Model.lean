import Mathlib.Data.List.Sort
import Mathlib.Logic.Function.Basic
import Mh.Param
import Mh.Squoze.Append

/-!
# Disks and partitions

`libmrg/blk.c` keeps the disks of a process in a tree by name and counts the handles on each.  A
disk that is deleted leaves the tree at once, and is freed with its last handle.  A partition, of
`libpart/part.c`, is a disk that passes its requests on to the disk that it is a part of, on which
it has a handle.

The tree is the list of its nodes in order.  A `struct blkdisk` is a block of the heap: `malloc`
hands out a block that there has not been before, and a block that has been freed cannot be read.
-/

namespace Mh.Blk

/-- A `struct blkdisk *`. -/
abbrev Ptr := Nat

/-- `struct blkinfo`. -/
structure Info where
  blksz : BitVec 32
  blkno : BitVec 64
deriving DecidableEq, Repr

/-- `struct part`. -/
structure Part where
  blk : Ptr
  start : BitVec 64
  length : BitVec 64
deriving DecidableEq, Repr

/-- What `ops` and `opq` of a disk stand for: a driver and the disk as it knows it, or a
partition. -/
inductive Ops
  | driver (opq : Nat)
  | part (p : Part)
deriving DecidableEq, Repr

/-- `struct blkdisk`. -/
structure Blkdisk where
  invalid : Bool
  ref : BitVec 32
  nameid : BitVec 64
  blkdevid : BitVec 64
  info : Info
  ops : Ops
deriving DecidableEq, Repr

/-- The disks of a process. -/
structure State where
  /-- `initialised`. -/
  initialised : Bool
  /-- `blk_rbtree`: the names, with the disks. -/
  tree : List (BitVec 64 × Ptr)
  /-- The blocks that have not been freed. -/
  mem : Ptr → Option Blkdisk
  /-- The next block that `malloc` hands out. -/
  next : Ptr
  /-- The calls of `free`, the last one first. -/
  freed : List Ptr

/-- What goes wrong: the tree has no functions to compare with, a block that has been freed is
read, or an assertion fails. -/
inductive Fault
  | uninit | freed | assertion
deriving DecidableEq, Repr

namespace State

/-- The state before the first call. -/
def init : State := ⟨false, [], fun _ ↦ none, 0, []⟩

variable (s : State)

/-- Read a block. -/
def read (p : Ptr) : Except Fault Blkdisk :=
  match s.mem p with
  | some blk => .ok blk
  | none => .error .freed

/-- Write a block. -/
def write (p : Ptr) (blk : Blkdisk) : State := { s with mem := Function.update s.mem p (some blk) }

/-- `free`. -/
def free (p : Ptr) : State :=
  { s with mem := Function.update s.mem p none, freed := p :: s.freed }

/-- `rb_tree_init`, where that has not been done. -/
def initTree : State :=
  if s.initialised then s else { s with initialised := true, tree := [] }

/-- The node of a name. -/
def lookup (name : BitVec 64) : Option Ptr := (s.tree.find? fun e ↦ e.1 = name).map (·.2)

/-- `rb_tree_find_node`. -/
def findNode (name : BitVec 64) : Except Fault (Option Ptr) :=
  if s.initialised then .ok (s.lookup name) else .error .uninit

/-- `rb_tree_insert_node`: a name that is there already stays as it is. -/
def insertNode (name : BitVec 64) (p : Ptr) : State :=
  match s.lookup name with
  | some _ => s
  | none => { s with tree := s.tree.orderedInsert (fun e e' ↦ e.1 ≤ e'.1) (name, p) }

/-- `rb_tree_remove_node`. -/
def removeNode (name : BitVec 64) (p : Ptr) : State := { s with tree := s.tree.erase (name, p) }

/-! ## Disks -/

/-- `blk_add`, where `malloc` succeeds. -/
def blkAdd (disk blkdev : BitVec 64) (info : Info) (ops : Ops) : State :=
  let s := s.initTree
  let blkdisk := { invalid := false, ref := 0, nameid := disk, blkdevid := blkdev, info, ops }
  { s.write s.next blkdisk with next := s.next + 1 }.insertNode disk s.next

/-- `blk_del`. -/
def blkDel (disk : BitVec 64) : Except Fault State := do
  match ← s.findNode disk with
  | none => return s
  | some p =>
    let blkdisk ← s.read p
    let s := (s.write p { blkdisk with invalid := true }).removeNode disk p
    return if blkdisk.ref = 0 then s.free p else s

/-- `blk_iter`. -/
def blkIter (cur : BitVec 64) : Except Fault (BitVec 64) := do
  let blk ←
    if cur = 0 then pure (s.tree.head?.map (·.2))
    else match ← s.findNode cur with
      | none => pure none
      | some _ => pure ((s.tree.find? fun e ↦ cur < e.1).map (·.2))
  match blk with
  | none => return 0
  | some p => return (← s.read p).nameid

/-- `blk_open`. -/
def blkOpen (disk : BitVec 64) : Except Fault (State × Option Ptr) := do
  if s.initialised then
    match ← s.findNode disk with
    | none => return (s, none)
    | some p =>
      let blk ← s.read p
      if blk.invalid then throw .assertion
      return (s.write p { blk with ref := blk.ref + 1 }, some p)
  else return (s.initTree, none)

/-- `blk_close`. -/
def blkClose (p : Ptr) : Except Fault State := do
  let blk ← s.read p
  let blk := { blk with ref := blk.ref - 1 }
  let s := s.write p blk
  return if blk.invalid ∧ blk.ref = 0 then s.free p else s

/-- `blk_info`: the value that it returns, of which there is none where it succeeds, and `*info`. -/
def blkInfo (p : Ptr) (info : Info) : Except Fault (Option Int × Info) := do
  let blk ← s.read p
  return if blk.invalid then (some Errno.ENODEV.neg, info) else (none, blk.info)

/-- `squoze_sprintf(blkdev, "p%d", pno)`. -/
def partName (blkdev : BitVec 64) (pno : BitVec 32) : BitVec 64 :=
  let str := 'p' :: (toString pno.toInt).toList
  .ofNat 64 ((Squoze.squozeAppend Squoze.wrap 13 blkdev.toNat str).getD 0)

/-- `partadd`, where `malloc` succeeds; `blki` is what is on its stack. -/
def partadd (pno : BitVec 32) (blkdev start len : BitVec 64) (blki : Info) :
    Except Fault State := do
  let (s, blk) ← s.blkOpen blkdev
  match blk with
  | none => return s
  | some blk =>
    let (_, blki) ← s.blkInfo blk blki
    let info := { blksz := blki.blksz, blkno := len }
    return s.blkAdd (partName blkdev pno) blkdev info (.part { blk, start, length := len })

end State

/-! ## Requests -/

/-- The arguments of a request.  `nblks` is a `size_t`, widened as the sum with `blkid` does. -/
structure Request where
  addr : BitVec 32
  sz : BitVec 32
  blkid : BitVec 64
  nblks : BitVec 64
  evt : BitVec 32
  retp : BitVec 32
deriving DecidableEq, Repr

/-- The direction of a request. -/
inductive Dir
  | rd | wr
deriving DecidableEq, Repr

/-- A call that a request has led to, of `blk_read` or `blk_write` or of a driver. -/
inductive Call
  | blk (p : Ptr) (r : Request)
  | driver (opq : Nat) (r : Request)
deriving DecidableEq, Repr

/-- What a request has led to, and the value that is returned in the end: there is none where a
block that has been freed is read, or where the nesting is too deep. -/
structure Outcome where
  ret : Option Int
  calls : List Call
deriving DecidableEq, Repr

/-- `part_blkrd` and `part_blkwr`, over the call with which they pass a request on. -/
def partIo (lower : Ptr → Request → Outcome) (p : Part) (r : Request) : Outcome :=
  if p.length ≤ r.blkid ∨ p.length ≤ r.blkid + r.nblks then ⟨some Errno.EINVAL.neg, []⟩
  else lower p.blk { r with blkid := p.start + r.blkid }

section Io

variable (drv : Dir → Nat → Request → Int) (mem : Ptr → Option Blkdisk)

/-- `blk_read` and `blk_write`, down to a nesting of `fuel` disks; `drv` is what the functions of
the drivers return. -/
def blkIo (dir : Dir) : Nat → Ptr → Request → Outcome
  | 0, p, r => ⟨none, [.blk p r]⟩
  | fuel + 1, p, r =>
    let out : Outcome :=
      match mem p with
      | none => ⟨none, []⟩
      | some blk =>
        if blk.invalid then ⟨some Errno.ENODEV.neg, []⟩
        else
          match blk.ops with
          | .driver opq => ⟨some (drv dir opq r), [.driver opq r]⟩
          | .part p => partIo (blkIo dir fuel) p r
    { out with calls := .blk p r :: out.calls }

/-- `blk_read`. -/
def blkRead (fuel : Nat) : Ptr → Request → Outcome := blkIo drv mem .rd fuel

/-- `blk_write`. -/
def blkWrite (fuel : Nat) : Ptr → Request → Outcome := blkIo drv mem .wr fuel

/-- `part_blkrd`. -/
def partBlkrd (fuel : Nat) : Part → Request → Outcome := partIo (blkRead drv mem fuel)

/-- `part_blkwr`. -/
def partBlkwr (fuel : Nat) : Part → Request → Outcome := partIo (blkWrite drv mem fuel)

end Io

end Mh.Blk
