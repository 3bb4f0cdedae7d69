import Mh.Lib.Links
import Mh.Lib.Run
import Mh.Bus.State

/-!
# The life of a device

The operations of `src/bus.c` on the entries of the buses, against `usrdev_destroy` of
`src/usrdev.c`, on any number of threads that run on any number of CPUs.  A step of a thread is its
part under a lock, or under the locks of a bus and of a device; between two such parts every other
thread may run.  `bus_plug` is the lookup in the tree and the part under the locks; `bus_copy`,
which `thfork` calls for every descriptor of a new thread, has three parts; `usrdev_destroy` is
`dev_detach` with a step for every entry of `destroy_list` and one for reading the link to the next,
then the end of the requests and `heap_free`.

The lists of entries are the links that `LIST_INSERT_HEAD` and `LIST_REMOVE` write.  Memory that is
given back is not handed out again.  What is left out are the identifiers that drivers give to
opened devices, and `bd->bus`, which is the bus of the entry; `ok` is whether permissions and the
driver let an operation succeed.  A thread that ends unplugs all its descriptors and destroys its
devices, as it could before.
-/

namespace Mh.Life

open Mh.Lib Mh.Bus

/-- A descriptor of a bus: the thread that has the bus, and the index. -/
abbrev Slot := Nat × Nat

/-- `struct bdeve`. -/
structure Bdeve where
  bsy : Bool
  plg : Bool
  dev : Option Nat
deriving DecidableEq

/-- What a link is in: `busdevs` of a device, the `destroy_list` of a thread, or an entry. -/
inductive Node
  | busdevs (d : Nat) | destroy (t : Nat) | entry (k : Slot)
deriving DecidableEq

/-- `struct dev`, with the `struct usrdev` around it. -/
structure Dev where
  did : Nat
  /-- `ops->clone` is there. -/
  clone : Bool
  offline : Bool
  /-- The thread that has the device in its `usrdevs`. -/
  owner : Option Nat
  /-- `heap_free` has been called. -/
  freed : Bool
deriving DecidableEq

/-- Where a thread is. -/
inductive Pc
  /-- Not created, or being forked, or between two operations. -/
  | unborn | child | idle
  /-- In `bus_plug`, with the device of the lookup. -/
  | plug (d : Nat)
  /-- In `thfork` of `c`, before descriptor `i` is copied, or in `bus_copy` of it. -/
  | fork (c i : Nat) | marked (c i : Nat) | copied (c i d : Nat)
  /-- In `usrdev_destroy`, before `dev_detach`, or in it. -/
  | detach (d : Nat) | untreed (d : Nat)
  /-- In the loop of `dev_detach`, at an entry or at the end, or done with an entry. -/
  | detachAt (d : Nat) (bd : Option Node) | detachNext (d : Nat) (bd : Slot)
  /-- In `usrdev_destroy`, before `heap_free`. -/
  | detached (d : Nat)
deriving DecidableEq

/-- The state of the buses and the devices. -/
structure State where
  /-- `sys_device_rbtree`. -/
  tree : List Nat
  devs : Nat → Dev
  /-- The devices up to here have been allocated. -/
  next : Nat
  slots : Slot → Bdeve
  links : Links Node
  pc : Nat → Pc

namespace State

variable (s : State)

/-- Move a thread. -/
def setPc (t : Nat) (p : Pc) : State := { s with pc := Function.update s.pc t p }

/-- Write an entry. -/
def setSlot (k : Slot) (b : Bdeve) : State := { s with slots := Function.update s.slots k b }

/-- Write a device. -/
def setDev (d : Nat) (v : Dev) : State := { s with devs := Function.update s.devs d v }

/-! ## Devices -/

/-- `rb_tree_find_node`. -/
def treeFind (did : Nat) : Option Nat := s.tree.find? fun d ↦ (s.devs d).did = did

/-- `usrdev_creat` and `hwdev_creat`: if the name is in use, the memory is given back at once. -/
def creat (usr : Bool) (t did : Nat) : State :=
  match s.treeFind did with
  | some _ => s
  | none =>
    { s with
      tree := s.next :: s.tree
      devs := Function.update s.devs s.next ⟨did, usr, false, if usr then some t else none, false⟩
      next := s.next + 1
      links := s.links.setLink (some (.busdevs s.next)) none }

/-! ## Buses -/

/-- The entry that `bus_plug` takes. -/
def plugSlot (t : Nat) : Option Nat :=
  (List.range maxBusDevs).find? fun i ↦ !(s.slots (t, i)).bsy && (s.slots (t, i)).dev.isNone

/-- An entry gets a device. -/
def insert (k : Slot) (d : Nat) : State :=
  { s.setSlot k ⟨true, true, some d⟩ with links := s.links.insertAfter (.busdevs d) (.entry k) }

/-- `bus_plug`, after the lookup. -/
def plug (t d : Nat) (ok : Bool) : State × List Nat :=
  match s.plugSlot t with
  | none => (s.setPc t .idle, [])
  | some i =>
    if (s.devs d).offline then (s.setPc t .idle, [d])
    else if ok then ((s.insert (t, i) d).setPc t .idle, [d])
    else (s.setPc t .idle, [d])

/-- `bus_unplug`.  An assertion that fails ends the system. -/
def unplug (k : Slot) : Option (State × List Nat) :=
  if maxBusDevs ≤ k.2 then some (s, [])
  else if (s.slots k).plg then
    match (s.slots k).dev with
    | none => none
    | some d =>
      if (s.devs d).offline then some (s.setSlot k { s.slots k with bsy := false }, [d])
      else some ({ s.setSlot k ⟨false, false, none⟩ with links := s.links.remove (.entry k) }, [d])
  else some (s.setSlot k { s.slots k with bsy := false }, [])

/-- `bus_get_dev`, the operation, and `bus_put_dev`. -/
def opCall (k : Slot) : Option (State × List Nat) :=
  if maxBusDevs ≤ k.2 then some (s, [])
  else if (s.slots k).plg then
    match (s.slots k).dev with
    | none => none
    | some d => some (s, [d])
  else some (s, [])

/-- `thfork`, up to the copies: the bus of the new thread is empty. -/
def fork (t c : Nat) : State :=
  { (s.setPc c .child).setPc t (.fork c 0) with
    slots := fun k ↦ if k.1 = c then ⟨false, false, none⟩ else s.slots k }

/-- The first part of `bus_copy`. -/
def mark (t c i : Nat) : State :=
  if (s.slots (c, i)).plg || (s.slots (c, i)).bsy then s.setPc t (.fork c (i + 1))
  else (s.setSlot (c, i) { s.slots (c, i) with plg := true }).setPc t (.marked c i)

/-- `bus_copy` fails. -/
def copyFail (t c i : Nat) : State :=
  (s.setSlot (c, i) { s.slots (c, i) with plg := false }).setPc t (.fork c (i + 1))

/-- The part of `bus_copy` under the lock of the source. -/
def copyFrom (t c i : Nat) (ok : Bool) : Option (State × List Nat) :=
  if (s.slots (t, i)).plg then
    match (s.slots (t, i)).dev with
    | none => none
    | some d =>
      if !(s.devs d).clone then some (s.copyFail t c i, [d])
      else if (s.devs d).offline then some (s.copyFail t c i, [d])
      else if ok then some (s.setPc t (.copied c i d), [d])
      else some (s.copyFail t c i, [d])
  else some (s.copyFail t c i, [])

/-- The part of `bus_copy` under the lock of the destination. -/
def copyTo (t c i d : Nat) : State :=
  if (s.devs d).offline then s.copyFail t c i
  else (s.insert (c, i) d).setPc t (.fork c (i + 1))

/-! ## Destruction -/

/-- The loop that moves the entries to `destroy_list`, which ends after `n` of them. -/
def collectLoop (t : Nat) : Nat → Option Node → Links Node → Option (Links Node)
  | 0, none, l => some l
  | n + 1, some bd, l =>
      collectLoop t n (l.next bd) ((l.remove bd).insertAfter (.destroy t) bd)
  | 0, some _, _ => none
  | _ + 1, none, _ => none

/-- `dev_detach` under the lock of the device. -/
def collect (t d n : Nat) : Option State :=
  let l := s.links.setLink (some (.destroy t)) none
  match collectLoop t n (l.next (.busdevs d)) l with
  | none => none
  | some l =>
    some { (s.setDev d { s.devs d with offline := true }).setPc t
        (.detachAt d (l.next (.destroy t))) with links := l }

/-- The body of the loop of `dev_detach`. -/
def detachFrom (t d : Nat) (k : Slot) : State :=
  (s.setSlot k { s.slots k with plg := false, dev := none }).setPc t (.detachNext d k)

/-- `heap_free` at the end of `usrdev_destroy`, and the removal from `usrdevs`. -/
def free (t d : Nat) : State :=
  (s.setDev d { s.devs d with freed := true, owner := none }).setPc t .idle

end State

/-! ## Steps -/

/-- What a thread does next. -/
inductive Act
  | creat (usr : Bool) (did : Nat)
  | lookup (did : Nat) | plug (ok : Bool)
  | unplug (desc : Nat) | opCall (desc : Nat)
  | fork (c : Nat) | mark | copyFrom (ok : Bool) | copyTo | endFork
  | destroy (d : Nat) | untree | collect (n : Nat) | detachFrom | advance | endReqs | free
deriving DecidableEq

/-- A step of thread `t`: the state after it, and the devices whose memory it locks, reads, writes
or calls through. -/
def step (s : State) (t : Nat) (a : Act) : Option (State × List Nat) :=
  match s.pc t, a with
  | .idle, .creat usr did => some (s.creat usr t did, s.tree)
  | .idle, .lookup did =>
      some (match s.treeFind did with
        | none => s
        | some d => s.setPc t (.plug d), s.tree)
  | .plug d, .plug ok => some (s.plug t d ok)
  | .idle, .unplug desc => s.unplug (t, desc)
  | .idle, .opCall desc => s.opCall (t, desc)
  | .idle, .fork c => if s.pc c = .unborn then some (s.fork t c, []) else none
  | .fork c i, .mark => if i < maxBusDevs then some (s.mark t c i, []) else none
  | .marked c i, .copyFrom ok => s.copyFrom t c i ok
  | .copied c i d, .copyTo => some (s.copyTo t c i d, [d])
  | .fork c i, .endFork =>
      if i < maxBusDevs then none else some ((s.setPc t .idle).setPc c .idle, [])
  | .idle, .destroy d =>
      if (s.devs d).owner = some t then some (s.setPc t (.detach d), [d]) else none
  | .detach d, .untree =>
      some ({ s.setPc t (.untreed d) with tree := s.tree.filter (· ≠ d) }, d :: s.tree)
  | .untreed d, .collect n => (s.collect t d n).map fun s' ↦ (s', [d])
  | .detachAt d (some (.entry k)), .detachFrom => some (s.detachFrom t d k, [d])
  | .detachNext d k, .advance =>
      some (s.setPc t (.detachAt d (s.links.next (.entry k))), [])
  | .detachAt d none, .endReqs => some (s.setPc t (.detached d), [d])
  | .detached d, .free => some (s.free t d, [d])
  | _, _ => none

/-- Some threads run, with nothing on their buses. -/
def State.boot (run : Nat → Bool) : State where
  tree := []
  devs _ := ⟨0, false, false, none, false⟩
  next := 0
  slots _ := ⟨false, false, none⟩
  links := ⟨none, fun _ ↦ none, fun _ ↦ none⟩
  pc t := if run t then .idle else .unborn

end Mh.Life
