import Mh.Param
import Mh.Lib.Bins

/-!
# The zone allocator

`src/alloc.c`, which is compiled into each of its users against the entry type, the
address type and the three functions `___get_neighbors`, `___mkptr` and `___freeptr`
the user defines.  `Backend` are these, over the user's own database `B`; `E` are
the pointers to entries.

A zone has a list of free entries for each power of two, and a bitmap of the lists
that are not empty.  The zones of a user, indexed by `ι`, share the database, and
`LIST_REMOVE` takes an entry off whichever list of whichever zone it is on; so the
lists are one family of bins, indexed by the zone and the power of two.
-/

namespace Mh.Zone

open Mh.Lib

/-- What stops the kernel: an entry of no size or beyond the last list, an overlap
found by the tree of ranges, a page outside the database, a size of zero, an entry
larger than `long` can tell from a smaller one, no memory. -/
inductive Panic
  | entry
  | overlap
  | pfn
  | size
  | diff
  | oom
deriving DecidableEq, Repr

/-- What `alloc.c` is compiled against. -/
structure Backend (B E : Type) where
  addr : B → E → Nat
  size : B → E → Nat
  getNeighbors : B → Nat → Nat → Except Panic (Option E × Option E)
  mkptr : B → Nat → Nat → Except Panic (E × B)
  freeptr : B → E → B

/-- `ORDMAX`. -/
def ordmax : Nat := 32

/-- `lsbit`, of a word that may be zero. -/
def lsbit (x : BitVec 32) : Option Nat := (List.range 32).find? x.getLsbD

/-- `msbit`. -/
def msbit (n : Nat) : Nat := n.log2

/-- The database and the zones: `struct zone`, by index. -/
structure Zones (ι B E : Type) where
  db : B
  bmap : ι → BitVec 32
  zlist : ι × Nat → List E
  nfree : ι → Nat

section Code

variable {ι B E : Type} [DecidableEq ι] [DecidableEq E] (be : Backend B E)

/-- `zone_detachentry`, past its assertions. -/
def Zones.detach (s : Zones ι B E) (z : ι) (ze : E) (size : Nat) : Zones ι B E :=
  let msb := msbit size
  let zlist := Bins.remove s.zlist ze
  let bmap := if zlist (z, msb) = [] then s.bmap z &&& ~~~ BitVec.twoPow 32 msb else s.bmap z
  { s with
    zlist := zlist
    bmap := Function.update s.bmap z bmap
    nfree := Function.update s.nfree z (w32 (s.nfree z + (2 ^ 32 - size))) }

/-- `zone_attachentry`, past its assertions. -/
def Zones.attach (s : Zones ι B E) (z : ι) (ze : E) (size : Nat) : Zones ι B E :=
  let msb := msbit size
  { s with
    zlist := Bins.insert s.zlist (z, msb) ze
    bmap := Function.update s.bmap z (s.bmap z ||| BitVec.twoPow 32 msb)
    nfree := Function.update s.nfree z (w32 (s.nfree z + size)) }

/-- The assertions of `zone_detachentry` and `zone_attachentry`. -/
def entryOk (size : Nat) : Bool := size ≠ 0 && msbit size < ordmax

/-- `zone_detachentry`. -/
def detachentry (s : Zones ι B E) (z : ι) (ze : E) : Except Panic (Zones ι B E) :=
  if entryOk (be.size s.db ze) then .ok (s.detach z ze (be.size s.db ze)) else .error .entry

/-- `zone_attachentry`. -/
def attachentry (s : Zones ι B E) (z : ι) (ze : E) : Except Panic (Zones ι B E) :=
  if entryOk (be.size s.db ze) then .ok (s.attach z ze (be.size s.db ze)) else .error .entry

/-- `minbit` of `zone_findfree`: the first power of two that is large enough. -/
def minbit (size : Nat) : Nat := if size ≠ 2 ^ msbit size then msbit size + 1 else msbit size

/-- `zone_findfree`. -/
def findfree (s : Zones ι B E) (z : ι) (size : Nat) : Option E :=
  if ordmax ≤ minbit size then none
  else
    match lsbit (s.bmap z >>> minbit size) with
    | none => none
    | some tmp => (s.zlist (z, minbit size + tmp)).head?

/-- `zone_remove`. -/
def remove (s : Zones ι B E) (z : ι) (ze : E) : Except Panic (Zones ι B E) := do
  let s ← detachentry be s z ze
  return { s with db := be.freeptr s.db ze }

/-- `zone_remove`, of a neighbour that may be missing. -/
def removeOpt (s : Zones ι B E) (z : ι) : Option E → Except Panic (Zones ι B E)
  | none => .ok s
  | some ze => remove be s z ze

/-- `zone_create`. -/
def create (s : Zones ι B E) (z : ι) (zaddr size : Nat) : Except Panic (Zones ι B E) := do
  let (pze, nze) ← be.getNeighbors s.db zaddr size
  let fprev := pze.elim zaddr (be.addr s.db)
  let s ← removeOpt be s z pze
  let lnext := nze.elim (w32 (zaddr + size)) fun nze ↦ w32 (be.addr s.db nze + be.size s.db nze)
  let s ← removeOpt be s z nze
  let (ze, db) ← be.mkptr s.db fprev (w32 (lnext + (2 ^ 32 - fprev)))
  attachentry be { s with db := db } z ze

/-- `free`. -/
def free (s : Zones ι B E) (z : ι) (zaddr size : Nat) : Except Panic (Zones ι B E) :=
  if size = 0 then .error .size else create be s z zaddr size

/-- `alloc` once an entry is found. -/
def allocFrom (s : Zones ι B E) (z : ι) (ze : E) (size : Nat) :
    Except Panic (Nat × Zones ι B E) :=
  let addr := be.addr s.db ze
  let diff := w32 (be.size s.db ze + (2 ^ 32 - size))
  if 2 ^ 31 ≤ diff then .error .diff
  else do
    let s ← remove be s z ze
    let s ← if 0 < diff then create be s z (w32 (addr + size)) diff else .ok s
    return (addr, s)

/-- `alloc`.  `NULL` is zero. -/
def alloc (s : Zones ι B E) (z : ι) (size : Nat) : Except Panic (Nat × Zones ι B E) :=
  if size = 0 then .error .size
  else
    match findfree s z size with
    | none => .ok (0, s)
    | some ze => allocFrom be s z ze size

/-- `init`, of every zone. -/
def init (db : B) : Zones ι B E where
  db := db
  bmap _ := 0
  zlist _ := []
  nfree _ := 0

end Code

end Mh.Zone
