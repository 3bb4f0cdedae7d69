import Mathlib.Data.Set.Insert
import Mathlib.Order.CompletePartialOrder
import Mh.Zone.Alloc

/-!
# The page allocator

`src/pgalloc.c`: the free physical pages, in four zones of `alloc.c` that share the
page database of `src/pfndb.c`.  The entry of a free block is the record of its first
page; the type of the first and the last page of a block are boundary tags, by which
a block that is freed finds the blocks next to it.

Four zones: the pages that the kernel maps and the others (`KMEMEND`, 768MB), each
below and above 4GB.
-/

namespace Mh.Pg

open Mh.Zone

/-- `ipfn_t`, with the `struct pgzentry` of a free page. -/
structure Ipfn where
  type : PfnType
  addr : Nat
  size : Nat
deriving DecidableEq, Repr

/-- `pfndb` and `pfndb_max`. -/
structure Db where
  pfn : Nat → Ipfn
  max : Nat

/-- The zones, by what `PFNZ_TYPE` returns for their pages. -/
inductive PfnZone
  | kern32
  | kern
  | high32
  | high
deriving DecidableEq, Repr

/-- `KMEMEND >> PAGE_SHIFT`, also `HIGHSTRT >> PAGE_SHIFT`. -/
def kmemEnd : Nat := 768 * 2 ^ 20 / pageSize

/-- `1UL << (32 - PAGE_SHIFT)`. -/
def pfn4G : Nat := 2 ^ (32 - pageShift)

/-- `PFNZ_TYPE`, given `pfndb_max`. -/
def pfnzType (max p : Nat) : PfnZone :=
  let isKern := min 0 max ≤ p ∧ p < min kmemEnd max
  let isHigh := min kmemEnd max ≤ p ∧ p < max
  if isKern ∧ p < pfn4G then .kern32
  else if isKern ∧ ¬ p < pfn4G then .kern
  else if isHigh ∧ p < pfn4G then .high32
  else .high

namespace Db

/-- `PFNZ_TYPE`. -/
def zone (db : Db) (p : Nat) : PfnZone := pfnzType db.max p

/-- `pfndb_type`. -/
def type (db : Db) (p : Nat) : PfnType := (db.pfn p).type

/-- `assert(pfn <= pfndb_max)`, of every access to the database. -/
def check (db : Db) (p : Nat) : Except Panic Unit := if p ≤ db.max then .ok () else .error .pfn

/-- `pfndb_settype` of `n` pages from `p`. -/
def settypes (db : Db) (p n : Nat) (t : PfnType) : Db :=
  { db with pfn := fun q ↦ if p ≤ q ∧ q < p + n then { db.pfn q with type := t } else db.pfn q }

/-- Write the `struct pgzentry` of a page. -/
def setEntry (db : Db) (p addr size : Nat) : Db :=
  { db with pfn := Function.update db.pfn p { db.pfn p with addr := addr, size := size } }

end Db

/-- The first half of `___get_neighbors`. -/
def prevNeighbor (db : Db) (addr : Nat) : Except Panic (Option Nat) :=
  if addr = 0 ∨ db.zone addr ≠ db.zone (addr - 1) then .ok none
  else do
    db.check (addr - 1)
    if (db.type (addr - 1)).isPgzterm then
      let pz := w32 (addr + (2 ^ 32 - (db.pfn (addr - 1)).size))
      db.check pz
      return some pz
    else return none

/-- The second half of `___get_neighbors`.  It asks for the zone of `addr + 1`. -/
def nextNeighbor (db : Db) (addr size : Nat) : Except Panic (Option Nat) :=
  if db.zone addr ≠ db.zone (w32 (addr + 1)) then .ok none
  else do
    let nz := w32 (addr + size)
    db.check nz
    return if (db.type nz).isPgzstart then some nz else none

/-- `___get_neighbors`. -/
def getNeighbors (db : Db) (addr size : Nat) : Except Panic (Option Nat × Option Nat) := do
  let pz ← prevNeighbor db addr
  let nz ← nextNeighbor db addr size
  return (pz, nz)

/-- The database after `___mkptr`: the entry in the first and the last page, the tags,
and the pages between them free. -/
def Db.mkptr (db : Db) (addr size : Nat) : Db :=
  let db := (db.setEntry addr addr size).setEntry (addr + size - 1) addr size
  if size = 1 then db.settypes addr 1 .freePzLone
  else
    ((db.settypes addr 1 .freePzStrt).settypes (addr + 1) (size - 2) .free).settypes
      (addr + size - 1) 1 .freePzTerm

/-- `___mkptr`. -/
def mkptr (db : Db) (addr size : Nat) : Except Panic (Nat × Db) := do
  db.check addr
  db.check (w32 (addr + size + (2 ^ 32 - 1)))
  return (addr, db.mkptr addr size)

/-- What `pgalloc.c` compiles `alloc.c` against: an entry is the number of its first
page. -/
def backend : Backend Db Nat where
  addr db p := (db.pfn p).addr
  size db p := (db.pfn p).size
  getNeighbors := getNeighbors
  mkptr := mkptr
  freeptr db _ := db

/-- The page database and `pgzones`. -/
abbrev PgZones := Zones PfnZone Db Nat

/-! ## The calls -/

/-- `GFP_HIGH_ONLY` and the others, in the order in which `pgalloc` tries the zones. -/
def gfpZones : List (Nat × PfnZone) := [(8, .high), (4, .high32), (2, .kern), (1, .kern32)]

/-- `GFP_KERN`, also `GFP_DEFAULT`. -/
def gfpKern : Nat := 1 ||| 2

/-- The flags that `pgalloc` goes by. -/
def gfpFlags (flags : Nat) : Nat := if flags = 0 then gfpKern else flags

/-- The part of `pgalloc` that tries one zone. -/
def tryZone (size flags : Nat) (r : Nat × PgZones) (z : Nat × PfnZone) :
    Except Panic (Nat × PgZones) :=
  if r.1 = 0 ∧ flags &&& z.1 ≠ 0 then Zone.alloc backend r.2 z.2 size else .ok r

/-- `pgalloc`. -/
def pgalloc (s : PgZones) (size : Nat) (type : PfnType) (flags : Nat) :
    Except Panic (Nat × PgZones) :=
  if size = 0 then .error .size
  else do
    let (addr, s) ← gfpZones.foldlM (tryZone size (gfpFlags flags)) (0, s)
    if addr = 0 then .error .oom
    else return (addr, { s with db := s.db.settypes addr size type })

/-- `pgfree`. -/
def pgfree (s : PgZones) (pfn size : Nat) : Except Panic PgZones :=
  if pfn = 0 ∨ size = 0 then .error .size
  else Zone.free backend s (s.db.zone pfn) pfn size

/-- The loop of `pginit`: `status`, `start` and the zones. -/
structure Scan where
  status : Bool
  start : Nat
  zones : PgZones

/-- Close the block of free pages that ends before page `i`. -/
def Scan.close (sc : Scan) (i : Nat) : Except Panic PgZones :=
  Zone.free backend sc.zones (sc.zones.db.zone sc.start) sc.start (i - sc.start)

/-- One iteration of the loop of `pginit`. -/
def scanPage (sc : Scan) (i : Nat) : Except Panic Scan :=
  let free : Bool := sc.zones.db.type i = .free
  if free && !sc.status then .ok { sc with status := true, start := i }
  else if !free && sc.status then do
    let s ← sc.close i
    return { sc with status := false, zones := s }
  else if sc.status && free && sc.zones.db.zone i ≠ sc.zones.db.zone (i - 1) then do
    let s ← sc.close i
    return { sc with start := i, zones := s }
  else .ok sc

/-- `pginit`. -/
def pginit (db : Db) : Except Panic PgZones := do
  let sc ← (List.range db.max).foldlM scanPage ⟨false, 0, Zone.init db⟩
  if sc.status then sc.close db.max else return sc.zones

/-! ## Runs -/

/-- The zones, and the ranges returned by `pgalloc` and not freed since. -/
structure State where
  zones : PgZones
  out : List (Nat × Nat)

/-- The calls. -/
inductive Op
  | alloc (size : Nat) (type : PfnType) (flags : Nat)
  | free (pfn size : Nat)
deriving DecidableEq, Repr

/-- The calls a client may make: it asks for pages under a type of its own, not one
of the allocator's tags, and frees what it was given. -/
def Allowed (s : State) : Op → Prop
  | .alloc size type _ => size < 2 ^ 32 ∧ type.isPgzstart = false ∧ type.isPgzterm = false
  | .free pfn size => (pfn, size) ∈ s.out

/-- One call. -/
def exec (s : State) : Op → Except Panic State
  | .alloc size type flags =>
      (pgalloc s.zones size type flags).map fun r ↦ ⟨r.2, (r.1, size) :: s.out⟩
  | .free pfn size => (pgfree s.zones pfn size).map fun z ↦ ⟨z, s.out.erase (pfn, size)⟩

/-- A call that returns. -/
def Step (s : State) (op : Op) (s' : State) : Prop := Allowed s op ∧ exec s op = .ok s'

/-- The page database when `pginit` is called: no page has a tag of the allocator,
the first page is not free. -/
structure Boot (db : Db) : Prop where
  max_lt : db.max < 2 ^ 32
  start : ∀ p ≤ db.max, (db.type p).isPgzstart = false
  term : ∀ p ≤ db.max, (db.type p).isPgzterm = false
  zero : db.type 0 ≠ .free

end Mh.Pg

/-!
## Page allocation on several CPUs

`pgalloc` of `src/pgalloc.c` holds the lock of a zone while it takes a block off its lists and
gives the rest of it back.  Only after it has released the lock does it set the types of the pages
that it returns, one after another; until then their tags are those of a free block.  `pgfree` is
one locked section.

A step is a locked section, or the type of one page.  The calls of any number of CPUs interleave;
a CPU is in one of them at a time.
-/

namespace Mh.Pg

open Mh.Zone

/-- What a CPU is doing: it is in neither call; it is in `pgalloc` and has the zones `zs` still to
try; it has got the block, and has set the types of the first `i` pages. -/
inductive Task
  | idle
  | trying (size : Nat) (type : PfnType) (flags : Nat) (zs : List (Nat × PfnZone))
  | typing (addr size : Nat) (type : PfnType) (i : Nat)
deriving DecidableEq

/-- The zones, the CPUs, and the ranges returned by `pgalloc` and not freed since. -/
structure Smp (Cpu : Type) where
  zones : PgZones
  task : Cpu → Task
  out : List (Nat × Nat)

/-- The steps: a CPU calls `pgalloc`; it goes on with it; it calls `pgfree`. -/
inductive SmpOp (Cpu : Type)
  | pgalloc (i : Cpu) (size : Nat) (type : PfnType) (flags : Nat)
  | next (i : Cpu)
  | pgfree (i : Cpu) (pfn size : Nat)

variable {Cpu : Type}

/-- A CPU asks for pages under a type that is not one of the allocator's tags, and frees what
`pgalloc` has returned; it goes on with a call that it is in. -/
def SmpAllowed (s : Smp Cpu) : SmpOp Cpu → Prop
  | .pgalloc i size type _ =>
      s.task i = .idle ∧ size < 2 ^ 32 ∧ type.isPgzstart = false ∧ type.isPgzterm = false
  | .next i => s.task i ≠ .idle
  | .pgfree i pfn size => s.task i = .idle ∧ (pfn, size) ∈ s.out

section Step

variable [DecidableEq Cpu]

/-- Write what a CPU is doing. -/
def Smp.setTask (s : Smp Cpu) (i : Cpu) (t : Task) : Smp Cpu :=
  { s with task := Function.update s.task i t }

/-- The next step of `pgalloc`. -/
def Smp.next (s : Smp Cpu) (i : Cpu) : Except Panic (Smp Cpu) :=
  match s.task i with
  | .idle => .ok s
  | .trying _ _ _ [] => .error .oom
  | .trying size type flags (z :: zs) => do
      let (addr, zones) ← tryZone size flags (0, s.zones) z
      let t := if addr = 0 then Task.trying size type flags zs else .typing addr size type 0
      return { s.setTask i t with zones := zones }
  | .typing addr size type k =>
      if k < size then
        .ok { s.setTask i (.typing addr size type (k + 1)) with
          zones := { s.zones with db := s.zones.db.settypes (addr + k) 1 type } }
      else .ok { s.setTask i .idle with out := (addr, size) :: s.out }

/-- One step. -/
def Smp.exec (s : Smp Cpu) : SmpOp Cpu → Except Panic (Smp Cpu)
  | .pgalloc i size type flags =>
      if size = 0 then .error .size
      else .ok (s.setTask i (.trying size type (gfpFlags flags) gfpZones))
  | .next i => s.next i
  | .pgfree _ pfn size => do
      let zones ← Pg.pgfree s.zones pfn size
      return { s with zones := zones, out := s.out.erase (pfn, size) }

instance (s : Smp Cpu) : (op : SmpOp Cpu) → Decidable (SmpAllowed s op)
  | .pgalloc i size type _ => inferInstanceAs (Decidable
      (s.task i = .idle ∧ size < 2 ^ 32 ∧ type.isPgzstart = false ∧ type.isPgzterm = false))
  | .next i => inferInstanceAs (Decidable (s.task i ≠ .idle))
  | .pgfree i pfn size => inferInstanceAs (Decidable (s.task i = .idle ∧ (pfn, size) ∈ s.out))

/-- A step that returns. -/
def SmpStep (s : Smp Cpu) (op : SmpOp Cpu) (s' : Smp Cpu) : Prop :=
  SmpAllowed s op ∧ s.exec op = .ok s'

end Step

/-- The state after `pginit`. -/
def Smp.boot (zs : PgZones) : Smp Cpu := ⟨zs, fun _ ↦ .idle, []⟩

/-! ## What is asked of the steps -/

/-- A range that belongs to a client, or that `pgalloc` is about to return. -/
def Smp.Held (s : Smp Cpu) (r : Nat × Nat) : Prop :=
  r ∈ s.out ∨ ∃ i type k, s.task i = .typing r.1 r.2 type k

/-- The entries that `zone_create` takes off the lists. -/
def neighbors (db : Db) (addr size : Nat) : List Nat :=
  match getNeighbors db addr size with
  | .ok (pz, nz) => pz.toList ++ nz.toList
  | .error _ => []

/-- The entries that a step takes off the lists, with the zone of each. -/
def Smp.removals (s : Smp Cpu) : SmpOp Cpu → List (PfnZone × Nat)
  | .pgalloc .. => []
  | .next i =>
      match s.task i with
      | .trying size _ flags (z :: _) =>
          if flags &&& z.1 = 0 then []
          else
            match findfree s.zones z.2 size with
            | none => []
            | some e =>
                let ze := s.zones.db.pfn e
                (e :: if size < ze.size then neighbors s.zones.db (ze.addr + size) (ze.size - size)
                  else []).map (Prod.mk z.2)
      | _ => []
  | .pgfree _ pfn size => (neighbors s.zones.db pfn size).map (Prod.mk (s.zones.db.zone pfn))

/-- No page of a range that is held is covered by an entry of a list. -/
def HeldApart (s : Smp Cpu) : Prop :=
  ∀ r, s.Held r → ∀ x, r.1 ≤ x → x < r.1 + r.2 → ∀ z k, ∀ e ∈ s.zones.zlist (z, k),
    ¬((s.zones.db.pfn e).addr ≤ x ∧ x < (s.zones.db.pfn e).addr + (s.zones.db.pfn e).size)

/-- The entries that a step takes off the lists are different ones, each on a list of its zone. -/
def RemovesListed (s : Smp Cpu) (op : SmpOp Cpu) : Prop :=
  (s.removals op).Nodup ∧ ∀ r ∈ s.removals op, ∃ k, r.2 ∈ s.zones.zlist (r.1, k)

end Mh.Pg
