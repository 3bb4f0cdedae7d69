import Mh.Param
import Mathlib.Logic.Function.Basic
import Mathlib.Order.CompletePartialOrder

/-!
# Marking the page database at boot

The part of `sysboot` (`i386/src/sysboot.c`) that fills the page database from the firmware's map
of the memory, with `pfndb_setup`, `pfndb_add` and `pfndb_subst` of `pfndb.c`.

Each region of the map is widened to whole pages and its pages are marked free or as I/O memory.
`pfndb_add` keeps the larger of two types; what no region has marked is I/O memory; the pages of the
kernel and of the database come last.

A type is its number here, since the entry after the last one is marked too and is not cleared
before: it holds whatever byte was in memory (`stale`).
-/

namespace Mh.Sysboot

/-- `PFNT_INVALID`. -/
def pfntInvalid : Nat := 0

/-- `PFNT_FREE`. -/
def pfntFree : Nat := 7

/-- `PFNT_SYSTEM`. -/
def pfntSystem : Nat := 8

/-- `PFNT_MMIO`. -/
def pfntMmio : Nat := 9

/-- Why the marking does not come to its end. -/
inductive Stop
  /-- `assert(pfn <= pfndb_max)` in `pfndb_add` -/
  | pfn
  /-- The database does not fit between the kernel and the end of the address space. -/
  | fault
deriving DecidableEq, Repr

/-! ## The page database -/

/-- `pfndb_max` and the types of `pfndb`. -/
structure Pfndb where
  max : Nat
  type : Nat → Nat

/-- `pfndb_setup`. -/
def pfndbSetup (stale : Nat → Nat) (maxpfn : Nat) : Pfndb where
  max := maxpfn
  type i := if i < maxpfn then pfntInvalid else stale i

/-- `pfndb_add`. -/
def pfndbAdd (db : Pfndb) (pfn t : Nat) : Except Stop Pfndb :=
  if db.max < pfn then .error .pfn
  else if t < db.type pfn then .ok db
  else .ok { db with type := Function.update db.type pfn t }

/-- `pfndb_add` of one type to each page of a loop. -/
def pfndbAdds (db : Pfndb) (pfns : List Nat) (t : Nat) : Except Stop Pfndb :=
  pfns.foldlM (fun db pfn ↦ pfndbAdd db pfn t) db

/-- `pfndb_subst`. -/
def pfndbSubst (db : Pfndb) (t1 t2 : Nat) : Pfndb :=
  { db with type := fun i ↦ if i < db.max ∧ db.type i = t1 then t2 else db.type i }

/-! ## The firmware's map -/

/-- A 64-bit value assigned to an `int`. -/
def toInt (n : Nat) : Int := if w32 n < 2 ^ 31 then (w32 n : Int) else (w32 n : Int) - 2 ^ 32

/-- An `int` passed as an `unsigned`. -/
def ofInt (i : Int) : Nat := (i % 2 ^ 32).toNat

/-- `struct e820e`. -/
structure E820e where
  addr : Nat
  len : Nat
  type : Nat
deriving DecidableEq, Repr

namespace E820e

/-- `(p->addr + p->len) >> PAGE_SHIFT`. -/
def lpfn (p : E820e) : Nat := w64 (p.addr + p.len) / pageSize

/-- `atop(trunc_page(p->addr))`. -/
def first (p : E820e) : Int := toInt (p.addr / pageSize)

/-- `atop(round_page(p->addr + p->len))`. -/
def last (p : E820e) : Int := toInt (w64 (w64 (p.addr + p.len) + (pageSize - 1)) / pageSize)

/-- The pages that the loop over a region goes through. -/
def pfns (p : E820e) : List Nat :=
  (List.range (p.last - p.first).toNat).map fun i : Nat ↦ ofInt (p.first + i)

/-- The type that the pages of a region get. -/
def pfnt (p : E820e) : Nat := if p.type = 1 then pfntFree else pfntMmio

end E820e

/-- `E820_FOREACH`: the entries before the first zero one. -/
def e820Foreach (map : List E820e) : List E820e :=
  map.takeWhile fun p ↦ p.type ≠ 0 || p.len ≠ 0 || p.addr ≠ 0

/-- `pfn_maxaddr` after the search for the largest page number. -/
def pfnMaxaddr (map : List E820e) : Nat :=
  (e820Foreach map).foldl (fun m p ↦ if m < p.lpfn then w32 p.lpfn else m) (0xffffffff / pageSize)

/-! ## The kernel -/

/-- `UKERNBASE`. -/
def ukernBase : Nat := 0xc0000000

/-- `UKERNCMPOFF`: where the kernel is loaded. -/
def ukernCmpoff : Nat := 0x100000

/-- `sizeof(ipfn_t)`. -/
def ipfnSize : Nat := 49

/-- `UKERN_PFNDB`, for a kernel that ends at `ukernEnd`. -/
def ukernPfndb (ukernEnd : Nat) : Nat := (ukernEnd + 127) / 128 * 128

/-- What `pfndb_setup` returns: the end of the database. -/
def lpfndb (ukernEnd max : Nat) : Nat := ukernPfndb ukernEnd + max * ipfnSize

/-- The pages that are marked for the kernel. -/
def kernelPfns (ukernEnd : Nat) : List Nat :=
  List.range (roundPage (ukernEnd - ukernBase) / pageSize + 1)

/-- The pages that are marked for the database. -/
def pfndbPfns (ukernEnd max : Nat) : List Nat :=
  let first := (ukernPfndb ukernEnd - ukernBase) / pageSize
  List.range' first (truncPage (lpfndb ukernEnd max - ukernBase) / pageSize + 1 - first)

/-- The marking of `sysboot`. -/
def sysbootMark (map : List E820e) (ukernEnd : Nat) (stale : Nat → Nat) : Except Stop Pfndb :=
  let max := pfnMaxaddr map
  if 2 ^ 32 < lpfndb ukernEnd max then .error .fault
  else do
    let db := pfndbSetup stale max
    let db ← (e820Foreach map).foldlM (fun db p ↦ pfndbAdds db p.pfns p.pfnt) db
    let db := pfndbSubst db pfntInvalid pfntMmio
    let db ← pfndbAdds db (kernelPfns ukernEnd) pfntSystem
    pfndbAdds db (pfndbPfns ukernEnd max) pfntSystem

/-- `pfn_is_mmio`, which `iomap` asks for. -/
def pfnIsMmio (db : Pfndb) (pfn : Nat) : Bool := db.type pfn == pfntMmio

/-- `pfn_is_free`, by which `pginit` finds the pages that may be allocated. -/
def pfnIsFree (db : Pfndb) (pfn : Nat) : Bool := db.type pfn == pfntFree

/-! ## What the map says of a byte -/

/-- The byte at physical address `x` is in the region. -/
def E820e.Has (p : E820e) (x : Nat) : Prop := p.addr ≤ x ∧ x < p.addr + p.len

/-- The byte is in the kernel's image. -/
def KernelByte (ukernEnd x : Nat) : Prop := ukernCmpoff ≤ x ∧ x < ukernEnd - ukernBase

/-- The byte is in the page database. -/
def PfndbByte (ukernEnd max x : Nat) : Prop :=
  ukernPfndb ukernEnd - ukernBase ≤ x ∧ x < lpfndb ukernEnd max - ukernBase

/-- The database tells what memory may be used: a page is free only if all its bytes are memory and
nothing else, and none is the kernel's; and the pages of the kernel and of the database are system
pages. -/
structure Classified (map : List E820e) (ukernEnd : Nat) (db : Pfndb) : Prop where
  free : ∀ p ≤ db.max, db.type p = pfntFree → ∀ x, x / pageSize = p →
    (∃ e ∈ e820Foreach map, e.type = 1 ∧ e.Has x) ∧
    (∀ e ∈ e820Foreach map, e.type ≠ 1 → ¬e.Has x) ∧
    ¬KernelByte ukernEnd x ∧ ¬PfndbByte ukernEnd db.max x
  system : ∀ x, KernelByte ukernEnd x ∨ PfndbByte ukernEnd db.max x →
    db.type (x / pageSize) = pfntSystem

end Mh.Sysboot
