import Mh.Param
import Mh.Lib.Bins
import Mathlib.Data.Finset.Image

/-!
# The slab allocator

`src/slab.c`, which is compiled twice: as the allocator of fixed memory
(`__SLAB_FIXMEM`: a slab is a 2MB page, its header is kept in the page database)
and as the allocator of structures (`__SLAB_STRUCTS`: a slab is a 16K block that
starts with its header).  `Variant` selects one of the two.

A slab is named by its number: the address of its memory divided by the size of
a slab.  The header that `___slabgethdr` finds for an object is the one of the slab
the object's address lies in, and `Mem.hdr` is keyed by that number in both
variants.

The per-slab free list is the list of the addresses linked on it.  The links
themselves are inside the free objects: `Linked` has them in memory, with the
address of the first object in the header, and does the same where an object has
room for a link (`Reg.LinkFits`).

Any number of caches share the headers.  `Mem.slabs` and `Mem.live` record what
the code does not: the slabs obtained and not released, and the objects handed
out and not freed.  Constructors are not modelled: every cache registers `NULL`.
-/

namespace Mh.Slab

open Mh.Lib

/-- `__SLAB_FIXMEM` or `__SLAB_STRUCTS`. -/
inductive Variant
  | fixmem
  | structs
deriving DecidableEq, Repr

/-- `sizeof(struct slabhdr)`. -/
def slabhdrSize : Nat := 64

/-- `sizeof(struct objhdr)`: one pointer. -/
def objhdrSize : Nat := 4

/-- `MAGIC`. -/
def magic : Nat := 0xdead5ade

/-- `___slabsize()`, also `slab_size`. -/
def slabsize : Variant → Nat
  | .fixmem => pageSize
  | .structs => 16 * 1024

/-- `___slabobjs`: the objects of a slab, as `grow` counts them. -/
def slabobjs : Variant → Nat → Nat
  | .fixmem, size => slabsize .fixmem / size
  | .structs, size => (slabsize .structs - slabhdrSize) / size

/-- `max_objs`: the objects of a slab, as `free` counts them. -/
def maxObjs (v : Variant) (size : Nat) : Nat := (slabsize v - slabhdrSize) / size

/-- Where in a slab `___slaballoc` puts the first object. -/
def firstObj : Variant → Nat
  | .fixmem => 0
  | .structs => slabhdrSize

/-- The address of object `i` of slab `k`. -/
def objAddr (v : Variant) (size k i : Nat) : Nat := k * slabsize v + firstObj v + i * size

/-- The objects of slab `k`. -/
def objects (v : Variant) (size k : Nat) : Finset Nat :=
  (Finset.range (slabobjs v size)).image (objAddr v size k)

/-- The three queues of a cache. -/
inductive Queue
  | emptyq
  | freeq
  | fullq
deriving DecidableEq, Repr

/-- `struct slab`: a cache.  `q` are its three queues and `cnt` the counters
`emptycnt`, `freecnt` and `fullcnt` that go with them. -/
structure Cache where
  objsize : Nat
  q : Queue → List Nat
  cnt : Queue → Nat

/-- The arguments of `register`: the size of the objects, which is rounded up to a
cache line when the caller asks for it. -/
structure Reg where
  objsize : Nat
  cachealign : Bool

/-- `sc->objsize` as `register` computes it. -/
def Reg.size (r : Reg) : Nat := if r.cachealign then (r.objsize + 63) / 64 * 64 else r.objsize

/-- An object has room for the link of its free list.  `register` does not ask for
it; every caller in the tree registers 4K or more, or a structure rounded up. -/
def Reg.LinkFits (r : Reg) : Prop := objhdrSize ≤ r.size

instance (r : Reg) : Decidable r.LinkFits := inferInstanceAs (Decidable (_ ≤ _))

/-- `struct slabhdr`; `φ` is what is kept of the free list. -/
structure Hdr (φ : Type := List Nat) where
  magic : Nat
  cache : Nat
  freecnt : Nat
  freeq : φ
deriving DecidableEq, Repr

/-- The caches, the slab headers, and what has been handed out. -/
structure Mem (φ : Type := List Nat) where
  cache : Nat → Cache
  hdr : Nat → Hdr φ
  slabs : Finset Nat
  live : Finset Nat

/-- What stops the kernel: no memory for a slab, an object taken from an empty
free list, an object that is in no page of fixed memory. -/
inductive Panic
  | oom
  | emptyPop
  | badType
deriving DecidableEq, Repr

/-- `x++` and `x--` on an `unsigned`. -/
def inc (n : Nat) : Nat := w32 (n + 1)

@[inherit_doc inc]
def dec (n : Nat) : Nat := w32 (n + (2 ^ 32 - 1))

/-! ## The cache -/

namespace Cache

/-- `LIST_REMOVE`, from whichever queue the slab is on. -/
def remove (sc : Cache) (k : Nat) : Cache := { sc with q := Bins.remove sc.q k }

/-- `LIST_INSERT_HEAD`. -/
def insert (sc : Cache) (i : Queue) (k : Nat) : Cache := { sc with q := Bins.insert sc.q i k }

/-- The counter of queue `i` goes up. -/
def incr (sc : Cache) (i : Queue) : Cache :=
  { sc with cnt := Function.update sc.cnt i (inc (sc.cnt i)) }

/-- The counter of queue `i` goes down. -/
def decr (sc : Cache) (i : Queue) : Cache :=
  { sc with cnt := Function.update sc.cnt i (dec (sc.cnt i)) }

/-- `LIST_REMOVE`, `LIST_INSERT_HEAD` on queue `j`, one counter down, the other
up: how a slab passes from queue `i` to queue `j`. -/
def move (sc : Cache) (k : Nat) (i j : Queue) : Cache :=
  (((sc.remove k).insert j k).decr i).incr j

/-- `register`: no slab yet. -/
def register (r : Reg) : Cache where
  objsize := r.size
  q _ := []
  cnt _ := 0

end Cache

/-! ## The calls -/

namespace Mem

variable {φ : Type}

/-- The caches as registered, before any slab is obtained. -/
def init [Inhabited φ] (reg : Nat → Reg) : Mem φ where
  cache c := .register (reg c)
  hdr _ := ⟨0, 0, 0, default⟩
  slabs := ∅
  live := ∅

/-- Change a cache. -/
def setCache (s : Mem φ) (c : Nat) (sc : Cache) : Mem φ :=
  { s with cache := Function.update s.cache c sc }

/-- Change a header. -/
def setHdr (s : Mem φ) (k : Nat) (h : Hdr φ) : Mem φ :=
  { s with hdr := Function.update s.hdr k h }

end Mem

/-- The loop of `grow` over the objects of the slab. -/
def linkObjs (objsize : Nat) : Nat → Nat → List Nat → List Nat
  | 0, _, q => q
  | n + 1, ptr, q => linkObjs objsize n (ptr + objsize) (ptr :: q)

/-- The header that `grow` writes for slab `k`. -/
def growHdr (v : Variant) (c objsize k : Nat) : Hdr where
  magic := magic
  cache := c
  freecnt := slabobjs v objsize
  freeq := linkObjs objsize (slabobjs v objsize) (k * slabsize v + firstObj v) []

/-- `grow`, given what `___slaballoc` returns. -/
def grow (v : Variant) (s : Mem) (c : Nat) : Option Nat → Except Panic Mem
  | none => .error .oom
  | some k =>
      let sc := s.cache c
      let s := s.setHdr k (growHdr v c sc.objsize k)
      let s := s.setCache c ((sc.insert .emptyq k).incr .emptyq)
      .ok { s with slabs := Insert.insert k s.slabs }

/-- `alloc_opq` from `retry` to where a slab is chosen: the first slab of `freeq`,
which is full after this call if it has one free object, else the first slab of
`emptyq`. -/
def pick {φ : Type} (s : Mem φ) (c : Nat) : Option (Nat × Cache) :=
  match (s.cache c).q .freeq with
  | k :: _ =>
      if (s.hdr k).freecnt = 1 then some (k, (s.cache c).move k .freeq .fullq)
      else some (k, s.cache c)
  | [] =>
      match (s.cache c).q .emptyq with
      | k :: _ => some (k, (s.cache c).move k .emptyq .freeq)
      | [] => none

/-- `alloc_opq` once a slab is chosen: the first object of its free list. -/
def take (s : Mem) (k : Nat) : Except Panic (Nat × Mem) :=
  match (s.hdr k).freeq with
  | [] => .error .emptyPop
  | oh :: q =>
      let sh := { s.hdr k with freeq := q, freecnt := dec (s.hdr k).freecnt }
      .ok (oh, { s.setHdr k sh with live := Insert.insert oh s.live })

/-- The `retry` loop of `alloc_opq`, with the number of times it may still grow and
what `___slaballoc` returns each time.  `NULL` is zero. -/
def allocTries (v : Variant) (c : Nat) : Nat → List Nat → Mem → Except Panic (Nat × Mem)
  | n, ks, s =>
      match pick s c, n with
      | some (k, sc), _ => take (s.setCache c sc) k
      | none, 0 => .ok (0, s)
      | none, n + 1 =>
          match grow v s c ks.head? with
          | .error e => .error e
          | .ok s => allocTries v c n ks.tail s

/-- `alloc_opq`: `tries++ > 3` lets it grow four times. -/
def allocOpq (v : Variant) (s : Mem) (c : Nat) (ks : List Nat) : Except Panic (Nat × Mem) :=
  allocTries v c 4 ks s

/-- `___slabgethdr`: the slab whose header answers for an address, if the header
says it is one. -/
def slabgethdr {φ : Type} (v : Variant) (s : Mem φ) (ptr : Nat) : Except Panic (Option Nat) :=
  let k := ptr / slabsize v
  match v with
  | .fixmem => if k ∈ s.slabs then .ok (some k) else .error .badType
  | .structs => .ok (if (s.hdr k).magic = magic then some k else none)

/-- What `free` does to the queues when slab `k` has come to `n` free objects. -/
def refile (v : Variant) (sc : Cache) (k n : Nat) : Cache :=
  if n = 1 then sc.move k .fullq .freeq
  else if n = maxObjs v sc.objsize then sc.move k .freeq .emptyq
  else sc

/-- `free` once the header is found. -/
def release (v : Variant) (s : Mem) (k ptr : Nat) : Mem :=
  let sh := s.hdr k
  let sh' := { sh with freeq := ptr :: sh.freeq, freecnt := inc sh.freecnt }
  let s' := (s.setHdr k sh').setCache sh.cache (refile v (s.cache sh.cache) k sh'.freecnt)
  { s' with live := s.live.erase ptr }

/-- `free`. -/
def free (v : Variant) (s : Mem) (ptr : Nat) : Except Panic Mem :=
  match slabgethdr v s ptr with
  | .error e => .error e
  | .ok none => .ok { s with live := s.live.erase ptr }
  | .ok (some k) => .ok (release v s k ptr)

/-- An iteration of the loop of `structs_shrink`: the slab leaves `emptyq` and its
block is given to `free16k`. -/
def shrinkOne {φ : Type} (s : Mem φ) (c k : Nat) : Mem φ :=
  { s.setCache c (((s.cache c).remove k).decr .emptyq) with slabs := s.slabs.erase k }

/-- `structs_shrink`, with the number of slabs it released. -/
def structsShrink {φ : Type} (s : Mem φ) (c : Nat) : Nat × Mem φ :=
  match _h : (s.cache c).q .emptyq with
  | [] => (0, s)
  | k :: _ =>
      let r := structsShrink (shrinkOne s c k) c
      (r.1 + 1, r.2)
termination_by ((s.cache c).q .emptyq).length
decreasing_by
  simp [shrinkOne, Mem.setCache, Cache.remove, Cache.decr, Bins.remove, _h]

/-! ## Runs -/

/-- The calls, with what `___slaballoc` answers during them. -/
inductive Op
  | alloc (c : Nat) (ks : List Nat)
  | free (ptr : Nat)
  | grow (c : Nat) (k : Option Nat)
  | shrink (c : Nat)
deriving DecidableEq, Repr

/-- One call and what it returns. -/
def exec (v : Variant) (s : Mem) : Op → Except Panic (Nat × Mem)
  | .alloc c ks => allocOpq v s c ks
  | .free ptr => (free v s ptr).map fun s ↦ (0, s)
  | .grow c k => (grow v s c k).map fun s ↦ (1, s)
  | .shrink c => .ok (structsShrink s c)

/-- What `___slaballoc` may answer: blocks of memory that are not in use, different
from each other and not at zero. -/
structure Fresh {φ : Type} (v : Variant) (s : Mem φ) (ks : List Nat) : Prop where
  nodup : ks.Nodup
  unused : ∀ k ∈ ks, k ∉ s.slabs
  ne_zero : ∀ k ∈ ks, k ≠ 0
  bound : ∀ k ∈ ks, (k + 1) * slabsize v ≤ 2 ^ 32

/-- The calls a client may make: it frees live objects, and `shrink` is the one of
the structure caches. -/
def Allowed {φ : Type} (v : Variant) (s : Mem φ) : Op → Prop
  | .alloc _ ks => Fresh v s ks
  | .free ptr => ptr ∈ s.live
  | .grow _ k => Fresh v s k.toList
  | .shrink _ => v = .structs

/-- A call that returns. -/
def Step (v : Variant) (s : Mem) (op : Op) (s' : Mem) : Prop :=
  Allowed v s op ∧ ∃ r, exec v s op = .ok (r, s')

end Mh.Slab
