import Mh.Param
import Mh.Lib.Links
import Mh.Lib.Run

/-!
# The kernel heap

`src/heap.c`.  A heap page is cut into blocks of units of `sizeof(struct ekheap)`
bytes, each headed by its `struct ekheap`; the blocks of a page are on one list, and
the free ones on a second.  The `struct kheap` of a page has the heads of the two
lists and links the page into `kheaps`.

Blocks are named by the unit they begin at, pages by their number.

`LIST_PREV` takes the back pointer of a block for the address of a field of the block
before it.  For the first block of a page it is the address of the head of the list,
in the `struct kheap` of the page, and then what stands before that head is taken for
a block:

```
struct kheap                        struct ekheap at LIST_PREV
  lock
  kheaps.le_next                      isfree
  kheaps.le_prev                      ulen
  list.lh_first                       list.le_next
```

So `isfree` of that block is whether the page has a successor on `kheaps`, and what is
added to its `ulen` displaces the back pointer of the page.  `skew` is how far the
pointer has been displaced.
-/

namespace Mh.Heap

open Mh.Lib

/-- `sizeof(struct ekheap)`. -/
def ekheapSize : Nat := 24

/-- `UNITS`. -/
def units (s : Nat) : Nat := s / ekheapSize

/-- `UROUND`. -/
def uround (s : Nat) : Nat := units (w32 (s + (ekheapSize - 1)))

/-- `UNITS(PAGE_SIZE)`. -/
def pageUnits : Nat := units pageSize

/-- `HEAP_MAXALLOC`. -/
def heapMaxalloc : Nat := pageUnits - 1

/-- What stops the kernel: a size that is too big, a pointer outside the heap, and a
block on the free list that is not free. -/
inductive Panic
  | size
  | type
  | isfree
deriving DecidableEq, Repr

/-- `struct ekheap`, without its links. -/
structure Ekheap where
  isfree : Bool
  ulen : Nat
deriving DecidableEq, Repr

/-- `struct kheap`, without its own links, and the blocks of the page. -/
structure Kheap where
  list : Links Nat
  freeList : Links Nat
  block : Nat → Ekheap

/-- `kheaps`, the heap pages, and which pages are of type `PFNT_HEAP`. -/
structure Kheaps where
  kheaps : Links Nat
  skew : Nat → Nat
  page : Nat → Kheap
  pages : List Nat

namespace Kheap

/-- The blocks of a page, by its list. -/
def blocks (k : Kheap) : List Nat := k.list.walk pageUnits k.list.first

/-- The blocks on the free list. -/
def frees (k : Kheap) : List Nat := k.freeList.walk pageUnits k.freeList.first

/-- The page that `kheap_add` sets up. -/
def add (k : Kheap) : Kheap where
  list := { k.list with first := none }.insertHead 0
  freeList := { k.freeList with first := none }.insertHead 0
  block := Function.update k.block 0 ⟨true, pageUnits⟩

/-- Split off what is left of a free block beyond its first `units`. -/
def split (k : Kheap) (eptr units : Nat) : Kheap :=
  let neptr := eptr + units
  { list := k.list.insertAfter eptr neptr
    freeList := k.freeList.insertHead neptr
    block := Function.update k.block neptr ⟨true, (k.block eptr).ulen - units⟩ }

/-- Take a block off the free list. -/
def take (k : Kheap) (eptr units : Nat) : Kheap :=
  { k with
    freeList := k.freeList.remove eptr
    block := Function.update k.block eptr ⟨false, units⟩ }

/-- `kheap_alloc`, for `units` units with the header. -/
def allocUnits (k : Kheap) (units : Nat) : Except Panic (Option Nat × Kheap) :=
  match k.frees.find? fun eptr ↦ units ≤ (k.block eptr).ulen with
  | none => .ok (none, k)
  | some eptr =>
      if (k.block eptr).isfree then
        let udiff := (k.block eptr).ulen - units
        let k := if udiff ≠ 0 then k.split eptr units else k
        .ok (some (eptr + 1), k.take eptr units)
      else .error .isfree

/-- `kheap_alloc`. -/
def alloc (k : Kheap) (sz : Nat) : Except Panic (Option Nat × Kheap) :=
  k.allocUnits (uround sz + 1)

/-- The part of `kheap_free` that joins a block with the free block after it. -/
def mergeNext (k : Kheap) (eptr neptr : Nat) : Kheap where
  list := k.list.remove neptr
  freeList := k.freeList.remove neptr
  block := Function.update (Function.update k.block neptr ⟨false, (k.block neptr).ulen⟩) eptr
    ⟨(k.block eptr).isfree, (k.block eptr).ulen + (k.block neptr).ulen⟩

/-- `kheap_free` up to the test of the block before. -/
def absorb (k : Kheap) (eptr : Nat) : Kheap :=
  match k.list.next eptr with
  | none => k
  | some neptr => if (k.block neptr).isfree then k.mergeNext eptr neptr else k

/-- The part of `kheap_free` that joins a block with the free block before it. -/
def mergePrev (k : Kheap) (peptr eptr : Nat) : Kheap :=
  { k with
    list := k.list.remove eptr
    block := Function.update k.block peptr
      ⟨(k.block peptr).isfree, (k.block peptr).ulen + (k.block eptr).ulen⟩ }

/-- The part of `kheap_free` that puts a block on the free list. -/
def put (k : Kheap) (eptr : Nat) : Kheap :=
  { k with
    freeList := k.freeList.insertHead eptr
    block := Function.update k.block eptr ⟨true, (k.block eptr).ulen⟩ }

end Kheap

namespace Kheaps

/-- Write a page. -/
def setPage (h : Kheaps) (p : Nat) (k : Kheap) : Kheaps :=
  { h with page := Function.update h.page p k }

/-- The loop of `heap_alloc` over the pages. -/
def allocFrom (h : Kheaps) (size : Nat) : List Nat → Except Panic (Option (Nat × Nat) × Kheaps)
  | [] => .ok (none, h)
  | p :: ps => do
      let (ptr, k) ← (h.page p).alloc size
      match ptr with
      | some u => return (some (p, u), h.setPage p k)
      | none => allocFrom h size ps

/-- A page of type `PFNT_HEAP` is linked into `kheaps`.  `LIST_INSERT_HEAD` writes the
back pointers of the page and of the one that was first. -/
def addPage (h : Kheaps) (p : Nat) : Kheaps :=
  { h with
    kheaps := h.kheaps.insertHead p
    skew := fun q ↦ if q = p ∨ h.kheaps.first = some q then 0 else h.skew q
    pages := p :: h.pages }

/-- `heap_alloc`, where `pfn` is the page that `__allocpage` returns if it is called. -/
def alloc (h : Kheaps) (size pfn : Nat) : Except Panic (Option (Nat × Nat) × Kheaps) :=
  if heapMaxalloc ≤ uround size then .error .size
  else do
    let (ptr, h) ← h.allocFrom size (h.kheaps.walk h.pages.length h.kheaps.first)
    match ptr with
    | some ptr => return (some ptr, h)
    | none =>
        let k := (h.page pfn).add
        let (ptr, k) ← k.alloc size
        return (ptr.map fun u ↦ (pfn, u), (h.setPage pfn k).addPage pfn)

/-- `kheap_free` of the block at unit `eptr` of page `p`. -/
def freeBlock (h : Kheaps) (p eptr : Nat) : Kheaps :=
  let peptr := (h.page p).list.prev eptr
  let k := (h.page p).absorb eptr
  match peptr with
  | some peptr =>
      h.setPage p (if (k.block peptr).isfree then k.mergePrev peptr eptr else k.put eptr)
  | none =>
      -- the block before is the `struct kheap`
      if (h.kheaps.next p).isSome then
        { h.setPage p { k with list := k.list.remove eptr } with
          skew := Function.update h.skew p (w32 (h.skew p + (k.block eptr).ulen)) }
      else h.setPage p (k.put eptr)

/-- `heap_free`. -/
def free (h : Kheaps) (ptr : Nat × Nat) : Except Panic Kheaps :=
  if ptr.1 ∈ h.pages then .ok (h.freeBlock ptr.1 (ptr.2 - 1)) else .error .type

/-- `heap_init`. -/
def init (h : Kheaps) : Kheaps := { h with kheaps := { h.kheaps with first := none }, pages := [] }

end Kheaps

/-! ## Runs -/

/-- The heap, and the pointers returned by `heap_alloc` and not freed since. -/
structure State where
  heap : Kheaps
  live : List (Nat × Nat)

/-- The calls, with the page that `__allocpage` would return. -/
inductive Op
  | alloc (size pfn : Nat)
  | free (ptr : Nat × Nat)
deriving DecidableEq, Repr

/-- `__allocpage` returns a page that is not in use, and what is freed is live. -/
def Allowed (s : State) : Op → Prop
  | .alloc size pfn => size < 2 ^ 32 ∧ pfn ∉ s.heap.pages
  | .free ptr => ptr ∈ s.live

/-- One call. -/
def exec (s : State) : Op → Except Panic State
  | .alloc size pfn =>
      (s.heap.alloc size pfn).map fun r ↦ ⟨r.2, r.1.toList ++ s.live⟩
  | .free ptr => (s.heap.free ptr).map fun h ↦ ⟨h, s.live.erase ptr⟩

/-- A call that returns. -/
def Step (s : State) (op : Op) (s' : State) : Prop := Allowed s op ∧ exec s op = .ok s'

end Mh.Heap
