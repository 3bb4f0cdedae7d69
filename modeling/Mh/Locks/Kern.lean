import Mh.Lib.Locking
import Mh.Param

/-!
# What the drivers call

The locks of the kernel that the operations of a device take, and the functions of `src/kern.c`,
`src/heap.c`, `src/slab.c`, `src/pgalloc.c`, `src/klogdev.c`, `src/xcopy.c` and `i386/src/pmap.c`
that they call, as far as their locks go: what a function reads of the state is a `value` or a
`flag`, which can be anything, and a failed assertion stops.  `cur` is the pmap of the current
thread.

Every function is balanced, but for `pmap_hmap`, which returns with the lock that `pmap_hunmap`
releases.  `dprintf` is empty, as it is unless the kernel is built with `__DEBUG`.
-/

namespace Mh.Locks

open Mh.Lib

/-- The spinlocks: of the tree of devices, of a bus and of a device; of a `hwdev`, of a `usrdev`,
of the platform device and of the log device and its buffer; of a pmap; and those of the functions
that the drivers call. -/
inductive Lock
  | sysDeviceRbtree | bus (b : Nat) | dev (d : Nat)
  | hwdev (d : Nat) | usrdev (d : Nat) | platform | klog | kbuf
  | pmap (p : Nat)
  | irqsigs | timers | sched | kheaps | kheap (h : Nat) | slab (c : Nat) | zone (z : Nat)
deriving DecidableEq

/-- A function of the kernel. -/
abbrev Fn := Code Lock

variable {cur pm va irq d c : Nat}

/-! ## Memory -/

/-- The zones of `pgalloc`, the first with a page. -/
def pgzones : List Nat → Fn Bool
  | [] => return false
  | z :: zs => do
      if ← flag then
        take (.zone z)
        let addr ← flag
        release (.zone z)
        if addr then return true else pgzones zs
      else pgzones zs

/-- `pgalloc`. -/
def pgalloc : Fn Unit := do
  let addr ← pgzones [3, 2, 1, 0]
  check addr

/-- `pgfree`. -/
def pgfree : Fn Unit := do
  let z ← value
  check (z < 4)
  take (.zone z)
  release (.zone z)

theorem pgzones_balanced (zs : List Nat) : Balanced (pgzones zs) := by
  induction zs with
  | nil => exact Frees.pure _
  | cons z zs ih =>
      exact .flag fun _ ↦ .ite (.take <| .flag fun _ ↦ .release <| .ite (Frees.pure _) ih) ih

theorem pgalloc_balanced : Balanced pgalloc :=
  .call (pgzones_balanced _) fun _ ↦ .ite (Frees.pure _) .stop

theorem pgfree_balanced : Balanced pgfree :=
  .value fun _ ↦ .check fun _ ↦ .take .last

/-- `grow` of a slab whose memory `get` provides. -/
def slabGrow (get : Fn Bool) (c : Nat) : Fn Unit := do
  let sh ← get
  check sh
  take (.slab c)
  release (.slab c)

/-- `alloc_opq` from `retry` on, where the lock of the slab is held; `n` tries are left. -/
def slabRetry (get : Fn Bool) (c : Nat) : Nat → Fn Bool
  | 0 => do
      let sh ← flag
      release (.slab c)
      return sh
  | n + 1 => do
      if ← flag then
        release (.slab c)
        return true
      else
        release (.slab c)
        slabGrow get c
        take (.slab c)
        slabRetry get c n

/-- `alloc_opq`. -/
def slabAlloc (get : Fn Bool) (c : Nat) : Fn Bool := do
  take (.slab c)
  slabRetry get c 4

/-- `alloc16k`: from the slab `m16k`, whose slabs are pages. -/
def alloc16k : Fn Bool := slabAlloc (do pgalloc; return true) 0

/-- `structs_alloc`. -/
def structsAlloc (c : Nat) : Fn Unit := do
  let _ ← slabAlloc alloc16k c
  return

/-- `structs_free`. -/
def structsFree (c : Nat) : Fn Unit := optional do
  take (.slab c)
  release (.slab c)

theorem slabGrow_balanced {get : Fn Bool} (hg : Balanced get) : Balanced (slabGrow get c) :=
  .call hg fun _ ↦ .check fun _ ↦ .take .last

theorem slabRetry_frees {get : Fn Bool} (hg : Balanced get) (n : Nat) :
    Frees [.slab c] (slabRetry get c n) := by
  induction n with
  | zero => exact .flag fun _ ↦ .release (Frees.pure _)
  | succ n ih =>
      exact .flag fun _ ↦ .ite (.release (Frees.pure _))
        (.release <| .call (slabGrow_balanced hg) fun _ ↦ .take ih)

theorem slabAlloc_balanced {get : Fn Bool} (hg : Balanced get) : Balanced (slabAlloc get c) :=
  .take (slabRetry_frees hg 4)

theorem alloc16k_balanced : Balanced alloc16k :=
  slabAlloc_balanced <| .call pgalloc_balanced fun _ ↦ Frees.pure _

theorem structsAlloc_balanced : Balanced (structsAlloc c) :=
  .call (slabAlloc_balanced alloc16k_balanced) fun _ ↦ Frees.pure _

theorem structsFree_balanced : Balanced (structsFree c) := .optional (.take .last)

/-- `kheap_alloc`. -/
def kheapAlloc (h : Nat) : Fn Bool := do
  take (.kheap h)
  if ← flag then
    release (.kheap h)
    return false
  else
    check (← flag)
    release (.kheap h)
    return true

/-- The loop of `heap_alloc` over the heaps. -/
def kheapFirst : Nat → Fn Bool
  | 0 => return false
  | n + 1 => do
      let h ← value
      if ← kheapAlloc h then return true else kheapFirst n

/-- `heap_alloc`. -/
def heapAlloc : Fn Unit := do
  check (← flag)
  take .kheaps
  let n ← value
  let ptr ← kheapFirst n
  release .kheaps
  if ptr then return
  else
    pgalloc
    let h ← value
    let _ ← kheapAlloc h
    take .kheaps
    release .kheaps

/-- `heap_free`. -/
def heapFree : Fn Unit := do
  check (← flag)
  let h ← value
  take (.kheap h)
  release (.kheap h)

theorem kheapAlloc_balanced {h : Nat} : Balanced (kheapAlloc h) :=
  .take <| .flag fun _ ↦ .ite (.release (Frees.pure _))
    (.flag fun _ ↦ .check fun _ ↦ .release (Frees.pure _))

theorem kheapFirst_balanced (n : Nat) : Balanced (kheapFirst n) := by
  induction n with
  | zero => exact Frees.pure _
  | succ n ih => exact .value fun _ ↦ .call kheapAlloc_balanced fun _ ↦ .ite (Frees.pure _) ih

theorem heapAlloc_balanced : Balanced heapAlloc :=
  .flag fun _ ↦ .check fun _ ↦ .take <| .value fun n ↦ .call (kheapFirst_balanced n) fun _ ↦
    .release <| .ite (Frees.pure _) <| .call pgalloc_balanced fun _ ↦ .value fun _ ↦
      .call kheapAlloc_balanced fun _ ↦ .take .last

theorem heapFree_balanced : Balanced heapFree :=
  .flag fun _ ↦ .check fun _ ↦ .value fun _ ↦ .take .last

/-! ## Threads and the log -/

section Log

/-- `__klogdev_raise_avl`, with the `wake` of the thread of the log. -/
def klogdevRaiseAvl (wake : Fn Unit) : Fn Unit := do
  take .klog
  optional do
    check (← flag)
    wake
  release .klog

/-- `klog_putc`. -/
def klogPutc (wake : Fn Unit) : Fn Unit := do
  take .kbuf
  release .kbuf
  klogdevRaiseAvl wake

/-- `printf`, which puts every character into the log. -/
def printf (wake : Fn Unit) : Fn Unit := do
  let n ← value
  times n (klogPutc wake)

/-- `wake` inside of `wake`: the lock is held, and it is waited for without end. -/
def wakeAgain : Fn Unit := do
  take .sched
  .stop

/-- `wake`.  It logs that the thread is a zombie, and with that may wake the thread of the log. -/
def wake : Fn Unit := do
  take .sched
  optional (printf wakeAgain)
  release .sched

/-- `thraise`. -/
def thraise : Fn Unit := do
  check (← flag)
  wake

variable {w : Fn Unit}

theorem klogdevRaiseAvl_balanced (hw : Balanced w) : Balanced (klogdevRaiseAvl w) :=
  .take <| .call (.optional <| .flag fun _ ↦ .check fun _ ↦ hw) fun _ ↦ .last

theorem klogPutc_balanced (hw : Balanced w) : Balanced (klogPutc w) :=
  .take <| .release <| klogdevRaiseAvl_balanced hw

theorem printf_balanced (hw : Balanced w) : Balanced (printf w) :=
  .value fun n ↦ Balanced.times (klogPutc_balanced hw) n

theorem wake_balanced : Balanced wake :=
  .take <| .call (.optional <| printf_balanced <| .take .stop) fun _ ↦ .last

theorem thraise_balanced : Balanced thraise := .flag fun _ ↦ .check fun _ ↦ wake_balanced

end Log

/-! ## Page tables -/

/-- `pmap_uiomap`. -/
def pmapUiomap (pm va : Nat) : Fn Int := do
  check (isuaddr va)
  take (.pmap pm)
  let external ← flag
  if external then
    release (.pmap pm)
    return Errno.EBUSY.neg
  else
    release (.pmap pm)
    return 0

/-- `pmap_uiounmap`. -/
def pmapUiounmap (pm va : Nat) : Fn Int := do
  check (isuaddr va)
  take (.pmap pm)
  let iomap ← flag
  if !iomap then
    release (.pmap pm)
    return -1
  else
    release (.pmap pm)
    return 0

/-- `pmap_phys`. -/
def pmapPhys (pm : Nat) : Fn Int := do
  take (.pmap pm)
  let present ← flag
  let ret := if present then 0 else Errno.EFAULT.neg
  release (.pmap pm)
  return ret

/-- `pmap_uwire`. -/
def pmapUwire (pm va : Nat) : Fn Int := do
  check (isuaddr va)
  take (.pmap pm)
  let iomap ← flag
  if iomap then
    release (.pmap pm)
    return Errno.EBUSY.neg
  else
    release (.pmap pm)
    return 0

/-- `pmap_uunwire`. -/
def pmapUunwire (pm va : Nat) : Fn Int := do
  check (isuaddr va)
  take (.pmap pm)
  let wired ← flag
  if !wired then
    release (.pmap pm)
    return -1
  else
    release (.pmap pm)
    return 0

/-- `pmap_commit`. -/
def pmapCommit (pm : Nat) : Fn Unit := do
  take (.pmap pm)
  release (.pmap pm)

/-- `pmap_hmap`: the lock stays on. -/
def pmapHmap (pm va : Nat) : Fn Unit := do
  check (isuaddr va)
  take (.pmap pm)
  check (← flag)

/-- `pmap_hunmap`. -/
def pmapHunmap (pm : Nat) : Fn Unit := release (.pmap pm)

theorem pmapUiomap_balanced : Balanced (pmapUiomap pm va) :=
  .check fun _ ↦ .take <| .flag fun _ ↦ .ite (.release (Frees.pure _)) (.release (Frees.pure _))

theorem pmapUiounmap_balanced : Balanced (pmapUiounmap pm va) :=
  .check fun _ ↦ .take <| .flag fun _ ↦ .ite (.release (Frees.pure _)) (.release (Frees.pure _))

theorem pmapPhys_balanced : Balanced (pmapPhys pm) :=
  .take <| .flag fun _ ↦ .release (Frees.pure _)

theorem pmapUwire_balanced : Balanced (pmapUwire pm va) :=
  .check fun _ ↦ .take <| .flag fun _ ↦ .ite (.release (Frees.pure _)) (.release (Frees.pure _))

theorem pmapUunwire_balanced : Balanced (pmapUunwire pm va) :=
  .check fun _ ↦ .take <| .flag fun _ ↦ .ite (.release (Frees.pure _)) (.release (Frees.pure _))

theorem pmapCommit_balanced : Balanced (pmapCommit pm) := .take .last

/-- After `pmap_hmap` the lock of the pmap is held. -/
theorem frees_pmapHmap {α : Type} {ls : List Lock} {f : Unit → Fn α}
    (h : Frees (.pmap pm :: ls) (f ())) : Frees ls (pmapHmap pm va >>= f) := by
  simp only [pmapHmap, Code.bind_assoc]
  exact .check fun _ ↦ .take <| .flag fun _ ↦ .check fun _ ↦ h

/-- `iomap`. -/
def iomap (cur va : Nat) : Fn Int := do
  let mmio ← flag
  if !mmio then return Errno.EINVAL.neg
  else
    let ret ← pmapUiomap cur va
    pmapCommit cur
    if ret < 0 then return ret
    else
      optional pgfree
      return ret

/-- `iounmap`. -/
def iounmap (cur va : Nat) : Fn Int := do
  let ret ← pmapUiounmap cur va
  pmapCommit cur
  return ret

theorem iomap_balanced : Balanced (iomap cur va) :=
  .flag fun _ ↦ .ite (Frees.pure _) <| .call pmapUiomap_balanced fun _ ↦
    .call pmapCommit_balanced fun _ ↦ .ite (Frees.pure _) <|
      .call (.optional pgfree_balanced) fun _ ↦ Frees.pure _

theorem iounmap_balanced : Balanced (iounmap cur va) :=
  .call pmapUiounmap_balanced fun _ ↦ .call pmapCommit_balanced fun _ ↦ Frees.pure _

/-- A page of `xcopy_from` or `xcopy_to`: `pm` is the pmap of the other thread.  It says whether
the copy has failed. -/
def xcopyPage (pm : Nat) : Fn Bool := do
  let xva ← value
  pmapHmap pm xva
  let ret ← flag
  pmapHunmap pm
  return ret

/-- `xcopy_from` and `xcopy_to`. -/
def xcopy (pm : Nat) : Fn Unit := do
  let n ← value
  repeatUntil n (xcopyPage pm)

theorem xcopyPage_balanced : Balanced (xcopyPage pm) :=
  .value fun _ ↦ frees_pmapHmap <| .flag fun _ ↦ .release (Frees.pure _)

theorem xcopy_balanced : Balanced (xcopy pm) :=
  .value fun n ↦ Balanced.repeatUntil xcopyPage_balanced n

/-! ## Interrupts -/

/-- `MAXIRQS`. -/
def maxIrqs : Nat := 255 - 0x23

/-- `irqregister`. -/
def irqregister (irq : Nat) : Fn Int := do
  if maxIrqs ≤ irq then return Errno.EINVAL.neg
  else
    take .irqsigs
    release .irqsigs
    return 0

/-- `irqunregister`. -/
def irqunregister : Fn Unit := do
  take .irqsigs
  release .irqsigs

/-- `irqeoi`. -/
def irqeoi (irq : Nat) : Fn Unit := do
  check (irq < maxIrqs)
  take .irqsigs
  release .irqsigs

theorem irqregister_balanced : Balanced (irqregister irq) :=
  .ite (Frees.pure _) <| .take <| .release (Frees.pure _)

theorem irqunregister_balanced : Balanced irqunregister := .take .last

theorem irqeoi_balanced : Balanced (irqeoi irq) := .check fun _ ↦ .take .last

/-! ## Timers -/

/-- `timer_remove`. -/
def timerRemove : Fn Unit := optional do
  take .timers
  release .timers

/-- `timer_register`. -/
def timerRegister : Fn Unit := optional do
  take .timers
  release .timers

/-- `thalrm` and `thvtalrm`. -/
def thalrm : Fn Unit := do
  timerRemove
  timerRegister

theorem thalrm_balanced : Balanced thalrm :=
  .call (.optional (.take .last)) fun _ ↦ Balanced.optional (.take .last)

end Mh.Locks
