import Mh.Locks.Kern

/-!
# The locks of the drivers

The operations of `src/hwdev.c`, `src/usrdev.c`, `src/pltdev.c` and `src/klogdev.c`, and what takes
locks in `src/sysdev.c`.  They are called with the locks of a bus and of the device held, and take
the lock of the driver.

All of them are balanced but for `_hwdev_export`: for a range that leaves the page of `va` it
returns with the lock of the device held.
-/

namespace Mh.Locks

open Mh.Lib

variable {cur d id did port va sz irq sig off : Nat}

/-- The slab `usrioreqs`. -/
def usrioreqs : Nat := 1

/-! ## `hwdev` -/

/-- `_hwdev_open`. -/
def hwdevOpen (d : Nat) : Fn Int := do
  take (.hwdev d)
  let i ← value
  let ret : Int := if 256 ≤ i then Errno.ENFILE.neg else i
  release (.hwdev d)
  return ret

/-- `_hwdev_in`. -/
def hwdevIn (port : Nat) : Fn Int := do
  let found ← flag
  if !found then return Errno.EPERM.neg
  else if port % 4 = 3 then
    printf wake
    return Errno.EINVAL.neg
  else return 0

/-- `_hwdev_out`. -/
def hwdevOut (port : Nat) : Fn Int := do
  let found ← flag
  if !found then return Errno.EPERM.neg
  else if port % 4 = 3 then return Errno.EINVAL.neg
  else return 0

/-- A range ends in the page in which it begins. -/
def InPage (va sz : Nat) : Prop := truncPage (w32 (va + sz + (2 ^ 32 - 1))) = truncPage va

instance : Decidable (InPage va sz) := inferInstanceAs (Decidable (_ = _))

/-- `_hwdev_export`. -/
def hwdevExport (cur d va sz : Nat) : Fn Int := do
  take (.hwdev d)
  -- no unlock here
  if ¬ InPage va sz then return Errno.EINVAL.neg
  else
    let ret ← pmapUwire cur va
    if ret ≠ 0 then
      release (.hwdev d)
      return ret
    else
      let ret ← pmapPhys cur
      if ret ≠ 0 then
        check ((← pmapUunwire cur va) = 0)
        release (.hwdev d)
        return ret
      else
        heapAlloc
        release (.hwdev d)
        return 0

/-- `_hwdev_unexport`. -/
def hwdevUnexport (cur d : Nat) : Fn Int := do
  take (.hwdev d)
  let found ← flag
  if !found then
    release (.hwdev d)
    return Errno.ENOENT.neg
  else
    let va ← value
    let ret ← pmapUunwire cur va
    check (ret = 0)
    heapFree
    release (.hwdev d)
    return ret

/-- `_hwdev_iomap`. -/
def hwdevIomap (cur d va : Nat) : Fn Int := do
  let found ← flag
  if !found then return Errno.EPERM.neg
  else if ← flag then return Errno.EINVAL.neg
  else if ← flag then return Errno.EINVAL.neg
  else
    let ret ← iomap cur va
    if ret < 0 then return ret
    else
      heapAlloc
      take (.hwdev d)
      release (.hwdev d)
      return 0

/-- `_hwdev_iounmap`. -/
def hwdevIounmap (cur d va : Nat) : Fn Int := do
  take (.hwdev d)
  check (← flag)
  let found ← flag
  if found then
    let _ ← iounmap cur va
    heapFree
    release (.hwdev d)
    return 0
  else
    release (.hwdev d)
    return Errno.ENOENT.neg

/-- `_hwdev_irqmap`. -/
def hwdevIrqmap (d irq : Nat) : Fn Int := do
  take (.hwdev d)
  let found ← flag
  if !found then
    release (.hwdev d)
    return Errno.ENOENT.neg
  else
    heapAlloc
    let ret ← irqregister irq
    if ret < 0 then
      heapFree
      release (.hwdev d)
      return ret
    else
      release (.hwdev d)
      return ret

/-- `_hwdev_eoi`. -/
def hwdevEoi (d irq : Nat) : Fn Int := do
  take (.hwdev d)
  let found ← flag
  if !found then
    release (.hwdev d)
    return Errno.ENOENT.neg
  else
    irqeoi irq
    release (.hwdev d)
    return 0

/-- A record that `_hwdev_close` drops: a mapping, a signal or an exported page. -/
def hwdevUnmap (cur : Nat) : Fn Unit := do
  let va ← value
  let _ ← iounmap cur va
  heapFree

@[inherit_doc hwdevUnmap]
def hwdevUnsig : Fn Unit := do
  irqunregister
  heapFree

@[inherit_doc hwdevUnmap]
def hwdevUndma (cur : Nat) : Fn Unit := do
  let va ← value
  check ((← pmapUunwire cur va) = 0)
  heapFree

/-- `_hwdev_close`. -/
def hwdevClose (cur d : Nat) : Fn Unit := do
  take (.hwdev d)
  check (← flag)
  times (← value) (hwdevUnmap cur)
  times (← value) hwdevUnsig
  times (← value) (hwdevUndma cur)
  release (.hwdev d)

theorem hwdevOpen_balanced : Balanced (hwdevOpen d) :=
  .take <| .value fun _ ↦ .release (Frees.pure _)

theorem hwdevIn_balanced : Balanced (hwdevIn port) :=
  .flag fun _ ↦ .ite (Frees.pure _) <| .ite
    (.call (printf_balanced wake_balanced) fun _ ↦ Frees.pure _) (Frees.pure _)

theorem hwdevOut_balanced : Balanced (hwdevOut port) :=
  .flag fun _ ↦ .ite (Frees.pure _) <| .ite (Frees.pure _) (Frees.pure _)

/-- The export of a range in a page. -/
theorem hwdevExport_balanced (h : InPage va sz) : Balanced (hwdevExport cur d va sz) := by
  simp only [hwdevExport, h, not_true_eq_false, if_false]
  exact .take <| .call pmapUwire_balanced fun _ ↦ .ite (.release (Frees.pure _)) <|
    .call pmapPhys_balanced fun _ ↦ .ite
      (.call pmapUunwire_balanced fun _ ↦ .check fun _ ↦ .release (Frees.pure _))
      (.call heapAlloc_balanced fun _ ↦ .release (Frees.pure _))

/-- The export of a range that leaves its page. -/
theorem hwdevExport_of_not_inPage (h : ¬ InPage va sz) :
    hwdevExport cur d va sz = take (.hwdev d) >>= fun _ ↦ return Errno.EINVAL.neg := by
  simp only [hwdevExport, h, not_false_eq_true, if_true]

theorem hwdevExport_not_balanced (h : ¬ InPage va sz) : ¬ Balanced (hwdevExport cur d va sz) := by
  rw [hwdevExport_of_not_inPage h, balanced_iff]
  exact fun hp ↦ absurd (hp ∅ (Set.notMem_empty _)) (Set.insert_nonempty _ _).ne_empty

theorem hwdevUnexport_balanced : Balanced (hwdevUnexport cur d) :=
  .take <| .flag fun _ ↦ .ite (.release (Frees.pure _)) <| .value fun _ ↦
    .call pmapUunwire_balanced fun _ ↦ .check fun _ ↦ .call heapFree_balanced fun _ ↦
      .release (Frees.pure _)

theorem hwdevIomap_balanced : Balanced (hwdevIomap cur d va) :=
  .flag fun _ ↦ .ite (Frees.pure _) <| .flag fun _ ↦ .ite (Frees.pure _) <| .flag fun _ ↦
    .ite (Frees.pure _) <| .call iomap_balanced fun _ ↦ .ite (Frees.pure _) <|
      .call heapAlloc_balanced fun _ ↦ .take <| .release (Frees.pure _)

theorem hwdevIounmap_balanced : Balanced (hwdevIounmap cur d va) :=
  .take <| .flag fun _ ↦ .check fun _ ↦ .flag fun _ ↦ .ite
    (.call iounmap_balanced fun _ ↦ .call heapFree_balanced fun _ ↦ .release (Frees.pure _))
    (.release (Frees.pure _))

theorem hwdevIrqmap_balanced : Balanced (hwdevIrqmap d irq) :=
  .take <| .flag fun _ ↦ .ite (.release (Frees.pure _)) <| .call heapAlloc_balanced fun _ ↦
    .call irqregister_balanced fun _ ↦ .ite
      (.call heapFree_balanced fun _ ↦ .release (Frees.pure _)) (.release (Frees.pure _))

theorem hwdevEoi_balanced : Balanced (hwdevEoi d irq) :=
  .take <| .flag fun _ ↦ .ite (.release (Frees.pure _)) <| .call irqeoi_balanced fun _ ↦
    .release (Frees.pure _)

theorem hwdevUnmap_balanced : Balanced (hwdevUnmap cur) :=
  .value fun _ ↦ .call iounmap_balanced fun _ ↦ heapFree_balanced

theorem hwdevUnsig_balanced : Balanced hwdevUnsig :=
  .call irqunregister_balanced fun _ ↦ heapFree_balanced

theorem hwdevUndma_balanced : Balanced (hwdevUndma cur) :=
  .value fun _ ↦ .call pmapUunwire_balanced fun _ ↦ .check fun _ ↦ heapFree_balanced

theorem hwdevClose_balanced : Balanced (hwdevClose cur d) :=
  .take <| .flag fun _ ↦ .check fun _ ↦
    .value fun n ↦ .call (.times hwdevUnmap_balanced n) fun _ ↦
    .value fun n ↦ .call (.times hwdevUnsig_balanced n) fun _ ↦
    .value fun n ↦ .call (.times hwdevUndma_balanced n) fun _ ↦ .last

/-! ## `usrdev` -/

/-- The end of `_usrdev_open` and `_usrdev_clone`, from the search for a free entry on. -/
def usrdevEnter (d : Nat) : Fn Int := do
  take (.usrdev d)
  let i ← value
  if 256 ≤ i then
    release (.usrdev d)
    structsFree usrioreqs
    return Errno.ENFILE.neg
  else
    let detaching ← flag
    if detaching then
      release (.usrdev d)
      structsFree usrioreqs
      return Errno.ENODEV.neg
    else
      thraise
      release (.usrdev d)
      return i

/-- `_usrdev_open` and `_usrdev_clone`. -/
def usrdevOpen (d : Nat) : Fn Int := do
  structsAlloc usrioreqs
  usrdevEnter d

/-- `_usrdev_in`, `_usrdev_info`, and `usrdev_wriospace`: they read or write under the lock. -/
def usrdevLocked (d : Nat) : Fn Int := do
  take (.usrdev d)
  release (.usrdev d)
  return 0

/-- `_usrdev_out`. -/
def usrdevOut (d id : Nat) : Fn Int := do
  check (id < 256)
  structsAlloc usrioreqs
  take (.usrdev d)
  let detaching ← flag
  if detaching then
    release (.usrdev d)
    structsFree usrioreqs
    return Errno.ENODEV.neg
  else
    thraise
    release (.usrdev d)
    return 0

/-- `_usrdev_export`. -/
def usrdevExport (d id sz : Nat) : Fn Int := do
  check (id < 256)
  if sz = 0 then return Errno.EINVAL.neg
  else
    take (.usrdev d)
    let full ← flag
    if full then
      release (.usrdev d)
      return Errno.EBUSY.neg
    else
      release (.usrdev d)
      return 0

/-- `_usrdev_unexport`. -/
def usrdevUnexport (d : Nat) : Fn Int := do
  take (.usrdev d)
  let found ← flag
  if !found then
    release (.usrdev d)
    return Errno.ENOENT.neg
  else
    release (.usrdev d)
    return 0

/-- `_usrdev_rdcfg`. -/
def usrdevRdcfg (d id off sz : Nat) : Fn Int := do
  if sz ∉ [1, 2, 4, 8] then return Errno.EINVAL.neg
  else if off % sz ≠ 0 then return Errno.EINVAL.neg
  else
    check (id < 256)
    let max ← value
    if max ≤ off / 8 then return Errno.EINVAL.neg
    else
      take (.usrdev d)
      release (.usrdev d)
      return 0

/-- `_usrdev_irqmap`. -/
def usrdevIrqmap (d id irq : Nat) : Fn Int := do
  check (id < 256)
  let irqmapsz ← value
  if irqmapsz ≤ irq then return Errno.EINVAL.neg
  else
    take (.usrdev d)
    release (.usrdev d)
    return 0

/-- `_usrdev_close`. -/
def usrdevClose (d : Nat) : Fn Unit := do
  structsAlloc usrioreqs
  take (.usrdev d)
  let detaching ← flag
  if detaching then
    release (.usrdev d)
    pmapCommit (← value)
    pmapCommit (← value)
    structsFree usrioreqs
  else
    thraise
    release (.usrdev d)
    pmapCommit (← value)
    pmapCommit (← value)

/-- `usrdev_poll`. -/
def usrdevPoll (d : Nat) : Fn Int := do
  take (.usrdev d)
  let ior ← flag
  release (.usrdev d)
  if !ior then return Errno.ENOENT.neg
  else
    check (← flag)
    structsFree usrioreqs
    return ← value

/-- `usrdev_irq`. -/
def usrdevIrq (d id irq : Nat) : Fn Int := do
  let irqmapsz ← value
  if 256 ≤ id ∨ irqmapsz ≤ irq then return Errno.EINVAL.neg
  else
    take (.usrdev d)
    optional thraise
    release (.usrdev d)
    return 0

/-- `usrdev_read` and `usrdev_write`. -/
def usrdevCopy (d id : Nat) : Fn Int := do
  if 256 ≤ id then return Errno.EINVAL.neg
  else
    take (.usrdev d)
    let use ← flag
    if !use then
      release (.usrdev d)
      return Errno.ENOENT.neg
    else
      let found ← flag
      if !found then
        release (.usrdev d)
        return Errno.EINVAL.neg
      else
        xcopy (← value)
        release (.usrdev d)
        return ← value

theorem usrdevEnter_balanced : Balanced (usrdevEnter d) :=
  .take <| .value fun _ ↦ .ite
    (.release <| .call structsFree_balanced fun _ ↦ Frees.pure _) <| .flag fun _ ↦ .ite
      (.release <| .call structsFree_balanced fun _ ↦ Frees.pure _)
      (.call thraise_balanced fun _ ↦ .release (Frees.pure _))

theorem usrdevOpen_balanced : Balanced (usrdevOpen d) :=
  .call structsAlloc_balanced fun _ ↦ usrdevEnter_balanced

theorem usrdevLocked_balanced : Balanced (usrdevLocked d) := .take <| .release (Frees.pure _)

theorem usrdevOut_balanced : Balanced (usrdevOut d id) :=
  .check fun _ ↦ .call structsAlloc_balanced fun _ ↦ .take <| .flag fun _ ↦ .ite
    (.release <| .call structsFree_balanced fun _ ↦ Frees.pure _)
    (.call thraise_balanced fun _ ↦ .release (Frees.pure _))

theorem usrdevExport_balanced : Balanced (usrdevExport d id sz) :=
  .check fun _ ↦ .ite (Frees.pure _) <| .take <| .flag fun _ ↦
    .ite (.release (Frees.pure _)) (.release (Frees.pure _))

theorem usrdevUnexport_balanced : Balanced (usrdevUnexport d) :=
  .take <| .flag fun _ ↦ .ite (.release (Frees.pure _)) (.release (Frees.pure _))

theorem usrdevRdcfg_balanced : Balanced (usrdevRdcfg d id off sz) :=
  .ite (Frees.pure _) <| .ite (Frees.pure _) <| .check fun _ ↦ .value fun _ ↦
    .ite (Frees.pure _) <| .take <| .release (Frees.pure _)

theorem usrdevIrqmap_balanced : Balanced (usrdevIrqmap d id irq) :=
  .check fun _ ↦ .value fun _ ↦ .ite (Frees.pure _) <| .take <| .release (Frees.pure _)

theorem usrdevClose_balanced : Balanced (usrdevClose d) :=
  .call structsAlloc_balanced fun _ ↦ .take <| .flag fun _ ↦ .ite
    (.release <| .value fun _ ↦ .call pmapCommit_balanced fun _ ↦ .value fun _ ↦
      .call pmapCommit_balanced fun _ ↦ structsFree_balanced)
    (.call thraise_balanced fun _ ↦ .release <| .value fun _ ↦ .call pmapCommit_balanced fun _ ↦
      .value fun _ ↦ pmapCommit_balanced)

theorem usrdevPoll_balanced : Balanced (usrdevPoll d) :=
  .take <| .flag fun _ ↦ .release <| .ite (Frees.pure _) <| .flag fun _ ↦ .check fun _ ↦
    .call structsFree_balanced fun _ ↦ .value fun _ ↦ Frees.pure _

theorem usrdevIrq_balanced : Balanced (usrdevIrq d id irq) :=
  .value fun _ ↦ .ite (Frees.pure _) <| .take <| .call (.optional thraise_balanced) fun _ ↦
    .release (Frees.pure _)

theorem usrdevCopy_balanced : Balanced (usrdevCopy d id) :=
  .ite (Frees.pure _) <| .take <| .flag fun _ ↦ .ite (.release (Frees.pure _)) <| .flag fun _ ↦
    .ite (.release (Frees.pure _)) <| .value fun _ ↦ .call xcopy_balanced fun _ ↦ .release <|
      .value fun _ ↦ Frees.pure _

/-! ## The platform, the log and the system -/

/-- `_pltdev_open`. -/
def pltdevOpen : Fn Int := do
  take .platform
  let i ← value
  let ret := if 512 ≤ i then Errno.ENFILE.neg else 0
  release .platform
  return ret

/-- `_pltdev_in` and `_pltdev_out`. -/
def pltdevIo (port : Nat) : Fn Int := do
  if port % 4 = 3 then return Errno.EINVAL.neg else return 0

/-- `_pltdev_iomap`. -/
def pltdevIomap (cur va : Nat) : Fn Int := do
  if ← flag then return Errno.EINVAL.neg
  else if ← flag then return Errno.EINVAL.neg
  else
    let ret ← iomap cur va
    if ret < 0 then return ret
    else
      heapAlloc
      take .platform
      release .platform
      return 0

/-- `_pltdev_iounmap`. -/
def pltdevIounmap (cur va : Nat) : Fn Int := do
  take .platform
  check (← flag)
  let found ← flag
  if found then
    let _ ← iounmap cur va
    heapFree
    release .platform
    return 0
  else
    release .platform
    return Errno.ENOENT.neg

/-- `_pltdev_irqmap`. -/
def pltdevIrqmap (irq : Nat) : Fn Int := do
  heapAlloc
  let ret ← irqregister irq
  if ret < 0 then return ret
  else
    take .platform
    release .platform
    return ret

/-- `_pltdev_close`. -/
def pltdevClose (cur : Nat) : Fn Unit := do
  take .platform
  check (← flag)
  times (← value) (hwdevUnmap cur)
  times (← value) hwdevUnsig
  release .platform

/-- `_klogdev_open`. -/
def klogdevOpen : Fn Int := do
  take .klog
  let bsy ← flag
  if bsy then
    release .klog
    printf wake
    return Errno.EBUSY.neg
  else
    release .klog
    return 0

/-- `_klogdev_close`. -/
def klogdevClose : Fn Unit := do
  take .klog
  check (← flag)
  release .klog

/-- `_klog_getc` and `_klog_size`. -/
def klogBuf : Fn Unit := do
  take .kbuf
  release .kbuf

/-- The switch of `_klogdev_in`: the characters of `KLOGDEVIO_GETC` are taken one by one. -/
def klogdevRead (ioport iosize : Nat) : Fn Unit :=
  match ioport with
  | 0 => times (2 ^ iosize) klogBuf
  | 1 => klogBuf
  | _ => return

/-- `_klogdev_in`. -/
def klogdevIn (port : Nat) : Fn Int := do
  klogdevRead (port / 4 % 2 ^ 16) (port % 4)
  return 0

/-- `_klogdev_out`: `KLOGDEVIO_IE` and `KLOGDEVIO_ISR` are written under the lock.  It returns
without a value. -/
def klogdevOut (port : Nat) : Fn Int := do
  if port / 4 % 2 ^ 16 ∈ [2, 3] then
    take .klog
    release .klog
    return ← value
  else return ← value

/-- `_sysdev_out`, which returns without a value as well. -/
def sysdevOut (port : Nat) : Fn Int := do
  if port / 4 % 2 ^ 16 ∈ [1, 2] then
    thalrm
    return ← value
  else return ← value

theorem pltdevOpen_balanced : Balanced pltdevOpen :=
  .take <| .value fun _ ↦ .release (Frees.pure _)

theorem pltdevIo_balanced : Balanced (pltdevIo port) := .ite (Frees.pure _) (Frees.pure _)

theorem pltdevIomap_balanced : Balanced (pltdevIomap cur va) :=
  .flag fun _ ↦ .ite (Frees.pure _) <| .flag fun _ ↦ .ite (Frees.pure _) <|
    .call iomap_balanced fun _ ↦ .ite (Frees.pure _) <| .call heapAlloc_balanced fun _ ↦
      .take <| .release (Frees.pure _)

theorem pltdevIounmap_balanced : Balanced (pltdevIounmap cur va) :=
  .take <| .flag fun _ ↦ .check fun _ ↦ .flag fun _ ↦ .ite
    (.call iounmap_balanced fun _ ↦ .call heapFree_balanced fun _ ↦ .release (Frees.pure _))
    (.release (Frees.pure _))

theorem pltdevIrqmap_balanced : Balanced (pltdevIrqmap irq) :=
  .call heapAlloc_balanced fun _ ↦ .call irqregister_balanced fun _ ↦ .ite (Frees.pure _) <|
    .take <| .release (Frees.pure _)

theorem pltdevClose_balanced : Balanced (pltdevClose cur) :=
  .take <| .flag fun _ ↦ .check fun _ ↦
    .value fun n ↦ .call (.times hwdevUnmap_balanced n) fun _ ↦
    .value fun n ↦ .call (.times hwdevUnsig_balanced n) fun _ ↦ .last

theorem klogdevOpen_balanced : Balanced klogdevOpen :=
  .take <| .flag fun _ ↦ .ite
    (.release <| .call (printf_balanced wake_balanced) fun _ ↦ Frees.pure _)
    (.release (Frees.pure _))

theorem klogdevClose_balanced : Balanced klogdevClose :=
  .take <| .flag fun _ ↦ .check fun _ ↦ .last

theorem klogBuf_balanced : Balanced klogBuf := .take .last

theorem klogdevRead_balanced {ioport iosize : Nat} : Balanced (klogdevRead ioport iosize) := by
  rcases ioport with _ | _ | _
  · exact Balanced.times klogBuf_balanced _
  · exact klogBuf_balanced
  · exact Frees.pure _

theorem klogdevIn_balanced : Balanced (klogdevIn port) :=
  .call klogdevRead_balanced fun _ ↦ Frees.pure _

theorem klogdevOut_balanced : Balanced (klogdevOut port) :=
  .ite (.take <| .release <| .value fun _ ↦ Frees.pure _) (.value fun _ ↦ Frees.pure _)

theorem sysdevOut_balanced : Balanced (sysdevOut port) :=
  .ite (.call thalrm_balanced fun _ ↦ .value fun _ ↦ Frees.pure _) (.value fun _ ↦ Frees.pure _)

end Mh.Locks
