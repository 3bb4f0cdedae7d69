import Mh.Param
import Mh.Lib.Run
import Mathlib.Logic.Function.Basic

/-!
# Devices, buses and their clients

The data of `src/bus.c` and of the device drivers `src/usrdev.c`, `src/hwdev.c`,
`src/pltdev.c`, `src/sysdev.c` and `src/klogdev.c`: the descriptors that the threads have
open, the devices with the lists of the descriptors plugged into them, and the tables in
which the drivers keep what belongs to a client.  Below them are the few parts of
`src/kern.c` that the drivers call: `thraise`, `irqregister`, `irqunregister`, `iomap` and
`iounmap`.

Every call is one step, so the locks are left out.  A thread is named by its number, which
is its pid and is never used again; a device by the number of its `struct dev`.  A bus slot
is a thread with an index into the `devs` of its bus.

Three fields are history variables, which no function reads: `Ior.issuer`, the thread that
made a request; `Usrdev.issued` and `Usrdev.polls`, the requests that a device was given
and the ones it has handed to its owner; and `via` in a mapping or a registration, the
descriptor through which it was made.
-/

namespace Mh.Bus

open Mh.Lib

/-- `MAXBUSDEVS`. -/
def maxBusDevs : Nat := 64

/-- `MAXDEVS`. -/
def maxDevs : Nat := 16

/-- `MAXSIGNALS`: the bits of a `u_long`. -/
def maxSignals : Nat := 32

/-- `MAXIRQS`. -/
def maxIrqs : Nat := 255 - 0x23

/-- `MAXUSRDEVREMS`. -/
def maxUsrdevRems : Nat := 256

/-- `MAXUSRDEVAPERTS`. -/
def maxUsrdevAperts : Nat := 16

/-- `IOSPACESZ`. -/
def iospaceSz : Nat := 32

/-- `IRQMAPSZ`. -/
def irqmapSz : Nat := 8

/-- `SYS_DEVCONFIG_MAXUSERCFG`. -/
def maxUserCfg : Nat := 2

/-- `MAXHWDEVREMS`. -/
def maxHwdevRems : Nat := 256

/-- `MAXPLTSIGS`. -/
def maxPltSigs : Nat := 512

/-- `INTR_CHILD`. -/
def intrChild : Nat := 0

/-- What stops the kernel: a signal out of range; an interrupt line out of range; a client
id that is out of range or not open; a pointer that is not set; the exit of a thread without
a parent. -/
inductive Panic
  | signal
  | irq
  | closed
  | null
  | parent
deriving DecidableEq, Repr

/-- A slot of a bus: the thread that the bus belongs to, and the descriptor. -/
abbrev Slot := Nat × Nat

/-- `struct bdeve`. -/
structure Bdeve where
  bsy : Bool
  plg : Bool
  devid : Nat
  dev : Option Nat
deriving DecidableEq, Repr

/-- A slot of a cleared bus. -/
def Bdeve.zero : Bdeve := ⟨false, false, 0, none⟩

/-- Whose `devops` a device has. -/
inductive Kind
  | usr
  | hw
  | plt
  | sys
  | klog
deriving DecidableEq, Repr

/-- `struct dev`. -/
structure Dev where
  did : Nat
  offline : Bool
  uid : Nat
  gid : Nat
  mode : Nat
  kind : Kind
  busdevs : List Slot
deriving DecidableEq, Repr

/-! ## User devices -/

/-- `enum usrior_op`, with the union of `struct usrioreq`. -/
inductive IorOp
  | openOp
  | cloneOp (cloneId : Nat)
  | outOp (size port val : Nat)
  | closeOp
deriving DecidableEq, Repr

/-- `struct usrioreq`. -/
structure Ior where
  id : Nat
  op : IorOp
  uid : Nat
  gid : Nat
  issuer : Nat
deriving DecidableEq, Repr

/-- `struct sys_poll_ior`, with the id that `usrdev_poll` returns next to it. -/
structure PollIor where
  id : Nat
  op : IorOp
  pid : Nat
  uid : Nat
  gid : Nat
deriving DecidableEq, Repr

/-- `struct apert`. -/
structure Apert where
  va : Nat
  sz : Nat
deriving DecidableEq, Repr

/-- `struct remth` of `usrdev.c`. -/
structure Remth where
  use : Bool
  th : Option Nat
  iospace : Nat → Nat
  irqmap : Nat → Nat
  apertbl : Nat → Apert

/-- A cleared entry of the client table. -/
def Remth.zero : Remth := ⟨false, none, fun _ ↦ 0, fun _ ↦ 0, fun _ ↦ ⟨0, 0⟩⟩

/-- `struct sys_creat_cfg`, the part that `usrdev_creat` copies to the device after the
name. -/
structure UsrdevCfg where
  vid : Nat
  did : Nat
  nirqs : Nat
  usercfg : Nat → Nat

/-- `struct usrdev`.  The entries of `remths` from `maxUsrdevRems` on are the memory behind
the table. -/
structure Usrdev where
  th : Nat
  cfg : UsrdevCfg
  sig : Nat
  detaching : Bool
  remths : Nat → Remth
  ioreqs : List Ior
  issued : List Ior
  polls : List (Ior × PollIor)

/-! ## The other devices -/

/-- `struct seg` and `struct memseg`. -/
structure Seg where
  base : Nat
  len : Nat
deriving DecidableEq, Repr

/-- `struct hwdev_cfg`, with its segments as lists. -/
structure HwdevCfg where
  vid : Nat
  did : List Nat
  irqsegs : List Seg
  piosegs : List Seg
  memsegs : List Seg
deriving DecidableEq, Repr

/-- `struct hwdma`. -/
structure Hwdma where
  va : Nat
  iopfn : Nat
deriving DecidableEq, Repr

/-- `struct remth` of `hwdev.c`.  A registration is named by its key, and a mapping by its
address. -/
structure HwRemth where
  use : Bool
  hwsigs : List Nat
  hwmaps : List Nat
  hwdmas : List Hwdma
deriving DecidableEq, Repr

/-- A cleared entry of the client table. -/
def HwRemth.zero : HwRemth := ⟨false, [], [], []⟩

/-- `struct hwdev`. -/
structure Hwdev where
  cfg : HwdevCfg
  remths : Nat → HwRemth

/-- `struct pltrems`. -/
structure PltRem where
  inUse : Bool
  pltsigs : List Nat
  pltmaps : List Nat
deriving DecidableEq, Repr

/-- The static variables of `klogdev.c`, without the ring buffer. -/
structure Klog where
  bsy : Bool
  th : Option Nat
  ie : Bool
  isr : Bool
  sig : Nat
deriving DecidableEq, Repr

/-- `struct irqsig`; `key` names it. -/
structure Irqsig where
  key : Nat
  th : Nat
  sig : Nat
  eoi : Bool
  via : Slot
deriving DecidableEq, Repr

/-- An l1 entry marked `PG_AVAIL_IOMAP`. -/
structure Iomap where
  pfn : Nat
  via : Slot
deriving DecidableEq, Repr

/-! ## Threads -/

/-- How far a thread has come: `dying` from `__exit` until `do_zombie` puts it on the zombie
list of its parent, `freed` once `childstat` has passed it to `thfree`. -/
inductive Life
  | unborn
  | live
  | dying
  | zombie
  | freed
deriving DecidableEq, Repr

/-- The identities of `struct thread` that are used here, and the `sig` of its two
timers. -/
structure Thread where
  ruid : Nat
  euid : Nat
  suid : Nat
  rgid : Nat
  egid : Nat
  sgid : Nat
  rttSig : Nat
  vttSig : Nat
deriving DecidableEq, Repr

/-- The state of the kernel that the drivers work on. -/
structure State where
  thread : Nat → Thread
  life : Nat → Life
  parent : Nat → Option Nat
  active : Nat → List Nat
  zombies : Nat → List Nat
  softintrs : Nat → BitVec 32
  next : Nat
  init : Nat
  devs : Slot → Bdeve
  usrdevs : Nat × Nat → Option Nat
  dev : Nat → Dev
  ndev : Nat
  tree : Nat → Option Nat
  usr : Nat → Usrdev
  hw : Nat → Hwdev
  platformRems : Nat → PltRem
  klog : Klog
  irqsigs : Nat → List Irqsig
  nsig : Nat
  io : Nat × Nat → Option Iomap

namespace State

variable (s : State)

/-- Write a bus slot. -/
def setSlot (k : Slot) (b : Bdeve) : State := { s with devs := Function.update s.devs k b }

/-- Write a `struct dev`. -/
def setDev (d : Nat) (v : Dev) : State := { s with dev := Function.update s.dev d v }

/-- Write a user device. -/
def setUsr (d : Nat) (u : Usrdev) : State := { s with usr := Function.update s.usr d u }

/-- Write a hardware device. -/
def setHw (d : Nat) (h : Hwdev) : State := { s with hw := Function.update s.hw d h }

/-- Write a client of the platform device. -/
def setPlt (id : Nat) (p : PltRem) : State :=
  { s with platformRems := Function.update s.platformRems id p }

/-- Write the identities and alarms of a thread. -/
def setThread (t : Nat) (th : Thread) : State :=
  { s with thread := Function.update s.thread t th }

section Writes

variable {s : State} {k k' : Slot} {d d' t t' : Nat}

@[simp] theorem setSlot_self {b : Bdeve} : (s.setSlot k b).devs k = b := Function.update_self ..

theorem setSlot_of_ne {b : Bdeve} (h : k' ≠ k) : (s.setSlot k b).devs k' = s.devs k' :=
  Function.update_of_ne h ..

@[simp] theorem setDev_self {v : Dev} : (s.setDev d v).dev d = v := Function.update_self ..

theorem setDev_of_ne {v : Dev} (h : d' ≠ d) : (s.setDev d v).dev d' = s.dev d' :=
  Function.update_of_ne h ..

@[simp] theorem setUsr_self {u : Usrdev} : (s.setUsr d u).usr d = u := Function.update_self ..

theorem setUsr_of_ne {u : Usrdev} (h : d' ≠ d) : (s.setUsr d u).usr d' = s.usr d' :=
  Function.update_of_ne h ..

@[simp] theorem setUsr_setUsr {u v : Usrdev} : (s.setUsr d u).setUsr d v = s.setUsr d v := by
  rw [setUsr, setUsr, Function.update_idem, setUsr]

@[simp] theorem setHw_self {h : Hwdev} : (s.setHw d h).hw d = h := Function.update_self ..

theorem setHw_of_ne {h : Hwdev} (hd : d' ≠ d) : (s.setHw d h).hw d' = s.hw d' :=
  Function.update_of_ne hd ..

@[simp] theorem setPlt_self {p : PltRem} : (s.setPlt d p).platformRems d = p :=
  Function.update_self ..

theorem setPlt_of_ne {p : PltRem} (h : d' ≠ d) :
    (s.setPlt d p).platformRems d' = s.platformRems d' :=
  Function.update_of_ne h ..

end Writes

/-! ## What the drivers call -/

/-- `thraise`, without the scheduling of `wake`. -/
def thraise (t vect : Nat) : Except Panic State :=
  if vect < maxSignals then
    .ok { s with softintrs :=
      Function.update s.softintrs t (s.softintrs t ||| BitVec.ofNat 32 (2 ^ vect)) }
  else .error .signal

/-- `irqregister`, of the signal `sig` to the thread `k.1`; `none` stands for `-EINVAL`. -/
def irqregister (k : Slot) (irq sig : Nat) : Option State :=
  if irq < maxIrqs then
    some { s with
      irqsigs := Function.update s.irqsigs irq (⟨s.nsig, k.1, sig, false, k⟩ :: s.irqsigs irq)
      nsig := s.nsig + 1 }
  else none

/-- `irqunregister`: `LIST_REMOVE` takes the registration off the list that it is on. -/
def irqunregister (key : Nat) : State :=
  { s with irqsigs := fun irq ↦ (s.irqsigs irq).filter fun r ↦ r.key != key }

/-- The loop of `irqeoi` over the registrations of a line. -/
def irqeoi (irq : Nat) : Except Panic State :=
  if irq < maxIrqs then
    .ok { s with irqsigs :=
      Function.update s.irqsigs irq ((s.irqsigs irq).map fun r ↦ { r with eoi := false }) }
  else .error .irq

end State

/-- What the page tables say about a page that a driver is asked to map, and what the frame
database says about the frame: `pfn_is_valid`, `pfn_is_mmio`, and whether the page is wired
by an export. -/
structure Page where
  valid : Bool
  mmio : Bool
  wired : Bool
deriving DecidableEq, Repr

namespace State

variable (s : State)

/-- `iomap` of `kern.c`, in the address space of the thread `k.1`.  Its callers only ask
whether it fails, so the 1 that tells of a page freed is a 0. -/
def iomap (k : Slot) (va pfn : Nat) (pg : Page) : Int × State :=
  if !pg.mmio then (Errno.EINVAL.neg, s)
  else if pg.wired || (s.io (k.1, vpn va)).isSome then (Errno.EBUSY.neg, s)
  else (0, { s with io := Function.update s.io (k.1, vpn va) (some ⟨pfn, k⟩) })

/-- `iounmap` of `kern.c`, in the address space of the thread `t`.  Nothing changes where
there is no I/O mapping. -/
def iounmap (t va : Nat) : State :=
  { s with io := Function.update s.io (t, vpn va) none }

end State

end Mh.Bus
