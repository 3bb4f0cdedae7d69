import Mh.Locks.Drivers
import Mh.Bus.State

/-!
# The locks of the buses

The operations of `src/bus.c`, and with them every operation of the drivers, as far as their locks
go.  `Sys` says which driver a device has, which pmap the current thread, and which device is
plugged at a descriptor.

Every operation leaves the locks as they were, but for an export that gets to a `hwdev` with a
range that leaves its page.
-/

namespace Mh.Locks

open Mh.Lib Mh.Bus

/-- The tables of operations: `hwdev_ops`, `usrdev_ops`, `pltdev_ops`, `klogdev_ops` and
`sysdev_ops`. -/
inductive Driver
  | hwdev | usrdev | pltdev | klogdev | sysdev
deriving DecidableEq

/-- What the locks of an operation depend on: the pmap of the current thread, the operations that a
`struct dev` has, and the devices of the buses. -/
structure Sys where
  /-- The pmap of the current thread. -/
  cur : Nat
  /-- `d->ops`. -/
  ops : Nat → Driver
  /-- `b->devs[desc].dev`, where the descriptor is plugged. -/
  dev : Nat → Nat → Nat

/-- An operation that a bus calls a device for, and what the locks depend on of what it is called
with: the identifier of the opened device, and its arguments. -/
inductive Call
  | devin (port : Nat) | devout (id port : Nat)
  | rdcfg (id off sz : Nat) | wrcfg
  | devexport (id va sz : Nat) | devunexport
  | iomap (va : Nat) | iounmap (va : Nat)
  | info | irqmap (id irq : Nat) | eoi (irq : Nat)
deriving DecidableEq

variable (c : Sys)

/-! ## The operations of a device -/

/-- `d->ops->open`. -/
def devOpen (d : Nat) : Fn Int :=
  match c.ops d with
  | .hwdev => hwdevOpen d
  | .usrdev => usrdevOpen d
  | .pltdev => pltdevOpen
  | .klogdev => klogdevOpen
  | .sysdev => return 0

/-- `d->ops->clone`: devices of users have it only. -/
def devClone (d : Nat) : Option (Fn Int) :=
  match c.ops d with
  | .usrdev => some (usrdevOpen d)
  | _ => none

/-- `d->ops->close`. -/
def devClose (d : Nat) : Fn Unit :=
  match c.ops d with
  | .hwdev => hwdevClose c.cur d
  | .usrdev => usrdevClose d
  | .pltdev => pltdevClose c.cur
  | .klogdev => klogdevClose
  | .sysdev => return

/-- `hwdev_ops`. -/
def hwdevOps (cur d : Nat) : Call → Option (Fn Int)
  | .devin port => some (hwdevIn port)
  | .devout _ port => some (hwdevOut port)
  | .devexport _ va sz => some (hwdevExport cur d va sz)
  | .devunexport => some (hwdevUnexport cur d)
  | .iomap va => some (hwdevIomap cur d va)
  | .iounmap va => some (hwdevIounmap cur d va)
  | .info => some (return 0)
  | .irqmap _ irq => some (hwdevIrqmap d irq)
  | .eoi irq => some (hwdevEoi d irq)
  | .rdcfg _ _ _ => none
  | .wrcfg => none

/-- `usrdev_ops`. -/
def usrdevOps (d : Nat) : Call → Option (Fn Int)
  | .devin _ => some (usrdevLocked d)
  | .devout id _ => some (usrdevOut d id)
  | .devexport id _ sz => some (usrdevExport d id sz)
  | .devunexport => some (usrdevUnexport d)
  | .info => some (usrdevLocked d)
  | .rdcfg id off sz => some (usrdevRdcfg d id off sz)
  | .irqmap id irq => some (usrdevIrqmap d id irq)
  | .wrcfg => none
  | .iomap _ => none
  | .iounmap _ => none
  | .eoi _ => none

/-- `pltdev_ops`. -/
def pltdevOps (cur : Nat) : Call → Option (Fn Int)
  | .devin port => some (pltdevIo port)
  | .devout _ port => some (pltdevIo port)
  | .devexport _ _ _ => some (pmapPhys cur)
  | .iomap va => some (pltdevIomap cur va)
  | .iounmap va => some (pltdevIounmap cur va)
  | .info => some (return 0)
  | .irqmap _ irq => some (pltdevIrqmap irq)
  | .devunexport => none
  | .rdcfg _ _ _ => none
  | .wrcfg => none
  | .eoi _ => none

/-- `klogdev_ops` and `sysdev_ops`, which differ in `in` and `out`. -/
def fixedOps (devin devout : Nat → Fn Int) : Call → Option (Fn Int)
  | .devin port => some (devin port)
  | .devout _ port => some (devout port)
  | .devexport _ _ _ => some (return Errno.ENOSYS.neg)
  | .iomap _ => some (return Errno.ENOSYS.neg)
  | .iounmap _ => some (return Errno.ENOSYS.neg)
  | .info => some (return 0)
  | .irqmap _ _ => some (return 0)
  | .devunexport => none
  | .rdcfg _ _ _ => none
  | .wrcfg => none
  | .eoi _ => none

/-- The other operations of a device, where the driver has them. -/
def devOp (d : Nat) (op : Call) : Option (Fn Int) :=
  match c.ops d with
  | .hwdev => hwdevOps c.cur d op
  | .usrdev => usrdevOps d op
  | .pltdev => pltdevOps c.cur op
  | .klogdev => fixedOps klogdevIn klogdevOut op
  | .sysdev => fixedOps (fun _ ↦ return 0) sysdevOut op

/-- No call of a `hwdev` exports a range that leaves its page. -/
def Call.Ok (d : Nat) : Call → Prop
  | .devexport _ va sz => c.ops d = .hwdev → InPage va sz
  | _ => True

variable {c} {d b : Nat} {op : Call}

theorem devOpen_balanced : Balanced (devOpen c d) := by
  rw [devOpen]
  cases c.ops d with
  | hwdev => exact hwdevOpen_balanced
  | usrdev => exact usrdevOpen_balanced
  | pltdev => exact pltdevOpen_balanced
  | klogdev => exact klogdevOpen_balanced
  | sysdev => exact Frees.pure _

theorem devClone_balanced {p : Fn Int} (h : devClone c d = some p) : Balanced p := by
  rw [devClone] at h
  split at h
  · cases h
    exact usrdevOpen_balanced
  · cases h

theorem devClose_balanced : Balanced (devClose c d) := by
  rw [devClose]
  cases c.ops d with
  | hwdev => exact hwdevClose_balanced
  | usrdev => exact usrdevClose_balanced
  | pltdev => exact pltdevClose_balanced
  | klogdev => exact klogdevClose_balanced
  | sysdev => exact Frees.pure _

theorem hwdevOps_balanced {cur : Nat} {p : Fn Int} (h : hwdevOps cur d op = some p)
    (hop : ∀ id va sz, op = .devexport id va sz → InPage va sz) : Balanced p := by
  cases op with
  | devin port => cases h; exact hwdevIn_balanced
  | devout id port => cases h; exact hwdevOut_balanced
  | devexport id va sz => cases h; exact hwdevExport_balanced (hop id va sz rfl)
  | devunexport => cases h; exact hwdevUnexport_balanced
  | iomap va => cases h; exact hwdevIomap_balanced
  | iounmap va => cases h; exact hwdevIounmap_balanced
  | info => cases h; exact Frees.pure _
  | irqmap id irq => cases h; exact hwdevIrqmap_balanced
  | eoi irq => cases h; exact hwdevEoi_balanced
  | rdcfg id off sz => cases h
  | wrcfg => cases h

theorem usrdevOps_balanced {p : Fn Int} (h : usrdevOps d op = some p) : Balanced p := by
  cases op with
  | devin port => cases h; exact usrdevLocked_balanced
  | devout id port => cases h; exact usrdevOut_balanced
  | devexport id va sz => cases h; exact usrdevExport_balanced
  | devunexport => cases h; exact usrdevUnexport_balanced
  | info => cases h; exact usrdevLocked_balanced
  | rdcfg id off sz => cases h; exact usrdevRdcfg_balanced
  | irqmap id irq => cases h; exact usrdevIrqmap_balanced
  | iomap va => cases h
  | iounmap va => cases h
  | eoi irq => cases h
  | wrcfg => cases h

theorem pltdevOps_balanced {cur : Nat} {p : Fn Int} (h : pltdevOps cur op = some p) :
    Balanced p := by
  cases op with
  | devin port => cases h; exact pltdevIo_balanced
  | devout id port => cases h; exact pltdevIo_balanced
  | devexport id va sz => cases h; exact pmapPhys_balanced
  | iomap va => cases h; exact pltdevIomap_balanced
  | iounmap va => cases h; exact pltdevIounmap_balanced
  | info => cases h; exact Frees.pure _
  | irqmap id irq => cases h; exact pltdevIrqmap_balanced
  | devunexport => cases h
  | rdcfg id off sz => cases h
  | eoi irq => cases h
  | wrcfg => cases h

theorem fixedOps_balanced {devin devout : Nat → Fn Int} {p : Fn Int}
    (hin : ∀ port, Balanced (devin port)) (hout : ∀ port, Balanced (devout port))
    (h : fixedOps devin devout op = some p) : Balanced p := by
  cases op with
  | devin port => cases h; exact hin port
  | devout id port => cases h; exact hout port
  | devexport id va sz => cases h; exact Frees.pure _
  | iomap va => cases h; exact Frees.pure _
  | iounmap va => cases h; exact Frees.pure _
  | info => cases h; exact Frees.pure _
  | irqmap id irq => cases h; exact Frees.pure _
  | devunexport => cases h
  | rdcfg id off sz => cases h
  | eoi irq => cases h
  | wrcfg => cases h

theorem devOp_balanced {p : Fn Int} (h : devOp c d op = some p) (hop : op.Ok c d) :
    Balanced p := by
  rw [devOp] at h
  cases hd : c.ops d with
  | hwdev =>
      rw [hd] at h
      refine hwdevOps_balanced h ?_
      rintro id va sz rfl
      exact hop hd
  | usrdev =>
      rw [hd] at h
      exact usrdevOps_balanced h
  | pltdev =>
      rw [hd] at h
      exact pltdevOps_balanced h
  | klogdev =>
      rw [hd] at h
      exact fixedOps_balanced (fun _ ↦ klogdevIn_balanced) (fun _ ↦ klogdevOut_balanced) h
  | sysdev =>
      rw [hd] at h
      exact fixedOps_balanced (fun _ ↦ Frees.pure _) (fun _ ↦ sysdevOut_balanced) h

/-! ## The operations of a bus -/

section Bus

variable (c)

/-- `bus_plug`. -/
def busPlug (b : Nat) : Fn Int := do
  take .sysDeviceRbtree
  let found ← flag
  let d ← value
  release .sysDeviceRbtree
  if !found then return Errno.ENOENT.neg
  else
    take (.bus b)
    let i ← value
    if maxBusDevs ≤ i then
      release (.bus b)
      return Errno.EMFILE.neg
    else
      take (.dev d)
      let offline ← flag
      if offline then
        release (.dev d)
        release (.bus b)
        return Errno.ESRCH.neg
      else
        let perm ← flag
        if !perm then
          release (.dev d)
          release (.bus b)
          return Errno.EACCES.neg
        else
          let devid ← devOpen c d
          if devid < 0 then
            release (.dev d)
            release (.bus b)
            return devid
          else
            release (.dev d)
            release (.bus b)
            return i

/-- The second part of `bus_copy`. -/
def busCopyTo (dstb d : Nat) : Fn Int := do
  take (.bus dstb)
  take (.dev d)
  let offline ← flag
  if offline then
    release (.dev d)
    release (.bus dstb)
    return Errno.ESRCH.neg
  else
    release (.dev d)
    release (.bus dstb)
    return 0

/-- `bus_copy`, from the lock of the source bus on. -/
def busCopyFrom (b dstb : Nat) : Fn Int := do
  take (.bus b)
  let d ← value
  let plg ← flag
  if !plg then
    release (.bus b)
    return Errno.ENOENT.neg
  else
    check (← flag)
    match devClone c d with
    | none => do
        release (.bus b)
        return Errno.ENODEV.neg
    | some clone => do
        take (.dev d)
        let offline ← flag
        if offline then
          release (.dev d)
          release (.bus b)
          return Errno.ESRCH.neg
        else
          let devid ← clone
          if devid < 0 then
            release (.dev d)
            release (.bus b)
            return devid
          else
            release (.dev d)
            release (.bus b)
            busCopyTo dstb d

/-- `bus_copy`. -/
def busCopy (b desc dstb : Nat) : Fn Int := do
  if maxBusDevs ≤ desc then return Errno.EBADF.neg
  else
    take (.bus dstb)
    let bsy ← flag
    if bsy then
      release (.bus dstb)
      return Errno.EBUSY.neg
    else
      release (.bus dstb)
      busCopyFrom c b dstb

/-- `bus_unplug`. -/
def busUnplug (b desc : Nat) : Fn Int := do
  if maxBusDevs ≤ desc then return Errno.EBADF.neg
  else
    take (.bus b)
    let d ← value
    let plg ← flag
    if !plg then
      release (.bus b)
      return Errno.ENOENT.neg
    else
      check (← flag)
      take (.dev d)
      let offline ← flag
      if offline then
        release (.dev d)
        release (.bus b)
        return Errno.ESRCH.neg
      else
        devClose c d
        release (.dev d)
        release (.bus b)
        return 0

/-- `bus_get_dev`: the code, and the device that is stored to `dp`. -/
def busGetDev (b desc : Nat) : Fn (Int × Nat) := do
  if maxBusDevs ≤ desc then return (Errno.EBADF.neg, 0)
  else
    take (.bus b)
    let d := c.dev b desc
    let plg ← flag
    if !plg then
      release (.bus b)
      return (Errno.ENOENT.neg, 0)
    else
      check (← flag)
      take (.dev d)
      let offline ← flag
      if offline then
        release (.dev d)
        release (.bus b)
        return (Errno.ESRCH.neg, 0)
      else return (0, d)

/-- `bus_put_dev`. -/
def busPutDev (b d : Nat) : Fn Unit := do
  release (.dev d)
  release (.bus b)

/-- `OP_CALL`: what the operation returns is dropped. -/
def opCall (b desc : Nat) (op : Call) : Fn Int := do
  let (ret, d) ← busGetDev c b desc
  if ret ≠ 0 then return ret
  else
    match devOp c d op with
    | none => do
        busPutDev b d
        return ret
    | some p => do
        let _ ← p
        busPutDev b d
        return ret

/-- `bus_info`. -/
def busInfo (b desc : Nat) : Fn Int := do
  let (ret, d) ← busGetDev c b desc
  if ret ≠ 0 then return ret
  else
    match devOp c d .info with
    | none => do
        busPutDev b d
        return Errno.ENODEV.neg
    | some p => do
        let _ ← p
        busPutDev b d
        return ret

/-- `bus_unplug` of `n` descriptors, up from `desc`. -/
def busUnplugs (b desc : Nat) : Nat → Fn Unit
  | 0 => return
  | n + 1 => do
      let _ ← busUnplug c b desc
      busUnplugs b (desc + 1) n

/-- `bus_remove`. -/
def busRemove (b : Nat) : Fn Unit := busUnplugs c b 0 maxBusDevs

/-- `dev_attach`. -/
def devAttach : Fn Int := do
  take .sysDeviceRbtree
  let found ← flag
  if found then
    release .sysDeviceRbtree
    return Errno.EEXIST.neg
  else
    release .sysDeviceRbtree
    return 0

/-- The body of the loop of `dev_detach`. -/
def devDetachFrom (d : Nat) : Fn Unit := do
  let b ← value
  take (.bus b)
  take (.dev d)
  devClose c d
  release (.dev d)
  release (.bus b)

/-- `dev_detach`. -/
def devDetach (d : Nat) : Fn Unit := do
  take .sysDeviceRbtree
  release .sysDeviceRbtree
  take (.dev d)
  let n ← value
  release (.dev d)
  times n (devDetachFrom c d)

/-- `hwdev_creat` and `usrdev_creat`. -/
def devCreat : Fn Unit := do
  heapAlloc
  let ret ← devAttach
  if ret ≠ 0 then heapFree else return

/-- `usrdev_destroy`. -/
def usrdevDestroy (d : Nat) : Fn Unit := do
  devDetach c d
  take (.usrdev d)
  let n ← value
  times n (structsFree usrioreqs)
  release (.usrdev d)
  heapFree

end Bus

variable {desc dstb : Nat}

theorem busPlug_balanced : Balanced (busPlug c b) :=
  .take <| .flag fun _ ↦ .value fun _ ↦ .release <| .ite (Frees.pure _) <| .take <| .value fun _ ↦
    .ite (.release (Frees.pure _)) <| .take <| .flag fun _ ↦
      .ite (.release <| .release (Frees.pure _)) <| .flag fun _ ↦
        .ite (.release <| .release (Frees.pure _)) <| .call devOpen_balanced fun _ ↦
          .ite (.release <| .release (Frees.pure _)) (.release <| .release (Frees.pure _))

theorem busCopyTo_balanced : Balanced (busCopyTo dstb d) :=
  .take <| .take <| .flag fun _ ↦ .ite (.release <| .release (Frees.pure _))
    (.release <| .release (Frees.pure _))

theorem busCopyFrom_balanced : Balanced (busCopyFrom c b dstb) := by
  refine .take <| .value fun d ↦ .flag fun _ ↦ .ite (.release (Frees.pure _)) <| .flag fun _ ↦
    .check fun _ ↦ ?_
  cases h : devClone c d with
  | none => exact .release (Frees.pure _)
  | some clone =>
      exact .take <| .flag fun _ ↦ .ite (.release <| .release (Frees.pure _)) <|
        .call (devClone_balanced h) fun _ ↦ .ite (.release <| .release (Frees.pure _))
          (.release <| .release busCopyTo_balanced)

theorem busCopy_balanced : Balanced (busCopy c b desc dstb) :=
  .ite (Frees.pure _) <| .take <| .flag fun _ ↦ .ite (.release (Frees.pure _))
    (.release busCopyFrom_balanced)

theorem busUnplug_balanced : Balanced (busUnplug c b desc) :=
  .ite (Frees.pure _) <| .take <| .value fun _ ↦ .flag fun _ ↦ .ite (.release (Frees.pure _)) <|
    .flag fun _ ↦ .check fun _ ↦ .take <| .flag fun _ ↦
      .ite (.release <| .release (Frees.pure _)) <| .call devClose_balanced fun _ ↦
        .release <| .release (Frees.pure _)

theorem busUnplugs_balanced (n desc : Nat) : Balanced (busUnplugs c b desc n) := by
  induction n generalizing desc with
  | zero => exact Frees.pure _
  | succ n ih => exact .call busUnplug_balanced fun _ ↦ ih _

theorem busRemove_balanced : Balanced (busRemove c b) := busUnplugs_balanced _ _

theorem devAttach_balanced : Balanced devAttach :=
  .take <| .flag fun _ ↦ .ite (.release (Frees.pure _)) (.release (Frees.pure _))

theorem devDetachFrom_balanced : Balanced (devDetachFrom c d) :=
  .value fun _ ↦ .take <| .take <| .call devClose_balanced fun _ ↦ .release .last

theorem devDetach_balanced : Balanced (devDetach c d) :=
  .take <| .release <| .take <| .value fun n ↦ .release <|
    Balanced.times devDetachFrom_balanced n

theorem devCreat_balanced : Balanced devCreat :=
  .call heapAlloc_balanced fun _ ↦ .call devAttach_balanced fun _ ↦
    .ite heapFree_balanced (Frees.pure _)

theorem usrdevDestroy_balanced : Balanced (usrdevDestroy c d) :=
  .call devDetach_balanced fun _ ↦ .take <| .value fun n ↦
    .call (.times structsFree_balanced n) fun _ ↦ .release heapFree_balanced

/-- `bus_get_dev` returns 0 with the locks of the bus and of the device, which were free, and an
error with what it was called with. -/
theorem busGetDev_ends (c : Sys) (b desc : Nat) (h : Set Lock) :
    (busGetDev c b desc).Ends h fun r h' ↦
      (r = (0, c.dev b desc) ∧ .bus b ∉ h ∧ .dev r.2 ∉ h ∧
        h' = insert (.dev r.2) (insert (.bus b) h)) ∨
      (r.1 ≠ 0 ∧ h' = h) := by
  by_cases hd : maxBusDevs ≤ desc
  · simp [busGetDev, hd, Errno.neg]
  · simp only [busGetDev, hd, if_false, ends_take, ends_flag]
    intro hb plg
    cases plg with
    | false => simp [Errno.neg, hb]
    | true =>
        simp only [Bool.not_true, Bool.false_eq_true, if_false, ends_flag, ends_check, ends_take]
        intro dev _ hdev offline
        cases offline with
        | false => simp_all
        | true => simp_all [Errno.neg]

/-- A call of `bus_get_dev`. -/
theorem frees_busGetDev {α : Type} {ls : List Lock} {f : Int × Nat → Fn α}
    (h₀ : Frees (.dev (c.dev b desc) :: .bus b :: ls) (f (0, c.dev b desc)))
    (h₁ : ∀ r : Int × Nat, r.1 ≠ 0 → Frees ls (f r)) : Frees ls (busGetDev c b desc >>= f) := by
  intro hnd h hls
  refine Code.ends_bind.2 ((busGetDev_ends c b desc _).mono ?_)
  rintro r h' (⟨rfl, hb, hd, rfl⟩ | ⟨hret, rfl⟩)
  · dsimp only at hd ⊢
    set d := c.dev b desc
    have hbl : .bus b ∉ ls := fun hm ↦ hb (.inr hm)
    have hdl : .dev d ∉ ls := fun hm ↦ hd (.inr hm)
    have hset : insert (.dev d) (insert (.bus b) (h ∪ {l | l ∈ ls})) =
        h ∪ {l | l ∈ Lock.dev d :: .bus b :: ls} := by
      ext x
      simp only [Set.mem_insert_iff, Set.mem_union, Set.mem_ofPred_eq, List.mem_cons]
      tauto
    have hnd' : (Lock.dev d :: .bus b :: ls).Nodup := by simp [hbl, hdl, hnd]
    rw [hset]
    refine h₀ hnd' h fun l hl ↦ ?_
    rcases List.mem_cons.1 hl with rfl | hl
    · exact fun hm ↦ hd (.inl hm)
    rcases List.mem_cons.1 hl with rfl | hl
    · exact fun hm ↦ hb (.inl hm)
    · exact hls l hl
  · exact h₁ _ hret hnd h hls

/-- `bus_put_dev` releases what `bus_get_dev` took. -/
theorem busPutDev_ends {h : Set Lock} (hb : .bus b ∉ h) (hd : .dev d ∉ h) :
    (busPutDev b d).Ends (insert (.dev d) (insert (.bus b) h)) fun _ h' ↦ h' = h := by
  refine ⟨by simp, by simp, ?_⟩
  ext x
  have hxb : x = .bus b → x ∉ h := fun hx ↦ hx ▸ hb
  have hxd : x = .dev d → x ∉ h := fun hx ↦ hx ▸ hd
  simp only [Set.mem_sdiff, Set.mem_insert_iff, Set.mem_singleton_iff]
  tauto

/-- An operation between `bus_get_dev` and `bus_put_dev`. -/
theorem frees_put {α : Type} {f : Unit → Fn α} (h : Balanced (f ())) :
    Frees [.dev d, .bus b] (busPutDev b d >>= f) := by
  simp only [busPutDev, Code.bind_assoc]
  exact .release <| .release h

theorem opCall_balanced (hop : op.Ok c (c.dev b desc)) : Balanced (opCall c b desc op) := by
  refine frees_busGetDev ?_ fun r hr ↦ ?_
  · cases hp : devOp c (c.dev b desc) op with
    | none =>
        simp only [ne_eq, not_true_eq_false, if_false, hp]
        exact frees_put (Frees.pure _)
    | some p =>
        simp only [ne_eq, not_true_eq_false, if_false, hp]
        exact .call (devOp_balanced hp hop) fun _ ↦ frees_put (Frees.pure _)
  · simp only [ne_eq, hr, not_false_eq_true, if_true]
    exact Frees.pure _

theorem busInfo_balanced : Balanced (busInfo c b desc) := by
  refine frees_busGetDev ?_ fun r hr ↦ ?_
  · cases hp : devOp c (c.dev b desc) .info with
    | none =>
        simp only [ne_eq, not_true_eq_false, if_false, hp]
        exact frees_put (Frees.pure _)
    | some p =>
        simp only [ne_eq, not_true_eq_false, if_false, hp]
        exact .call (devOp_balanced hp trivial) fun _ ↦ frees_put (Frees.pure _)
  · simp only [ne_eq, hr, not_false_eq_true, if_true]
    exact Frees.pure _

/-! ## Every operation -/

/-- An operation of a driver or of a bus. -/
inductive Op
  | devOpen (d : Nat) | devClone (d : Nat) | devClose (d : Nat) | devOp (d : Nat) (op : Call)
  | devCreat | usrdevDestroy (d : Nat) | usrdevPoll (d : Nat) | usrdevWriospace (d : Nat)
  | usrdevIrq (d id irq : Nat) | usrdevCopy (d id : Nat)
  | busPlug (b : Nat) | busCopy (b desc dstb : Nat) | busUnplug (b desc : Nat)
  | opCall (b desc : Nat) (op : Call) | busInfo (b desc : Nat) | busRemove (b : Nat)
  | devAttach | devDetach (d : Nat)

/-- A program without what it returns. -/
def quiet {α : Type} (p : Fn α) : Fn Unit := do
  let _ ← p
  return

/-- What an operation runs.  Where a driver does not have it, it runs nothing. -/
def Op.prog (c : Sys) : Op → Fn Unit
  | .devOpen d => quiet (Locks.devOpen c d)
  | .devClone d => ((Locks.devClone c d).map quiet).getD (return)
  | .devClose d => Locks.devClose c d
  | .devOp d op => ((Locks.devOp c d op).map quiet).getD (return)
  | .devCreat => Locks.devCreat
  | .usrdevDestroy d => Locks.usrdevDestroy c d
  | .usrdevPoll d => quiet (Locks.usrdevPoll d)
  | .usrdevWriospace d => quiet (usrdevLocked d)
  | .usrdevIrq d id irq => quiet (Locks.usrdevIrq d id irq)
  | .usrdevCopy d id => quiet (Locks.usrdevCopy d id)
  | .busPlug b => quiet (Locks.busPlug c b)
  | .busCopy b desc dstb => quiet (Locks.busCopy c b desc dstb)
  | .busUnplug b desc => quiet (Locks.busUnplug c b desc)
  | .opCall b desc op => quiet (Locks.opCall c b desc op)
  | .busInfo b desc => quiet (Locks.busInfo c b desc)
  | .busRemove b => Locks.busRemove c b
  | .devAttach => quiet Locks.devAttach
  | .devDetach d => Locks.devDetach c d

/-- The operation does not export a range that leaves its page to a `hwdev`; one with a bad
descriptor does not get to a device. -/
def Op.Ok (c : Sys) : Op → Prop
  | .devOp d op => op.Ok c d
  | .opCall b desc op => desc < maxBusDevs → op.Ok c (c.dev b desc)
  | _ => True

theorem quiet_balanced {α : Type} {p : Fn α} (h : Balanced p) : Balanced (quiet p) :=
  .call h fun _ ↦ Frees.pure _

theorem getD_balanced {o : Option (Fn Int)} (h : ∀ p, o = some p → Balanced p) :
    Balanced ((o.map quiet).getD (return)) := by
  cases o with
  | none => exact Frees.pure _
  | some p => exact quiet_balanced (h p rfl)

/-- A bad descriptor. -/
theorem opCall_balanced_of_le (hd : maxBusDevs ≤ desc) : Balanced (opCall c b desc op) := by
  simp only [opCall, busGetDev, hd, if_true]
  exact Frees.pure _

theorem Op.balanced {op : Op} (h : op.Ok c) : Balanced (op.prog c) := by
  cases op with
  | devOpen d => exact quiet_balanced devOpen_balanced
  | devClone d => exact getD_balanced fun _ ↦ devClone_balanced
  | devClose d => exact devClose_balanced
  | devOp d op => exact getD_balanced fun _ hp ↦ devOp_balanced hp h
  | devCreat => exact devCreat_balanced
  | usrdevDestroy d => exact usrdevDestroy_balanced
  | usrdevPoll d => exact quiet_balanced usrdevPoll_balanced
  | usrdevWriospace d => exact quiet_balanced usrdevLocked_balanced
  | usrdevIrq d id irq => exact quiet_balanced usrdevIrq_balanced
  | usrdevCopy d id => exact quiet_balanced usrdevCopy_balanced
  | busPlug b => exact quiet_balanced busPlug_balanced
  | busCopy b desc dstb => exact quiet_balanced busCopy_balanced
  | busUnplug b desc => exact quiet_balanced busUnplug_balanced
  | opCall b desc op =>
      refine quiet_balanced ?_
      by_cases hd : desc < maxBusDevs
      · exact opCall_balanced (h hd)
      · exact opCall_balanced_of_le (Nat.le_of_not_lt hd)
  | busInfo b desc => exact quiet_balanced busInfo_balanced
  | busRemove b => exact busRemove_balanced
  | devAttach => exact quiet_balanced devAttach_balanced
  | devDetach d => exact devDetach_balanced

theorem balanced_of_quiet {α : Type} {p : Fn α} (h : Balanced (quiet p)) : Balanced p :=
  balanced_iff.2 fun s ↦ Code.ends_bind.1 (balanced_iff.1 h s)

theorem Call.exists_of_not_ok (h : ¬ op.Ok c d) : ∃ id va sz,
    op = .devexport id va sz ∧ ¬ InPage va sz ∧
      devOp c d op = some (hwdevExport c.cur d va sz) := by
  cases op with
  | devexport id va sz =>
      obtain ⟨hd, hp⟩ := not_forall.1 h
      refine ⟨id, va, sz, rfl, hp, ?_⟩
      rw [devOp, hd]
      rfl
  | _ => exact absurd trivial h

/-- A good descriptor gets to its device. -/
theorem opCall_reaches {p : Fn Int} {Q : Int → Set Lock → Prop} (hd : desc < maxBusDevs)
    (hdev : c.dev b desc = d) (hp : devOp c d op = some p) (h : (opCall c b desc op).Ends ∅ Q) :
    (p >>= fun _ ↦ busPutDev b d >>= fun _ ↦ return 0).Ends {.dev d, .bus b} Q := by
  subst hdev
  simp only [opCall, busGetDev, Nat.not_le.2 hd, if_false, Code.bind_assoc, ends_take,
    ends_flag] at h
  have hplg := h (Set.notMem_empty _) true
  simp only [Bool.not_true, Bool.false_eq_true, if_false, Code.bind_assoc, ends_flag,
    ends_check, ends_take] at hplg
  have honline := hplg true rfl (by simp) false
  rw [if_neg Bool.false_ne_true, Code.ends_bind, ends_pure] at honline
  simpa only [ne_eq, not_true_eq_false, if_false, hp, insert_empty_eq] using honline

theorem opCall_not_balanced {id va sz : Nat} (hd : desc < maxBusDevs) (hdev : c.dev b desc = d)
    (hp : devOp c d (.devexport id va sz) = some (hwdevExport c.cur d va sz))
    (h : ¬ InPage va sz) : ¬ Balanced (opCall c b desc (.devexport id va sz)) := by
  intro hb
  have hends := opCall_reaches hd hdev hp (balanced_iff.1 hb ∅)
  simp only [hwdevExport_of_not_inPage h, Code.bind_assoc, busPutDev, ends_take] at hends
  obtain ⟨-, -, hset⟩ := hends (by simp)
  have hmem : Lock.hwdev d ∈ (({.hwdev d, .dev d, .bus b} : Set Lock) \ {.dev d}) \ {.bus b} := by
    simp
  rw [hset] at hmem
  exact Set.notMem_empty _ hmem

theorem Op.ok_of_balanced {op : Op} (h : Balanced (op.prog c)) : op.Ok c := by
  cases op with
  | devOp d op =>
      by_contra hn
      obtain ⟨id, va, sz, rfl, hp, hd⟩ := Call.exists_of_not_ok hn
      rw [Op.prog, hd] at h
      exact hwdevExport_not_balanced hp (balanced_of_quiet h)
  | opCall b desc op =>
      intro hdesc
      by_contra hn
      obtain ⟨id, va, sz, rfl, hp, hd⟩ := Call.exists_of_not_ok hn
      exact opCall_not_balanced hdesc rfl hd hp (balanced_of_quiet h)
  | _ => trivial

/-- Every operation leaves the locks as they were exactly when it exports no range that leaves its
page to a `hwdev`.  `bus_get_dev` returns 0 with the locks of the bus and of the device, which
`bus_put_dev` releases. -/
theorem locks_balanced (c : Sys) :
    (∀ op : Op, Balanced (op.prog c) ↔ op.Ok c) ∧
    (∀ (b desc : Nat) (h : Set Lock), (busGetDev c b desc).Ends h fun r h' ↦
      (r = (0, c.dev b desc) ∧ .bus b ∉ h ∧ .dev r.2 ∉ h ∧
        h' = insert (.dev r.2) (insert (.bus b) h)) ∨
      (r.1 ≠ 0 ∧ h' = h)) ∧
    (∀ (b d : Nat) (h : Set Lock), .bus b ∉ h → .dev d ∉ h →
      (busPutDev b d).Ends (insert (.dev d) (insert (.bus b) h)) fun _ h' ↦ h' = h) :=
  ⟨fun _ ↦ ⟨Op.ok_of_balanced, Op.balanced⟩, busGetDev_ends c, fun _ _ _ ↦ busPutDev_ends⟩

/-- The export of a byte to a `hwdev`, of two bytes around the end of a page to a `usrdev`, and
`bus_put_dev` for a device that was got. -/
theorem locks_balanced_byte :
    let c : Sys := ⟨0, fun d ↦ if d = 0 then .usrdev else .hwdev, fun _ desc ↦ desc⟩
    Balanced ((Op.opCall 0 0 (.devexport 0 0x3fffff 2)).prog c) ∧
      Balanced ((Op.opCall 0 1 (.devexport 0 0x1000 1)).prog c) ∧
      (busPutDev 0 1).Ends {.dev 1, .bus 0} fun _ h' ↦ h' = ∅ := by
  intro c
  have hus : (Op.opCall 0 0 (.devexport 0 0x3fffff 2)).Ok c := by
    intro _ h
    cases h
  have hin : (Op.opCall 0 1 (.devexport 0 0x1000 1)).Ok c := fun _ _ ↦ by decide
  refine ⟨((locks_balanced c).1 _).2 hus, ((locks_balanced c).1 _).2 hin, ?_⟩
  have h := (locks_balanced c).2.2 0 1 ∅ (Set.notMem_empty _) (Set.notMem_empty _)
  simpa only [insert_empty_eq] using h

/-- Two bytes around the end of a page: the export returns with the lock of the device held, and
the next export does not return. -/
theorem export_keeps_lock :
    let c : Sys := ⟨0, fun _ ↦ .hwdev, fun _ _ ↦ 0⟩
    let op : Call := .devexport 0 0x3fffff 2
    ¬ Balanced (opCall c 0 0 op) ∧ ¬ Balanced (hwdevExport 0 0 0x3fffff 2) ∧
      (do let _ ← hwdevExport 0 0 0x3fffff 2
          hwdevExport 0 0 0x1000 1).Ends ∅ fun _ _ ↦ False := by
  have h : ¬ InPage 0x3fffff 2 := by decide
  refine ⟨opCall_not_balanced (by decide) rfl rfl h, hwdevExport_not_balanced h, ?_⟩
  rw [hwdevExport_of_not_inPage h]
  exact fun _ hn ↦ absurd (.inl rfl) hn

end Mh.Locks
