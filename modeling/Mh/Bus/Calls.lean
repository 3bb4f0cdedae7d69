import Mh.Bus.Drivers

/-!
# The bus, the system calls and the steps

`src/bus.c` over the drivers, and the system calls of `src/sys.c` and `src/kern.c` that
work on devices and on the threads that hold descriptors.  A `Call` is a system call; a
`Label` is a call of a thread, or something that happens by itself: a thread that has
exited reaches its parent's zombie list, an interrupt line or a timer fires, the kernel
writes to its log.
-/

namespace Mh.Bus

open Mh.Lib

namespace State

variable (s : State)

/-! ## The bus -/

/-- `__getperm`. -/
def getperm (t uid gid mode : Nat) : Nat :=
  if uid = (s.thread t).euid then mode / 64 % 8
  else if gid = (s.thread t).egid then mode / 8 % 8
  else mode % 8

/-- The slot that `bus_plug` finds. -/
def freeSlot (t : Nat) : Option Nat :=
  (List.range maxBusDevs).find? fun i ↦ !(s.devs (t, i)).bsy && (s.devs (t, i)).dev.isNone

/-- `LIST_INSERT_HEAD` of a slot on the list of a device, and the slot filled in. -/
def plug (k : Slot) (d devid : Nat) : State :=
  (s.setDev d { s.dev d with busdevs := k :: (s.dev d).busdevs }).setSlot k
    ⟨true, true, devid, some d⟩

/-- `bus_plug`. -/
def busPlug (t did : Nat) : Except Panic (Int × State) :=
  match s.tree did with
  | none => .ok (Errno.ENOENT.neg, s)
  | some d =>
    match s.freeSlot t with
    | none => .ok (Errno.EMFILE.neg, s)
    | some i =>
      let v := s.dev d
      if v.offline then .ok (Errno.ESRCH.neg, s)
      else if s.getperm t v.uid v.gid v.mode ≠ 1 then .ok (Errno.EACCES.neg, s)
      else do
        let (devid, s') ← s.opOpen t d
        if devid < 0 then return (devid, s')
        return (i, s'.plug (t, i) d devid.toNat)

variable {s} in
/-- `bus_plug` fails and leaves the state, or it opens the device and takes the slot, unless the
device refuses. -/
theorem busPlug_cases {t did : Nat} {r : Int} {s' : State} (hp : s.busPlug t did = .ok (r, s')) :
    r < 0 ∧ s' = s ∨
      ∃ d i devid s₁, s.tree did = some d ∧ s.freeSlot t = some i ∧ (s.dev d).offline = false ∧
        s.getperm t (s.dev d).uid (s.dev d).gid (s.dev d).mode = 1 ∧
        s.opOpen t d = .ok (devid, s₁) ∧
        (devid < 0 ∧ r = devid ∧ s' = s₁ ∨
          0 ≤ devid ∧ r = i ∧ s' = s₁.plug (t, i) d devid.toNat) := by
  unfold busPlug at hp
  split at hp
  · cases hp
    exact .inl ⟨Errno.neg_lt_zero _, rfl⟩
  · next d hd =>
    split at hp
    · cases hp
      exact .inl ⟨Errno.neg_lt_zero _, rfl⟩
    · next i hfree =>
      dsimp only at hp
      split at hp
      · cases hp
        exact .inl ⟨Errno.neg_lt_zero _, rfl⟩
      · next hoff =>
        split at hp
        · cases hp
          exact .inl ⟨Errno.neg_lt_zero _, rfl⟩
        · next hperm =>
          obtain ⟨⟨devid, s₁⟩, ho, hp⟩ := bind_eq_ok.1 hp
          refine .inr ⟨d, i, devid, s₁, hd, hfree, by simpa using hoff, not_not.1 hperm, ho, ?_⟩
          dsimp only at hp
          split at hp
          · next hneg =>
            cases hp
            exact .inl ⟨hneg, rfl, rfl⟩
          · next hneg =>
            cases hp
            exact .inr ⟨not_lt.1 hneg, rfl, rfl⟩

/-- `bus_copy`, of the descriptor `desc` of the thread `t` to the same descriptor of the
thread `nth`. -/
def busCopy (t desc nth : Nat) : Except Panic (Int × State) :=
  if maxBusDevs ≤ desc then .ok (Errno.EBADF.neg, s)
  else if (s.devs (nth, desc)).plg || (s.devs (nth, desc)).bsy then .ok (Errno.EBUSY.neg, s)
  else
    let b := s.devs (t, desc)
    if !b.plg then .ok (Errno.ENOENT.neg, s)
    else
      match b.dev with
      | none => .error .null
      | some d =>
        match s.opClone t d b.devid nth with
        | none => .ok (Errno.ENODEV.neg, s)
        | some r =>
          if (s.dev d).offline then .ok (Errno.ESRCH.neg, s)
          else do
            let (devid, s') ← r
            if devid < 0 then return (devid, s')
            return (0, s'.plug (nth, desc) d devid.toNat)

variable {s} in
/-- `bus_copy` leaves the state, or it clones a descriptor of a user device, which alone have the
operation, and takes the slot, unless the device refuses. -/
theorem busCopy_cases {t desc nth : Nat} {r : Int} {s' : State}
    (hp : s.busCopy t desc nth = .ok (r, s')) :
    s' = s ∨
      ∃ d devid s₁, desc < maxBusDevs ∧ (s.devs (nth, desc)).plg = false ∧
        (s.devs (nth, desc)).bsy = false ∧ (s.devs (t, desc)).plg = true ∧
        (s.devs (t, desc)).dev = some d ∧ (s.dev d).kind = .usr ∧
        s.usrdevClone t d (s.devs (t, desc)).devid nth = .ok (devid, s₁) ∧
        (devid < 0 ∧ s' = s₁ ∨ 0 ≤ devid ∧ s' = s₁.plug (nth, desc) d devid.toNat) := by
  unfold busCopy at hp
  split at hp
  · cases hp
    exact .inl rfl
  · next hlt =>
    split at hp
    · cases hp
      exact .inl rfl
    · next hdst =>
      rw [Bool.or_eq_true, not_or, Bool.not_eq_true, Bool.not_eq_true] at hdst
      dsimp only at hp
      split at hp
      · cases hp
        exact .inl rfl
      · next hplg =>
        split at hp
        · cases hp
        · next d hd =>
          unfold opClone at hp
          cases hk : (s.dev d).kind with
          | usr =>
              rw [hk] at hp
              dsimp only at hp
              split at hp
              · cases hp
                exact .inl rfl
              · obtain ⟨⟨devid, s₁⟩, hc, hp⟩ := bind_eq_ok.1 hp
                refine .inr ⟨d, devid, s₁, Nat.lt_of_not_le hlt, hdst.1, hdst.2,
                  by simpa using hplg, hd, hk, hc, ?_⟩
                dsimp only at hp
                split at hp
                · next hneg =>
                  cases hp
                  exact .inl ⟨hneg, rfl⟩
                · next hneg =>
                  cases hp
                  exact .inr ⟨not_lt.1 hneg, rfl⟩
          | hw | plt | sys | klog =>
              rw [hk] at hp
              cases hp
              exact .inl rfl

/-- `bus_unplug`. -/
def busUnplug (t desc : Nat) : Except Panic (Int × State) :=
  if maxBusDevs ≤ desc then .ok (Errno.EBADF.neg, s)
  else
    let b := s.devs (t, desc)
    let s' := s.setSlot (t, desc) { b with bsy := false }
    if !b.plg then .ok (Errno.ENOENT.neg, s')
    else
      match b.dev with
      | none => .error .null
      | some d =>
        if (s.dev d).offline then .ok (Errno.ESRCH.neg, s')
        else do
          let s'' ← s.opClose t d b.devid
          let v := s''.dev d
          return (0, (s''.setDev d { v with busdevs := v.busdevs.erase (t, desc) }).setSlot
            (t, desc) .zero)

variable {s} in
/-- `bus_unplug` finds no descriptor, or it closes the device of the descriptor and clears the
slot; a device that is offline is not closed. -/
theorem busUnplug_cases {t desc : Nat} {r : Int} {s' : State}
    (hp : s.busUnplug t desc = .ok (r, s')) :
    maxBusDevs ≤ desc ∧ s' = s ∨
      ((s.devs (t, desc)).plg = false ∨
          ∃ d, (s.devs (t, desc)).plg = true ∧ (s.devs (t, desc)).dev = some d ∧
            (s.dev d).offline = true) ∧
        s' = s.setSlot (t, desc) { s.devs (t, desc) with bsy := false } ∨
      ∃ d s₁, (s.devs (t, desc)).plg = true ∧ (s.devs (t, desc)).dev = some d ∧
        s.opClose t d (s.devs (t, desc)).devid = .ok s₁ ∧
        s' = (s₁.setDev d
          { s₁.dev d with busdevs := (s₁.dev d).busdevs.erase (t, desc) }).setSlot (t, desc) .zero := by
  unfold busUnplug at hp
  split at hp
  · next hlt =>
    cases hp
    exact .inl ⟨hlt, rfl⟩
  · refine .inr ?_
    dsimp only at hp
    split at hp
    · next hplg =>
      cases hp
      exact .inl ⟨.inl (by simpa using hplg), rfl⟩
    · next hplg =>
      have hplg : (s.devs (t, desc)).plg = true := by simpa using hplg
      split at hp
      · cases hp
      · next d hd =>
        split at hp
        · next hoff =>
          cases hp
          exact .inl ⟨.inr ⟨d, hplg, hd, hoff⟩, rfl⟩
        · obtain ⟨s₁, hc, hp⟩ := bind_eq_ok.1 hp
          cases hp
          exact .inr ⟨d, s₁, hplg, hd, hc, rfl⟩

/-- `bus_get_dev`, without its locks. -/
def busGetDev (t desc : Nat) : Except Panic (Int ⊕ Nat) :=
  if maxBusDevs ≤ desc then .ok (.inl Errno.EBADF.neg)
  else
    let b := s.devs (t, desc)
    if !b.plg then .ok (.inl Errno.ENOENT.neg)
    else
      match b.dev with
      | none => .error .null
      | some d => if (s.dev d).offline then .ok (.inl Errno.ESRCH.neg) else .ok (.inr d)

/-- `OP_CALL`: what the bus operation returns, what its device has stored at the pointer,
and the state. -/
def opCall (t desc : Nat) (r : Req) : Except Panic (Int × Option Nat × State) := do
  match ← s.busGetDev t desc with
  | .inl ret => return (ret, none, s)
  | .inr d =>
    match s.op (t, desc) d (s.devs (t, desc)).devid r with
    | none => return (0, none, s)
    | some x =>
      let res ← x
      return (0, res.val, res.state)

variable {s} in
/-- `OP_CALL` leaves the state, or it is as the operation of the device leaves it. -/
theorem opCall_cases {t desc : Nat} {q : Req} {r : Int} {val : Option Nat} {s' : State}
    (ho : s.opCall t desc q = .ok (r, val, s')) :
    s' = s ∨
      ∃ d res, s.busGetDev t desc = .ok (.inr d) ∧
        s.op (t, desc) d (s.devs (t, desc)).devid q = some (.ok res) ∧ r = 0 ∧
        val = res.val ∧ s' = res.state := by
  obtain ⟨g, hg, ho⟩ := bind_eq_ok.1 ho
  cases g with
  | inl ret =>
      cases ho
      exact .inl rfl
  | inr d =>
      dsimp only at ho
      split at ho
      · cases ho
        exact .inl rfl
      · next x hx =>
        obtain ⟨res, rfl, ho⟩ := bind_eq_ok.1 ho
        cases ho
        exact .inr ⟨d, res, hg, hx, rfl, rfl, rfl⟩

/-- `bus_remove`. -/
def busRemove (t : Nat) : Except Panic State :=
  (List.range maxBusDevs).foldlM (fun s desc ↦ do return (← s.busUnplug t desc).2) s

/-- `dev_init` and `dev_attach`, of a new device with its driver's data not yet in place;
`none` stands for `-EEXIST`. -/
def devAttach (v : Dev) : Option State :=
  match s.tree v.did with
  | some _ => none
  | none => some { s with
      dev := Function.update s.dev s.ndev v
      ndev := s.ndev + 1
      tree := Function.update s.tree v.did (some s.ndev) }

/-- One round of the second loop of `dev_detach`. -/
def detachSlot (cur d : Nat) (k : Slot) : Except Panic State := do
  let s' ← s.opClose cur d (s.devs k).devid
  return s'.setSlot k { s'.devs k with plg := false, dev := none, devid := 0 }

/-- `dev_detach`.  The first loop moves the slots to the head of the destroy list one by
one, which reverses them. -/
def devDetach (cur d : Nat) : Except Panic State :=
  let v := s.dev d
  let s' := { s with tree := Function.update s.tree v.did none }
  let s'' := s'.setDev d { v with offline := true, busdevs := [] }
  v.busdevs.reverse.foldlM (fun s k ↦ s.detachSlot cur d k) s''

/-! ## User devices -/

/-- `usrdev_creat`; `none` stands for a name that is taken. -/
def usrdevCreat (cur nameid : Nat) (cfg : UsrdevCfg) (sig mode : Nat) : Option (Nat × State) :=
  let th := s.thread cur
  match s.devAttach ⟨nameid, false, th.euid, th.egid, mode, .usr, []⟩ with
  | none => none
  | some s' => some (s.ndev, s'.setUsr s.ndev ⟨cur, cfg, sig, false, fun _ ↦ .zero, [], [], []⟩)

/-- `devcreat`. -/
def devcreat (cur nameid : Nat) (cfg : UsrdevCfg) (sig mode : Nat) : Int × State :=
  if maxSignals < sig then (Errno.EINVAL.neg, s)
  else
    match (List.range maxDevs).find? fun i ↦ (s.usrdevs (cur, i)).isNone with
    | none => (Errno.EBUSY.neg, s)
    | some i =>
      match s.usrdevCreat cur nameid cfg sig mode with
      | none => (Errno.EEXIST.neg, s)
      | some (d, s') => (i, { s' with usrdevs := Function.update s'.usrdevs (cur, i) (some d) })

/-- `usrdev_poll`; `none` is an empty queue. -/
def usrdevPoll (d : Nat) : Except Panic (Option PollIor × State) :=
  let u := s.usr d
  match u.ioreqs with
  | [] => .ok (none, s)
  | ior :: iors =>
    match (u.remths ior.id).th with
    | none => .error .null
    | some pid =>
      let p := ⟨ior.id, ior.op, pid, ior.uid, ior.gid⟩
      .ok (some p, s.setUsr d { u with ioreqs := iors, polls := u.polls ++ [(ior, p)] })

variable {s} in
/-- `usrdev_poll` finds the queue empty, or takes its first request off and gives it to the
device. -/
theorem usrdevPoll_cases {d : Nat} {p : Option PollIor} {s' : State}
    (hp : s.usrdevPoll d = .ok (p, s')) :
    s' = s ∨
      ∃ ior iors pid, (s.usr d).ioreqs = ior :: iors ∧
        ((s.usr d).remths ior.id).th = some pid ∧
        s' = s.setUsr d { s.usr d with
          ioreqs := iors
          polls := (s.usr d).polls ++ [(ior, ⟨ior.id, ior.op, pid, ior.uid, ior.gid⟩)] } := by
  unfold usrdevPoll at hp
  dsimp only at hp
  split at hp
  · cases hp
    exact .inl rfl
  · next ior iors hq =>
    split at hp
    · cases hp
    · next pid hth =>
      cases hp
      exact .inr ⟨ior, iors, pid, hq, hth, rfl⟩

/-- `devpoll`: the id that it returns, or an error, with what it fills in. -/
def devpoll (cur did : Nat) : Except Panic (Int × Option PollIor × State) :=
  if maxDevs ≤ did then .ok (Errno.EINVAL.neg, none, s)
  else
    match s.usrdevs (cur, did) with
    | none => .ok (Errno.ENOENT.neg, none, s)
    | some d => do
      match ← s.usrdevPoll d with
      | (none, s') => return (Errno.ENOENT.neg, none, s')
      | (some p, s') => return (p.id, some p, s')

/-- `usrdev_wriospace`. -/
def usrdevWriospace (d id port val : Nat) : Int × State :=
  let u := s.usr d
  let r := u.remths id
  let (start, n) := Usrdev.ioRange port
  (0, s.setUsr d (u.setRem id { r with iospace := fun i ↦
    if start ≤ i ∧ i < start + n then val / 256 ^ (i - start) % 256 else r.iospace i }))

/-- `usrdev_irq`. -/
def usrdevIrq (d id irq : Nat) : Except Panic (Int × State) :=
  if maxUsrdevRems ≤ id ∨ irqmapSz ≤ irq then .ok (Errno.EINVAL.neg, s)
  else
    let r := (s.usr d).remths id
    if r.irqmap irq ≠ 0 ∧ r.use then
      match r.th with
      | none => .error .null
      | some th => do return (0, ← s.thraise th (r.irqmap irq - 1))
    else .ok (0, s)

/-- The aperture that `usrdev_read` and `usrdev_write` find. -/
def findApert (d id iova sz : Nat) : Option Nat :=
  let apt := ((s.usr d).remths id).apertbl
  (List.range maxUsrdevAperts).find? fun i ↦
    (apt i).va ≤ iova && iova ≤ w32 ((apt i).va + (apt i).sz) &&
      (apt i).va ≤ w32 (iova + sz) && w32 (iova + sz) ≤ w32 ((apt i).va + (apt i).sz)

/-- `usrdev_read` and `usrdev_write`; `xcopy` is what `xcopy_from` or `xcopy_to`
returns. -/
def usrdevXcopy (d id iova sz : Nat) (xcopy : Int) : Int × State :=
  if maxUsrdevRems ≤ id then (Errno.EINVAL.neg, s)
  else if !((s.usr d).remths id).use then (Errno.ENOENT.neg, s)
  else
    match s.findApert d id iova sz with
    | none => (Errno.EINVAL.neg, s)
    | some _ => (xcopy, s)

/-- What `devirq`, `devwriospace`, `devread` and `devwrite` have in common: the device that
the thread has created under the number `did`. -/
def withUsrdev (cur did : Nat) (f : Nat → Except Panic (Int × State)) :
    Except Panic (Int × State) :=
  if maxDevs ≤ did then .ok (Errno.EINVAL.neg, s)
  else
    match s.usrdevs (cur, did) with
    | none => .ok (Errno.ENOENT.neg, s)
    | some d => f d

/-- `sys_wriospace`. -/
def sysWriospace (cur did id port val : Nat) : Except Panic (Int × State) :=
  s.withUsrdev cur did fun d ↦ .ok (s.usrdevWriospace d id port val)

/-- `sys_irq`. -/
def sysIrq (cur did id irq : Nat) : Except Panic (Int × State) :=
  s.withUsrdev cur did fun d ↦ s.usrdevIrq d id irq

/-- `sys_read` and `sys_write`. -/
def sysXcopy (cur did id iova sz va : Nat) (xcopy : Int) : Except Panic (Int × State) :=
  if !chkuaddr (truncPage va) sz then .ok (Errno.EINVAL.neg, s)
  else s.withUsrdev cur did fun d ↦ .ok (s.usrdevXcopy d id iova sz xcopy)

/-- `usrdev_destroy`. -/
def usrdevDestroy (cur d : Nat) : Except Panic State := do
  let s' ← (s.setUsr d { s.usr d with detaching := true }).devDetach cur d
  return s'.setUsr d { s'.usr d with ioreqs := [] }

/-- `devremove`. -/
def devremove (cur did : Nat) : Except Panic State :=
  match s.usrdevs (cur, did) with
  | none => .ok s
  | some d => do
    let s' ← s.usrdevDestroy cur d
    return { s' with usrdevs := Function.update s'.usrdevs (cur, did) none }

/-! ## Hardware devices -/

/-- `hwdev_creat` and `hwcreat`. -/
def hwcreat (cur nameid : Nat) (cfg : HwdevCfg) (mode : Nat) : Int × State :=
  let th := s.thread cur
  match s.devAttach ⟨nameid, false, th.euid, th.egid, mode, .hw, []⟩ with
  | none => (Errno.EEXIST.neg, s)
  | some s' => (0, s'.setHw s.ndev ⟨cfg, fun _ ↦ .zero⟩)

/-- `sys_hwcreat`, once it has copied the configuration in. -/
def sysHwcreat (cur nameid : Nat) (cfg : HwdevCfg) (mode : Nat) : Int × State :=
  if (s.thread cur).euid ≠ 0 then (Errno.EPERM.neg, s)
  else if 24 < cfg.irqsegs.length + cfg.piosegs.length then (Errno.EINVAL.neg, s)
  else if 24 < cfg.memsegs.length then (Errno.EINVAL.neg, s)
  else s.hwcreat cur nameid cfg mode

variable {s} in
/-- `dev_attach` succeeds just for a name that is not taken. -/
theorem devAttach_ok {v : Dev} {s' : State} (ha : s.devAttach v = some s') :
    s.tree v.did = none ∧ s' =
      { s with
        dev := Function.update s.dev s.ndev v
        ndev := s.ndev + 1
        tree := Function.update s.tree v.did (some s.ndev) } := by
  unfold devAttach at ha
  split at ha
  · cases ha
  · next hn => exact ⟨hn, (Option.some.inj ha).symm⟩

/-- `devcreat` leaves the state, or there is a new device that the thread owns. -/
theorem devcreat_cases (cur nameid : Nat) (cfg : UsrdevCfg) (sig mode : Nat) :
    (s.devcreat cur nameid cfg sig mode).2 = s ∨
      ∃ i s', sig ≤ maxSignals ∧
        ((List.range maxDevs).find? fun i ↦ (s.usrdevs (cur, i)).isNone) = some i ∧
        s.devAttach ⟨nameid, false, (s.thread cur).euid, (s.thread cur).egid, mode, .usr, []⟩ =
          some s' ∧
        (s.devcreat cur nameid cfg sig mode).2 =
          { s'.setUsr s.ndev ⟨cur, cfg, sig, false, fun _ ↦ .zero, [], [], []⟩ with
            usrdevs := Function.update s'.usrdevs (cur, i) (some s.ndev) } := by
  unfold devcreat
  split
  · exact .inl rfl
  · next hsig =>
    split
    · exact .inl rfl
    · next i hi =>
      unfold usrdevCreat
      dsimp only
      cases ha : s.devAttach ⟨nameid, false, (s.thread cur).euid, (s.thread cur).egid, mode,
          .usr, []⟩ with
      | none => exact .inl rfl
      | some s' => exact .inr ⟨i, s', Nat.le_of_not_lt hsig, hi, rfl, rfl⟩

/-- `sys_hwcreat` leaves the state, or there is a new device. -/
theorem sysHwcreat_cases (cur nameid : Nat) (cfg : HwdevCfg) (mode : Nat) :
    (s.sysHwcreat cur nameid cfg mode).2 = s ∨
      ∃ s', s.devAttach
          ⟨nameid, false, (s.thread cur).euid, (s.thread cur).egid, mode, .hw, []⟩ = some s' ∧
        (s.sysHwcreat cur nameid cfg mode).2 = s'.setHw s.ndev ⟨cfg, fun _ ↦ .zero⟩ := by
  unfold sysHwcreat hwcreat
  split
  · exact .inl rfl
  · split
    · exact .inl rfl
    · split
      · exact .inl rfl
      · dsimp only
        cases ha : s.devAttach ⟨nameid, false, (s.thread cur).euid, (s.thread cur).egid, mode,
            .hw, []⟩ with
        | none => exact .inl rfl
        | some s' => exact .inr ⟨s', rfl, rfl⟩

/-! ## System calls on descriptors -/

/-- What a system call returns, the word that it copies to user memory, if it copies one
(`some none` for a word that nothing has been stored in), and the state. -/
structure SysRes where
  ret : Int
  copied : Option (Option Nat)
  state : State

/-- `sys_in`; `fault` says that `copy_to_user` faults. -/
def sysIn (t dd port hw valptr : Nat) (fault : Bool) : Except Panic SysRes :=
  if !chkuaddr valptr 8 then .ok ⟨Errno.EFAULT.neg, none, s⟩
  else do
    let (ret, val, s') ← s.opCall t dd (.inPort port hw)
    if ret ≠ 0 then return ⟨ret, none, s'⟩
    if fault then return ⟨Errno.EFAULT.neg, none, s'⟩
    return ⟨0, some val, s'⟩

/-- `sys_rdcfg`.  The word starts as 0. -/
def sysRdcfg (t dd off sz valptr : Nat) (fault : Bool) : Except Panic SysRes :=
  if sz ∉ [1, 2, 4, 8] then .ok ⟨Errno.EINVAL.neg, none, s⟩
  else if !chkuaddr valptr 8 then .ok ⟨Errno.EFAULT.neg, none, s⟩
  else do
    let (ret, val, s') ← s.opCall t dd (.rdcfg off sz)
    if ret ≠ 0 then return ⟨ret, none, s'⟩
    if fault then return ⟨Errno.EFAULT.neg, none, s'⟩
    return ⟨0, some (some (val.getD 0)), s'⟩

/-- `sys_export`; where the copy faults it takes the export back. -/
def sysExport (t dd va sz iovaptr : Nat) (wire : Int) (phys : Option Nat) (fault : Bool) :
    Except Panic SysRes :=
  if !chkuaddr va sz then .ok ⟨Errno.EFAULT.neg, none, s⟩
  else if !chkuaddr iovaptr 8 then .ok ⟨Errno.EINVAL.neg, none, s⟩
  else do
    let (ret, val, s') ← s.opCall t dd (.exportVa va sz wire phys)
    if ret ≠ 0 then return ⟨ret, none, s'⟩
    if fault then
      let (_, _, s'') ← s'.opCall t dd (.unexportVa va)
      return ⟨Errno.EFAULT.neg, none, s''⟩
    return ⟨0, some val, s'⟩

/-- What `sys_iomap`, `sys_iounmap` and `sys_unexport` check first.  The requests of the
last line do not come through `sysReq`: they have calls of their own, or none. -/
def reqCheck : Req → Option Errno
  | .iomap va _ _ | .iounmap va =>
    if chkuaddr (truncPage va) pageSize then none else some .EINVAL
  | .unexportVa va => if chkuaddr va 1 then none else some .EINVAL
  | .outPort .. | .irqmap .. | .eoi .. => none
  | .inPort .. | .rdcfg .. | .wrcfg .. | .exportVa .. => some .ENOSYS

/-- The system calls that hand the result of the bus back: `sys_out`, `sys_mapirq`,
`sys_eoi`, `sys_unexport`, `sys_iomap` and `sys_iounmap`. -/
def sysReq (t dd : Nat) (r : Req) : Except Panic SysRes :=
  match reqCheck r with
  | some e => .ok ⟨e.neg, none, s⟩
  | none => do
    let (ret, _, s') ← s.opCall t dd r
    return ⟨ret, none, s'⟩

/-! ## Threads -/

/-- `sys_setuid`. -/
def sysSetuid (t uid : Nat) : Int × State :=
  let th := s.thread t
  if th.euid ≠ 0 ∧ th.ruid ≠ uid then (Errno.EPERM.neg, s)
  else (0, s.setThread t { th with ruid := uid, euid := uid, suid := uid })

/-- `sys_seteuid`. -/
def sysSeteuid (t uid : Nat) : Int × State :=
  let th := s.thread t
  if th.euid ≠ 0 ∧ th.ruid ≠ uid ∧ th.suid ≠ uid then (Errno.EPERM.neg, s)
  else (0, s.setThread t { th with euid := uid })

/-- `sys_setgid`. -/
def sysSetgid (t gid : Nat) : Int × State :=
  let th := s.thread t
  if th.euid ≠ 0 ∧ th.rgid ≠ gid then (Errno.EPERM.neg, s)
  else (0, s.setThread t { th with rgid := gid, egid := gid, sgid := gid })

/-- `sys_setegid`. -/
def sysSetegid (t gid : Nat) : Int × State :=
  let th := s.thread t
  if th.euid ≠ 0 ∧ th.rgid ≠ gid ∧ th.sgid ≠ gid then (Errno.EPERM.neg, s)
  else (0, s.setThread t { th with egid := gid })

/-- The thread that `thfork` sets up, up to the copying of the bus. -/
def newThread (t : Nat) : State :=
  let n := s.next
  { s with
    thread := Function.update s.thread n { s.thread t with rttSig := 0, vttSig := 0 }
    life := Function.update s.life n .live
    parent := Function.update s.parent n (some t)
    active := Function.update (Function.update s.active n []) t (n :: s.active t)
    zombies := Function.update s.zombies n []
    softintrs := Function.update s.softintrs n (s.softintrs t)
    next := n + 1
    devs := fun k ↦ if k.1 = n then .zero else s.devs k
    usrdevs := fun k ↦ if k.1 = n then none else s.usrdevs k }

/-- `thfork`, without the address space. -/
def thfork (t : Nat) : Except Panic State :=
  (List.range maxBusDevs).foldlM (fun r desc ↦ do return (← r.busCopy t desc s.next).2)
    (s.newThread t)

/-- `__exit`, up to its last call of `schedule`; `vmclear` drops the I/O mappings. -/
def exit (t : Nat) : Except Panic State :=
  if s.parent t = none then .error .parent
  else do
    let s' ← s.busRemove t
    let s'' ← (List.range maxDevs).foldlM (fun s did ↦ s.devremove t did) s'
    let u : State := { s'' with
      io := fun k ↦ if k.1 = t then none else s''.io k
      active := Function.update (Function.update s''.active s''.init
        ((s''.active t).reverse ++ s''.active s''.init)) t []
      zombies := Function.update (Function.update s''.zombies s''.init
        ((s''.zombies t).reverse ++ s''.zombies s''.init)) t []
      parent := fun c ↦ if c ∈ s''.active t ∨ c ∈ s''.zombies t then some s''.init else
        s''.parent c
      life := Function.update s''.life t .dying }
    u.thraise u.init intrChild

/-- The part of `do_zombie` that is about one thread. -/
def doZombie (c : Nat) : Except Panic State :=
  match s.parent c with
  | none => .error .null
  | some p =>
    ({ s with
      active := Function.update s.active p ((s.active p).erase c)
      zombies := Function.update s.zombies p (c :: s.zombies p)
      life := Function.update s.life c .zombie } : State).thraise p intrChild

/-- `childstat`, with `thfree`. -/
def childstat (t : Nat) : Int × State :=
  match s.zombies t with
  | [] => (Errno.ESRCH.neg, s)
  | c :: cs =>
    (c, { s with
      zombies := Function.update s.zombies t cs
      life := Function.update s.life c .freed })

/-! ## Interrupts -/

/-- `irqsignal`. -/
def irqsignal (irq : Nat) (level : Bool) : Except Panic State :=
  if irq < maxIrqs then
    let sigs := (s.irqsigs irq).map fun r ↦ { r with eoi := r.eoi || level }
    (s.irqsigs irq).foldlM (fun s r ↦ s.thraise r.th r.sig)
      { s with irqsigs := Function.update s.irqsigs irq sigs }
  else .error .irq

/-- What `do_timer` does for a timer of the thread `t` with the signal `sig`. -/
def timerFire (t sig : Nat) : Except Panic State :=
  if sig ≠ 0 then s.thraise t (sig - 1) else .ok s

end State

/-! ## Steps -/

/-- The system calls, with their arguments and what they find in user memory, in the page
tables and in the hardware. -/
inductive Call
  | raise (sint : Nat)
  | fork
  | die
  | childstat
  | setuid (uid : Nat)
  | seteuid (uid : Nat)
  | setgid (gid : Nat)
  | setegid (gid : Nat)
  | creat (nameid : Nat) (cfg : UsrdevCfg) (sig mode : Nat)
  | poll (did : Nat)
  | wriospace (did id port val : Nat)
  | irq (did id irq : Nat)
  | xcopy (did id iova sz va : Nat) (xcopy : Int)
  | hwcreat (nameid : Nat) (cfg : HwdevCfg) (mode : Nat)
  | openDev (did : Nat)
  | closeDev (dd : Nat)
  | inDev (dd port hw valptr : Nat) (fault : Bool)
  | rdcfg (dd off sz valptr : Nat) (fault : Bool)
  | exportDev (dd va sz iovaptr : Nat) (wire : Int) (phys : Option Nat) (fault : Bool)
  | req (dd : Nat) (r : Req)

/-- What happens: a call of a thread, or an event of the machine. -/
inductive Label
  /-- The thread makes a system call -/
  | call (t : Nat) (c : Call)
  /-- `do_zombie` reaches a thread that has exited -/
  | zombie (c : Nat)
  /-- An interrupt line fires -/
  | irq (irq : Nat) (level : Bool)
  /-- The real-time or the virtual alarm of a thread fires -/
  | timer (t : Nat) (vtt : Bool)
  /-- `klog_putc` -/
  | putc

namespace State

variable (s : State)

/-- `sys_call`, without what it returns. -/
def sysCall (t : Nat) : Call → Except Panic State
  | .raise sint => s.thraise t sint
  | .fork => s.thfork t
  | .die => s.exit t
  | .childstat => .ok (s.childstat t).2
  | .setuid uid => .ok (s.sysSetuid t uid).2
  | .seteuid uid => .ok (s.sysSeteuid t uid).2
  | .setgid gid => .ok (s.sysSetgid t gid).2
  | .setegid gid => .ok (s.sysSetegid t gid).2
  | .creat nameid cfg sig mode => .ok (s.devcreat t nameid cfg sig mode).2
  | .poll did => do return (← s.devpoll t did).2.2
  | .wriospace did id port val => do return (← s.sysWriospace t did id port val).2
  | .irq did id irq => do return (← s.sysIrq t did id irq).2
  | .xcopy did id iova sz va xcopy => do return (← s.sysXcopy t did id iova sz va xcopy).2
  | .hwcreat nameid cfg mode => .ok (s.sysHwcreat t nameid cfg mode).2
  | .openDev did => do return (← s.busPlug t did).2
  | .closeDev dd => do return (← s.busUnplug t dd).2
  | .inDev dd port hw valptr fault => do return (← s.sysIn t dd port hw valptr fault).state
  | .rdcfg dd off sz valptr fault => do return (← s.sysRdcfg t dd off sz valptr fault).state
  | .exportDev dd va sz iovaptr wire phys fault => do
    return (← s.sysExport t dd va sz iovaptr wire phys fault).state
  | .req dd r => do return (← s.sysReq t dd r).state

/-- One step. -/
def exec : Label → Except Panic State
  | .call t c => s.sysCall t c
  | .zombie c => s.doZombie c
  | .irq irq level => s.irqsignal irq level
  | .timer t vtt => s.timerFire t (if vtt then (s.thread t).vttSig else (s.thread t).rttSig)
  | .putc => s.klogdevRaiseAvl

/-- Who can make a step: a thread that is there, and a thread that has exited. -/
def enabled : Label → Prop
  | .call t _ => s.life t = .live
  | .zombie c => s.life c = .dying
  | _ => True

/-- The numbers of the three devices that `devices_init` attaches. -/
def pltNo : Nat := 0

@[inherit_doc pltNo]
def sysNo : Nat := 1

@[inherit_doc pltNo]
def klogNo : Nat := 2

/-- The devices after `devices_init`, by the encoded names of the three. -/
def bootDev (plt sys klog : Nat) : Nat → Dev
  | 0 => ⟨plt, false, 0, 0, 0o100, .plt, []⟩
  | 1 => ⟨sys, false, 0, 0, 0o111, .sys, []⟩
  | 2 => ⟨klog, false, 0, 0, 0o111, .klog, []⟩
  | _ => ⟨0, false, 0, 0, 0, .sys, []⟩

/-- The state in which `init`, the thread 1, starts: the thread 0 is idle. -/
def boot (plt sys klog : Nat) : State where
  thread _ := ⟨0, 0, 0, 0, 0, 0, 0, 0⟩
  life t := if t = 1 then .live else .unborn
  parent _ := none
  active _ := []
  zombies _ := []
  softintrs _ := 0
  next := 2
  init := 1
  devs _ := .zero
  usrdevs _ := none
  dev := bootDev plt sys klog
  ndev := 3
  tree did :=
    if did = plt then some pltNo else if did = sys then some sysNo
    else if did = klog then some klogNo else none
  usr _ := ⟨0, ⟨0, 0, 0, fun _ ↦ 0⟩, 0, false, fun _ ↦ .zero, [], [], []⟩
  hw _ := ⟨⟨0, [], [], [], []⟩, fun _ ↦ .zero⟩
  platformRems _ := ⟨false, [], []⟩
  klog := ⟨false, none, false, false, 0⟩
  irqsigs _ := []
  nsig := 0
  io _ := none

end State

/-- A step of the kernel. -/
def Step (s : State) (a : Label) (s' : State) : Prop := s.enabled a ∧ s.exec a = .ok s'

end Mh.Bus
