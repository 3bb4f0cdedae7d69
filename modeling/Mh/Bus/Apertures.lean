import Mh.Bus.Blind

/-!
# The apertures of a client

The memory that a client of a user device exports is kept in a table of its client id.
`Drift` follows these tables through a step: an aperture comes into a table by an export of
the client that holds the id, and stays there until the client takes it back or the id is
closed.  So an id that is not in use has no apertures, which is also how an id starts that
is opened or cloned.
-/

namespace Mh.Bus

open Mh.Lib

/-! ## One entry of a client table -/

/-- An entry that is not in use has no apertures. -/
def Remth.Clean (r : Remth) : Prop :=
  r.use = false → ∀ i < maxUsrdevAperts, r.apertbl i = ⟨0, 0⟩

/-- From the entry `r` to `r'` an aperture is gone, has stayed, with the client that holds the
id, or is one that `E` allows. -/
structure Remth.Goes (E : Option Nat → Apert → Prop) (r r' : Remth) : Prop where
  clean : r.Clean → r'.Clean
  apert : r.Clean → ∀ i < maxUsrdevAperts, r'.apertbl i = ⟨0, 0⟩ ∨ r'.use = true ∧
    (r.use = true ∧ r'.th = r.th ∧ r'.apertbl i = r.apertbl i ∨ E r'.th (r'.apertbl i))

namespace Remth.Goes

variable {E : Option Nat → Apert → Prop} {r r' r'' : Remth}

/-- The entry stays in use, or idle, and loses apertures at most. -/
theorem of_le (huse : r'.use = r.use) (hth : r'.th = r.th) (hapt : ∀ i < maxUsrdevAperts,
    r'.apertbl i = ⟨0, 0⟩ ∨ r'.apertbl i = r.apertbl i) : r.Goes E r' where
  clean hr hidle i hi := by
    rcases hapt i hi with h | h
    · exact h
    · rw [h]
      exact hr (huse ▸ hidle) i hi
  apert hr i hi := by
    rcases hapt i hi with h | h
    · exact .inl h
    · cases hu : r.use with
      | false => exact .inl (h.trans (hr hu i hi))
      | true => exact .inr ⟨huse.trans hu, .inl ⟨rfl, hth, h⟩⟩

/-- Nothing happens. -/
theorem refl (r : Remth) : r.Goes E r := of_le rfl rfl fun _ _ ↦ .inr rfl

/-- An entry that is not in use is taken. -/
theorem take (hidle : r.use = false) (huse : r'.use = true) (hapt : r'.apertbl = r.apertbl) :
    r.Goes E r' where
  clean _ h := by
    rw [huse] at h
    cases h
  apert hr i hi := by
    rw [hapt]
    exact .inl (hr hidle i hi)

/-- All the apertures go. -/
theorem clear (hapt : ∀ i < maxUsrdevAperts, r'.apertbl i = ⟨0, 0⟩) : r.Goes E r' :=
  ⟨fun _ _ ↦ hapt, fun _ i hi ↦ .inl (hapt i hi)⟩

/-- The client that holds the id exports an aperture. -/
theorem add {i : Nat} {a : Apert} (huse : r.use = true) (hE : E r.th a) :
    r.Goes E { r with apertbl := Function.update r.apertbl i a } where
  clean _ h := by
    rw [huse] at h
    cases h
  apert hr j hj := by
    refine .inr ⟨huse, ?_⟩
    rcases eq_or_ne j i with rfl | hne
    · refine .inr ?_
      dsimp only
      rwa [Function.update_self]
    · exact .inl ⟨huse, rfl, Function.update_of_ne hne ..⟩

/-- One change after another. -/
theorem trans (h : r.Goes E r') (h' : r'.Goes E r'') : r.Goes E r'' where
  clean hr := h'.clean (h.clean hr)
  apert hr i hi := by
    rcases h'.apert (h.clean hr) i hi with h₀ | ⟨hu, ⟨hu', hth, happ⟩ | hE⟩
    · exact .inl h₀
    · rw [happ, hth]
      rcases h.apert hr i hi with h₁ | ⟨-, h₁⟩
      · exact .inl h₁
      · exact .inr ⟨hu, h₁⟩
    · exact .inr ⟨hu, .inr hE⟩

end Remth.Goes

/-! ## All the client tables -/

/-- From `s` to `s'` every entry of every user device goes as `E` allows. -/
def Drift (E : Nat → Nat → Option Nat → Apert → Prop) (s s' : State) : Prop :=
  ∀ d i, ((s.usr d).remths i).Goes (E d i) ((s'.usr d).remths i)

namespace Drift

variable {E : Nat → Nat → Option Nat → Apert → Prop} {s s' s'' : State} {t d id : Nat}
  {k : Slot}

/-- The user devices stay as they are. -/
theorem of_usr (h : s'.usr = s.usr) : Drift E s s' := fun d i ↦ by
  rw [h]
  exact .refl _

/-- Nothing happens. -/
theorem refl (s : State) : Drift E s s := of_usr rfl

/-- One step after another. -/
theorem trans (h : Drift E s s') (h' : Drift E s' s'') : Drift E s s'' :=
  fun d i ↦ (h d i).trans (h' d i)

/-- A user device is written. -/
theorem setUsr {u : Usrdev} (h : ∀ i, ((s.usr d).remths i).Goes (E d i) (u.remths i)) :
    Drift E s (s.setUsr d u) := fun d' i ↦ by
  rcases eq_or_ne d' d with rfl | hne
  · rw [State.setUsr_self]
    exact h i
  · rw [State.setUsr_of_ne hne]
    exact .refl _

/-- An entry of a user device is written. -/
theorem setRem {r : Remth} (h : ((s.usr d).remths id).Goes (E d id) r) :
    Drift E s (s.setUsr d ((s.usr d).setRem id r)) := by
  refine setUsr fun i ↦ ?_
  rcases eq_or_ne i id with rfl | hne
  · rw [Usrdev.setRem_self]
    exact h
  · rw [Usrdev.setRem_of_ne _ hne]
    exact .refl _

/-- `thraise`. -/
theorem thraise {vect : Nat} (h : Drift E s s') :
    Ends (Drift E s) Panic.Any (s'.thraise t vect) := by
  unfold State.thraise
  split
  · exact h.trans (of_usr rfl)
  · trivial

/-- A request is inserted. -/
theorem enqueue {ior : Ior} (h : Drift E s s') : Ends (Drift E s) Panic.Any (s'.enqueue d ior) :=
  thraise (h.trans (setUsr fun _ ↦ .refl _))

/-! ### Drivers -/

/-- What `OP_CALL` reaches in a user device. -/
theorem usrdevOp {q : Req} {x : Except Panic Res} (hx : s.usrdevOp k d id q = some x)
    (hE : ∀ va sz wire phys, q = .exportVa va sz wire phys →
      ((s.usr d).remths id).use = true ∧ E d id ((s.usr d).remths id).th ⟨va, sz⟩) :
    Ends (fun r ↦ Drift E s r.state) Panic.Any x := by
  refine Ends.of_map (Q := Drift E s) ?_
  generalize hu : x.map Res.state = u
  cases hu ▸ State.usrdevOp_effect hx with
  | same => exact refl s
  | closed => trivial
  | outPort hid hdet hs' => exact hs' ▸ (refl s).enqueue
  | exportVa i =>
      obtain ⟨huse, hE⟩ := hE _ _ _ _ rfl
      exact setRem (.add huse hE)
  | unexportVa i =>
      refine setRem (.of_le rfl rfl fun j _ ↦ ?_)
      dsimp only
      rcases eq_or_ne j i with rfl | hne
      · exact .inl (Function.update_self ..)
      · exact .inr (Function.update_of_ne hne ..)
  | irqmap hirq => exact setRem (.of_le rfl rfl fun _ _ ↦ .inr rfl)

/-- What `OP_CALL` reaches. -/
theorem op {q : Req} {x : Except Panic Res} (hx : s.op k d id q = some x)
    (hE : (s.dev d).kind = .usr → ∀ va sz wire phys, q = .exportVa va sz wire phys →
      ((s.usr d).remths id).use = true ∧ E d id ((s.usr d).remths id).th ⟨va, sz⟩) :
    Ends (fun r ↦ Drift E s r.state) Panic.Any x := by
  by_cases hk : (s.dev d).kind = .usr
  · unfold State.op at hx
    rw [hk] at hx
    exact usrdevOp hx (hE hk)
  · exact (op_usr s k d id hk hx).mono fun _ h ↦ of_usr h

/-- `d->ops->open`. -/
theorem opOpen : Ends (fun r ↦ Drift E s r.2) Panic.Any (s.opOpen t d) := by
  by_cases hk : (s.dev d).kind = .usr
  · unfold State.opOpen
    rw [hk]
    dsimp only
    unfold State.usrdevOpen
    dsimp only
    split
    · exact refl s
    · next i hi =>
      have hset : Drift E s (s.setUsr d ((s.usr d).setRem i { (s.usr d).remths i with
          use := true, th := some t })) :=
        setRem (.take (Usrdev.freeRem_spec hi).1 rfl rfl)
      split
      · exact hset
      · exact hset.enqueue.map fun _ h ↦ h
  · exact (opOpen_usr s d t hk).mono fun _ h ↦ of_usr h

/-- `_usrdev_clone`. -/
theorem usrdevClone {nth : Nat} :
    Ends (fun r ↦ Drift E s r.2) Panic.Any (s.usrdevClone t d id nth) := by
  unfold State.usrdevClone
  dsimp only
  split
  · exact refl s
  · next i hi =>
    have hset : Drift E s (s.setUsr d ((s.usr d).setRem i { (s.usr d).remths i with
        use := true, th := some nth
        iospace := ((s.usr d).remths id).iospace, irqmap := ((s.usr d).remths id).irqmap })) :=
      setRem (.take (Usrdev.freeRem_spec hi).1 rfl rfl)
    split
    · exact hset
    · exact hset.enqueue.map fun _ h ↦ h

/-- `d->ops->close`. -/
theorem opClose : Ends (Drift E s) Panic.Any (s.opClose t d id) := by
  by_cases hk : (s.dev d).kind = .usr
  · unfold State.opClose
    rw [hk]
    dsimp only
    have hset : Drift E s (s.setUsr d ((s.usr d).setRem id ((s.usr d).remths id).closed)) :=
      setRem (.clear fun i hi ↦ if_pos hi)
    unfold State.usrdevClose
    dsimp only
    split
    · exact hset
    · exact hset.enqueue
  · exact (opClose_usr s d id t hk).mono fun _ h ↦ of_usr h

/-! ### The bus -/

/-- `bus_plug`. -/
theorem busPlug {did : Nat} : Ends (fun r ↦ Drift E s r.2) Panic.Any (s.busPlug t did) :=
  State.ends_busPlug (refl s) (fun _ ↦ opOpen) fun _ _ _ _ h₁ ↦ h₁.trans (of_usr rfl)

/-- `bus_copy`. -/
theorem busCopy {desc nth : Nat} :
    Ends (fun r ↦ Drift E s r.2) Panic.Any (s.busCopy t desc nth) :=
  State.ends_busCopy (refl s) trivial (fun _ _ ↦ usrdevClone)
    fun _ _ _ _ h₁ ↦ h₁.trans (of_usr rfl)

/-- `bus_unplug`. -/
theorem busUnplug {desc : Nat} :
    Ends (fun r ↦ Drift E s r.2) Panic.Any (s.busUnplug t desc) :=
  State.ends_busUnplug (refl s) trivial (fun _ _ ↦ opClose)
    (fun _ _ _ h₁ ↦ h₁.trans (of_usr rfl)) fun _ _ _ h₁ ↦ h₁.trans (of_usr rfl)

/-- `OP_CALL`. -/
theorem opCall {desc : Nat} {q : Req} (hE : ∀ d, s.busGetDev t desc = .ok (.inr d) →
      (s.dev d).kind = .usr → ∀ va sz wire phys, q = .exportVa va sz wire phys →
      ((s.usr d).remths (s.devs (t, desc)).devid).use = true ∧
        E d (s.devs (t, desc)).devid ((s.usr d).remths (s.devs (t, desc)).devid).th ⟨va, sz⟩) :
    Ends (fun r ↦ Drift E s r.2.2) Panic.Any (s.opCall t desc q) := by
  unfold State.opCall
  refine (Ends.self fun _ _ ↦ trivial).bind ?_
  rintro (ret | d) hg
  · exact refl s
  · dsimp only
    split
    · exact refl s
    · next x hx => exact (op hx (hE d hg)).map fun _ h ↦ h

/-- `bus_remove`. -/
theorem busRemove : Ends (Drift E s) Panic.Any (s.busRemove t) :=
  Ends.foldlM (fun _ _ _ h ↦ busUnplug.map fun _ h' ↦ h.trans h') (refl s)

/-- `dev_detach`. -/
theorem devDetach : Ends (Drift E s) Panic.Any (s.devDetach t d) := by
  refine Ends.foldlM (fun s₁ k _ h ↦ ?_) (of_usr rfl)
  exact opClose.map fun s₂ h' ↦ (h.trans h').trans (of_usr rfl)

/-- `devremove`. -/
theorem devremove {did : Nat} : Ends (Drift E s) Panic.Any (s.devremove t did) := by
  unfold State.devremove
  split
  · exact refl s
  · next d hd =>
    have hmark : Drift E s (s.setUsr d { s.usr d with detaching := true }) :=
      setUsr fun _ ↦ .refl _
    have hdestroy : Ends (Drift E s) Panic.Any (s.usrdevDestroy t d) := by
      unfold State.usrdevDestroy
      exact devDetach.map fun _ h ↦ (hmark.trans h).trans (setUsr fun _ ↦ .refl _)
    exact hdestroy.map fun _ h ↦ h.trans (of_usr rfl)

/-! ### Calls and events -/

/-- `devcreat`: the new device has no clients. -/
theorem devcreat (nameid : Nat) (cfg : UsrdevCfg) (sig mode : Nat) :
    Drift E s (s.devcreat t nameid cfg sig mode).2 := by
  obtain heq | ⟨i, s₂, -, -, ha, heq⟩ := s.devcreat_cases t nameid cfg sig mode
  · rw [heq]
    exact refl s
  · rw [heq]
    have hattach : Drift E s s₂ := by
      obtain ⟨-, rfl⟩ := State.devAttach_ok ha
      exact of_usr rfl
    have hnew : Drift E s₂ (s₂.setUsr s.ndev
        ⟨t, cfg, sig, false, fun _ ↦ .zero, [], [], []⟩) :=
      setUsr fun _ ↦ .clear fun _ _ ↦ rfl
    exact (hattach.trans hnew).trans (of_usr rfl)

/-- `hwcreat`. -/
theorem sysHwcreat (nameid : Nat) (cfg : HwdevCfg) (mode : Nat) :
    Drift E s (s.sysHwcreat t nameid cfg mode).2 := by
  obtain heq | ⟨s₁, ha, heq⟩ := s.sysHwcreat_cases t nameid cfg mode
  · rw [heq]
    exact refl s
  · rw [heq]
    obtain ⟨-, rfl⟩ := State.devAttach_ok ha
    exact of_usr rfl

/-- `devpoll`. -/
theorem devpoll {did : Nat} : Ends (fun r ↦ Drift E s r.2.2) Panic.Any (s.devpoll t did) :=
  State.ends_devpoll (refl s) trivial fun _ _ _ ↦ setUsr fun _ ↦ .refl _

/-- `usrdev_irq`. -/
theorem usrdevIrq {irq : Nat} :
    Ends (fun r ↦ Drift E s r.2) Panic.Any (s.usrdevIrq d id irq) :=
  State.ends_usrdevIrq (refl s) trivial fun _ _ ↦ (refl s).thraise

/-- The calls that leave the buses alone. -/
theorem plain {c : Call} (hc : c.Plain) : Ends (Drift E s) Panic.Any (s.sysCall t c) := by
  cases c with
  | raise sint => exact (refl s).thraise
  | setuid n => exact (State.setIds n (refl s) fun _ _ _ ↦ of_usr rfl).1
  | seteuid n => exact (State.setIds n (refl s) fun _ _ _ ↦ of_usr rfl).2.1
  | setgid n => exact (State.setIds n (refl s) fun _ _ _ ↦ of_usr rfl).2.2.1
  | setegid n => exact (State.setIds n (refl s) fun _ _ _ ↦ of_usr rfl).2.2.2
  | wriospace did id port val =>
      refine (State.ends_withUsrdev (refl s) fun d ↦ ?_).map fun _ h ↦ h
      exact setRem (.of_le rfl rfl fun _ _ ↦ .inr rfl)
  | irq did id irq =>
      exact (State.ends_withUsrdev (refl s) fun d ↦ usrdevIrq).map fun _ h ↦ h
  | xcopy did id iova sz va x => exact (State.ends_sysXcopy (refl s)).map fun _ h ↦ h
  | _ => exact hc.elim

/-- `irqsignal`. -/
theorem irqsignal {irq : Nat} {level : Bool} :
    Ends (Drift E s) Panic.Any (s.irqsignal irq level) :=
  State.ends_irqsignal trivial (of_usr rfl) fun _ _ _ h₁ ↦ h₁.thraise

/-- The other events. -/
theorem events (s : State) (t sig : Nat) : Ends (Drift E s) Panic.Any (s.timerFire t sig) ∧
    Ends (Drift E s) Panic.Any s.klogdevRaiseAvl :=
  ⟨State.ends_timerFire (refl s) (refl s).thraise,
    State.ends_klogdevRaiseAvl trivial (of_usr rfl) fun _ ↦ (of_usr rfl).thraise⟩

/-- `thfork`. -/
theorem thfork : Ends (Drift E s) Panic.Any (s.thfork t) :=
  Ends.foldlM (fun _ _ _ h ↦ busCopy.map fun _ h' ↦ h.trans h') (of_usr rfl)

/-- `__exit`. -/
theorem exit : Ends (Drift E s) Panic.Any (s.exit t) := by
  unfold State.exit
  split
  · trivial
  · refine (busRemove (E := E)).bind fun s₁ h₁ ↦ ?_
    refine Ends.bind (P := Drift E s) ?_ fun s₂ h₂ ↦ ?_
    · exact Ends.foldlM (fun _ _ _ h ↦ devremove.mono fun _ h' ↦ h.trans h') h₁
    · exact thraise (h₂.trans (of_usr rfl))

/-- `do_zombie`. -/
theorem doZombie {c : Nat} : Ends (Drift E s) Panic.Any (s.doZombie c) := by
  unfold State.doZombie
  split
  · trivial
  · refine Drift.thraise (s := s) ?_
    exact of_usr rfl

/-- `childstat`. -/
theorem childstat : Drift E s (s.childstat t).2 := by
  unfold State.childstat
  split <;> exact of_usr rfl

end Drift

/-! ## Steps -/

/-- The label is an export of the aperture, by the thread that holds the client id. -/
def State.Exports (s : State) (a : Label) (d id : Nat) (th : Option Nat) (ap : Apert) : Prop :=
  ∃ t dd iovaptr wire phys fault,
    a = .call t (.exportDev dd ap.va ap.sz iovaptr wire phys fault) ∧ chkuaddr ap.va ap.sz ∧
    s.busGetDev t dd = .ok (.inr d) ∧ (s.devs (t, dd)).devid = id ∧ th = some t ∧
    ((s.usr d).remths id).use

namespace Drift

variable {E : Nat → Nat → Option Nat → Apert → Prop} {s s' : State} {t : Nat}

/-- A request that is not an export. -/
theorem opCall_other {desc : Nat} {q : Req}
    (hq : ∀ va sz wire phys, q ≠ .exportVa va sz wire phys) :
    Ends (fun r ↦ Drift E s r.2.2) Panic.Any (s.opCall t desc q) :=
  opCall fun _ _ _ va sz wire phys h ↦ absurd h (hq va sz wire phys)

/-- `sys_in`. -/
theorem sysIn {dd port hw valptr : Nat} {fault : Bool} :
    Ends (fun r ↦ Drift E s r.state) Panic.Any (s.sysIn t dd port hw valptr fault) :=
  State.ends_sysIn (refl s) (opCall_other fun _ _ _ _ ↦ Req.noConfusion)

/-- `sys_rdcfg`. -/
theorem sysRdcfg {dd off sz valptr : Nat} {fault : Bool} :
    Ends (fun r ↦ Drift E s r.state) Panic.Any (s.sysRdcfg t dd off sz valptr fault) :=
  State.ends_sysRdcfg (refl s) (opCall_other fun _ _ _ _ ↦ Req.noConfusion)

/-- `sys_export`: the aperture that is exported is allowed. -/
theorem sysExport {dd va sz iovaptr : Nat} {wire : Int} {phys : Option Nat} {fault : Bool}
    (hi : Inv s)
    (hE : ∀ d id th, s.Exports (.call t (.exportDev dd va sz iovaptr wire phys fault)) d id th
      ⟨va, sz⟩ → E d id th ⟨va, sz⟩) :
    Ends (fun r ↦ Drift E s r.state) Panic.Any
      (s.sysExport t dd va sz iovaptr wire phys fault) := by
  refine State.ends_sysExport (refl s) (fun hchk ↦ opCall fun d hg hk va' sz' wire' phys' hq ↦ ?_)
    fun s₁ h₁ ↦ ?_
  · cases hq
    have hmem := hi.mem_of_getDev hg
    have huse := (State.inUse_usr hk).1 (hi.plugs.busy d _ hmem (.inl hk))
    have hth := hi.plugs.holder d _ hmem hk
    refine ⟨huse, hth ▸ hE _ _ _ ?_⟩
    exact ⟨t, dd, iovaptr, wire, phys, fault, rfl, hchk, hg, rfl, rfl, huse⟩
  · exact (opCall_other fun _ _ _ _ ↦ Req.noConfusion).mono fun _ h₂ ↦ h₁.trans h₂

/-- The system calls that hand the result of the bus back. -/
theorem sysReq {dd : Nat} {q : Req} :
    Ends (fun r ↦ Drift E s r.state) Panic.Any (s.sysReq t dd q) := by
  refine State.ends_sysReq (refl s) fun hq ↦ opCall_other fun va sz wire phys h ↦ ?_
  subst h
  cases hq

/-- What a step does to the entries of the client tables. -/
theorem step {a : Label} (hi : Inv s) (hs : Step s a s') : Drift (s.Exports a) s s' := by
  obtain ⟨-, hs⟩ := hs
  cases a with
  | call t c =>
      change s.sysCall t c = .ok s' at hs
      cases c with
      | raise | setuid | seteuid | setgid | setegid | wriospace | irq | xcopy =>
          refine (plain (t := t) ?_).of_ok hs
          trivial
      | fork => exact thfork.of_ok hs
      | die => exact exit.of_ok hs
      | childstat =>
          cases hs
          exact childstat
      | creat nameid cfg sig mode =>
          cases hs
          exact devcreat nameid cfg sig mode
      | poll did => exact (devpoll.map fun _ h ↦ h).of_ok hs
      | hwcreat nameid cfg mode =>
          cases hs
          exact sysHwcreat nameid cfg mode
      | openDev did => exact (busPlug.map fun _ h ↦ h).of_ok hs
      | closeDev dd => exact (busUnplug.map fun _ h ↦ h).of_ok hs
      | inDev dd port hw valptr fault => exact (sysIn.map fun _ h ↦ h).of_ok hs
      | rdcfg dd off sz valptr fault => exact (sysRdcfg.map fun _ h ↦ h).of_ok hs
      | exportDev dd va sz iovaptr wire phys fault =>
          exact ((sysExport hi fun _ _ _ h ↦ h).map fun _ h ↦ h).of_ok hs
      | req dd q => exact (sysReq.map fun _ h ↦ h).of_ok hs
  | zombie c => exact doZombie.of_ok hs
  | irq irq level => exact irqsignal.of_ok hs
  | timer t vtt => exact (events ..).1.of_ok hs
  | putc => exact (events s 0 0).2.of_ok hs

end Drift

/-! ## Runs -/

/-- The place `i` of the table of a client id in use by the thread `t` holds an aperture. -/
structure State.Holds (s : State) (d id i t : Nat) (ap : Apert) : Prop where
  use : ((s.usr d).remths id).use = true
  th : ((s.usr d).remths id).th = some t
  apert : ((s.usr d).remths id).apertbl i = ap

/-- In the run, the thread `t` has exported the aperture under a client id of the device, and
since then it has held the id, and the aperture has been in its place `i` of the table. -/
def Exported (s₀ : State) (as : List Label) (s : State) (d id i t : Nat) (ap : Apert) : Prop :=
  ∃ as₁ a as₂ s₁ s₂, as = as₁ ++ a :: as₂ ∧ Run Step s₀ as₁ s₁ ∧ Step s₁ a s₂ ∧
    s₁.Exports a d id (some t) ap ∧ s₂.Holds d id i t ap ∧
    Run (fun x b y ↦ Step x b y ∧ y.Holds d id i t ap) s₂ as₂ s

variable {s s' : State} {as : List Label} {plt sys klog : Nat}

/-- What is exported is in its place. -/
theorem Exported.holds {s₀ : State} {d id i t : Nat} {ap : Apert}
    (h : Exported s₀ as s d id i t ap) : s.Holds d id i t ap := by
  obtain ⟨as₁, a, as₂, s₁, s₂, -, -, -, -, hs₂, hrun⟩ := h
  exact hrun.invariant (I := fun x ↦ x.Holds d id i t ap) (fun _ _ _ _ hb ↦ hb.2) hs₂

/-- It stays there as long as the thread keeps it. -/
theorem Exported.snoc {s₀ : State} {a : Label} {d id i t : Nat} {ap : Apert}
    (h : Exported s₀ as s d id i t ap) (hs : Step s a s') (hh : s'.Holds d id i t ap) :
    Exported s₀ (as ++ [a]) s' d id i t ap := by
  obtain ⟨as₁, b, as₂, s₁, s₂, rfl, hrun₁, hb, hexp, hs₂, hrun⟩ := h
  exact ⟨as₁, b, as₂ ++ [a], s₁, s₂, by simp, hrun₁, hb, hexp, hs₂, hrun.snoc ⟨hs, hh⟩⟩

/-- In every run, an id that is not in use has no apertures, and every aperture in a table is
one that the thread that holds the id has exported. -/
theorem apertures_exported (h : Run Step (State.boot plt sys klog) as s) :
    (∀ d id, ((s.usr d).remths id).Clean) ∧
    ∀ d id, ∀ i < maxUsrdevAperts, ((s.usr d).remths id).apertbl i ≠ ⟨0, 0⟩ →
      ∃ t, Exported (State.boot plt sys klog) as s d id i t
        (((s.usr d).remths id).apertbl i) := by
  induction as using List.reverseRecOn generalizing s with
  | nil =>
      cases h
      exact ⟨fun _ _ _ _ _ ↦ rfl, fun _ _ _ _ hne ↦ absurd rfl hne⟩
  | append_singleton as a ih =>
      obtain ⟨s₁, h₁, h₂⟩ := h.split
      obtain ⟨hclean, hexp⟩ := ih h₁
      cases h₂ with
      | cons hs hnil =>
          cases hnil
          have hdrift := Drift.step (Inv.run h₁) hs
          refine ⟨fun d id ↦ (hdrift d id).clean (hclean d id), fun d id i hi hne ↦ ?_⟩
          rcases (hdrift d id).apert (hclean d id) i hi with h₀ | ⟨huse, ⟨-, hth, hap⟩ | hE⟩
          · exact absurd h₀ hne
          · rw [hap] at hne
            obtain ⟨t, ht⟩ := hexp d id i hi hne
            exact ⟨t, hap ▸ ht.snoc hs ⟨huse, hth.trans ht.holds.th, hap⟩⟩
          · obtain ⟨t, dd, p, w, ph, f, ha, hchk, hg, hid, hth, hu⟩ := hE
            exact ⟨t, as, a, [], s₁, _, by simp, h₁, hs,
              ⟨t, dd, p, w, ph, f, ha, hchk, hg, hid, rfl, hu⟩, ⟨huse, hth, rfl⟩, .nil _⟩

/-- An id that a step takes starts without apertures. -/
theorem apertures_fresh {a : Label} (h : Run Step (State.boot plt sys klog) as s)
    (hs : Step s a s') {d id : Nat} (hidle : ((s.usr d).remths id).use = false) :
    ∀ i < maxUsrdevAperts, ((s'.usr d).remths id).apertbl i = ⟨0, 0⟩ := by
  intro i hi
  have hclean := (apertures_exported h).1 d id
  rcases (Drift.step (Inv.run h) hs d id).apert hclean i hi with h₀ | ⟨-, ⟨hu, -⟩ | hE⟩
  · exact h₀
  · rw [hidle] at hu
    cases hu
  · obtain ⟨t, dd, p, w, ph, f, -, -, -, -, -, hu⟩ := hE
    rw [hidle] at hu
    cases hu

end Mh.Bus
