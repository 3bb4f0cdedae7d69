import Mh.Bus.Held
import Mh.Bus.Rules

/-!
# Calls that map and register nothing

`Still s s'` says that `s'` has the buses, the devices, the entries of the clients, the
mappings and the registrations of `s`.  It is to `Steady` what `Quiet` is to the lists of the
descriptors: most operations of the drivers are still, and the lemmas below say so, one a
driver.
-/

namespace Mh.Bus

open Mh.Lib

/-- `s'` has the buses, devices, entries, mappings and registrations of `s`. -/
structure Still (s s' : State) : Prop where
  devs : s'.devs = s.devs
  dev : s'.dev = s.dev
  ndev : s'.ndev = s.ndev
  hw : ∀ d i, ((s'.hw d).remths i).hwmaps = ((s.hw d).remths i).hwmaps ∧
    ((s'.hw d).remths i).hwsigs = ((s.hw d).remths i).hwsigs
  rems : s'.platformRems = s.platformRems
  io : s'.io = s.io
  reg : ∀ key k, s'.Registered key k ↔ s.Registered key k
  nsig : s'.nsig = s.nsig

namespace Still

variable {s s' s'' : State} {t d id : Nat} {k : Slot}

/-- Nothing happens. -/
theorem refl (s : State) : Still s s :=
  ⟨rfl, rfl, rfl, fun _ _ ↦ ⟨rfl, rfl⟩, rfl, rfl, fun _ _ ↦ Iff.rfl, rfl⟩

/-- One step after another. -/
theorem trans (h : Still s s') (h' : Still s' s'') : Still s s'' where
  devs := h'.devs.trans h.devs
  dev := h'.dev.trans h.dev
  ndev := h'.ndev.trans h.ndev
  hw d i := ⟨(h'.hw d i).1.trans (h.hw d i).1, (h'.hw d i).2.trans (h.hw d i).2⟩
  rems := h'.rems.trans h.rems
  io := h'.io.trans h.io
  reg key k := (h'.reg key k).trans (h.reg key k)
  nsig := h'.nsig.trans h.nsig

/-- The entries are the same. -/
theorem client (h : Still s s') (d i : Nat) : s'.client d i = s.client d i :=
  State.client_congr (by rw [h.dev]) (fun _ ↦ h.hw d i) fun _ ↦ by rw [h.rems]; exact ⟨rfl, rfl⟩

/-- A still step is steady. -/
theorem steady (h : Still s s') : Steady s s' where
  list := by rw [State.lists, State.lists, h.dev]
  devid _ _ := by rw [h.devs]
  kind _ := by rw [h.dev]
  ndev := h.ndev.ge
  use _ := by rw [h.rems]
  clear _ _ := by rw [h.rems]
  held k := State.held_congr (by rw [h.devs]) fun d _ _ ↦ h.client d _
  io := h.io
  reg := h.reg
  nsig := h.nsig

/-- The rest of the state is written. -/
theorem of_eq (hdevs : s'.devs = s.devs) (hdev : s'.dev = s.dev) (hndev : s'.ndev = s.ndev)
    (hhw : s'.hw = s.hw) (hrems : s'.platformRems = s.platformRems) (hio : s'.io = s.io)
    (hirq : s'.irqsigs = s.irqsigs) (hnsig : s'.nsig = s.nsig) : Still s s' :=
  ⟨hdevs, hdev, hndev, fun _ _ ↦ by rw [hhw]; exact ⟨rfl, rfl⟩, hrems, hio,
    fun _ _ ↦ by rw [State.Registered, State.Registered, hirq], hnsig⟩

/-- A user device is written. -/
theorem setUsr (s : State) (d : Nat) (u : Usrdev) : Still s (s.setUsr d u) :=
  of_eq rfl rfl rfl rfl rfl rfl rfl rfl

/-- The identities and alarms of a thread are written. -/
theorem setThread (s : State) (t : Nat) (th : Thread) : Still s (s.setThread t th) :=
  of_eq rfl rfl rfl rfl rfl rfl rfl rfl

/-- The log is written. -/
theorem setKlog (s : State) (l : Klog) : Still s { s with klog := l } :=
  of_eq rfl rfl rfl rfl rfl rfl rfl rfl

/-- An entry of a hardware device is written, with the same lists. -/
theorem setHwRem {r : HwRemth} (hm : r.hwmaps = ((s.hw d).remths id).hwmaps)
    (hs : r.hwsigs = ((s.hw d).remths id).hwsigs) :
    Still s (s.setHw d ((s.hw d).setRem id r)) where
  devs := rfl
  dev := rfl
  ndev := rfl
  hw d' i := by
    rcases eq_or_ne d' d with rfl | hd
    · rw [State.setHw_self]
      rcases eq_or_ne i id with rfl | hne
      · rw [Hwdev.setRem_self]
        exact ⟨hm, hs⟩
      · rw [Hwdev.setRem_of_ne _ hne]
        exact ⟨rfl, rfl⟩
    · rw [State.setHw_of_ne hd]
      exact ⟨rfl, rfl⟩
  rems := rfl
  io := rfl
  reg _ _ := Iff.rfl
  nsig := rfl

/-- The registrations of a line are marked. -/
theorem mark {irq : Nat} {f : Irqsig → Irqsig} (hf : ∀ r, (f r).key = r.key ∧ (f r).via = r.via) :
    Still s { s with irqsigs :=
      Function.update s.irqsigs irq ((s.irqsigs irq).map f) } where
  devs := rfl
  dev := rfl
  ndev := rfl
  hw _ _ := ⟨rfl, rfl⟩
  rems := rfl
  io := rfl
  reg key k := by
    simp only [State.Registered, Function.update_apply]
    constructor
    · rintro ⟨i, r, hr, hkey, hvia⟩
      split at hr
      · obtain ⟨r', hr', rfl⟩ := List.mem_map.1 hr
        exact ⟨irq, r', hr', (hf r').1.symm.trans hkey, (hf r').2.symm.trans hvia⟩
      · exact ⟨i, r, hr, hkey, hvia⟩
    · rintro ⟨i, r, hr, hkey, hvia⟩
      rcases eq_or_ne i irq with rfl | hne
      · refine ⟨i, f r, ?_, (hf r).1.trans hkey, (hf r).2.trans hvia⟩
        rw [if_pos rfl]
        exact List.mem_map_of_mem hr
      · refine ⟨i, r, ?_, hkey, hvia⟩
        rwa [if_neg hne]
  nsig := rfl

/-! ## Drivers -/

/-- `thraise`. -/
theorem thraise {vect : Nat} (h : Still s s') :
    Ends (Still s) Panic.Any (s'.thraise t vect) := by
  unfold State.thraise
  split
  · exact h.trans (of_eq rfl rfl rfl rfl rfl rfl rfl rfl)
  · trivial

/-- A request is inserted. -/
theorem enqueue {ior : Ior} (h : Still s s') :
    Ends (Still s) Panic.Any (s'.enqueue d ior) :=
  (h.trans (setUsr ..)).thraise

/-- What `OP_CALL` reaches in a user device. -/
theorem usrdevOp {q : Req} {x : Except Panic Res} (hx : s.usrdevOp k d id q = some x) :
    Ends (fun r ↦ Still s r.state) Panic.Any x := by
  refine Ends.of_map (Q := Still s) ?_
  generalize hu : x.map Res.state = u
  cases hu ▸ State.usrdevOp_effect hx with
  | same => exact refl s
  | closed => trivial
  | outPort hid hdet hs' => exact hs' ▸ (refl s).enqueue
  | exportVa i | unexportVa i | irqmap hirq => exact setUsr ..

/-- What `OP_CALL` reaches in the system device. -/
theorem sysdevOp {q : Req} {x : Except Panic Res} (hx : s.sysdevOp k q = some x) :
    Ends (fun r ↦ Still s r.state) Panic.Any x := by
  cases q with
  | irqmap irq sig =>
      obtain rfl := Option.some.inj hx
      unfold State.sysdevIrqmap
      split
      · exact setThread ..
      · exact setThread ..
      · exact refl s
  | inPort | outPort | exportVa | iomap | iounmap =>
      obtain rfl := Option.some.inj hx
      exact refl s
  | _ => cases hx

/-- What `OP_CALL` reaches in the log. -/
theorem klogdevOp {q : Req} {x : Except Panic Res} (hx : s.klogdevOp q = some x) :
    Ends (fun r ↦ Still s r.state) Panic.Any x := by
  cases q with
  | outPort port val =>
      obtain rfl := Option.some.inj hx
      unfold State.klogdevOut
      split
      · exact setKlog ..
      · exact setKlog ..
      · exact refl s
  | irqmap irq sig =>
      obtain rfl := Option.some.inj hx
      unfold State.klogdevIrqmap
      split
      · exact setKlog ..
      · exact refl s
  | inPort | exportVa | iomap | iounmap =>
      obtain rfl := Option.some.inj hx
      exact refl s
  | _ => cases hx

/-- `d->ops->open` of a device that keeps no lists. -/
theorem opOpen (hhw : (s.dev d).kind ≠ .hw) (hplt : (s.dev d).kind ≠ .plt) :
    Ends (fun r ↦ Still s r.2) Panic.Any (s.opOpen t d) := by
  unfold State.opOpen
  split
  · unfold State.usrdevOpen
    dsimp only
    split
    · exact refl s
    · split
      · exact setUsr ..
      · exact (setUsr ..).enqueue.map fun _ h ↦ h
  · next h => exact absurd h hhw
  · next h => exact absurd h hplt
  · exact refl s
  · unfold State.klogdevOpen
    split
    · exact refl s
    · exact setKlog ..

/-- `_usrdev_clone`. -/
theorem usrdevClone {nth : Nat} :
    Ends (fun r ↦ Still s r.2) Panic.Any (s.usrdevClone t d id nth) := by
  unfold State.usrdevClone
  dsimp only
  split
  · exact refl s
  · split
    · exact setUsr ..
    · exact (setUsr ..).enqueue.map fun _ h ↦ h

/-- `d->ops->close` of a device that keeps no lists. -/
theorem opClose (hhw : (s.dev d).kind ≠ .hw) (hplt : (s.dev d).kind ≠ .plt) :
    Ends (Still s) Panic.Any (s.opClose t d id) := by
  unfold State.opClose
  split
  · unfold State.usrdevClose
    dsimp only
    split
    · exact setUsr ..
    · exact (setUsr ..).enqueue
  · next h => exact absurd h hhw
  · next h => exact absurd h hplt
  · exact refl s
  · unfold State.klogdevClose
    split
    · trivial
    · exact setKlog ..

/-! ## Other calls and events -/

/-- `usrdev_irq`. -/
theorem usrdevIrq {irq : Nat} :
    Ends (fun r ↦ Still s r.2) Panic.Any (s.usrdevIrq d id irq) :=
  State.ends_usrdevIrq (refl s) trivial fun _ _ ↦ (refl s).thraise

/-- The calls that leave the devices alone. -/
theorem sysCall {c : Call} (hc : c.Plain) : Ends (Still s) Panic.Any (s.sysCall t c) := by
  cases c with
  | raise sint => exact (refl s).thraise
  | setuid n => exact (State.setIds n (refl s) fun th _ _ ↦ setThread s t th).1
  | seteuid n => exact (State.setIds n (refl s) fun th _ _ ↦ setThread s t th).2.1
  | setgid n => exact (State.setIds n (refl s) fun th _ _ ↦ setThread s t th).2.2.1
  | setegid n => exact (State.setIds n (refl s) fun th _ _ ↦ setThread s t th).2.2.2
  | wriospace did id port val =>
      refine (State.ends_withUsrdev (refl s) fun d ↦ ?_).map fun _ h ↦ h
      exact setUsr ..
  | irq did id irq =>
      exact (State.ends_withUsrdev (refl s) fun d ↦ usrdevIrq).map fun _ h ↦ h
  | xcopy did id iova sz va x => exact (State.ends_sysXcopy (refl s)).map fun _ h ↦ h
  | _ => exact hc.elim

/-- `devpoll`. -/
theorem devpoll {did : Nat} : Ends (fun r ↦ Still s r.2.2) Panic.Any (s.devpoll t did) :=
  State.ends_devpoll (refl s) trivial fun _ _ _ ↦ setUsr ..

/-- `irqsignal`. -/
theorem irqsignal {irq : Nat} {level : Bool} :
    Ends (Still s) Panic.Any (s.irqsignal irq level) :=
  State.ends_irqsignal trivial (mark fun _ ↦ ⟨rfl, rfl⟩) fun _ _ _ h₁ ↦ h₁.thraise

/-- The other events. -/
theorem events (s : State) (t sig : Nat) : Ends (Still s) Panic.Any (s.timerFire t sig) ∧
    Ends (Still s) Panic.Any s.klogdevRaiseAvl :=
  ⟨State.ends_timerFire (refl s) (refl s).thraise,
    State.ends_klogdevRaiseAvl trivial (setKlog ..) fun _ ↦ (setKlog ..).thraise⟩

end Still

end Mh.Bus
