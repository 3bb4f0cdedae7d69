import Mh.Bus.Rules

/-!
# The numbers of the signals

`thraise` asserts that the signal is in range.  The numbers it is given are the argument of
`SYS_RAISE`, `INTR_CHILD`, and the ones that a device, a client table, an interrupt line, a
timer or the log has stored earlier.  `SInv` says that the stored numbers are in range; the
calls that store one keep it where they are given a number in range (`State.SignalSafe`),
and in runs of such calls the assertion never fails (`signals_in_range`).
-/

namespace Mh.Bus

open Mh.Lib

/-- The stored signal numbers are in range: of the requests of user devices, of the
interrupts of their clients, of the registrations on interrupt lines, of the alarms of the
threads, and of the log.  Where a 0 stands for no signal, the number is stored plus 1. -/
structure SInv (s : State) : Prop where
  dev : ∀ d, (s.usr d).sig < maxSignals
  map : ∀ d i irq, ((s.usr d).remths i).irqmap irq ≤ maxSignals
  reg : ∀ irq, ∀ r ∈ s.irqsigs irq, r.sig < maxSignals
  alarm : ∀ t, (s.thread t).rttSig ≤ maxSignals ∧ (s.thread t).vttSig ≤ maxSignals
  log : s.klog.sig < maxSignals

/-- The failures but that of the assertion of `thraise`. -/
def Panic.Other (e : Panic) : Prop := e ≠ .signal

namespace State

variable (s : State)

/-- The number that the thread `t` maps to the interrupt `irq` of its descriptor `dd` is in
range, if the device stores it. -/
def IrqmapSafe (t dd irq sig : Nat) : Prop :=
  ∀ d, s.busGetDev t dd = .ok (.inr d) →
    match (s.dev d).kind with
    | .usr => irq < irqmapSz → w32 (sig + 1) ≤ maxSignals
    | .hw => ((s.hw d).cfg.irqsegs.any fun g ↦ g.has irq) → irq < maxIrqs → sig < maxSignals
    | .plt => irq < maxIrqs → sig < maxSignals
    | .sys => irq < 2 → w32 (sig + 1) ≤ maxSignals
    | .klog => irq = 0 → sig < maxSignals

/-- The label raises or stores no signal out of range. -/
def SignalSafe : Label → Prop
  | .call _ (.raise sint) => sint < maxSignals
  | .call t (.creat nameid _ sig _) => sig = maxSignals →
    (∀ i < maxDevs, (s.usrdevs (t, i)).isSome) ∨ (s.tree nameid).isSome
  | .call t (.req dd (.irqmap irq sig)) => s.IrqmapSafe t dd irq sig
  | _ => True

end State

namespace SInv

variable {s : State} {t d id : Nat} {k : Slot}

/-- A signal in range is raised. -/
theorem thraise {vect : Nat} (h : SInv s) (hv : vect < maxSignals) :
    Ends SInv Panic.Other (s.thraise t vect) := by
  rw [State.thraise, if_pos hv]
  exact ⟨h.dev, h.map, h.reg, h.alarm, h.log⟩

/-- A user device is written. -/
theorem setUsr {u : Usrdev} (h : SInv s) (hsig : u.sig = (s.usr d).sig)
    (hmap : ∀ i irq, (u.remths i).irqmap irq ≤ maxSignals) : SInv (s.setUsr d u) where
  dev d' := by
    rcases eq_or_ne d' d with rfl | hne
    · rw [State.setUsr_self, hsig]
      exact h.dev d'
    · rw [State.setUsr_of_ne hne]
      exact h.dev d'
  map d' := by
    rcases eq_or_ne d' d with rfl | hne
    · rw [State.setUsr_self]
      exact hmap
    · rw [State.setUsr_of_ne hne]
      exact h.map d'
  reg := h.reg
  alarm := h.alarm
  log := h.log

/-- An entry of a client table is written. -/
theorem setRem {r : Remth} (h : SInv s) (hr : ∀ irq, r.irqmap irq ≤ maxSignals) :
    SInv (s.setUsr d ((s.usr d).setRem id r)) := by
  refine h.setUsr rfl fun i irq ↦ ?_
  rcases eq_or_ne i id with rfl | hne
  · rw [Usrdev.setRem_self]
    exact hr irq
  · rw [Usrdev.setRem_of_ne _ hne]
    exact h.map d i irq

/-- What is written elsewhere. -/
theorem congr {s' : State} (h : SInv s) (hu : s'.usr = s.usr) (hi : s'.irqsigs = s.irqsigs)
    (ht : s'.thread = s.thread) (hk : s'.klog = s.klog) : SInv s' where
  dev := by rw [hu]; exact h.dev
  map := by rw [hu]; exact h.map
  reg := by rw [hi]; exact h.reg
  alarm := by rw [ht]; exact h.alarm
  log := by rw [hk]; exact h.log

/-- The registrations of the lines change, with signals in range. -/
theorem irqsigs {f : Nat → List Irqsig} {n : Nat} (h : SInv s)
    (hf : ∀ irq, ∀ r ∈ f irq, r.sig < maxSignals) :
    SInv { s with irqsigs := f, nsig := n } :=
  ⟨h.dev, h.map, hf, h.alarm, h.log⟩

/-! ## User devices -/

/-- A request is inserted. -/
theorem enqueue {ior : Ior} (h : SInv s) : Ends SInv Panic.Other (s.enqueue d ior) :=
  thraise (s := s.setUsr d ((s.usr d).push ior)) (h.setUsr rfl (h.map d)) (h.dev d)

/-- `_usrdev_open`. -/
theorem usrdevOpen (h : SInv s) :
    Ends (fun r ↦ SInv r.2) Panic.Other (s.usrdevOpen t d) := by
  unfold State.usrdevOpen
  dsimp only
  split
  · exact h
  · next i hi =>
    have h₁ : SInv (s.setUsr d ((s.usr d).setRem i
        { (s.usr d).remths i with use := true, th := some t })) := h.setRem (h.map d i)
    split
    · exact h₁
    · exact h₁.enqueue.map fun _ h ↦ h

/-- `_usrdev_clone`. -/
theorem usrdevClone {nth : Nat} (h : SInv s) :
    Ends (fun r ↦ SInv r.2) Panic.Other (s.usrdevClone t d id nth) := by
  unfold State.usrdevClone
  dsimp only
  split
  · exact h
  · next i hi =>
    have h₁ : SInv (s.setUsr d ((s.usr d).setRem i { (s.usr d).remths i with
        use := true, th := some nth
        iospace := ((s.usr d).remths id).iospace
        irqmap := ((s.usr d).remths id).irqmap })) := h.setRem (h.map d id)
    split
    · exact h₁
    · exact h₁.enqueue.map fun _ h ↦ h

/-- `_usrdev_close`. -/
theorem usrdevClose (h : SInv s) : Ends SInv Panic.Other (s.usrdevClose t d id) := by
  unfold State.usrdevClose
  dsimp only
  have h₁ : SInv (s.setUsr d ((s.usr d).setRem id { (s.usr d).remths id with
      use := false, apertbl := fun i ↦
        if i < maxUsrdevAperts then ⟨0, 0⟩ else ((s.usr d).remths id).apertbl i })) :=
    h.setRem (h.map d id)
  split
  · exact h₁
  · exact h₁.enqueue

/-- What `OP_CALL` reaches. -/
theorem usrdevOp {q : Req} {x : Except Panic Res} (h : SInv s)
    (hq : ∀ irq sig, q = .irqmap irq sig → irq < irqmapSz → w32 (sig + 1) ≤ maxSignals)
    (hx : s.usrdevOp k d id q = some x) : Ends (fun r ↦ SInv r.state) Panic.Other x := by
  refine Ends.of_map (Q := SInv) ?_
  generalize hu : x.map Res.state = u
  cases hu ▸ State.usrdevOp_effect hx with
  | same => exact h
  | closed => exact Panic.noConfusion
  | outPort hid hdet hs' => exact hs' ▸ h.enqueue
  | exportVa i => exact h.setRem (h.map d id)
  | unexportVa i => exact h.setRem (h.map d id)
  | @irqmap irq sig hirq =>
      refine h.setRem fun irq' ↦ ?_
      change Function.update ((s.usr d).remths id).irqmap irq (w32 (sig + 1)) irq' ≤ _
      rw [Function.update_apply]
      split
      · exact hq irq sig rfl hirq
      · exact h.map d id irq'

/-! ## The other devices -/

/-- `irqregister`, of a signal in range. -/
theorem irqregister {irq sig : Nat} {s' : State} (h : SInv s)
    (hsig : irq < maxIrqs → sig < maxSignals) (hr : s.irqregister k irq sig = some s') :
    SInv s' := by
  unfold State.irqregister at hr
  split at hr
  · next hirq =>
    obtain rfl := Option.some.inj hr
    refine h.irqsigs fun i r hr ↦ ?_
    rw [Function.update_apply] at hr
    split at hr
    · rcases List.mem_cons.1 hr with rfl | hr
      · exact hsig hirq
      · exact h.reg irq r hr
    · exact h.reg i r hr
  · cases hr

/-- `irqunregister`. -/
theorem irqunregister (h : SInv s) (key : Nat) : SInv (s.irqunregister key) :=
  h.irqsigs fun irq r hr ↦ h.reg irq r (List.mem_filter.1 hr).1

/-- `irqeoi`. -/
theorem irqeoi {irq : Nat} (h : SInv s) : Ends SInv Panic.Other (s.irqeoi irq) := by
  unfold State.irqeoi
  split
  · refine h.irqsigs fun i r hr ↦ ?_
    rw [Function.update_apply] at hr
    split at hr
    · obtain ⟨r', hr', rfl⟩ := List.mem_map.1 hr
      exact h.reg irq r' hr'
    · exact h.reg i r hr
  · exact Panic.noConfusion

/-- `iomap`. -/
theorem iomap {va pfn : Nat} {pg : Page} (h : SInv s) : SInv (s.iomap k va pfn pg).2 := by
  unfold State.iomap
  split
  · exact h
  · split
    · exact h
    · exact h.congr rfl rfl rfl rfl

/-- What the loops of `_hwdev_close` and `_pltdev_close` leave. -/
theorem closed {maps sigs : List Nat} (h : SInv s) : SInv (sigs.foldl (fun s key ↦
    s.irqunregister key) (maps.foldl (fun s va ↦ s.iounmap t va) s)) := by
  have h₁ : SInv (maps.foldl (fun s va ↦ s.iounmap t va) s) :=
    List.foldlRecOn maps _ h fun s h va _ ↦ h.congr rfl rfl rfl rfl
  exact List.foldlRecOn sigs _ h₁ fun s h key _ ↦ h.irqunregister key

/-- A hardware device is written. -/
theorem setHw {v : Hwdev} (h : SInv s) : SInv (s.setHw d v) := h.congr rfl rfl rfl rfl

/-- A client of the platform device is written. -/
theorem setPlt {v : PltRem} (h : SInv s) : SInv (s.setPlt id v) := h.congr rfl rfl rfl rfl

/-- What `OP_CALL` reaches in a hardware device. -/
theorem hwdevOp {q : Req} {x : Except Panic Res} (h : SInv s)
    (hq : ∀ irq sig, q = .irqmap irq sig → ((s.hw d).cfg.irqsegs.any fun g ↦ g.has irq) →
      irq < maxIrqs → sig < maxSignals)
    (hx : s.hwdevOp k d id q = some x) : Ends (fun r ↦ SInv r.state) Panic.Other x := by
  refine Ends.of_map (Q := SInv) ?_
  generalize hu : x.map Res.state = u
  cases hu ▸ State.hwdevOp_effect hx with
  | same => exact h
  | hwdmas l => exact h.setHw
  | failed hneg => exact h.iomap
  | iomap hs' hneg =>
      subst hs'
      exact h.iomap.setHw
  | iounmap hva => exact h.congr rfl rfl rfl rfl
  | closed => exact Panic.noConfusion
  | irqmap hseg hs₁ => exact (h.irqregister (hq _ _ rfl hseg) hs₁).setHw
  | eoi heoi => exact heoi ▸ h.irqeoi

/-- What `OP_CALL` reaches in the platform device. -/
theorem pltdevOp {q : Req} {x : Except Panic Res} (h : SInv s)
    (hq : ∀ irq sig, q = .irqmap irq sig → irq < maxIrqs → sig < maxSignals)
    (hx : s.pltdevOp k id q = some x) : Ends (fun r ↦ SInv r.state) Panic.Other x := by
  refine Ends.of_map (Q := SInv) ?_
  generalize hu : x.map Res.state = u
  cases hu ▸ State.pltdevOp_effect hx with
  | same => exact h
  | failed hneg => exact h.iomap
  | iomap hs' hneg =>
      subst hs'
      exact h.iomap.setPlt
  | iounmap hva => exact h.congr rfl rfl rfl rfl
  | closed => exact Panic.noConfusion
  | irqmap hs₁ => exact (h.irqregister (hq _ _ rfl) hs₁).setPlt

/-- What `OP_CALL` reaches in the system device. -/
theorem sysdevOp {q : Req} {x : Except Panic Res} (h : SInv s)
    (hq : ∀ irq sig, q = .irqmap irq sig → irq < 2 → w32 (sig + 1) ≤ maxSignals)
    (hx : s.sysdevOp k q = some x) : Ends (fun r ↦ SInv r.state) Panic.Other x := by
  cases q with
  | irqmap irq sig =>
      obtain rfl := Option.some.inj hx
      have hset : ∀ th : Thread, th.rttSig ≤ maxSignals ∧ th.vttSig ≤ maxSignals →
          SInv (s.setThread k.1 th) := by
        refine fun th hth ↦ ⟨h.dev, h.map, h.reg, fun t ↦ ?_, h.log⟩
        change (Function.update s.thread k.1 th t).rttSig ≤ _ ∧
          (Function.update s.thread k.1 th t).vttSig ≤ _
        rw [Function.update_apply]
        split
        · exact hth
        · exact h.alarm t
      unfold State.sysdevIrqmap
      split
      · exact hset _ ⟨hq 0 sig rfl (by decide), (h.alarm k.1).2⟩
      · exact hset _ ⟨(h.alarm k.1).1, hq 1 sig rfl (by decide)⟩
      · exact h
  | inPort | outPort | exportVa | iomap | iounmap =>
      obtain rfl := Option.some.inj hx
      exact h
  | _ => cases hx

/-- The log is written. -/
theorem setKlog {l : Klog} (h : SInv s) (hl : l.sig < maxSignals) :
    SInv { s with klog := l } :=
  ⟨h.dev, h.map, h.reg, h.alarm, hl⟩

/-- What `OP_CALL` reaches in the log. -/
theorem klogdevOp {q : Req} {x : Except Panic Res} (h : SInv s)
    (hq : ∀ irq sig, q = .irqmap irq sig → irq = 0 → sig < maxSignals)
    (hx : s.klogdevOp q = some x) : Ends (fun r ↦ SInv r.state) Panic.Other x := by
  cases q with
  | outPort port val =>
      obtain rfl := Option.some.inj hx
      unfold State.klogdevOut
      split
      · exact h.setKlog h.log
      · exact h.setKlog h.log
      · exact h
  | irqmap irq sig =>
      obtain rfl := Option.some.inj hx
      unfold State.klogdevIrqmap
      split
      · exact h.setKlog (hq 0 sig rfl rfl)
      · exact h
  | inPort | exportVa | iomap | iounmap =>
      obtain rfl := Option.some.inj hx
      exact h
  | _ => cases hx

/-! ## The bus -/

/-- `d->ops->open`. -/
theorem opOpen (h : SInv s) : Ends (fun r ↦ SInv r.2) Panic.Other (s.opOpen t d) := by
  unfold State.opOpen
  split
  · exact h.usrdevOpen
  · unfold State.hwdevOpen
    split
    · exact h
    · exact h.setHw
  · unfold State.pltdevOpen
    split
    · exact h
    · exact h.setPlt
  · exact h
  · unfold State.klogdevOpen
    split
    · exact h
    · exact h.setKlog (show 0 < maxSignals by decide)

/-- `d->ops->close`. -/
theorem opClose (h : SInv s) : Ends SInv Panic.Other (s.opClose t d id) := by
  unfold State.opClose
  split
  · exact h.usrdevClose
  · unfold State.hwdevClose
    dsimp only
    split
    · exact Panic.noConfusion
    · exact h.closed.setHw
  · unfold State.pltdevClose
    dsimp only
    split
    · exact Panic.noConfusion
    · exact h.closed.setPlt
  · exact h
  · unfold State.klogdevClose
    split
    · exact Panic.noConfusion
    · exact h.setKlog (show 0 < maxSignals by decide)

/-- `bus_plug`. -/
theorem busPlug {did : Nat} (h : SInv s) :
    Ends (fun r ↦ SInv r.2) Panic.Other (s.busPlug t did) :=
  State.ends_busPlug h (fun _ ↦ h.opOpen) fun _ _ _ _ h₁ ↦ h₁.congr rfl rfl rfl rfl

/-- `bus_copy`. -/
theorem busCopy {desc nth : Nat} (h : SInv s) :
    Ends (fun r ↦ SInv r.2) Panic.Other (s.busCopy t desc nth) :=
  State.ends_busCopy h Panic.noConfusion (fun _ _ ↦ h.usrdevClone)
    fun _ _ _ _ h₁ ↦ h₁.congr rfl rfl rfl rfl

/-- `bus_unplug`. -/
theorem busUnplug {desc : Nat} (h : SInv s) :
    Ends (fun r ↦ SInv r.2) Panic.Other (s.busUnplug t desc) :=
  State.ends_busUnplug h Panic.noConfusion (fun _ _ ↦ h.opClose)
    (fun _ _ _ h₁ ↦ h₁.congr rfl rfl rfl rfl) fun _ _ _ h₁ ↦ h₁.congr rfl rfl rfl rfl

/-- `OP_CALL`, of a request that stores no number out of range. -/
theorem opCall {dd : Nat} {q : Req} (h : SInv s)
    (hq : ∀ irq sig, q = .irqmap irq sig → s.IrqmapSafe t dd irq sig) :
    Ends (fun r ↦ SInv r.2.2) Panic.Other (s.opCall t dd q) := by
  have hget : Ends (fun g ↦ s.busGetDev t dd = .ok g) Panic.Other (s.busGetDev t dd) := by
    refine .self fun e he ↦ ?_
    unfold State.busGetDev at he
    split at he
    · cases he
    · dsimp only at he
      split at he
      · cases he
      · split at he
        · cases he
          exact Panic.noConfusion
        · split at he <;> cases he
  refine hget.bind fun g hg ↦ ?_
  cases g with
  | inl ret => exact h
  | inr d =>
      dsimp only
      split
      · exact h
      · next x hx =>
        refine Ends.map (P := fun r : Res ↦ SInv r.state) ?_ fun _ h ↦ h
        unfold State.op at hx
        have hq' := fun irq sig he ↦ hq irq sig he d hg
        split at hx
        · next hk =>
          simp only [hk] at hq'
          exact h.usrdevOp hq' hx
        · next hk =>
          simp only [hk] at hq'
          exact h.hwdevOp hq' hx
        · next hk =>
          simp only [hk] at hq'
          exact h.pltdevOp hq' hx
        · next hk =>
          simp only [hk] at hq'
          exact h.sysdevOp hq' hx
        · next hk =>
          simp only [hk] at hq'
          exact h.klogdevOp hq' hx

/-! ## Devices -/

/-- `devremove`. -/
theorem devremove {did : Nat} (h : SInv s) : Ends SInv Panic.Other (s.devremove t did) := by
  unfold State.devremove
  split
  · exact h
  · next d hd =>
    have hdet : Ends SInv Panic.Other
        ((s.setUsr d { s.usr d with detaching := true }).devDetach t d) := by
      refine Ends.foldlM (fun s₁ k _ h₁ ↦ ?_) ?_
      · exact h₁.opClose.bind fun s₂ h₂ ↦ h₂.congr rfl rfl rfl rfl
      · have h₁ : SInv (s.setUsr d { s.usr d with detaching := true }) := h.setUsr rfl (h.map d)
        exact h₁.congr rfl rfl rfl rfl
    refine Ends.map (P := SInv) ?_ fun s₂ h₂ ↦ h₂.congr rfl rfl rfl rfl
    exact hdet.bind fun s₁ h₁ ↦ h₁.setUsr rfl (h₁.map d)

/-- `devcreat`, with a signal in range if it comes to store it. -/
theorem devcreat {nameid sig mode : Nat} {cfg : UsrdevCfg} (h : SInv s)
    (hs : s.SignalSafe (.call t (.creat nameid cfg sig mode))) :
    SInv (s.devcreat t nameid cfg sig mode).2 := by
  obtain heq | ⟨i, s₂, hsig, hi, ha, heq⟩ := s.devcreat_cases t nameid cfg sig mode
  · rw [heq]
    exact h
  · rw [heq]
    obtain ⟨hfree, rfl⟩ := State.devAttach_ok ha
    have hlt : sig < maxSignals := by
      refine lt_of_le_of_ne hsig fun he ↦ ?_
      rcases hs he with hs | hs
      · have hnone := List.find?_some hi
        have := hs i (List.mem_range.1 (List.mem_of_find?_eq_some hi))
        rw [Option.isNone_iff_eq_none.1 hnone] at this
        cases this
      · change s.tree nameid = none at hfree
        rw [hfree] at hs
        cases hs
    refine ⟨fun d ↦ ?_, fun d i irq ↦ ?_, h.reg, h.alarm, h.log⟩
    · change (Function.update s.usr s.ndev _ d).sig < _
      rw [Function.update_apply]
      split
      · exact hlt
      · exact h.dev d
    · change ((Function.update s.usr s.ndev _ d).remths i).irqmap irq ≤ _
      rw [Function.update_apply]
      split
      · exact Nat.zero_le _
      · exact h.map d i irq

/-- `sys_hwcreat`. -/
theorem sysHwcreat {nameid mode : Nat} {cfg : HwdevCfg} (h : SInv s) :
    SInv (s.sysHwcreat t nameid cfg mode).2 := by
  obtain heq | ⟨s₁, ha, heq⟩ := s.sysHwcreat_cases t nameid cfg mode
  · rw [heq]
    exact h
  · rw [heq]
    obtain ⟨-, rfl⟩ := State.devAttach_ok ha
    exact h.congr rfl rfl rfl rfl

/-- `devpoll`. -/
theorem devpoll {did : Nat} (h : SInv s) :
    Ends (fun r ↦ SInv r.2.2) Panic.Other (s.devpoll t did) :=
  State.ends_devpoll h Panic.noConfusion fun d _ _ ↦ h.setUsr rfl (h.map d)

/-- `usrdev_irq`: the number in the client table is in range. -/
theorem usrdevIrq {irq : Nat} (h : SInv s) :
    Ends (fun r ↦ SInv r.2) Panic.Other (s.usrdevIrq d id irq) := by
  refine State.ends_usrdevIrq h Panic.noConfusion fun th hmap ↦ h.thraise ?_
  have := h.map d id irq
  omega

/-! ## System calls on descriptors -/

/-- Requests that store no number. -/
theorem opCall_other {dd : Nat} {q : Req} (h : SInv s) (hq : ∀ irq sig, q ≠ .irqmap irq sig) :
    Ends (fun r ↦ SInv r.2.2) Panic.Other (s.opCall t dd q) :=
  h.opCall fun irq sig he ↦ absurd he (hq irq sig)

/-- `sys_in`. -/
theorem sysIn {dd port hw valptr : Nat} {fault : Bool} (h : SInv s) :
    Ends (fun r ↦ SInv r.state) Panic.Other (s.sysIn t dd port hw valptr fault) :=
  State.ends_sysIn h (h.opCall_other fun _ _ ↦ Req.noConfusion)

/-- `sys_rdcfg`. -/
theorem sysRdcfg {dd off sz valptr : Nat} {fault : Bool} (h : SInv s) :
    Ends (fun r ↦ SInv r.state) Panic.Other (s.sysRdcfg t dd off sz valptr fault) :=
  State.ends_sysRdcfg h (h.opCall_other fun _ _ ↦ Req.noConfusion)

/-- `sys_export`. -/
theorem sysExport {dd va sz iovaptr : Nat} {wire : Int} {phys : Option Nat} {fault : Bool}
    (h : SInv s) :
    Ends (fun r ↦ SInv r.state) Panic.Other (s.sysExport t dd va sz iovaptr wire phys fault) :=
  State.ends_sysExport h (fun _ ↦ h.opCall_other fun _ _ ↦ Req.noConfusion)
    fun _ h₁ ↦ h₁.opCall_other fun _ _ ↦ Req.noConfusion

/-- The calls that hand the result of the bus back. -/
theorem sysReq {dd : Nat} {q : Req} (h : SInv s)
    (hq : ∀ irq sig, q = .irqmap irq sig → s.IrqmapSafe t dd irq sig) :
    Ends (fun r ↦ SInv r.state) Panic.Other (s.sysReq t dd q) :=
  State.ends_sysReq h fun _ ↦ h.opCall hq

/-! ## Threads and interrupts -/

/-- `thfork`: the new thread has no alarms. -/
theorem thfork (h : SInv s) : Ends SInv Panic.Other (s.thfork t) := by
  refine Ends.foldlM (fun s₁ desc _ h₁ ↦ h₁.busCopy.map fun _ h ↦ h) ?_
  refine ⟨h.dev, h.map, h.reg, fun c ↦ ?_, h.log⟩
  change (Function.update s.thread s.next _ c).rttSig ≤ _ ∧
    (Function.update s.thread s.next _ c).vttSig ≤ _
  rw [Function.update_apply]
  split
  · exact ⟨Nat.zero_le _, Nat.zero_le _⟩
  · exact h.alarm c

/-- `INTR_CHILD` is in range. -/
theorem thraise_child (h : SInv s) : Ends SInv Panic.Other (s.thraise t intrChild) :=
  h.thraise (by decide)

/-- `__exit`. -/
theorem exit (h : SInv s) : Ends SInv Panic.Other (s.exit t) := by
  unfold State.exit
  split
  · exact Panic.noConfusion
  · have hrem : Ends SInv Panic.Other (s.busRemove t) :=
      Ends.foldlM (fun s₁ desc _ h₁ ↦ h₁.busUnplug.map fun _ h ↦ h) h
    refine hrem.bind fun s₁ h₁ ↦ ?_
    refine (Ends.foldlM (fun s₂ did _ h₂ ↦ h₂.devremove) h₁).bind fun s₂ h₂ ↦ ?_
    exact thraise_child (h₂.congr rfl rfl rfl rfl)

/-- `do_zombie`. -/
theorem doZombie {c : Nat} (h : SInv s) : Ends SInv Panic.Other (s.doZombie c) := by
  unfold State.doZombie
  split
  · exact Panic.noConfusion
  · exact thraise_child (h.congr rfl rfl rfl rfl)

/-- `childstat`. -/
theorem childstat (h : SInv s) : SInv (s.childstat t).2 := by
  unfold State.childstat
  split
  · exact h
  · exact h.congr rfl rfl rfl rfl

/-- `irqsignal`: the numbers of the registrations are in range. -/
theorem irqsignal {irq : Nat} {level : Bool} (h : SInv s) :
    Ends SInv Panic.Other (s.irqsignal irq level) := by
  refine State.ends_irqsignal Panic.noConfusion ?_ fun s₁ r hr h₁ ↦ h₁.thraise (h.reg irq r hr)
  refine h.irqsigs fun i r hr ↦ ?_
  rw [Function.update_apply] at hr
  split at hr
  · obtain ⟨r', hr', rfl⟩ := List.mem_map.1 hr
    exact h.reg irq r' hr'
  · exact h.reg i r hr

/-- A timer with a number in range. -/
theorem timerFire {sig : Nat} (h : SInv s) (hsig : sig ≤ maxSignals) :
    Ends SInv Panic.Other (s.timerFire t sig) := by
  unfold State.timerFire
  split
  · exact h.thraise (by omega)
  · exact h

/-- `__klogdev_raise_avl`. -/
theorem klogdevRaiseAvl (h : SInv s) : Ends SInv Panic.Other s.klogdevRaiseAvl := by
  have h₁ : SInv { s with klog := { s.klog with isr := true } } := h.setKlog h.log
  exact State.ends_klogdevRaiseAvl Panic.noConfusion h₁ fun _ ↦ h₁.thraise h.log

/-- The identities of a thread change. -/
theorem setThread {th : Thread} (h : SInv s)
    (hth : th.rttSig = (s.thread t).rttSig ∧ th.vttSig = (s.thread t).vttSig) :
    SInv (s.setThread t th) := by
  refine ⟨h.dev, h.map, h.reg, fun t' ↦ ?_, h.log⟩
  change (Function.update s.thread t th t').rttSig ≤ _ ∧
    (Function.update s.thread t th t').vttSig ≤ _
  rw [Function.update_apply]
  split
  · rw [hth.1, hth.2]
    exact h.alarm t
  · exact h.alarm t'

/-! ## Steps and runs -/

/-- The calls that change the identities of a thread keep its alarms. -/
theorem setIds (h : SInv s) (n : Nat) : SInv (s.sysSetuid t n).2 ∧ SInv (s.sysSeteuid t n).2 ∧
    SInv (s.sysSetgid t n).2 ∧ SInv (s.sysSetegid t n).2 :=
  State.setIds n h fun _ hr hv ↦ h.setThread ⟨hr, hv⟩

/-- A call that meets the condition. -/
theorem sysCall {c : Call} (h : SInv s) (hc : s.SignalSafe (.call t c)) :
    Ends SInv Panic.Other (s.sysCall t c) := by
  cases c with
  | raise sint => exact h.thraise hc
  | fork => exact h.thfork
  | die => exact h.exit
  | childstat => exact h.childstat
  | setuid n => exact (h.setIds n).1
  | seteuid n => exact (h.setIds n).2.1
  | setgid n => exact (h.setIds n).2.2.1
  | setegid n => exact (h.setIds n).2.2.2
  | creat nameid cfg sig mode => exact h.devcreat hc
  | poll did => exact h.devpoll.map fun _ h ↦ h
  | wriospace did id port val =>
      refine (State.ends_withUsrdev h fun d ↦ ?_).map fun _ h ↦ h
      exact h.setRem (h.map d id)
  | irq did id irq =>
      exact (State.ends_withUsrdev h fun d ↦ h.usrdevIrq).map fun _ h ↦ h
  | xcopy did id iova sz va x => exact (State.ends_sysXcopy h).map fun _ h ↦ h
  | hwcreat nameid cfg mode => exact h.sysHwcreat
  | openDev did => exact h.busPlug.map fun _ h ↦ h
  | closeDev dd => exact h.busUnplug.map fun _ h ↦ h
  | inDev dd port hw valptr fault => exact h.sysIn.map fun _ h ↦ h
  | rdcfg dd off sz valptr fault => exact h.sysRdcfg.map fun _ h ↦ h
  | exportDev dd va sz iovaptr wire phys fault => exact h.sysExport.map fun _ h ↦ h
  | req dd q =>
      refine (h.sysReq fun irq sig he ↦ ?_).map fun _ h ↦ h
      subst he
      exact hc

/-- A label that meets the condition. -/
theorem exec {a : Label} (h : SInv s) (ha : s.SignalSafe a) :
    Ends SInv Panic.Other (s.exec a) := by
  cases a with
  | call t c => exact h.sysCall ha
  | zombie c => exact h.doZombie
  | irq irq level => exact h.irqsignal
  | timer t vtt =>
      refine h.timerFire ?_
      split
      · exact (h.alarm t).2
      · exact (h.alarm t).1
  | putc => exact h.klogdevRaiseAvl

/-- No number is stored at the start. -/
theorem boot (plt sys klog : Nat) : SInv (State.boot plt sys klog) :=
  ⟨fun _ ↦ (by decide : 0 < maxSignals), fun _ _ _ ↦ Nat.zero_le _,
    fun _ _ hr ↦ absurd hr List.not_mem_nil, fun _ ↦ ⟨Nat.zero_le _, Nat.zero_le _⟩,
    (by decide : 0 < maxSignals)⟩

end SInv

/-- A step that raises or stores no signal out of range. -/
def SignalStep (s : State) (a : Label) (s' : State) : Prop := s.SignalSafe a ∧ Step s a s'

/-- After a run of steps that raise and store no signal out of range, whatever call, device
interrupt, alarm or output to the log meets that condition too, the assertion of `thraise`
does not fail in it. -/
theorem signals_in_range {plt sys klog : Nat} {as : List Label} {s : State} {a : Label}
    (h : Run SignalStep (State.boot plt sys klog) as s) (ha : s.SignalSafe a) :
    s.exec a ≠ .error .signal := by
  have hs : SInv s :=
    Run.invariant (fun _ _ _ hi hs ↦ (hi.exec hs.1).of_ok hs.2.2) h (.boot plt sys klog)
  exact fun he ↦ (hs.exec ha).of_error he rfl

/-- `init` creates a user device with the last signal, and opens it. -/
theorem signals_in_range_creat : ∃ s, Run SignalStep (State.boot 1 2 3)
      [.call 1 (.creat 7 ⟨0, 0, 0, fun _ ↦ 0⟩ 31 0o100)] s ∧
    s.exec (.call 1 (.openDev 7)) ≠ .error .signal := by
  have h : Run SignalStep (State.boot 1 2 3)
      [.call 1 (.creat 7 ⟨0, 0, 0, fun _ ↦ 0⟩ 31 0o100)] _ :=
    .cons ⟨fun he ↦ absurd he (by decide), rfl, rfl⟩ (.nil _)
  exact ⟨_, h, signals_in_range h trivial⟩

/-- A thread without privileges raises the signal 32.  And `SYS_CREAT` takes 32 for the signal
of the requests of a device; the assertion fails when the device is opened. -/
theorem signal_out_of_range : (∃ s, Run Step (State.boot 1 2 3)
      [.call 1 .fork, .call 2 (.setuid 5)] s ∧ (s.thread 2).euid = 5 ∧
      s.enabled (.call 2 (.raise 32)) ∧ s.exec (.call 2 (.raise 32)) = .error .signal) ∧
    ∃ s, Run Step (State.boot 1 2 3) [.call 1 (.creat 7 ⟨0, 0, 0, fun _ ↦ 0⟩ 32 0o100)] s ∧
      s.enabled (.call 1 (.openDev 7)) ∧ s.exec (.call 1 (.openDev 7)) = .error .signal := by
  constructor
  · have h : Run Step (State.boot 1 2 3) [.call 1 .fork, .call 2 (.setuid 5)] _ :=
      .cons ⟨rfl, rfl⟩ (.cons ⟨rfl, rfl⟩ (.nil _))
    exact ⟨_, h, rfl, rfl, rfl⟩
  · have h : Run Step (State.boot 1 2 3) [.call 1 (.creat 7 ⟨0, 0, 0, fun _ ↦ 0⟩ 32 0o100)] _ :=
      .cons ⟨rfl, rfl⟩ (.nil _)
    exact ⟨_, h, rfl, rfl⟩

end Mh.Bus
