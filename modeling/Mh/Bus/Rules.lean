import Mh.Bus.Calls
import Mh.Lib.Outcome

/-!
# Rules for the system calls

What a system call or an event keeps, if it is kept by the writes and the signals that it may come
to: `P` is any predicate of states, and `E` the panics that are allowed.
-/

namespace Mh.Bus

open Mh.Lib

/-- No failure is excluded. -/
def Panic.Any (_ : Panic) : Prop := True

namespace State

variable {P : State → Prop} {E : Panic → Prop} {s : State} {t d did id irq : Nat}

/-- `usrdev_read` and `usrdev_write` leave the devices alone. -/
theorem usrdevXcopy_snd (s : State) (d id iova sz : Nat) (x : Int) :
    (s.usrdevXcopy d id iova sz x).2 = s := by
  unfold usrdevXcopy
  split
  · rfl
  · split
    · rfl
    · split <;> rfl

/-- The calls on the devices that a thread has created. -/
theorem ends_withUsrdev {f : Nat → Except Panic (Int × State)} (h : P s)
    (hf : ∀ d, Ends (fun r ↦ P r.2) E (f d)) :
    Ends (fun r ↦ P r.2) E (s.withUsrdev t did f) := by
  unfold withUsrdev
  split
  · exact h
  · split
    · exact h
    · exact hf _

/-- `sys_read` and `sys_write`. -/
theorem ends_sysXcopy {iova sz va : Nat} {x : Int} (h : P s) :
    Ends (fun r ↦ P r.2) E (s.sysXcopy t did id iova sz va x) := by
  unfold sysXcopy
  split
  · exact h
  · refine ends_withUsrdev h fun d ↦ ?_
    change P (s.usrdevXcopy d id iova sz x).2
    rwa [usrdevXcopy_snd]

/-- `usrdev_irq` raises the signal in the client's table, if there is one. -/
theorem ends_usrdevIrq (h : P s) (hnull : E .null)
    (hraise : ∀ th, ((s.usr d).remths id).irqmap irq ≠ 0 →
      Ends P E (s.thraise th (((s.usr d).remths id).irqmap irq - 1))) :
    Ends (fun r ↦ P r.2) E (s.usrdevIrq d id irq) := by
  unfold usrdevIrq
  split
  · exact h
  · dsimp only
    split
    · next hmap =>
      split
      · exact hnull
      · exact (hraise _ hmap.1).map fun _ h ↦ h
    · exact h

/-- `devpoll` takes a request off the queue of a device. -/
theorem ends_devpoll (h : P s) (hnull : E .null) (hset : ∀ d iors polls,
      P (s.setUsr d { s.usr d with ioreqs := iors, polls := polls })) :
    Ends (fun r ↦ P r.2.2) E (s.devpoll t did) := by
  unfold devpoll
  split
  · exact h
  · split
    · exact h
    · next d hd =>
      have hpoll : Ends (fun r ↦ P r.2) E (s.usrdevPoll d) := by
        unfold usrdevPoll
        dsimp only
        split
        · exact h
        · split
          · exact hnull
          · exact hset ..
      refine hpoll.bind ?_
      rintro ⟨p, s₁⟩ h₁
      cases p with
      | none | some => exact h₁

/-- The calls that change the identities of a thread keep its alarms. -/
theorem setIds (n : Nat) (h : P s) (hset : ∀ th : Thread, th.rttSig = (s.thread t).rttSig →
      th.vttSig = (s.thread t).vttSig → P (s.setThread t th)) :
    P (s.sysSetuid t n).2 ∧ P (s.sysSeteuid t n).2 ∧ P (s.sysSetgid t n).2 ∧
      P (s.sysSetegid t n).2 := by
  unfold sysSetuid sysSeteuid sysSetgid sysSetegid
  refine ⟨?_, ?_, ?_, ?_⟩
  all_goals
    dsimp only
    split
    · exact h
    · exact hset _ rfl rfl

/-- `irqsignal` marks the registrations and raises their signals. -/
theorem ends_irqsignal {level : Bool} (hirq : E .irq)
    (hmark : P { s with
      irqsigs := Function.update s.irqsigs irq
        ((s.irqsigs irq).map fun r ↦ { r with eoi := r.eoi || level }) })
    (hraise : ∀ s₁, ∀ r ∈ s.irqsigs irq, P s₁ → Ends P E (s₁.thraise r.th r.sig)) :
    Ends P E (s.irqsignal irq level) := by
  unfold irqsignal
  split
  · exact Ends.foldlM (fun s₁ r hr h₁ ↦ hraise s₁ r hr h₁) hmark
  · exact hirq

/-- A timer raises its signal, if it has one. -/
theorem ends_timerFire {sig : Nat} (h : P s) (hraise : Ends P E (s.thraise t (sig - 1))) :
    Ends P E (s.timerFire t sig) := by
  unfold timerFire
  split
  · exact hraise
  · exact h

/-- `__klogdev_raise_avl` sets the status and raises the client's signal. -/
theorem ends_klogdevRaiseAvl (hnull : E .null)
    (hset : P { s with klog := { s.klog with isr := true } })
    (hraise : ∀ th, Ends P E
      (State.thraise { s with klog := { s.klog with isr := true } } th s.klog.sig)) :
    Ends P E s.klogdevRaiseAvl := by
  unfold klogdevRaiseAvl
  dsimp only
  split
  · split
    · exact hnull
    · exact hraise _
  · exact hset

/-! ## The bus -/

/-- `bus_plug`. -/
theorem ends_busPlug (h : P s) (hopen : ∀ d, Ends (fun r ↦ P r.2) E (s.opOpen t d))
    (hplug : ∀ s₁ k d id, P s₁ → P (s₁.plug k d id)) :
    Ends (fun r ↦ P r.2) E (s.busPlug t did) := by
  unfold busPlug
  split
  · exact h
  · next d hd =>
    split
    · exact h
    · dsimp only
      split
      · exact h
      · split
        · exact h
        · refine (hopen d).bind ?_
          rintro ⟨devid, s₁⟩ h₁
          dsimp only
          split
          · exact h₁
          · exact hplug _ _ _ _ h₁

/-- `bus_copy`. -/
theorem ends_busCopy {desc nth : Nat} (h : P s) (hnull : E .null)
    (hclone : ∀ d id, Ends (fun r ↦ P r.2) E (s.usrdevClone t d id nth))
    (hplug : ∀ s₁ k d id, P s₁ → P (s₁.plug k d id)) :
    Ends (fun r ↦ P r.2) E (s.busCopy t desc nth) := by
  unfold busCopy
  split
  · exact h
  · split
    · exact h
    · dsimp only
      split
      · exact h
      · split
        · exact hnull
        · split
          · exact h
          · next x hx =>
            unfold opClone at hx
            split at hx
            · obtain rfl := Option.some.inj hx
              split
              · exact h
              · refine (hclone _ _).bind ?_
                rintro ⟨devid, s₁⟩ h₁
                dsimp only
                split
                · exact h₁
                · exact hplug _ _ _ _ h₁
            · cases hx

/-- `bus_unplug`. -/
theorem ends_busUnplug {desc : Nat} (h : P s) (hnull : E .null)
    (hclose : ∀ d id, Ends P E (s.opClose t d id))
    (hslot : ∀ s₁ k b, P s₁ → P (s₁.setSlot k b)) (hdev : ∀ s₁ d v, P s₁ → P (s₁.setDev d v)) :
    Ends (fun r ↦ P r.2) E (s.busUnplug t desc) := by
  unfold busUnplug
  split
  · exact h
  · dsimp only
    split
    · exact hslot _ _ _ h
    · split
      · exact hnull
      · split
        · exact hslot _ _ _ h
        · exact (hclose _ _).bind fun s₁ h₁ ↦ hslot _ _ _ (hdev _ _ _ h₁)

/-! ## System calls on descriptors -/

section Descriptors

variable {dd : Nat} {fault : Bool}

/-- `sys_in`. -/
theorem ends_sysIn {port hw valptr : Nat} (h : P s)
    (hop : Ends (fun r ↦ P r.2.2) E (s.opCall t dd (.inPort port hw))) :
    Ends (fun r ↦ P r.state) E (s.sysIn t dd port hw valptr fault) := by
  unfold sysIn
  split
  · exact h
  · refine hop.bind ?_
    rintro ⟨ret, val, s₁⟩ h₁
    dsimp only
    split
    · exact h₁
    · split <;> exact h₁

/-- `sys_rdcfg`. -/
theorem ends_sysRdcfg {off sz valptr : Nat} (h : P s)
    (hop : Ends (fun r ↦ P r.2.2) E (s.opCall t dd (.rdcfg off sz))) :
    Ends (fun r ↦ P r.state) E (s.sysRdcfg t dd off sz valptr fault) := by
  unfold sysRdcfg
  split
  · exact h
  · split
    · exact h
    · refine hop.bind ?_
      rintro ⟨ret, val, s₁⟩ h₁
      dsimp only
      split
      · exact h₁
      · split <;> exact h₁

/-- `sys_export`, which takes the export back where the copy faults. -/
theorem ends_sysExport {va sz iovaptr : Nat} {wire : Int} {phys : Option Nat} (h : P s)
    (hop : chkuaddr va sz = true →
      Ends (fun r ↦ P r.2.2) E (s.opCall t dd (.exportVa va sz wire phys)))
    (hback : ∀ s₁, P s₁ → Ends (fun r ↦ P r.2.2) E (s₁.opCall t dd (.unexportVa va))) :
    Ends (fun r ↦ P r.state) E (s.sysExport t dd va sz iovaptr wire phys fault) := by
  unfold sysExport
  split
  · exact h
  · next hchk =>
    split
    · exact h
    · refine (hop (by simpa using hchk)).bind ?_
      rintro ⟨ret, val, s₁⟩ h₁
      dsimp only
      split
      · exact h₁
      · split
        · exact (hback s₁ h₁).bind fun _ h₂ ↦ h₂
        · exact h₁

/-- The system calls that hand the result of the bus back. -/
theorem ends_sysReq {q : Req} (h : P s)
    (hop : reqCheck q = none → Ends (fun r ↦ P r.2.2) E (s.opCall t dd q)) :
    Ends (fun r ↦ P r.state) E (s.sysReq t dd q) := by
  unfold sysReq
  split
  · exact h
  · next hq => exact (hop hq).bind fun _ h₁ ↦ h₁

end Descriptors

end State

end Mh.Bus
