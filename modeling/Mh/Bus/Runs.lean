import Mh.Bus.Steps
import Mh.Bus.Rules

/-!
# Buses, devices and requests in every run

The system calls on descriptors, and from them the step and the run.  Two results about
every state that a run reaches: the buses, the lists of the devices and their client tables
agree (`buses_ok`), and the requests of a user device are polled in order and are, for every
id, sessions (`requests_ok`).
-/

namespace Mh.Bus

open Mh.Lib

variable {s s' : State} {t d : Nat} {plt sys klog : Nat} {as : List Label}

/-! ## Quiet steps -/

namespace Quiet

/-- Signals. -/
theorem ends_thraise (s : State) (t n : Nat) : Ends (Quiet s) Panic.Any (s.thraise t n) :=
  (Ends.self fun _ _ ↦ trivial).mono fun _ h ↦ thraise h

/-- The calls that change the identities of a thread. -/
theorem setIds (s : State) (t n : Nat) : Quiet s (s.sysSetuid t n).2 ∧
    Quiet s (s.sysSeteuid t n).2 ∧ Quiet s (s.sysSetgid t n).2 ∧ Quiet s (s.sysSetegid t n).2 :=
  State.setIds n (.refl s) fun _ _ _ ↦ setThread ..

/-- `usrdev_wriospace`. -/
theorem wriospace (s : State) (d id port val : Nat) :
    Quiet s (s.usrdevWriospace d id port val).2 :=
  setUsr (.setRem rfl rfl)

/-- `usrdev_irq`. -/
theorem usrdevIrq (s : State) (d id irq : Nat) :
    Ends (fun r ↦ Quiet s r.2) Panic.Any (s.usrdevIrq d id irq) :=
  State.ends_usrdevIrq (.refl s) trivial fun _ _ ↦ ends_thraise s ..

/-- `__klogdev_raise_avl`. -/
theorem raiseAvl (h : s.klogdevRaiseAvl = .ok s') : Quiet s s' :=
  (State.ends_klogdevRaiseAvl (E := Panic.Any) trivial (setKlog ..)
    fun _ ↦ (ends_thraise _ ..).mono fun _ hq ↦ (setKlog ..).trans hq).of_ok h

/-- `irqsignal`. -/
theorem irqsignal {irq : Nat} {level : Bool} (h : s.irqsignal irq level = .ok s') :
    Quiet s s' := by
  refine (State.ends_irqsignal (E := Panic.Any) trivial ?_ fun s₁ r _ hq ↦ ?_).of_ok h
  · exact ⟨⟨rfl, rfl, rfl, rfl, rfl, rfl, rfl, rfl⟩, fun _ _ ↦ rfl, fun _ ↦ .refl _⟩
  · exact (ends_thraise s₁ ..).mono fun _ hq' ↦ hq.trans hq'

/-- A timer that fires. -/
theorem timerFire {sig : Nat} (h : s.timerFire t sig = .ok s') : Quiet s s' :=
  (State.ends_timerFire (E := Panic.Any) (.refl s) (ends_thraise s ..)).of_ok h

end Quiet

/-- The calls that leave the buses, devices, clients, requests and threads alone. -/
def Call.Plain : Call → Prop
  | .raise _ | .setuid _ | .seteuid _ | .setgid _ | .setegid _ => True
  | .wriospace .. | .irq .. | .xcopy .. => True
  | _ => False

/-- These calls are quiet. -/
theorem Quiet.sysCall {c : Call} (hc : c.Plain) (h : s.sysCall t c = .ok s') : Quiet s s' := by
  cases c with
  | raise sint => exact thraise h
  | setuid n =>
      cases h
      exact (setIds s t n).1
  | seteuid n =>
      cases h
      exact (setIds s t n).2.1
  | setgid n =>
      cases h
      exact (setIds s t n).2.2.1
  | setegid n =>
      cases h
      exact (setIds s t n).2.2.2
  | wriospace did id port val =>
      obtain ⟨⟨r, s₁⟩, hp, hr⟩ := bind_eq_ok.1 h
      cases hr
      have hends : Ends (fun r ↦ Quiet s r.2) Panic.Any (s.sysWriospace t did id port val) :=
        State.ends_withUsrdev (.refl s) fun d ↦ wriospace s d id port val
      exact hends.of_ok hp
  | irq did id irq =>
      obtain ⟨⟨r, s₁⟩, hp, hr⟩ := bind_eq_ok.1 h
      cases hr
      exact (State.ends_withUsrdev (.refl s) fun d ↦ usrdevIrq s d ..).of_ok hp
  | xcopy did id iova sz va x =>
      obtain ⟨⟨r, s₁⟩, hp, hr⟩ := bind_eq_ok.1 h
      cases hr
      exact (State.ends_sysXcopy (E := Panic.Any) (.refl s)).of_ok hp
  | _ => exact hc.elim

/-! ## System calls on descriptors -/

section Descriptors

variable {P : State → Prop} {Q : Req → Prop}

/-- The four system calls that make requests, with requests that meet `Q`. -/
def Call.Makes (Q : Req → Prop) : Call → Prop
  | .inDev _ port hw _ _ => Q (.inPort port hw)
  | .rdcfg _ off sz _ _ => Q (.rdcfg off sz)
  | .exportDev _ va sz _ wire phys _ => Q (.exportVa va sz wire phys) ∧ Q (.unexportVa va)
  | .req _ q => Q q
  | _ => False

/-- What the bus keeps in the requests that meet `Q`, a system call that makes such requests
keeps. -/
theorem State.sysCall_keeps {c : Call} (hop : ∀ s dd q ret val s', Q q → P s →
    s.opCall t dd q = .ok (ret, val, s') → P s') (hq : c.Makes Q) (h : P s)
    (hc : s.sysCall t c = .ok s') : P s' := by
  have hends : ∀ {s dd q}, Q q → P s → Ends (fun r ↦ P r.2.2) (fun _ ↦ True) (s.opCall t dd q) :=
    fun hq h ↦ (Ends.self fun _ _ ↦ trivial).mono fun _ ho ↦ hop _ _ _ _ _ _ hq h ho
  cases c with
  | inDev dd port hw valptr fault =>
      obtain ⟨out, hp, hr⟩ := bind_eq_ok.1 hc
      cases hr
      exact (State.ends_sysIn h (hends hq h)).of_ok hp
  | rdcfg dd off sz valptr fault =>
      obtain ⟨out, hp, hr⟩ := bind_eq_ok.1 hc
      cases hr
      exact (State.ends_sysRdcfg h (hends hq h)).of_ok hp
  | exportDev dd va sz iovaptr wire phys fault =>
      obtain ⟨out, hp, hr⟩ := bind_eq_ok.1 hc
      cases hr
      exact (State.ends_sysExport h (fun _ ↦ hends hq.1 h) fun _ ↦ hends hq.2).of_ok hp
  | req dd q =>
      obtain ⟨out, hp, hr⟩ := bind_eq_ok.1 hc
      cases hr
      exact (State.ends_sysReq h fun _ ↦ hends hq h).of_ok hp
  | _ => exact hq.elim

end Descriptors

/-! ## Steps and runs -/

/-- `devpoll` keeps what `usrdev_poll` keeps. -/
theorem State.devpoll_keeps {P : State → Prop} {did : Nat} {out : Int × Option PollIor × State}
    (hpoll : ∀ d p s', s.usrdevPoll d = .ok (p, s') → P s') (h : P s)
    (hc : s.devpoll t did = .ok out) : P out.2.2 := by
  unfold State.devpoll at hc
  split at hc
  · cases hc
    exact h
  · split at hc
    · cases hc
      exact h
    · obtain ⟨⟨p, s₁⟩, hp, hc⟩ := bind_eq_ok.1 hc
      have h₁ := hpoll _ _ _ hp
      cases p with
      | none | some =>
          cases hc
          exact h₁

namespace Inv

/-- Every call keeps the invariant. -/
theorem sysCall {c : Call} (h : Inv s) (hlive : s.life t = .live) (hc : s.sysCall t c = .ok s') :
    Inv s' := by
  cases c with
  | raise | setuid | seteuid | setgid | setegid | wriospace | irq | xcopy =>
      refine h.quiet (.sysCall ?_ hc)
      trivial
  | fork => exact h.thfork hc
  | die => exact h.exit hlive hc
  | childstat =>
      cases hc
      exact h.childstat
  | creat nameid cfg sig mode =>
      cases hc
      exact h.devcreat nameid cfg sig mode
  | poll did =>
      obtain ⟨out, hp, hr⟩ := bind_eq_ok.1 hc
      cases hr
      exact State.devpoll_keeps (fun _ _ _ hp ↦ h.usrdevPoll hp) h hp
  | hwcreat nameid cfg mode =>
      cases hc
      exact h.sysHwcreat nameid cfg mode
  | openDev did =>
      obtain ⟨⟨r, s₁⟩, hp, hr⟩ := bind_eq_ok.1 hc
      cases hr
      exact h.busPlug hlive hp
  | closeDev dd =>
      obtain ⟨⟨r, s₁⟩, hp, hr⟩ := bind_eq_ok.1 hc
      cases hr
      exact (h.busUnplug hp).1
  | inDev | rdcfg | exportDev | req =>
      refine State.sysCall_keeps (Q := fun _ ↦ True)
        (fun _ _ _ _ _ _ _ h ho ↦ h.opCall ho) ?_ h hc
      simp [Call.Makes]

/-- Every step keeps the invariant. -/
theorem step {a : Label} (h : Inv s) (hs : Step s a s') : Inv s' := by
  obtain ⟨hen, hs⟩ := hs
  cases a with
  | call t c => exact h.sysCall hen hs
  | zombie c => exact h.doZombie hen hs
  | irq irq level => exact h.quiet (.irqsignal hs)
  | timer t vtt => exact h.quiet (.timerFire hs)
  | putc => exact h.quiet (.raiseAvl hs)

/-- The kernel starts with the invariant. -/
theorem boot (plt sys klog : Nat) : Inv (State.boot plt sys klog) := by
  have hlists : ∀ d, (State.boot plt sys klog).lists d = [] := by
    intro d
    match d with
    | 0 | 1 | 2 | _ + 3 => rfl
  have hempty : ∀ {d k}, k ∉ (State.boot plt sys klog).lists d := by
    intro d k hk
    rw [hlists] at hk
    cases hk
  have hlt : ∀ {d}, d < 3 → d < (State.boot plt sys klog).ndev := id
  have huse : ∀ {d i}, ¬ (State.boot plt sys klog).InUse d i := by
    intro d i
    match d with
    | 0 | 1 | 2 | _ + 3 => exact id
  refine ⟨⟨fun d k hk ↦ absurd hk hempty, ?_, fun d ↦ ?_, fun d k hk ↦ absurd hk hempty,
    fun d k k' _ hk ↦ absurd hk hempty, fun d i hi ↦ absurd hi huse, fun d i hi ↦ absurd hi huse,
    fun d k hk ↦ absurd hk hempty⟩, fun d k hk ↦ absurd hk hempty, fun d k hk ↦ absurd hk hempty,
    fun x d hx ↦ ?_, ?_, ?_, fun t ht ↦ ?_, ?_, fun d _ ↦ .fresh⟩
  · rintro k ⟨⟩
  · rw [hlists]
    exact List.nodup_nil
  · change (if x = plt then some State.pltNo else if x = sys then some State.sysNo
      else if x = klog then some State.klogNo else none) = some d at hx
    split at hx
    · next he =>
      cases hx
      exact ⟨hlt (by decide), he.symm, rfl, fun _ ↦ rfl⟩
    · split at hx
      · next he =>
        cases hx
        exact ⟨hlt (by decide), he.symm, rfl, fun _ ↦ rfl⟩
      · split at hx
        · next he =>
          cases hx
          exact ⟨hlt (by decide), he.symm, rfl, fun _ ↦ rfl⟩
        · cases hx
  · rintro p d ⟨⟩
  · rintro p p' d ⟨⟩
  · have ht : 2 ≤ t := ht
    exact if_neg (by omega)
  · rintro t c ⟨⟩

/-- The invariant holds in every state that a run reaches. -/
theorem run (h : Run Step (State.boot plt sys klog) as s) : Inv s :=
  Run.invariant (fun _ _ _ hi hs ↦ hi.step hs) h (boot plt sys klog)

end Inv

/-! ## Buses and devices -/

/-- The descriptor `k` is on the list of the device `d` and of no other. -/
def State.On (s : State) (k : Slot) (d : Nat) : Prop :=
  k ∈ (s.dev d).busdevs ∧ ∀ d', k ∈ (s.dev d').busdevs → d' = d

/-- In every run, a descriptor is plugged just when it is on the list of exactly one device;
the device is then attached and online, it is the one in the slot, and has the id of the
descriptor in use.  Two descriptors of one device have different ids, and an id in use is
held by exactly one descriptor. -/
theorem buses_ok (h : Run Step (State.boot plt sys klog) as s) :
    (∀ k, (s.devs k).plg ↔ ∃ d, s.On k d) ∧
    (∀ k d, s.On k d → s.tree (s.dev d).did = some d ∧ (s.dev d).offline = false ∧
      (s.devs k).dev = some d ∧ (s.Tabled d → s.InUse d (s.devs k).devid)) ∧
    (∀ d k k', s.Tabled d → s.On k d → s.On k' d → (s.devs k).devid = (s.devs k').devid →
      k = k') ∧
    ∀ d i, s.InUse d i → ∃! k, s.On k d ∧ (s.devs k).devid = i := by
  have hi := Inv.run h
  have hon : ∀ {d k}, k ∈ (s.dev d).busdevs → s.On k d :=
    fun hk ↦ ⟨hk, fun d' hk' ↦ hi.plugs.unique hk hk'⟩
  refine ⟨fun k ↦ ⟨fun hk ↦ ?_, fun ⟨d, hd⟩ ↦ (hi.plugs.listed d k hd.1).1⟩, fun k d hk ↦ ?_,
    fun d k k' ht hk hk' he ↦ hi.plugs.distinct d k k' ht hk.1 hk'.1 he, fun d i hu ↦ ?_⟩
  · obtain ⟨d, hd⟩ := hi.plugs.plugged k hk
    exact ⟨d, hon hd⟩
  · exact ⟨hi.attached d k hk.1, (hi.online hk.1).1, (hi.plugs.listed d k hk.1).2.1,
      hi.plugs.busy d k hk.1⟩
  · obtain ⟨k, hk, he⟩ := hi.plugs.held d i hu
    refine ⟨k, ⟨hon hk, he⟩, fun k' hk' ↦ ?_⟩
    exact hi.plugs.distinct d k' k hu.tabled hk'.1.1 hk (hk'.2.trans he.symm)

/-- `init` creates a user device, opens it and forks: the id 1 of the device is held by the
descriptor 0 of the child. -/
theorem buses_ok_fork : ∃ s, Run Step (State.boot 1 2 3)
      [.call 1 (.creat 7 ⟨0, 0, 0, fun _ ↦ 0⟩ 1 0o100), .call 1 (.openDev 7), .call 1 .fork] s ∧
    ∃! k, s.On k 3 ∧ (s.devs k).devid = 1 := by
  have h : Run Step (State.boot 1 2 3)
      [.call 1 (.creat 7 ⟨0, 0, 0, fun _ ↦ 0⟩ 1 0o100), .call 1 (.openDev 7), .call 1 .fork] _ :=
    .cons ⟨rfl, rfl⟩ (.cons ⟨rfl, rfl⟩ (.cons ⟨rfl, rfl⟩ (.nil _)))
  exact ⟨_, h, (buses_ok h).2.2.2 3 1 rfl⟩

/-! ## Requests -/

/-- In every run, what the owner of a device that is not being destroyed has polled so far
are the requests inserted into its queue, from the first on and each once, with the fields
that they were inserted with, and the rest of them is the queue; and for every id, what has
been polled, as what has been inserted, is a prefix of a sequence of sessions, each from the
`OPEN` of the id or the `CLONE` to it to its `CLOSE`. -/
theorem requests_ok (h : Run Step (State.boot plt sys klog) as s)
    (hdet : (s.usr d).detaching = false) :
    (s.usr d).issued = (s.usr d).polls.map Prod.fst ++ (s.usr d).ioreqs ∧
    (∀ p ∈ (s.usr d).polls, p.1.Polled p.2) ∧
    ∀ x, (∃ w, ((s.usr d).polls.flatMap fun p ↦ p.2.marks x) ++ w ∈ Sessions.sessions) ∧
      ∃ w, (s.usr d).issued.flatMap (Ior.marks x) ++ w ∈ Sessions.sessions :=
  have hq := (Inv.run h).queues d hdet
  ⟨hq.fifo, hq.polled, fun x ↦ ⟨hq.polled_sessions x, hq.issued_sessions x⟩⟩

/-- `init` creates a user device, opens it, writes to it, closes it and polls twice. -/
theorem requests_ok_out : ∃ s, Run Step (State.boot 1 2 3)
      [.call 1 (.creat 7 ⟨0, 0, 0, fun _ ↦ 0⟩ 1 0o100), .call 1 (.openDev 7),
        .call 1 (.req 0 (.outPort 5 9)), .call 1 (.closeDev 0), .call 1 (.poll 0),
        .call 1 (.poll 0)] s ∧
    ((s.usr 3).polls.map fun p ↦ p.2) = [⟨0, .openOp, 1, 0, 0⟩, ⟨0, .outOp 1 1 9, 1, 0, 0⟩] ∧
    (s.usr 3).issued = (s.usr 3).polls.map Prod.fst ++ (s.usr 3).ioreqs := by
  have h : Run Step (State.boot 1 2 3)
      [.call 1 (.creat 7 ⟨0, 0, 0, fun _ ↦ 0⟩ 1 0o100), .call 1 (.openDev 7),
        .call 1 (.req 0 (.outPort 5 9)), .call 1 (.closeDev 0), .call 1 (.poll 0),
        .call 1 (.poll 0)] _ :=
    .cons ⟨rfl, rfl⟩ (.cons ⟨rfl, rfl⟩ (.cons ⟨rfl, rfl⟩ (.cons ⟨rfl, rfl⟩
      (.cons ⟨rfl, rfl⟩ (.cons ⟨rfl, rfl⟩ (.nil _))))))
  exact ⟨_, h, rfl, (requests_ok h rfl).1⟩

end Mh.Bus
