import Mh.Bus.State
import Mh.Lib.Run

/-!
# Interrupt lines

The registrations of `kern.c`: `irqregister`, `irqfnregister`, `irqunregister`, `irqsignal` and
`irqeoi`.  Several threads can be registered on one line, and functions of the kernel can.

A registration is named by its `struct irqsig`.  What a registered function does is not of
interest here (it runs with the lock of the registrations held), and neither is what `thraise`
does; that they are called is recorded.  `irqeoi` tests a variable that it need not have written:
what it holds is an argument.
-/

namespace Mh.Irq

open Mh.Bus (maxIrqs maxSignals)

/-- `struct irqsig`; the `th` of a function that is registered is null. -/
structure Irqsig where
  key : Nat
  th : Option Nat
  eoi : Bool
  sig : Nat
  filter : Nat
  handler : Option Nat
deriving DecidableEq, Repr

/-- What `irqsignal` calls. -/
inductive Event
  | handler (fn sig : Nat)
  | thraise (th : Option Nat) (sig : Nat)
deriving DecidableEq, Repr

/-- The assertions: on a signal, and on a line. -/
inductive Panic
  | signal
  | irq
deriving DecidableEq, Repr

/-- The registrations of each line, and whether it has been masked by `irqsignal` and not been
unmasked since. -/
structure State where
  irqsigs : Nat → List Irqsig
  masked : Nat → Bool
  events : List Event

/-- Nobody is registered. -/
def boot : State := ⟨fun _ ↦ [], fun _ ↦ false, []⟩

namespace State

variable (s : State)

/-- `platform_irqon`. -/
def irqon (irq : Nat) : State := { s with masked := Function.update s.masked irq false }

/-- `platform_irqoff`. -/
def irqoff (irq : Nat) : State := { s with masked := Function.update s.masked irq true }

/-- The registrations of a line are written. -/
def setIrqsigs (irq : Nat) (sigs : List Irqsig) : State :=
  { s with irqsigs := Function.update s.irqsigs irq sigs }

/-- `irqregister`, of the registration `key`, whose `eoi` is what it was in memory. -/
def irqregister (key irq th sig filter : Nat) (eoi : Bool) : Int × State :=
  if maxIrqs ≤ irq then (Errno.EINVAL.neg, s)
  else (0, (s.setIrqsigs irq (⟨key, some th, eoi, sig, filter, none⟩ :: s.irqsigs irq)).irqon irq)

/-- `irqfnregister`. -/
def irqfnregister (key irq handler opq : Nat) (eoi : Bool) : Int × State :=
  if maxIrqs ≤ irq then (Errno.EINVAL.neg, s)
  else (0, (s.setIrqsigs irq (⟨key, none, eoi, opq, 0, some handler⟩ :: s.irqsigs irq)).irqon irq)

/-- `irqunregister`. -/
def irqunregister (key : Nat) : State :=
  { s with irqsigs := fun irq ↦ (s.irqsigs irq).filter fun r ↦ r.key ≠ key }

end State

/-- One iteration of the loop of `irqsignal`; `pass` is `platform_irqfilter`. -/
def Irqsig.signal (r : Irqsig) (level : Bool) (pass : Nat → Bool) :
    Except Panic (Irqsig × List Event) :=
  match r.handler with
  | some fn => .ok (r, [.handler fn r.sig])
  | none =>
    if r.filter ≠ 0 ∧ pass r.filter = false then .ok (r, [])
    else if r.sig < maxSignals then
      .ok ({ r with eoi := r.eoi || level }, [.thraise r.th r.sig])
    else .error .signal

/-- The loop of `irqsignal`. -/
def signalAll (level : Bool) (pass : Nat → Bool) :
    List Irqsig → Except Panic (List Irqsig × List Event)
  | [] => .ok ([], [])
  | r :: rs => do
    let (r, es) ← r.signal level pass
    let (rs, es') ← signalAll level pass rs
    return (r :: rs, es ++ es')

/-- A registration of a thread that waits for its `irqeoi`. -/
def Irqsig.pending (r : Irqsig) : Bool := r.handler.isNone && r.eoi

namespace State

variable (s : State)

/-- `irqsignal`. -/
def irqsignal (irq : Nat) (level : Bool) (pass : Nat → Bool) : Except Panic State :=
  let s := if level then s.irqoff irq else s
  if irq < maxIrqs then do
    let (sigs, es) ← signalAll level pass (s.irqsigs irq)
    return { s.setIrqsigs irq sigs with events := s.events ++ es }
  else .error .irq

/-- `irqeoi`, and what it returns; `doeoi` is what the variable holds at first. -/
def irqeoi (irq : Nat) (doeoi : Bool) : Except Panic (Int × State) :=
  if irq < maxIrqs then
    let doeoi := (s.irqsigs irq).any Irqsig.pending || doeoi
    let s := s.setIrqsigs irq ((s.irqsigs irq).map fun r ↦
      if r.handler.isSome then r else { r with eoi := false })
    if doeoi then .ok (0, s.irqon irq) else .ok (Errno.EINVAL.neg, s)
  else .error .irq

end State

/-- The calls. -/
inductive Op
  | irqregister (key irq th sig filter : Nat) (eoi : Bool)
  | irqfnregister (key irq handler opq : Nat) (eoi : Bool)
  | irqunregister (key : Nat)
  | irqsignal (irq : Nat) (level : Bool) (pass : Nat → Bool)
  | irqeoi (irq : Nat) (doeoi : Bool)

/-- One call. -/
def exec (s : State) : Op → Except Panic State
  | .irqregister key irq th sig filter eoi => .ok (s.irqregister key irq th sig filter eoi).2
  | .irqfnregister key irq handler opq eoi => .ok (s.irqfnregister key irq handler opq eoi).2
  | .irqunregister key => .ok (s.irqunregister key)
  | .irqsignal irq level pass => s.irqsignal irq level pass
  | .irqeoi irq doeoi => s.irqeoi irq doeoi >>= fun r ↦ .ok r.2

/-- A `struct irqsig` is on the list of a line. -/
def State.Registered (s : State) (key : Nat) : Prop := ∃ irq, ∃ r ∈ s.irqsigs irq, r.key = key

/-- A `struct irqsig` is put on one list at a time, and taken off the list that it is on. -/
def Allowed (s : State) : Op → Prop
  | .irqregister key _ _ _ _ _ | .irqfnregister key _ _ _ _ => ¬ s.Registered key
  | .irqunregister key => s.Registered key
  | _ => True

/-- A call that returns. -/
def Step (s : State) (op : Op) (s' : State) : Prop := Allowed s op ∧ exec s op = .ok s'

end Mh.Irq

/-!
## Lines that stay masked

`irqsignal` masks the line of a level interrupt, and `irqeoi` unmasks it when a registration of a
thread waits for that.  `LinesOk` says that on a masked line with registrations there is one, so
that the line can be unmasked, and that `irqeoi` returns 0 and unmasks exactly then.

A level interrupt masks its line also when only functions of the kernel are registered on it, or
every thread is filtered out; a registration can go away while it is the one that waits; and
`irqeoi` tests a variable that nothing has written when no registration waits.  Elsewhere the
lines are right (`lines_kept`).
-/

namespace Mh.Irq

open Mh.Lib (Run bind_eq_ok)
open Mh.Bus (maxIrqs maxSignals)

/-- A registration of a thread on the line waits for its `irqeoi`. -/
def State.Pending (s : State) (irq : Nat) : Prop := ∃ r ∈ s.irqsigs irq, r.pending = true

/-- `irqeoi` returns 0 and unmasks the line if a registration waits, and otherwise returns an error
and leaves the line alone. -/
def EoiRight (s : State) (irq : Nat) (ret : Int) (s' : State) : Prop :=
  (s.Pending irq → ret = 0 ∧ s'.masked irq = false) ∧
    (¬ s.Pending irq → ret = Errno.EINVAL.neg ∧ s'.masked = s.masked)

/-- The registration is that of a thread, and is not filtered out; or it waits already. -/
def Irqsig.Taken (r : Irqsig) (pass : Nat → Bool) : Prop :=
  r.handler = none ∧ (r.filter = 0 ∨ pass r.filter = true) ∨ r.pending = true

/-- A level interrupt comes on a line with a registration that takes it, or with none at all; of
a masked line the registration that waits is not taken off, unless another one waits or there is
no other; and `irqeoi` is called when a registration waits, or finds its variable 0. -/
def LineSafe (s : State) : Op → Prop
  | .irqsignal irq level pass =>
    level = true → s.irqsigs irq = [] ∨ ∃ r ∈ s.irqsigs irq, r.Taken pass
  | .irqunregister key => ∀ irq, s.masked irq = true →
    (∀ r ∈ s.irqsigs irq, r.key = key) ∨ ∃ r ∈ s.irqsigs irq, r.pending = true ∧ r.key ≠ key
  | .irqeoi irq doeoi => s.Pending irq ∨ doeoi = false
  | _ => True

/-- A masked line with registrations can be unmasked, and `irqeoi` is right when it is safe. -/
structure LinesOk (s : State) : Prop where
  masked : ∀ irq, s.irqsigs irq ≠ [] → s.masked irq = true → s.Pending irq
  eoi : ∀ irq doeoi ret s', s.irqeoi irq doeoi = .ok (ret, s') →
    (EoiRight s irq ret s' ↔ LineSafe s (.irqeoi irq doeoi))

variable {s s' : State} {irq key : Nat} {level : Bool} {pass : Nat → Bool} {op : Op}
  {ops : List Op} {r : Irqsig} {rs rs' : List Irqsig} {es : List Event}

/-- The invariant. -/
def LInv (s : State) : Prop :=
  ∀ irq, s.irqsigs irq ≠ [] → s.masked irq = true → s.Pending irq

/-- What the loop of `irqsignal` leaves on the list: what waited waits, and after a level
interrupt what takes it does. -/
theorem signalAll_spec (h : signalAll level pass rs = .ok (rs', es)) :
    (rs' = [] ↔ rs = []) ∧
      ((∃ r ∈ rs, r.pending = true ∨ level = true ∧ r.Taken pass) →
        ∃ r ∈ rs', r.pending = true) := by
  induction rs generalizing rs' es with
  | nil =>
      cases h
      exact ⟨Iff.rfl, fun ⟨r, hr, _⟩ ↦ absurd hr List.not_mem_nil⟩
  | cons r rs ih =>
      obtain ⟨⟨r', es₁⟩, h₁, h⟩ := bind_eq_ok.1 h
      obtain ⟨⟨rs₁, es₂⟩, h₂, h⟩ := bind_eq_ok.1 h
      cases h
      obtain ⟨-, htail⟩ := ih h₂
      refine ⟨iff_of_false (List.cons_ne_nil _ _) (List.cons_ne_nil _ _), ?_⟩
      have hhead : r.pending = true ∨ level = true ∧ r.Taken pass → r'.pending = true := by
        intro hr
        rw [Irqsig.signal] at h₁
        split at h₁
        · next fn hfn =>
            cases h₁
            rcases hr with hr | ⟨-, ⟨hn, -⟩ | hr⟩
            · exact hr
            · cases hn.symm.trans hfn
            · exact hr
        · next hn =>
            split at h₁
            · next hf =>
                cases h₁
                rcases hr with hr | ⟨-, ⟨-, hpass⟩ | hr⟩
                · exact hr
                · rcases hpass with hz | hpass
                  · exact absurd hz hf.1
                  · cases hpass.symm.trans hf.2
                · exact hr
            · split at h₁
              · cases h₁
                rw [Irqsig.pending, hn]
                show (r.eoi || level) = true
                have heoi : ∀ r : Irqsig, r.pending = true → r.eoi = true :=
                  fun r hp ↦ (Bool.and_eq_true_iff.1 hp).2
                rcases hr with hr | ⟨hl, -⟩
                · rw [heoi r hr, Bool.true_or]
                · rw [hl, Bool.or_true]
              · cases h₁
      rintro ⟨x, hx, hp⟩
      rcases List.mem_cons.1 hx with rfl | hx
      · exact ⟨r', List.mem_cons_self, hhead hp⟩
      · obtain ⟨y, hy, hpy⟩ := htail ⟨x, hx, hp⟩
        exact ⟨y, List.mem_cons_of_mem _ hy, hpy⟩

namespace LInv

theorem boot : LInv boot := fun _ h ↦ absurd rfl h

/-- The registrations of one line are written, and the line is unmasked. -/
theorem unmask (h : LInv s) (irq : Nat) (sigs : List Irqsig) :
    LInv ((s.setIrqsigs irq sigs).irqon irq) := by
  intro j hj hm
  change Function.update s.irqsigs irq sigs j ≠ [] at hj
  change Function.update s.masked irq false j = true at hm
  show ∃ r ∈ Function.update s.irqsigs irq sigs j, r.pending = true
  by_cases hji : j = irq
  · rw [hji, Function.update_self] at hm
    cases hm
  · rw [Function.update_of_ne hji] at hj hm ⊢
    exact h j hj hm

/-- The registrations of one line are written, and it may be masked. -/
theorem write (h : LInv s) {irq : Nat} {sigs : List Irqsig} {masked : Nat → Bool}
    {events : List Event} (hm : ∀ j, j ≠ irq → masked j = s.masked j)
    (hp : sigs ≠ [] → masked irq = true → ∃ r ∈ sigs, r.pending = true) :
    LInv ⟨Function.update s.irqsigs irq sigs, masked, events⟩ := by
  intro j hj hmj
  dsimp only at hj hmj
  show ∃ r ∈ Function.update s.irqsigs irq sigs j, r.pending = true
  by_cases hji : j = irq
  · subst hji
    rw [Function.update_self] at hj ⊢
    exact hp hj hmj
  · rw [Function.update_of_ne hji] at hj ⊢
    rw [hm j hji] at hmj
    exact h j hj hmj

theorem irqsignal (h : LInv s) (hsafe : LineSafe s (.irqsignal irq level pass))
    (hs : s.irqsignal irq level pass = .ok s') : LInv s' := by
  rw [State.irqsignal] at hs
  dsimp only at hs
  split at hs
  · obtain ⟨⟨sigs, es⟩, h₁, hs⟩ := bind_eq_ok.1 hs
    cases hs
    cases level with
    | true =>
        obtain ⟨hnil, hpend⟩ := signalAll_spec h₁
        change sigs = [] ↔ s.irqsigs irq = [] at hnil
        refine h.write (fun j hj ↦ Function.update_of_ne hj ..) fun hne _ ↦ hpend ?_
        rcases hsafe rfl with he | ⟨r, hr, ht⟩
        · exact absurd (hnil.2 he) hne
        · exact ⟨r, hr, .inr ⟨rfl, ht⟩⟩
    | false =>
        obtain ⟨hnil, hpend⟩ := signalAll_spec h₁
        refine h.write (fun _ _ ↦ rfl) fun hne hm ↦ hpend ?_
        obtain ⟨r, hr, hp⟩ := h irq (mt hnil.2 hne) hm
        exact ⟨r, hr, .inl hp⟩
  · cases hs

theorem irqunregister (hsafe : LineSafe s (.irqunregister key)) :
    LInv (s.irqunregister key) := by
  intro irq hne hm
  change s.masked irq = true at hm
  change (s.irqsigs irq).filter (fun r ↦ r.key ≠ key) ≠ [] at hne
  rcases hsafe irq hm with hall | ⟨r, hr, hp, hk⟩
  · refine absurd (List.filter_eq_nil_iff.2 fun r hr ↦ ?_) hne
    simpa using hall r hr
  · exact ⟨r, List.mem_filter.2 ⟨hr, decide_eq_true hk⟩, hp⟩

/-- What `irqeoi` tests. -/
theorem any_pending (s : State) (irq : Nat) :
    (s.irqsigs irq).any Irqsig.pending = true ↔ s.Pending irq := List.any_eq_true

theorem irqeoi {doeoi : Bool} {ret : Int} (h : LInv s)
    (hs : s.irqeoi irq doeoi = .ok (ret, s')) : LInv s' := by
  rw [State.irqeoi] at hs
  split at hs
  · dsimp only at hs
    split at hs
    · cases hs
      exact h.unmask irq _
    · next hno =>
        cases hs
        have hnp : ¬ s.Pending irq := by
          rw [← any_pending]
          exact fun hp ↦ hno (by rw [hp, Bool.true_or])
        refine h.write (fun _ _ ↦ rfl) fun hne hm ↦ ?_
        refine absurd (h irq (fun he ↦ hne ?_) hm) hnp
        rw [he]
        rfl
  · cases hs

/-- A safe call keeps the invariant. -/
theorem step (h : LInv s) (hs : Step s op s') (hsafe : LineSafe s op) : LInv s' := by
  obtain ⟨-, hs⟩ := hs
  cases op with
  | irqregister key irq th sig filter eoi =>
      rw [← Except.ok.inj hs, State.irqregister]
      split
      · exact h
      · exact h.unmask irq _
  | irqfnregister key irq handler opq eoi =>
      rw [← Except.ok.inj hs, State.irqfnregister]
      split
      · exact h
      · exact h.unmask irq _
  | irqunregister key =>
      rw [← Except.ok.inj hs]
      exact irqunregister hsafe
  | irqsignal irq level pass => exact h.irqsignal hsafe hs
  | irqeoi irq doeoi =>
      obtain ⟨⟨ret, u⟩, hu, hs⟩ := bind_eq_ok.1 hs
      cases hs
      exact h.irqeoi hu

/-- `irqeoi` is right unless its variable is not 0 and no registration waits. -/
theorem eoi_right {doeoi : Bool} {ret : Int} (hs : s.irqeoi irq doeoi = .ok (ret, s')) :
    EoiRight s irq ret s' ↔ LineSafe s (.irqeoi irq doeoi) := by
  have hany := any_pending s irq
  rw [State.irqeoi] at hs
  split at hs
  · by_cases hp : s.Pending irq
    · rw [hany.2 hp] at hs
      cases hs
      exact iff_of_true ⟨fun _ ↦ ⟨rfl, Function.update_self ..⟩, fun hn ↦ absurd hp hn⟩ (.inl hp)
    · rw [Bool.eq_false_iff.2 (mt hany.1 hp)] at hs
      cases doeoi with
      | true =>
          cases hs
          refine iff_of_false (fun hr ↦ ?_) fun hsafe ↦ hsafe.elim hp Bool.noConfusion
          exact absurd (hr.2 hp).1 (by decide)
      | false =>
          cases hs
          exact iff_of_true ⟨fun hp' ↦ absurd hp' hp, fun _ ↦ ⟨rfl, rfl⟩⟩ (.inr rfl)
  · cases hs

theorem linesOk (h : LInv s) : LinesOk s := ⟨h, fun _ _ _ _ ↦ eoi_right⟩

end LInv

/-! ## Runs -/

/-- In a run whose calls are safe, a masked line with registrations can be unmasked in every
state. -/
theorem lines_kept (h : Run (fun s op s' ↦ Step s op s' ∧ LineSafe s op) boot ops s) :
    LinesOk s :=
  (h.invariant (I := LInv) (fun _ _ _ hI hs ↦ hI.step hs.1 hs.2) LInv.boot).linesOk

/-- A thread and a function of the kernel share a line. -/
theorem lines_kept_shared : ∃ s, Run (fun s op s' ↦ Step s op s' ∧ LineSafe s op) boot
    [.irqfnregister 0 5 9 0 false, .irqregister 1 5 2 7 0 false, .irqsignal 5 true fun _ ↦ false]
      s ∧ s.masked 5 = true ∧ LinesOk s := by
  have hreg : ¬ ∃ irq, ∃ r ∈ ((boot.irqfnregister 0 5 9 0 false).2).irqsigs irq, r.key = 1 := by
    rintro ⟨irq, r, hr, hk⟩
    change r ∈ Function.update (fun _ ↦ []) 5 _ irq at hr
    by_cases hi : irq = 5
    · rw [hi, Function.update_self] at hr
      cases List.mem_singleton.1 hr
      cases hk
    · rw [Function.update_of_ne hi] at hr
      exact absurd hr List.not_mem_nil
  have h : Run (fun s op s' ↦ Step s op s' ∧ LineSafe s op) boot
      [.irqfnregister 0 5 9 0 false, .irqregister 1 5 2 7 0 false,
        .irqsignal 5 true fun _ ↦ false] _ :=
    .cons ⟨⟨fun ⟨_, r, hr, _⟩ ↦ absurd hr List.not_mem_nil, rfl⟩, trivial⟩ <|
    .cons ⟨⟨hreg, rfl⟩, trivial⟩ <|
    .cons ⟨⟨trivial, rfl⟩, fun _ ↦ .inr ⟨_, List.mem_cons_self, .inl ⟨rfl, .inl rfl⟩⟩⟩ (.nil _)
  exact ⟨_, h, rfl, lines_kept h⟩

/-- A level interrupt on the line of the timer, on which only a function of the kernel is
registered. -/
theorem line_stuck : ∃ s, Run Step boot
    [.irqfnregister 0 2 9 0 false, .irqsignal 2 true fun _ ↦ false] s ∧
      s.irqsigs 2 ≠ [] ∧ s.masked 2 = true ∧ ¬ s.Pending 2 ∧ ¬LinesOk s := by
  have h : Run Step boot [.irqfnregister 0 2 9 0 false, .irqsignal 2 true fun _ ↦ false] _ :=
    .cons ⟨fun ⟨_, r, hr, _⟩ ↦ absurd hr List.not_mem_nil, rfl⟩ <| .cons ⟨trivial, rfl⟩ (.nil _)
  have hne : ∀ s, LinesOk s → s.irqsigs 2 ≠ [] → s.masked 2 = true → s.Pending 2 :=
    fun s hok ↦ hok.masked 2
  refine ⟨_, h, by decide, rfl, ?_, fun hok ↦ ?_⟩
  · rw [← LInv.any_pending]
    decide
  · have hp := hne _ hok (by decide) rfl
    rw [← LInv.any_pending] at hp
    revert hp
    decide

end Mh.Irq
