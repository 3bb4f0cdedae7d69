import Mh.Sched.Alarms
import Mathlib.Data.List.TakeWhile

/-!
# The virtual alarm

A thread's virtual time passes while it is the current thread.  `Vtts` keeps the virtual time
of each thread, and when the alarm is due that the thread has set and that has not been raised
since: `schedule` saves what remains of it when the thread is left, which it rounds up to 1,
and sets the alarm again when it comes back to the thread.

`VttOk` is what the alarm is for: `do_timer` raises it only when it is set and due, and, as far
as the list of timers is sorted, as soon as it is.  The time that remains is saved in a variable
that `schedule` does not clear; after the alarm has been raised it is set once more when the
thread comes back.  The alarms are right when a thread is left only with its alarm set or with
nothing saved (`vtt_ok`).
-/

namespace Mh.Sched

open Mh.Lib

/-- The virtual times, and when the alarms are due that have been set and not been raised. -/
structure Vtts where
  vt : Nat → Nat
  due : Nat → Option Nat

namespace Vtts

/-- At first no time has passed, and no alarm is set. -/
def boot : Vtts := ⟨fun _ ↦ 0, fun _ ↦ none⟩

/-- An alarm is set, or it is raised. -/
def set (g : Vtts) (t : Nat) (due : Option Nat) : Vtts :=
  { g with due := Function.update g.due t due }

/-- The thread `t` is left: if its alarm is due, the time that remains is rounded up to 1. -/
def left (g : Vtts) (t : Nat) : Vtts :=
  g.set t ((g.due t).map fun due ↦ if due ≤ g.vt t then g.vt t + 1 else due)

/-- Time passes for the thread `t`. -/
def pass (g : Vtts) (t n : Nat) : Vtts := { g with vt := Function.update g.vt t (g.vt t + n) }

/-- What a call does to the virtual times and the alarms. -/
def after (g : Vtts) (s : State) (op : Op) (s' : State) : Vtts :=
  match op with
  | .tick counter => g.pass s.current (counter - s.counter)
  | .alarm .vtt diff => g.set s.current (some (g.vt s.current + diff))
  | .softirq =>
    if s.softTimer ∧ (s.current, .vtt) ∈ s.expired then g.set s.current none else g
  | _ => if s'.current = s.current then g else g.left s.current

@[simp] theorem set_due_self (g : Vtts) (t : Nat) (due : Option Nat) :
    (g.set t due).due t = due := Function.update_self ..

@[simp] theorem set_set (g : Vtts) (t : Nat) (due due' : Option Nat) :
    (g.set t due).set t due' = g.set t due' := by
  rw [set, set, set, Function.update_idem]

theorem set_eq_self {g : Vtts} {t : Nat} {due : Option Nat} (h : g.due t = due) :
    g.set t due = g := by
  rw [set, ← h, Function.update_eq_self]

theorem set_due_of_ne (g : Vtts) {t u : Nat} (due : Option Nat) (h : u ≠ t) :
    (g.set t due).due u = g.due u := Function.update_of_ne h ..

end Vtts

/-- A call, and what it does to the virtual times. -/
def HistoryStep (p : State × Vtts) (op : Op) (q : State × Vtts) : Prop :=
  Step p.1 op q.1 ∧ q.2 = p.2.after p.1 op q.1

/-- A thread is left only with its alarm set or with nothing saved; an alarm is set by a word,
and the counter is not about to wrap. -/
structure VttSafe (s : State) (op : Op) : Prop where
  left : ∀ t, s.successor op = some t → t ≠ s.current →
    (s.timer (s.current, .vtt)).valid = true ∨ (s.thread s.current).vttAlmdiff = 0
  word : ∀ a diff, op = .alarm a diff → diff < 2 ^ 32
  counter : s.counter + 2 ^ 32 ≤ 2 ^ 64

/-- A step at which the alarms are safe. -/
def VttStep (p : State × Vtts) (op : Op) (q : State × Vtts) : Prop :=
  HistoryStep p op q ∧ VttSafe p.1 op

/-- The alarm of `t` is due by the time that the counter is at `counter`. -/
def DueBy (s : State) (g : Vtts) (counter t : Nat) : Prop :=
  t = s.current ∧ ∃ due, g.due t = some due ∧ due ≤ g.vt t + (counter - s.counter)

/-- `do_timer` raises a virtual alarm only when it is set and due, and does so when it is due
if the list of timers is sorted; what it raises, it raises once.  It panics only at a signal that
is out of range. -/
structure VttOk (s : State) (g : Vtts) : Prop where
  sound : ∀ counter, s.counter ≤ counter → ∀ t,
    (t, Alarm.vtt) ∈ { s with counter := counter }.expired → DueBy s g counter t
  prompt : Sorted s → ∀ counter, s.counter ≤ counter → ∀ t,
    DueBy s g counter t → (t, Alarm.vtt) ∈ { s with counter := counter }.expired
  once : ∀ counter, match { s with counter := counter }.doTimer with
    | .ok s' =>
        (∀ k ∈ { s with counter := counter }.expired, k ∉ s'.timers) ∧
          ∀ u, (s'.thread u).softintrs = s.pending { s with counter := counter }.expired u
    | .error e =>
        e = .signal ∧ ∃ k ∈ { s with counter := counter }.expired, ¬(s.timer k).InRange

/-! ## The invariant -/

/-- The timer of the current thread is set for when its alarm is due; for any other thread
what remains is saved. -/
structure VttInv (s : State) (g : Vtts) : Prop where
  set : ∀ due, g.due s.current = some due → (s.timer (s.current, .vtt)).valid = true ∧
    (s.timer (s.current, .vtt)).time + g.vt s.current = s.counter + due ∧
    due < g.vt s.current + 2 ^ 32
  unset : g.due s.current = none → (s.timer (s.current, .vtt)).valid = false
  saved : ∀ t, t ≠ s.current → ∀ due, g.due t = some due →
    due = g.vt t + (s.thread t).vttAlmdiff ∧ 0 < (s.thread t).vttAlmdiff ∧
      (s.thread t).vttAlmdiff < 2 ^ 32
  clear : ∀ t, t ≠ s.current → g.due t = none → (s.thread t).vttAlmdiff = 0
  unborn : ∀ t, s.next ≤ t → g.due t = none

variable {s s' : State} {g : Vtts} {t u vect : Nat} {k : Key} {op : Op} {ops : List Op}
  {newst : Status}

/-- The timers, and what is saved of the virtual alarms, are the same in both states. -/
structure SameVtts (s s' : State) : Prop extends SameTimers s s' where
  almdiff : ∀ t, (s'.thread t).vttAlmdiff = (s.thread t).vttAlmdiff

namespace SameVtts

theorem refl (s : State) : SameVtts s s := ⟨.refl s, fun _ ↦ rfl⟩

theorem trans {s'' : State} (h : SameVtts s s') (h' : SameVtts s' s'') : SameVtts s s'' :=
  ⟨h.toSameTimers.trans h'.toSameTimers, fun t ↦ (h'.almdiff t).trans (h.almdiff t)⟩

/-- A thread is written, with what is saved as it was. -/
theorem setThread (s : State) (t : Nat) {th : Thread}
    (h : th.vttAlmdiff = (s.thread t).vttAlmdiff) : SameVtts s (s.setThread t th) :=
  ⟨.setThread s t th, State.setThread_field h⟩

theorem wake (s : State) (t : Nat) : SameVtts s (s.wake t) :=
  ⟨.wake s t, State.wake_field (fun _ _ ↦ rfl) s t⟩

theorem thraise (h : s.thraise t vect = .ok s') : SameVtts s s' := by
  rw [State.thraise] at h
  split at h
  · rw [← Except.ok.inj h]
    exact (setThread s t (by rfl)).trans (wake _ t)
  · cases h

theorem requeue (s : State) (t : Nat) (newst : Status) : SameVtts s (s.requeue t newst) := by
  have hset : SameVtts s (s.setStatus t newst) := setThread s t rfl
  refine ⟨.requeue s t newst, fun u ↦ ?_⟩
  cases newst <;> exact hset.almdiff u

theorem pick (s : State) (newst : Status) : SameVtts s (s.pick newst).2 :=
  ⟨.pick s newst, almdiff_pick s newst⟩

theorem deliver (s : State) : SameVtts s s.deliver := by
  simp only [State.deliver]
  split
  · exact setThread s _ rfl
  · exact refl s

theorem childstat (s : State) : SameVtts s s.childstat.2 := by
  refine ⟨.childstat s, fun t ↦ ?_⟩
  rw [State.childstat]
  cases s.zombies s.current <;> rfl

theorem doZombie (h : s.doZombie = .ok s') : SameVtts s s' := by
  refine ⟨.doZombie h, fun t ↦ ?_⟩
  rw [State.doZombie] at h
  split at h
  · rw [← Except.ok.inj h]
  · dsimp only at h
    split at h
    · split at h
      · cases h
      · exact (thraise h).almdiff t
    · cases h

theorem parting {status : Nat} (h : s.parting status = .ok s') : SameVtts s s' :=
  ⟨.parting h, almdiff_parting h⟩

/-- What `schedule` does to the timers and to what is saved. -/
theorem schedule_cases (s : State) (newst : Status) :
    SameVtts s (s.schedule newst) ∨
    (newst ≠ .running ∧ ¬(newst = .stopped ∧ s.hasInterrupts s.current) ∧
      (s.pick newst).1 ≠ s.current) ∧
      SameVtts (((s.pick newst).2.switchFrom s.current).switchTo (s.pick newst).1)
        (s.schedule newst) := by
  rcases schedule_eq s newst with (hs | hs) | ⟨hn, hs | hs⟩
  · rw [hs]
    exact .inl (refl s)
  · rw [hs]
    exact .inl (pick s newst)
  · rw [hs]
    exact .inr ⟨hn, refl _⟩
  · rw [hs]
    exact .inr ⟨hn, requeue _ _ _⟩

/-- Firing a timer leaves what is saved alone. -/
theorem almdiff_fire (h : s.fire k = .ok s') (t : Nat) :
    (s'.thread t).vttAlmdiff = (s.thread t).vttAlmdiff := by
  rw [State.fire] at h
  obtain ⟨s₁, h₁, h⟩ := bind_eq_ok.1 h
  rw [← Except.ok.inj h]
  simp only [State.raiseTimer] at h₁
  split at h₁
  · exact (thraise h₁).almdiff t
  · rw [← Except.ok.inj h₁]
    rfl

end SameVtts

section Firing

variable {ks : List Key}

/-- What firing timers leaves alone. -/
theorem foldlM_fire_same (h : ks.foldlM State.fire s = .ok s') :
    (∀ t, (s'.thread t).vttAlmdiff = (s.thread t).vttAlmdiff) ∧ s'.counter = s.counter ∧
      s'.next = s.next ∧ s'.current = s.current := by
  refine foldlM_invariant (I := fun x : State ↦
    (∀ t, (x.thread t).vttAlmdiff = (s.thread t).vttAlmdiff) ∧ x.counter = s.counter ∧
      x.next = s.next ∧ x.current = s.current) ?_ h ⟨fun _ ↦ rfl, rfl, rfl, rfl⟩
  rintro x k y - ⟨hd, hcn, hn, hc⟩ hf
  have hfired := State.fired hf
  exact ⟨fun t ↦ (SameVtts.almdiff_fire hf t).trans (hd t), hfired.counter.trans hcn,
    hfired.next.trans hn, hfired.current.trans hc⟩

/-- A timer is fired once, or left alone. -/
theorem timer_foldlM_fire (h : ks.foldlM State.fire s = .ok s') (k : Key) :
    s'.timer k = if k ∈ ks then { s.timer k with valid := false } else s.timer k := by
  induction ks generalizing s with
  | nil =>
      rw [← Except.ok.inj h]
      rfl
  | cons j ks ih =>
      rw [List.foldlM_cons] at h
      obtain ⟨s₁, h₁, h⟩ := bind_eq_ok.1 h
      rw [ih h, (State.fired h₁).timer]
      by_cases hk : k = j
      · subst hk
        rw [Function.update_self, if_pos List.mem_cons_self, ite_self]
      · rw [Function.update_of_ne hk]
        exact if_congr (by rw [List.mem_cons, or_iff_right hk]) rfl rfl

end Firing

/-! ### Setting an alarm -/

@[simp] theorem thread_timerRemove (s : State) (k : Key) :
    (s.timerRemove k).thread = s.thread := by
  rw [State.timerRemove]
  split <;> rfl

@[simp] theorem thread_setAlarm (s : State) (a : Alarm) (diff : Nat) :
    (s.setAlarm a diff).thread = s.thread := by
  rw [setAlarm_eq]
  exact thread_timerRemove s _

@[simp] theorem counter_setAlarm (s : State) (a : Alarm) (diff : Nat) :
    (s.setAlarm a diff).counter = s.counter := by
  rw [setAlarm_eq]
  exact counter_timerRemove s _

/-- The timer that `schedule` stops. -/
theorem timer_switchFrom (s : State) (t : Nat) : (s.switchFrom t).timer =
    Function.update s.timer (t, .vtt) { s.timer (t, .vtt) with valid := false } := by
  obtain ⟨th, he⟩ := switchFrom_eq s t
  rw [he]
  exact timer_timerRemove _ _

/-- What `schedule` saves of the alarm of the thread that it leaves. -/
theorem almdiff_switchFrom (s : State) (t : Nat) : ((s.switchFrom t).thread t).vttAlmdiff =
    if (s.timer (t, .vtt)).valid = true then
      if s.counter < (s.timer (t, .vtt)).time then
        w32 ((s.timer (t, .vtt)).time - s.counter)
      else 1
    else (s.thread t).vttAlmdiff := by
  rw [State.switchFrom, thread_timerRemove]
  dsimp only
  rw [State.setThread]
  dsimp only
  rw [Function.update_self]
  split
  · rfl
  · rfl

/-- Beside the thread that `schedule` comes to, what is saved is what it has saved. -/
theorem almdiff_resumed_of_ne (h : u ≠ t) : ((s.resumed t).thread u).vttAlmdiff =
    ((s.switchFrom s.current).thread u).vttAlmdiff := by
  show (Function.update (s.switchFrom s.current).thread t _ u).vttAlmdiff = _
  rw [Function.update_of_ne h]

@[simp] theorem counter_resumed (s : State) (t : Nat) : (s.resumed t).counter = s.counter :=
  counter_switchFrom s _

namespace VttInv

theorem boot : VttInv boot .boot where
  set _ h := nomatch h
  unset _ := rfl
  saved _ _ _ h := nomatch h
  clear _ _ _ := rfl
  unborn _ _ := rfl

/-- The invariant is about the virtual timer of the current thread, and about what is saved. -/
theorem of_eq (h : VttInv s g) (hc : s'.current = s.current) (hn : s'.next = s.next)
    (hcn : s'.counter = s.counter)
    (hv : (s'.timer (s.current, .vtt)).valid = (s.timer (s.current, .vtt)).valid)
    (ht : (s'.timer (s.current, .vtt)).time = (s.timer (s.current, .vtt)).time)
    (hd : ∀ t, (s'.thread t).vttAlmdiff = (s.thread t).vttAlmdiff) : VttInv s' g where
  set due hdue := by
    rw [hc] at hdue ⊢
    rw [hv, ht, hcn]
    exact h.set due hdue
  unset hdue := by
    rw [hc] at hdue ⊢
    rw [hv]
    exact h.unset hdue
  saved t hne due hdue := by
    rw [hc] at hne
    rw [hd]
    exact h.saved t hne due hdue
  clear t hne hdue := by
    rw [hc] at hne
    rw [hd]
    exact h.clear t hne hdue
  unborn t hle := by
    rw [hn] at hle
    exact h.unborn t hle

theorem congr (h : VttInv s g) (hs : SameVtts s s') : VttInv s' g :=
  h.of_eq hs.current hs.next hs.counter (by rw [hs.timer]) (by rw [hs.timer]) hs.almdiff

/-- Time passes. -/
theorem tick {counter : Nat} (h : VttInv s g) (hc : s.counter ≤ counter) :
    VttInv { s with counter := counter } (g.pass s.current (counter - s.counter)) where
  set due hd := by
    obtain ⟨hv, ht, hlt⟩ := h.set due hd
    have hvt : (g.pass s.current (counter - s.counter)).vt s.current =
        g.vt s.current + (counter - s.counter) := Function.update_self ..
    refine ⟨hv, ?_, ?_⟩
    · show (s.timer (s.current, .vtt)).time + (g.pass _ _).vt s.current = counter + due
      rw [hvt]
      omega
    · show due < (g.pass _ _).vt s.current + 2 ^ 32
      rw [hvt]
      omega
  unset := h.unset
  saved t hne due hd := by
    have hvt : (g.pass s.current (counter - s.counter)).vt t = g.vt t :=
      Function.update_of_ne hne ..
    rw [hvt]
    exact h.saved t hne due hd
  clear := h.clear
  unborn := h.unborn

/-- The current thread sets its alarm. -/
theorem arm {diff : Nat} (h : VttInv s g) (hc : s.current < s.next) (hd : diff < 2 ^ 32)
    (hroll : s.counter + 2 ^ 32 ≤ 2 ^ 64) :
    VttInv (s.setAlarm .vtt diff) (g.set s.current (some (g.vt s.current + diff))) where
  set due hdue := by
    rw [current_setAlarm, Vtts.set_due_self] at hdue
    cases hdue
    have hexp : s.expiry diff = s.counter + diff := Nat.mod_eq_of_lt (by omega)
    rw [current_setAlarm, timer_setAlarm, Function.update_self, counter_setAlarm, hexp]
    refine ⟨rfl, ?_, ?_⟩
    · show s.counter + diff + g.vt s.current = s.counter + (g.vt s.current + diff)
      omega
    · show g.vt s.current + diff < g.vt s.current + 2 ^ 32
      omega
  unset hdue := by
    rw [current_setAlarm, Vtts.set_due_self] at hdue
    cases hdue
  saved t hne due hdue := by
    rw [current_setAlarm] at hne
    rw [Vtts.set_due_of_ne _ _ hne] at hdue
    rw [thread_setAlarm]
    exact h.saved t hne due hdue
  clear t hne hdue := by
    rw [current_setAlarm] at hne
    rw [Vtts.set_due_of_ne _ _ hne] at hdue
    rw [thread_setAlarm]
    exact h.clear t hne hdue
  unborn t ht := by
    rw [next_setAlarm] at ht
    rw [Vtts.set_due_of_ne _ _ (Nat.ne_of_gt (Nat.lt_of_lt_of_le hc ht))]
    exact h.unborn t ht

/-- The current thread sets its other alarm. -/
theorem armReal {diff : Nat} (h : VttInv s g) : VttInv (s.setAlarm .rtt diff) g := by
  have htm : (s.setAlarm .rtt diff).timer (s.current, .vtt) = s.timer (s.current, .vtt) := by
    rw [timer_setAlarm]
    exact Function.update_of_ne (fun he ↦ Alarm.noConfusion (congrArg Prod.snd he)) ..
  refine h.of_eq (current_setAlarm ..) (next_setAlarm ..) (counter_setAlarm ..) ?_ ?_ fun t ↦ ?_
  · rw [htm]
  · rw [htm]
  · rw [thread_setAlarm]

/-- The thread `t` before its alarm is set again, which it has not set itself. -/
theorem resumed (h : VttInv s g) (hl : Listed s) (hc : s.current < s.next) (hne : t ≠ s.current)
    (hsafe : (s.timer (s.current, .vtt)).valid = true ∨ (s.thread s.current).vttAlmdiff = 0) :
    VttInv (s.resumed t) ((g.left s.current).set t none) where
  set due hd := by
    change ((g.left s.current).set t none).due t = some due at hd
    rw [Vtts.set_due_self] at hd
    cases hd
  unset _ := by
    show ((s.switchFrom s.current).timer (t, .vtt)).valid = false
    have hk : (t, Alarm.vtt) ≠ (s.current, .vtt) := fun he ↦ hne (congrArg Prod.fst he)
    rw [timer_switchFrom, Function.update_of_ne hk, Bool.eq_false_iff]
    exact fun hv ↦ hne (hl.virt t ((hl.valid _).2 hv))
  saved u hu due hd := by
    change u ≠ t at hu
    rw [Vtts.set_due_of_ne _ _ hu] at hd
    rw [almdiff_resumed_of_ne hu]
    show due = g.vt u + _ ∧ _
    by_cases hcur : u = s.current
    · subst hcur
      rw [Vtts.left, Vtts.set_due_self] at hd
      obtain ⟨due', hd', rfl⟩ := Option.map_eq_some_iff.1 hd
      obtain ⟨hv, ht, hlt⟩ := h.set due' hd'
      rw [almdiff_switchFrom, if_pos hv]
      by_cases hle : due' ≤ g.vt s.current
      · rw [if_pos hle, if_neg (by omega)]
        omega
      · have hdiff : (s.timer (s.current, Alarm.vtt)).time - s.counter < 2 ^ 32 := by omega
        rw [if_neg hle, if_pos (by omega), w32, Nat.mod_eq_of_lt hdiff]
        omega
    · rw [Vtts.left, Vtts.set_due_of_ne _ _ hcur] at hd
      rw [thread_switchFrom hcur]
      exact h.saved u hcur due hd
  clear u hu hd := by
    change u ≠ t at hu
    rw [Vtts.set_due_of_ne _ _ hu] at hd
    rw [almdiff_resumed_of_ne hu]
    by_cases hcur : u = s.current
    · subst hcur
      rw [Vtts.left, Vtts.set_due_self, Option.map_eq_none_iff] at hd
      have hv := h.unset hd
      rw [almdiff_switchFrom, if_neg (by rw [hv]; exact Bool.false_ne_true)]
      rw [hv] at hsafe
      exact hsafe.resolve_left Bool.false_ne_true
    · rw [Vtts.left, Vtts.set_due_of_ne _ _ hcur] at hd
      rw [thread_switchFrom hcur]
      exact h.clear u hcur hd
  unborn u hu := by
    change (s.switchFrom s.current).next ≤ u at hu
    rw [next_switchFrom] at hu
    by_cases hut : u = t
    · subst hut
      exact Vtts.set_due_self ..
    · rw [Vtts.set_due_of_ne _ _ hut, Vtts.left,
        Vtts.set_due_of_ne _ _ (Nat.ne_of_gt (Nat.lt_of_lt_of_le hc hu))]
      exact h.unborn u hu

/-- The thread is left for another one. -/
theorem switch (h : VttInv s g) (hl : Listed s) (hc : s.current < s.next) (ht : t < s.next)
    (hne : t ≠ s.current)
    (hsafe : (s.timer (s.current, .vtt)).valid = true ∨ (s.thread s.current).vttAlmdiff = 0)
    (hroll : s.counter + 2 ^ 32 ≤ 2 ^ 64) :
    VttInv ((s.switchFrom s.current).switchTo t) (g.left s.current) := by
  have hres := h.resumed hl hc hne hsafe
  have hdue : (g.left s.current).due t = g.due t := Vtts.set_due_of_ne _ _ hne
  rw [switchTo_eq, almdiff_resumed hne]
  cases hd : g.due t with
  | none =>
      have hzero := h.clear t hne hd
      rw [hd] at hdue
      rw [Vtts.set_eq_self hdue] at hres
      rw [if_neg (not_not.2 hzero)]
      exact hres
  | some due =>
      obtain ⟨heq, hpos, hlt⟩ := h.saved t hne due hd
      have ht' : (s.resumed t).current < (s.resumed t).next := by
        show t < (s.switchFrom s.current).next
        rwa [next_switchFrom]
      have harm := hres.arm ht' hlt (by rw [counter_resumed]; exact hroll)
      change VttInv _ (((g.left s.current).set t none).set t
        (some (g.vt t + (s.thread t).vttAlmdiff))) at harm
      rw [Vtts.set_set, ← heq, Vtts.set_eq_self (hdue.trans hd)] at harm
      rw [if_pos hpos.ne']
      exact harm

/-- A thread is left only as it is safe to leave it, or `schedule` goes on with it. -/
theorem schedule (h : VttInv s g) (hT : TInv s) (hc : s.current < s.next)
    (ht : (s.pick newst).1 < s.next)
    (hsafe : newst ≠ .running → ¬(newst = .stopped ∧ s.hasInterrupts s.current) →
      (s.pick newst).1 ≠ s.current →
      (s.timer (s.current, .vtt)).valid = true ∨ (s.thread s.current).vttAlmdiff = 0)
    (hroll : s.counter + 2 ^ 32 ≤ 2 ^ 64) :
    VttInv (s.schedule newst)
      (if (s.schedule newst).current = s.current then g else g.left s.current) := by
  have hp := SameVtts.pick s newst
  rcases SameVtts.schedule_cases s newst with hs | ⟨⟨hn, hi, hne⟩, hs⟩
  · rw [if_pos hs.current]
    exact h.congr hs
  · have hsafe := hsafe hn hi hne
    rw [← hp.timer, ← hp.current, ← hp.almdiff] at hsafe
    rw [← hp.current] at hs hne hc ⊢
    rw [← hp.next] at hc ht
    rw [← hp.counter] at hroll
    have hcur : (((s.pick newst).2.switchFrom (s.pick newst).2.current).switchTo
        (s.pick newst).1).current = (s.pick newst).1 := by
      rw [switchTo_eq]
      split
      · exact current_setAlarm ..
      · rfl
    rw [if_neg (by rw [hs.current, hcur]; exact hne)]
    have hl := (hT.congr hp.toSameTimers).toListed
    exact ((h.congr hp).switch hl hc ht hne hsafe hroll).congr hs

/-- The new thread has set no alarm. -/
theorem thfork (h : VttInv s g) (hc : s.current < s.next) : VttInv s.thfork g := by
  have htm : s.thfork.timer (s.current, .vtt) = s.timer (s.current, .vtt) := by
    have hne : ∀ a, (s.current, Alarm.vtt) ≠ (s.next, a) :=
      fun a he ↦ hc.ne (congrArg Prod.fst he)
    show Function.update (Function.update s.timer _ _) _ _ (s.current, Alarm.vtt) = _
    rw [Function.update_of_ne (hne _), Function.update_of_ne (hne _)]
  have hth : ∀ t, t ≠ s.next → s.thfork.thread t = s.thread t :=
    fun t ht ↦ Function.update_of_ne ht ..
  have hnew : (s.thfork.thread s.next).vttAlmdiff = 0 := by
    show (Function.update s.thread s.next _ s.next).vttAlmdiff = 0
    rw [Function.update_self]
  refine ⟨fun due hd ↦ ?_, fun hd ↦ ?_, fun t hne due hd ↦ ?_, fun t hne hd ↦ ?_, fun t ht ↦ ?_⟩
  · show (s.thfork.timer (s.current, .vtt)).valid = true ∧
      (s.thfork.timer (s.current, .vtt)).time + g.vt s.current = s.counter + due ∧ _
    rw [htm]
    exact h.set due hd
  · show (s.thfork.timer (s.current, .vtt)).valid = false
    rw [htm]
    exact h.unset hd
  · have ht : t ≠ s.next := by
      rintro rfl
      rw [h.unborn s.next le_rfl] at hd
      cases hd
    rw [hth t ht]
    exact h.saved t hne due hd
  · by_cases ht : t = s.next
    · rw [ht]
      exact hnew
    · rw [hth t ht]
      exact h.clear t hne hd
  · exact h.unborn t (Nat.le_of_succ_le ht)

/-- The signal of a timer does not matter to the alarms. -/
theorem irqmap (h : VttInv s g) (k : Key) (n : Nat) :
    VttInv (s.setTimer k { s.timer k with sig := n }) g :=
  h.of_eq rfl rfl rfl (timer_sig s k _ n).1 (timer_sig s k _ n).2 fun _ ↦ rfl

/-- The alarm of the current thread is raised. -/
theorem fired (h : VttInv s g) (hc : s'.current = s.current) (hn : s'.next = s.next)
    (hv : (s'.timer (s.current, .vtt)).valid = false)
    (hd : ∀ t, (s'.thread t).vttAlmdiff = (s.thread t).vttAlmdiff) :
    VttInv s' (g.set s.current none) where
  set due hdue := by
    rw [hc, Vtts.set_due_self] at hdue
    cases hdue
  unset _ := by
    rw [hc, hv]
  saved t hne due hdue := by
    rw [hc] at hne
    rw [Vtts.set_due_of_ne _ _ hne] at hdue
    rw [hd]
    exact h.saved t hne due hdue
  clear t hne hdue := by
    rw [hc] at hne
    rw [Vtts.set_due_of_ne _ _ hne] at hdue
    rw [hd]
    exact h.clear t hne hdue
  unborn t hle := by
    rw [hn] at hle
    by_cases ht : t = s.current
    · rw [ht, Vtts.set_due_self]
    · rw [Vtts.set_due_of_ne _ _ ht]
      exact h.unborn t hle

/-- The alarm of the current thread is raised when it has expired. -/
theorem doTimer (h : VttInv s g) (hd : s.doTimer = .ok s') :
    VttInv s' (if (s.current, .vtt) ∈ s.expired then g.set s.current none else g) := by
  rw [State.doTimer] at hd
  obtain ⟨s₁, h₁, hd⟩ := bind_eq_ok.1 hd
  obtain ⟨hdiff, hcn, hn, hc⟩ := foldlM_fire_same h₁
  have htm := timer_foldlM_fire h₁ (s.current, .vtt)
  have h' : VttInv s₁ (if (s.current, .vtt) ∈ s.expired then g.set s.current none else g) := by
    split at htm
    · next hm =>
        rw [if_pos hm]
        exact h.fired hc hn (by rw [htm]) hdiff
    · next hm =>
        rw [if_neg hm]
        exact h.of_eq hc hn hcn (by rw [htm]) (by rw [htm]) hdiff
  rw [← Except.ok.inj hd]
  split
  · exact h'.of_eq rfl rfl rfl rfl rfl fun _ ↦ rfl
  · exact h'

/-- `do_softirq` raises the alarm of the current thread when it has expired. -/
theorem doSoftirq (h : VttInv s g) (hs : s.doSoftirq = .ok s') :
    VttInv s' (if s.softTimer ∧ (s.current, .vtt) ∈ s.expired then g.set s.current none
      else g) := by
  simp only [State.doSoftirq, State.softirqs] at hs
  obtain ⟨s₁, h₁, h₂⟩ := bind_eq_ok.1 hs
  have hsoft : SameVtts s.deliver { s.deliver with softZombie := false, softTimer := false } :=
    ⟨⟨rfl, rfl, rfl, rfl, rfl, rfl⟩, fun _ ↦ rfl⟩
  have hsame : SameVtts s s₁ := by
    refine ((SameVtts.deliver s).trans hsoft).trans ?_
    split at h₁
    · exact .doZombie h₁
    · rw [← Except.ok.inj h₁]
      exact .refl _
  have h' := h.congr hsame
  have hst : s.deliver.softTimer = s.softTimer := by
    simp only [State.deliver]
    split <;> rfl
  rw [← hst]
  split at h₂
  · next ht =>
      have hexp : s₁.expired = s.expired := by
        rw [State.expired, State.expired, hsame.timers, hsame.timer, hsame.counter]
      have hd := h'.doTimer h₂
      rw [hexp, hsame.current] at hd
      rw [if_congr (and_iff_right ht) rfl rfl]
      exact hd
  · next ht =>
      rw [← Except.ok.inj h₂, if_neg fun hc ↦ ht hc.1]
      exact h'

end VttInv

/-! ## Runs -/

/-- A call that stays with the thread leaves the virtual times alone. -/
theorem VttInv.stay (h : VttInv s' g) (hc : s'.current = s.current) :
    VttInv s' (if s'.current = s.current then g else g.left s.current) := by
  rw [if_pos hc]
  exact h

/-- Every step at which the alarms are safe keeps the invariant. -/
theorem step_vtt {p q : State × Vtts} (hq : QInv p.1.queues) (hT : TInv p.1)
    (h : VttInv p.1 p.2) (hs : VttStep p op q) : VttInv q.1 q.2 := by
  obtain ⟨s, g⟩ := p
  obtain ⟨s', g'⟩ := q
  obtain ⟨⟨⟨hal, hs⟩, hg⟩, hsafe⟩ := hs
  dsimp only at hq hT h hal hs hg hsafe ⊢
  rw [hg]
  have hcur := hq.current_lt
  cases op with
  | fork =>
      rw [← Except.ok.inj hs]
      exact (h.thfork hcur).stay rfl
  | yield =>
      rw [← Except.ok.inj hs]
      refine h.schedule hT hcur (hq.pick_lt _) (fun _ _ ↦ ?_) hsafe.counter
      rw [pick_fst]
      exact hsafe.left _ rfl
  | wait =>
      rw [← Except.ok.inj hs]
      have hset : SameVtts s (s.setThread s.current { s.thread s.current with intr := true }) :=
        .setThread s _ rfl
      have hq' : QInv (s.setThread s.current { s.thread s.current with intr := true }).queues :=
        hq.setThread rfl rfl
      refine (h.congr hset).schedule (hT.congr hset.toSameTimers) hcur (hq'.pick_lt _)
        (fun _ hi hne ↦ ?_) hsafe.counter
      rw [hset.timer, hset.current, hset.almdiff]
      rw [pick_fst] at hne
      refine hsafe.left _ ?_ hne
      rw [State.successor, if_neg]
      · rfl
      · intro hp
        refine hi ⟨rfl, ?_⟩
        show ((Function.update s.thread s.current _ s.current).intr &&
          (Function.update s.thread s.current _ s.current).softintrs ≠ 0) = true
        rw [Function.update_self]
        simpa using hp
  | sti =>
      rw [← Except.ok.inj hs]
      exact (h.congr (.setThread s _ (by rfl))).stay rfl
  | cli =>
      rw [← Except.ok.inj hs]
      exact (h.congr (.setThread s _ (by rfl))).stay rfl
  | exit status =>
      obtain ⟨hp, s₁, h₁, rfl⟩ := State.exit_ok hs
      have hsame := SameVtts.parting h₁
      have hq₁ := (hq.parting hp h₁).1
      have hsch := (h.congr hsame).schedule (hT.congr hsame.toSameTimers)
        hq₁.current_lt (hq₁.pick_lt .zombie) (fun _ _ hne ↦ ?_) ?_
      · rw [hsame.current] at hsch
        exact hsch
      · rw [hsame.timer, hsame.current, hsame.almdiff]
        rw [pick_fst, running_parting h₁, idle_parting h₁, hsame.current] at hne
        exact hsafe.left _ rfl hne
      · rw [hsame.counter]
        exact hsafe.counter
  | childstat =>
      rw [← Except.ok.inj hs]
      exact (h.congr (.childstat s)).stay (SameVtts.childstat s).current
  | wake t =>
      rw [← Except.ok.inj hs]
      exact (h.congr (.wake s t)).stay (SameVtts.wake s t).current
  | raise t vect => exact (h.congr (.thraise hs)).stay (SameVtts.thraise hs).current
  | softirq => exact h.doSoftirq hs
  | alarm a diff =>
      rw [← Except.ok.inj hs]
      cases a with
      | rtt => exact h.armReal.stay (current_setAlarm ..)
      | vtt => exact h.arm hcur (hsafe.word _ _ rfl) hsafe.counter
  | irqmap a sig =>
      rw [← Except.ok.inj hs]
      exact (h.irqmap _ _).stay rfl
  | idle =>
      rw [← Except.ok.inj hs]
      refine h.schedule hT hcur (hq.pick_lt _) (fun _ hi ↦ ?_) hsafe.counter
      rw [pick_fst]
      refine hsafe.left _ ?_
      rw [State.successor, if_neg fun hc ↦ hi ⟨rfl, hc⟩]
      rfl
  | event =>
      rw [← Except.ok.inj hs]
      exact VttInv.stay (s := s) (h.of_eq rfl rfl rfl rfl rfl fun _ ↦ rfl) rfl
  | tick counter =>
      rw [← Except.ok.inj hs]
      exact h.tick hal

/-- The queues, the timers and the virtual alarms in every state that a run reaches. -/
theorem run_vtt {p q : State × Vtts} (h : Run VttStep p ops q)
    (hp : QInv p.1.queues ∧ TInv p.1 ∧ VttInv p.1 p.2) :
    QInv q.1.queues ∧ TInv q.1 ∧ VttInv q.1 q.2 := by
  refine h.invariant (I := fun p ↦ QInv p.1.queues ∧ TInv p.1 ∧ VttInv p.1 p.2) ?_ hp
  rintro p op q ⟨hq, hT, hI⟩ hs
  exact ⟨step_qinv hq hs.1.1, step_tinv hq hT hs.1.1, step_vtt hq hT hI hs⟩

/-- What `do_timer` finds on the list. -/
theorem VttInv.vttOk (h : VttInv s g) (hT : TInv s) : VttOk s g where
  sound counter hle t hm := by
    have hmem : (t, Alarm.vtt) ∈ s.timers := List.takeWhile_subset _ hm
    have ht := hT.virt t hmem
    have hv := (hT.valid _).1 hmem
    have htime : (s.timer (t, .vtt)).time ≤ counter := by
      simpa using List.mem_takeWhile_imp hm
    rw [ht] at hv htime
    cases hd : g.due s.current with
    | none =>
        rw [h.unset hd] at hv
        cases hv
    | some due =>
        obtain ⟨-, heq, -⟩ := h.set due hd
        rw [ht]
        exact ⟨rfl, due, hd, by omega⟩
  prompt hs counter hle t hdue := by
    obtain ⟨rfl, due, hd, hby⟩ := hdue
    obtain ⟨hv, heq, -⟩ := h.set due hd
    rw [State.expired]
    show _ ∈ s.timers.takeWhile fun k ↦ (s.timer k).time ≤ counter
    rw [(hs.split counter).1, List.mem_filter]
    refine ⟨(hT.valid _).2 hv, decide_eq_true ?_⟩
    omega
  once counter := by
    have hcut : { s with counter := counter }.timers = { s with counter := counter }.expired ++
        s.timers.dropWhile fun k ↦ (s.timer k).time ≤ counter :=
      (List.takeWhile_append_dropWhile ..).symm
    have hn : { s with counter := counter }.timers.Nodup := hT.nodup
    rcases State.fire_all hcut hn with ⟨s₁, h₁, hrest, hb⟩ | ⟨h₁, hr⟩
    · rw [hcut] at hn
      have hgone : ∀ k ∈ { s with counter := counter }.expired, k ∉ s₁.timers := by
        intro k hk hm
        rw [hrest] at hm
        exact (List.nodup_append.1 hn).2.2 k hk k hm rfl
      rw [State.doTimer, h₁]
      show (∀ k ∈ { s with counter := counter }.expired, k ∉
        (if { s with counter := counter }.expired ≠ [] then s₁.updateAlarm else s₁).timers) ∧ _
      split
      · exact ⟨hgone, hb⟩
      · exact ⟨hgone, hb⟩
    · rw [State.doTimer, h₁]
      exact ⟨rfl, hr⟩

/-- In a run in which a thread is left only with its alarm set or with nothing saved, the
virtual alarms are right in every state. -/
theorem vtt_ok (h : Run VttStep (boot, .boot) ops (s, g)) : VttOk s g := by
  obtain ⟨-, hT, hI⟩ := run_vtt h ⟨qinv_boot, tinv_boot, .boot⟩
  exact hI.vttOk hT

/-- A call, with what it does to the virtual times. -/
theorem history (ha : Allowed s op) (he : exec s op = .ok s') :
    HistoryStep (s, g) op (s', g.after s op s') := ⟨⟨ha, he⟩, rfl⟩

/-- A call other than `schedule` or an alarm is safe until the counter is about to wrap. -/
theorem vttSafe (hs : s.successor op = none) (ha : ∀ a diff, op ≠ .alarm a diff)
    (hc : s.counter + 2 ^ 32 ≤ 2 ^ 64) : VttSafe s op where
  left t ht := by
    rw [hs] at ht
    cases ht
  word a diff he := absurd he (ha a diff)
  counter := hc

/-- `init` sets its virtual alarm and leaves the CPU to a child for a while. -/
theorem vtt_ok_child : ∃ s g, Run VttStep (boot, .boot)
    [.irqmap .vtt 3, .fork, .alarm .vtt 10, .tick 4, .yield, .tick 50, .yield, .tick 56, .event,
      .softirq] (s, g) ∧ (s.thread 1).softintrs = BitVec.twoPow 32 3 ∧ VttOk s g := by
  have hword : ∀ a diff, Op.alarm .vtt 10 = .alarm a diff → diff < 2 ^ 32 := by
    rintro a diff ⟨⟩
    decide
  have h : Run VttStep (boot, .boot)
      [.irqmap .vtt 3, .fork, .alarm .vtt 10, .tick 4, .yield, .tick 50, .yield, .tick 56, .event,
        .softirq] (_, _) :=
    .cons ⟨history trivial rfl, vttSafe rfl nofun (by decide)⟩
      (.cons ⟨history Nat.one_ne_zero rfl, vttSafe rfl nofun (by decide)⟩
        (.cons ⟨history trivial rfl, nofun, hword, by decide⟩
          (.cons ⟨history (Nat.zero_le 4) rfl, vttSafe rfl nofun (by decide)⟩
            (.cons ⟨history trivial rfl, fun _ _ _ ↦ .inl rfl, nofun, by decide⟩
              (.cons ⟨history (show 4 ≤ 50 by decide) rfl, vttSafe rfl nofun (by decide)⟩
                (.cons ⟨history trivial rfl, fun _ _ _ ↦ .inr rfl, nofun, by decide⟩
                  (.cons ⟨history (show 50 ≤ 56 by decide) rfl, vttSafe rfl nofun (by decide)⟩
                    (.cons ⟨history trivial rfl, vttSafe rfl nofun (by decide)⟩
                      (.cons ⟨history trivial rfl, vttSafe rfl nofun (by decide)⟩
                        (.nil _))))))))))
  exact ⟨_, _, h, rfl, vtt_ok h⟩

/-- An alarm that `do_timer` would raise, and that is not set. -/
theorem not_vttOk {counter : Nat} (hle : s.counter ≤ counter)
    (hm : (t, Alarm.vtt) ∈ { s with counter := counter }.expired) (hd : g.due t = none) :
    ¬VttOk s g := by
  intro hok
  obtain ⟨-, due, hdue, -⟩ := hok.sound counter hle t hm
  rw [hd] at hdue
  cases hdue

/-- After its alarm has been raised `init` leaves the CPU once more, and the alarm is set when
it is back. -/
theorem vtt_rearmed : ∃ s g, Run HistoryStep (boot, .boot)
    [.fork, .alarm .vtt 10, .tick 4, .yield, .yield, .tick 10, .event, .softirq, .yield, .yield]
    (s, g) ∧ s.timers = [(1, .vtt)] ∧ g.due 1 = none ∧ ¬VttOk s g := by
  have h : Run HistoryStep (boot, .boot)
      [.fork, .alarm .vtt 10, .tick 4, .yield, .yield, .tick 10, .event, .softirq, .yield, .yield]
      (_, _) :=
    .cons (history Nat.one_ne_zero rfl) (.cons (history trivial rfl)
      (.cons (history (Nat.zero_le 4) rfl) (.cons (history trivial rfl)
        (.cons (history trivial rfl) (.cons (history (show 4 ≤ 10 by decide) rfl)
          (.cons (history trivial rfl) (.cons (history trivial rfl)
            (.cons (history trivial rfl) (.cons (history trivial rfl) (.nil _))))))))))
  refine ⟨_, _, h, ?_, ?_, @not_vttOk _ _ 1 16 ?_ ?_ ?_⟩
  · decide +kernel
  · decide +kernel
  · decide +kernel
  · decide +kernel
  · decide +kernel

end Mh.Sched
