import Mh.Sched.Model
import Mathlib.Data.List.Nodup

/-!
# The queues of the scheduler

`Queues` is what the queues are about: the status of each thread, the queues, and who
is whose child.  Each call acts on it as a function of its own (`queues_schedule` and
the others); the timers and the signals do not matter to it, except that a pending
signal keeps a thread from stopping.

`QInv` says where every thread is.  It is preserved by waking, by the parts of
`schedule`, by `thfork`, and by what becomes of a zombie.
-/

namespace Mh.Sched

open Mh.Lib

/-- The threads as far as the queues are concerned. -/
structure Queues where
  status : Nat → Status
  parent : Nat → Option Nat
  active : Nat → List Nat
  zombies : Nat → List Nat
  freed : Nat → Bool
  next : Nat
  init : Nat
  current : Nat
  idle : Nat
  running : List Nat
  stopped : List Nat
  resched : List Nat

namespace Queues

/-- Created, not freed, and not the idle thread. -/
def Alive (q : Queues) (t : Nat) : Prop := t < q.next ∧ q.freed t = false ∧ t ≠ q.idle

/-- Write the status of a thread. -/
def setStatus (q : Queues) (t : Nat) (st : Status) : Queues :=
  { q with status := Function.update q.status t st }

/-- A stopped thread becomes runnable. -/
def wake (q : Queues) (t : Nat) : Queues :=
  match q.status t with
  | .stopped =>
      { q.setStatus t .runnable with
        stopped := q.stopped.erase t
        running := q.running ++ [t] }
  | _ => q

/-- The next thread leaves its queue. -/
def pick (q : Queues) (newst : Status) : Nat × Queues :=
  match q.running with
  | [] => (if newst = .runnable then q.current else q.idle, q)
  | t :: ts => (t, { q.setStatus t .running with running := ts })

/-- The old thread joins a queue. -/
def requeue (q : Queues) (t : Nat) (newst : Status) : Queues :=
  let q := q.setStatus t newst
  match newst with
  | .runnable => { q with running := q.running ++ [t] }
  | .stopped => { q with stopped := q.stopped ++ [t] }
  | .zombie => { q with resched := q.resched ++ [t] }
  | .running => q

/-- `schedule`, when it is not cut short. -/
def schedule (q : Queues) (newst : Status) : Queues :=
  let old := q.current
  let (th, q) := q.pick newst
  if th = old then q
  else
    let q := { q with current := th }
    if old = q.idle then q else q.requeue old newst

/-- A new thread. -/
def fork (q : Queues) : Queues :=
  { q with
    status := Function.update q.status q.next .runnable
    parent := Function.update q.parent q.next (some q.current)
    active := Function.update (Function.update q.active q.next []) q.current
      (q.next :: q.active q.current)
    zombies := Function.update q.zombies q.next []
    next := q.next + 1
    running := q.running ++ [q.next] }

/-- A zombie is handed to its parent. -/
def mourn (q : Queues) (t p : Nat) (ts : List Nat) : Queues :=
  let zombies := fun r ↦ (q.zombies r).erase t
  { q with
    resched := ts
    active := fun r ↦ (q.active r).erase t
    zombies := Function.update zombies p (t :: zombies p) }

/-- `init` inherits the children of a thread. -/
def inherit (q : Queues) (t : Nat) : Queues :=
  let mine := q.active t ++ q.zombies t
  { q with
    parent := fun c ↦ if c ∈ mine then some q.init else q.parent c
    active := Function.update (Function.update q.active q.init
      ((q.active t).reverse ++ q.active q.init)) t []
    zombies := Function.update (Function.update q.zombies q.init
      ((q.zombies t).reverse ++ q.zombies q.init)) t [] }

/-- A zombie child of the current thread is freed. -/
def reap (q : Queues) (c : Nat) (cs : List Nat) : Queues :=
  { q with
    zombies := Function.update q.zombies q.current cs
    freed := Function.update q.freed c true }

end Queues

/-! ## The calls act on the queues -/

namespace State

variable {s s' : State} {t p : Nat} {k : Key} {newst : Status}

/-- The queues of a state. -/
def queues (s : State) : Queues where
  status t := (s.thread t).status
  parent t := (s.thread t).parent
  active := s.active
  zombies := s.zombies
  freed := s.freed
  next := s.next
  init := s.init
  current := s.current
  idle := s.idle
  running := s.running
  stopped := s.stopped
  resched := s.resched

theorem queues_update {α : Type} (f : Nat → Thread) (g : Thread → α) (t : Nat) (th : Thread) :
    (fun u ↦ g (Function.update f t th u)) = Function.update (fun u ↦ g (f u)) t (g th) := by
  funext u
  by_cases hu : u = t
  · subst hu
    rw [Function.update_self, Function.update_self]
  · rw [Function.update_of_ne hu, Function.update_of_ne hu]

/-- Writing a thread matters as far as its status and its parent change. -/
theorem queues_setThread (s : State) (t : Nat) (th : Thread) : (s.setThread t th).queues =
    { s.queues with
      status := Function.update s.queues.status t th.status
      parent := Function.update s.queues.parent t th.parent } := by
  simp only [queues, setThread]
  rw [queues_update s.thread Thread.status t th, queues_update s.thread Thread.parent t th]

theorem queues_setThread_of_eq {th : Thread} (hst : th.status = (s.thread t).status)
    (hp : th.parent = (s.thread t).parent) : (s.setThread t th).queues = s.queues := by
  rw [queues_setThread, hst, hp]
  have h₁ : Function.update s.queues.status t (s.thread t).status = s.queues.status :=
    Function.update_eq_self t s.queues.status
  have h₂ : Function.update s.queues.parent t (s.thread t).parent = s.queues.parent :=
    Function.update_eq_self t s.queues.parent
  rw [h₁, h₂]

theorem queues_setStatus (s : State) (t : Nat) (st : Status) :
    (s.setStatus t st).queues = s.queues.setStatus t st := by
  rw [setStatus, queues_setThread]
  have hp : Function.update s.queues.parent t (s.thread t).parent = s.queues.parent :=
    Function.update_eq_self t s.queues.parent
  rw [hp]
  rfl

@[simp] theorem queues_setTimer (s : State) (k : Key) (tm : Timer) :
    (s.setTimer k tm).queues = s.queues := rfl

@[simp] theorem queues_updateAlarm (s : State) : s.updateAlarm.queues = s.queues := rfl

@[simp] theorem queues_timerRegister (s : State) (k : Key) :
    (s.timerRegister k).queues = s.queues := rfl

@[simp] theorem queues_timerRemove (s : State) (k : Key) :
    (s.timerRemove k).queues = s.queues := by
  rw [timerRemove]
  split
  · rfl
  · rfl

@[simp] theorem queues_setAlarm (s : State) (a : Alarm) (diff : Nat) :
    (s.setAlarm a diff).queues = s.queues := by
  simp only [setAlarm, queues_timerRegister, queues_setTimer, queues_timerRemove]

theorem queues_wake (s : State) (t : Nat) : (s.wake t).queues = s.queues.wake t := by
  have hst : s.queues.status t = (s.thread t).status := rfl
  rw [wake, Queues.wake, hst, ← queues_setStatus]
  cases (s.thread t).status <;> rfl

theorem queues_thraise (h : s.thraise t p = .ok s') : s'.queues = s.queues.wake t := by
  rw [thraise] at h
  split at h
  · rw [← Except.ok.inj h, queues_wake]
    exact congrArg (Queues.wake · t) (queues_setThread_of_eq rfl rfl)
  · cases h

theorem queues_switchFrom (s : State) (t : Nat) : (s.switchFrom t).queues = s.queues := by
  simp only [switchFrom, queues_timerRemove]
  split
  · exact queues_setThread_of_eq rfl rfl
  · exact queues_setThread_of_eq rfl rfl

theorem queues_switchTo (s : State) (t : Nat) :
    (s.switchTo t).queues = { s.queues with current := t } := by
  have hset : ∀ s : State, ∀ n, (s.setThread t { s.thread t with vttRttbase := n }).queues =
      s.queues := fun s n ↦ queues_setThread_of_eq rfl rfl
  simp only [switchTo]
  split
  · rw [queues_setAlarm, hset]
    rfl
  · rw [hset]
    rfl

theorem queues_requeue (s : State) (t : Nat) (newst : Status) :
    (s.requeue t newst).queues = s.queues.requeue t newst := by
  simp only [requeue, Queues.requeue, ← queues_setStatus]
  cases newst <;> rfl

theorem queues_pick (s : State) (newst : Status) :
    (s.pick newst).1 = (s.queues.pick newst).1 ∧
      (s.pick newst).2.queues = (s.queues.pick newst).2 := by
  have hr : s.queues.running = s.running := rfl
  rw [pick, Queues.pick, hr]
  cases s.running with
  | nil => exact ⟨rfl, rfl⟩
  | cons t ts =>
      refine ⟨rfl, ?_⟩
      simp only [← queues_setStatus]
      rfl

/-- `schedule` returns at once, or does what it does to the queues. -/
theorem queues_schedule (s : State) (newst : Status) :
    (s.schedule newst).queues =
      if newst = .running ∨ newst = .stopped ∧ s.hasInterrupts s.current then s.queues
      else s.queues.schedule newst := by
  rw [schedule]
  split
  · rfl
  · obtain ⟨h₁, h₂⟩ := queues_pick s newst
    have hc : s.queues.current = s.current := rfl
    simp only [Queues.schedule, hc, ← h₁, ← h₂]
    split
    · rfl
    · have hi : (((s.pick newst).2.switchFrom s.current).switchTo (s.pick newst).1).idle =
          (s.pick newst).2.queues.idle := by
        have hq := congrArg Queues.idle
          (queues_switchTo ((s.pick newst).2.switchFrom s.current) (s.pick newst).1)
        rw [queues_switchFrom] at hq
        exact hq
      rw [hi]
      split
      · rw [queues_switchTo, queues_switchFrom]
      · rw [queues_requeue, queues_switchTo, queues_switchFrom]

theorem queues_thfork (s : State) : s.thfork.queues = s.queues.fork := by
  simp only [thfork, queues, Queues.fork]
  rw [queues_update s.thread Thread.status, queues_update s.thread Thread.parent]

theorem queues_inherit (s : State) (t : Nat) : (s.inherit t).queues = s.queues.inherit t := by
  simp only [inherit, queues, Queues.inherit, Queues.mk.injEq, and_true]
  constructor
  · funext c
    split
    · rfl
    · rfl
  · funext c
    exact apply_ite Thread.parent _ _ _

theorem queues_fire (h : s.fire k = .ok s') :
    s'.queues = s.queues ∨ s'.queues = s.queues.wake k.1 := by
  rw [fire] at h
  obtain ⟨s₁, h₁, h⟩ := bind_eq_ok.1 h
  rw [← Except.ok.inj h]
  show s₁.queues = _ ∨ s₁.queues = _
  rw [raiseTimer] at h₁
  split at h₁
  · exact .inr (queues_thraise h₁)
  · rw [← Except.ok.inj h₁]
    exact .inl rfl

end State

end Mh.Sched
