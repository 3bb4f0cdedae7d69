import Mh.Sched.QInv

/-!
# Runs of the scheduler

Every call keeps `QInv` of the queues (`step_qinv`), so it holds in every state that a
run from `boot` reaches.  What it says about a thread is `Placed`: a thread that has been
created and not freed is in one place, that place is the one its status names, and the
idle thread is on no queue.
-/

namespace Mh.Sched

open Mh.Lib

variable {s s' : State} {q : Queues} {t p : Nat} {k : Key} {op : Op} {ops : List Op}
  {newst : Status}

/-! ## Waking changes the place of one thread and nothing else -/

namespace Queues

theorem wake_current (q : Queues) (t : Nat) : (q.wake t).current = q.current := by
  rw [wake]
  cases q.status t <;> rfl

theorem wake_init (q : Queues) (t : Nat) : (q.wake t).init = q.init := by
  rw [wake]
  cases q.status t <;> rfl

theorem wake_parent (q : Queues) (t : Nat) : (q.wake t).parent = q.parent := by
  rw [wake]
  cases q.status t <;> rfl

theorem wake_alive (q : Queues) (t u : Nat) : (q.wake t).Alive u ↔ q.Alive u := by
  rw [wake]
  cases q.status t <;> exact Iff.rfl

end Queues

/-! ## Steps -/

theorem QInv.setThread {th : Thread} (h : QInv s.queues) (hst : th.status = (s.thread t).status)
    (hp : th.parent = (s.thread t).parent) : QInv (s.setThread t th).queues := by
  rw [State.queues_setThread_of_eq hst hp]
  exact h

theorem QInv.thraise (h : QInv s.queues) (hr : s.thraise t p = .ok s') : QInv s'.queues := by
  rw [State.queues_thraise hr]
  exact h.wake t

theorem QInv.fire (h : QInv s.queues) (hf : s.fire k = .ok s') : QInv s'.queues := by
  rcases State.queues_fire hf with he | he
  · rwa [he]
  · rw [he]
    exact h.wake k.1

theorem QInv.doTimer (h : QInv s.queues) (ht : s.doTimer = .ok s') : QInv s'.queues := by
  rw [State.doTimer] at ht
  obtain ⟨s₁, h₁, ht⟩ := bind_eq_ok.1 ht
  have hq : QInv s₁.queues :=
    foldlM_invariant (I := fun s ↦ QInv s.queues) (fun _ _ _ _ hI hf ↦ hI.fire hf) h₁ h
  rw [← Except.ok.inj ht]
  split
  · exact hq
  · exact hq

theorem QInv.doZombie (h : QInv s.queues) (hz : s.doZombie = .ok s') : QInv s'.queues := by
  rw [State.doZombie] at hz
  cases hr : s.resched with
  | nil =>
      rw [hr] at hz
      rw [← Except.ok.inj hz]
      exact h
  | cons t ts =>
      simp only [hr] at hz
      split at hz
      · split at hz
        · cases hz
        · next p hp =>
            rw [State.queues_thraise hz]
            exact (h.mourn hr hp).wake p
      · cases hz

theorem State.queues_deliver (s : State) : s.deliver.queues = s.queues := by
  simp only [deliver]
  split
  · exact queues_setThread_of_eq rfl rfl
  · rfl

theorem QInv.doSoftirq (h : QInv s.queues) (hs : s.doSoftirq = .ok s') : QInv s'.queues := by
  simp only [State.doSoftirq, State.softirqs] at hs
  obtain ⟨s₁, h₁, h₂⟩ := bind_eq_ok.1 hs
  have hq : QInv { s.deliver with softZombie := false, softTimer := false }.queues := by
    show QInv s.deliver.queues
    rw [State.queues_deliver]
    exact h
  have hq₁ : QInv s₁.queues := by
    split at h₁
    · exact QInv.doZombie hq h₁
    · rw [← Except.ok.inj h₁]
      exact hq
  split at h₂
  · exact hq₁.doTimer h₂
  · rw [← Except.ok.inj h₂]
    exact hq₁

/-- `schedule` of a thread that does not exit. -/
theorem QInv.yield (h : QInv s.queues) (hz : newst ≠ .zombie) :
    QInv (s.schedule newst).queues := by
  rw [State.queues_schedule]
  split
  · exact h
  · next hn => exact h.schedule (fun hc ↦ hn (.inl hc)) fun hc ↦ absurd hc hz

/-- What `__exit` does before it schedules. -/
def State.parting (s : State) (status : Nat) : Except Panic State := do
  let s ← (s.inherit s.current).thraise s.init 0
  return s.setThread s.current { s.thread s.current with exitStatus := status }

section Exit

variable {s₁ : State} {status : Nat}

theorem State.exit_ok (h : s.exit status = .ok s') : (s.thread s.current).parent ≠ none ∧
    ∃ s₁, s.parting status = .ok s₁ ∧ s' = s₁.schedule .zombie := by
  rw [exit] at h
  split at h
  · cases h
  · next hp =>
      obtain ⟨s₁, h₁, h⟩ := bind_eq_ok.1 h
      refine ⟨hp, _, bind_eq_ok.2 ⟨s₁, h₁, rfl⟩, (Except.ok.inj h).symm⟩

theorem State.queues_parting (h : s.parting status = .ok s₁) :
    s₁.queues = (s.queues.inherit s.current).wake s.init := by
  obtain ⟨s₂, h₂, h⟩ := bind_eq_ok.1 h
  have hset : (s₂.setThread s₂.current
      { s₂.thread s₂.current with exitStatus := status }).queues = s₂.queues :=
    queues_setThread_of_eq rfl rfl
  rw [← Except.ok.inj h, hset, queues_thraise h₂, queues_inherit]

theorem QInv.parting (h : QInv s.queues) (hp : (s.thread s.current).parent ≠ none)
    (hs : s.parting status = .ok s₁) : QInv s₁.queues ∧ s₁.current ≠ s₁.init ∧
      ∀ u, s₁.queues.Alive u → s₁.queues.parent u ≠ some s₁.current := by
  have hi : s.queues.init ≠ s.current := by
    intro heq
    apply hp
    rw [← heq]
    exact h.init_parent
  obtain ⟨hq, hc⟩ := h.inherit hi
  have hq₁ := State.queues_parting hs
  have hcur : s₁.current = s.current := by
    rw [show s₁.current = s₁.queues.current from rfl, hq₁, Queues.wake_current]
    rfl
  refine ⟨?_, ?_, fun u hu ↦ ?_⟩
  · rw [hq₁]
    exact hq.wake s.init
  · rw [hcur, show s₁.init = s₁.queues.init from rfl, hq₁, Queues.wake_init]
    exact Ne.symm hi
  · rw [hcur]
    rw [hq₁, Queues.wake_alive] at hu
    rw [hq₁, Queues.wake_parent]
    exact hc u hu

/-- The thread that exits has a parent, so it is not `init`; and it has no children
left when it becomes a zombie. -/
theorem QInv.exit (h : QInv s.queues) (he : s.exit status = .ok s') : QInv s'.queues := by
  obtain ⟨hp, s₁, h₁, rfl⟩ := State.exit_ok he
  obtain ⟨hq, hi, hc⟩ := h.parting hp h₁
  rw [State.queues_schedule, if_neg (by simp)]
  exact hq.schedule (by decide) fun _ ↦ ⟨hi, hc⟩

end Exit

theorem QInv.childstat (h : QInv s.queues) : QInv s.childstat.2.queues := by
  rw [State.childstat]
  cases hz : s.zombies s.current with
  | nil => exact h
  | cons c cs => exact h.reap hz

/-- Every call keeps the invariant of the queues. -/
theorem step_qinv (h : QInv s.queues) (hs : Step s op s') : QInv s'.queues := by
  obtain ⟨hal, hs⟩ := hs
  cases op with
  | fork =>
      rw [← Except.ok.inj hs, State.queues_thfork]
      exact h.fork hal
  | yield =>
      rw [← Except.ok.inj hs]
      exact h.yield (by decide)
  | wait =>
      rw [← Except.ok.inj hs]
      have hq : QInv (s.setThread s.current { s.thread s.current with intr := true }).queues :=
        h.setThread rfl rfl
      exact hq.yield (by decide)
  | sti =>
      rw [← Except.ok.inj hs]
      exact h.setThread rfl rfl
  | cli =>
      rw [← Except.ok.inj hs]
      exact h.setThread rfl rfl
  | exit status => exact h.exit hs
  | childstat =>
      rw [← Except.ok.inj hs]
      exact h.childstat
  | wake t =>
      rw [← Except.ok.inj hs, State.queues_wake]
      exact h.wake t
  | raise t vect => exact h.thraise hs
  | softirq => exact h.doSoftirq hs
  | alarm a diff =>
      rw [← Except.ok.inj hs, State.queues_setAlarm]
      exact h
  | irqmap a sig =>
      rw [← Except.ok.inj hs]
      exact h
  | idle =>
      rw [← Except.ok.inj hs]
      exact h.yield (by decide)
  | event =>
      rw [← Except.ok.inj hs]
      exact h
  | tick counter =>
      rw [← Except.ok.inj hs]
      exact h

theorem qinv_boot : QInv boot.queues where
  idle_lt := by decide
  idle_freed := rfl
  fresh _ _ := rfl
  absent _ _ := Status.noConfusion
  init_alive := ⟨by decide, rfl, by decide⟩
  init_parent := rfl
  init_zombie := by decide
  current := .inr ⟨by decide, rfl, by decide⟩
  onCpu t ht := by
    refine iff_of_true rfl ?_
    obtain ⟨hlt, -, hi⟩ := ht
    have hlt : t < 2 := hlt
    have hi : t ≠ 0 := hi
    show t = 1
    omega
  running t := iff_of_false List.not_mem_nil fun h ↦ Status.noConfusion h.2
  stopped t := iff_of_false List.not_mem_nil fun h ↦ Status.noConfusion h.2
  zombie t := by
    refine iff_of_false ?_ fun h ↦ Status.noConfusion h.2
    rintro (h | ⟨p, h⟩)
    · exact List.not_mem_nil h
    · exact List.not_mem_nil h
  resched t ht := absurd ht List.not_mem_nil
  zombies t p ht := absurd ht List.not_mem_nil
  active t p ht := absurd ht List.not_mem_nil
  child t ht hi := by
    obtain ⟨hlt, -, hn⟩ := ht
    have hlt : t < 2 := hlt
    have hn : t ≠ 0 := hn
    have hi : t ≠ 1 := hi
    omega
  nodup_running := List.nodup_nil
  nodup_stopped := List.nodup_nil
  nodup_resched := List.nodup_nil
  nodup_zombies _ := List.nodup_nil
  nodup_active _ := List.nodup_nil

/-- The invariant of the queues holds in every state that a run reaches. -/
theorem run_qinv (h : Run Step boot ops s) : QInv s.queues :=
  h.invariant (I := fun s ↦ QInv s.queues) (fun _ _ _ hq hs ↦ step_qinv hq hs) qinv_boot

/-! ## Places -/

/-- Where a thread can be. -/
inductive Place
  | cpu
  | running
  | stopped
  | resched
  | zombies (p : Nat)
deriving DecidableEq, Repr

/-- The status of the threads of a place. -/
def Place.status : Place → Status
  | .cpu => .running
  | .running => .runnable
  | .stopped => .stopped
  | .resched | .zombies _ => .zombie

/-- The threads of the queues, each as often as it is on them. -/
def State.threads (s : State) : Place → List Nat
  | .cpu => [s.current]
  | .running => s.running
  | .stopped => s.stopped
  | .resched => s.resched
  | .zombies p => s.zombies p

/-- A thread that has been created and not freed is in one place, once, and its status
is that of the place; the idle thread is on no queue; and the scheduler takes the first
runnable thread when there is one. -/
structure Placed (s : State) : Prop where
  place : ∀ t, s.Alive t → ∃ pl, (s.threads pl).count t = 1 ∧ (s.thread t).status = pl.status ∧
    ∀ pl', t ∈ s.threads pl' → pl' = pl
  parent : ∀ t p, t ∈ s.threads (.zombies p) → (s.thread t).parent = some p
  idle : ∀ pl, s.idle ∈ s.threads pl → pl = .cpu
  chosen : ∀ newst t ts, s.running = t :: ts → newst ≠ .running →
    ¬(newst = .stopped ∧ s.hasInterrupts s.current) →
    (s.schedule newst).current = t ∧ t ≠ s.idle

namespace QInv

variable {pl pl' : Place}

theorem status_of_mem (h : QInv s.queues) (ht : s.Alive t) (hm : t ∈ s.threads pl) :
    (s.thread t).status = pl.status := by
  cases pl with
  | cpu => exact (h.onCpu t ht).2 (List.mem_singleton.1 hm)
  | running => exact ((h.running t).1 hm).2
  | stopped => exact ((h.stopped t).1 hm).2
  | resched => exact (h.status_of_resched hm).2
  | zombies p => exact (h.status_of_zombies hm).2

theorem exists_place (h : QInv s.queues) (ht : s.Alive t) : ∃ pl, t ∈ s.threads pl := by
  cases hst : (s.thread t).status with
  | running => exact ⟨.cpu, List.mem_singleton.2 ((h.onCpu t ht).1 hst)⟩
  | runnable => exact ⟨.running, (h.running t).2 ⟨ht, hst⟩⟩
  | stopped => exact ⟨.stopped, (h.stopped t).2 ⟨ht, hst⟩⟩
  | zombie =>
      rcases (h.zombie t).2 ⟨ht, hst⟩ with hm | ⟨p, hm⟩
      · exact ⟨.resched, hm⟩
      · exact ⟨.zombies p, hm⟩

/-- The status tells the places apart, except those of zombies: a zombie on `resched` is
not with its parent yet, and it has one parent. -/
theorem place_unique (h : QInv s.queues) (ht : s.Alive t) (hm : t ∈ s.threads pl)
    (hm' : t ∈ s.threads pl') : pl' = pl := by
  have hst := (h.status_of_mem ht hm').symm.trans (h.status_of_mem ht hm)
  cases pl <;> cases pl' <;> first | rfl | cases hst
  case resched.zombies p => exact absurd hm' (h.resched t hm p)
  case zombies.resched p => exact absurd hm (h.resched t hm' p)
  case zombies.zombies p p' =>
      rw [Option.some.inj ((h.zombies t p hm).symm.trans (h.zombies t p' hm'))]

theorem nodup_threads (h : QInv s.queues) : ∀ pl, (s.threads pl).Nodup
  | .cpu => List.nodup_singleton _
  | .running => h.nodup_running
  | .stopped => h.nodup_stopped
  | .resched => h.nodup_resched
  | .zombies p => h.nodup_zombies p

/-- The first runnable thread is neither the current thread nor the idle thread. -/
theorem head_ne (h : QInv q) (hr : t ∈ q.running) : t ≠ q.current ∧ t ≠ q.idle := by
  obtain ⟨ha, hst⟩ := (h.running t).1 hr
  refine ⟨fun hc ↦ ?_, ha.2.2⟩
  rw [(h.onCpu t ha).2 hc] at hst
  cases hst

end QInv

theorem Queues.requeue_current (q : Queues) (t : Nat) (newst : Status) :
    (q.requeue t newst).current = q.current := by
  cases newst <;> rfl

/-- When there is a runnable thread, it is the first one that gets the CPU. -/
theorem Queues.schedule_current {ts : List Nat} (hr : q.running = t :: ts)
    (hne : t ≠ q.current) : (q.schedule newst).current = t := by
  simp only [schedule, pick, hr, if_neg hne]
  split
  · rfl
  · rw [requeue_current]

/-- Every thread that has been forked and not freed is in one place, after any run. -/
theorem queues_ok (h : Run Step boot ops s) : Placed s := by
  have hq := run_qinv h
  refine ⟨fun t ht ↦ ?_, hq.zombies, fun pl hi ↦ ?_, fun newst t ts hr hn hp ↦ ?_⟩
  · obtain ⟨pl, hm⟩ := hq.exists_place ht
    refine ⟨pl, ?_, hq.status_of_mem ht hm, fun pl' hm' ↦ hq.place_unique ht hm hm'⟩
    exact List.count_eq_one_of_mem (hq.nodup_threads pl) hm
  · cases pl with
    | cpu => rfl
    | running => exact absurd rfl ((hq.running s.idle).1 hi).1.2.2
    | stopped => exact absurd rfl ((hq.stopped s.idle).1 hi).1.2.2
    | resched => exact absurd rfl (hq.status_of_resched hi).1.2.2
    | zombies p => exact absurd rfl (hq.status_of_zombies hi).1.2.2
  · have hr' : s.queues.running = t :: ts := hr
    obtain ⟨hc, hi⟩ := hq.head_ne (hr' ▸ List.mem_cons_self)
    refine ⟨?_, hi⟩
    show (s.schedule newst).queues.current = t
    rw [State.queues_schedule, if_neg (not_or.2 ⟨hn, hp⟩)]
    exact Queues.schedule_current hr' hc

/-- A child is forked, runs, exits and is waited for, while `init` sleeps. -/
theorem queues_ok_child : ∃ s,
    Run Step boot [.fork, .sti, .wait, .exit 7, .softirq, .childstat] s ∧ s.freed 2 = true ∧
      Placed s := by
  have h : Run Step boot [.fork, .sti, .wait, .exit 7, .softirq, .childstat] _ :=
    .cons ⟨Nat.one_ne_zero, rfl⟩ (.cons ⟨trivial, rfl⟩ (.cons ⟨trivial, rfl⟩
      (.cons ⟨trivial, rfl⟩ (.cons ⟨trivial, rfl⟩ (.cons ⟨trivial, rfl⟩ (.nil _))))))
  exact ⟨_, h, rfl, queues_ok h⟩

end Mh.Sched
