import Mh.Sched.TimerRuns

/-!
# When the alarms are right

The two results about timers.  `timers_ok`: as long as every timer is registered with
room for it, the list is sorted, the hardware timer is set to its first expiry and
`do_timer` fires exactly what has expired.  `timers_owned`: as long as no thread is freed
with its real-time alarm set, no timer on the list belongs to a freed thread.
-/

namespace Mh.Sched

open Mh.Lib

variable {s s' : State} {t u : Nat} {k : Key} {op : Op} {ops : List Op} {newst : Status}

/-! ## Registering with room -/

/-- The thread that a call leaves the current thread for, if it does not return at once. -/
def State.successor (s : State) : Op → Option Nat
  | .yield => some (s.running.headD s.current)
  | .wait =>
      if (s.thread s.current).softintrs ≠ 0 then none else some (s.running.headD s.idle)
  | .idle => if s.hasInterrupts s.current then none else some (s.running.headD s.idle)
  | .exit _ =>
      let woken := if (s.thread s.init).status = .stopped then [s.init] else []
      some ((s.running ++ woken).headD s.idle)
  | _ => none

/-- A call that registers a timer has room for it. -/
def RegSafe (s : State) : Op → Prop
  | .alarm a diff => s.Room (s.expiry diff) (s.timers.erase (s.current, a))
  | op => ∀ t, s.successor op = some t → s.RoomFor t

/-- A call that has room for the timer that it registers. -/
def RegStep (s : State) (op : Op) (s' : State) : Prop := Step s op s' ∧ RegSafe s op

theorem pick_fst (s : State) (newst : Status) : (s.pick newst).1 =
    s.running.headD (if newst = .runnable then s.current else s.idle) := by
  rw [State.pick]
  cases s.running <;> rfl

section Parting

variable {status : Nat}

theorem running_parting (h : s.parting status = .ok s') : s'.running =
    s.running ++ if (s.thread s.init).status = .stopped then [s.init] else [] := by
  have hq : s'.running = ((s.queues.inherit s.current).wake s.init).running :=
    congrArg Queues.running (State.queues_parting h)
  have hst : (s.queues.inherit s.current).status s.init = (s.thread s.init).status := rfl
  rw [hq, Queues.wake, hst]
  cases (s.thread s.init).status with
  | stopped => rfl
  | running => exact (List.append_nil _).symm
  | runnable => exact (List.append_nil _).symm
  | zombie => exact (List.append_nil _).symm

theorem idle_parting (h : s.parting status = .ok s') : s'.idle = s.idle := by
  have hq : s'.idle = ((s.queues.inherit s.current).wake s.init).idle :=
    congrArg Queues.idle (State.queues_parting h)
  rw [hq, Queues.wake]
  split <;> rfl

theorem almdiff_parting (h : s.parting status = .ok s') (u : Nat) :
    (s'.thread u).vttAlmdiff = (s.thread u).vttAlmdiff := by
  obtain ⟨s₁, h₁, h⟩ := bind_eq_ok.1 h
  have hin : ((s.inherit s.current).thread u).vttAlmdiff = (s.thread u).vttAlmdiff := by
    show (if _ then _ else s.thread u : Thread).vttAlmdiff = _
    split <;> rfl
  have hth : (s₁.thread u).vttAlmdiff = ((s.inherit s.current).thread u).vttAlmdiff := by
    rw [State.thraise] at h₁
    split at h₁
    · rw [← Except.ok.inj h₁, State.wake_field (f := Thread.vttAlmdiff) fun _ _ ↦ rfl]
      exact State.setThread_field (by rfl) u
    · cases h₁
  rw [← Except.ok.inj h, ← hin, ← hth]
  exact State.setThread_field (by rfl) u

end Parting

/-- A call keeps the list sorted when there is room for the timer that it registers. -/
theorem step_sorted (hT : TInv s) (h : Sorted s) (hs : RegStep s op s') : Sorted s' := by
  obtain ⟨⟨-, hs⟩, hr⟩ := hs
  cases op with
  | fork =>
      rw [← Except.ok.inj hs]
      exact h.thfork hT.toListed
  | yield =>
      rw [← Except.ok.inj hs]
      refine h.schedule hT fun _ _ ↦ ?_
      rw [pick_fst]
      exact hr _ rfl
  | wait =>
      rw [← Except.ok.inj hs]
      have hset := SameTimers.setThread s s.current { s.thread s.current with intr := true }
      refine (h.congr hset).schedule (hT.congr hset) fun _ hi ↦ ?_
      rw [pick_fst]
      refine RoomFor.congr (hr _ ?_) hset (State.setThread_field (by rfl) _)
      rw [State.successor, if_neg]
      · rfl
      · intro hp
        refine hi ⟨rfl, ?_⟩
        show ((Function.update s.thread s.current _ s.current).intr &&
          (Function.update s.thread s.current _ s.current).softintrs ≠ 0) = true
        rw [Function.update_self]
        simpa using hp
  | sti =>
      rw [← Except.ok.inj hs]
      exact h.congr (.setThread _ _ _)
  | cli =>
      rw [← Except.ok.inj hs]
      exact h.congr (.setThread _ _ _)
  | exit status =>
      obtain ⟨-, s₁, h₁, rfl⟩ := State.exit_ok hs
      have hsame := SameTimers.parting h₁
      refine (h.congr hsame).schedule (hT.congr hsame) fun _ _ ↦ ?_
      rw [pick_fst, running_parting h₁, idle_parting h₁]
      exact RoomFor.congr (hr _ rfl) hsame (almdiff_parting h₁ _)
  | childstat =>
      rw [← Except.ok.inj hs]
      exact h.congr (.childstat s)
  | wake t =>
      rw [← Except.ok.inj hs]
      exact h.congr (.wake s t)
  | raise t vect => exact h.congr (.thraise hs)
  | softirq => exact h.doSoftirq hs
  | alarm a diff =>
      rw [← Except.ok.inj hs]
      exact h.setAlarm hT.toListed hr
  | irqmap a sig =>
      rw [← Except.ok.inj hs]
      exact h.irqmap _ _
  | idle =>
      rw [← Except.ok.inj hs]
      refine h.schedule hT fun _ hi ↦ ?_
      rw [pick_fst]
      refine hr _ ?_
      rw [State.successor, if_neg fun hc ↦ hi ⟨rfl, hc⟩]
      rfl
  | event =>
      rw [← Except.ok.inj hs]
      exact h.congr ⟨rfl, rfl, rfl, rfl, rfl, rfl⟩
  | tick counter =>
      rw [← Except.ok.inj hs]
      exact h

/-- The list is sorted, it holds the timers that are valid, each once, the hardware
timer is set to the smallest time, and `do_timer` fires what has expired. -/
structure TimersOk (s : State) : Prop where
  sorted : Sorted s
  nodup : s.timers.Nodup
  valid : ∀ k, k ∈ s.timers ↔ (s.timer k).valid = true
  disabled : s.alarm = none ↔ s.timers = []
  alarm : ∀ time, s.alarm = some time →
    (∃ k ∈ s.timers, (s.timer k).time = time) ∧ ∀ k ∈ s.timers, time ≤ (s.timer k).time
  fires : ∀ counter, { s with counter := counter }.Fires

theorem Sorted.timersOk (h : Sorted s) (hT : TInv s) : TimersOk s where
  sorted := h
  nodup := hT.nodup
  valid := hT.valid
  disabled := by
    rw [hT.alarm, Option.map_eq_none_iff, List.head?_eq_none_iff]
  alarm time ha := by
    rw [hT.alarm] at ha
    obtain ⟨c, hc, hct⟩ := Option.map_eq_some_iff.1 ha
    refine ⟨⟨c, List.mem_of_mem_head? hc, hct⟩, fun k hk ↦ ?_⟩
    obtain ⟨cs, hcs⟩ := List.head?_eq_some_iff.1 hc
    rw [← hct]
    rw [hcs] at hk
    rw [Sorted, hcs] at h
    exact time_head_le h hk
  fires counter := by
    have hl : Listed { s with counter := counter } := ⟨hT.nodup, hT.valid, hT.owner, hT.virt⟩
    exact Sorted.fires (s := { s with counter := counter }) h hl

/-- In a run in which every timer is registered with room for it, the timers are right in
every state. -/
theorem timers_ok (h : Run RegStep boot ops s) : TimersOk s := by
  have hI : QInv s.queues ∧ TInv s ∧ Sorted s := by
    refine h.invariant (I := fun s ↦ QInv s.queues ∧ TInv s ∧ Sorted s) ?_
      ⟨qinv_boot, tinv_boot, List.Pairwise.nil⟩
    rintro s op s' ⟨hq, hT, hs⟩ hst
    exact ⟨step_qinv hq hst.1, step_tinv hq hT hst.1, step_sorted hT hs hst⟩
  exact hI.2.2.timersOk hI.2.1

/-- Both alarms of `init`, the earlier one set first, and the interrupt of the timer
between them. -/
theorem timers_ok_two : ∃ s, Run RegStep boot
    [.irqmap .rtt 3, .alarm .rtt 5, .alarm .vtt 10, .tick 7, .event, .softirq] s ∧
      s.timers = [(1, .vtt)] ∧ TimersOk s := by
  have hnone : ∀ s : State, ∀ t, none = some t → s.RoomFor t :=
    fun s t h ↦ absurd h.symm (Option.some_ne_none t)
  have h : Run RegStep boot
      [.irqmap .rtt 3, .alarm .rtt 5, .alarm .vtt 10, .tick 7, .event, .softirq] _ :=
    .cons ⟨⟨trivial, rfl⟩, hnone _⟩ (.cons ⟨⟨trivial, rfl⟩, show State.Room _ _ _ by decide⟩
      (.cons ⟨⟨trivial, rfl⟩, show State.Room _ _ _ by decide⟩
        (.cons ⟨⟨Nat.zero_le 7, rfl⟩, hnone _⟩ (.cons ⟨⟨trivial, rfl⟩, hnone _⟩
          (.cons ⟨⟨trivial, rfl⟩, hnone _⟩ (.nil _))))))
  exact ⟨_, h, rfl, timers_ok h⟩

/-- The later alarm is set first, and the earlier one ends up behind it. -/
theorem timers_unsorted : ∃ s, Run Step boot [.alarm .rtt 10, .alarm .vtt 5] s ∧
    s.timers = [(1, .rtt), (1, .vtt)] ∧ s.alarm = some 10 ∧ ¬TimersOk s := by
  have h : Run Step boot [.alarm .rtt 10, .alarm .vtt 5] _ :=
    .cons ⟨trivial, rfl⟩ (.cons ⟨trivial, rfl⟩ (.nil _))
  refine ⟨_, h, rfl, rfl, fun hok ↦ ?_⟩
  have hle := List.pairwise_pair.1 hok.sorted
  exact absurd hle (by decide)

/-! ## Timers of freed threads -/

/-- A child that is freed has no real-time alarm set. -/
def ReapSafe (s : State) : Op → Prop
  | .childstat => ∀ c ∈ (s.zombies s.current).head?, (s.timer (c, .rtt)).valid = false
  | _ => True

/-- A call that frees no thread with its real-time alarm set. -/
def ReapStep (s : State) (op : Op) (s' : State) : Prop := Step s op s' ∧ ReapSafe s op

/-- Every timer on the list belongs to a thread that has not been freed, and so does every
timer that `do_timer` fires. -/
structure TimersOwned (s : State) : Prop where
  timers : ∀ k ∈ s.timers, s.freed k.1 = false
  fired : ∀ counter, ∀ k ∈ { s with counter := counter }.expired, s.freed k.1 = false

theorem Queues.freed_wake (q : Queues) (t : Nat) : (q.wake t).freed = q.freed := by
  rw [wake]
  cases q.status t <;> rfl

theorem Queues.freed_schedule (q : Queues) (newst : Status) :
    (q.schedule newst).freed = q.freed := by
  have hp : (q.pick newst).2.freed = q.freed := by
    rw [pick]
    cases q.running <;> rfl
  simp only [schedule]
  split
  · exact hp
  · split
    · exact hp
    · cases newst <;> exact hp

theorem freed_schedule (s : State) (newst : Status) : (s.schedule newst).freed = s.freed := by
  have hq := congrArg Queues.freed (State.queues_schedule s newst)
  rw [apply_ite Queues.freed, Queues.freed_schedule, ite_self] at hq
  exact hq

theorem freed_thraise {vect : Nat} (h : s.thraise t vect = .ok s') : s'.freed = s.freed := by
  have hq := congrArg Queues.freed (State.queues_thraise h)
  rw [Queues.freed_wake] at hq
  exact hq

theorem freed_fire (h : s.fire k = .ok s') : s'.freed = s.freed := by
  rcases State.queues_fire h with hq | hq
  · exact congrArg Queues.freed hq
  · have hq := congrArg Queues.freed hq
    rw [Queues.freed_wake] at hq
    exact hq

/-- What `do_softirq` does to the timers: none is added, and no thread is freed. -/
theorem doSoftirq_owned (h : s.doSoftirq = .ok s') :
    s'.freed = s.freed ∧ ∀ k ∈ s'.timers, k ∈ s.timers := by
  simp only [State.doSoftirq, State.softirqs] at h
  obtain ⟨s₁, h₁, h₂⟩ := bind_eq_ok.1 h
  have hd : s.deliver.freed = s.freed := congrArg Queues.freed (State.queues_deliver s)
  have ht := (SameTimers.deliver s).timers
  have hz : s₁.freed = s.freed ∧ s₁.timers = s.timers := by
    split at h₁
    · refine ⟨?_, (SameTimers.doZombie h₁).timers.trans ht⟩
      rw [State.doZombie] at h₁
      split at h₁
      · rw [← Except.ok.inj h₁]
        exact hd
      · dsimp only at h₁
        split at h₁
        · split at h₁
          · cases h₁
          · exact (freed_thraise h₁).trans hd
        · cases h₁
    · rw [← Except.ok.inj h₁]
      exact ⟨hd, ht⟩
  split at h₂
  · rw [State.doTimer] at h₂
    obtain ⟨s₂, h₂, h₃⟩ := bind_eq_ok.1 h₂
    have hI : s₂.freed = s.freed ∧ ∀ k ∈ s₂.timers, k ∈ s.timers := by
      refine foldlM_invariant
        (I := fun x : State ↦ x.freed = s.freed ∧ ∀ k ∈ x.timers, k ∈ s.timers) ?_ h₂
        ⟨hz.1, fun k hk ↦ hz.2 ▸ hk⟩
      rintro x k y - ⟨hf, hk⟩ hy
      refine ⟨(freed_fire hy).trans hf, fun j hj ↦ hk j ?_⟩
      rw [(State.fired hy).timers] at hj
      exact List.mem_of_mem_erase hj
    rw [← Except.ok.inj h₃]
    split
    · exact hI
    · exact hI
  · rw [← Except.ok.inj h₂]
    exact ⟨hz.1, fun k hk ↦ hz.2 ▸ hk⟩

/-- A timer that `schedule` registers is one of the thread that it switches to. -/
theorem schedule_owned (hT : TInv s) (newst : Status) (hk : k ∈ (s.schedule newst).timers) :
    k ∈ s.timers ∨ k.1 = (s.schedule newst).current := by
  have hp := SameTimers.pick s newst
  rcases schedule_cases s newst with hs | ⟨-, -, -, hs⟩
  · exact .inl (hs.timers ▸ hk)
  · rw [hs.timers] at hk
    rw [hs.current]
    have hT' := hT.congr hp
    rw [← hp.current, switchTo_eq] at hk ⊢
    have hres : ∀ j ∈ ((s.pick newst).2.resumed (s.pick newst).1).timers, j ∈ s.timers := by
      intro j hj
      have hj : j ∈ ((s.pick newst).2.switchFrom (s.pick newst).2.current).timers := hj
      rw [hT'.toListed.timers_switchFrom, hp.timers] at hj
      exact List.mem_of_mem_erase hj
    split at hk
    · next hd =>
        rw [if_pos hd, current_setAlarm]
        rw [(hT'.resumed _).toListed.mem_setAlarm] at hk
        rcases hk with rfl | hk
        · exact .inr rfl
        · exact .inl (hres k hk)
    · exact .inl (hres k hk)

/-- Except for `childstat`, a call frees no thread, and sets timers of the current thread
only. -/
theorem step_owned (hT : TInv s) (hs : Step s op s') (hop : op ≠ .childstat) :
    s'.freed = s.freed ∧ ∀ k ∈ s'.timers, k ∈ s.timers ∨ k.1 = s'.current := by
  obtain ⟨-, hs⟩ := hs
  cases op with
  | fork =>
      rw [← Except.ok.inj hs]
      exact ⟨rfl, fun k hk ↦ .inl hk⟩
  | yield =>
      rw [← Except.ok.inj hs]
      exact ⟨freed_schedule s _, fun k hk ↦ schedule_owned hT _ hk⟩
  | wait =>
      rw [← Except.ok.inj hs]
      have hset := SameTimers.setThread s s.current { s.thread s.current with intr := true }
      refine ⟨freed_schedule _ _, fun k hk ↦ ?_⟩
      exact schedule_owned (hT.congr hset) _ hk
  | sti =>
      rw [← Except.ok.inj hs]
      exact ⟨rfl, fun k hk ↦ .inl hk⟩
  | cli =>
      rw [← Except.ok.inj hs]
      exact ⟨rfl, fun k hk ↦ .inl hk⟩
  | exit status =>
      obtain ⟨-, s₁, h₁, rfl⟩ := State.exit_ok hs
      have hsame := SameTimers.parting h₁
      refine ⟨(freed_schedule s₁ _).trans ?_, fun k hk ↦ ?_⟩
      · have hq := congrArg Queues.freed (State.queues_parting h₁)
        rw [Queues.freed_wake] at hq
        exact hq
      · rw [← hsame.timers]
        exact schedule_owned (hT.congr hsame) _ hk
  | childstat => exact absurd rfl hop
  | wake t =>
      rw [← Except.ok.inj hs]
      refine ⟨?_, fun k hk ↦ .inl ((SameTimers.wake s t).timers ▸ hk)⟩
      have hq := congrArg Queues.freed (State.queues_wake s t)
      rw [Queues.freed_wake] at hq
      exact hq
  | raise t vect =>
      exact ⟨freed_thraise hs, fun k hk ↦ .inl ((SameTimers.thraise hs).timers ▸ hk)⟩
  | softirq =>
      obtain ⟨hf, hk⟩ := doSoftirq_owned hs
      exact ⟨hf, fun k hm ↦ .inl (hk k hm)⟩
  | alarm a diff =>
      rw [← Except.ok.inj hs]
      refine ⟨congrArg Queues.freed (State.queues_setAlarm s a diff), fun k hk ↦ ?_⟩
      rw [current_setAlarm]
      rcases (hT.toListed.mem_setAlarm a diff k).1 hk with rfl | hk
      · exact .inr rfl
      · exact .inl hk
  | irqmap a sig =>
      rw [← Except.ok.inj hs]
      exact ⟨rfl, fun k hk ↦ .inl hk⟩
  | idle =>
      rw [← Except.ok.inj hs]
      exact ⟨freed_schedule s _, fun k hk ↦ schedule_owned hT _ hk⟩
  | event =>
      rw [← Except.ok.inj hs]
      exact ⟨rfl, fun k hk ↦ .inl hk⟩
  | tick counter =>
      rw [← Except.ok.inj hs]
      exact ⟨rfl, fun k hk ↦ .inl hk⟩

/-- The thread that is freed is a zombie, so its virtual timer is not on the list. -/
theorem childstat_owned (hq : QInv s.queues) (hT : TInv s)
    (ho : ∀ k ∈ s.timers, s.freed k.1 = false)
    (hr : ReapSafe s .childstat) : ∀ k ∈ s.childstat.2.timers, s.childstat.2.freed k.1 = false := by
  rw [State.childstat]
  cases hz : s.zombies s.current with
  | nil => exact ho
  | cons c cs =>
      rintro ⟨t, a⟩ hk
      show Function.update s.freed c true t = false
      have hk : (t, a) ∈ s.timers := hk
      have hne : t ≠ c := by
        rintro rfl
        cases a with
        | rtt =>
            have hv := hr t (by rw [hz]; rfl)
            rw [(hT.valid _).1 hk] at hv
            cases hv
        | vtt =>
            obtain ⟨ha, hst⟩ := hq.status_of_zombies (hz ▸ List.mem_cons_self)
            rw [(hq.onCpu t ha).2 (hT.virt t hk)] at hst
            cases hst
      rw [Function.update_of_ne hne]
      exact ho _ hk

/-- In a run in which no thread is freed with its real-time alarm set, no timer belongs to
a freed thread. -/
theorem timers_owned (h : Run ReapStep boot ops s) : TimersOwned s := by
  have hI : QInv s.queues ∧ TInv s ∧ ∀ k ∈ s.timers, s.freed k.1 = false := by
    refine h.invariant (I := fun s ↦ QInv s.queues ∧ TInv s ∧ ∀ k ∈ s.timers, s.freed k.1 = false)
      ?_ ⟨qinv_boot, tinv_boot, fun k hk ↦ absurd hk List.not_mem_nil⟩
    rintro s op s' ⟨hq, hT, ho⟩ ⟨hs, hr⟩
    have hq' := step_qinv hq hs
    refine ⟨hq', step_tinv hq hT hs, ?_⟩
    by_cases hop : op = .childstat
    · subst hop
      rw [← Except.ok.inj hs.2]
      exact childstat_owned hq hT ho hr
    · obtain ⟨hf, hk⟩ := step_owned hT hs hop
      intro k hm
      rcases hk k hm with hm | hm
      · rw [hf]
        exact ho k hm
      · rw [hm]
        rcases hq'.current with hc | hc
        · exact (show s'.current = s'.idle from hc) ▸ hq'.idle_freed
        · exact hc.2.1
  refine ⟨hI.2.2, fun counter k hk ↦ hI.2.2 k ?_⟩
  exact List.takeWhile_subset _ hk

/-- A child sets an alarm, waits for it, exits and is freed. -/
theorem timers_owned_child : ∃ s, Run ReapStep boot
    [.fork, .yield, .alarm .rtt 5, .tick 5, .event, .softirq, .exit 0, .softirq, .childstat] s ∧
      s.freed 2 = true ∧ TimersOwned s := by
  have h : Run ReapStep boot
      [.fork, .yield, .alarm .rtt 5, .tick 5, .event, .softirq, .exit 0, .softirq, .childstat] _ :=
    .cons ⟨⟨Nat.one_ne_zero, rfl⟩, trivial⟩ (.cons ⟨⟨trivial, rfl⟩, trivial⟩
      (.cons ⟨⟨trivial, rfl⟩, trivial⟩ (.cons ⟨⟨Nat.zero_le 5, rfl⟩, trivial⟩
        (.cons ⟨⟨trivial, rfl⟩, trivial⟩ (.cons ⟨⟨trivial, rfl⟩, trivial⟩
          (.cons ⟨⟨trivial, rfl⟩, trivial⟩ (.cons ⟨⟨trivial, rfl⟩, trivial⟩
            (.cons ⟨⟨trivial, rfl⟩, by rintro c ⟨⟩; rfl⟩ (.nil _)))))))))
  exact ⟨_, h, rfl, timers_owned h⟩

/-- A child exits with its real-time alarm set, and is freed. -/
theorem timers_outlive : ∃ s, Run Step boot
    [.fork, .yield, .alarm .rtt 100, .exit 0, .softirq, .childstat] s ∧
      s.timers = [(2, .rtt)] ∧ s.freed 2 = true ∧ ¬TimersOwned s := by
  have h : Run Step boot [.fork, .yield, .alarm .rtt 100, .exit 0, .softirq, .childstat] _ :=
    .cons ⟨Nat.one_ne_zero, rfl⟩ (.cons ⟨trivial, rfl⟩ (.cons ⟨trivial, rfl⟩
      (.cons ⟨trivial, rfl⟩ (.cons ⟨trivial, rfl⟩ (.cons ⟨trivial, rfl⟩ (.nil _))))))
  refine ⟨_, h, rfl, rfl, fun hok ↦ ?_⟩
  exact Bool.noConfusion (hok.timers (2, .rtt) List.mem_cons_self)

end Mh.Sched
