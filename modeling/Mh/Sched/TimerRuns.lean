import Mh.Sched.Timers
import Mh.Sched.Runs

/-!
# Runs with timers

`do_timer` goes through the list up to the first timer that has not expired, raises the
signal of each timer that it passes and takes it off the list (`fire_all`).  On a sorted
list these are the timers that have expired, and `TimersOk` holds; every call that does
not register a timer keeps the list sorted, and one that does keeps it so when there is
room for the new timer (`RegSafe`).

The real-time alarm of a thread stays on the list when the thread exits.  It is gone
before the thread is freed when every child that `childstat` frees has no such alarm
(`ReapSafe`).
-/

namespace Mh.Sched

open Mh.Lib

variable {s s' : State} {t u vect : Nat} {k j : Key} {ks rest : List Key} {a : Alarm}
  {newst : Status} {op : Op} {ops : List Op}

/-! ## Firing -/

/-- The signal of a timer as a set of pending signals. -/
def Timer.bits (tm : Timer) : BitVec 32 :=
  if tm.sig ≠ 0 then BitVec.twoPow 32 (w32 (tm.sig + (2 ^ 32 - 1))) else 0

/-- The signal of a timer is one that `thraise` accepts. -/
def Timer.InRange (tm : Timer) : Prop :=
  tm.sig ≠ 0 → w32 (tm.sig + (2 ^ 32 - 1)) < State.maxSignals

namespace State

/-- A field of the threads that is written as it was. -/
theorem setThread_field {α : Type} {f : Thread → α} {th : Thread} (h : f th = f (s.thread t))
    (u : Nat) : f ((s.setThread t th).thread u) = f (s.thread u) := by
  show f (Function.update s.thread t th u) = _
  by_cases hu : u = t
  · subst hu
    rw [Function.update_self, h]
  · rw [Function.update_of_ne hu]

/-- Waking changes nothing of a thread but its status. -/
theorem wake_field {α : Type} {f : Thread → α} (hf : ∀ th st, f { th with status := st } = f th)
    (s : State) (t u : Nat) : f ((s.wake t).thread u) = f (s.thread u) := by
  rw [wake]
  cases (s.thread t).status with
  | stopped => exact setThread_field (hf _ _) u
  | running => rfl
  | runnable => rfl
  | zombie => rfl

theorem softintrs_thraise (h : s.thraise t vect = .ok s') (u : Nat) : (s'.thread u).softintrs =
    if u = t then (s.thread u).softintrs ||| BitVec.twoPow 32 vect
    else (s.thread u).softintrs := by
  rw [thraise] at h
  split at h
  · rw [← Except.ok.inj h, wake_field (f := Thread.softintrs) fun _ _ ↦ rfl]
    show (Function.update s.thread t _ u).softintrs = _
    by_cases hu : u = t
    · subst hu
      rw [Function.update_self, if_pos rfl]
    · rw [Function.update_of_ne hu, if_neg hu]
  · cases h

theorem softintrs_raiseTimer (h : s.raiseTimer k = .ok s') (u : Nat) : (s'.thread u).softintrs =
    if k.1 = u then (s.thread u).softintrs ||| (s.timer k).bits else (s.thread u).softintrs := by
  simp only [raiseTimer] at h
  split at h
  · next hs =>
      rw [softintrs_thraise h, Timer.bits, if_pos hs]
      exact if_congr eq_comm rfl rfl
  · next hs =>
      rw [← Except.ok.inj h, Timer.bits, if_neg hs]
      split
      · exact (BitVec.or_zero).symm
      · rfl

/-- A timer is fired unless its signal is out of range. -/
theorem raiseTimer_cases (s : State) (k : Key) :
    (∃ s', s.raiseTimer k = .ok s') ∨ s.raiseTimer k = .error .signal ∧ ¬(s.timer k).InRange := by
  simp only [raiseTimer, thraise]
  split
  · next hs =>
      split
      · exact .inl ⟨_, rfl⟩
      · next hr => exact .inr ⟨rfl, fun h ↦ hr (h hs)⟩
  · exact .inl ⟨_, rfl⟩

/-- What firing a timer does to the list. -/
structure Fired (s : State) (k : Key) (s' : State) : Prop where
  timers : s'.timers = s.timers.erase k
  timer : s'.timer = Function.update s.timer k { s.timer k with valid := false }
  alarm : s'.alarm = s.alarm
  counter : s'.counter = s.counter
  next : s'.next = s.next
  current : s'.current = s.current
  softintrs : ∀ u, (s'.thread u).softintrs =
    if k.1 = u then (s.thread u).softintrs ||| (s.timer k).bits else (s.thread u).softintrs

theorem fired (h : s.fire k = .ok s') : Fired s k s' := by
  rw [fire] at h
  obtain ⟨s₁, h₁, h⟩ := bind_eq_ok.1 h
  obtain ⟨ht, hts, ha, hcn, hn, hc⟩ := SameTimers.raiseTimer h₁
  rw [← Except.ok.inj h]
  refine ⟨congrArg (List.erase · k) hts, ?_, ha, hcn, hn, hc, fun u ↦ softintrs_raiseTimer h₁ u⟩
  show Function.update s₁.timer k { s₁.timer k with valid := false } = _
  rw [ht]

theorem fire_cases (s : State) (k : Key) :
    (∃ s', s.fire k = .ok s') ∨ s.fire k = .error .signal ∧ ¬(s.timer k).InRange := by
  rw [fire]
  rcases raiseTimer_cases s k with ⟨s', h⟩ | ⟨h, hr⟩
  · rw [h]
    exact .inl ⟨_, rfl⟩
  · rw [h]
    exact .inr ⟨rfl, hr⟩

/-- The signals of the timers `ks` that belong to `u`. -/
def pending (s : State) (ks : List Key) (u : Nat) : BitVec 32 :=
  ks.foldl (fun b k ↦ if k.1 = u then b ||| (s.timer k).bits else b) (s.thread u).softintrs

/-- The loop over the first timers of the list takes them off it, and raises each of
their signals once. -/
theorem fire_all (hs : s.timers = ks ++ rest) (hd : s.timers.Nodup) :
    (∃ s', ks.foldlM fire s = .ok s' ∧ s'.timers = rest ∧
      ∀ u, (s'.thread u).softintrs = s.pending ks u) ∨
    ks.foldlM fire s = .error .signal ∧ ∃ k ∈ ks, ¬(s.timer k).InRange := by
  induction ks generalizing s with
  | nil => exact .inl ⟨s, rfl, hs, fun u ↦ rfl⟩
  | cons k ks ih =>
      rw [List.foldlM_cons]
      rcases fire_cases s k with ⟨s₁, h₁⟩ | ⟨h₁, hr⟩
      · have hf := fired h₁
        have hs₁ : s₁.timers = ks ++ rest := by
          rw [hf.timers, hs]
          exact List.erase_cons_head ..
        have hd₁ : s₁.timers.Nodup := hf.timers ▸ hd.erase k
        have hnk : k ∉ ks := by
          rw [hs, List.cons_append] at hd
          exact fun hm ↦ (List.nodup_cons.1 hd).1 (List.mem_append_left rest hm)
        have htm : ∀ j ∈ ks, s₁.timer j = s.timer j := by
          intro j hj
          rw [hf.timer, Function.update_of_ne]
          rintro rfl
          exact hnk hj
        rw [h₁]
        rcases ih hs₁ hd₁ with ⟨s', h', ht, hb⟩ | ⟨h', j, hj, hr⟩
        · refine .inl ⟨s', h', ht, fun u ↦ ?_⟩
          rw [hb u, pending, pending, List.foldl_cons, hf.softintrs]
          apply List.foldl_ext
          intro b j hj
          rw [htm j hj]
        · exact .inr ⟨h', j, List.mem_cons_of_mem k hj, htm j hj ▸ hr⟩
      · rw [h₁]
        exact .inr ⟨rfl, k, List.mem_cons_self, hr⟩

end State

theorem Listed.fire (h : Listed s) (hf : s.fire k = .ok s') : Listed s' := by
  have hf := State.fired hf
  exact h.erase hf.timers hf.timer hf.next hf.current

theorem Sorted.fire (h : Sorted s) (hf : s.fire k = .ok s') : Sorted s' := by
  have hf := State.fired hf
  refine h.erase hf.timers fun j ↦ ?_
  rw [hf.timer]
  exact update_valid_time s.timer k j

theorem Listed.foldlM_fire (h : Listed s) (hf : ks.foldlM State.fire s = .ok s') : Listed s' :=
  foldlM_invariant (fun _ _ _ _ hI hk ↦ Listed.fire hI hk) hf h

theorem TInv.doTimer (h : TInv s) (hd : s.doTimer = .ok s') : TInv s' := by
  rw [State.doTimer] at hd
  obtain ⟨s₁, h₁, hd⟩ := bind_eq_ok.1 hd
  have hl := h.toListed.foldlM_fire h₁
  rw [← Except.ok.inj hd]
  by_cases he : s.expired = []
  · rw [he] at h₁
    rw [if_neg (not_not.2 he), ← Except.ok.inj h₁]
    exact h
  · rw [if_pos he]
    exact ⟨⟨hl.nodup, hl.valid, hl.owner, hl.virt⟩, rfl⟩

theorem Sorted.doTimer (h : Sorted s) (hd : s.doTimer = .ok s') : Sorted s' := by
  rw [State.doTimer] at hd
  obtain ⟨s₁, h₁, hd⟩ := bind_eq_ok.1 hd
  have hs₁ : Sorted s₁ := foldlM_invariant (fun _ _ _ _ hI hk ↦ Sorted.fire hI hk) h₁ h
  rw [← Except.ok.inj hd]
  split
  · exact hs₁
  · exact hs₁

/-- `do_timer` fires each timer that has expired, and leaves none of them on the list.
It panics only at a signal that is out of range. -/
def State.Fires (s : State) : Prop :=
  s.expired = s.timers.filter (fun k ↦ (s.timer k).time ≤ s.counter) ∧
  match s.doTimer with
  | .ok s' =>
      s'.timers = s.timers.filter (fun k ↦ s.counter < (s.timer k).time) ∧
      (∀ k ∈ s.expired, (s'.timer k).valid = false) ∧
      ∀ u, (s'.thread u).softintrs = s.pending s.expired u
  | .error e => e = .signal ∧ ∃ k ∈ s.expired, ¬(s.timer k).InRange

/-- Up to where `do_timer` goes, a sorted list is cut in two. -/
theorem Sorted.split (h : Sorted s) (cnt : Nat) :
    s.timers.takeWhile (fun k ↦ (s.timer k).time ≤ cnt) =
        s.timers.filter (fun k ↦ (s.timer k).time ≤ cnt) ∧
      s.timers = s.timers.filter (fun k ↦ (s.timer k).time ≤ cnt) ++
        s.timers.filter (fun k ↦ cnt < (s.timer k).time) := by
  rw [Sorted] at h
  generalize s.timers = l at h ⊢
  induction l with
  | nil => exact ⟨rfl, rfl⟩
  | cons c cs ih =>
      obtain ⟨ih₁, ih₂⟩ := ih h.of_cons
      by_cases hc : (s.timer c).time ≤ cnt
      · have hn : ¬cnt < (s.timer c).time := Nat.not_lt.2 hc
        simp only [List.takeWhile_cons, List.filter_cons, decide_eq_true hc, decide_eq_false hn,
          if_true, Bool.false_eq_true, if_false]
        refine ⟨congrArg (c :: ·) ih₁, ?_⟩
        rw [List.cons_append, ← ih₂]
      · -- no timer after one that has not expired has expired
        have hnil : cs.filter (fun k ↦ (s.timer k).time ≤ cnt) = [] := by
          refine List.filter_eq_nil_iff.2 fun k hk ↦ ?_
          have hck := (List.pairwise_cons.1 h).1 k hk
          simpa using Nat.lt_of_lt_of_le (Nat.lt_of_not_le hc) hck
        rw [hnil, List.nil_append] at ih₂
        simp only [List.takeWhile_cons, List.filter_cons, decide_eq_false hc, hnil,
          decide_eq_true (Nat.lt_of_not_le hc), if_true, Bool.false_eq_true, if_false]
        refine ⟨trivial, ?_⟩
        rw [List.nil_append, ← ih₂]

theorem Sorted.fires (h : Sorted s) (hl : Listed s) : s.Fires := by
  obtain ⟨htake, hcut⟩ := h.split s.counter
  have hexp : s.expired = s.timers.filter (fun k ↦ (s.timer k).time ≤ s.counter) := htake
  refine ⟨hexp, ?_⟩
  rw [← hexp] at hcut
  rcases State.fire_all hcut hl.nodup with ⟨s₁, h₁, ht, hb⟩ | ⟨h₁, hr⟩
  · have hl₁ := hl.foldlM_fire h₁
    rw [State.doTimer, h₁]
    have hv : ∀ k ∈ s.expired, (s₁.timer k).valid = false := by
      intro k hk
      refine eq_false_of_ne_true fun hv ↦ ?_
      have hmem := (hl₁.valid k).2 hv
      rw [ht] at hmem
      have hd := hl.nodup
      rw [hcut] at hd
      exact (List.nodup_append.1 hd).2.2 k hk k hmem rfl
    show (if s.expired ≠ [] then s₁.updateAlarm else s₁).timers = _ ∧ _
    split
    · exact ⟨ht, hv, hb⟩
    · exact ⟨ht, hv, hb⟩
  · rw [State.doTimer, h₁]
    exact ⟨rfl, hr⟩

/-! ## Switching -/

theorem Listed.notMem_vtt (h : Listed s) (t : Nat) :
    (t, Alarm.vtt) ∉ s.timers.erase (s.current, .vtt) := by
  intro hm
  obtain ⟨hne, hm⟩ := h.nodup.mem_erase_iff.1 hm
  exact hne (by rw [h.virt t hm])

theorem switchFrom_eq (s : State) (t : Nat) :
    ∃ th, s.switchFrom t = (s.setThread t th).timerRemove (t, .vtt) := ⟨_, rfl⟩

theorem Listed.timers_switchFrom (h : Listed s) :
    (s.switchFrom s.current).timers = s.timers.erase (s.current, .vtt) := by
  obtain ⟨th, he⟩ := switchFrom_eq s s.current
  rw [he]
  exact (h.congr (.setThread s s.current th)).timers_timerRemove _

theorem time_switchFrom (s : State) (t : Nat) (j : Key) :
    ((s.switchFrom t).timer j).time = (s.timer j).time := by
  obtain ⟨th, he⟩ := switchFrom_eq s t
  rw [he]
  exact time_timerRemove _ _ _

theorem counter_switchFrom (s : State) (t : Nat) : (s.switchFrom t).counter = s.counter := by
  obtain ⟨th, he⟩ := switchFrom_eq s t
  rw [he]
  exact counter_timerRemove _ _

theorem next_switchFrom (s : State) (t : Nat) : (s.switchFrom t).next = s.next := by
  obtain ⟨th, he⟩ := switchFrom_eq s t
  rw [he]
  exact next_timerRemove _ _

theorem thread_switchFrom (hne : u ≠ t) : (s.switchFrom t).thread u = s.thread u := by
  obtain ⟨th, he⟩ := switchFrom_eq s t
  rw [he, State.timerRemove]
  split <;> exact Function.update_of_ne hne _ _

/-- The state in which `schedule` sets the virtual timer of the thread that it switches
to. -/
def State.resumed (s : State) (t : Nat) : State :=
  let s := { s.switchFrom s.current with current := t }
  s.setThread t { s.thread t with vttRttbase := s.counter }

theorem switchTo_eq (s : State) (t : Nat) : (s.switchFrom s.current).switchTo t =
    if ((s.resumed t).thread t).vttAlmdiff ≠ 0 then
      (s.resumed t).setAlarm .vtt ((s.resumed t).thread t).vttAlmdiff
    else s.resumed t := rfl

theorem almdiff_resumed (hne : t ≠ s.current) :
    ((s.resumed t).thread t).vttAlmdiff = (s.thread t).vttAlmdiff := by
  have hth : (s.switchFrom s.current).thread t = s.thread t := thread_switchFrom hne
  show (Function.update (s.switchFrom s.current).thread t _ t).vttAlmdiff = _
  rw [Function.update_self]
  show ((s.switchFrom s.current).thread t).vttAlmdiff = _
  rw [hth]

theorem TInv.resumed (h : TInv s) (t : Nat) : TInv (s.resumed t) := by
  obtain ⟨th, he⟩ := switchFrom_eq s s.current
  have hf : TInv (s.switchFrom s.current) := by
    rw [he]
    exact (h.congr (.setThread s s.current th)).timerRemove _
  have hn : ∀ u, (u, Alarm.vtt) ∉ (s.switchFrom s.current).timers := by
    intro u
    rw [h.toListed.timers_switchFrom]
    exact h.toListed.notMem_vtt u
  have hc : TInv { s.switchFrom s.current with current := t } :=
    ⟨⟨hf.nodup, hf.valid, hf.owner, fun u hu ↦ absurd hu (hn u)⟩, hf.alarm⟩
  exact hc.congr (.setThread _ t _)

theorem Sorted.resumed (h : Sorted s) (hl : Listed s) (t : Nat) : Sorted (s.resumed t) := by
  refine h.erase (k := (s.current, .vtt)) ?_ fun j ↦ ?_
  · exact hl.timers_switchFrom
  · exact time_switchFrom s s.current j

theorem TInv.switch (h : TInv s) (ht : t < s.next) :
    TInv ((s.switchFrom s.current).switchTo t) := by
  rw [switchTo_eq]
  split
  · refine (h.resumed t).setAlarm ?_ _ _
    show t < (s.switchFrom s.current).next
    rw [next_switchFrom]
    exact ht
  · exact h.resumed t

/-- Switching to a thread keeps the list sorted when there is room for its virtual
timer. -/
theorem Sorted.switch (h : Sorted s) (hT : TInv s) (hne : t ≠ s.current)
    (hr : (s.thread t).vttAlmdiff ≠ 0 →
      s.Room (s.expiry (s.thread t).vttAlmdiff) (s.timers.erase (s.current, .vtt))) :
    Sorted ((s.switchFrom s.current).switchTo t) := by
  have hl := hT.toListed
  rw [switchTo_eq, almdiff_resumed hne]
  split
  · next hd =>
      refine (h.resumed hl t).setAlarm (hT.resumed t).toListed ?_
      have hlist : (s.resumed t).timers.erase ((s.resumed t).current, .vtt) =
          s.timers.erase (s.current, .vtt) := by
        show (s.switchFrom s.current).timers.erase (t, .vtt) = _
        rw [hl.timers_switchFrom, List.erase_of_not_mem (hl.notMem_vtt t)]
      have htime : ∀ j, ((s.resumed t).timer j).time = (s.timer j).time :=
        time_switchFrom s s.current
      have hexp : ∀ d, (s.resumed t).expiry d = s.expiry d := by
        intro d
        show ((s.switchFrom s.current).counter + d) % 2 ^ 64 = _
        rw [counter_switchFrom]
        rfl
      rw [hlist, hexp, State.Room]
      simp only [htime]
      exact hr hd
  · exact h.resumed hl t

/-- What `schedule` does when it is not cut short. -/
theorem schedule_eq (s : State) (newst : Status) :
    (s.schedule newst = s ∨ s.schedule newst = (s.pick newst).2) ∨
    (newst ≠ .running ∧ ¬(newst = .stopped ∧ s.hasInterrupts s.current) ∧
      (s.pick newst).1 ≠ s.current) ∧
      (s.schedule newst = ((s.pick newst).2.switchFrom s.current).switchTo (s.pick newst).1 ∨
        s.schedule newst =
          (((s.pick newst).2.switchFrom s.current).switchTo (s.pick newst).1).requeue
            s.current newst) := by
  rw [State.schedule]
  split
  · exact .inl (.inl rfl)
  · next hn =>
      obtain ⟨hn, hp⟩ := not_or.1 hn
      dsimp only
      split
      · exact .inl (.inr rfl)
      · next hne =>
          refine .inr ⟨⟨hn, hp, hne⟩, ?_⟩
          split
          · exact .inl rfl
          · exact .inr rfl

/-- What `schedule` does to the timers. -/
theorem schedule_cases (s : State) (newst : Status) :
    SameTimers s (s.schedule newst) ∨
    newst ≠ .running ∧ ¬(newst = .stopped ∧ s.hasInterrupts s.current) ∧
      (s.pick newst).1 ≠ s.current ∧
      SameTimers (((s.pick newst).2.switchFrom s.current).switchTo (s.pick newst).1)
        (s.schedule newst) := by
  rcases schedule_eq s newst with (hs | hs) | ⟨⟨hn, hp, hne⟩, hs | hs⟩
  · rw [hs]
    exact .inl (.refl s)
  · rw [hs]
    exact .inl (.pick s newst)
  · rw [hs]
    exact .inr ⟨hn, hp, hne, .refl _⟩
  · rw [hs]
    exact .inr ⟨hn, hp, hne, .requeue _ _ _⟩

theorem TInv.schedule (h : TInv s) (ht : (s.pick newst).1 < s.next) :
    TInv (s.schedule newst) := by
  have hp := SameTimers.pick s newst
  rcases schedule_cases s newst with hs | ⟨-, -, -, hs⟩
  · exact h.congr hs
  · rw [← hp.current] at hs
    rw [← hp.next] at ht
    exact ((h.congr hp).switch ht).congr hs

theorem almdiff_pick (s : State) (newst : Status) (u : Nat) :
    ((s.pick newst).2.thread u).vttAlmdiff = (s.thread u).vttAlmdiff := by
  rw [State.pick]
  cases s.running with
  | nil => rfl
  | cons t ts =>
      show ((s.setStatus t .running).thread u).vttAlmdiff = _
      exact State.setThread_field (by rfl) u

/-- There is room for the virtual timer of `t` when the current thread is left for it. -/
def State.RoomFor (s : State) (t : Nat) : Prop :=
  t ≠ s.current → (s.thread t).vttAlmdiff ≠ 0 →
    s.Room (s.expiry (s.thread t).vttAlmdiff) (s.timers.erase (s.current, .vtt))

/-- `RoomFor` is about the timers and the virtual alarm of `t`. -/
theorem RoomFor.congr (h : s.RoomFor t) (hs : SameTimers s s')
    (hd : (s'.thread t).vttAlmdiff = (s.thread t).vttAlmdiff) : s'.RoomFor t := by
  rw [State.RoomFor, State.Room, State.expiry, hd, hs.current, hs.timers, hs.counter, hs.timer]
  exact h

theorem Sorted.schedule (h : Sorted s) (hT : TInv s)
    (hr : newst ≠ .running → ¬(newst = .stopped ∧ s.hasInterrupts s.current) →
      s.RoomFor (s.pick newst).1) : Sorted (s.schedule newst) := by
  have hp := SameTimers.pick s newst
  rcases schedule_cases s newst with hs | ⟨hn, hi, hne, hs⟩
  · exact h.congr hs
  · rw [← hp.current] at hs hne
    have hroom := RoomFor.congr (hr hn hi) hp (almdiff_pick s newst _)
    exact ((h.congr hp).switch (hT.congr hp) hne (hroom hne)).congr hs

/-! ## Steps -/

/-- Every thread that the scheduler takes has been created. -/
theorem QInv.pick_lt (h : QInv s.queues) (newst : Status) : (s.pick newst).1 < s.next := by
  have hc : s.current < s.next := by
    rcases h.current with hc | hc
    · exact (show s.current = s.idle from hc) ▸ h.idle_lt
    · exact hc.1
  rw [State.pick]
  split
  · dsimp only
    split
    · exact hc
    · exact h.idle_lt
  · next t ts hr => exact ((h.running t).1 (show t ∈ s.running from hr ▸ List.mem_cons_self)).1.1

theorem QInv.current_lt (h : QInv s.queues) : s.current < s.next := by
  rcases h.current with hc | hc
  · exact (show s.current = s.idle from hc) ▸ h.idle_lt
  · exact hc.1

/-- The new thread has no timers. -/
theorem TInv.thfork (h : TInv s) : TInv s.thfork := by
  have hne : ∀ a, (s.next, a) ∉ s.timers := fun a hm ↦ Nat.lt_irrefl _ (h.owner _ hm)
  have htm : ∀ k, k.1 ≠ s.next → s.thfork.timer k = s.timer k := by
    intro k hk
    show Function.update (Function.update s.timer _ _) _ _ k = _
    rw [Function.update_of_ne fun he ↦ hk (congrArg Prod.fst he),
      Function.update_of_ne fun he ↦ hk (congrArg Prod.fst he)]
  have hnew : ∀ a, (s.thfork.timer (s.next, a)).valid = false := by
    intro a
    show (Function.update (Function.update s.timer _ _) _ _ (s.next, a)).valid = _
    cases a with
    | rtt => rw [Function.update_of_ne fun he ↦ Alarm.noConfusion (congrArg Prod.snd he),
        Function.update_self]
    | vtt => rw [Function.update_self]
  refine ⟨⟨h.nodup, fun k ↦ ?_, fun k hk ↦ Nat.lt_succ_of_lt (h.owner k hk), h.virt⟩, ?_⟩
  · obtain ⟨t, a⟩ := k
    by_cases ht : t = s.next
    · subst ht
      rw [hnew a]
      exact iff_of_false (hne a) Bool.noConfusion
    · rw [htm _ ht]
      exact h.valid _
  · show s.alarm = Option.map (fun k ↦ (s.thfork.timer k).time) s.timers.head?
    rw [h.alarm]
    cases hh : s.timers.head? with
    | none => rfl
    | some k =>
        have hk := h.owner k (List.mem_of_mem_head? hh)
        rw [Option.map_some, Option.map_some, htm k (Nat.ne_of_lt hk)]

theorem Sorted.thfork (h : Sorted s) (hl : Listed s) : Sorted s.thfork := by
  refine List.Pairwise.imp_of_mem (fun hx hy hxy ↦ ?_) h
  have htm : ∀ k ∈ s.timers, s.thfork.timer k = s.timer k := by
    intro k hk
    have hne := Nat.ne_of_lt (hl.owner k hk)
    show Function.update (Function.update s.timer _ _) _ _ k = _
    rw [Function.update_of_ne fun he ↦ hne (congrArg Prod.fst he),
      Function.update_of_ne fun he ↦ hne (congrArg Prod.fst he)]
  rw [htm _ hx, htm _ hy]
  exact hxy

/-- The signal of a timer does not matter to the list. -/
theorem timer_sig (s : State) (k j : Key) (n : Nat) :
    ((s.setTimer k { s.timer k with sig := n }).timer j).valid = (s.timer j).valid ∧
      ((s.setTimer k { s.timer k with sig := n }).timer j).time = (s.timer j).time := by
  show (Function.update s.timer k _ j).valid = _ ∧ (Function.update s.timer k _ j).time = _
  by_cases hj : j = k
  · subst hj
    rw [Function.update_self]
    exact ⟨rfl, rfl⟩
  · rw [Function.update_of_ne hj]
    exact ⟨rfl, rfl⟩

theorem TInv.irqmap (h : TInv s) (k : Key) (n : Nat) :
    TInv (s.setTimer k { s.timer k with sig := n }) := by
  refine ⟨⟨h.nodup, fun j ↦ ?_, h.owner, h.virt⟩, ?_⟩
  · rw [(timer_sig s k j n).1]
    exact h.valid j
  · simp only [(timer_sig s k _ n).2]
    exact h.alarm

theorem Sorted.irqmap (h : Sorted s) (k : Key) (n : Nat) :
    Sorted (s.setTimer k { s.timer k with sig := n }) := by
  rw [Sorted]
  simp only [(timer_sig s k _ n).2]
  exact h

/-- Of the soft interrupts only `do_timer` has to do with the timers. -/
theorem doSoftirq_timers (hs : s.doSoftirq = .ok s') :
    ∃ s₁, SameTimers s s₁ ∧ (s₁.doTimer = .ok s' ∨ s' = s₁) := by
  simp only [State.doSoftirq, State.softirqs] at hs
  obtain ⟨s₁, h₁, h₂⟩ := bind_eq_ok.1 hs
  have hd : SameTimers s { s.deliver with softZombie := false, softTimer := false } :=
    (SameTimers.deliver s).trans ⟨rfl, rfl, rfl, rfl, rfl, rfl⟩
  refine ⟨s₁, ?_, ?_⟩
  · split at h₁
    · exact hd.trans (.doZombie h₁)
    · rwa [← Except.ok.inj h₁]
  · split at h₂
    · exact .inl h₂
    · exact .inr (Except.ok.inj h₂).symm

theorem TInv.doSoftirq (h : TInv s) (hs : s.doSoftirq = .ok s') : TInv s' := by
  obtain ⟨s₁, hsame, ht | rfl⟩ := doSoftirq_timers hs
  · exact (h.congr hsame).doTimer ht
  · exact h.congr hsame

theorem Sorted.doSoftirq (h : Sorted s) (hs : s.doSoftirq = .ok s') : Sorted s' := by
  obtain ⟨s₁, hsame, ht | rfl⟩ := doSoftirq_timers hs
  · exact (h.congr hsame).doTimer ht
  · exact h.congr hsame

theorem SameTimers.parting {status : Nat} (h : s.parting status = .ok s') : SameTimers s s' := by
  obtain ⟨s₁, h₁, h⟩ := bind_eq_ok.1 h
  rw [← Except.ok.inj h]
  exact ((SameTimers.inherit s s.current).trans (.thraise h₁)).trans (.setThread _ _ _)

/-- Every call keeps the list and the hardware timer in step. -/
theorem step_tinv (hq : QInv s.queues) (h : TInv s) (hs : Step s op s') : TInv s' := by
  obtain ⟨hal, hs⟩ := hs
  cases op with
  | fork =>
      rw [← Except.ok.inj hs]
      exact h.thfork
  | yield =>
      rw [← Except.ok.inj hs]
      exact h.schedule (hq.pick_lt _)
  | wait =>
      rw [← Except.ok.inj hs]
      have hset := SameTimers.setThread s s.current { s.thread s.current with intr := true }
      have hq' : QInv (s.setThread s.current { s.thread s.current with intr := true }).queues :=
        hq.setThread rfl rfl
      exact (h.congr hset).schedule (hq'.pick_lt _)
  | sti =>
      rw [← Except.ok.inj hs]
      exact h.congr (.setThread _ _ _)
  | cli =>
      rw [← Except.ok.inj hs]
      exact h.congr (.setThread _ _ _)
  | exit status =>
      obtain ⟨hp, s₁, h₁, rfl⟩ := State.exit_ok hs
      exact (h.congr (.parting h₁)).schedule ((hq.parting hp h₁).1.pick_lt _)
  | childstat =>
      rw [← Except.ok.inj hs]
      exact h.congr (.childstat s)
  | wake t =>
      rw [← Except.ok.inj hs]
      exact h.congr (.wake s t)
  | raise t vect => exact h.congr (.thraise hs)
  | softirq => exact h.doSoftirq hs
  | alarm a diff =>
      rw [← Except.ok.inj hs]
      exact h.setAlarm hq.current_lt a diff
  | irqmap a sig =>
      rw [← Except.ok.inj hs]
      exact h.irqmap _ _
  | idle =>
      rw [← Except.ok.inj hs]
      exact h.schedule (hq.pick_lt _)
  | event =>
      rw [← Except.ok.inj hs]
      exact h.congr ⟨rfl, rfl, rfl, rfl, rfl, rfl⟩
  | tick counter =>
      rw [← Except.ok.inj hs]
      exact ⟨⟨h.nodup, h.valid, h.owner, h.virt⟩, h.alarm⟩

theorem tinv_boot : TInv boot where
  nodup := List.nodup_nil
  valid _ := iff_of_false List.not_mem_nil Bool.noConfusion
  owner _ hk := absurd hk List.not_mem_nil
  virt _ ht := absurd ht List.not_mem_nil
  alarm := rfl

end Mh.Sched
