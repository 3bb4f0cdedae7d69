import Mh.Sched.Model
import Mathlib.Data.List.Nodup
import Mathlib.Data.List.Perm.Basic

/-!
# The list of timers

`Listed` says that the list holds the timers that are valid, each once, and whose they
are: a virtual timer is that of the current thread, since `schedule` removes the one of
the thread that it leaves.  Every call keeps it, and keeps the hardware timer set to the
first timer of the list (`TInv`).

That the list is sorted is another matter.  `timer_register` walks to the first timer
that does not expire before the new one, and inserts the new one *after* it.
`insertTimer_sorted` says when this is right: when no timer of the list expires later,
or one expires at the same time.
-/

namespace Mh.Sched

open Mh.Lib

variable {s s' s'' : State} {t u vect : Nat} {k j c : Key} {ks ls : List Key} {a : Alarm}
  {newst : Status} {diff : Nat}

/-! ## What leaves the timers alone -/

/-- The timers and whose they may be are the same in both states. -/
structure SameTimers (s s' : State) : Prop where
  timer : s'.timer = s.timer
  timers : s'.timers = s.timers
  alarm : s'.alarm = s.alarm
  counter : s'.counter = s.counter
  next : s'.next = s.next
  current : s'.current = s.current

namespace SameTimers

theorem refl (s : State) : SameTimers s s := ⟨rfl, rfl, rfl, rfl, rfl, rfl⟩

theorem trans (h : SameTimers s s') (h' : SameTimers s' s'') : SameTimers s s'' :=
  ⟨h'.1.trans h.1, h'.2.trans h.2, h'.3.trans h.3, h'.4.trans h.4, h'.5.trans h.5,
    h'.6.trans h.6⟩

theorem setThread (s : State) (t : Nat) (th : Thread) : SameTimers s (s.setThread t th) :=
  ⟨rfl, rfl, rfl, rfl, rfl, rfl⟩

theorem wake (s : State) (t : Nat) : SameTimers s (s.wake t) := by
  rw [State.wake]
  cases (s.thread t).status <;> exact ⟨rfl, rfl, rfl, rfl, rfl, rfl⟩

theorem thraise (h : s.thraise t vect = .ok s') : SameTimers s s' := by
  rw [State.thraise] at h
  split at h
  · rw [← Except.ok.inj h]
    exact (setThread s t _).trans (wake _ t)
  · cases h

theorem requeue (s : State) (t : Nat) (newst : Status) : SameTimers s (s.requeue t newst) := by
  cases newst <;> exact ⟨rfl, rfl, rfl, rfl, rfl, rfl⟩

theorem pick (s : State) (newst : Status) : SameTimers s (s.pick newst).2 := by
  rw [State.pick]
  cases s.running <;> exact ⟨rfl, rfl, rfl, rfl, rfl, rfl⟩

theorem inherit (s : State) (t : Nat) : SameTimers s (s.inherit t) :=
  ⟨rfl, rfl, rfl, rfl, rfl, rfl⟩

theorem deliver (s : State) : SameTimers s s.deliver := by
  simp only [State.deliver]
  split
  · exact setThread s _ _
  · exact refl s

theorem childstat (s : State) : SameTimers s s.childstat.2 := by
  rw [State.childstat]
  cases s.zombies s.current <;> exact ⟨rfl, rfl, rfl, rfl, rfl, rfl⟩

theorem raiseTimer (h : s.raiseTimer k = .ok s') : SameTimers s s' := by
  simp only [State.raiseTimer] at h
  split at h
  · exact thraise h
  · rw [← Except.ok.inj h]
    exact refl s

theorem doZombie (h : s.doZombie = .ok s') : SameTimers s s' := by
  rw [State.doZombie] at h
  split at h
  · rw [← Except.ok.inj h]
    exact refl s
  · dsimp only at h
    split at h
    · split at h
      · cases h
      · have hs := thraise h
        exact ⟨hs.timer, hs.timers, hs.alarm, hs.counter, hs.next, hs.current⟩
    · cases h

end SameTimers

/-! ## The list -/

/-- The list holds the timers that are valid, each once; a virtual timer is that of the
current thread. -/
structure Listed (s : State) : Prop where
  nodup : s.timers.Nodup
  valid : ∀ k, k ∈ s.timers ↔ (s.timer k).valid = true
  owner : ∀ k ∈ s.timers, k.1 < s.next
  virt : ∀ t, (t, Alarm.vtt) ∈ s.timers → t = s.current

/-- `Listed`, and the hardware timer is set to the first timer. -/
structure TInv (s : State) : Prop extends Listed s where
  alarm : s.alarm = s.timers.head?.map fun k ↦ (s.timer k).time

/-- The list is sorted. -/
def Sorted (s : State) : Prop := s.timers.Pairwise fun a b ↦ (s.timer a).time ≤ (s.timer b).time

theorem Listed.congr (h : Listed s) (hs : SameTimers s s') : Listed s' := by
  obtain ⟨h₁, h₂, -, -, h₃, h₄⟩ := hs
  refine ⟨h₂ ▸ h.nodup, fun k ↦ ?_, fun k hk ↦ ?_, fun t ht ↦ ?_⟩
  · rw [h₁, h₂]
    exact h.valid k
  · rw [h₃]
    exact h.owner k (h₂ ▸ hk)
  · rw [h₄]
    exact h.virt t (h₂ ▸ ht)

theorem TInv.congr (h : TInv s) (hs : SameTimers s s') : TInv s' := by
  refine ⟨h.toListed.congr hs, ?_⟩
  rw [hs.alarm, hs.timers, hs.timer]
  exact h.alarm

theorem Sorted.congr (h : Sorted s) (hs : SameTimers s s') : Sorted s' := by
  rw [Sorted, hs.timers, hs.timer]
  exact h

/-! ## Removing a timer -/

theorem Listed.timers_timerRemove (h : Listed s) (k : Key) :
    (s.timerRemove k).timers = s.timers.erase k := by
  rw [State.timerRemove]
  split
  · rfl
  · next hv => rw [List.erase_of_not_mem fun hm ↦ hv ((h.valid k).1 hm)]

theorem timer_timerRemove (s : State) (k : Key) : (s.timerRemove k).timer =
    Function.update s.timer k { s.timer k with valid := false } := by
  rw [State.timerRemove]
  split
  · rfl
  · next hv =>
      have hf : (s.timer k).valid = false := eq_false_of_ne_true hv
      have he : ({ s.timer k with valid := false } : Timer) = s.timer k := by
        rw [← hf]
      rw [he, Function.update_eq_self]

@[simp] theorem counter_timerRemove (s : State) (k : Key) :
    (s.timerRemove k).counter = s.counter := by
  rw [State.timerRemove]
  split <;> rfl

@[simp] theorem next_timerRemove (s : State) (k : Key) : (s.timerRemove k).next = s.next := by
  rw [State.timerRemove]
  split <;> rfl

@[simp] theorem current_timerRemove (s : State) (k : Key) :
    (s.timerRemove k).current = s.current := by
  rw [State.timerRemove]
  split <;> rfl

/-- A timer that becomes invalid keeps its time and its signal. -/
theorem update_valid_time (f : Key → Timer) (k j : Key) :
    (Function.update f k { f k with valid := false } j).time = (f j).time := by
  by_cases hj : j = k
  · subst hj
    rw [Function.update_self]
  · rw [Function.update_of_ne hj]

theorem time_timerRemove (s : State) (k j : Key) :
    ((s.timerRemove k).timer j).time = (s.timer j).time := by
  rw [timer_timerRemove]
  exact update_valid_time s.timer k j

/-- One timer leaves the list and becomes invalid. -/
theorem Listed.erase (h : Listed s) (ht : s'.timers = s.timers.erase k)
    (hv : s'.timer = Function.update s.timer k { s.timer k with valid := false })
    (hn : s'.next = s.next) (hc : s'.current = s.current) : Listed s' := by
  have hm : ∀ j, j ∈ s'.timers ↔ j ≠ k ∧ j ∈ s.timers := by
    intro j
    rw [ht]
    exact h.nodup.mem_erase_iff
  refine ⟨ht ▸ h.nodup.erase k, fun j ↦ ?_, fun j hj ↦ ?_, fun t htm ↦ ?_⟩
  · rw [hm, hv]
    by_cases hj : j = k
    · subst hj
      rw [Function.update_self]
      exact iff_of_false (fun hc ↦ hc.1 rfl) Bool.noConfusion
    · rw [Function.update_of_ne hj, and_iff_right hj]
      exact h.valid j
  · rw [hn]
    exact h.owner j ((hm j).1 hj).2
  · rw [hc]
    exact h.virt t ((hm _).1 htm).2

theorem Sorted.erase (h : Sorted s) (ht : s'.timers = s.timers.erase k)
    (hv : ∀ j, (s'.timer j).time = (s.timer j).time) : Sorted s' := by
  rw [Sorted, ht]
  simp only [hv]
  exact h.sublist List.erase_sublist

theorem Listed.timerRemove (h : Listed s) (k : Key) : Listed (s.timerRemove k) :=
  h.erase (h.timers_timerRemove k) (timer_timerRemove s k) (next_timerRemove s k)
    (current_timerRemove s k)

theorem TInv.timerRemove (h : TInv s) (k : Key) : TInv (s.timerRemove k) := by
  refine ⟨h.toListed.timerRemove k, ?_⟩
  rw [State.timerRemove]
  split
  · show Option.map (fun k ↦ (s.timer k).time) (s.timers.erase k).head? = _
    congr 1
    funext j
    exact (update_valid_time s.timer k j).symm
  · exact h.alarm

/-! ## Registering a timer -/

theorem insertTimer_perm (s : State) (k : Key) (time : Nat) (c : Key) (cs : List Key) :
    (s.insertTimer k time c cs).Perm (k :: c :: cs) := by
  induction cs generalizing c with
  | nil => exact List.Perm.swap k c []
  | cons d ds ih =>
      rw [State.insertTimer]
      split
      · exact ((ih d).cons c).trans (List.Perm.swap k c (d :: ds))
      · exact List.Perm.swap k c (d :: ds)

/-- A timer can be registered for `time` among `cs`: none of these expires later, or one
expires at the same time. -/
def State.Room (s : State) (time : Nat) (cs : List Key) : Prop :=
  (∃ x ∈ cs, time < (s.timer x).time) → ∃ x ∈ cs, (s.timer x).time = time

instance State.decidableRoom (s : State) (time : Nat) (cs : List Key) :
    Decidable (s.Room time cs) :=
  inferInstanceAs (Decidable ((∃ x ∈ cs, time < (s.timer x).time) → _))

section Insert

variable {time : Nat} {cs : List Key}

theorem time_head_le (hs : (c :: cs).Pairwise fun a b ↦ (s.timer a).time ≤ (s.timer b).time)
    (hj : j ∈ c :: cs) : (s.timer c).time ≤ (s.timer j).time := by
  rcases List.mem_cons.1 hj with rfl | hj
  · exact Nat.le_refl _
  · exact (List.pairwise_cons.1 hs).1 j hj

/-- Where the walk of `timer_register` stops, it has reached a timer that expires no
later than the new one. -/
theorem time_head_le_of_room (hr : s.Room time (c :: cs))
    (hs : (c :: cs).Pairwise fun a b ↦ (s.timer a).time ≤ (s.timer b).time) :
    (s.timer c).time ≤ time := by
  by_contra hn
  obtain ⟨x, hx, hxt⟩ := hr ⟨c, List.mem_cons_self, Nat.lt_of_not_le hn⟩
  rw [← hxt] at hn
  exact hn (time_head_le hs hx)

theorem Room.tail (hr : s.Room time (c :: cs)) (hc : (s.timer c).time < time) :
    s.Room time cs := by
  rintro ⟨x, hx, hxt⟩
  obtain ⟨y, hy, hyt⟩ := hr ⟨x, List.mem_cons_of_mem c hx, hxt⟩
  rcases List.mem_cons.1 hy with rfl | hy
  · rw [hyt] at hc
    exact absurd hc (Nat.lt_irrefl time)
  · exact ⟨y, hy, hyt⟩

/-- The walk finds the right place when there is room for the new timer. -/
theorem insertTimer_sorted (hk : (s.timer k).time = time)
    (hs : (c :: cs).Pairwise fun a b ↦ (s.timer a).time ≤ (s.timer b).time)
    (hr : s.Room time (c :: cs)) :
    (s.insertTimer k time c cs).Pairwise fun a b ↦ (s.timer a).time ≤ (s.timer b).time := by
  induction cs generalizing c with
  | nil =>
      refine List.pairwise_pair.2 ?_
      rw [hk]
      exact time_head_le_of_room hr hs
  | cons d ds ih =>
      rw [State.insertTimer]
      split
      · next hc =>
          refine List.pairwise_cons.2 ⟨fun x hx ↦ ?_, ih hs.of_cons (Room.tail hr hc)⟩
          rcases List.mem_cons.1 ((insertTimer_perm s k time d ds).mem_iff.1 hx) with rfl | hx
          · rw [hk]
            exact Nat.le_of_lt hc
          · exact time_head_le hs (List.mem_cons_of_mem c hx)
      · next hc =>
          have hle := time_head_le_of_room hr hs
          have hck : (s.timer c).time = (s.timer k).time :=
            (Nat.le_antisymm hle (Nat.le_of_not_lt hc)).trans hk.symm
          refine List.pairwise_cons.2 ⟨fun x hx ↦ ?_, List.pairwise_cons.2 ⟨fun x hx ↦ ?_,
            hs.of_cons⟩⟩
          · rcases List.mem_cons.1 hx with rfl | hx
            · exact Nat.le_of_eq hck
            · exact time_head_le hs (List.mem_cons_of_mem c hx)
          · rw [← hck]
            exact time_head_le hs (List.mem_cons_of_mem c hx)

end Insert

/-- The time for which `thalrm` and `thvtalrm` set a timer. -/
def State.expiry (s : State) (diff : Nat) : Nat := (s.counter + diff) % 2 ^ 64

section SetAlarm

/-- The timer of `setAlarm` when it is registered. -/
theorem setAlarm_eq (s : State) (a : Alarm) (diff : Nat) : s.setAlarm a diff =
    State.timerRegister ((s.timerRemove (s.current, a)).setTimer (s.current, a)
      ⟨true, s.expiry diff, (s.timer (s.current, a)).sig⟩) (s.current, a) := by
  have hsig : ((s.timerRemove (s.current, a)).timer (s.current, a)).sig =
      (s.timer (s.current, a)).sig := by
    rw [timer_timerRemove, Function.update_self]
  simp only [State.setAlarm, hsig, counter_timerRemove]
  rfl

theorem timer_setAlarm (s : State) (a : Alarm) (diff : Nat) : (s.setAlarm a diff).timer =
    Function.update s.timer (s.current, a)
      ⟨true, s.expiry diff, (s.timer (s.current, a)).sig⟩ := by
  rw [setAlarm_eq]
  show Function.update (s.timerRemove (s.current, a)).timer _ _ = _
  rw [timer_timerRemove, Function.update_idem]

theorem timers_timerRegister_perm (s : State) (k : Key) :
    (s.timerRegister k).timers.Perm (k :: s.timers) := by
  simp only [State.timerRegister, State.updateAlarm]
  cases s.timers with
  | nil => exact List.Perm.refl _
  | cons c cs => exact insertTimer_perm s k _ c cs

theorem Listed.timers_setAlarm (h : Listed s) (a : Alarm) (diff : Nat) :
    (s.setAlarm a diff).timers.Perm ((s.current, a) :: s.timers.erase (s.current, a)) := by
  rw [setAlarm_eq, ← h.timers_timerRemove]
  exact timers_timerRegister_perm _ _

@[simp] theorem current_setAlarm (s : State) (a : Alarm) (diff : Nat) :
    (s.setAlarm a diff).current = s.current := by
  rw [setAlarm_eq]
  exact current_timerRemove s _

@[simp] theorem next_setAlarm (s : State) (a : Alarm) (diff : Nat) :
    (s.setAlarm a diff).next = s.next := by
  rw [setAlarm_eq]
  exact next_timerRemove s _

theorem Listed.mem_setAlarm (h : Listed s) (a : Alarm) (diff : Nat) (j : Key) :
    j ∈ (s.setAlarm a diff).timers ↔ j = (s.current, a) ∨ j ∈ s.timers := by
  rw [(h.timers_setAlarm a diff).mem_iff, List.mem_cons, h.nodup.mem_erase_iff]
  by_cases hj : j = (s.current, a)
  · exact iff_of_true (.inl hj) (.inl hj)
  · rw [and_iff_right hj]

theorem TInv.setAlarm (h : TInv s) (hc : s.current < s.next) (a : Alarm) (diff : Nat) :
    TInv (s.setAlarm a diff) := by
  have hm := h.toListed.mem_setAlarm a diff
  refine ⟨⟨?_, fun j ↦ ?_, fun j hj ↦ ?_, fun t ht ↦ ?_⟩, ?_⟩
  · refine (h.timers_setAlarm a diff).nodup_iff.2 (List.nodup_cons.2 ⟨fun hmem ↦ ?_, ?_⟩)
    · exact (h.nodup.mem_erase_iff.1 hmem).1 rfl
    · exact h.nodup.erase _
  · rw [hm, timer_setAlarm]
    by_cases hj : j = (s.current, a)
    · subst hj
      rw [Function.update_self]
      exact iff_of_true (.inl rfl) rfl
    · rw [Function.update_of_ne hj, or_iff_right hj]
      exact h.valid j
  · rw [next_setAlarm]
    rcases (hm j).1 hj with rfl | hj
    · exact hc
    · exact h.owner j hj
  · rw [current_setAlarm]
    rcases (hm _).1 ht with heq | ht
    · exact congrArg Prod.fst heq
    · exact h.virt t ht
  · rw [setAlarm_eq]
    rfl

theorem Sorted.timerRegister (h : Sorted s) (hr : s.Room (s.timer k).time s.timers) :
    Sorted (s.timerRegister k) := by
  rw [Sorted] at h ⊢
  simp only [State.timerRegister, State.updateAlarm]
  cases hs : s.timers with
  | nil => exact List.pairwise_singleton _ _
  | cons c cs =>
      rw [hs] at h hr
      exact insertTimer_sorted rfl h hr

/-- Setting an alarm keeps the list sorted when there is room among the other timers. -/
theorem Sorted.setAlarm (h : Sorted s) (hl : Listed s)
    (hr : s.Room (s.expiry diff) (s.timers.erase (s.current, a))) :
    Sorted (s.setAlarm a diff) := by
  rw [setAlarm_eq]
  generalize htm : (⟨true, s.expiry diff, (s.timer (s.current, a)).sig⟩ : Timer) = tm
  have htime : tm.time = s.expiry diff := by rw [← htm]
  -- the other timers are as they were
  have hother : ∀ j ∈ s.timers.erase (s.current, a),
      (((s.timerRemove (s.current, a)).setTimer (s.current, a) tm).timer j).time =
        (s.timer j).time := by
    intro j hj
    have hne : j ≠ (s.current, a) := (hl.nodup.mem_erase_iff.1 hj).1
    show (Function.update (s.timerRemove (s.current, a)).timer _ tm j).time = _
    rw [Function.update_of_ne hne, time_timerRemove]
  have hlist : ((s.timerRemove (s.current, a)).setTimer (s.current, a) tm).timers =
      s.timers.erase (s.current, a) := hl.timers_timerRemove _
  have hself : (((s.timerRemove (s.current, a)).setTimer (s.current, a) tm).timer
      (s.current, a)) = tm := Function.update_self _ _ _
  refine Sorted.timerRegister ?_ ?_
  · rw [Sorted, hlist]
    refine List.Pairwise.imp_of_mem (fun hx hy hxy ↦ ?_) (h.sublist List.erase_sublist)
    rw [hother _ hx, hother _ hy]
    exact hxy
  · rw [hlist, hself, htime]
    rintro ⟨x, hx, hxt⟩
    rw [hother x hx] at hxt
    obtain ⟨y, hy, hyt⟩ := hr ⟨x, hx, hxt⟩
    exact ⟨y, hy, (hother y hy).trans hyt⟩

end SetAlarm

end Mh.Sched
