import Mathlib.Data.List.Count
import Mh.Lib.WaitLists
import Mh.Rump.Effects

/-!
# Nobody sleeps unseen

A thread that sleeps in `wait` is on the list it waits on, or is to be woken by the thread that
has taken it off; on a list there are only threads that sleep in a `wait` on it, so that what the
list links, which is on their stacks, is there.

This is so in every state of a run whose steps meet three conditions (`Calm`): no thread that
sleeps in `wait` is woken by other code, or by `exit_thread` or `join_thread`, and no thread exits
from inside a function of this file.
-/

namespace Mh.Rump

open Mh.Lib (Run Orderly)

/-! ## The threads that there are -/

/-- The thread that an instruction names. -/
def Instr.names : Instr → Option Nat
  | .lwtWake _ t | .joinLoop t => some t
  | _ => none

/-- Every thread that is named has been made, and one that has not been made has nothing to do. -/
structure Within (s : State) : Prop where
  current : s.current < s.threads
  todo : ∀ t, s.threads ≤ t → s.todo t = []
  awake : ∀ t, s.threads ≤ t → s.awake t = false
  waiters : ∀ h, ∀ t ∈ s.waiters h, t < s.threads
  joinwq : ∀ jw ∈ s.joinwq, jw.1 < s.threads
  joinable : ∀ t, s.mustjoin t = true → t < s.threads
  named : ∀ u, ∀ t ∈ (s.todo u).filterMap Instr.names, t < s.threads

namespace State

variable (s : State)

/-- The thread sleeps in `wait`. -/
def Sleeping (t : Nat) (h : Waithead) : Prop :=
  s.awake t = false ∧ (s.todo t).head? = some (.waiting h)

/-- How many wakes of `t`, which it has taken off a list, the thread `u` has still to do. -/
def wakes (u t : Nat) : Nat := (s.todo u).count (.lwtWake .wakeup t)

/-- Nobody sleeps unseen. -/
def Seen : Prop := Orderly s.waiters s.Sleeping s.wakes

/-- A thread that sleeps in `wait` is woken by whoever has taken it off the list, and a thread
that exits is in no other function of this file. -/
def Calm : Op → Prop
  | .exec =>
    match s.todo s.current with
    | .lwtWake .wakeup _ :: _ => True
    | .lwtWake _ t :: _ => ∀ h, ¬ s.Sleeping t h
    | .lwtExit :: is => is = []
    | _ => True
  | .kick t => ∀ h, ¬ s.Sleeping t h
  | _ => True

end State

/-- A wake of a thread. -/
def Instr.isWake : Instr → Bool
  | .lwtWake _ _ => true
  | _ => false

/-- A wake of a thread that has been taken off a list. -/
def Instr.isWakeup : Instr → Bool
  | .lwtWake .wakeup _ => true
  | _ => false

/-- What an instruction of the current thread does to the lists, and to who is awake. -/
inductive WaitStep (s : State) : Instr → State → List Instr → Prop
  | same {i u new} (hw : u.waiters = s.waiters) (ha : u.awake = s.awake) (ht : u.todo = s.todo)
      (hc : u.current = s.current) (hn : u.threads = s.threads)
      (hi : i.isWake = false) (hnew : new.any Instr.isWakeup = false) : WaitStep s i u new
  | sleep : WaitStep s .lwtSleep s.sleep [.slept]
  | wake {waker t} (ht : t ≠ s.current) : WaitStep s (.lwtWake waker t)
      { s with awake := Function.update s.awake t true } []
  | wait {i h new} (hi : i.isWake = false) (hnew : new.any Instr.isWakeup = false) :
      WaitStep s i (s.wait h).1 (.waiting h :: new)
  | pop {i h w ws u new more} (hw : s.waiters h = w :: ws)
      (hu : u.waiters = Function.update s.waiters h ws) (ha : u.awake = s.awake)
      (ht : u.todo = s.todo) (hc : u.current = s.current) (hn : u.threads = s.threads)
      (hi : i.isWake = false) (hnew : new = Rump.wake .wakeup w ++ more)
      (hmore : more.any Instr.isWakeup = false) : WaitStep s i u new
  | create {i joinable} (hi : i.isWake = false) : WaitStep s i (s.threadCreate joinable) []

section

variable {s u s' : State} {i : Instr} {is new : List Instr} {op : Op}

theorem Idle.isWake (h : Idle s i new) : i.isWake = false := by
  cases h <;> rfl

theorem Idle.noWakeup (h : Idle s i new) : new.any Instr.isWakeup = false := by
  cases h with
  | cvResched m =>
      unfold State.cvResched
      split <;> rfl
  | _ => rfl

/-- What an instruction does to the lists. -/
theorem Exec.waitStep (h : Exec s i u new) : WaitStep s i u new := by
  cases h with
  | idle hi => exact .same rfl rfl rfl rfl rfl hi.isWake hi.noWakeup
  | sleep => exact .sleep
  | wake ht => exact .wake ht
  | wait hi => cases hi <;> exact .wait rfl rfl
  | pop hi hw => cases hi <;> exact .pop hw rfl rfl rfl rfl rfl rfl rfl rfl
  | enter hi hy => cases hi <;> exact .same rfl rfl rfl rfl rfl rfl rfl
  | leaveWake hv hw => exact .pop hw rfl rfl rfl rfl rfl rfl (List.append_nil _).symm rfl
  | rwEnterWriter hi ho => cases hi <;> exact .same rfl rfl rfl rfl rfl rfl rfl
  | rwEnterReader hi ho hw => cases hi <;> exact .same rfl rfl rfl rfl rfl rfl rfl
  | rwLeaveOne hw => exact .pop hw rfl rfl rfl rfl rfl rfl (List.append_nil _).symm rfl
  | rwLeaveAll hn hw => exact .pop hw rfl rfl rfl rfl rfl rfl rfl rfl
  | count hi => cases hi <;> exact .same rfl rfl rfl rfl rfl rfl rfl
  | create => exact .create rfl
  | exitJoin hm =>
      refine .same rfl rfl rfl rfl rfl rfl ?_
      cases s.joiner s.current <;> rfl
  | _ => exact .same rfl rfl rfl rfl rfl rfl rfl

/-! ## What a step does to the threads that there are -/

theorem State.setTodo_todo_of_ne {t : Nat} (ht : t ≠ u.current) :
    (u.setTodo is).todo t = u.todo t := Function.update_of_ne ht _ _

theorem State.setTodo_todo_self : (u.setTodo is).todo u.current = is := Function.update_self ..

theorem State.setTodo_todo_current :
    (u.setTodo is).todo (u.setTodo is).current = is := Function.update_self ..

/-- A thread that is awake is one that has been made. -/
theorem Within.lt (h : Within s) {t : Nat} (ht : s.awake t = true) : t < s.threads := by
  by_contra hc
  rw [h.awake t (Nat.le_of_not_lt hc)] at ht
  cases ht

/-- The current thread has something else to do. -/
theorem Within.setTodo (h : Within s) (hn : ∀ t ∈ is.filterMap Instr.names, t < s.threads) :
    Within (s.setTodo is) where
  current := h.current
  todo t ht := by
    have hc := h.current
    rw [State.setTodo_todo_of_ne (Nat.ne_of_gt (Nat.lt_of_lt_of_le hc ht))]
    exact h.todo t ht
  awake := h.awake
  waiters := h.waiters
  joinwq := h.joinwq
  joinable := h.joinable
  named v t ht := by
    by_cases hv : v = s.current
    · subst hv
      rw [State.setTodo_todo_self] at ht
      exact hn t ht
    · rw [State.setTodo_todo_of_ne hv] at ht
      exact h.named v t ht

theorem Within.setAwake (h : Within s) {t : Nat} {b : Bool} (ht : t < s.threads) :
    Within { s with awake := Function.update s.awake t b } where
  current := h.current
  todo := h.todo
  awake x hx := by
    have hne : x ≠ t := Nat.ne_of_gt (Nat.lt_of_lt_of_le ht hx)
    show Function.update s.awake t b x = false
    rw [Function.update_of_ne hne]
    exact h.awake x hx
  waiters := h.waiters
  joinwq := h.joinwq
  joinable := h.joinable
  named := h.named

theorem Within.sleep (h : Within s) : Within s.sleep := h.setAwake h.current

/-- Threads are taken off a list. -/
theorem Within.setWaiters (h : Within s) {k : Waithead} {ts : List Nat}
    (ht : ∀ t ∈ ts, t < s.threads) :
    Within { s with waiters := Function.update s.waiters k ts } where
  current := h.current
  todo := h.todo
  awake := h.awake
  waiters k' t hm := by
    have hm' : t ∈ Function.update s.waiters k ts k' := hm
    by_cases hk : k' = k
    · subst hk
      rw [Function.update_self] at hm'
      exact ht t hm'
    · rw [Function.update_of_ne hk] at hm'
      exact h.waiters k' t hm'
  joinwq := h.joinwq
  joinable := h.joinable
  named := h.named

theorem Within.threadCreate (h : Within s) {joinable : Bool} :
    Within (s.threadCreate joinable) where
  current := Nat.lt_succ_of_lt h.current
  todo t ht := by
    show Function.update s.todo s.threads [] t = []
    rw [Function.update_of_ne (Nat.ne_of_gt ht)]
    exact h.todo t (Nat.le_of_succ_le ht)
  awake t ht := by
    show Function.update s.awake s.threads false t = false
    rw [Function.update_of_ne (Nat.ne_of_gt ht)]
    exact h.awake t (Nat.le_of_succ_le ht)
  waiters k t ht := Nat.lt_succ_of_lt (h.waiters k t ht)
  joinwq jw hj := Nat.lt_succ_of_lt (h.joinwq jw hj)
  joinable t ht := by
    have hm : Function.update s.mustjoin s.threads joinable t = true := ht
    by_cases hn : t = s.threads
    · exact hn ▸ Nat.lt_succ_self t
    · rw [Function.update_of_ne hn] at hm
      exact Nat.lt_succ_of_lt (h.joinable t hm)
  named u t ht := by
    have hm : t ∈ (Function.update s.todo s.threads [] u).filterMap Instr.names := ht
    by_cases hu : u = s.threads
    · rw [hu, Function.update_self] at hm
      exact absurd hm List.not_mem_nil
    · rw [Function.update_of_ne hu] at hm
      exact Nat.lt_succ_of_lt (h.named u t hm)

/-- Threads, lists and who is awake are all that counts. -/
theorem Within.congr (h : Within s) (hc : u.current = s.current) (hn : u.threads = s.threads)
    (ht : u.todo = s.todo) (ha : u.awake = s.awake) (hw : u.waiters = s.waiters)
    (hj : u.joinwq = s.joinwq) (hm : u.mustjoin = s.mustjoin) : Within u := by
  refine ⟨?_, ?_, ?_, ?_, ?_, ?_, ?_⟩
  · rw [hc, hn]
    exact h.current
  · rw [hn, ht]
    exact h.todo
  · rw [hn, ha]
    exact h.awake
  · rw [hn, hw]
    exact h.waiters
  · rw [hn, hj]
    exact h.joinwq
  · rw [hn, hm]
    exact h.joinable
  · rw [hn, ht]
    exact h.named

theorem Idle.names (h : Within s) (hi : Idle s i new) :
    ∀ t ∈ new.filterMap Instr.names, t < s.threads := by
  cases hi with
  | cvResched m =>
      unfold State.cvResched
      split
      · exact fun t ht ↦ absurd ht List.not_mem_nil
      · exact fun t ht ↦ absurd ht List.not_mem_nil
  | threadJoin t ht =>
      intro x hx
      obtain rfl := List.mem_singleton.1 hx
      exact h.joinable x ht
  | _ => exact fun t ht ↦ absurd ht List.not_mem_nil

/-- The joiner of a thread is on the list. -/
theorem State.joiner_mem {t j : Nat} (h : s.joiner t = some j) : (j, t) ∈ s.joinwq := by
  obtain ⟨⟨j', t'⟩, hf, rfl⟩ := Option.map_eq_some_iff.1 h
  have ht := List.find?_some hf
  obtain rfl : t' = t := by simpa using ht
  exact List.mem_of_find?_eq_some hf

/-- A thread is taken off a list, to be woken. -/
theorem Within.pop (h : Within s) {k : Waithead} {w : Nat} {ws more : List Nat}
    (hw : s.waiters k = w :: ws) (hm : more = [w]) :
    Within { s with waiters := Function.update s.waiters k ws } ∧ ∀ t ∈ more, t < s.threads := by
  have hb := h.waiters k
  rw [hw] at hb
  refine ⟨h.setWaiters fun t ht ↦ hb t (List.mem_cons_of_mem w ht), fun t ht ↦ ?_⟩
  rw [hm, List.mem_singleton] at ht
  exact ht ▸ hb w List.mem_cons_self

/-- An instruction names threads that have been made. -/
theorem Within.exec (h : Within s) (hi : ∀ t, i.names = some t → t < s.threads)
    (he : Exec s i u new) : Within u ∧ ∀ t ∈ new.filterMap Instr.names, t < u.threads := by
  have none : ∀ {n : Nat}, ∀ t ∈ ([] : List Nat), t < n := fun t ht ↦ absurd ht List.not_mem_nil
  cases he with
  | idle hi => exact ⟨h, hi.names h⟩
  | sleep => exact ⟨h.sleep, none⟩
  | wake ht => exact ⟨h.setAwake (hi _ rfl), none⟩
  | wait hi =>
      rename_i k new
      have hw : Within (s.wait k).1 := h.sleep.setWaiters fun t ht ↦ by
        rcases List.mem_append.1 ht with ht | ht
        · exact h.waiters k t ht
        · exact List.mem_singleton.1 ht ▸ h.current
      cases hi <;> exact ⟨hw, none⟩
  | pop hi hw => cases hi <;> exact h.pop hw rfl
  | leaveWake hv hw =>
      have hp := h.pop hw rfl
      exact ⟨hp.1.congr rfl rfl rfl rfl rfl rfl rfl, hp.2⟩
  | rwLeaveOne hw =>
      have hp := h.pop hw rfl
      exact ⟨hp.1.congr rfl rfl rfl rfl rfl rfl rfl, hp.2⟩
  | rwLeaveAll hn hw =>
      have hp := h.pop hw rfl
      exact ⟨hp.1.congr rfl rfl rfl rfl rfl rfl rfl, hp.2⟩
  | enter hi hy => exact ⟨h.congr rfl rfl rfl rfl rfl rfl rfl, none⟩
  | rwEnterWriter hi ho => exact ⟨h.congr rfl rfl rfl rfl rfl rfl rfl, none⟩
  | rwEnterReader hi ho hw => exact ⟨h.congr rfl rfl rfl rfl rfl rfl rfl, none⟩
  | count hi => cases hi <;> exact ⟨h.congr rfl rfl rfl rfl rfl rfl rfl, none⟩
  | create => exact ⟨h.threadCreate, none⟩
  | exitJoin hm =>
      refine ⟨h.congr rfl rfl rfl rfl rfl rfl rfl, ?_⟩
      cases hj : s.joiner s.current with
      | none => exact none
      | some j =>
          intro t ht
          obtain rfl := List.mem_singleton.1 ht
          exact h.joinwq _ (State.joiner_mem hj)
  | joinWait hj =>
      refine ⟨{ h with joinwq := fun jw hjw ↦ ?_ }, fun t ht ↦ ?_⟩
      · rcases List.mem_append.1 hjw with hjw | hjw
        · exact h.joinwq jw hjw
        · obtain rfl := List.mem_singleton.1 hjw
          exact h.current
      · obtain rfl := List.mem_singleton.1 ht
        exact hi _ rfl
  | joinDone hj =>
      rename_i t
      refine ⟨{ h with joinable := fun x hx ↦ ?_ }, fun x hx ↦ ?_⟩
      · have hm : Function.update s.mustjoin t false x = true := hx
        by_cases hxt : x = t
        · rw [hxt, Function.update_self] at hm
          cases hm
        · rw [Function.update_of_ne hxt] at hm
          exact h.joinable x hm
      · obtain rfl := List.mem_singleton.1 hx
        exact hi _ rfl
  | joinRemove =>
      exact ⟨{ h with joinwq := fun jw hjw ↦ h.joinwq jw (List.mem_of_mem_erase hjw) }, none⟩
  | _ => exact ⟨h.congr rfl rfl rfl rfl rfl rfl rfl, none⟩

theorem Exec.threads_le (h : Exec s i u new) : s.threads ≤ u.threads := by
  cases h <;> first | exact Nat.le_refl _ | exact Nat.le_succ _

/-- A step names threads that have been made. -/
theorem Within.step (h : Within s) (hs : Step s op s') : Within s' := by
  have rest : ∀ {i is}, s.todo s.current = i :: is →
      ∀ t ∈ is.filterMap Instr.names, t < s.threads := by
    intro i is htodo t ht
    refine h.named s.current t ?_
    rw [htodo]
    obtain ⟨j, hj, ht⟩ := List.mem_filterMap.1 ht
    exact List.mem_filterMap.2 ⟨j, List.mem_cons_of_mem i hj, ht⟩
  cases hs.stepped with
  | exec ha htodo hi =>
      rename_i i is new u
      have hnames : ∀ t, i.names = some t → t < s.threads := fun t ht ↦ by
        refine h.named s.current t ?_
        rw [htodo]
        exact List.mem_filterMap.2 ⟨i, List.mem_cons_self, ht⟩
      obtain ⟨hu, hnew⟩ := h.exec hnames (Exec.of_exec hi)
      refine hu.setTodo fun t ht ↦ ?_
      rw [List.filterMap_append, List.mem_append] at ht
      rcases ht with ht | ht
      · exact hnew t ht
      · exact Nat.lt_of_lt_of_le (rest htodo t ht) (Exec.of_exec hi).threads_le
  | exit ha htodo => exact h.sleep.setTodo fun t ht ↦ absurd ht List.not_mem_nil
  | ret ha htodo hi => exact h.setTodo (rest htodo)
  | call ha ho hi =>
      rename_i i
      refine h.setTodo fun t ht ↦ h.named s.current t ?_
      rw [List.filterMap_cons] at ht
      cases i <;> first | exact ht | cases hi
  | doze ha ho => exact h.sleep
  | switch ht hg => exact { h with current := h.lt ht }
  | kick ht => exact h.setAwake ht

/-- The start. -/
theorem Within.init (kspin : Nat → Bool) : Within (State.init kspin) where
  current := Nat.one_pos
  todo _ _ := rfl
  awake t ht := by
    show (t == 0) = false
    rw [beq_eq_false_iff_ne]
    exact Nat.ne_of_gt ht
  waiters h t ht := absurd ht List.not_mem_nil
  joinwq jw hj := absurd hj List.not_mem_nil
  joinable t ht := by cases ht
  named u t ht := absurd ht List.not_mem_nil

/-! ## What a step does to the sleepers -/

theorem count_eq_zero {t : Nat} (h : is.any Instr.isWakeup = false) :
    is.count (.lwtWake .wakeup t) = 0 := by
  refine List.count_eq_zero.2 fun hm ↦ ?_
  rw [List.any_eq_false] at h
  exact h _ hm rfl

theorem count_cons_of_isWake {t : Nat} (h : i.isWake = false) :
    (i :: is).count (.lwtWake .wakeup t) = is.count (.lwtWake .wakeup t) := by
  refine List.count_cons_of_ne fun hc ↦ ?_
  rw [hc] at h
  cases h

/-- Who is awake does not sleep. -/
theorem State.not_sleeping {t : Nat} (ha : s.awake t = true) (h : Waithead) : ¬ s.Sleeping t h := by
  rintro ⟨hs, -⟩
  rw [ha] at hs
  cases hs

theorem outside_head {k : Waithead} (ho : outside is = true) : is.head? ≠ some (.waiting k) := by
  intro hh
  obtain ⟨is', rfl⟩ := List.head?_eq_some_iff.1 hh
  cases ho

/-- The current thread, awake, has something else to do, with as many wakes to come. -/
theorem State.Seen.setTodo (h : s.Seen) (ha : s.awake s.current = true)
    (hc : ∀ t, is.count (.lwtWake .wakeup t) = s.wakes s.current t) : (s.setTodo is).Seen := by
  refine Orderly.congr h (fun _ ↦ rfl) (fun t k ↦ ?_) fun v t ↦ ?_
  · by_cases ht : t = s.current
    · subst ht
      exact iff_of_false (State.not_sleeping (s := s.setTodo is) ha k) (State.not_sleeping ha k)
    · unfold State.Sleeping
      rw [State.setTodo_todo_of_ne ht]
      exact Iff.rfl
  · unfold State.wakes
    by_cases hv : v = s.current
    · subst hv
      rw [State.setTodo_todo_self]
      exact hc t
    · rw [State.setTodo_todo_of_ne hv]

/-- The current thread goes to sleep elsewhere. -/
theorem State.Seen.sleep (h : s.Seen) (ha : s.awake s.current = true)
    (ho : ∀ k, (s.todo s.current).head? ≠ some (.waiting k)) : s.sleep.Seen := by
  refine Orderly.congr h (fun _ ↦ rfl) (fun t k ↦ ?_) fun _ _ ↦ rfl
  by_cases ht : t = s.current
  · subst ht
    exact iff_of_false (fun hc ↦ ho k hc.2) (State.not_sleeping ha k)
  · unfold State.Sleeping State.sleep
    dsimp only
    rw [Function.update_of_ne ht]

/-- A thread is woken that does not sleep in `wait`. -/
theorem State.Seen.setAwake (h : s.Seen) {t : Nat} (ht : ∀ k, ¬ s.Sleeping t k) :
    State.Seen { s with awake := Function.update s.awake t true } := by
  refine Orderly.congr h (fun _ ↦ rfl) (fun x k ↦ ?_) fun _ _ ↦ rfl
  by_cases hx : x = t
  · subst hx
    exact iff_of_false (State.not_sleeping (Function.update_self ..) k) (ht k)
  · unfold State.Sleeping
    dsimp only
    rw [Function.update_of_ne hx]

/-- Only the lists, what there is to do and who is awake count. -/
theorem State.Seen.congr (h : s.Seen) (hw : u.waiters = s.waiters) (ht : u.todo = s.todo)
    (ha : u.awake = s.awake) : u.Seen := by
  unfold State.Seen State.Sleeping State.wakes
  rw [hw, ht, ha]
  exact h

/-- What the threads have to do once the current one has something else to do. -/
theorem State.setTodo_todo (hc : u.current = s.current) (ht : u.todo = s.todo) (t : Nat) :
    (u.setTodo is).todo t = if t = s.current then is else s.todo t := by
  show Function.update u.todo u.current is t = _
  rw [hc, ht, Function.update_apply]

/-- The current thread puts itself on a list and sleeps. -/
theorem State.Seen.wait (h : s.Seen) (ha : s.awake s.current = true) {k : Waithead}
    (hc : ∀ t, is.count (.lwtWake .wakeup t) = s.wakes s.current t) :
    ((s.wait k).1.setTodo (.waiting k :: is)).Seen := by
  have htodo : ∀ t, ((s.wait k).1.setTodo (.waiting k :: is)).todo t =
      if t = s.current then .waiting k :: is else s.todo t := State.setTodo_todo rfl rfl
  refine Orderly.wait (t := s.current) (h := k) h (State.not_sleeping ha) (fun k' hk ↦ ?_) ?_
    (fun x k' ↦ ?_) fun v t ↦ ?_
  · exact Function.update_of_ne hk _ _
  · exact Function.update_self ..
  · unfold State.Sleeping
    rw [htodo]
    show Function.update s.awake s.current false x = false ∧ _ ↔ _
    by_cases hx : x = s.current
    · subst hx
      rw [if_pos rfl, Function.update_self, ha]
      simp [eq_comm]
    · rw [if_neg hx, Function.update_of_ne hx]
      simp [hx]
  · unfold State.wakes
    rw [htodo]
    split
    · rename_i hv
      subst hv
      rw [count_cons_of_isWake rfl]
      exact hc t
    · rfl

/-- The current thread takes another off a list, to wake it. -/
theorem State.Seen.pop (h : s.Seen) (ha : s.awake s.current = true) {k : Waithead} {w : Nat}
    {ws : List Nat} {more : List Instr} (hw : s.waiters k = w :: ws)
    (hu : u.waiters = Function.update s.waiters k ws) (hua : u.awake = s.awake)
    (hut : u.todo = s.todo) (huc : u.current = s.current)
    (hmore : more.any Instr.isWakeup = false)
    (hc : ∀ t, is.count (.lwtWake .wakeup t) = s.wakes s.current t) :
    (u.setTodo (wake .wakeup w ++ more ++ is)).Seen := by
  have hcount : ∀ t, (wake .wakeup w ++ more ++ is).count (.lwtWake .wakeup t) =
      (if t = w then 1 else 0) + s.wakes s.current t := by
    intro t
    rw [List.count_append, List.count_append, count_eq_zero hmore, hc, Nat.add_zero]
    congr 1
    by_cases ht : t = w
    · subst ht
      simp [Rump.wake]
    · rw [if_neg ht]
      exact List.count_eq_zero.2 fun hm ↦ ht (by simpa [Rump.wake] using hm)
  have htodo : ∀ t, (u.setTodo (wake .wakeup w ++ more ++ is)).todo t =
      if t = s.current then wake .wakeup w ++ more ++ is else s.todo t :=
    State.setTodo_todo huc hut
  have hwmem : w ∈ s.waiters k := hw ▸ List.mem_cons_self
  refine Orderly.pop (t := w) (h := k) (w := s.current) h hw (fun k' hk ↦ ?_) ?_ (fun x k' ↦ ?_) ?_
    fun v x hvx ↦ ?_
  · show u.waiters k' = _
    rw [hu, Function.update_of_ne hk]
  · show u.waiters k = _
    rw [hu, Function.update_self]
  · unfold State.Sleeping
    rw [htodo]
    show u.awake x = false ∧ _ ↔ _
    rw [hua]
    by_cases hx : x = s.current
    · subst hx
      rw [ha]
      simp
    · rw [if_neg hx]
  · unfold State.wakes
    rw [htodo, if_pos rfl, hcount, if_pos rfl, Orderly.pend_eq_zero_of_mem h hwmem]
  · unfold State.wakes
    rw [htodo]
    split
    · rename_i hv
      subst hv
      rw [hcount, if_neg fun hc ↦ hvx ⟨rfl, hc⟩, Nat.zero_add]
      rfl
    · rfl

/-- The current thread wakes a thread that it has taken off a list. -/
theorem State.Seen.wake (h : s.Seen) (ha : s.awake s.current = true) {t : Nat}
    (hcur : s.todo s.current = .lwtWake .wakeup t :: is) :
    (State.setTodo { s with awake := Function.update s.awake t true } is).Seen := by
  have hcount : ∀ x, s.wakes s.current x = (if x = t then 1 else 0) +
      is.count (.lwtWake .wakeup x) := by
    intro x
    unfold State.wakes
    rw [hcur, List.count_cons, Nat.add_comm]
    congr 1
    by_cases hx : x = t
    · subst hx
      rw [if_pos rfl, if_pos (beq_self_eq_true _)]
    · rw [if_neg hx, if_neg fun hc ↦ hx ?_]
      have hc' := eq_of_beq hc
      cases hc'
      rfl
  have hpos : 0 < s.wakes s.current t := by
    rw [hcount, if_pos rfl]
    exact Nat.lt_add_right _ Nat.one_pos
  have htodo : ∀ x, (State.setTodo { s with awake := Function.update s.awake t true } is).todo x =
      if x = s.current then is else s.todo x := State.setTodo_todo rfl rfl
  refine Orderly.wake (t := t) (w := s.current) h hpos (fun _ ↦ rfl) (fun x k ↦ ?_) ?_
    fun v x hvx ↦ ?_
  · unfold State.Sleeping
    rw [htodo]
    show Function.update s.awake t true x = false ∧ _ ↔ _
    by_cases hx : x = t
    · subst hx
      rw [Function.update_self]
      simp
    · rw [Function.update_of_ne hx, and_iff_left hx]
      by_cases hxc : x = s.current
      · subst hxc
        rw [ha]
        simp
      · rw [if_neg hxc]
  · have h1 := Orderly.once h s.current t
    rw [hcount, if_pos rfl] at h1
    unfold State.wakes
    rw [htodo, if_pos rfl]
    omega
  · unfold State.wakes
    rw [htodo]
    split
    · rename_i hv
      subst hv
      have h1 := hcount x
      rw [if_neg fun hc ↦ hvx ⟨rfl, hc⟩, Nat.zero_add] at h1
      exact h1.symm
    · rfl

/-- A thread that has been made sleeps at its start, where nobody was before. -/
theorem Within.threadCreate_eq (hi : Within s) {joinable : Bool} :
    (s.threadCreate joinable).todo = s.todo ∧ (s.threadCreate joinable).awake = s.awake := by
  constructor
  · show Function.update s.todo s.threads [] = s.todo
    rw [← hi.todo s.threads (Nat.le_refl _), Function.update_eq_self]
  · show Function.update s.awake s.threads false = s.awake
    rw [← hi.awake s.threads (Nat.le_refl _), Function.update_eq_self]

/-- A step that meets the conditions leaves nobody asleep unseen. -/
theorem State.Seen.step (h : s.Seen) (hi : Within s) (hs : Step s op s') (hc : s.Calm op) :
    s'.Seen := by
  cases hs.stepped with
  | exec ha htodo he =>
      rename_i i is new u
      have hrest : i.isWake = false →
          ∀ t, is.count (.lwtWake .wakeup t) = s.wakes s.current t := by
        intro hw t
        unfold State.wakes
        rw [htodo, count_cons_of_isWake hw]
      have hcount : i.isWake = false → new.any Instr.isWakeup = false →
          ∀ t, (new ++ is).count (.lwtWake .wakeup t) = s.wakes s.current t := by
        intro hw hn t
        rw [List.count_append, count_eq_zero hn, hrest hw, Nat.zero_add]
      cases (Exec.of_exec he).waitStep with
      | same hw ha' ht' hc' hn hiw hnew =>
          have hu : u.Seen := h.congr hw ht' ha'
          refine hu.setTodo (by rw [ha', hc']; exact ha) fun t ↦ ?_
          unfold State.wakes
          rw [ht', hc']
          exact hcount hiw hnew t
      | sleep =>
          refine (h.setTodo ha (hcount rfl rfl)).sleep ha fun k hk ↦ ?_
          rw [State.setTodo_todo_current] at hk
          cases hk
      | wake ht =>
          rename_i waker t
          by_cases hw : waker = .wakeup
          · subst hw
            exact h.wake ha htodo
          · have hc' : ∀ k, ¬ s.Sleeping t k := by
              cases waker with
              | wakeup => exact absurd rfl hw
              | exit => simpa only [State.Calm, htodo] using hc
              | join => simpa only [State.Calm, htodo] using hc
            have hne : ∀ x, (Instr.lwtWake waker t :: is).count (.lwtWake .wakeup x) =
                is.count (.lwtWake .wakeup x) := fun x ↦ List.count_cons_of_ne fun he ↦ by
              cases he
              exact hw rfl
            refine (h.setAwake hc').setTodo ?_ fun x ↦ ?_
            · show Function.update s.awake t true s.current = true
              rw [Function.update_of_ne (Ne.symm ht)]
              exact ha
            · unfold State.wakes
              rw [htodo, hne]
              rfl
      | wait hiw hnew => exact h.wait ha (hcount hiw hnew)
      | pop hw hu ha' ht' hc' hn hiw hnew hmore =>
          rw [hnew]
          exact h.pop ha hw hu ha' ht' hc' hmore (hrest hiw)
      | create hiw =>
          rename_i joinable
          obtain ⟨ht, haw⟩ : (s.threadCreate joinable).todo = s.todo ∧
              (s.threadCreate joinable).awake = s.awake := hi.threadCreate_eq
          refine (h.setTodo ha (hrest hiw)).congr rfl ?_ haw
          exact congrArg (fun f ↦ Function.update f s.current is) ht
  | exit ha htodo =>
      simp only [State.Calm, htodo] at hc
      subst hc
      refine (h.setTodo ha fun t ↦ ?_).sleep ha fun k hk ↦ ?_
      · unfold State.wakes
        rw [htodo]
        exact (count_cons_of_isWake rfl).symm
      · rw [State.setTodo_todo_current] at hk
        cases hk
  | ret ha htodo hi =>
      refine h.setTodo ha fun t ↦ ?_
      obtain ⟨site, rfl | rfl⟩ := hi
      · unfold State.wakes
        rw [htodo]
        exact (count_cons_of_isWake rfl).symm
      · unfold State.wakes
        rw [htodo]
        exact (count_cons_of_isWake rfl).symm
  | call ha ho hi =>
      rename_i i
      refine h.setTodo ha fun t ↦ count_cons_of_isWake ?_
      cases i <;> first | rfl | cases hi
  | doze ha ho => exact h.sleep ha fun k ↦ outside_head ho
  | switch ht hg => exact h.congr rfl rfl rfl
  | kick ht => exact h.setAwake hc

/-- At the start nobody sleeps. -/
theorem State.Seen.init (kspin : Nat → Bool) : (State.init kspin).Seen :=
  .empty (fun _ ↦ rfl) (fun _ _ h ↦ by cases h.2) fun _ _ ↦ rfl

end

/-- In every state of a run from the start that meets the conditions, who sleeps in `wait` is on
the list it waits on, or is to be woken by the one thread that took it off; and the lists hold
nobody else. -/
theorem seen_run {kspin : Nat → Bool} {ops : List Op} {s : State}
    (h : Run (fun s op s' ↦ Step s op s' ∧ s.Calm op) (State.init kspin) ops s) : s.Seen :=
  (h.invariant (I := fun s ↦ Within s ∧ s.Seen)
    (fun _ _ _ hI hs ↦ ⟨hI.1.step hs.1, hI.2.step hI.1 hs.1 hs.2⟩)
    ⟨Within.init kspin, State.Seen.init kspin⟩).2

/-- A thread waits for a mutex that the first thread holds, and is about to be woken when the first
thread has left it. -/
theorem seen_run_contended : ∃ s : State,
    Run (fun s op s' ↦ Step s op s' ∧ s.Calm op) (State.init fun _ ↦ false)
      [.call (.threadCreate false), .exec, .kick 1, .call (.mutexEnter 0), .exec, .switch 1,
        .call (.mutexEnter 0), .exec, .exec, .ret, .exec, .switch 0, .call (.mutexExit 0),
        .exec] s ∧
    s.wakes 0 1 = 1 ∧ s.Seen := by
  have h : Run (fun s op s' ↦ Step s op s' ∧ s.Calm op) (State.init fun _ ↦ false)
      [.call (.threadCreate false), .exec, .kick 1, .call (.mutexEnter 0), .exec, .switch 1,
        .call (.mutexEnter 0), .exec, .exec, .ret, .exec, .switch 0, .call (.mutexExit 0),
        .exec] _ :=
    .cons ⟨rfl, trivial⟩ <| .cons ⟨rfl, trivial⟩ <| .cons ⟨rfl, fun _ hs ↦ by cases hs.2⟩ <|
      .cons ⟨rfl, trivial⟩ <| .cons ⟨rfl, trivial⟩ <| .cons ⟨rfl, trivial⟩ <|
      .cons ⟨rfl, trivial⟩ <| .cons ⟨rfl, trivial⟩ <| .cons ⟨rfl, trivial⟩ <|
      .cons ⟨rfl, trivial⟩ <| .cons ⟨rfl, trivial⟩ <| .cons ⟨rfl, trivial⟩ <|
      .cons ⟨rfl, trivial⟩ <| .cons ⟨rfl, trivial⟩ (.nil _)
  exact ⟨_, h, rfl, seen_run h⟩

end Mh.Rump
