import Mh.Rump.Model

/-!
# What the steps of a thread do

The ways of a step (`Stepped`), and for the steps that execute an instruction what the instruction
does to the state and what the thread does after it (`Exec`).  All that is proved of a run comes
from these two.
-/

namespace Mh.Rump

/-! ## What a step does -/

/-- The ways of a step. -/
inductive Stepped (s : State) : Op → State → Prop
  | exec {i : Instr} {is new : List Instr} {u : State} : s.awake s.current = true →
      s.todo s.current = i :: is → s.exec i = .ok (u, new) → Stepped s .exec (u.setTodo (new ++ is))
  | exit {is : List Instr} : s.awake s.current = true → s.todo s.current = .lwtExit :: is →
      Stepped s .exec (s.sleep.setTodo [])
  | ret {i : Instr} {is : List Instr} : s.awake s.current = true → s.todo s.current = i :: is →
      (∃ site, i = .unsched site ∨ i = .sched site) → Stepped s .ret (s.setTodo is)
  | call {i : Instr} : s.awake s.current = true → outside (s.todo s.current) = true →
      i.isCall = true → Stepped s (.call i) (s.setTodo (i :: s.todo s.current))
  | doze : s.awake s.current = true → outside (s.todo s.current) = true → Stepped s .doze s.sleep
  | switch {t : Nat} : s.awake t = true →
      (s.awake s.current = false ∨ givesWay (s.todo s.current) = true) →
      Stepped s (.switch t) { s with current := t }
  | kick {t : Nat} : t < s.threads →
      Stepped s (.kick t) { s with awake := Function.update s.awake t true }

theorem Step.stepped {s s' : State} {op : Op} (h : Step s op s') : Stepped s op s' := by
  cases op with
  | exec =>
      simp only [Step, State.step, State.go] at h
      split at h
      · rename_i ha
        split at h
        · cases h
        · rename_i is htodo
          cases h
          exact .exit ha htodo
        · rename_i i is _ htodo
          obtain ⟨⟨u, new⟩, hi, h⟩ := Mh.Lib.bind_eq_ok.1 h
          cases h
          exact .exec ha htodo hi
      · cases h
  | ret =>
      simp only [Step, State.step] at h
      split at h
      · rename_i site is htodo
        split at h
        · rename_i ha
          cases h
          exact .ret ha htodo ⟨site, .inl rfl⟩
        · cases h
      · rename_i site is htodo
        split at h
        · rename_i ha
          cases h
          exact .ret ha htodo ⟨site, .inr rfl⟩
        · cases h
      · cases h
  | call i =>
      simp only [Step, State.step, State.atLarge, Bool.and_eq_true] at h
      split at h
      · rename_i hc
        cases h
        exact .call hc.1.1 hc.1.2 hc.2
      · cases h
  | doze =>
      simp only [Step, State.step, State.atLarge, Bool.and_eq_true] at h
      split at h
      · rename_i hc
        cases h
        exact .doze hc.1 hc.2
      · cases h
  | switch t =>
      simp only [Step, State.step] at h
      split at h
      · rename_i hc
        cases h
        exact .switch hc.1 hc.2
      · cases h
  | kick t =>
      simp only [Step, State.step] at h
      split at h
      · rename_i hc
        cases h
        exact .kick hc
      · cases h

/-! ## What an instruction does -/

/-- An instruction of the current thread that leaves the state as it is, and what follows it. -/
inductive Idle (s : State) : Instr → List Instr → Prop
  | lwtYield : Idle s .lwtYield []
  | slept : Idle s .slept []
  | waiting (h) : Idle s (.waiting h) []
  | clockSleep : Idle s .clockSleep [.unsched .clock, .lwtYield, .sched .clock]
  | mutexEnter (m) (hm : (s.mtx m).tryenter s.current = none) :
      Idle s (.mutexEnter m) [.mutexLoop m]
  | mutexLoop (m) (hm : (s.mtx m).tryenter s.current = none) :
      Idle s (.mutexLoop m) [.unsched .mutex, .wait (.mtx m), .sched .mutex, .mutexLoop m]
  | mutexTryenter (m) (hm : (s.mtx m).tryenter s.current = none) : Idle s (.mutexTryenter m) []
  | mutexDestroy (m) : Idle s (.mutexDestroy m) []
  | rwEnter (lk r) (hr : s.rwTryenter r lk = none) :
      Idle s (.rwEnter lk r) [.unsched .rw, .rwLoop lk r, .sched .rw]
  | rwTryenter (lk r) (hr : s.rwTryenter r lk = none) : Idle s (.rwTryenter lk r) []
  | rwTryupgrade (r) (hr : (s.rw r).v ≠ -1) : Idle s (.rwTryupgrade r) []
  | cvResched (m) : Idle s (.cvResched m) (s.cvResched m)
  | cvDestroy (c) : Idle s (.cvDestroy c) []
  | threadJoin (t) (ht : s.mustjoin t = true) : Idle s (.threadJoin t) [.joinLoop t]
  | wakeupAll (h) (hw : s.waiters h = []) : Idle s (.wakeupAll h) []
  | cvSignal (c) (hw : s.waiters (.cv c) = []) : Idle s (.cvSignal c) []
  | cvBroadcast (c) (hw : s.waiters (.cv c) = []) : Idle s (.cvBroadcast c) []

/-- The current thread is put on the list `h`. -/
inductive Waits (s : State) : Instr → Waithead → List Instr → Prop
  | wait (h) : Waits s (.wait h) h []
  | rwLoop (lk r) (hr : s.rwTryenter r lk = none) :
      Waits s (.rwLoop lk r) (lk.waithead r) [.rwLoop lk r]

/-- A waiter is taken off the list `h`. -/
inductive Pops : Instr → Waithead → List Instr → Prop
  | wakeupAll (h) : Pops (.wakeupAll h) h [.wakeupAll h]
  | cvSignal (c) : Pops (.cvSignal c) (.cv c) []
  | cvBroadcast (c) : Pops (.cvBroadcast c) (.cv c) [.wakeupAll (.cv c)]

/-- The instruction tries to enter a mutex. -/
inductive Enters : Instr → Nat → Prop
  | mutexEnter (m) : Enters (.mutexEnter m) m
  | mutexLoop (m) : Enters (.mutexLoop m) m
  | mutexTryenter (m) : Enters (.mutexTryenter m) m
  | mutexEnterNowrap (m) : Enters (.mutexEnterNowrap m) m

/-- The instruction tries to enter a read/write lock. -/
inductive RwEnters : Instr → Rwlock → Nat → Prop
  | rwEnter (lk r) : RwEnters (.rwEnter lk r) lk r
  | rwLoop (lk r) : RwEnters (.rwLoop lk r) lk r
  | rwTryenter (lk r) : RwEnters (.rwTryenter lk r) lk r

/-- The instruction counts `n` waiters more at a condition variable. -/
inductive Counts : Instr → Nat → Int → List Instr → Prop
  | cvWait (c m) :
      Counts (.cvWait c m) c 1 [.unsched .cv, .mutexExit m, .wait (.cv c), .cvResched m, .cvDone c]
  | cvWaitNowrap (c m) :
      Counts (.cvWaitNowrap c m) c 1 [.mutexExit m, .wait (.cv c), .mutexEnterNowrap m, .cvDone c]
  | cvDone (c) : Counts (.cvDone c) c (-1) []

/-- What an instruction of the current thread does. -/
inductive Exec (s : State) : Instr → State → List Instr → Prop
  | idle {i new} (hi : Idle s i new) : Exec s i s new
  | sleep : Exec s .lwtSleep s.sleep [.slept]
  | wake {waker t} (ht : t ≠ s.current) :
      Exec s (.lwtWake waker t) { s with awake := Function.update s.awake t true } []
  | wait {i h new} (hi : Waits s i h new) : Exec s i (s.wait h).1 (.waiting h :: new)
  | pop {i h new w ws} (hi : Pops i h new) (hw : s.waiters h = w :: ws) :
      Exec s i { s with waiters := Function.update s.waiters h ws } (Rump.wake .wakeup w ++ new)
  | enter {i m y} (hi : Enters i m) (hy : (s.mtx m).tryenter s.current = some y) :
      Exec s i { s.hold s.current m with mtx := Function.update s.mtx m y } []
  | intrude {m} (hm : (s.mtx m).tryenter s.current = none) :
      Exec s (.mutexEnterNowrap m) (s.hold s.current m) []
  | leave {m} (hv : 0 < (s.mtx m).v) (hw : (s.mtx m).v ≠ 1 ∨ s.waiters (.mtx m) = []) :
      Exec s (.mutexExit m)
        { s.unhold s.current m with mtx := Function.update s.mtx m (s.mtx m).exit } []
  | leaveWake {m w ws} (hv : (s.mtx m).v = 1) (hw : s.waiters (.mtx m) = w :: ws) :
      Exec s (.mutexExit m)
        { s.unhold s.current m with
          mtx := Function.update s.mtx m (s.mtx m).exit
          waiters := Function.update s.waiters (.mtx m) ws } (Rump.wake .wakeup w)
  | rwEnterWriter {i r} (hi : RwEnters i .writer r) (ho : (s.rw r).o = none) :
      Exec s i
        { s.rwWrite r with rw := Function.update s.rw r { s.rw r with o := s.curlwp } } []
  | rwEnterReader {i r} (hi : RwEnters i .reader r) (ho : (s.rw r).o = none)
      (hw : s.waiters (.wwait r) = []) :
      Exec s i
        { s with
          rw := Function.update s.rw r { s.rw r with v := (s.rw r).v + 1 }
          readers := Function.update s.readers r (s.current :: s.readers r) } []
  | rwLeave {r} (hn : s.waiters (.wwait r) = []) (hw : s.waiters (.rwait r) = []) :
      Exec s (.rwExit r) { s.rwDrop r with rw := Function.update s.rw r (s.rw r).exit } []
  | rwLeaveOne {r w ws} (hw : s.waiters (.wwait r) = w :: ws) :
      Exec s (.rwExit r)
        { s.rwDrop r with
          rw := Function.update s.rw r (s.rw r).exit
          waiters := Function.update s.waiters (.wwait r) ws } (Rump.wake .wakeup w)
  | rwLeaveAll {r w ws} (hn : s.waiters (.wwait r) = []) (hw : s.waiters (.rwait r) = w :: ws) :
      Exec s (.rwExit r)
        { s.rwDrop r with
          rw := Function.update s.rw r (s.rw r).exit
          waiters := Function.update s.waiters (.rwait r) ws }
        (Rump.wake .wakeup w ++ [.wakeupAll (.rwait r)])
  | rwDowngrade {r} (ho : (s.rw r).o = s.curlwp) :
      Exec s (.rwDowngrade r)
        { s with rw := Function.update s.rw r { s.rw r with v := -1 } } []
  | rwTryupgrade {r} (hv : (s.rw r).v = -1) :
      Exec s (.rwTryupgrade r)
        { s.rwWrite r with
          rw := Function.update s.rw r ⟨1, s.curlwp⟩
          readers := Function.update s.readers r ((s.readers r).erase s.current) } []
  | count {i c n new} (hi : Counts i c n new) : Exec s i (s.addWaiters c n) new
  | create {joinable} : Exec s (.threadCreate joinable) (s.threadCreate joinable) []
  | exitJoin (hm : s.mustjoin s.current = true) :
      Exec s .threadExit { s with joined := Function.update s.joined s.current true }
        ((s.joiner s.current).elim [] (Rump.wake .exit) ++ (block ++ [.threadExit]))
  | exitGone (hm : s.mustjoin s.current = false) :
      Exec s .threadExit
        { s with live := s.live.erase s.current, exited := s.current :: s.exited }
        [.unsched .exit, .lwtExit]
  | joinWait {t} (hj : s.joined t = false) :
      Exec s (.joinLoop t) { s with joinwq := s.joinwq ++ [(s.current, t)] }
        (block ++ [.joinRemove t, .joinLoop t])
  | joinDone {t} (hj : s.joined t = true) :
      Exec s (.joinLoop t) { s with mustjoin := Function.update s.mustjoin t false }
        (Rump.wake .join t)
  | joinRemove {t} :
      Exec s (.joinRemove t) { s with joinwq := s.joinwq.erase (s.current, t) } []
  | curlwpSet {l} :
      Exec s (.curlwpSet l) { s with lwp := Function.update s.lwp s.current (some l) } []
  | curlwpClear {l} :
      Exec s (.curlwpClear l) { s with lwp := Function.update s.lwp s.current none } []

section

variable {s u : State} {i : Instr} {new : List Instr} {h : Waithead} {m r : Nat} {lk : Rwlock}

theorem mutexTryenter_eq_some (hu : s.mutexTryenter m = some u) :
    ∃ y, (s.mtx m).tryenter s.current = some y ∧
      u = { s.hold s.current m with mtx := Function.update s.mtx m y } := by
  obtain ⟨y, hy, rfl⟩ := Option.map_eq_some_iff.1 hu
  exact ⟨y, hy, rfl⟩

theorem mutexTryenter_eq_none (hu : s.mutexTryenter m = none) :
    (s.mtx m).tryenter s.current = none := Option.map_eq_none_iff.1 hu

/-- A try to enter a mutex. -/
theorem Exec.of_mutexTryenter {is : List Instr} (hi : Enters i m)
    (hn : (s.mtx m).tryenter s.current = none → Exec s i s is) :
    Exec s i ((s.mutexTryenter m).elim (s, is) (·, [])).1
      ((s.mutexTryenter m).elim (s, is) (·, [])).2 := by
  cases ht : s.mutexTryenter m with
  | none => exact hn (mutexTryenter_eq_none ht)
  | some v =>
      obtain ⟨y, hy, rfl⟩ := mutexTryenter_eq_some ht
      exact .enter hi hy

theorem Exec.of_mutexEnterNowrap : Exec s (.mutexEnterNowrap m) (s.mutexEnterNowrap m) [] := by
  unfold State.mutexEnterNowrap
  cases ht : s.mutexTryenter m with
  | none => exact .intrude (mutexTryenter_eq_none ht)
  | some v =>
      obtain ⟨y, hy, rfl⟩ := mutexTryenter_eq_some ht
      exact .enter (.mutexEnterNowrap m) hy

theorem Exec.of_mutexExit (hu : s.mutexExit m = .ok (u, new)) :
    Exec s (.mutexExit m) u new := by
  unfold State.mutexExit at hu
  split at hu
  · rename_i hv
    dsimp only at hu
    by_cases h1 : (s.mtx m).v - 1 = 0
    · rw [if_pos h1] at hu
      unfold State.wakeupOne at hu
      split at hu
      · rename_i hw
        cases hu
        exact .leave hv (.inr hw)
      · rename_i w ws hw
        cases hu
        exact .leaveWake (by omega) hw
    · rw [if_neg h1] at hu
      cases hu
      exact .leave hv (.inl (by omega))
  · cases hu

/-- A try to enter a read/write lock. -/
theorem Exec.of_rwTryenter (hi : RwEnters i lk r) (hu : s.rwTryenter r lk = some u) :
    Exec s i u [] := by
  cases lk with
  | writer =>
      by_cases ho : (s.rw r).o = none
      · rw [State.rwTryenter, if_pos ho] at hu
        obtain rfl := Option.some.inj hu
        exact .rwEnterWriter hi ho
      · rw [State.rwTryenter, if_neg ho] at hu
        cases hu
  | reader =>
      by_cases ho : (s.rw r).o = none ∧ s.waiters (.wwait r) = []
      · rw [State.rwTryenter, if_pos ho] at hu
        obtain rfl := Option.some.inj hu
        exact .rwEnterReader hi ho.1 ho.2
      · rw [State.rwTryenter, if_neg ho] at hu
        cases hu

theorem Rw.exit_o (x : Rw) : x.exit.o = none := by
  unfold Rw.exit
  split
  · assumption
  · rfl

theorem Exec.of_rwExit (hu : s.rwExit r = (u, new)) : Exec s (.rwExit r) u new := by
  have ho : (Function.update s.rw r (s.rw r).exit r).o = none := by
    rw [Function.update_self]
    exact (s.rw r).exit_o
  unfold State.rwExit at hu
  simp only [ho, and_true, if_true, ne_eq] at hu
  split at hu
  · rename_i hw
    unfold State.wakeupOne at hu
    dsimp only [State.rwDrop] at hu
    split at hu
    · rename_i hn
      exact absurd hn hw
    · rename_i w ws hw
      cases hu
      exact .rwLeaveOne hw
  · rename_i hn
    rw [not_not] at hn
    split at hu
    · rename_i hw
      unfold State.wakeupAll at hu
      dsimp only [State.rwDrop] at hu
      split at hu
      · rename_i hr
        exact absurd hr hw
      · rename_i w ws hw
        cases hu
        exact .rwLeaveAll hn hw
    · rename_i hw
      cases hu
      exact .rwLeave hn (not_not.1 hw)

/-- A waiter is taken off a list, if there is one. -/
theorem Exec.of_wakeupAll (hi : Pops i h [.wakeupAll h]) (hn : s.waiters h = [] → Idle s i [])
    (hu : s.wakeupAll h = (u, new)) : Exec s i u new := by
  unfold State.wakeupAll at hu
  split at hu
  · rename_i hw
    cases hu
    exact .idle (hn hw)
  · rename_i w ws hw
    cases hu
    exact .pop hi hw

theorem Exec.of_cvSignal {c : Nat} (hu : s.wakeupOne (.cv c) = (u, new)) :
    Exec s (.cvSignal c) u new := by
  unfold State.wakeupOne at hu
  split at hu
  · rename_i hw
    cases hu
    exact .idle (.cvSignal c hw)
  · rename_i w ws hw
    cases hu
    have hp := Exec.pop (s := s) (.cvSignal c) hw
    rwa [List.append_nil] at hp

theorem Exec.of_threadExit (hu : s.threadExit = (u, new)) : Exec s .threadExit u new := by
  unfold State.threadExit at hu
  split at hu
  · rename_i hm
    cases hu
    exact .exitJoin hm
  · rename_i hm
    cases hu
    exact .exitGone (Bool.eq_false_iff.2 hm)

theorem Exec.of_joinLoop {t : Nat} (hu : s.joinLoop t = (u, new)) :
    Exec s (.joinLoop t) u new := by
  unfold State.joinLoop at hu
  split at hu
  · rename_i hj
    cases hu
    exact .joinDone hj
  · rename_i hj
    cases hu
    exact .joinWait (Bool.eq_false_iff.2 hj)

/-- What an instruction does. -/
theorem Exec.of_exec (hu : s.exec i = .ok (u, new)) : Exec s i u new := by
  cases i with
  | unsched site => cases hu
  | sched site => cases hu
  | lwtExit => cases hu
  | lwtYield =>
      cases hu
      exact .idle .lwtYield
  | slept =>
      cases hu
      exact .idle .slept
  | waiting h =>
      cases hu
      exact .idle (.waiting h)
  | lwtSleep =>
      cases hu
      exact .sleep
  | lwtWake waker t =>
      obtain ⟨v, hv, hu⟩ := Mh.Lib.bind_eq_ok.1 hu
      cases hu
      unfold State.lwtWake at hv
      split at hv
      · cases hv
      · rename_i ht
        cases hv
        exact .wake ht
  | wait h =>
      cases hu
      exact .wait (.wait h)
  | wakeupAll h => exact .of_wakeupAll (.wakeupAll h) (.wakeupAll h) (Except.ok.inj hu)
  | clockSleep =>
      cases hu
      exact .idle .clockSleep
  | mutexEnter m =>
      have he := Exec.of_mutexTryenter (s := s) (.mutexEnter m) fun hm ↦ .idle (.mutexEnter m hm)
      rwa [Except.ok.inj hu] at he
  | mutexLoop m =>
      have he := Exec.of_mutexTryenter (s := s) (.mutexLoop m) fun hm ↦ .idle (.mutexLoop m hm)
      rwa [Except.ok.inj hu] at he
  | mutexEnterNowrap m =>
      cases hu
      exact .of_mutexEnterNowrap
  | mutexTryenter m =>
      cases hu
      have he := Exec.of_mutexTryenter (s := s) (.mutexTryenter m)
        fun hm ↦ .idle (.mutexTryenter m hm)
      cases ht : s.mutexTryenter m <;> rw [ht] at he <;> exact he
  | mutexExit m => exact .of_mutexExit hu
  | mutexDestroy m =>
      simp only [State.exec] at hu
      split at hu
      · cases hu
        exact .idle (.mutexDestroy m)
      · cases hu
  | rwEnter lk r =>
      cases ht : s.rwTryenter r lk with
      | none =>
          simp only [State.exec, ht] at hu
          cases hu
          exact .idle (.rwEnter lk r ht)
      | some v =>
          simp only [State.exec, ht] at hu
          cases hu
          exact .of_rwTryenter (.rwEnter lk r) ht
  | rwLoop lk r =>
      cases ht : s.rwTryenter r lk with
      | none =>
          simp only [State.exec, ht] at hu
          cases hu
          exact .wait (.rwLoop lk r ht)
      | some v =>
          simp only [State.exec, ht] at hu
          cases hu
          exact .of_rwTryenter (.rwLoop lk r) ht
  | rwTryenter lk r =>
      cases ht : s.rwTryenter r lk with
      | none =>
          simp only [State.exec, ht] at hu
          cases hu
          exact .idle (.rwTryenter lk r ht)
      | some v =>
          simp only [State.exec, ht] at hu
          cases hu
          exact .of_rwTryenter (.rwTryenter lk r) ht
  | rwExit r => exact .of_rwExit (Except.ok.inj hu)
  | rwDowngrade r =>
      obtain ⟨v, hv, hu⟩ := Mh.Lib.bind_eq_ok.1 hu
      cases hu
      unfold State.rwDowngrade at hv
      split at hv
      · rename_i ho
        cases hv
        exact .rwDowngrade ho
      · cases hv
  | rwTryupgrade r =>
      cases hu
      unfold State.rwTryupgrade
      split
      · rename_i hv
        exact .rwTryupgrade hv
      · rename_i hv
        exact .idle (.rwTryupgrade r hv)
  | cvWait c m =>
      cases hu
      exact .count (.cvWait c m)
  | cvWaitNowrap c m =>
      cases hu
      exact .count (.cvWaitNowrap c m)
  | cvResched m =>
      cases hu
      exact .idle (.cvResched m)
  | cvDone c =>
      cases hu
      exact .count (.cvDone c)
  | cvSignal c => exact .of_cvSignal (Except.ok.inj hu)
  | cvBroadcast c => exact .of_wakeupAll (.cvBroadcast c) (.cvBroadcast c) (Except.ok.inj hu)
  | cvDestroy c =>
      simp only [State.exec] at hu
      split at hu
      · cases hu
        exact .idle (.cvDestroy c)
      · cases hu
  | threadCreate joinable =>
      cases hu
      exact .create
  | threadExit => exact .of_threadExit (Except.ok.inj hu)
  | threadJoin t =>
      simp only [State.exec] at hu
      split at hu
      · rename_i ht
        cases hu
        exact .idle (.threadJoin t ht)
      · cases hu
  | joinLoop t => exact .of_joinLoop (Except.ok.inj hu)
  | joinRemove t =>
      cases hu
      exact .joinRemove
  | curlwpSet l =>
      cases hu
      exact .curlwpSet
  | curlwpClear l =>
      simp only [State.exec] at hu
      split at hu
      · cases hu
        exact .curlwpClear
      · cases hu

end

end Mh.Rump
