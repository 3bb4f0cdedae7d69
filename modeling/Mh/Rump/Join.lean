import Mh.Rump.Rescue

/-!
# Threads that begin and end

`rumpuser_thread_create` makes an LWT and does not wake it: unless it is woken by other code the
thread never runs, and whoever joins it never comes back (`created_never_runs`).

A thread that does run and is to be joined meets its joiner in `exit_thread`.  Each of the two
looks for the other, and sleeps if it has to wait; neither looks again before it sleeps, so both
may sleep for good.  When the other does not run in between (`Prompt`) nobody does: who is asleep
and needs not be so is about to be woken (`join_met_run`).
-/

namespace Mh.Rump

open Mh.Lib (Run)

namespace State

variable (s : State)

/-- A thread that exits is in no other function of this file. -/
def Leaves : Op → Prop
  | .exec =>
    match s.todo s.current with
    | .lwtExit :: is => is = []
    | _ => True
  | _ => True

/-- The thread does not run, and nobody is going to wake it. -/
structure Dormant (t : Nat) : Prop where
  current : s.current ≠ t
  awake : s.awake t = false
  joined : s.joined t = false
  waiters : ∀ h, t ∉ s.waiters h
  joinwq : ∀ jw ∈ s.joinwq, jw.1 ≠ t
  todo : ∀ u waker, .lwtWake waker t ∉ s.todo u

end State

section

variable {s u s' : State} {i : Instr} {is new : List Instr} {op : Op} {t x : Nat}

/-! ## A thread that nobody wakes -/

namespace State.Dormant

theorem setTodo (h : s.Dormant t) (hn : ∀ waker, .lwtWake waker t ∉ is) :
    (s.setTodo is).Dormant t where
  current := h.current
  awake := h.awake
  joined := h.joined
  waiters := h.waiters
  joinwq := h.joinwq
  todo v waker hm := by
    rw [State.setTodo_todo rfl rfl] at hm
    split at hm
    · exact hn waker hm
    · exact h.todo v waker hm

theorem sleep (h : s.Dormant t) : s.sleep.Dormant t where
  current := h.current
  awake := by
    show Function.update s.awake s.current false t = false
    rw [Function.update_of_ne h.current.symm]
    exact h.awake
  joined := h.joined
  waiters := h.waiters
  joinwq := h.joinwq
  todo := h.todo

theorem setWaiters (h : s.Dormant t) {k : Waithead} {ts : List Nat} (ht : t ∉ ts) :
    State.Dormant { s with waiters := Function.update s.waiters k ts } t where
  current := h.current
  awake := h.awake
  joined := h.joined
  waiters k' hm := by
    have hm' : t ∈ Function.update s.waiters k ts k' := hm
    by_cases hk : k' = k
    · subst hk
      rw [Function.update_self] at hm'
      exact ht hm'
    · rw [Function.update_of_ne hk] at hm'
      exact h.waiters k' hm'
  joinwq := h.joinwq
  todo := h.todo

theorem congr (h : s.Dormant t) (hc : u.current = s.current) (ha : u.awake = s.awake)
    (hj : u.joined = s.joined) (hw : u.waiters = s.waiters) (hq : u.joinwq = s.joinwq)
    (ht : u.todo = s.todo) : u.Dormant t := by
  refine ⟨?_, ?_, ?_, ?_, ?_, ?_⟩
  · rw [hc]
    exact h.current
  · rw [ha]
    exact h.awake
  · rw [hj]
    exact h.joined
  · rw [hw]
    exact h.waiters
  · rw [hq]
    exact h.joinwq
  · rw [ht]
    exact h.todo

theorem threadCreate (h : s.Dormant t) {joinable : Bool} :
    (s.threadCreate joinable).Dormant t where
  current := h.current
  awake := by
    show Function.update s.awake s.threads false t = false
    rw [Function.update_apply]
    split
    · rfl
    · exact h.awake
  joined := by
    show Function.update s.joined s.threads false t = false
    rw [Function.update_apply]
    split
    · rfl
    · exact h.joined
  waiters := h.waiters
  joinwq := h.joinwq
  todo v waker hm := by
    have hm' : .lwtWake waker t ∈ Function.update s.todo s.threads [] v := hm
    rw [Function.update_apply] at hm'
    split at hm'
    · exact absurd hm' List.not_mem_nil
    · exact h.todo v waker hm'

/-- A thread is taken off a list, to be woken: it is another. -/
theorem pop (h : s.Dormant t) {k : Waithead} {w : Nat} {ws : List Nat}
    (hw : s.waiters k = w :: ws) :
    State.Dormant { s with waiters := Function.update s.waiters k ws } t ∧ w ≠ t := by
  have hn := h.waiters k
  rw [hw, List.mem_cons, not_or] at hn
  exact ⟨h.setWaiters hn.2, hn.1 ∘ Eq.symm⟩

/-- No instruction wakes the thread, or prepares to. -/
theorem exec (h : s.Dormant t) (hi : ∀ waker, i ≠ .lwtWake waker t) (he : Exec s i u new) :
    u.Dormant t ∧ ∀ waker, .lwtWake waker t ∉ new := by
  have wake : ∀ {waker w}, w ≠ t → ∀ waker', .lwtWake waker' t ∉ Rump.wake waker w := by
    intro waker w hw waker' hm
    have hwt : w = t := by
      simp only [Rump.wake, List.mem_cons, reduceCtorEq, Instr.lwtWake.injEq, List.not_mem_nil,
        or_false, false_or] at hm
      exact hm.2.symm
    exact hw hwt
  have wakes : ∀ {waker w} {more : List Instr}, w ≠ t → more.any Instr.isWake = false →
      ∀ waker', .lwtWake waker' t ∉ Rump.wake waker w ++ more := by
    intro waker w more hw hmore waker' hm
    rcases List.mem_append.1 hm with hm | hm
    · exact wake hw waker' hm
    · rw [List.any_eq_false] at hmore
      exact hmore _ hm rfl
  have none : ∀ {l : List Instr}, l.any Instr.isWake = false → ∀ waker, .lwtWake waker t ∉ l := by
    intro l hl waker hm
    rw [List.any_eq_false] at hl
    exact hl _ hm rfl
  have same : u.current = s.current → u.awake = s.awake → u.joined = s.joined →
      u.waiters = s.waiters → u.joinwq = s.joinwq → u.todo = s.todo →
      new.any Instr.isWake = false → u.Dormant t ∧ ∀ waker, .lwtWake waker t ∉ new :=
    fun hc ha hj hw hq ht hn ↦ ⟨h.congr hc ha hj hw hq ht, none hn⟩
  cases he with
  | idle hi' =>
      refine same rfl rfl rfl rfl rfl rfl ?_
      cases hi' with
      | cvResched m =>
          unfold State.cvResched
          split <;> rfl
      | _ => rfl
  | sleep => exact ⟨h.sleep, none rfl⟩
  | wake ht =>
      rename_i waker x
      have hx : x ≠ t := by
        rintro rfl
        exact hi waker rfl
      refine ⟨{ h with awake := ?_ }, none rfl⟩
      show Function.update s.awake x true t = false
      rw [Function.update_of_ne hx.symm]
      exact h.awake
  | wait hi' =>
      rename_i k new
      have hw : (s.wait k).1.Dormant t := by
        refine h.sleep.setWaiters fun hm ↦ ?_
        rcases List.mem_append.1 hm with hm | hm
        · exact h.waiters k hm
        · exact h.current (List.mem_singleton.1 hm).symm
      cases hi' <;> exact ⟨hw, none rfl⟩
  | pop hi' hw =>
      obtain ⟨hp, hne⟩ := h.pop hw
      cases hi' <;> exact ⟨hp, wakes hne rfl⟩
  | leaveWake hv hw =>
      obtain ⟨hp, hne⟩ := h.pop hw
      exact ⟨hp.congr rfl rfl rfl rfl rfl rfl, wake hne⟩
  | rwLeaveOne hw =>
      obtain ⟨hp, hne⟩ := h.pop hw
      exact ⟨hp.congr rfl rfl rfl rfl rfl rfl, wake hne⟩
  | rwLeaveAll hn hw =>
      obtain ⟨hp, hne⟩ := h.pop hw
      exact ⟨hp.congr rfl rfl rfl rfl rfl rfl, wakes hne rfl⟩
  | enter hi' hy => cases hi' <;> exact same rfl rfl rfl rfl rfl rfl rfl
  | rwEnterWriter hi' ho => cases hi' <;> exact same rfl rfl rfl rfl rfl rfl rfl
  | rwEnterReader hi' ho hl => cases hi' <;> exact same rfl rfl rfl rfl rfl rfl rfl
  | count hi' => cases hi' <;> exact same rfl rfl rfl rfl rfl rfl rfl
  | create => exact ⟨h.threadCreate, none rfl⟩
  | exitJoin hm =>
      refine ⟨{ h with joined := ?_ }, ?_⟩
      · show Function.update s.joined s.current true t = false
        rw [Function.update_of_ne h.current.symm]
        exact h.joined
      · cases hj : s.joiner s.current with
        | none => exact none rfl
        | some j => exact wakes (h.joinwq _ (State.joiner_mem hj)) rfl
  | joinWait hj =>
      refine ⟨{ h with joinwq := fun jw hjw ↦ ?_ }, none rfl⟩
      rcases List.mem_append.1 hjw with hjw | hjw
      · exact h.joinwq jw hjw
      · obtain rfl := List.mem_singleton.1 hjw
        exact h.current
  | joinDone hj =>
      rename_i x
      have hx : x ≠ t := by
        rintro rfl
        rw [h.joined] at hj
        cases hj
      exact ⟨h.congr rfl rfl rfl rfl rfl rfl, wake hx⟩
  | joinRemove =>
      exact ⟨{ h with joinwq := fun jw hjw ↦ h.joinwq jw (List.mem_of_mem_erase hjw) }, none rfl⟩
  | _ => exact same rfl rfl rfl rfl rfl rfl rfl

/-- No step runs the thread, unless it is woken by other code. -/
theorem step (h : s.Dormant t) (hs : Step s op s') (hk : op ≠ .kick t) : s'.Dormant t := by
  have rest : ∀ {i is}, s.todo s.current = i :: is → ∀ waker, .lwtWake waker t ∉ is := by
    intro i is htodo waker hm
    refine h.todo s.current waker ?_
    rw [htodo]
    exact List.mem_cons_of_mem i hm
  cases hs.stepped with
  | exec ha htodo he =>
      rename_i i is new u
      have hi : ∀ waker, i ≠ .lwtWake waker t := by
        rintro waker rfl
        refine h.todo s.current waker ?_
        rw [htodo]
        exact List.mem_cons_self
      obtain ⟨hu, hn⟩ := h.exec hi (Exec.of_exec he)
      refine hu.setTodo fun waker hm ↦ ?_
      rcases List.mem_append.1 hm with hm | hm
      · exact hn waker hm
      · exact rest htodo waker hm
  | exit ha htodo => exact h.sleep.setTodo fun waker hm ↦ absurd hm List.not_mem_nil
  | ret ha htodo hi => exact h.setTodo (rest htodo)
  | call ha ho hi =>
      rename_i i
      refine h.setTodo fun waker hm ↦ ?_
      rcases List.mem_cons.1 hm with hm | hm
      · rw [← hm] at hi
        cases hi
      · exact h.todo s.current waker hm
  | doze ha ho => exact h.sleep
  | switch ht hg =>
      refine { h with current := ?_ }
      rintro rfl
      rw [h.awake] at ht
      cases ht
  | kick ht =>
      rename_i x
      refine { h with awake := ?_ }
      show Function.update s.awake x true t = false
      have hx : t ≠ x := by
        rintro rfl
        exact hk rfl
      rw [Function.update_of_ne hx]
      exact h.awake

theorem init (kspin : Nat → Bool) (ht : t ≠ 0) : (State.init kspin).Dormant t where
  current := ht.symm
  awake := beq_eq_false_iff_ne.2 ht
  joined := rfl
  waiters _ := List.not_mem_nil
  joinwq _ hj := absurd hj List.not_mem_nil
  todo _ _ := List.not_mem_nil

end State.Dormant

/-- A thread that waits to join one that has not come to its end goes on waiting. -/
theorem joinLoop_mem_step (hw : Within s) (hj : s.joined t = false) (hs : Step s op s')
    (hl : s.Leaves op) (hm : .joinLoop t ∈ s.todo x) : .joinLoop t ∈ s'.todo x := by
  have set : ∀ {v : State}, v.todo = s.todo → v.current = s.current → ∀ {i is js},
      s.todo s.current = i :: is → (i = .joinLoop t → .joinLoop t ∈ js) →
      (.joinLoop t ∈ is → .joinLoop t ∈ js) → .joinLoop t ∈ (v.setTodo js).todo x := by
    intro v hv hc i is js htodo hi his
    rw [State.setTodo_todo hc hv]
    split
    · rename_i hx
      rw [hx, htodo] at hm
      rcases List.mem_cons.1 hm with hm | hm
      · exact hi hm.symm
      · exact his hm
    · exact hm
  cases hs.stepped with
  | exec ha htodo he =>
      have hx := Exec.of_exec he
      refine set (hx.todo_eq hw) hx.current_eq htodo ?_ (List.mem_append_right _)
      rintro rfl
      cases hx with
      | joinWait hj' => simp
      | joinDone hj' =>
          rw [hj] at hj'
          cases hj'
      | idle hi => cases hi
      | wait hi => cases hi
      | pop hi hw => cases hi
      | enter hi hy => cases hi
      | rwEnterWriter hi ho => cases hi
      | rwEnterReader hi ho hw => cases hi
      | count hi => cases hi
  | exit ha htodo =>
      simp only [State.Leaves, htodo] at hl
      subst hl
      refine set (v := s.sleep) rfl rfl htodo ?_ fun h ↦ h
      intro hc
      cases hc
  | ret ha htodo hi =>
      refine set rfl rfl htodo ?_ fun h ↦ h
      rintro rfl
      obtain ⟨site, hi | hi⟩ := hi <;> cases hi
  | call ha ho hi =>
      rw [State.setTodo_todo rfl rfl]
      split
      · rename_i hx
        exact List.mem_cons_of_mem _ (hx ▸ hm)
      · exact hm
  | doze ha ho => exact hm
  | switch ht hg => exact hm
  | kick ht => exact hm

end

/-- A thread other than the first, however it has been made, does not run in a run from the start
unless other code wakes it; and a thread that has begun to join it does not come back, while the
threads that exit are in no other function. -/
theorem created_never_runs {kspin : Nat → Bool} {t : Nat} {ops : List Op} {s : State}
    (h : Run (fun s op s' ↦ Step s op s' ∧ op ≠ .kick t) (State.init kspin) ops s) (ht : t ≠ 0) :
    s.current ≠ t ∧ ∀ ops' s',
      Run (fun s op s' ↦ Step s op s' ∧ s.Leaves op ∧ op ≠ .kick t) s ops' s' →
      ∀ u, .joinLoop t ∈ s.todo u → .joinLoop t ∈ s'.todo u := by
  have hI := h.invariant (I := fun s ↦ Within s ∧ s.Dormant t)
    (fun _ _ _ hI hs ↦ ⟨hI.1.step hs.1, hI.2.step hs.1 hs.2⟩)
    ⟨Within.init kspin, State.Dormant.init kspin ht⟩
  refine ⟨hI.2.current, fun ops' s' h' ↦ ?_⟩
  have hI' := h'.invariant
    (I := fun v ↦ (Within v ∧ v.Dormant t) ∧
      ∀ u, .joinLoop t ∈ s.todo u → .joinLoop t ∈ v.todo u)
    (fun _ _ _ hI hs ↦ ⟨⟨hI.1.1.step hs.1, hI.1.2.step hs.1 hs.2.2⟩, fun u hu ↦
      joinLoop_mem_step hI.1.1 hI.1.2.joined hs.1 hs.2.1 (hI.2 u hu)⟩)
    ⟨hI, fun _ hu ↦ hu⟩
  exact hI'.2

/-- The first thread makes a thread and joins it: it sleeps, and does not come back. -/
theorem created_never_runs_joined : ∃ s s' : State,
    Run (fun s op s' ↦ Step s op s' ∧ op ≠ .kick 1) (State.init fun _ ↦ false)
      [.call (.threadCreate true), .exec, .call (.threadJoin 1), .exec] s ∧
    Run (fun s op s' ↦ Step s op s' ∧ s.Leaves op ∧ op ≠ .kick 1) s [.exec, .ret, .exec] s' ∧
    s'.awake 0 = false ∧ s.current ≠ 1 ∧ .joinLoop 1 ∈ s'.todo 0 := by
  suffices h : ∃ s s' : State,
      Run (fun s op s' ↦ Step s op s' ∧ op ≠ .kick 1) (State.init fun _ ↦ false)
        [.call (.threadCreate true), .exec, .call (.threadJoin 1), .exec] s ∧
      Run (fun s op s' ↦ Step s op s' ∧ s.Leaves op ∧ op ≠ .kick 1) s [.exec, .ret, .exec] s' ∧
      s'.awake 0 = false ∧ .joinLoop 1 ∈ s.todo 0 by
    obtain ⟨s, s', h, h', hs, hm⟩ := h
    have hn := created_never_runs h Nat.one_ne_zero
    exact ⟨s, s', h, h', hs, hn.1, hn.2 _ _ h' 0 hm⟩
  exact ⟨_, _,
    .cons ⟨rfl, by decide⟩ <| .cons ⟨rfl, by decide⟩ <| .cons ⟨rfl, by decide⟩ <|
      .cons ⟨rfl, by decide⟩ (.nil _),
    .cons ⟨rfl, trivial, by decide⟩ <| .cons ⟨rfl, trivial, by decide⟩ <|
      .cons ⟨rfl, trivial, by decide⟩ (.nil _), rfl, .head _⟩

/-! ## The end of a thread -/

/-- `lwt_sleep` is still to come. -/
def Instr.isSleep : Instr → Bool
  | .lwtSleep => true
  | _ => false

/-- What comes between the decision to sleep and `lwt_sleep`. -/
def Instr.isPrompt : Instr → Bool
  | .unsched .wake | .lwtWake _ _ | .sched .wake | .unsched .block => true
  | _ => false

namespace State

variable (s : State)

/-- The rump kernel does nothing but return when `wake` calls it, and when `block` leaves it. -/
def Prompt : Op → Prop
  | .switch _ | .call _ | .doze => ∀ i, (s.todo s.current).head? = some i → i.isPrompt = false
  | _ => True

/-- A thread is joined by one thread. -/
def Once : Op → Prop
  | .exec =>
    match s.todo s.current with
    | .threadJoin t :: _ => ∀ u, .joinLoop t ∉ s.todo u
    | _ => True
  | _ => True

/-- The thread sleeps in `join_thread`, or in `exit_thread`. -/
def Asleep (t : Nat) (i : Instr) : Prop :=
  s.awake t = false ∧ ∃ is, s.todo t = .slept :: .sched .block :: i :: is

/-- The current thread is about to sleep, and has reason to. -/
def AboutToSleep : Prop :=
  ∃ pre i is, s.todo s.current = pre ++ .lwtSleep :: .sched .block :: i :: is ∧
    pre.all Instr.isPrompt = true ∧ (i :: is).any Instr.isSleep = false ∧
    (∀ t, i = .joinRemove t → s.joined t = false) ∧
    (i = .threadExit → s.mustjoin s.current = true) ∧ s.awake s.current = true

end State

/-- What holds of the threads that are joined, in a prompt run. -/
structure JoinWay (s : State) : Prop where
  count : ∀ u t, (s.todo u).count (.joinRemove t) = s.joinwq.count (u, t)
  single : ∀ {u u' t}, .joinLoop t ∈ s.todo u → .joinLoop t ∈ s.todo u' → u = u'
  clear : ∀ t, t ≠ s.current → (s.todo t).any Instr.isSleep = false
  current : (s.todo s.current).any Instr.isSleep = false ∨ s.AboutToSleep
  joiner : ∀ j t, s.Asleep j (.joinRemove t) → s.joined t = true →
    ∃ u, .lwtWake .exit j ∈ s.todo u
  exiter : ∀ t, s.Asleep t .threadExit → s.mustjoin t = false → ∃ u, .lwtWake .join t ∈ s.todo u

section

variable {s u s' : State} {i : Instr} {is new : List Instr} {op : Op} {j t x : Nat}

/-! ### What an instruction does to the threads that are joined -/

theorem Idle.isSleep (hi : Idle s i new) : new.any Instr.isSleep = false := by
  cases hi with
  | cvResched m =>
      unfold State.cvResched
      split <;> rfl
  | _ => rfl

/-- Who is about to sleep has looked for a reason. -/
theorem Exec.isSleep (he : Exec s i u new) : new.any Instr.isSleep = false ∨
    u.awake = s.awake ∧ (u.mustjoin = s.mustjoin ∧ s.mustjoin s.current = true ∧
      new = (s.joiner s.current).elim [] (Rump.wake .exit) ++ (block ++ [.threadExit]) ∨
    u.joined = s.joined ∧ ∃ t, s.joined t = false ∧
      new = block ++ [.joinRemove t, .joinLoop t]) := by
  cases he with
  | idle hi => exact .inl hi.isSleep
  | wait hi => cases hi <;> exact .inl rfl
  | pop hi hw => cases hi <;> exact .inl rfl
  | count hi => cases hi <;> exact .inl rfl
  | exitJoin hm => exact .inr ⟨rfl, .inl ⟨rfl, hm, rfl⟩⟩
  | joinWait hj => exact .inr ⟨rfl, .inr ⟨rfl, _, hj, rfl⟩⟩
  | _ => exact .inl rfl

/-- Who is asleep after an instruction of another was so before, and is not the one that is
woken. -/
theorem Exec.awake_eq_false (he : Exec s i u new) (hw : Within s) (hj : u.awake j = false)
    (hne : j ≠ s.current) : s.awake j = false ∧ ∀ waker, i ≠ .lwtWake waker j := by
  cases he with
  | idle hi => exact ⟨hj, fun waker hc ↦ by rw [hc] at hi; cases hi⟩
  | sleep =>
      have hj' : Function.update s.awake s.current false j = false := hj
      rw [Function.update_of_ne hne] at hj'
      exact ⟨hj', by simp⟩
  | wake ht =>
      rename_i waker x
      have hj' : Function.update s.awake x true j = false := hj
      have hx : j ≠ x := by
        rintro rfl
        rw [Function.update_self] at hj'
        cases hj'
      rw [Function.update_of_ne hx] at hj'
      exact ⟨hj', fun waker hc ↦ hx (Instr.lwtWake.inj hc).2.symm⟩
  | wait hi =>
      have hj' : Function.update s.awake s.current false j = false := hj
      rw [Function.update_of_ne hne] at hj'
      cases hi <;> exact ⟨hj', by simp⟩
  | pop hi hl => cases hi <;> exact ⟨hj, by simp⟩
  | enter hi hy => cases hi <;> exact ⟨hj, by simp⟩
  | rwEnterWriter hi ho => cases hi <;> exact ⟨hj, by simp⟩
  | rwEnterReader hi ho hl => cases hi <;> exact ⟨hj, by simp⟩
  | count hi => cases hi <;> exact ⟨hj, by simp⟩
  | create =>
      rw [hw.threadCreate_eq.2] at hj
      exact ⟨hj, by simp⟩
  | _ => exact ⟨hj, by simp⟩

/-- Who goes to sleep does so in `lwt_sleep`, or in `wait`. -/
theorem Exec.current_asleep (he : Exec s i u new) (hw : Within s) (ha : s.awake s.current = true)
    (hj : u.awake s.current = false) :
    i = .lwtSleep ∧ new = [.slept] ∧ u = s.sleep ∨ ∃ h more, new = .waiting h :: more := by
  have absurd' : ∀ {p : Prop}, u.awake = s.awake → p := fun hu ↦ by
    rw [hu, ha] at hj
    cases hj
  cases he with
  | sleep => exact .inl ⟨rfl, rfl, rfl⟩
  | wait hi => exact .inr ⟨_, _, rfl⟩
  | wake ht =>
      have hj' : Function.update s.awake _ true s.current = false := hj
      rw [Function.update_of_ne ht.symm, ha] at hj'
      cases hj'
  | create => exact absurd' hw.threadCreate_eq.2
  | _ => exact absurd' rfl

/-- Who has come to its end has looked for its joiner. -/
theorem Exec.joined_eq_true (he : Exec s i u new) (hj : u.joined t = true) :
    s.joined t = true ∨ t = s.current ∧
      ∀ j, s.joiner s.current = some j → .lwtWake .exit j ∈ new := by
  cases he with
  | create =>
      have hj' : Function.update s.joined s.threads false t = true := hj
      rw [Function.update_apply] at hj'
      split at hj'
      · cases hj'
      · exact .inl hj'
  | exitJoin hm =>
      have hj' : Function.update s.joined s.current true t = true := hj
      rw [Function.update_apply] at hj'
      split at hj'
      · rename_i ht
        refine .inr ⟨ht, fun j hjn ↦ ?_⟩
        rw [hjn]
        simp [Rump.wake]
      · exact .inl hj'
  | _ => exact .inl hj

/-- Who is let go is woken. -/
theorem Exec.mustjoin_eq_false (he : Exec s i u new) (hw : Within s)
    (hm : u.mustjoin t = false) : s.mustjoin t = false ∨ .lwtWake .join t ∈ new := by
  cases he with
  | create =>
      have hm' : Function.update s.mustjoin s.threads _ t = false := hm
      rw [Function.update_apply] at hm'
      split at hm'
      · rename_i ht
        refine .inl (Bool.eq_false_iff.2 fun hc ↦ ?_)
        exact absurd (hw.joinable t hc) (by omega)
      · exact .inl hm'
  | joinDone hj =>
      rename_i x
      have hm' : Function.update s.mustjoin x false t = false := hm
      rw [Function.update_apply] at hm'
      split at hm'
      · rename_i ht
        rw [ht]
        exact .inr (by simp [Rump.wake])
      · exact .inl hm'
  | _ => exact .inl hm

/-- Only `rumpuser_thread_join` begins to join. -/
theorem Exec.joinLoop_mem (he : Exec s i u new) (hm : .joinLoop t ∈ new) :
    i = .joinLoop t ∨ i = .threadJoin t := by
  cases he with
  | idle hi =>
      cases hi with
      | threadJoin t' ht =>
          obtain rfl := Instr.joinLoop.inj (List.mem_singleton.1 hm)
          exact .inr rfl
      | cvResched m =>
          unfold State.cvResched at hm
          split at hm <;> simp at hm
      | _ => simp at hm
  | wait hi => cases hi <;> simp at hm
  | pop hi hw => cases hi <;> simp [Rump.wake] at hm
  | count hi => cases hi <;> simp at hm
  | exitJoin hj =>
      cases hjn : s.joiner s.current with
      | none => simp [hjn, block] at hm
      | some j => simp [hjn, Rump.wake, block] at hm
  | joinWait hj =>
      simp [block] at hm
      subst hm
      exact .inl rfl
  | _ => simp [Rump.wake] at hm

/-- The list of the joiners has those that are in the loop of `join_thread`. -/
theorem Exec.count_joinwq (he : Exec s i u new)
    (hc : ∀ t, (i :: is).count (.joinRemove t) = s.joinwq.count (s.current, t)) (v : Nat) :
    u.joinwq.count (v, t) =
      if v = s.current then (new ++ is).count (.joinRemove t) else s.joinwq.count (v, t) := by
  -- the list is left alone, and so are the threads in the loop
  have same : u.joinwq = s.joinwq → (∀ x, i ≠ .joinRemove x) →
      (∀ x, .joinRemove x ∉ new) → u.joinwq.count (v, t) =
        if v = s.current then (new ++ is).count (.joinRemove t) else s.joinwq.count (v, t) := by
    intro hq hi hn
    rw [hq]
    split
    · rename_i hv
      rw [hv, ← hc, List.count_append, List.count_eq_zero.2 (hn t), Nat.zero_add,
        List.count_cons_of_ne (hi t)]
    · rfl
  cases he with
  | idle hi =>
      cases hi with
      | cvResched m =>
          refine same rfl (by simp) fun x hm ↦ ?_
          unfold State.cvResched at hm
          split at hm <;> simp at hm
      | _ => exact same rfl (by simp) (by simp)
  | wait hi => cases hi <;> exact same rfl (by simp) (by simp)
  | pop hi hw => cases hi <;> exact same rfl (by simp) (by simp [Rump.wake])
  | enter hi hy => cases hi <;> exact same rfl (by simp) (by simp)
  | rwEnterWriter hi ho => cases hi <;> exact same rfl (by simp) (by simp)
  | rwEnterReader hi ho hl => cases hi <;> exact same rfl (by simp) (by simp)
  | count hi => cases hi <;> exact same rfl (by simp) (by simp)
  | exitJoin hj =>
      refine same rfl (by simp) fun x hm ↦ ?_
      cases hjn : s.joiner s.current with
      | none => simp [hjn, block] at hm
      | some j => simp [hjn, Rump.wake, block] at hm
  | joinWait hj =>
      rename_i x
      have hx := hc t
      rw [List.count_cons_of_ne fun h ↦ by cases h] at hx
      show (s.joinwq ++ [(s.current, x)]).count (v, t) = _
      rw [List.count_append, List.count_singleton]
      by_cases hv : v = s.current
      · have hnew : (block ++ [Instr.joinRemove x, .joinLoop x] ++ is).count (.joinRemove t) =
            (if x = t then 1 else 0) + is.count (.joinRemove t) := by
          rw [List.count_append, List.count_append]
          simp [block, List.count_cons]
        rw [if_pos hv, hnew, hx, hv]
        simp [Nat.add_comm]
      · rw [if_neg hv, if_neg fun hc ↦ hv (Prod.mk.inj (eq_of_beq hc)).1.symm, Nat.add_zero]
  | joinRemove =>
      rename_i x
      have hx := hc t
      rw [List.count_cons] at hx
      show (s.joinwq.erase (s.current, x)).count (v, t) = _
      rw [List.count_erase]
      by_cases hv : v = s.current
      · rw [if_pos hv, hv, ← hx]
        simp
      · rw [if_neg hv, if_neg fun hc ↦ hv (Prod.mk.inj (eq_of_beq hc)).1.symm, Nat.sub_zero]
  | _ => exact same rfl (by simp) (by simp [Rump.wake])

/-- On the way to `lwt_sleep` the only instructions that are executed are wakes. -/
theorem exec_isPrompt (hi : i.isPrompt = true) (he : s.exec i = .ok (u, new)) :
    (∃ t, t ≠ s.current ∧ u = { s with awake := Function.update s.awake t true }) ∧ new = [] := by
  cases i with
  | unsched site => cases he
  | sched site => cases he
  | lwtWake waker t =>
      obtain ⟨v, hv, he⟩ := Mh.Lib.bind_eq_ok.1 he
      cases he
      unfold State.lwtWake at hv
      split at hv
      · cases hv
      · rename_i ht
        cases hv
        exact ⟨⟨t, ht, rfl⟩, rfl⟩
  | _ => cases hi

/-! ### Steps -/

namespace JoinWay

/-- The joiner of a thread is the one that waits for it. -/
theorem joiner_eq (h : JoinWay s) (hsh : ∀ t, Shaped (s.todo t))
    (hm : .joinRemove t ∈ s.todo j) : s.joiner t = some j := by
  have loop : ∀ {v}, .joinRemove t ∈ s.todo v → .joinLoop t ∈ s.todo v := by
    intro v hv
    obtain ⟨pre, is, hvs⟩ := List.append_of_mem hv
    have hs := hsh v
    rw [hvs] at hs ⊢
    refine List.mem_append_right pre (List.mem_cons_of_mem _ ?_)
    clear hvs hv
    induction pre with
    | nil => exact hs.1
    | cons i pre ih => exact ih hs.2
  have hjw : (j, t) ∈ s.joinwq := by
    rw [← List.count_pos_iff, ← h.count, List.count_pos_iff]
    exact hm
  cases hn : s.joiner t with
  | none =>
      have hf := List.find?_eq_none.1 (Option.map_eq_none_iff.1 hn) _ hjw
      simp at hf
  | some j' =>
      have hj' := State.joiner_mem hn
      rw [← List.count_pos_iff, ← h.count, List.count_pos_iff] at hj'
      rw [h.single (loop hj') (loop hm)]

/-- A thread at large is not about to sleep, in a prompt run. -/
theorem clear_all (h : JoinWay s)
    (hp : ∀ i, (s.todo s.current).head? = some i → i.isPrompt = false)
    (hg : s.awake s.current = false ∨ givesWay (s.todo s.current) = true) :
    ∀ t, (s.todo t).any Instr.isSleep = false := by
  intro t
  by_cases ht : t = s.current
  · subst ht
    refine h.current.resolve_right ?_
    rintro ⟨pre, i, is, htodo, hpre, -, -, -, ha⟩
    cases pre with
    | nil =>
        rcases hg with hg | hg
        · rw [ha] at hg
          cases hg
        · rw [htodo] at hg
          cases hg
    | cons p pre =>
        have hp' := hp p (by rw [htodo]; rfl)
        rw [List.all_cons, hp'] at hpre
        cases hpre
  · exact h.clear t ht

/-- Who sleeps and need not is still to be woken, when nobody comes to sleep and no wake is left
out. -/
theorem sleepers (h : JoinWay s) (hj : u.joined = s.joined) (hm : u.mustjoin = s.mustjoin)
    (ha : ∀ t i, u.Asleep t i → s.Asleep t i)
    (ht : ∀ waker t v, .lwtWake waker t ∈ s.todo v → .lwtWake waker t ∈ u.todo v) :
    (∀ j t, u.Asleep j (.joinRemove t) → u.joined t = true → ∃ v, .lwtWake .exit j ∈ u.todo v) ∧
    ∀ t, u.Asleep t .threadExit → u.mustjoin t = false → ∃ v, .lwtWake .join t ∈ u.todo v := by
  rw [hj, hm]
  constructor
  · intro j t hs ht'
    obtain ⟨v, hv⟩ := h.joiner j t (ha _ _ hs) ht'
    exact ⟨v, ht _ _ _ hv⟩
  · intro t hs ht'
    obtain ⟨v, hv⟩ := h.exiter t (ha _ _ hs) ht'
    exact ⟨v, ht _ _ _ hv⟩

/-- The current thread is on its way to `lwt_sleep`, or past it, or not going there. -/
theorem exec_current (h : JoinWay s) (ha : s.awake s.current = true)
    (htodo : s.todo s.current = i :: is) (he : s.exec i = .ok (u, new)) :
    ((u.setTodo (new ++ is)).todo (u.setTodo (new ++ is)).current).any Instr.isSleep = false ∨
      (u.setTodo (new ++ is)).AboutToSleep := by
  have hx := Exec.of_exec he
  rw [State.setTodo_todo_current]
  rcases h.current with hcl | ⟨pre, k, is', htodo', hpre, hcl, hjoin, hexit, -⟩
  · rw [htodo, List.any_cons, Bool.or_eq_false_iff] at hcl
    rcases hx.isSleep with hn | ⟨hua, ⟨hm, hmc, rfl⟩ | ⟨hj, t, hjt, rfl⟩⟩
    · left
      rw [List.any_append, hn, hcl.2]
      rfl
    · refine .inr ⟨(s.joiner s.current).elim [] (Rump.wake .exit) ++ [.unsched .block], .threadExit,
        is, ?_, ?_, ?_, by simp, fun _ ↦ ?_, ?_⟩
      · rw [State.setTodo_todo_current]
        simp [block]
      · cases s.joiner s.current <;> rfl
      · rw [List.any_cons, hcl.2]
        rfl
      · show u.mustjoin u.current = true
        rw [hm, hx.current_eq]
        exact hmc
      · show u.awake u.current = true
        rw [hua, hx.current_eq]
        exact ha
    · refine .inr ⟨[.unsched .block], .joinRemove t, .joinLoop t :: is, ?_, rfl, ?_, ?_, by simp,
        ?_⟩
      · rw [State.setTodo_todo_current]
        rfl
      · rw [List.any_cons, List.any_cons, hcl.2]
        rfl
      · intro x hxt
        obtain rfl := Instr.joinRemove.inj hxt
        show u.joined t = false
        rw [hj]
        exact hjt
      · show u.awake u.current = true
        rw [hua, hx.current_eq]
        exact ha
  · rw [htodo] at htodo'
    cases pre with
    | nil =>
        obtain ⟨rfl, rfl⟩ := List.cons.inj htodo'
        cases he
        left
        exact hcl
    | cons p pre =>
        obtain ⟨rfl, rfl⟩ := List.cons.inj htodo'
        rw [List.all_cons, Bool.and_eq_true] at hpre
        obtain ⟨⟨t, ht, rfl⟩, rfl⟩ := exec_isPrompt hpre.1 he
        refine .inr ⟨pre, k, is', State.setTodo_todo_current, hpre.2, hcl, hjoin, hexit, ?_⟩
        show Function.update s.awake t true s.current = true
        rw [Function.update_of_ne ht.symm]
        exact ha

/-- Who goes to sleep has reason to, and who need not sleep any longer is to be woken. -/
theorem exec_sleepers (h : JoinWay s) (hsh : ∀ t, Shaped (s.todo t)) (hw : Within s)
    (ha : s.awake s.current = true) (htodo : s.todo s.current = i :: is)
    (he : s.exec i = .ok (u, new)) :
    (∀ j t, (u.setTodo (new ++ is)).Asleep j (.joinRemove t) → u.joined t = true →
      ∃ v, .lwtWake .exit j ∈ (u.setTodo (new ++ is)).todo v) ∧
    ∀ t, (u.setTodo (new ++ is)).Asleep t .threadExit → u.mustjoin t = false →
      ∃ v, .lwtWake .join t ∈ (u.setTodo (new ++ is)).todo v := by
  have hx := Exec.of_exec he
  have htd : ∀ t, (u.setTodo (new ++ is)).todo t =
      if t = s.current then new ++ is else s.todo t :=
    State.setTodo_todo hx.current_eq (hx.todo_eq hw)
  have hnew : ∀ {j : Instr}, j ∈ new → ∃ v, j ∈ (u.setTodo (new ++ is)).todo v := fun hj ↦
    ⟨s.current, by rw [htd, if_pos rfl]; exact List.mem_append_left is hj⟩
  have keep : ∀ {waker t}, i ≠ .lwtWake waker t → (∃ v, .lwtWake waker t ∈ s.todo v) →
      ∃ v, .lwtWake waker t ∈ (u.setTodo (new ++ is)).todo v := by
    rintro waker t hi ⟨v, hv⟩
    refine ⟨v, ?_⟩
    rw [htd]
    split
    · rename_i hvc
      rw [hvc, htodo, List.mem_cons] at hv
      exact List.mem_append_right new (hv.resolve_left fun hc ↦ hi hc.symm)
    · exact hv
  have other : ∀ {t k}, t ≠ s.current → (u.setTodo (new ++ is)).Asleep t k →
      s.Asleep t k ∧ ∀ waker, i ≠ .lwtWake waker t := by
    rintro t k ht ⟨hua, js, hjs⟩
    rw [htd, if_neg ht] at hjs
    obtain ⟨hsa, hi⟩ := hx.awake_eq_false hw hua ht
    exact ⟨⟨hsa, js, hjs⟩, hi⟩
  -- the current thread has come to sleep, as it was about to
  have self : ∀ {k}, (u.setTodo (new ++ is)).Asleep s.current k → u = s.sleep ∧
      (∀ t, k = .joinRemove t → s.joined t = false) ∧
      (k = .threadExit → s.mustjoin s.current = true) := by
    rintro k ⟨hua, js, hjs⟩
    rw [htd, if_pos rfl] at hjs
    rcases hx.current_asleep hw ha hua with ⟨rfl, rfl, rfl⟩ | ⟨l, more, rfl⟩
    · refine ⟨rfl, ?_⟩
      rcases h.current with hcl | ⟨pre, k', is', htodo', hpre, -, hjoin, hexit, -⟩
      · rw [htodo] at hcl
        cases hcl
      · rw [htodo] at htodo'
        cases pre with
        | nil =>
            obtain ⟨-, rfl⟩ := List.cons.inj htodo'
            obtain ⟨-, hjs⟩ := List.cons.inj hjs
            obtain ⟨-, hjs⟩ := List.cons.inj hjs
            obtain ⟨rfl, -⟩ := List.cons.inj hjs
            exact ⟨hjoin, hexit⟩
        | cons p pre =>
            obtain ⟨rfl, -⟩ := List.cons.inj htodo'
            cases hpre
    · cases hjs
  constructor
  · intro j t hs hj
    by_cases hjc : j = s.current
    · subst hjc
      obtain ⟨rfl, hjoin, -⟩ := self hs
      have hj' : s.joined t = true := hj
      rw [hjoin t rfl] at hj'
      cases hj'
    · obtain ⟨hsl, hi⟩ := other hjc hs
      rcases hx.joined_eq_true hj with hj | ⟨rfl, hn⟩
      · exact keep (hi _) (h.joiner j t hsl hj)
      · obtain ⟨-, js, hjs⟩ := hsl
        refine hnew (hn j (h.joiner_eq hsh ?_))
        rw [hjs]
        simp
  · intro t hs hm
    by_cases htc : t = s.current
    · subst htc
      obtain ⟨rfl, -, hexit⟩ := self hs
      have hm' : s.mustjoin s.current = false := hm
      rw [hexit rfl] at hm'
      cases hm'
    · obtain ⟨hsl, hi⟩ := other htc hs
      rcases hx.mustjoin_eq_false hw hm with hm | hn
      · exact keep (hi _) (h.exiter t hsl hm)
      · exact hnew hn

/-- A thread is joined by one. -/
theorem exec_single (h : JoinWay s) (hw : Within s) (ho : s.Once .exec)
    (htodo : s.todo s.current = i :: is) (he : Exec s i u new) {v v' : Nat}
    (hv : .joinLoop t ∈ (u.setTodo (new ++ is)).todo v)
    (hv' : .joinLoop t ∈ (u.setTodo (new ++ is)).todo v') : v = v' := by
  have htd : ∀ t, (u.setTodo (new ++ is)).todo t =
      if t = s.current then new ++ is else s.todo t :=
    State.setTodo_todo he.current_eq (he.todo_eq hw)
  by_cases hi : i = .threadJoin t
  · subst hi
    simp only [State.Once, htodo] at ho
    have only : ∀ {v}, .joinLoop t ∈ (u.setTodo (new ++ is)).todo v → v = s.current := by
      intro v hv
      by_contra hc
      rw [htd, if_neg hc] at hv
      exact ho v hv
    rw [only hv, only hv']
  · have before : ∀ {v}, .joinLoop t ∈ (u.setTodo (new ++ is)).todo v →
        .joinLoop t ∈ s.todo v := by
      intro v hv
      rw [htd] at hv
      split at hv
      · rename_i hvc
        rw [hvc, htodo]
        rcases List.mem_append.1 hv with hv | hv
        · rw [(he.joinLoop_mem hv).resolve_right hi]
          exact List.mem_cons_self
        · exact List.mem_cons_of_mem i hv
      · exact hv
    exact h.single (before hv) (before hv')

/-- The current thread, awake, has something else to do. -/
theorem setTodo (h : JoinWay s) (ha : s.awake s.current = true)
    (hc : ∀ t, is.count (.joinRemove t) = (s.todo s.current).count (.joinRemove t))
    (hl : ∀ t, .joinLoop t ∈ is → .joinLoop t ∈ s.todo s.current)
    (hw : ∀ waker t, .lwtWake waker t ∈ s.todo s.current → .lwtWake waker t ∈ is)
    (hs : is.any Instr.isSleep = false ∨ (s.setTodo is).AboutToSleep) :
    JoinWay (s.setTodo is) := by
  have htd : ∀ t, (s.setTodo is).todo t = if t = s.current then is else s.todo t :=
    State.setTodo_todo rfl rfl
  have loop : ∀ {v t}, .joinLoop t ∈ (s.setTodo is).todo v → .joinLoop t ∈ s.todo v := by
    intro v t hv
    rw [htd] at hv
    split at hv
    · rename_i hvc
      exact hvc ▸ hl t hv
    · exact hv
  obtain ⟨hj, he⟩ := h.sleepers (u := s.setTodo is) rfl rfl
    (by
      rintro t k ⟨hsa, js, hjs⟩
      rw [htd] at hjs
      split at hjs
      · rename_i htc
        have hsa' : s.awake t = false := hsa
        rw [htc, ha] at hsa'
        cases hsa'
      · exact ⟨hsa, js, hjs⟩)
    fun waker t v hv ↦ by
      rw [htd]
      split
      · rename_i hvc
        exact hw waker t (hvc ▸ hv)
      · exact hv
  refine ⟨fun v t ↦ ?_, fun hv hv' ↦ h.single (loop hv) (loop hv'), fun t ht ↦ ?_, ?_, hj, he⟩
  · rw [htd]
    split
    · rename_i hvc
      rw [hc, hvc]
      exact h.count _ t
    · exact h.count v t
  · rw [State.setTodo_todo_of_ne (show t ≠ s.current from ht)]
    exact h.clear t ht
  · rw [State.setTodo_todo_current]
    exact hs

/-- The current thread goes to sleep elsewhere. -/
theorem sleep (h : JoinWay s) (hs : (s.todo s.current).any Instr.isSleep = false)
    (hn : (s.todo s.current).head? ≠ some .slept) : JoinWay s.sleep := by
  obtain ⟨hj, he⟩ := h.sleepers (u := s.sleep) rfl rfl
    (by
      rintro t k ⟨hsa, js, hjs⟩
      have htc : t ≠ s.current := by
        rintro rfl
        exact hn (congrArg List.head? hjs)
      have hsa' : Function.update s.awake s.current false t = false := hsa
      rw [Function.update_of_ne htc] at hsa'
      exact ⟨hsa', js, hjs⟩)
    fun _ _ _ hv ↦ hv
  exact ⟨h.count, h.single, h.clear, .inl hs, hj, he⟩

theorem step (h : JoinWay s) (hsh : ∀ t, Shaped (s.todo t)) (hw : Within s)
    (hs : Step s op s') (hl : s.Leaves op) (hp : s.Prompt op) (ho : s.Once op) : JoinWay s' := by
  cases hs.stepped with
  | exec ha htodo he =>
      rename_i i is new u
      have hx := Exec.of_exec he
      have htd : ∀ t, (u.setTodo (new ++ is)).todo t =
          if t = s.current then new ++ is else s.todo t :=
        State.setTodo_todo hx.current_eq (hx.todo_eq hw)
      obtain ⟨hj, he'⟩ := h.exec_sleepers hsh hw ha htodo he
      refine ⟨fun v t ↦ ?_, h.exec_single hw ho htodo hx, fun t ht ↦ ?_,
        h.exec_current ha htodo he, hj, he'⟩
      · rw [htd]
        show _ = u.joinwq.count (v, t)
        rw [hx.count_joinwq (fun t ↦ by rw [← htodo]; exact h.count _ t) v]
        split
        · rfl
        · exact h.count v t
      · have hne : t ≠ s.current := fun hc ↦ ht (hc.trans hx.current_eq.symm)
        rw [htd, if_neg hne]
        exact h.clear t hne
  | exit ha htodo =>
      simp only [State.Leaves, htodo] at hl
      subst hl
      have hset : JoinWay (s.setTodo []) := by
        refine h.setTodo ha (fun t ↦ ?_) (fun t hm ↦ absurd hm List.not_mem_nil)
          (fun waker t hm ↦ ?_) (.inl rfl)
        · rw [htodo]
          rfl
        · rw [htodo, List.mem_singleton] at hm
          cases hm
      refine hset.sleep ?_ ?_
      · rw [State.setTodo_todo_current]
        rfl
      · rw [State.setTodo_todo_current]
        simp
  | ret ha htodo hi =>
      rename_i i is
      have hne : ∀ {j : Instr}, (∀ site, j ≠ .unsched site ∧ j ≠ .sched site) → j ≠ i := by
        rintro j hj rfl
        obtain ⟨site, hi | hi⟩ := hi
        · exact (hj site).1 hi
        · exact (hj site).2 hi
      refine h.setTodo ha (fun t ↦ ?_) (fun t hm ↦ ?_) (fun waker t hm ↦ ?_) ?_
      · rw [htodo, List.count_cons_of_ne (hne (j := .joinRemove t) fun _ ↦ ⟨by simp, by simp⟩).symm]
      · rw [htodo]
        exact List.mem_cons_of_mem i hm
      · rw [htodo, List.mem_cons] at hm
        exact hm.resolve_left (hne fun _ ↦ ⟨by simp, by simp⟩)
      · rcases h.current with hcl | ⟨pre, k, is', htodo', hpre, hcl, hjoin, hexit, -⟩
        · rw [htodo, List.any_cons, Bool.or_eq_false_iff] at hcl
          exact .inl hcl.2
        · rw [htodo] at htodo'
          cases pre with
          | nil =>
              obtain ⟨rfl, -⟩ := List.cons.inj htodo'
              exact absurd rfl (hne (j := .lwtSleep) fun _ ↦ ⟨by simp, by simp⟩)
          | cons p pre =>
              obtain ⟨rfl, rfl⟩ := List.cons.inj htodo'
              rw [List.all_cons, Bool.and_eq_true] at hpre
              exact .inr ⟨pre, k, is', State.setTodo_todo_current, hpre.2, hcl, hjoin, hexit, ha⟩
  | call ha ho' hi =>
      rename_i i
      have hcl := h.clear_all hp (.inr (by
        unfold givesWay
        split <;> first | rfl | exact ho'))
      refine h.setTodo ha (fun t ↦ ?_) (fun t hm ↦ ?_) (fun waker t hm ↦ List.mem_cons_of_mem _ hm)
        (.inl ?_)
      · refine List.count_cons_of_ne ?_
        rintro rfl
        cases hi
      · refine (List.mem_cons.1 hm).resolve_left ?_
        rintro rfl
        cases hi
      · rw [List.any_cons, hcl s.current, Bool.or_false]
        cases i with
        | lwtSleep => cases hi
        | _ => rfl
  | doze ha ho' =>
      have hcl := h.clear_all hp (.inr (by
        unfold givesWay
        split <;> first | rfl | exact ho'))
      refine h.sleep (hcl s.current) fun hh ↦ ?_
      obtain ⟨js, hjs⟩ := List.head?_eq_some_iff.1 hh
      rw [hjs] at ho'
      cases ho'
  | switch ht hg =>
      have hcl := h.clear_all hp hg
      exact ⟨h.count, h.single, fun t _ ↦ hcl t, .inl (hcl _), h.joiner, h.exiter⟩
  | kick ht =>
      rename_i x
      obtain ⟨hj, he⟩ := h.sleepers (u := { s with awake := Function.update s.awake x true }) rfl
        rfl (by
          rintro t k ⟨hsa, js, hjs⟩
          have hsa' : Function.update s.awake x true t = false := hsa
          have htx : t ≠ x := by
            rintro rfl
            rw [Function.update_self] at hsa'
            cases hsa'
          rw [Function.update_of_ne htx] at hsa'
          exact ⟨hsa', js, hjs⟩)
        fun _ _ _ hv ↦ hv
      refine ⟨h.count, h.single, h.clear, h.current.imp_right ?_, hj, he⟩
      rintro ⟨pre, k, is, htodo, hpre, hcl, hjoin, hexit, ha⟩
      refine ⟨pre, k, is, htodo, hpre, hcl, hjoin, hexit, ?_⟩
      show Function.update s.awake x true s.current = true
      rw [Function.update_apply]
      split
      · rfl
      · exact ha

theorem init (kspin : Nat → Bool) : JoinWay (State.init kspin) where
  count _ _ := rfl
  single hm := absurd hm List.not_mem_nil
  clear _ _ := rfl
  current := .inl rfl
  joiner := by
    rintro _ _ ⟨-, _, h⟩
    cases h
  exiter := by
    rintro _ ⟨-, _, h⟩
    cases h

end JoinWay

end

/-- In every state of a prompt run from the start in which each thread is joined by one: a thread
that sleeps to join one that has come to its end, and a thread that sleeps at its end and has been
let go, are to be woken. -/
theorem join_met_run {kspin : Nat → Bool} {ops : List Op} {s : State}
    (h : Run (fun s op s' ↦ Step s op s' ∧ s.Leaves op ∧ s.Prompt op ∧ s.Once op)
      (State.init kspin) ops s) :
    (∀ j t, s.Asleep j (.joinRemove t) → s.joined t = true → ∃ u, .lwtWake .exit j ∈ s.todo u) ∧
    ∀ t, s.Asleep t .threadExit → s.mustjoin t = false → ∃ u, .lwtWake .join t ∈ s.todo u := by
  have hI := h.invariant (I := fun s ↦ Within s ∧ (∀ t, Shaped (s.todo t)) ∧ JoinWay s)
    (fun _ _ _ hI hs ↦ ⟨hI.1.step hs.1, Shaped.step hI.2.1 hI.1 hs.1,
      hI.2.2.step hI.2.1 hI.1 hs.1 hs.2.1 hs.2.2.1 hs.2.2.2⟩)
    ⟨Within.init kspin, fun _ ↦ trivial, JoinWay.init kspin⟩
  exact ⟨hI.2.2.joiner, hI.2.2.exiter⟩

/-- The first thread sleeps to join another, which has just come to its end. -/
theorem join_met_run_two : ∃ s : State,
    Run (fun s op s' ↦ Step s op s' ∧ s.Leaves op ∧ s.Prompt op ∧ s.Once op)
      (State.init fun _ ↦ false)
      [.call (.threadCreate true), .exec, .kick 1, .call (.threadJoin 1), .exec, .exec, .ret, .exec,
        .switch 1, .call .threadExit, .exec] s ∧
    s.Asleep 0 (.joinRemove 1) ∧ ∃ u, .lwtWake .exit 0 ∈ s.todo u := by
  have out : ∀ i : Instr, none = some i → i.isPrompt = false := fun i hi ↦ by cases hi
  have slept : ∀ i : Instr, some .slept = some i → i.isPrompt = false := fun i hi ↦ by
    cases hi
    rfl
  have h : Run (fun s op s' ↦ Step s op s' ∧ s.Leaves op ∧ s.Prompt op ∧ s.Once op)
      (State.init fun _ ↦ false)
      [.call (.threadCreate true), .exec, .kick 1, .call (.threadJoin 1), .exec, .exec, .ret, .exec,
        .switch 1, .call .threadExit, .exec] _ :=
    .cons ⟨rfl, trivial, out, trivial⟩ <| .cons ⟨rfl, trivial, trivial, trivial⟩ <|
      .cons ⟨rfl, trivial, trivial, trivial⟩ <| .cons ⟨rfl, trivial, out, trivial⟩ <|
      .cons ⟨rfl, trivial, trivial, fun u ↦ by
        simp only [State.setTodo, State.threadCreate, State.init, Function.update_apply]
        split <;> simp⟩ <|
      .cons ⟨rfl, trivial, trivial, trivial⟩ <| .cons ⟨rfl, trivial, trivial, trivial⟩ <|
      .cons ⟨rfl, trivial, trivial, trivial⟩ <| .cons ⟨rfl, trivial, slept, trivial⟩ <|
      .cons ⟨rfl, trivial, out, trivial⟩ <| .cons ⟨rfl, trivial, trivial, trivial⟩ (.nil _)
  exact ⟨_, h, ⟨rfl, _, rfl⟩, (join_met_run h).1 0 1 ⟨rfl, _, rfl⟩ rfl⟩

end Mh.Rump
