import Mh.Smp.Steps

/-!
# Lost wake-ups

A thread that goes to sleep tests for pending signals, stores its status and joins
`stopped_threads` in separate steps, and `wake` decides from the status that it finds.  A
wake that comes after the test and before the insertion is lost, or takes the thread off a
list that it is not on.  When none does (`WakeSafe`), a signal that is pending for a
sleeping thread has a `wake` to come.
-/

namespace Mh.Smp

open Mh.Lib
open Mh.Sched (Status)

variable {s s' : State} {c d : Nat} {t u th : Tid} {newst : Status} {as : List (Nat × Act)}

/-- A signal is pending that would interrupt the thread. -/
def Pending (s : State) (t : Tid) : Prop := (s.thread t).hasInterrupts = true

/-- A CPU has raised a signal for the thread, and not called `wake` yet. -/
def Raising (s : State) (t : Tid) : Prop := ∃ c, (s.cpu c).pc = .raised t

/-- A CPU has passed the test of `schedule(THST_STOPPED)` for the thread, and not put it
on `stopped_threads` yet. -/
def Stopping (s : State) (t : Tid) : Prop :=
  ∃ d, (s.cpu d).stack = t ∧ (s.cpu d).pc.goal = some .stopped

/-- No step sequence is in progress on the thread: no CPU is in `schedule` with it as the
old thread, and none is about to wake it. -/
def Quiet (s : State) (t : Tid) : Prop :=
  (∀ d, (s.cpu d).stack = t → (s.cpu d).pc.goal = none) ∧ ¬Raising s t

/-- The `wake` of CPU `c` does not come between the test and the insertion of a CPU that
stops the thread, either with `THFL_INTR` set or when the status has been stored. -/
def WakeSafe (s : State) (c : Nat) : Prop :=
  ∀ t, (s.cpu c).pc = .raised t → ∀ d, (s.cpu d).stack = t → (s.cpu d).pc.goal = some .stopped →
    (s.thread t).intr = false ∧ (s.cpu d).mid = none

/-- A step in which no thread is waked on its way to sleep. -/
def WakeStep (s : State) (a : Nat × Act) (s' : State) : Prop :=
  Step s a s' ∧ (a.2 = .wake → WakeSafe s a.1)

/-- What is kept: a signal that is pending for a thread that sleeps or goes to sleep has a
`wake` to come; and signals are raised for threads that exist. -/
structure WakeInv (s : State) : Prop where
  coming : ∀ t, Pending s t → t ∈ s.stopped ∨ Stopping s t → Raising s t
  target : ∀ c t, (s.cpu c).pc = .raised t → ∃ n, t = .proc n ∧ n < s.next

/-! ## Frames -/

theorem pc_setPc (s : State) (c d : Nat) (pc : Pc) :
    ((s.setPc c pc).cpu d).pc = if d = c then pc else (s.cpu d).pc := by
  show (Function.update s.cpu c _ d).pc = _
  by_cases hd : d = c
  · subst hd
    rw [Function.update_self, if_pos rfl]
  · rw [Function.update_of_ne hd, if_neg hd]

/-- The thread that a CPU takes off the CPU is one that it has. -/
theorem stack_mem_hold {st : Status} (h : (s.cpu d).pc.goal = some st) :
    (s.cpu d).stack ∈ (s.cpu d).hold := by
  rw [Cpu.hold]
  cases hpc : (s.cpu d).pc with
  | leaving th =>
      rw [hpc] at h
      exact absurd h (Option.some_ne_none _).symm
  | run => exact List.mem_singleton_self _
  | raised t => exact List.mem_singleton_self _
  | entered newst => exact List.mem_singleton_self _
  | saved newst => exact List.mem_singleton_self _
  | picked newst th => exact List.mem_cons_self
  | stored newst th => exact List.mem_cons_self

/-- A CPU that is outside `schedule` has its thread for itself. -/
theorem not_stopping_of_run (hg : Good s) (hc : (s.cpu c).stack ∈ (s.cpu c).hold)
    (hgo : (s.cpu c).pc.goal = none) : ¬Stopping s (s.cpu c).stack := by
  rintro ⟨d, hst, hd⟩
  have hdc : d = c := hg.inv.excl d c _ (hst ▸ stack_mem_hold hd) hc
  rw [hdc, hgo] at hd
  cases hd

/-- A CPU that is not waking anybody goes on, and nobody is put to sleep by it. -/
theorem WakeInv.setPc {pc : Pc} (h : WakeInv s) (hr : ∀ t, (s.cpu c).pc ≠ .raised t)
    (hp : ∀ t, pc ≠ .raised t)
    (hgo : pc.goal = some .stopped → (s.cpu c).pc.goal = some .stopped ∨
      ¬Pending s (s.cpu c).stack) : WakeInv (s.setPc c pc) where
  coming t hpend hs := by
    have hs : t ∈ s.stopped ∨ Stopping s t := by
      refine hs.imp id fun ⟨d, hst, hd⟩ ↦ ⟨d, stack_setPc s c d pc ▸ hst, ?_⟩
      rw [pc_setPc] at hd
      split at hd
      · next hdc =>
          subst hdc
          rw [stack_setPc] at hst
          rcases hgo hd with hgo | hn
          · exact hgo
          · rw [hst] at hn
            exact absurd hpend hn
      · exact hd
    obtain ⟨c', hc'⟩ := h.coming t hpend hs
    refine ⟨c', ?_⟩
    rw [pc_setPc, if_neg]
    · exact hc'
    · rintro rfl
      exact hr t hc'
  target c' t hc' := by
    rw [pc_setPc] at hc'
    split at hc'
    · exact absurd hc' (hp t)
    · exact h.target c' t hc'

/-- A step that concerns no CPU: nobody becomes pending or goes to sleep. -/
theorem WakeInv.congr (h : WakeInv s) (hc : s'.cpu = s.cpu) (hn : s.next ≤ s'.next)
    (hp : ∀ t, t ∈ s'.stopped ∨ Stopping s t → Pending s' t → Pending s t)
    (hs : ∀ t ∈ s'.stopped, t ∈ s.stopped) : WakeInv s' where
  coming t hpend hsl := by
    have hsl' : t ∈ s'.stopped ∨ Stopping s t := by
      refine hsl.imp id fun hst ↦ ?_
      rwa [Stopping, hc] at hst
    obtain ⟨c, hc'⟩ := h.coming t (hp t hsl' hpend) (hsl'.imp (hs t) id)
    exact ⟨c, by rw [hc]; exact hc'⟩
  target c t hc' := by
    rw [hc] at hc'
    obtain ⟨n, hn', hlt⟩ := h.target c t hc'
    exact ⟨n, hn', Nat.lt_of_lt_of_le hlt hn⟩

/-- Threads other than the one that is written are as they were. -/
theorem pending_setThread {thr : Thread} (hne : u ≠ t) :
    Pending (s.setThread t thr) u ↔ Pending s u := by
  rw [Pending, Pending]
  show (Function.update s.thread t thr u).hasInterrupts = true ↔ _
  rw [Function.update_of_ne hne]

theorem pending_setStatus {st : Status} : Pending (s.setStatus t st) u ↔ Pending s u := by
  rw [Pending, Pending]
  show (Function.update s.thread t _ u).hasInterrupts = true ↔ _
  by_cases hu : u = t
  · subst hu
    rw [Function.update_self]
    exact Iff.rfl
  · rw [Function.update_of_ne hu]

/-- The thread of a CPU that is outside these functions may get signals or not: it is not
asleep. -/
theorem WakeInv.setThread {thr : Thread} (h : WakeInv s) (hg : Good s)
    (hpc : (s.cpu c).pc = .run) : WakeInv (s.setThread (s.cpu c).stack thr) := by
  have hmem : (s.cpu c).stack ∈ (s.cpu c).hold := by
    rw [Cpu.hold, hpc]
    exact List.mem_singleton_self _
  refine h.congr rfl (Nat.le_refl _) (fun t ht hp ↦ ?_) fun _ ht ↦ ht
  refine (pending_setThread ?_).1 hp
  rintro rfl
  rcases ht with ht | ht
  · exact (hg.inv.stopped _ ht).free c hmem
  · exact not_stopping_of_run hg hmem (by rw [hpc]; rfl) ht

/-! ## Steps -/

theorem WakeInv.fork (h : WakeInv s) (hg : Good s) : WakeInv (s.thfork t) := by
  refine h.congr rfl (Nat.le_succ _) (fun u hu hp ↦ ?_) fun _ ht ↦ ht
  have hne : u ≠ .proc s.next := by
    rintro rfl
    rcases hu with hu | ⟨d, hst, hd⟩
    · obtain ⟨n, he, hn⟩ := (hg.inv.stopped _ hu).proc
      cases he
      exact Nat.lt_irrefl _ hn
    · exact Nat.lt_irrefl _ (hg.inv.lt d s.next (hst ▸ stack_mem_hold hd))
  rw [Pending] at hp ⊢
  have he : (s.thfork t).thread u = s.thread u := Function.update_of_ne hne _ _
  rwa [he] at hp

theorem WakeInv.raise {n vect : Nat} (h : WakeInv s) (hn : n < s.next)
    (hpc : (s.cpu c).pc = .run) :
    WakeInv ((s.setThread (.proc n) { s.thread (.proc n) with
      softintrs := (s.thread (.proc n)).softintrs ||| BitVec.twoPow 32 vect }).setPc c
        (.raised (.proc n))) where
  coming t hpend hsl := by
    by_cases ht : t = .proc n
    · exact ⟨c, by rw [pc_setPc, if_pos rfl, ht]⟩
    · have hpend : Pending s t := (pending_setThread ht).1 hpend
      have hsl : t ∈ s.stopped ∨ Stopping s t := by
        refine hsl.imp id fun ⟨d, hst, hd⟩ ↦ ⟨d, ?_, ?_⟩
        · rw [stack_setPc] at hst
          exact hst
        · rw [pc_setPc] at hd
          split at hd
          · cases hd
          · exact hd
      obtain ⟨c', hc'⟩ := h.coming t hpend hsl
      refine ⟨c', ?_⟩
      rw [pc_setPc, if_neg]
      · exact hc'
      · rintro rfl
        rw [hpc] at hc'
        cases hc'
  target c' t hc' := by
    rw [pc_setPc] at hc'
    split at hc'
    · cases hc'
      exact ⟨n, rfl, hn⟩
    · exact h.target c' t hc'

/-- After a `wake` that is safe, the thread is not asleep with a signal pending. -/
theorem WakeInv.wake {s₁ : State} (h : WakeInv s) (hg : Good s) (hpc : (s.cpu c).pc = .raised t)
    (hw : s.wake t = .ok s₁) (hsafe : WakeSafe s c) : WakeInv (s₁.setPc c .run) := by
  have hcpu : s₁.cpu = s.cpu ∧ s₁.next = s.next ∧ (∀ u, Pending s₁ u ↔ Pending s u) ∧
      ∀ u ∈ s₁.stopped, u ∈ s.stopped ∧ u ≠ t := by
    rcases wake_ok hw with ⟨hst, rfl⟩ | ⟨-, hm, rfl⟩
    · refine ⟨rfl, rfl, fun _ ↦ Iff.rfl, fun u hu ↦ ⟨hu, ?_⟩⟩
      rintro rfl
      exact hst (hg.inv.stopped u hu).status
    · refine ⟨rfl, rfl, fun u ↦ pending_setStatus, fun u hu ↦ ?_⟩
      exact (hg.inv.nodup_stopped.mem_erase_iff.1 hu).symm
  obtain ⟨hc, hn, hp, hs⟩ := hcpu
  refine ⟨fun u hpend hsl ↦ ?_, fun c' u hc' ↦ ?_⟩
  · have hpend : Pending s u := (hp u).1 hpend
    have hsl' : (u ∈ s.stopped ∧ u ≠ t) ∨ Stopping s u := by
      refine hsl.imp (hs u) fun ⟨d, hst, hd⟩ ↦ ⟨d, ?_, ?_⟩
      · rw [stack_setPc, hc] at hst
        exact hst
      · rw [pc_setPc, hc] at hd
        split at hd
        · cases hd
        · exact hd
    have hut : u ≠ t := by
      rintro rfl
      rcases hsl' with ⟨-, hne⟩ | ⟨d, hst, hd⟩
      · exact hne rfl
      · have hi := (hsafe u hpc d hst hd).1
        rw [Pending, Thread.hasInterrupts, hi] at hpend
        cases hpend
    obtain ⟨c', hc'⟩ := h.coming u hpend (hsl'.imp And.left id)
    refine ⟨c', ?_⟩
    rw [pc_setPc, hc, if_neg]
    · exact hc'
    · rintro rfl
      rw [hpc] at hc'
      cases hc'
      exact hut rfl
  · rw [pc_setPc, hc] at hc'
    show ∃ n, u = .proc n ∧ n < s₁.next
    rw [hn]
    split at hc'
    · cases hc'
    · exact h.target c' u hc'

/-- A CPU elsewhere is not waking anybody. -/
theorem not_raised {p : Pc} (hpc : (s.cpu c).pc = p) (hp : ∀ t, p ≠ .raised t) (t : Tid) :
    (s.cpu c).pc ≠ .raised t := hpc ▸ hp t

theorem WakeInv.setStatus {st : Status} (h : WakeInv s) : WakeInv (s.setStatus t st) :=
  h.congr rfl (Nat.le_refl _) (fun _ _ hu ↦ pending_setStatus.1 hu) fun _ hu ↦ hu

/-- The test of `schedule(THST_STOPPED)` finds no signal pending. -/
theorem WakeInv.enter (h : WakeInv s) (hpc : (s.cpu c).pc = .run)
    (hi : ¬(newst = .stopped ∧ (s.thread (s.cpu c).stack).hasInterrupts)) :
    WakeInv (s.setPc c (.entered newst)) := by
  refine h.setPc (not_raised hpc fun t hc ↦ by cases hc) (fun t hc ↦ by cases hc)
    fun hgo ↦ .inr fun hp ↦ ?_
  exact hi ⟨Option.some.inj hgo, hp⟩

theorem WakeInv.save (h : WakeInv s) (hpc : (s.cpu c).pc = .entered newst) :
    WakeInv (s.setPc c (.saved newst)) := by
  refine h.setPc (not_raised hpc fun t hc ↦ by cases hc) (fun t hc ↦ by cases hc)
    fun hgo ↦ .inl ?_
  rw [hpc]
  exact hgo

/-- Taking a thread from `running_threads`, or the idle thread. -/
theorem WakeInv.pick {old : Tid} {pc : Pc} (h : WakeInv s) (hpc : (s.cpu c).pc = .saved newst)
    (hp : ∀ t, pc ≠ .raised t) (hgo : pc.goal = none ∨ pc.goal = (Pc.saved newst).goal) :
    WakeInv ((s.pick c old newst).2.setPc c pc) := by
  have hpick : WakeInv (s.pick c old newst).2 := by
    rw [State.pick]
    cases s.running with
    | nil => exact h
    | cons t ts =>
        exact h.congr rfl (Nat.le_refl _) (fun u _ hu ↦ pending_setStatus.1 hu) fun _ hu ↦ hu
  have hcpu : ((s.pick c old newst).2.cpu c).pc = .saved newst := by rw [(pick_cpu ..).1, hpc]
  refine hpick.setPc (not_raised hcpu fun t hc ↦ by cases hc) hp fun hst ↦ .inl ?_
  rcases hgo with hgo | hgo
  · rw [hgo] at hst
    cases hst
  · rwa [hcpu, ← hgo]

/-- The thread that joins the list was on its way there. -/
theorem WakeInv.insert {th : Tid} (h : WakeInv s) (hpc : (s.cpu c).pc = .stored newst th) :
    WakeInv (s.insert c (s.cpu c).stack newst) := by
  cases newst with
  | running => exact h
  | runnable => exact h.congr rfl (Nat.le_refl _) (fun _ _ hu ↦ hu) fun _ hu ↦ hu
  | zombie => exact h.congr rfl (Nat.le_refl _) (fun _ _ hu ↦ hu) fun _ hu ↦ hu
  | stopped =>
      refine ⟨fun t hpend hsl ↦ h.coming t hpend ?_, h.target⟩
      rcases hsl with hm | hst
      · rcases List.mem_append.1 hm with hm | hm
        · exact .inl hm
        · rw [List.mem_singleton.1 hm]
          exact .inr ⟨c, rfl, by rw [hpc]; rfl⟩
      · exact .inr hst

/-- The switch to the other stack. -/
theorem WakeInv.leave {th : Tid} (h : WakeInv s) (hpc : (s.cpu c).pc = .leaving th) :
    WakeInv { s with cpu := Function.update s.cpu c ⟨th, .run⟩ } := by
  have hcpu : ∀ d, d ≠ c → Function.update s.cpu c ⟨th, .run⟩ d = s.cpu d :=
    fun d hd ↦ Function.update_of_ne hd _ _
  have hself : Function.update s.cpu c ⟨th, .run⟩ c = ⟨th, .run⟩ := Function.update_self _ _ _
  refine ⟨fun t hpend hsl ↦ ?_, fun c' t hc' ↦ ?_⟩
  · have hsl' : t ∈ s.stopped ∨ Stopping s t := by
      refine hsl.imp id ?_
      rintro ⟨d, hst, hd⟩
      have hst : (Function.update s.cpu c ⟨th, .run⟩ d).stack = t := hst
      have hd : (Function.update s.cpu c ⟨th, .run⟩ d).pc.goal = some .stopped := hd
      by_cases hdc : d = c
      · rw [hdc, hself] at hd
        cases hd
      · rw [hcpu d hdc] at hst hd
        exact ⟨d, hst, hd⟩
    obtain ⟨c', hc'⟩ := h.coming t hpend hsl'
    refine ⟨c', ?_⟩
    show (Function.update s.cpu c ⟨th, .run⟩ c').pc = _
    rw [hcpu]
    · exact hc'
    · rintro rfl
      rw [hpc] at hc'
      cases hc'
  · have hc' : (Function.update s.cpu c ⟨th, .run⟩ c').pc = .raised t := hc'
    by_cases hcc : c' = c
    · rw [hcc, hself] at hc'
      cases hc'
    · rw [hcpu c' hcc] at hc'
      exact h.target c' t hc'

/-- A step in which no thread is waked on its way to sleep. -/
theorem step_wake {a : Nat × Act} (hg : Good s) (h : WakeInv s) (hs : WakeStep s a s') :
    WakeInv s' := by
  obtain ⟨⟨hal, hst⟩, hsafe⟩ := hs
  obtain ⟨c, a⟩ := a
  have hd := does_of_exec hst
  cases a with
  | intr b =>
      obtain ⟨hpc, rfl⟩ := hd
      exact h.setThread hg hpc
  | deliver =>
      obtain ⟨hpc, rfl | rfl⟩ := hd
      · exact h
      · exact h.setThread hg hpc
  | fork =>
      obtain ⟨-, rfl⟩ := hd
      exact h.fork hg
  | raise n vect =>
      obtain ⟨hpc, rfl⟩ := hd
      exact h.raise hal.1 hpc
  | wake =>
      obtain ⟨t, s₁, hpc, hw, rfl⟩ := hd
      exact h.wake hg hpc hw (hsafe rfl)
  | enter newst =>
      obtain ⟨hpc, rfl | ⟨-, hi, rfl⟩⟩ := hd
      · exact h
      · exact h.enter hpc hi
  | save =>
      obtain ⟨newst, hpc, rfl⟩ := hd
      exact h.save hpc
  | pick =>
      obtain ⟨newst, hpc, rfl⟩ := hd
      refine h.pick hpc (fun t hr ↦ ?_) ?_
      · split at hr <;> cases hr
      · split
        · exact .inl rfl
        · exact .inr rfl
  | store =>
      obtain ⟨newst, th, hpc, rfl⟩ := hd
      have hr : ∀ t, (s.cpu c).pc ≠ .raised t := not_raised hpc fun t hc ↦ by cases hc
      split
      · exact h.setPc hr (fun t hc ↦ by cases hc) fun hgo ↦ by cases hgo
      · refine h.setStatus.setPc hr (fun t hc ↦ by cases hc) fun hgo ↦ .inl ?_
        show (s.cpu c).pc.goal = _
        rw [hpc]
        exact hgo
  | insert =>
      obtain ⟨newst, th, hpc, rfl⟩ := hd
      have hcpu : ((s.insert c (s.cpu c).stack newst).cpu c).pc = .stored newst th := by
        rw [(insert_cpu ..).1, hpc]
      exact (h.insert hpc).setPc (not_raised hcpu fun t hc ↦ by cases hc) (fun t hc ↦ by cases hc)
        fun hgo ↦ by cases hgo
  | leave =>
      obtain ⟨th, hpc, rfl⟩ := hd
      exact h.leave hpc

theorem wakeInv_boot : WakeInv boot where
  coming t _ hs := by
    rcases hs with hm | ⟨d, -, hd⟩
    · exact absurd hm List.not_mem_nil
    · exact absurd hd (Option.some_ne_none _).symm
  target c t hc := Pc.noConfusion hc

/-- A thread with no step sequence in progress does not sleep with a signal pending, and
`wake` takes threads off `stopped_threads` that are on it. -/
structure WakeOk (s : State) : Prop where
  awake : ∀ t, Quiet s t → t ∈ s.stopped → ¬Pending s t
  linked : ∀ c, WakeSafe s c → s.exec c .wake ≠ .error .unlinked

/-- What `wake` finds when it takes a thread off a list that it is not on. -/
theorem unlinked_of_exec (h : s.exec c .wake = .error .unlinked) :
    ∃ t, (s.cpu c).pc = .raised t ∧ (s.thread t).status = .stopped ∧ t ∉ s.stopped := by
  cases hpc : (s.cpu c).pc with
  | raised t =>
      refine ⟨t, rfl, ?_⟩
      simp only [State.exec, hpc, State.wake] at h
      split at h
      · next hst =>
          split at h
          · cases h
          · next hm => exact ⟨hst, hm⟩
      · cases h
  | _ =>
      simp only [State.exec, hpc] at h
      cases h

/-- In a run in which no thread is waked on its way to sleep, no wake-up is lost. -/
theorem wakeups_ok (h : Run WakeStep boot as s) : WakeOk s := by
  have hI : Good s ∧ WakeInv s :=
    h.invariant (I := fun s ↦ Good s ∧ WakeInv s)
      (fun _ _ _ hI hs ↦ ⟨step_good hI.1 hs.1, step_wake hI.1 hI.2 hs⟩)
      ⟨good_boot, wakeInv_boot⟩
  refine ⟨fun t hq hm hp ↦ hq.2 (hI.2.coming t hp (.inl hm)), fun c hsafe he ↦ ?_⟩
  obtain ⟨t, hpc, hst, hm⟩ := unlinked_of_exec he
  -- a thread that has the status without being on the list is on its way there
  obtain ⟨n, rfl, hn⟩ := hI.2.target c t hpc
  rcases hI.1.inv.lost n hn hst with hm' | ⟨d, hd⟩
  · exact hm hm'
  · have hmid : (s.cpu d).mid = some (.proc n, .stopped) := hd
    obtain ⟨hstack, hgo⟩ : (s.cpu d).stack = .proc n ∧ (s.cpu d).pc.goal = some .stopped := by
      rw [Cpu.mid] at hmid
      cases hdpc : (s.cpu d).pc with
      | stored newst th =>
          rw [hdpc] at hmid
          obtain ⟨h₁, h₂⟩ := Prod.mk.inj (Option.some.inj hmid)
          exact ⟨h₁, congrArg some h₂⟩
      | _ =>
          rw [hdpc] at hmid
          cases hmid
    rw [(hsafe _ hpc d hstack hgo).2] at hmid
    cases hmid

/-- `init` goes to sleep on CPU 0, and CPU 1 raises a signal for it before and after. -/
theorem wakeups_ok_init : ∃ s, Run WakeStep boot
    [(0, .intr true), (1, .raise 0 3), (1, .wake), (0, .deliver), (0, .intr true),
      (0, .enter .stopped), (0, .save), (0, .pick), (0, .store), (0, .insert), (1, .raise 0 3),
      (1, .wake)] s ∧ s.running = [.proc 0] ∧ WakeOk s := by
  have hn : ∀ (s : State) (c : Nat) (a : Act), a ≠ .wake → a = .wake → WakeSafe s c :=
    fun _ _ _ hne ha ↦ absurd ha hne
  have h : Run WakeStep boot
      [(0, .intr true), (1, .raise 0 3), (1, .wake), (0, .deliver), (0, .intr true),
        (0, .enter .stopped), (0, .save), (0, .pick), (0, .store), (0, .insert), (1, .raise 0 3),
        (1, .wake)] _ :=
    .cons ⟨⟨trivial, rfl⟩, hn _ _ _ (by decide)⟩
      (.cons ⟨⟨⟨Nat.one_pos, by decide⟩, rfl⟩, hn _ _ _ (by decide)⟩
      (.cons ⟨⟨trivial, rfl⟩, by
        rintro - t ⟨⟩ (_ | _ | d) hst hgo
        · cases hgo
        · cases hst
        · cases hst⟩
      (.cons ⟨⟨trivial, rfl⟩, hn _ _ _ (by decide)⟩ (.cons ⟨⟨trivial, rfl⟩, hn _ _ _ (by decide)⟩
      (.cons ⟨⟨trivial, rfl⟩, hn _ _ _ (by decide)⟩ (.cons ⟨⟨trivial, rfl⟩, hn _ _ _ (by decide)⟩
      (.cons ⟨⟨trivial, rfl⟩, hn _ _ _ (by decide)⟩ (.cons ⟨⟨trivial, rfl⟩, hn _ _ _ (by decide)⟩
      (.cons ⟨⟨trivial, rfl⟩, hn _ _ _ (by decide)⟩
      (.cons ⟨⟨⟨Nat.one_pos, by decide⟩, rfl⟩, hn _ _ _ (by decide)⟩
      (.cons ⟨⟨trivial, rfl⟩, by
        rintro - t ⟨⟩ (_ | _ | d) hst hgo
        · cases hgo
        · cases hst
        · cases hst⟩ (.nil _))))))))))))
  exact ⟨_, h, rfl, wakeups_ok h⟩

/-- CPU 1 wakes `init` while CPU 0 is between the test for signals and the store of the
status: `init` sleeps with the signal pending.  And between the store and the insertion,
`init` is not on the list that it is to be taken off. -/
theorem wakeup_lost :
    (∃ s, Run Step boot
      [(0, .intr true), (0, .enter .stopped), (1, .raise 0 3), (1, .wake), (0, .save),
        (0, .pick), (0, .store), (0, .insert), (0, .leave)] s ∧
      s.stopped = [.proc 0] ∧ Quiet s (.proc 0) ∧ ¬WakeOk s) ∧
    ∃ s, Run Step boot
      [(0, .intr true), (0, .enter .stopped), (0, .save), (0, .pick), (0, .store),
        (1, .raise 0 3)] s ∧ s.exec 1 .wake = .error .unlinked := by
  constructor
  · have h : Run Step boot
        [(0, .intr true), (0, .enter .stopped), (1, .raise 0 3), (1, .wake), (0, .save),
          (0, .pick), (0, .store), (0, .insert), (0, .leave)] _ :=
      .cons ⟨trivial, rfl⟩ (.cons ⟨trivial, rfl⟩ (.cons ⟨⟨Nat.one_pos, by decide⟩, rfl⟩
        (.cons ⟨trivial, rfl⟩ (.cons ⟨trivial, rfl⟩ (.cons ⟨trivial, rfl⟩ (.cons ⟨trivial, rfl⟩
          (.cons ⟨trivial, rfl⟩ (.cons ⟨trivial, rfl⟩ (.nil _)))))))))
    obtain ⟨s, hs, hst, hq, hp⟩ : ∃ s, Run Step boot
        [(0, .intr true), (0, .enter .stopped), (1, .raise 0 3), (1, .wake), (0, .save),
          (0, .pick), (0, .store), (0, .insert), (0, .leave)] s ∧
        s.stopped = [.proc 0] ∧ Quiet s (.proc 0) ∧ Pending s (.proc 0) := by
      refine ⟨_, h, rfl, ⟨?_, ?_⟩, rfl⟩
      · rintro (_ | _ | d) hst
        · rfl
        · rfl
        · rfl
      · rintro ⟨_ | _ | d, hc⟩
        · cases hc
        · cases hc
        · cases hc
    refine ⟨s, hs, hst, hq, fun hok ↦ hok.awake (.proc 0) hq ?_ hp⟩
    rw [hst]
    exact List.mem_singleton_self _
  · have h : Run Step boot
        [(0, .intr true), (0, .enter .stopped), (0, .save), (0, .pick), (0, .store),
          (1, .raise 0 3)] _ :=
      .cons ⟨trivial, rfl⟩ (.cons ⟨trivial, rfl⟩ (.cons ⟨trivial, rfl⟩ (.cons ⟨trivial, rfl⟩
        (.cons ⟨trivial, rfl⟩ (.cons ⟨⟨Nat.one_pos, by decide⟩, rfl⟩ (.nil _))))))
    exact ⟨_, h, rfl⟩

end Mh.Smp
