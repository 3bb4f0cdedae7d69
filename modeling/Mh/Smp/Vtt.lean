import Mh.Smp.IdleMap

/-!
# Virtual time

`schedule` keeps the virtual time of a thread in two variables: `vtt_offset`, written when the
thread is left, and `vtt_rttbase`, written when it is switched to.  The system is that of `Mh.Smp`
from the boot on, with these two writes as steps of their own between the selection of the next
thread and the store of the status of the old one; any CPU may read the counter at any time.

`ran` and `since` are kept for the statements: the intervals in which a thread has run, and since
when it runs.  `thvtt` is the sum of these (`thvtt_run_time`), and the sum changes only as the
counter goes on while the thread runs.
-/

namespace Mh.Smp

open Mh.Lib
open Mh.Sched (Status)

/-! ## The machine with the clocks -/

/-- How far a CPU is in its switch: the virtual time of the old thread passes, it has been stopped,
or that of the new thread passes. -/
inductive Phase
  | old
  | stopped
  | new
deriving DecidableEq, Repr

/-- The machine, the counter, and `vtt_offset` and `vtt_rttbase` of the threads. -/
structure Timed where
  smp : State
  counter : Nat
  phase : Nat → Phase
  vttOffset : Tid → Nat
  vttRttbase : Tid → Nat
  since : Tid → Option Nat
  ran : Tid → List (Nat × Nat)

/-- The steps: one of the scheduler, the two of a switch, and the counter goes on. -/
inductive TimedAct
  | step (c : Nat) (a : Act)
  | offset (c : Nat)
  | rttbase (c : Nat)
  | tick (counter : Nat)
deriving DecidableEq, Repr

namespace Timed

variable (s : Timed)

/-- `thvtt`. -/
def thvtt (t : Tid) : Nat :=
  (s.counter + (2 ^ 64 - s.vttRttbase t) + s.vttOffset t) % 2 ^ 64

/-- `oldth->vtt_offset = thvtt(oldth)`. -/
def switchOut (c : Nat) (t : Tid) : Timed :=
  { s with
    phase := Function.update s.phase c .stopped
    vttOffset := Function.update s.vttOffset t (s.thvtt t)
    since := Function.update s.since t none
    ran := match s.since t with
      | none => s.ran
      | some k => Function.update s.ran t ((k, s.counter) :: s.ran t) }

/-- `th->vtt_rttbase = timer_readcounter()`. -/
def switchIn (c : Nat) (t : Tid) : Timed :=
  { s with
    phase := Function.update s.phase c .new
    vttRttbase := Function.update s.vttRttbase t s.counter
    since := Function.update s.since t (some s.counter) }

/-- A step of the scheduler: `thfork` clears the variables of the new thread, and the store of the
status comes after the switch. -/
def scheduled (c : Nat) (a : Act) (smp : State) : Timed :=
  match a with
  | .fork => { s with
      smp
      vttOffset := Function.update s.vttOffset (.proc s.smp.next) 0
      vttRttbase := Function.update s.vttRttbase (.proc s.smp.next) 0 }
  | .store => { s with smp, phase := Function.update s.phase c .old }
  | _ => { s with smp }

/-- One step. -/
def exec : TimedAct → Except Fault Timed
  | .step c a =>
      if a = .store ∧ s.phase c ≠ .new then .error .disabled
      else (s.smp.exec c a).map (s.scheduled c a)
  | .offset c =>
      match (s.smp.cpu c).pc, s.phase c with
      | .picked _ _, .old => .ok (s.switchOut c (s.smp.cpu c).stack)
      | _, _ => .error .disabled
  | .rttbase c =>
      match (s.smp.cpu c).pc, s.phase c with
      | .picked _ th, .stopped => .ok (s.switchIn c th)
      | _, _ => .error .disabled
  | .tick counter => .ok { s with counter }

/-- The thread that runs on a CPU: between the two writes of a switch there is none. -/
def runs (c : Nat) : Option Tid :=
  match s.phase c, (s.smp.cpu c).pc with
  | .new, .picked _ th => some th
  | .stopped, _ => none
  | _, _ => some (s.smp.cpu c).current

/-- The time that a thread has run: the intervals that are over, and the one that is not. -/
def runTime (t : Tid) : Nat :=
  ((s.ran t).map fun i ↦ i.2 - i.1).sum + (s.since t).elim 0 (s.counter - ·)

end Timed

/-- The counter does not go back, and does not reach 2 ^ 64. -/
def TimedAllowed (s : Timed) : TimedAct → Prop
  | .step c a => Allowed s.smp c a
  | .tick counter => s.counter ≤ counter ∧ counter < 2 ^ 64
  | _ => True

/-- A step. -/
def TimedStep (s : Timed) (a : TimedAct) (s' : Timed) : Prop :=
  TimedAllowed s a ∧ s.exec a = .ok s'

/-- `kern_boot` and `kern_bootap` are done, and the counter is at `counter`. -/
def timedBoot (counter : Nat) : Timed where
  smp := kernBoot.smp
  counter := counter
  phase _ := .old
  vttOffset _ := 0
  vttRttbase _ := 0
  since _ := none
  ran _ := []

/-- Virtual time is run time: a thread that runs reads the time that it has run, it runs on one CPU,
since when is known, and a thread that has not been forked has not run. -/
structure VttOk (s : Timed) : Prop where
  reads : ∀ c n, s.runs c = some (.proc n) → s.thvtt (.proc n) = s.runTime (.proc n)
  one : ∀ c d n, s.runs c = some (.proc n) → s.runs d = some (.proc n) → c = d
  since : ∀ n, s.since (.proc n) ≠ none ↔ ∃ c, s.runs c = some (.proc n)
  unborn : ∀ n, s.smp.next ≤ n → s.runTime (.proc n) = 0

/-- From `s` to `t` a thread gets the time that passes while it runs, and none while it does not. -/
def Advances (s t : Timed) : Prop :=
  ∀ n, ((∀ c, s.runs c ≠ some (.proc n)) → t.runTime (.proc n) = s.runTime (.proc n)) ∧
    ∀ c, s.runs c = some (.proc n) →
      t.runTime (.proc n) = s.runTime (.proc n) + (t.counter - s.counter)

/-! ## What a step of the scheduler leaves alone -/

section Exec

variable {s s' : State} {c d : Nat} {a : Act}

/-- The other CPUs stay where they are, and a thread that has been forked stays so. -/
theorem exec_frame (h : s.exec c a = .ok s') :
    (∀ d, d ≠ c → s'.cpu d = s.cpu d) ∧ s.next ≤ s'.next := by
  have hdo := does_of_exec h
  cases a with
  | intr b =>
      obtain ⟨_, rfl⟩ := hdo
      exact ⟨fun _ _ ↦ rfl, Nat.le_refl _⟩
  | deliver =>
      rcases hdo with ⟨_, rfl | rfl⟩
      · exact ⟨fun _ _ ↦ rfl, Nat.le_refl _⟩
      · exact ⟨fun _ _ ↦ rfl, Nat.le_refl _⟩
  | fork =>
      obtain ⟨_, rfl⟩ := hdo
      exact ⟨fun _ _ ↦ rfl, Nat.le_succ _⟩
  | raise n vect =>
      obtain ⟨_, rfl⟩ := hdo
      exact ⟨fun _ hd ↦ setPc_cpu_of_ne _ _ hd, Nat.le_refl _⟩
  | wake =>
      obtain ⟨t, s₁, _, hw, rfl⟩ := hdo
      obtain ⟨hcpu, hnext⟩ := wake_cpu hw
      refine ⟨fun d hd ↦ ?_, hnext ▸ Nat.le_refl _⟩
      rw [setPc_cpu_of_ne _ _ hd, hcpu]
  | enter newst =>
      rcases hdo with ⟨_, rfl | ⟨_, _, rfl⟩⟩
      · exact ⟨fun _ _ ↦ rfl, Nat.le_refl _⟩
      · exact ⟨fun _ hd ↦ setPc_cpu_of_ne _ _ hd, Nat.le_refl _⟩
  | save =>
      obtain ⟨newst, _, rfl⟩ := hdo
      exact ⟨fun _ hd ↦ setPc_cpu_of_ne _ _ hd, Nat.le_refl _⟩
  | pick =>
      obtain ⟨newst, _, rfl⟩ := hdo
      obtain ⟨hcpu, hnext⟩ := pick_cpu s c (s.cpu c).stack newst
      refine ⟨fun d hd ↦ ?_, hnext ▸ Nat.le_refl _⟩
      rw [setPc_cpu_of_ne _ _ hd, hcpu]
  | store =>
      obtain ⟨newst, th, _, rfl⟩ := hdo
      split
      · exact ⟨fun _ hd ↦ setPc_cpu_of_ne _ _ hd, Nat.le_refl _⟩
      · exact ⟨fun _ hd ↦ setPc_cpu_of_ne _ _ hd, Nat.le_refl _⟩
  | insert =>
      obtain ⟨newst, th, _, rfl⟩ := hdo
      obtain ⟨hcpu, hnext⟩ := insert_cpu s c (s.cpu c).stack newst
      refine ⟨fun d hd ↦ ?_, hnext ▸ Nat.le_refl _⟩
      rw [setPc_cpu_of_ne _ _ hd, hcpu]
  | leave =>
      obtain ⟨th, _, rfl⟩ := hdo
      exact ⟨fun _ hd ↦ Function.update_of_ne hd .., Nat.le_refl _⟩

/-- Once the next thread has been selected, the status of the old one is stored. -/
theorem eq_store_of_picked {newst : Mh.Sched.Status} {th : Tid} (h : s.exec c a = .ok s')
    (hpc : (s.cpu c).pc = .picked newst th) : a = .store := by
  have hdo := does_of_exec h
  cases a with
  | store => rfl
  | intr b | deliver | fork | raise n vect | enter newst =>
      have hrun := hdo.1
      rw [hpc] at hrun
      cases hrun
  | wake =>
      obtain ⟨t, s₁, hrun, _⟩ := hdo
      rw [hpc] at hrun
      cases hrun
  | save | pick =>
      obtain ⟨newst, hrun, _⟩ := hdo
      rw [hpc] at hrun
      cases hrun
  | insert =>
      obtain ⟨newst, th, hrun, _⟩ := hdo
      rw [hpc] at hrun
      cases hrun
  | leave =>
      obtain ⟨th, hrun, _⟩ := hdo
      rw [hpc] at hrun
      cases hrun

/-- A CPU has the thread that it runs. -/
theorem Cpu.current_mem_hold (k : Cpu) : k.current ∈ k.hold := by
  rw [Cpu.current, Cpu.hold]
  cases k.pc with
  | stored newst th => exact List.mem_cons_of_mem _ (List.mem_singleton_self th)
  | picked newst th => exact List.mem_cons_self
  | leaving th => exact List.mem_singleton_self th
  | run | raised t | entered newst | saved newst => exact List.mem_singleton_self _

end Exec

/-! ## The boot -/

theorem mem_hold_kernBoot {c : Nat} {t : Tid} :
    t ∈ kernBoot.smp.view.hold c ↔ t = .idle c :=
  List.mem_singleton

/-- `init` waits in the queue, and the idle threads run. -/
theorem good_kernBoot : Good kernBoot.smp where
  inv := {
    excl := fun c c' t h h' ↦ by
      rw [mem_hold_kernBoot] at h h'
      rw [h] at h'
      exact Tid.idle.inj h'
    idle := fun c d h ↦ Tid.idle.inj (mem_hold_kernBoot.1 h)
    nodup := fun c ↦ List.nodup_singleton _
    lt := fun c n h ↦ nomatch mem_hold_kernBoot.1 h
    idleStatus := fun d ↦ rfl
    onCpu := fun c t h _ ↦ by
      rw [mem_hold_kernBoot.1 h]
      rfl
    mid := fun c t st h ↦ absurd h (Option.some_ne_none _).symm
    running := fun t ht ↦ by
      rw [List.mem_singleton.1 ht]
      exact ⟨rfl, ⟨0, rfl, Nat.one_pos⟩, fun c h ↦ nomatch mem_hold_kernBoot.1 h⟩
    stopped := fun t ht ↦ absurd ht List.not_mem_nil
    lost := fun n hn h ↦ by
      obtain rfl := Nat.lt_one_iff.1 hn
      cases h
    nodup_running := List.nodup_singleton _
    nodup_stopped := List.nodup_nil }
  goal _ := nofun

/-! ## The invariant -/

namespace Timed

variable {s s' : Timed} {c d n : Nat} {a : Act} {t : Tid}

/-- The sum over the intervals that are over. -/
def total (s : Timed) (t : Tid) : Nat := ((s.ran t).map fun i ↦ i.2 - i.1).sum

theorem runTime_of_none (h : s.since t = none) : s.runTime t = s.total t := by
  rw [runTime, h]
  rfl

theorem runTime_of_some {k : Nat} (h : s.since t = some k) :
    s.runTime t = s.total t + (s.counter - k) := by
  rw [runTime, h]
  rfl

/-- A CPU has the thread that runs on it. -/
theorem mem_hold_of_runs (h : s.runs c = some t) : t ∈ (s.smp.cpu c).hold := by
  rw [runs] at h
  split at h
  next hpc =>
    cases h
    rw [Cpu.hold, hpc]
    exact List.mem_cons_of_mem _ (List.mem_singleton_self t)
  · cases h
  · cases h
    exact Cpu.current_mem_hold _

/-- What holds in every run: the two writes of a switch come after the selection of the next thread,
`since` is that of the threads that run, and for these `vtt_rttbase` is when they were switched to;
`vtt_offset` is the sum over the intervals that are over. -/
structure Inv (s : Timed) : Prop where
  good : Good s.smp
  counter : s.counter < 2 ^ 64
  picked : ∀ c, s.phase c ≠ .old → ∃ newst th, (s.smp.cpu c).pc = .picked newst th
  since : ∀ n, s.since (.proc n) ≠ none ↔ ∃ c, s.runs c = some (.proc n)
  base : ∀ n k, s.since (.proc n) = some k →
    s.vttRttbase (.proc n) = k ∧ s.total (.proc n) ≤ k ∧ k ≤ s.counter
  offset : ∀ n, s.vttOffset (.proc n) = s.total (.proc n)
  le : ∀ n, s.total (.proc n) ≤ s.counter
  unborn : ∀ n, s.smp.next ≤ n → s.ran (.proc n) = []

/-- A thread runs on one CPU. -/
theorem Inv.one (h : s.Inv) (hc : s.runs c = some t) (hd : s.runs d = some t) : c = d :=
  h.good.inv.excl c d t (mem_hold_of_runs hc) (mem_hold_of_runs hd)

/-- A thread that runs has been forked. -/
theorem Inv.lt (h : s.Inv) (hc : s.runs c = some (.proc n)) : n < s.smp.next :=
  h.good.inv.lt c n (mem_hold_of_runs hc)

theorem Inv.since_eq_none (h : s.Inv) (hn : ∀ c, s.runs c ≠ some (.proc n)) :
    s.since (.proc n) = none := by
  by_contra hs
  obtain ⟨c, hc⟩ := (h.since n).1 hs
  exact hn c hc

theorem Inv.exists_since (h : s.Inv) (hc : s.runs c = some (.proc n)) :
    ∃ k, s.since (.proc n) = some k :=
  Option.ne_none_iff_exists'.1 ((h.since n).2 ⟨c, hc⟩)

/-- A thread that runs reads the time that it has run. -/
theorem Inv.thvtt_eq (h : s.Inv) (hc : s.runs c = some (.proc n)) :
    s.thvtt (.proc n) = s.runTime (.proc n) := by
  obtain ⟨k, hk⟩ := h.exists_since hc
  obtain ⟨hbase, htotal, hle⟩ := h.base n k hk
  have hlt := h.counter
  rw [thvtt, hbase, h.offset n, runTime_of_some hk]
  have hsub : s.counter + (2 ^ 64 - k) + s.total (.proc n) =
      s.total (.proc n) + (s.counter - k) + 2 ^ 64 := by omega
  rw [hsub, Nat.add_mod_right]
  exact Nat.mod_eq_of_lt (by omega)

theorem Inv.vttOk (h : s.Inv) : VttOk s where
  reads _ _ hc := h.thvtt_eq hc
  one _ _ _ hc hd := h.one hc hd
  since n := h.since n
  unborn n hn := by
    have hno : ∀ c, s.runs c ≠ some (.proc n) := fun c hc ↦ Nat.not_lt.2 hn (h.lt hc)
    rw [runTime_of_none (h.since_eq_none hno), total, h.unborn n hn]
    rfl

theorem inv_timedBoot {counter : Nat} (h : counter < 2 ^ 64) : (timedBoot counter).Inv where
  good := good_kernBoot
  counter := h
  picked _ hc := absurd rfl hc
  since n := by
    constructor
    · exact fun hn ↦ absurd rfl hn
    · rintro ⟨c, hc⟩
      cases hc
  base _ _ hk := nomatch hk
  offset _ := rfl
  le _ := Nat.zero_le _
  unborn _ _ := rfl

/-! ## Steps -/

/-- A step of the scheduler is that of the machine, and the store comes when the virtual time of the
new thread passes. -/
theorem exec_step {a : Act} (h : s.exec (.step c a) = .ok s') :
    (a = .store → s.phase c = .new) ∧
      ∃ smp, s.smp.exec c a = .ok smp ∧ s' = s.scheduled c a smp := by
  rw [exec] at h
  split at h
  · cases h
  next hno =>
    cases hsmp : s.smp.exec c a with
    | error e =>
        rw [hsmp] at h
        cases h
    | ok smp =>
        rw [hsmp] at h
        cases h
        refine ⟨fun ha ↦ ?_, smp, rfl, rfl⟩
        by_contra hph
        exact hno ⟨ha, hph⟩

theorem exec_offset (h : s.exec (.offset c) = .ok s') :
    s.phase c = .old ∧ (∃ newst th, (s.smp.cpu c).pc = .picked newst th) ∧
      s' = s.switchOut c (s.smp.cpu c).stack := by
  simp only [exec] at h
  split at h
  next newst th hpc hph =>
    cases h
    exact ⟨hph, ⟨newst, th, hpc⟩, rfl⟩
  · cases h

theorem exec_rttbase (h : s.exec (.rttbase c) = .ok s') :
    s.phase c = .stopped ∧ ∃ newst th, (s.smp.cpu c).pc = .picked newst th ∧
      s' = s.switchIn c th := by
  simp only [exec] at h
  split at h
  next newst th hpc hph =>
    cases h
    exact ⟨hph, newst, th, hpc, rfl⟩
  · cases h

/-- The thread of a CPU that is not in a switch. -/
theorem runs_old (h : s.phase c = .old) : s.runs c = some (s.smp.cpu c).current := by
  rw [runs, h]

theorem runs_stopped (h : s.phase c = .stopped) : s.runs c = none := by
  rw [runs, h]

theorem runs_new {newst : Status} {th : Tid} (h : s.phase c = .new)
    (hpc : (s.smp.cpu c).pc = .picked newst th) : s.runs c = some th := by
  rw [runs, h, hpc]

/-- What runs on a CPU depends on that CPU. -/
theorem runs_congr (hph : s'.phase c = s.phase c) (hcpu : s'.smp.cpu c = s.smp.cpu c) :
    s'.runs c = s.runs c := by
  rw [runs, runs, hph, hcpu]

/-- A step of the scheduler changes `smp`, and the rest of the state by the act. -/
theorem scheduled_smp {a : Act} (smp : State) : (s.scheduled c a smp).smp = smp := by
  cases a with
  | fork | store | intr b | deliver | raise n vect | wake | enter newst | save | pick | insert
  | leave => rfl

theorem scheduled_ghost {a : Act} (smp : State) :
    (s.scheduled c a smp).counter = s.counter ∧ (s.scheduled c a smp).since = s.since ∧
      (s.scheduled c a smp).ran = s.ran := by
  cases a with
  | fork | store | intr b | deliver | raise n vect | wake | enter newst | save | pick | insert
  | leave => exact ⟨rfl, rfl, rfl⟩

/-- A step of the scheduler ends the switch when it is the store. -/
theorem scheduled_phase {a : Act} (smp : State) (d : Nat) :
    (s.scheduled c a smp).phase d = if a = .store ∧ d = c then .old else s.phase d := by
  cases a with
  | store =>
      by_cases hd : d = c
      · rw [if_pos ⟨rfl, hd⟩, hd]
        exact Function.update_self ..
      · rw [if_neg fun h ↦ hd h.2]
        exact Function.update_of_ne hd ..
  | fork | intr b | deliver | raise n vect | wake | enter newst | save | pick | insert | leave =>
      rw [if_neg fun h ↦ nomatch h.1]
      rfl

/-- `thfork` clears what is zero already. -/
theorem scheduled_vttOffset {a : Act} (smp : State) (h : s.vttOffset (.proc s.smp.next) = 0) :
    (s.scheduled c a smp).vttOffset = s.vttOffset := by
  cases a with
  | fork =>
      rw [scheduled, ← h]
      exact Function.update_eq_self ..
  | store | intr b | deliver | raise n vect | wake | enter newst | save | pick | insert | leave =>
      rfl

/-- A step of the scheduler does not change when a thread was switched to. -/
theorem scheduled_vttRttbase {a : Act} (smp : State) (ht : t ≠ .proc s.smp.next) :
    (s.scheduled c a smp).vttRttbase t = s.vttRttbase t := by
  cases a with
  | fork => exact Function.update_of_ne ht ..
  | store | intr b | deliver | raise n vect | wake | enter newst | save | pick | insert | leave =>
      rfl

/-- A step of the scheduler does not change which threads run. -/
theorem Inv.runs_scheduled {a : Act} {smp : State} (h : s.Inv)
    (hst : a = .store → s.phase c = .new) (hex : s.smp.exec c a = .ok smp) (d : Nat) :
    (s.scheduled c a smp).runs d = s.runs d := by
  have hph := scheduled_phase (s := s) (c := c) (a := a) smp d
  by_cases hd : d = c
  · subst hd
    have hcur := current_exec hex d
    rw [if_pos rfl] at hcur
    by_cases ha : a = .store
    · obtain ⟨newst, th, hpc⟩ := h.picked d (by rw [hst ha]; exact nofun)
      rw [if_pos ⟨ha, rfl⟩] at hph
      rw [runs_old hph, runs_new (hst ha) hpc, scheduled_smp, hcur, ha]
      simp only [State.switchTo, hpc, Option.getD_some]
    · rw [if_neg fun hno ↦ ha hno.1] at hph
      have hold : s.phase d = .old := by
        by_contra hno
        obtain ⟨newst, th, hpc⟩ := h.picked d hno
        exact ha (eq_store_of_picked hex hpc)
      have hsw : s.smp.switchTo d a = none := by
        cases a with
        | store => exact absurd rfl ha
        | fork | intr b | deliver | raise n vect | wake | enter newst | save | pick | insert
        | leave => rfl
      rw [runs_old (hph.trans hold), runs_old hold, scheduled_smp, hcur, hsw, Option.getD_none]
  · rw [if_neg fun hno ↦ hd hno.2] at hph
    refine runs_congr hph ?_
    rw [scheduled_smp]
    exact (exec_frame hex).1 d hd

theorem Inv.scheduled {a : Act} {smp : State} (h : s.Inv) (hst : a = .store → s.phase c = .new)
    (hal : Allowed s.smp c a) (hex : s.smp.exec c a = .ok smp) : (s.scheduled c a smp).Inv := by
  obtain ⟨hcounter, hsince, hran⟩ := scheduled_ghost (s := s) (c := c) (a := a) smp
  have hruns := h.runs_scheduled hst hex
  obtain ⟨hcpu, hnext⟩ := exec_frame hex
  have htotal : ∀ t, (s.scheduled c a smp).total t = s.total t := by
    intro t
    rw [total, total, hran]
  have hzero : s.vttOffset (.proc s.smp.next) = 0 := by
    rw [h.offset, total, h.unborn _ (Nat.le_refl _)]
    rfl
  refine ⟨?_, ?_, fun d hd ↦ ?_, fun n ↦ ?_, fun n k hk ↦ ?_, fun n ↦ ?_, fun n ↦ ?_,
    fun n hn ↦ ?_⟩
  · rw [scheduled_smp]
    exact step_good (a := (c, a)) h.good ⟨hal, hex⟩
  · rw [hcounter]
    exact h.counter
  · rw [scheduled_phase] at hd
    rw [scheduled_smp]
    by_cases hac : a = .store ∧ d = c
    · rw [if_pos hac] at hd
      exact absurd rfl hd
    · rw [if_neg hac] at hd
      obtain ⟨newst, th, hpc⟩ := h.picked d hd
      have hdc : d ≠ c := by
        rintro rfl
        exact hac ⟨eq_store_of_picked hex hpc, rfl⟩
      exact ⟨newst, th, (congrArg Cpu.pc (hcpu d hdc)).trans hpc⟩
  · rw [hsince, h.since n]
    exact exists_congr fun d ↦ by rw [hruns d]
  · rw [hsince] at hk
    obtain ⟨d, hd⟩ := (h.since n).1 (Option.ne_none_iff_exists'.2 ⟨k, hk⟩)
    have hne : Tid.proc n ≠ .proc s.smp.next := by
      intro heq
      exact Nat.lt_irrefl _ (Tid.proc.inj heq ▸ h.lt hd)
    rw [scheduled_vttRttbase smp hne, htotal, hcounter]
    exact h.base n k hk
  · rw [scheduled_vttOffset smp hzero, htotal]
    exact h.offset n
  · rw [htotal, hcounter]
    exact h.le n
  · rw [scheduled_smp] at hn
    rw [hran]
    exact h.unborn n (Nat.le_trans hnext hn)

/-- The time that passes is that of the threads that run before the step. -/
theorem Inv.advances (h : s.Inv)
    (hidle : ∀ n, s.since (.proc n) = none → s'.runTime (.proc n) = s.total (.proc n))
    (hrun : ∀ n k, s.since (.proc n) = some k →
      s'.runTime (.proc n) = s.total (.proc n) + (s.counter - k) + (s'.counter - s.counter)) :
    Advances s s' := by
  intro n
  constructor
  · intro hno
    have hn := h.since_eq_none hno
    rw [runTime_of_none hn]
    exact hidle n hn
  · intro c hc
    obtain ⟨k, hk⟩ := h.exists_since hc
    rw [runTime_of_some hk]
    exact hrun n k hk

/-- No time passes in a step of the scheduler. -/
theorem Inv.advances_scheduled {a : Act} {smp : State} (h : s.Inv) :
    Advances s (s.scheduled c a smp) := by
  obtain ⟨hcounter, hsince, hran⟩ := scheduled_ghost (s := s) (c := c) (a := a) smp
  have hsame : ∀ t, (s.scheduled c a smp).runTime t = s.runTime t := by
    intro t
    rw [runTime, runTime, hcounter, hsince, hran]
  refine h.advances (fun n hn ↦ ?_) fun n k hk ↦ ?_
  · rw [hsame, runTime_of_none hn]
  · rw [hsame, runTime_of_some hk, hcounter, Nat.sub_self, Nat.add_zero]

/-! ## The two writes of a switch -/

section SwitchOut

variable {u : Tid} {k : Nat}

/-- The old thread does not run any more. -/
theorem runs_switchOut (s : Timed) (c d : Nat) (t : Tid) :
    (s.switchOut c t).runs d = if d = c then none else s.runs d := by
  by_cases hd : d = c
  · subst hd
    rw [if_pos rfl]
    exact runs_stopped (Function.update_self ..)
  · rw [if_neg hd]
    exact runs_congr (Function.update_of_ne hd ..) rfl

theorem ran_switchOut_of_ne (s : Timed) (c : Nat) (hu : u ≠ t) :
    (s.switchOut c t).ran u = s.ran u := by
  rw [switchOut]
  cases s.since t with
  | none => rfl
  | some k => exact Function.update_of_ne hu ..

theorem total_switchOut_of_ne (s : Timed) (c : Nat) (hu : u ≠ t) :
    (s.switchOut c t).total u = s.total u := by
  rw [total, total, ran_switchOut_of_ne s c hu]

/-- The interval of the old thread is over. -/
theorem total_switchOut_self (c : Nat) (hk : s.since t = some k) :
    (s.switchOut c t).total t = s.total t + (s.counter - k) := by
  rw [total, total, switchOut, hk]
  simp only [Function.update_self, List.map_cons, List.sum_cons]
  exact Nat.add_comm ..

theorem Inv.switchOut {newst : Status} {th : Tid} (h : s.Inv)
    (hpc : (s.smp.cpu c).pc = .picked newst th) (hc : s.runs c = some t) :
    (s.switchOut c t).Inv := by
  have hsince : ∀ u, u ≠ t → (s.switchOut c t).since u = s.since u :=
    fun u hu ↦ Function.update_of_ne hu ..
  have hself : (s.switchOut c t).since t = none := Function.update_self ..
  have hoff : ∀ u, u ≠ t → (s.switchOut c t).vttOffset u = s.vttOffset u :=
    fun u hu ↦ Function.update_of_ne hu ..
  refine ⟨h.good, h.counter, fun d hd ↦ ?_, fun n ↦ ?_, fun n k hk ↦ ?_, fun n ↦ ?_, fun n ↦ ?_,
    fun n hn ↦ ?_⟩
  · by_cases hdc : d = c
    · rw [hdc]
      exact ⟨newst, th, hpc⟩
    · refine h.picked d fun ho ↦ hd ?_
      exact (Function.update_of_ne hdc ..).trans ho
  · by_cases hn : Tid.proc n = t
    · subst hn
      refine iff_of_false (fun hs ↦ hs hself) ?_
      rintro ⟨d, hd⟩
      rw [runs_switchOut] at hd
      split at hd
      · cases hd
      next hdc => exact hdc (h.one hd hc)
    · rw [hsince _ hn, h.since n]
      refine exists_congr fun d ↦ ?_
      rw [runs_switchOut]
      split
      next hdc =>
        rw [hdc, hc, Option.some.injEq]
        exact iff_of_false (Ne.symm hn) nofun
      · exact .rfl
  · have hn : Tid.proc n ≠ t := by
      rintro rfl
      rw [hself] at hk
      cases hk
    rw [hsince _ hn] at hk
    rw [total_switchOut_of_ne s c hn]
    exact h.base n k hk
  · by_cases hn : Tid.proc n = t
    · subst hn
      obtain ⟨k, hk⟩ := h.exists_since hc
      rw [total_switchOut_self c hk, ← runTime_of_some hk, ← h.thvtt_eq hc]
      exact Function.update_self ..
    · rw [hoff _ hn, total_switchOut_of_ne s c hn]
      exact h.offset n
  · by_cases hn : Tid.proc n = t
    · subst hn
      obtain ⟨k, hk⟩ := h.exists_since hc
      obtain ⟨_, htotal, hle⟩ := h.base n k hk
      rw [total_switchOut_self c hk]
      show s.total (.proc n) + (s.counter - k) ≤ s.counter
      omega
    · rw [total_switchOut_of_ne s c hn]
      exact h.le n
  · have hne : Tid.proc n ≠ t := by
      rintro rfl
      exact Nat.not_lt.2 hn (h.lt hc)
    rw [ran_switchOut_of_ne s c hne]
    exact h.unborn n hn

/-- The time of the old thread is now in the intervals that are over. -/
theorem Inv.advances_switchOut (h : s.Inv) : Advances s (s.switchOut c t) := by
  refine h.advances (fun n hn ↦ ?_) fun n k hk ↦ ?_
  · by_cases hnt : Tid.proc n = t
    · subst hnt
      rw [runTime_of_none (Function.update_self ..), total, total, Timed.switchOut, hn]
    · rw [runTime_of_none ((Function.update_of_ne hnt ..).trans hn), total_switchOut_of_ne s c hnt]
  · show _ = _ + (s.counter - s.counter)
    rw [Nat.sub_self, Nat.add_zero]
    by_cases hnt : Tid.proc n = t
    · subst hnt
      rw [runTime_of_none (Function.update_self ..), total_switchOut_self c hk]
    · rw [runTime_of_some ((Function.update_of_ne hnt ..).trans hk), total_switchOut_of_ne s c hnt]
      rfl

end SwitchOut

section SwitchIn

variable {th : Tid} {newst : Status}

/-- The new thread runs. -/
theorem runs_switchIn (hpc : (s.smp.cpu c).pc = .picked newst th) (d : Nat) :
    (s.switchIn c th).runs d = if d = c then some th else s.runs d := by
  by_cases hd : d = c
  · subst hd
    rw [if_pos rfl]
    exact runs_new (Function.update_self ..) hpc
  · rw [if_neg hd]
    exact runs_congr (Function.update_of_ne hd ..) rfl

/-- The new thread runs nowhere else. -/
theorem Inv.not_runs (h : s.Inv) (hpc : (s.smp.cpu c).pc = .picked newst th)
    (hc : s.runs c = none) : s.runs d ≠ some th := by
  intro hd
  have hmem : th ∈ (s.smp.cpu c).hold := by
    rw [Cpu.hold, hpc]
    exact List.mem_cons_of_mem _ (List.mem_singleton_self th)
  obtain rfl := h.good.inv.excl d c th (mem_hold_of_runs hd) hmem
  rw [hc] at hd
  cases hd

theorem Inv.switchIn (h : s.Inv) (hpc : (s.smp.cpu c).pc = .picked newst th)
    (hc : s.runs c = none) : (s.switchIn c th).Inv := by
  have hsince : ∀ u, u ≠ th → (s.switchIn c th).since u = s.since u :=
    fun u hu ↦ Function.update_of_ne hu ..
  have hself : (s.switchIn c th).since th = some s.counter := Function.update_self ..
  refine ⟨h.good, h.counter, fun d hd ↦ ?_, fun n ↦ ?_, fun n k hk ↦ ?_, h.offset, h.le, h.unborn⟩
  · by_cases hdc : d = c
    · rw [hdc]
      exact ⟨newst, th, hpc⟩
    · refine h.picked d fun ho ↦ hd ?_
      exact (Function.update_of_ne hdc ..).trans ho
  · by_cases hn : Tid.proc n = th
    · subst hn
      refine iff_of_true (fun hs ↦ nomatch hself.symm.trans hs) ⟨c, ?_⟩
      rw [runs_switchIn hpc, if_pos rfl]
    · rw [hsince _ hn, h.since n]
      refine exists_congr fun d ↦ ?_
      rw [runs_switchIn hpc]
      split
      next hdc =>
        rw [hdc, hc, Option.some.injEq]
        exact iff_of_false nofun (Ne.symm hn)
      · exact .rfl
  · by_cases hn : Tid.proc n = th
    · subst hn
      cases hself.symm.trans hk
      exact ⟨Function.update_self .., h.le n, Nat.le_refl _⟩
    · rw [hsince _ hn] at hk
      obtain ⟨hbase, hle⟩ := h.base n k hk
      exact ⟨(Function.update_of_ne hn ..).trans hbase, hle⟩

/-- The new thread starts with the time that it has. -/
theorem Inv.advances_switchIn (h : s.Inv) (hpc : (s.smp.cpu c).pc = .picked newst th)
    (hc : s.runs c = none) : Advances s (s.switchIn c th) := by
  refine h.advances (fun n hn ↦ ?_) fun n k hk ↦ ?_
  · by_cases hnt : Tid.proc n = th
    · subst hnt
      rw [runTime_of_some (Function.update_self ..)]
      show s.total (.proc n) + (s.counter - s.counter) = s.total (.proc n)
      rw [Nat.sub_self, Nat.add_zero]
    · rw [runTime_of_none ((Function.update_of_ne hnt ..).trans hn)]
      rfl
  · have hnt : Tid.proc n ≠ th := by
      rintro rfl
      obtain ⟨d, hd⟩ := (h.since n).1 (Option.ne_none_iff_exists'.2 ⟨k, hk⟩)
      exact h.not_runs hpc hc hd
    rw [runTime_of_some ((Function.update_of_ne hnt ..).trans hk)]
    show s.total (.proc n) + (s.counter - k) =
      s.total (.proc n) + (s.counter - k) + (s.counter - s.counter)
    rw [Nat.sub_self, Nat.add_zero]

end SwitchIn

/-! ## Runs -/

theorem Inv.tick {counter : Nat} (h : s.Inv) (hle : s.counter ≤ counter) (hlt : counter < 2 ^ 64) :
    Timed.Inv { s with counter } where
  good := h.good
  counter := hlt
  picked := h.picked
  since := h.since
  base n k hk := by
    obtain ⟨hbase, htotal, hk⟩ := h.base n k hk
    exact ⟨hbase, htotal, Nat.le_trans hk hle⟩
  offset := h.offset
  le n := Nat.le_trans (h.le n) hle
  unborn := h.unborn

/-- The time that passes is that of the threads that run. -/
theorem Inv.advances_tick {counter : Nat} (h : s.Inv) (hle : s.counter ≤ counter) :
    Advances s { s with counter } := by
  refine h.advances (fun n hn ↦ runTime_of_none hn) fun n k hk ↦ ?_
  obtain ⟨_, _, hk'⟩ := h.base n k hk
  rw [runTime_of_some (s := { s with counter }) hk]
  show s.total (.proc n) + (counter - k) =
    s.total (.proc n) + (s.counter - k) + (counter - s.counter)
  omega

/-- The old thread runs until its virtual time is taken. -/
theorem runs_stack {newst : Status} {th : Tid} (hph : s.phase c = .old)
    (hpc : (s.smp.cpu c).pc = .picked newst th) : s.runs c = some (s.smp.cpu c).stack := by
  rw [runs_old hph, Cpu.current, hpc]

/-- Every step keeps the invariant, and gives the time that passes to the threads that run. -/
theorem Inv.step {a : TimedAct} (h : s.Inv) (hst : TimedStep s a s') :
    s'.Inv ∧ Advances s s' := by
  obtain ⟨hal, hex⟩ := hst
  cases a with
  | step c a =>
      obtain ⟨hstore, smp, hsmp, rfl⟩ := exec_step hex
      exact ⟨h.scheduled hstore hal hsmp, h.advances_scheduled⟩
  | offset c =>
      obtain ⟨hph, ⟨newst, th, hpc⟩, rfl⟩ := exec_offset hex
      exact ⟨h.switchOut hpc (runs_stack hph hpc), h.advances_switchOut⟩
  | rttbase c =>
      obtain ⟨hph, newst, th, hpc, rfl⟩ := exec_rttbase hex
      exact ⟨h.switchIn hpc (runs_stopped hph), h.advances_switchIn hpc (runs_stopped hph)⟩
  | tick counter =>
      cases hex
      exact ⟨h.tick hal.1 hal.2, h.advances_tick hal.1⟩

end Timed

/-- In every run from the boot, with a counter that does not go back and stays below 2 ^ 64, a
thread that runs reads the time that it has run, which is 0 before it is forked; and every further
step gives a thread the time that passes while it runs, and none while it does not. -/
theorem thvtt_run_time {counter : Nat} {s : Timed} {as : List TimedAct}
    (hcounter : counter < 2 ^ 64) (h : Run TimedStep (timedBoot counter) as s) :
    VttOk s ∧ ∀ a t, TimedStep s a t → Advances s t := by
  have hinv : s.Inv := h.invariant (fun _ _ _ hi hst ↦ (hi.step hst).1)
    (Timed.inv_timedBoot hcounter)
  exact ⟨hinv.vttOk, fun a t hst ↦ (hinv.step hst).2⟩

/-- `init` runs from 7 on, yields to nobody at 9, and sleeps at 12; the idle thread wakes it, and it
runs again from 20 on. -/
def vttRun : List TimedAct :=
  [.step 0 (.enter .stopped), .step 0 .save, .step 0 .pick, .offset 0, .tick 7, .rttbase 0,
    .step 0 .store, .step 0 .leave, .tick 9, .step 0 (.enter .runnable), .step 0 .save,
    .step 0 .pick, .step 0 .leave, .step 0 (.enter .stopped), .step 0 .save, .step 0 .pick,
    .tick 12, .offset 0, .tick 14, .rttbase 0, .step 0 .store, .step 0 .insert, .step 0 .leave,
    .step 0 (.raise 0 3), .step 0 .wake, .step 0 (.enter .stopped), .step 0 .save, .step 0 .pick,
    .offset 0, .tick 20, .rttbase 0, .step 0 .store, .step 0 .leave, .tick 24]

/-- `init` has run from 7 to 12 and from 20 to 24. -/
theorem thvtt_run_time_init : ∃ s, Run TimedStep (timedBoot 5) vttRun s ∧
    s.runs 0 = some (.proc 0) ∧ s.thvtt (.proc 0) = 12 - 7 + (24 - 20) ∧ VttOk s ∧
    ∀ a t, TimedStep s a t → Advances s t := by
  have h : Run TimedStep (timedBoot 5) vttRun _ :=
    .cons ⟨trivial, rfl⟩ <| .cons ⟨trivial, rfl⟩ <| .cons ⟨trivial, rfl⟩ <| .cons ⟨trivial, rfl⟩ <|
    .cons ⟨(by decide : 5 ≤ 7 ∧ 7 < 2 ^ 64), rfl⟩ <| .cons ⟨trivial, rfl⟩ <| .cons ⟨trivial, rfl⟩ <|
    .cons ⟨trivial, rfl⟩ <| .cons ⟨(by decide : 7 ≤ 9 ∧ 9 < 2 ^ 64), rfl⟩ <| .cons ⟨trivial, rfl⟩ <|
    .cons ⟨trivial, rfl⟩ <| .cons ⟨trivial, rfl⟩ <| .cons ⟨trivial, rfl⟩ <| .cons ⟨trivial, rfl⟩ <|
    .cons ⟨trivial, rfl⟩ <| .cons ⟨trivial, rfl⟩ <|
    .cons ⟨(by decide : 9 ≤ 12 ∧ 12 < 2 ^ 64), rfl⟩ <| .cons ⟨trivial, rfl⟩ <|
    .cons ⟨(by decide : 12 ≤ 14 ∧ 14 < 2 ^ 64), rfl⟩ <| .cons ⟨trivial, rfl⟩ <|
    .cons ⟨trivial, rfl⟩ <| .cons ⟨trivial, rfl⟩ <| .cons ⟨trivial, rfl⟩ <|
    .cons ⟨⟨by decide, by decide⟩, rfl⟩ <| .cons ⟨trivial, rfl⟩ <| .cons ⟨trivial, rfl⟩ <|
    .cons ⟨trivial, rfl⟩ <| .cons ⟨trivial, rfl⟩ <| .cons ⟨trivial, rfl⟩ <|
    .cons ⟨(by decide : 14 ≤ 20 ∧ 20 < 2 ^ 64), rfl⟩ <| .cons ⟨trivial, rfl⟩ <|
    .cons ⟨trivial, rfl⟩ <| .cons ⟨trivial, rfl⟩ <|
    .cons ⟨(by decide : 20 ≤ 24 ∧ 24 < 2 ^ 64), rfl⟩ (.nil _)
  exact ⟨_, h, rfl, rfl, thvtt_run_time (by decide) h⟩

end Mh.Smp
