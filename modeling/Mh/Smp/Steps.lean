import Mh.Smp.Inv
import Mh.Lib.Run

/-!
# Steps of the CPUs

`State.Does` says what each step does and where the CPU is before it
(`does_of_exec`), and every step keeps `Inv` (`step_good`).
-/

namespace Mh.Smp

open Mh.Lib
open Mh.Sched (Status)

variable {s s' : State} {c d : Nat} {t u old th : Tid} {newst : Status} {ts : List Tid}

/-- What a step does, and where the CPU is before it. -/
def State.Does (s : State) (c : Nat) (s' : State) : Act → Prop
  | .intr b => (s.cpu c).pc = .run ∧
      s' = s.setThread (s.cpu c).stack { s.thread (s.cpu c).stack with intr := b }
  | .deliver => (s.cpu c).pc = .run ∧ (s' = s ∨
      s' = s.setThread (s.cpu c).stack
        { s.thread (s.cpu c).stack with
          softintrs := 0, intr := (s.thread (s.cpu c).stack).softintrs = 0 })
  | .fork => (s.cpu c).pc = .run ∧ s' = s.thfork (s.cpu c).stack
  | .raise n vect => (s.cpu c).pc = .run ∧
      s' = (s.setThread (.proc n) { s.thread (.proc n) with
        softintrs := (s.thread (.proc n)).softintrs ||| BitVec.twoPow 32 vect }).setPc c
          (.raised (.proc n))
  | .wake => ∃ t s₁, (s.cpu c).pc = .raised t ∧ s.wake t = .ok s₁ ∧ s' = s₁.setPc c .run
  | .enter newst => (s.cpu c).pc = .run ∧ (s' = s ∨ newst ≠ .running ∧
      ¬(newst = .stopped ∧ (s.thread (s.cpu c).stack).hasInterrupts) ∧
      s' = s.setPc c (.entered newst))
  | .save => ∃ newst, (s.cpu c).pc = .entered newst ∧ s' = s.setPc c (.saved newst)
  | .pick => ∃ newst, (s.cpu c).pc = .saved newst ∧
      s' = (s.pick c (s.cpu c).stack newst).2.setPc c
        (if (s.pick c (s.cpu c).stack newst).1 = (s.cpu c).stack then
          .leaving (s.pick c (s.cpu c).stack newst).1
        else .picked newst (s.pick c (s.cpu c).stack newst).1)
  | .store => ∃ newst th, (s.cpu c).pc = .picked newst th ∧
      s' = if (s.cpu c).stack = .idle c then s.setPc c (.leaving th)
        else (s.setStatus (s.cpu c).stack newst).setPc c (.stored newst th)
  | .insert => ∃ newst th, (s.cpu c).pc = .stored newst th ∧
      s' = (s.insert c (s.cpu c).stack newst).setPc c (.leaving th)
  | .leave => ∃ th, (s.cpu c).pc = .leaving th ∧
      s' = { s with cpu := Function.update s.cpu c ⟨th, .run⟩ }

theorem does_of_exec {a : Act} (h : s.exec c a = .ok s') : s.Does c s' a := by
  simp only [State.exec] at h
  split at h
  · next b hpc => exact ⟨hpc, (Except.ok.inj h).symm⟩
  · next hpc =>
      refine ⟨hpc, ?_⟩
      rw [← Except.ok.inj h]
      split
      · exact .inr rfl
      · exact .inl rfl
  · next hpc => exact ⟨hpc, (Except.ok.inj h).symm⟩
  · next n vect hpc => exact ⟨hpc, (Except.ok.inj h).symm⟩
  · next t hpc =>
      cases hw : s.wake t with
      | error e =>
          rw [hw] at h
          cases h
      | ok s₁ =>
          rw [hw] at h
          exact ⟨t, s₁, hpc, hw, (Except.ok.inj h).symm⟩
  · next newst hpc =>
      refine ⟨hpc, ?_⟩
      rw [← Except.ok.inj h]
      split
      · exact .inl rfl
      · next hn => exact .inr ⟨fun hc ↦ hn (.inl hc), fun hc ↦ hn (.inr hc), rfl⟩
  · next newst hpc => exact ⟨newst, hpc, (Except.ok.inj h).symm⟩
  · next newst hpc => exact ⟨newst, hpc, (Except.ok.inj h).symm⟩
  · next newst th hpc => exact ⟨newst, th, hpc, (Except.ok.inj h).symm⟩
  · next newst th hpc => exact ⟨newst, th, hpc, (Except.ok.inj h).symm⟩
  · next th hpc => exact ⟨th, hpc, (Except.ok.inj h).symm⟩
  · cases h

theorem wake_ok {s₁ : State} (h : s.wake t = .ok s₁) :
    (s.thread t).status ≠ .stopped ∧ s₁ = s ∨
    (s.thread t).status = .stopped ∧ t ∈ s.stopped ∧
      s₁ = { s.setStatus t .runnable with
        stopped := s.stopped.erase t
        running := s.running ++ [t] } := by
  rw [State.wake] at h
  split at h
  · next hst =>
      split at h
      · next hm => exact .inr ⟨hst, hm, (Except.ok.inj h).symm⟩
      · cases h
  · next hst => exact .inl ⟨hst, (Except.ok.inj h).symm⟩

/-- The steps of `thraise` and of `schedule` only move the CPU that takes them. -/
theorem setPc_cpu_of_ne (s : State) (pc : Pc) (hd : d ≠ c) : (s.setPc c pc).cpu d = s.cpu d :=
  Function.update_of_ne hd ..

/-- Waking moves no CPU, and creates no thread. -/
theorem wake_cpu {s₁ : State} (h : s.wake t = .ok s₁) : s₁.cpu = s.cpu ∧ s₁.next = s.next := by
  rcases wake_ok h with ⟨-, rfl⟩ | ⟨-, -, rfl⟩
  · exact ⟨rfl, rfl⟩
  · exact ⟨rfl, rfl⟩

/-- So does the selection of the next thread. -/
theorem pick_cpu (s : State) (c : Nat) (old : Tid) (newst : Status) :
    (s.pick c old newst).2.cpu = s.cpu ∧ (s.pick c old newst).2.next = s.next := by
  rw [State.pick]
  cases s.running with
  | nil => exact ⟨rfl, rfl⟩
  | cons t ts => exact ⟨rfl, rfl⟩

/-- So does the insertion of the old one. -/
theorem insert_cpu (s : State) (c : Nat) (old : Tid) (newst : Status) :
    (s.insert c old newst).cpu = s.cpu ∧ (s.insert c old newst).next = s.next := by
  cases newst with
  | running | runnable | stopped | zombie => exact ⟨rfl, rfl⟩

theorem stack_setPc (s : State) (c d : Nat) (pc : Pc) :
    ((s.setPc c pc).cpu d).stack = (s.cpu d).stack := by
  show (Function.update s.cpu c _ d).stack = _
  by_cases hd : d = c
  · subst hd
    rw [Function.update_self]
  · rw [Function.update_of_ne hd]

section View

variable {pc : Pc} {thr : Thread}

theorem hold_update (f : Nat → Cpu) {α : Type} (g : Cpu → α) (c : Nat) (k : Cpu) :
    (fun d ↦ g (Function.update f c k d)) = Function.update (fun d ↦ g (f d)) c (g k) := by
  funext d
  by_cases hd : d = c
  · subst hd
    rw [Function.update_self, Function.update_self]
  · rw [Function.update_of_ne hd, Function.update_of_ne hd]

theorem view_cpu (s : State) (c : Nat) (k : Cpu) :
    { s with cpu := Function.update s.cpu c k }.view = { s.view with
      hold := Function.update s.view.hold c k.hold
      mid := Function.update s.view.mid c k.mid } := by
  simp only [State.view]
  rw [hold_update s.cpu Cpu.hold, hold_update s.cpu Cpu.mid]

/-- A CPU that goes on with the same threads, and stores no status. -/
theorem view_cpu_of_eq {k : Cpu} (hh : k.hold = (s.cpu c).hold) (hm : k.mid = (s.cpu c).mid) :
    { s with cpu := Function.update s.cpu c k }.view = s.view := by
  rw [view_cpu, hh, hm]
  have h₁ : Function.update s.view.hold c (s.cpu c).hold = s.view.hold :=
    Function.update_eq_self c s.view.hold
  have h₂ : Function.update s.view.mid c (s.cpu c).mid = s.view.mid :=
    Function.update_eq_self c s.view.mid
  rw [h₁, h₂]

theorem view_setThread (s : State) (t : Tid) (thr : Thread) : (s.setThread t thr).view =
    { s.view with status := Function.update s.view.status t thr.status } := by
  simp only [State.view, State.setThread]
  congr 1
  funext u
  by_cases hu : u = t
  · subst hu
    rw [Function.update_self, Function.update_self]
  · rw [Function.update_of_ne hu, Function.update_of_ne hu]

theorem view_setThread_of_eq (h : thr.status = (s.thread t).status) :
    (s.setThread t thr).view = s.view := by
  rw [view_setThread, h]
  have hu : Function.update s.view.status t (s.thread t).status = s.view.status :=
    Function.update_eq_self t s.view.status
  rw [hu]

end View

/-- The status that the old thread is to have. -/
def Pc.goal : Pc → Option Status
  | .entered newst | .saved newst | .picked newst _ | .stored newst _ => some newst
  | _ => none

/-- The invariant of the queues and the CPUs, of a state: `schedule` returns at once when
the new status is `THST_RUNNING`. -/
structure Good (s : State) : Prop where
  inv : Inv s.view
  goal : ∀ c, (s.cpu c).pc.goal ≠ some .running

/-- CPU `c` goes on to `k`. -/
theorem Good.cpu {k : Cpu} (hn : ∀ c, (s.cpu c).pc.goal ≠ some .running)
    (hk : k.pc.goal ≠ some .running)
    (h : Inv { s with cpu := Function.update s.cpu c k }.view) :
    Good { s with cpu := Function.update s.cpu c k } where
  inv := h
  goal d := by
    show (Function.update s.cpu c k d).pc.goal ≠ _
    by_cases hd : d = c
    · subst hd
      rw [Function.update_self]
      exact hk
    · rw [Function.update_of_ne hd]
      exact hn d

theorem Good.cpu_of_eq {k : Cpu} (h : Good s) (hk : k.pc.goal ≠ some .running)
    (hh : k.hold = (s.cpu c).hold) (hm : k.mid = (s.cpu c).mid) :
    Good { s with cpu := Function.update s.cpu c k } :=
  .cpu h.goal hk (view_cpu_of_eq hh hm ▸ h.inv)

theorem Good.setThread {thr : Thread} (h : Good s) (ht : thr.status = (s.thread t).status) :
    Good (s.setThread t thr) :=
  ⟨view_setThread_of_eq ht ▸ h.inv, h.goal⟩

theorem Good.wake {s₁ : State} (h : Good s) (hw : s.wake t = .ok s₁) : Good s₁ := by
  rcases wake_ok hw with ⟨-, rfl⟩ | ⟨-, hm, rfl⟩
  · exact h
  · refine ⟨?_, h.goal⟩
    have hi := h.inv.wake (t := t) hm
    have hv := view_setThread s t { s.thread t with status := .runnable }
    have he : { s.setStatus t .runnable with
        stopped := s.stopped.erase t, running := s.running ++ [t] }.view =
          { (s.setStatus t .runnable).view with
            stopped := s.stopped.erase t, running := s.running ++ [t] } := rfl
    rw [he, State.setStatus, hv]
    exact hi

theorem Good.fork (h : Good s) (t : Tid) : Good (s.thfork t) := by
  refine ⟨?_, h.goal⟩
  have hv := view_setThread s (.proc s.next) { s.thread t with status := .runnable }
  have he : (s.thfork t).view =
      { (s.setThread (.proc s.next) { s.thread t with status := .runnable }).view with
        next := s.next + 1, running := s.running ++ [.proc s.next] } := rfl
  rw [he, hv]
  exact h.inv.fork

theorem Good.pick (h : Good s) (hpc : (s.cpu c).pc = .saved newst) :
    Good ((s.pick c (s.cpu c).stack newst).2.setPc c
      (if (s.pick c (s.cpu c).stack newst).1 = (s.cpu c).stack then
        .leaving (s.pick c (s.cpu c).stack newst).1
      else .picked newst (s.pick c (s.cpu c).stack newst).1)) := by
  have hhold : s.view.hold c = [(s.cpu c).stack] := by
    show (s.cpu c).hold = _
    rw [Cpu.hold, hpc]
  have hmid : s.view.mid c = none := by
    show (s.cpu c).mid = _
    rw [Cpu.mid, hpc]
  have hnew : newst ≠ .running := by
    have hn := h.goal c
    rw [hpc] at hn
    exact fun hc ↦ hn (congrArg some hc)
  have hpn : ∀ th, (Pc.picked newst th).goal ≠ some .running :=
    fun th hc ↦ hnew (Option.some.inj hc)
  have hupd : Function.update s.view.mid c none = s.view.mid := by
    rw [← hmid, Function.update_eq_self]
  rw [State.pick]
  cases hr : s.running with
  | nil =>
      dsimp only
      by_cases hth : (if newst = .runnable then (s.cpu c).stack else .idle c) = (s.cpu c).stack
      · rw [if_pos hth, hth]
        refine h.cpu_of_eq (by simp [Pc.goal]) ?_ ?_
        · exact hhold.symm
        · exact hmid.symm
      · have hidle : (if newst = .runnable then (s.cpu c).stack else .idle c) = .idle c :=
          if_neg fun hn ↦ hth (if_pos hn)
        rw [if_neg hth, hidle]
        rw [hidle] at hth
        refine .cpu h.goal (hpn _) ?_
        rw [view_cpu]
        show Inv { s.view with
          hold := Function.update s.view.hold c [(s.cpu c).stack, .idle c]
          mid := Function.update s.view.mid c none }
        rw [hupd]
        refine h.inv.rehold hmid ?_ fun u hu ↦ ?_
        · simpa using Ne.symm hth
        · rw [hhold]
          rcases List.mem_cons.1 hu with rfl | hu
          · exact .inl (List.mem_singleton_self _)
          · exact .inr (List.mem_singleton.1 hu)
  | cons t ts =>
      dsimp only
      have hne : t ≠ (s.cpu c).stack := by
        rintro rfl
        refine (h.inv.running _ (show _ ∈ s.running from hr ▸ List.mem_cons_self)).free c ?_
        rw [hhold]
        exact List.mem_singleton_self _
      rw [if_neg hne]
      refine .cpu h.goal (hpn _) ?_
      rw [view_cpu]
      have hv := view_setThread s t { s.thread t with status := .running }
      have he : { s.setStatus t .running with running := ts }.view =
          { (s.setThread t { s.thread t with status := .running }).view with
            running := ts } := rfl
      rw [he, hv]
      show Inv { s.view with
        hold := Function.update s.view.hold c [(s.cpu c).stack, t]
        mid := Function.update s.view.mid c none
        status := Function.update s.view.status t .running
        running := ts }
      rw [hupd]
      exact h.inv.take hr hhold hmid

theorem Good.store (h : Good s) (hpc : (s.cpu c).pc = .picked newst th) :
    Good (if (s.cpu c).stack = .idle c then s.setPc c (.leaving th)
      else (s.setStatus (s.cpu c).stack newst).setPc c (.stored newst th)) := by
  have hhold : s.view.hold c = [(s.cpu c).stack, th] := by
    show (s.cpu c).hold = _
    rw [Cpu.hold, hpc]
  have hmid : s.view.mid c = none := by
    show (s.cpu c).mid = _
    rw [Cpu.mid, hpc]
  have hnew : newst ≠ .running := by
    have hn := h.goal c
    rw [hpc] at hn
    exact fun hc ↦ hn (congrArg some hc)
  have hmem : (s.cpu c).stack ∈ s.view.hold c := hhold ▸ List.mem_cons_self
  split
  · refine .cpu h.goal (by simp [Pc.goal]) ?_
    rw [view_cpu]
    show Inv { s.view with
      hold := Function.update s.view.hold c [th]
      mid := Function.update s.view.mid c none }
    rw [← hmid, Function.update_eq_self]
    refine h.inv.rehold hmid (List.nodup_singleton th) fun u hu ↦ .inl ?_
    rw [hhold, List.mem_singleton.1 hu]
    exact List.mem_cons_of_mem _ (List.mem_singleton_self th)
  · next hi =>
      refine Good.cpu (s := s.setStatus (s.cpu c).stack newst) h.goal
        (fun hc ↦ hnew (Option.some.inj hc)) ?_
      rw [view_cpu, State.setStatus, view_setThread]
      show Inv { s.view with
        hold := Function.update s.view.hold c [(s.cpu c).stack, th]
        mid := Function.update s.view.mid c (some ((s.cpu c).stack, newst))
        status := Function.update s.view.status (s.cpu c).stack newst }
      rw [← hhold, Function.update_eq_self]
      refine h.inv.store hmem hmid ?_ hnew
      rintro d hd
      rw [hd] at hmem
      rw [h.inv.idle c d hmem] at hd
      exact hi hd

theorem Good.insert (h : Good s) (hpc : (s.cpu c).pc = .stored newst th) :
    Good ((s.insert c (s.cpu c).stack newst).setPc c (.leaving th)) := by
  have hhold : s.view.hold c = [(s.cpu c).stack, th] := by
    show (s.cpu c).hold = _
    rw [Cpu.hold, hpc]
  have hmid : s.view.mid c = some ((s.cpu c).stack, newst) := by
    show (s.cpu c).mid = _
    rw [Cpu.mid, hpc]
  obtain ⟨hmem, hst, hnr, -⟩ := h.inv.mid c _ _ hmid
  have hr : (s.cpu c).stack ∉ s.running := fun hm ↦ (h.inv.running _ hm).free c hmem
  have hl : (s.cpu c).stack ∉ s.stopped := fun hm ↦ (h.inv.stopped _ hm).free c hmem
  have hi := fun r l hr hl ↦ h.inv.insert (r := r) (l := l) hhold hmid hr hl
  have hgood : ∀ s₁ : State, (∀ d, s₁.cpu d = s.cpu d) →
      Inv { s₁.view with
        hold := Function.update s.view.hold c [th], mid := Function.update s.view.mid c none } →
      Good (s₁.setPc c (.leaving th)) := by
    intro s₁ hc hinv
    have hcpu : s₁.cpu = s.cpu := funext hc
    refine .cpu (hcpu ▸ h.goal) (by simp [Pc.goal]) ?_
    rw [view_cpu]
    simp only [State.view, hcpu] at hinv ⊢
    exact hinv
  cases newst with
  | running => exact absurd rfl hnr
  | runnable =>
      refine hgood _ (fun _ ↦ rfl) ?_
      exact hi _ _ (.snoc h.inv.nodup_running hr rfl)
        (.refl h.inv.nodup_stopped (iff_of_false hl (by decide)))
  | stopped =>
      refine hgood _ (fun _ ↦ rfl) ?_
      exact hi _ _ (.refl h.inv.nodup_running (iff_of_false hr (by decide)))
        (.snoc h.inv.nodup_stopped hl rfl)
  | zombie =>
      refine hgood _ (fun _ ↦ rfl) ?_
      exact hi _ _ (.refl h.inv.nodup_running (iff_of_false hr (by decide)))
        (.refl h.inv.nodup_stopped (iff_of_false hl (by decide)))

/-- Every step keeps the invariant. -/
theorem step_good {a : Nat × Act} (h : Good s) (hs : Step s a s') : Good s' := by
  obtain ⟨c, a⟩ := a
  have hd := does_of_exec hs.2
  have hrun : (s.cpu c).pc = .run → (s.cpu c).hold = [(s.cpu c).stack] ∧ (s.cpu c).mid = none := by
    intro hpc
    rw [Cpu.hold, Cpu.mid, hpc]
    exact ⟨rfl, rfl⟩
  cases a with
  | intr b =>
      obtain ⟨-, rfl⟩ := hd
      exact h.setThread rfl
  | deliver =>
      obtain ⟨-, rfl | rfl⟩ := hd
      · exact h
      · exact h.setThread rfl
  | fork =>
      obtain ⟨-, rfl⟩ := hd
      exact h.fork _
  | raise n vect =>
      obtain ⟨hpc, rfl⟩ := hd
      obtain ⟨hh, hm⟩ := hrun hpc
      exact Good.cpu_of_eq (c := c) (k := ⟨(s.cpu c).stack, .raised (.proc n)⟩)
        (h.setThread rfl) (by simp [Pc.goal]) hh.symm hm.symm
  | wake =>
      obtain ⟨t, s₁, hpc, hw, rfl⟩ := hd
      have hc := (wake_cpu hw).1
      refine (h.wake hw).cpu_of_eq (by simp [Pc.goal]) ?_ ?_
      · rw [hc, Cpu.hold, Cpu.hold, hpc]
      · rw [hc, Cpu.mid, Cpu.mid, hpc]
  | enter newst =>
      obtain ⟨hpc, rfl | ⟨hn, -, rfl⟩⟩ := hd
      · exact h
      · obtain ⟨hh, hm⟩ := hrun hpc
        exact h.cpu_of_eq (fun hc ↦ hn (Option.some.inj hc)) hh.symm hm.symm
  | save =>
      obtain ⟨newst, hpc, rfl⟩ := hd
      have hn := h.goal c
      rw [hpc] at hn
      refine h.cpu_of_eq hn ?_ ?_
      · rw [Cpu.hold, Cpu.hold, hpc]
      · rw [Cpu.mid, Cpu.mid, hpc]
  | pick =>
      obtain ⟨newst, hpc, rfl⟩ := hd
      exact h.pick hpc
  | store =>
      obtain ⟨newst, th, hpc, rfl⟩ := hd
      exact h.store hpc
  | insert =>
      obtain ⟨newst, th, hpc, rfl⟩ := hd
      exact h.insert hpc
  | leave =>
      obtain ⟨th, hpc, rfl⟩ := hd
      refine h.cpu_of_eq (by simp [Pc.goal]) ?_ ?_
      · rw [Cpu.hold, Cpu.hold, hpc]
      · rw [Cpu.mid, Cpu.mid, hpc]

theorem mem_hold_boot : t ∈ boot.view.hold c ↔ t = if c = 0 then .proc 0 else .idle c :=
  List.mem_singleton

theorem good_boot : Good boot where
  inv := {
    excl := fun c c' t h h' ↦ by
      rw [mem_hold_boot] at h h'
      rw [h] at h'
      by_cases hc : c = 0
      · by_cases hc' : c' = 0
        · rw [hc, hc']
        · rw [if_pos hc, if_neg hc'] at h'
          cases h'
      · by_cases hc' : c' = 0
        · rw [if_neg hc, if_pos hc'] at h'
          cases h'
        · rw [if_neg hc, if_neg hc'] at h'
          exact Tid.idle.inj h'
    idle := fun c d h ↦ by
      rw [mem_hold_boot] at h
      split at h
      · cases h
      · cases h
        rfl
    nodup := fun c ↦ List.nodup_singleton _
    lt := fun c n h ↦ by
      rw [mem_hold_boot] at h
      split at h
      · cases h
        exact Nat.one_pos
      · cases h
    idleStatus := fun _ ↦ rfl
    onCpu := fun _ _ _ _ ↦ rfl
    mid := fun c t st h ↦ absurd h (Option.some_ne_none _).symm
    running := fun t ht ↦ absurd ht List.not_mem_nil
    stopped := fun t ht ↦ absurd ht List.not_mem_nil
    lost := fun n _ h ↦ Status.noConfusion h
    nodup_running := List.nodup_nil
    nodup_stopped := List.nodup_nil }
  goal _ := by simp [boot, Pc.goal]

end Mh.Smp
