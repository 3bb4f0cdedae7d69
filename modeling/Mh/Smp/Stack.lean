import Mh.Smp.Steps

/-!
# One CPU on a kernel stack

`schedule` puts the old thread on a queue before it leaves the stack of it, so another CPU
can take the thread and jump to it meanwhile.  When no CPU takes a thread whose stack
another one is still on (`PickSafe`), every stack has at most one CPU on it.
-/

namespace Mh.Smp

open Mh.Lib
open Mh.Sched (Status)

variable {s s' : State} {c d : Nat} {t th : Tid} {newst : Status} {as : List (Nat × Act)}

/-- The thread that a CPU is about to take is not one that another CPU has put on the
queue and not left yet. -/
def PickSafe (s : State) (c : Nat) : Prop :=
  ∀ t ∈ s.running.head?, ∀ d, d ≠ c → (s.cpu d).stack ≠ t

/-- A step that takes no thread whose stack is in use. -/
def PickStep (s : State) (a : Nat × Act) (s' : State) : Prop :=
  Step s a s' ∧ (a.2 = .pick → PickSafe s a.1)

/-- Nobody is on the stack of a thread that another CPU has, and no two CPUs are on one
stack. -/
structure StackInv (s : State) : Prop where
  own : ∀ c d t, t ∈ (s.cpu c).hold → d ≠ c → (s.cpu d).stack ≠ t
  inj : ∀ c d, (s.cpu c).stack = (s.cpu d).stack → c = d
  idle : ∀ c d, (s.cpu c).stack = .idle d → d = c

/-- Steps of a CPU that stays on its stack and has no other threads than before. -/
theorem StackInv.shrink (h : StackInv s) (hst : ∀ d, (s'.cpu d).stack = (s.cpu d).stack)
    (hh : ∀ d, ∀ t ∈ (s'.cpu d).hold, t ∈ (s.cpu d).hold) : StackInv s' where
  own c d t ht hd := hst d ▸ h.own c d t (hh c t ht) hd
  inj c d hcd := h.inj c d (hst c ▸ hst d ▸ hcd)
  idle c d hc := h.idle c d (hst c ▸ hc)

section SetPc

variable {pc : Pc}

theorem mem_hold_setPc : t ∈ ((s.setPc c pc).cpu d).hold ↔
    (d = c ∧ t ∈ Cpu.hold ⟨(s.cpu c).stack, pc⟩) ∨ (d ≠ c ∧ t ∈ (s.cpu d).hold) := by
  show t ∈ (Function.update s.cpu c _ d).hold ↔ _
  by_cases hd : d = c
  · subst hd
    rw [Function.update_self]
    exact ⟨fun ht ↦ .inl ⟨rfl, ht⟩, fun ht ↦ ht.elim And.right fun ht ↦ absurd rfl ht.1⟩
  · rw [Function.update_of_ne hd]
    exact ⟨fun ht ↦ .inr ⟨hd, ht⟩, fun ht ↦ ht.elim (fun ht ↦ absurd ht.1 hd) And.right⟩

/-- CPU `c` goes on and has no other threads than before. -/
theorem StackInv.setPc (h : StackInv s)
    (hh : ∀ t ∈ Cpu.hold ⟨(s.cpu c).stack, pc⟩, t ∈ (s.cpu c).hold) :
    StackInv (s.setPc c pc) := by
  refine h.shrink (fun d ↦ stack_setPc s c d pc) fun d t ht ↦ ?_
  rcases mem_hold_setPc.1 ht with ⟨rfl, ht'⟩ | ⟨-, ht'⟩
  · exact hh t ht'
  · exact ht'

/-- CPU `c` goes on with one more thread, whose stack no other CPU is on. -/
theorem StackInv.take (h : StackInv s) (hth : ∀ d, d ≠ c → (s.cpu d).stack ≠ th)
    (hh : ∀ t ∈ Cpu.hold ⟨(s.cpu c).stack, pc⟩, t ∈ (s.cpu c).hold ∨ t = th) :
    StackInv (s.setPc c pc) := by
  refine ⟨fun c' d t ht hd ↦ ?_, fun c' d hcd ↦ ?_, fun c' d hc ↦ ?_⟩
  · rw [stack_setPc]
    rcases mem_hold_setPc.1 ht with ⟨rfl, ht'⟩ | ⟨-, ht'⟩
    · rcases hh t ht' with hm | hm
      · exact h.own c' d t hm hd
      · rw [hm]
        exact hth d hd
    · exact h.own c' d t ht' hd
  · rw [stack_setPc, stack_setPc] at hcd
    exact h.inj c' d hcd
  · rw [stack_setPc] at hc
    exact h.idle c' d hc

end SetPc

/-- The CPU jumps to the thread that it has. -/
theorem StackInv.leave (h : StackInv s) (hg : Good s) (hpc : (s.cpu c).pc = .leaving th) :
    StackInv { s with cpu := Function.update s.cpu c ⟨th, .run⟩ } := by
  have hhold : (s.cpu c).hold = [th] := by rw [Cpu.hold, hpc]
  have hmem : th ∈ (s.cpu c).hold := hhold ▸ List.mem_singleton_self th
  have hcpu : ∀ d, d ≠ c → Function.update s.cpu c ⟨th, .run⟩ d = s.cpu d :=
    fun d hd ↦ Function.update_of_ne hd _ _
  have hself : Function.update s.cpu c ⟨th, .run⟩ c = ⟨th, .run⟩ := Function.update_self _ _ _
  refine ⟨fun c' d t ht hd ↦ ?_, fun c' d hcd ↦ ?_, fun c' d hc ↦ ?_⟩
  · have ht : t ∈ (Function.update s.cpu c ⟨th, .run⟩ c').hold := ht
    show (Function.update s.cpu c ⟨th, .run⟩ d).stack ≠ t
    have ht' : t ∈ (s.cpu c').hold := by
      by_cases hc : c' = c
      · rw [hc, hself] at ht
        rw [hc, hhold]
        exact ht
      · rwa [hcpu c' hc] at ht
    by_cases hdc : d = c
    · subst hdc
      rw [hself]
      rintro rfl
      exact hd (hg.inv.excl d c' _ hmem ht')
    · rw [hcpu d hdc]
      exact h.own c' d t ht' hd
  · have hcd : (Function.update s.cpu c ⟨th, .run⟩ c').stack =
        (Function.update s.cpu c ⟨th, .run⟩ d).stack := hcd
    by_cases hc : c' = c
    · by_cases hdc : d = c
      · rw [hc, hdc]
      · rw [hc, hself, hcpu d hdc] at hcd
        exact absurd hcd.symm (h.own c d th hmem hdc)
    · by_cases hdc : d = c
      · rw [hdc, hself, hcpu c' hc] at hcd
        exact absurd hcd (h.own c c' th hmem hc)
      · rw [hcpu c' hc, hcpu d hdc] at hcd
        exact h.inj c' d hcd
  · have hc : (Function.update s.cpu c ⟨th, .run⟩ c').stack = .idle d := hc
    by_cases hcc : c' = c
    · rw [hcc, hself] at hc
      have hth : th = .idle d := hc
      rw [hth] at hmem
      rw [hcc]
      exact hg.inv.idle c d hmem
    · rw [hcpu c' hcc] at hc
      exact h.idle c' d hc

/-- The thread that a CPU takes: the first one of the queue, its idle thread, or none. -/
theorem pick_cases (s : State) (c : Nat) (old : Tid) (newst : Status) :
    (∀ d, (s.pick c old newst).2.cpu d = s.cpu d) ∧
      ((s.pick c old newst).1 ∈ s.running.head? ∨ (s.pick c old newst).1 = old ∨
        (s.pick c old newst).1 = .idle c) := by
  rw [State.pick]
  cases s.running with
  | nil =>
      refine ⟨fun _ ↦ rfl, .inr ?_⟩
      dsimp only
      split
      · exact .inl rfl
      · exact .inr rfl
  | cons t ts => exact ⟨fun _ ↦ rfl, .inl rfl⟩

theorem StackInv.pick (h : StackInv s) (hpc : (s.cpu c).pc = .saved newst) (hs : PickSafe s c) :
    StackInv ((s.pick c (s.cpu c).stack newst).2.setPc c
      (if (s.pick c (s.cpu c).stack newst).1 = (s.cpu c).stack then
        .leaving (s.pick c (s.cpu c).stack newst).1
      else .picked newst (s.pick c (s.cpu c).stack newst).1)) := by
  obtain ⟨hcpu, hth⟩ := pick_cases s c (s.cpu c).stack newst
  generalize s.pick c (s.cpu c).stack newst = p at hcpu hth ⊢
  have hhold : (s.cpu c).hold = [(s.cpu c).stack] := by rw [Cpu.hold, hpc]
  have hp : StackInv p.2 := by
    refine h.shrink (fun d ↦ congrArg Cpu.stack (hcpu d)) fun d t ht ↦ ?_
    rwa [hcpu d] at ht
  split
  · next heq =>
      refine hp.setPc fun t ht ↦ ?_
      rw [hcpu c, hhold, ← heq]
      exact ht
  · next hne =>
      have hfree : ∀ d, d ≠ c → (p.2.cpu d).stack ≠ p.1 := by
        intro d hd
        rw [hcpu d]
        rcases hth with hth | hth | hth
        · exact hs p.1 hth d hd
        · exact absurd hth hne
        · rw [hth]
          exact fun hc ↦ hd (h.idle d c hc).symm
      refine hp.take hfree fun t ht ↦ ?_
      · rw [hcpu c] at ht ⊢
        rw [hhold]
        rcases List.mem_cons.1 ht with rfl | ht
        · exact .inl (List.mem_singleton_self _)
        · exact .inr (List.mem_singleton.1 ht)

/-- A step that takes no thread whose stack is in use keeps the stacks apart. -/
theorem step_stack {a : Nat × Act} (hg : Good s) (h : StackInv s) (hs : PickStep s a s') :
    StackInv s' := by
  obtain ⟨hst, hp⟩ := hs
  obtain ⟨c, a⟩ := a
  have hd := does_of_exec hst.2
  cases a with
  | intr b =>
      obtain ⟨-, rfl⟩ := hd
      exact h.shrink (fun _ ↦ rfl) fun _ _ ht ↦ ht
  | deliver =>
      obtain ⟨-, rfl | rfl⟩ := hd
      · exact h
      · exact h.shrink (fun _ ↦ rfl) fun _ _ ht ↦ ht
  | fork =>
      obtain ⟨-, rfl⟩ := hd
      exact h.shrink (fun _ ↦ rfl) fun _ _ ht ↦ ht
  | raise n vect =>
      obtain ⟨hpc, rfl⟩ := hd
      refine StackInv.setPc (h.shrink (fun _ ↦ rfl) fun _ _ ht ↦ ht) fun t ht ↦ ?_
      show t ∈ (s.cpu c).hold
      rw [Cpu.hold, hpc]
      exact ht
  | wake =>
      obtain ⟨t, s₁, hpc, hw, rfl⟩ := hd
      have hc := (wake_cpu hw).1
      refine StackInv.setPc (h.shrink (fun d ↦ by rw [hc]) fun d t ht ↦ ?_) fun t ht ↦ ?_
      · rwa [hc] at ht
      · rw [hc] at ht ⊢
        rw [Cpu.hold, hpc]
        exact ht
  | enter newst =>
      obtain ⟨hpc, rfl | ⟨-, -, rfl⟩⟩ := hd
      · exact h
      · refine h.setPc fun t ht ↦ ?_
        rw [Cpu.hold, hpc]
        exact ht
  | save =>
      obtain ⟨newst, hpc, rfl⟩ := hd
      refine h.setPc fun t ht ↦ ?_
      rw [Cpu.hold, hpc]
      exact ht
  | pick =>
      obtain ⟨newst, hpc, rfl⟩ := hd
      exact h.pick hpc (hp rfl)
  | store =>
      obtain ⟨newst, th, hpc, rfl⟩ := hd
      have hh : (s.cpu c).hold = [(s.cpu c).stack, th] := by rw [Cpu.hold, hpc]
      split
      · refine h.setPc fun t ht ↦ ?_
        rw [hh]
        exact List.mem_cons_of_mem _ ht
      · refine StackInv.setPc (h.shrink (fun _ ↦ rfl) fun _ _ ht ↦ ht) fun t ht ↦ ?_
        show t ∈ (s.cpu c).hold
        rw [hh]
        exact ht
  | insert =>
      obtain ⟨newst, th, hpc, rfl⟩ := hd
      have hc := (insert_cpu s c (s.cpu c).stack newst).1
      refine StackInv.setPc (h.shrink (fun d ↦ by rw [hc]) fun d t ht ↦ ?_) fun t ht ↦ ?_
      · rwa [hc] at ht
      · rw [hc, Cpu.hold, hpc]
        exact List.mem_cons_of_mem _ ht
  | leave =>
      obtain ⟨th, hpc, rfl⟩ := hd
      exact h.leave hg hpc

theorem stackInv_boot : StackInv boot where
  own c d t ht hd hst := hd (good_boot.inv.excl d c t (List.mem_singleton.2 hst.symm) ht)
  inj c d hcd := good_boot.inv.excl c d _ (List.mem_singleton_self _) (List.mem_singleton.2 hcd)
  idle c d hc := good_boot.inv.idle c d (List.mem_singleton.2 hc.symm)

/-- No CPU is on the stack of a thread that another one is on or is about to resume. -/
structure OneCpu (s : State) : Prop where
  stack : ∀ c d, (s.cpu c).stack = (s.cpu d).stack → c = d
  resume : ∀ c th, (s.cpu c).pc = .leaving th → ∀ d, d ≠ c → (s.cpu d).stack ≠ th

/-- In a run that takes no thread whose stack is in use, a thread is on one CPU at a
time. -/
theorem stacks_ok (h : Run PickStep boot as s) : OneCpu s := by
  have hI : Good s ∧ StackInv s :=
    h.invariant (I := fun s ↦ Good s ∧ StackInv s)
      (fun _ _ _ hI hs ↦ ⟨step_good hI.1 hs.1, step_stack hI.1 hI.2 hs⟩)
      ⟨good_boot, stackInv_boot⟩
  refine ⟨hI.2.inj, fun c th hpc d hd ↦ hI.2.own c d th ?_ hd⟩
  rw [Cpu.hold, hpc]
  exact List.mem_singleton_self th

/-- `init` goes to sleep on CPU 0, is waked by CPU 1 after CPU 0 has left it, and goes on
there. -/
theorem stacks_ok_wake : ∃ s, Run PickStep boot
    [(0, .enter .stopped), (0, .save), (0, .pick), (0, .store), (0, .insert), (0, .leave),
      (1, .raise 0 3), (1, .wake), (1, .enter .stopped), (1, .save), (1, .pick), (1, .store),
      (1, .leave)] s ∧ (s.cpu 1).stack = .proc 0 ∧ OneCpu s := by
  have hn : ∀ (s : State) (c : Nat) (a : Act), a ≠ .pick → a = .pick → PickSafe s c :=
    fun _ _ _ hne ha ↦ absurd ha hne
  have h : Run PickStep boot
      [(0, .enter .stopped), (0, .save), (0, .pick), (0, .store), (0, .insert), (0, .leave),
        (1, .raise 0 3), (1, .wake), (1, .enter .stopped), (1, .save), (1, .pick), (1, .store),
        (1, .leave)] _ :=
    .cons ⟨⟨trivial, rfl⟩, hn _ _ _ (by decide)⟩ (.cons ⟨⟨trivial, rfl⟩, hn _ _ _ (by decide)⟩
      (.cons ⟨⟨trivial, rfl⟩, by rintro - t ⟨⟩⟩
      (.cons ⟨⟨trivial, rfl⟩, hn _ _ _ (by decide)⟩ (.cons ⟨⟨trivial, rfl⟩, hn _ _ _ (by decide)⟩
      (.cons ⟨⟨trivial, rfl⟩, hn _ _ _ (by decide)⟩
      (.cons ⟨⟨⟨Nat.one_pos, by decide⟩, rfl⟩, hn _ _ _ (by decide)⟩
      (.cons ⟨⟨trivial, rfl⟩, hn _ _ _ (by decide)⟩ (.cons ⟨⟨trivial, rfl⟩, hn _ _ _ (by decide)⟩
      (.cons ⟨⟨trivial, rfl⟩, hn _ _ _ (by decide)⟩
      (.cons ⟨⟨trivial, rfl⟩, by
        rintro - t ⟨⟩ (_ | _ | d) hd hst
        · cases hst
        · exact hd rfl
        · cases hst⟩
      (.cons ⟨⟨trivial, rfl⟩, hn _ _ _ (by decide)⟩ (.cons ⟨⟨trivial, rfl⟩, hn _ _ _ (by decide)⟩
      (.nil _)))))))))))))
  exact ⟨_, h, rfl, stacks_ok h⟩

/-- CPU 0 has put `init` on `stopped_threads` and not left its stack when CPU 1 wakes it
and resumes it. -/
theorem stack_shared : ∃ s, Run Step boot
    [(0, .enter .stopped), (0, .save), (0, .pick), (0, .store), (0, .insert),
      (1, .raise 0 3), (1, .wake), (1, .enter .stopped), (1, .save), (1, .pick), (1, .store),
      (1, .leave)] s ∧ (s.cpu 0).stack = .proc 0 ∧ (s.cpu 1) = ⟨.proc 0, .run⟩ ∧
        ¬OneCpu s := by
  have h : Run Step boot
      [(0, .enter .stopped), (0, .save), (0, .pick), (0, .store), (0, .insert),
        (1, .raise 0 3), (1, .wake), (1, .enter .stopped), (1, .save), (1, .pick), (1, .store),
        (1, .leave)] _ :=
    .cons ⟨trivial, rfl⟩ (.cons ⟨trivial, rfl⟩ (.cons ⟨trivial, rfl⟩ (.cons ⟨trivial, rfl⟩
      (.cons ⟨trivial, rfl⟩ (.cons ⟨⟨Nat.one_pos, by decide⟩, rfl⟩ (.cons ⟨trivial, rfl⟩
        (.cons ⟨trivial, rfl⟩ (.cons ⟨trivial, rfl⟩ (.cons ⟨trivial, rfl⟩ (.cons ⟨trivial, rfl⟩
          (.cons ⟨trivial, rfl⟩ (.nil _))))))))))))
  refine ⟨_, h, rfl, rfl, fun hok ↦ ?_⟩
  exact absurd (hok.stack 0 1 rfl) (by decide)

end Mh.Smp
