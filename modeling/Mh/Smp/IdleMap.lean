import Mh.Smp.Steps
import Mathlib.Data.BitVec

/-!
# The map of idle CPUs

`thswitch` sets a bit of `cpu_idlemap` when it switches to the idle thread, and `wake` sends an
interrupt to the first active CPU that has its bit set, when it has made a stopped thread runnable.
Nothing clears a bit, and nothing sets the bit of a CPU on the idle thread that it has booted on.

The system is that of `Mh.Smp`, from the boot on: all the CPUs are on their idle threads, and `init`
waits in the queue.  `switches` is kept for the statements: the switches so far, the last one
first.  `idlemap_exact_iff` says after which of them the map is right.
-/

namespace Mh.Smp

open Mh.Lib

/-- `UKERN_MAX_CPUS`. -/
def ukernMaxCpus : Nat := 64

/-! ## The machine with the map -/

/-- `current_thread`: `thswitch` has set it by the time that the status of the old thread is
stored. -/
def Cpu.current (k : Cpu) : Tid :=
  match k.pc with
  | .stored _ th | .leaving th => th
  | _ => k.stack

/-- The thread that a step switches to. -/
def State.switchTo (s : State) (c : Nat) (a : Act) : Option Tid :=
  match a, (s.cpu c).pc with
  | .store, .picked _ th => some th
  | _, _ => none

/-- `1L << cpu_number()`, as a `cpumask_t`.  A `long` has 32 bits, and the shift is taken modulo
32. -/
def idleBit (c : Nat) : BitVec 64 := ((1#32) <<< (c % 32)).signExtend 64

/-- `cpus_active`, after `cpu_add` of `n` CPUs. -/
def cpusActive : Nat → BitVec 64
  | 0 => 0#64
  | n + 1 => cpusActive n ||| 1#64 <<< n

/-- The loop of `once_cpumask`, from the CPU `i` on: the CPU that the operation is done for. -/
def onceFrom : Nat → Nat → BitVec 64 → Option Nat
  | 0, _, _ => none
  | k + 1, i, m =>
    if m.getLsbD 0 then some i else if m = 0#64 then none else onceFrom k (i + 1) (m >>> 1)

/-- `once_cpumask`; a word is zero after 64 rounds. -/
def onceCpumask (mask active : BitVec 64) : Option Nat := onceFrom 65 0 (mask &&& active)

/-- The machine, `cpu_idlemap`, and the switches that were made. -/
structure Machine where
  smp : State
  idlemap : BitVec 64
  switches : List (Nat × Tid)

namespace Machine

variable (s : Machine)

/-- `thswitch`, on CPU `c`. -/
def thswitch (c : Nat) (th : Tid) : Machine :=
  { s with
    idlemap := if th = .idle c then s.idlemap ||| idleBit c else s.idlemap
    switches := (c, th) :: s.switches }

/-- One step of CPU `c`. -/
def exec (c : Nat) (a : Act) : Except Fault Machine :=
  (s.smp.exec c a).map fun smp ↦
    match s.smp.switchTo c a with
    | none => { s with smp }
    | some th => { s with smp }.thswitch c th

/-- The CPU that gets `VECT_KICK` when `wake` has made a stopped thread runnable, on a machine of
`n` CPUs. -/
def kicked (n : Nat) : Option Nat := onceCpumask s.idlemap (cpusActive n)

/-- CPU `i` is running its idle thread. -/
def Idle (i : Nat) : Prop := (s.smp.cpu i).current = .idle i

end Machine

/-- A step of one of the `n` CPUs. -/
def MachineStep (n : Nat) (s : Machine) (a : Nat × Act) (t : Machine) : Prop :=
  a.1 < n ∧ Allowed s.smp a.1 a.2 ∧ s.exec a.1 a.2 = .ok t

/-- `kern_boot` and `kern_bootap` are done. -/
def kernBoot : Machine where
  smp := { boot with
    thread := Function.update boot.thread (.proc 0) ⟨.runnable, false, 0⟩
    running := [.proc 0]
    cpu := fun c ↦ ⟨.idle c, .run⟩ }
  idlemap := 0#64
  switches := []

/-! ## What is wanted, and when -/

/-- The map has the bit of an active CPU just when the CPU is running its idle thread; and a `wake`
of a stopped thread, while some active CPU is idle, sends the interrupt to one that is. -/
structure MapOk (n : Nat) (s : Machine) : Prop where
  exact : ∀ i < n, s.idlemap.getLsbD i = true ↔ s.Idle i
  kick : ∀ c t, (s.smp.cpu c).pc = .raised t → (s.smp.thread t).status = .stopped →
    (∃ i < n, s.Idle i) → ∃ i < n, s.kicked n = some i ∧ s.Idle i

/-- The last switch of CPU `i` was to its idle thread, or it is still on the one that it has booted
on. -/
def LastIdle (sw : List (Nat × Tid)) (i : Nat) : Prop :=
  ∀ x, sw.find? (fun x ↦ x.1 = i) = some x → x.2 = .idle i

/-- Some switch was to the idle thread of CPU `i`, or of a CPU that sets the same bit: the numbers
agree modulo 32, or that of the other is 31 modulo 32 and `i` is at least 31. -/
def Marked (sw : List (Nat × Tid)) (i : Nat) : Prop :=
  ∃ c, (c, .idle c) ∈ sw ∧ (i = c % 32 ∨ c % 32 = 31 ∧ 31 ≤ i)

/-- The active CPUs on their idle threads are those that a switch to an idle thread has marked. -/
def Faithful (n : Nat) (sw : List (Nat × Tid)) : Prop := ∀ i < n, LastIdle sw i ↔ Marked sw i

/-! ## Masks -/

theorem getLsbD_idleBit {c i : Nat} (hi : i < 64) :
    (idleBit c).getLsbD i = true ↔ i = c % 32 ∨ c % 32 = 31 ∧ 31 ≤ i := by
  have hc : c % 32 < 32 := Nat.mod_lt c (by decide)
  rw [idleBit]
  generalize c % 32 = k at hc
  have hbit : ∀ j, ((1#32) <<< k).getLsbD j = true ↔ j = k := by
    intro j
    simp only [BitVec.getLsbD_shiftLeft, BitVec.getLsbD_one, Bool.and_eq_true, Bool.not_eq_true',
      decide_eq_true_eq, decide_eq_false_iff_not]
    omega
  rw [BitVec.getLsbD_signExtend, BitVec.msb_eq_getLsbD_last, decide_eq_true hi,
    Bool.true_and]
  split
  · rw [hbit]
    omega
  · rw [hbit]
    omega

theorem getLsbD_cpusActive {n i : Nat} (hn : n ≤ 64) :
    (cpusActive n).getLsbD i = true ↔ i < n := by
  induction n with
  | zero => simp [cpusActive]
  | succ n ih =>
      simp only [cpusActive, BitVec.getLsbD_or, Bool.or_eq_true, ih (Nat.le_of_succ_le hn),
        BitVec.getLsbD_shiftLeft, BitVec.getLsbD_one, Bool.and_eq_true, Bool.not_eq_true',
        decide_eq_true_eq, decide_eq_false_iff_not]
      omega

/-- The operation is done for a CPU of the mask. -/
theorem getLsbD_of_onceFrom {k i j : Nat} {m : BitVec 64} (h : onceFrom k i m = some j) :
    ∃ d, j = i + d ∧ m.getLsbD d = true := by
  induction k generalizing i m with
  | zero => cases h
  | succ k ih =>
      rw [onceFrom] at h
      split at h
      next h₀ =>
        cases h
        exact ⟨0, rfl, h₀⟩
      · split at h
        · cases h
        · obtain ⟨d, rfl, hd⟩ := ih h
          rw [BitVec.getLsbD_ushiftRight] at hd
          exact ⟨1 + d, Nat.add_assoc .., hd⟩

/-- The operation is done when the mask has a CPU. -/
theorem exists_onceFrom {k d : Nat} {m : BitVec 64} (i : Nat) (hd : m.getLsbD d = true)
    (hk : d < k) : ∃ j, onceFrom k i m = some j := by
  induction k generalizing i d m with
  | zero => exact absurd hk (Nat.not_lt_zero d)
  | succ k ih =>
      rw [onceFrom]
      split
      · exact ⟨i, rfl⟩
      next h₀ =>
        split
        next hz =>
          rw [hz, BitVec.getLsbD_zero] at hd
          cases hd
        · cases d with
          | zero => exact absurd hd h₀
          | succ d =>
              refine ih (i + 1) (d := d) ?_ (Nat.lt_of_succ_lt_succ hk)
              rw [BitVec.getLsbD_ushiftRight, Nat.add_comm]
              exact hd

/-! ## The current threads -/

variable {s s' : State} {c d : Nat} {a : Act}

/-- A CPU goes on, and the others stay where they are. -/
theorem current_update (k : Cpu) (d : Nat) :
    (Function.update s.cpu c k d).current = if d = c then k.current else (s.cpu d).current := by
  by_cases hd : d = c
  · rw [hd, Function.update_self, if_pos rfl]
  · rw [Function.update_of_ne hd, if_neg hd]

/-- A step of a CPU changes the current thread of that CPU, and only by a switch. -/
theorem current_exec (h : s.exec c a = .ok s') (d : Nat) :
    (s'.cpu d).current =
      if d = c then (s.switchTo c a).getD (s.cpu c).current else (s.cpu d).current := by
  have hself : ∀ k : Cpu, k.current = (s.cpu c).current →
      (Function.update s.cpu c k d).current =
        if d = c then (s.cpu c).current else (s.cpu d).current := by
    intro k hk
    rw [current_update, hk]
  have hstay : (s.cpu d).current = if d = c then (s.cpu c).current else (s.cpu d).current := by
    split
    next hd => rw [hd]
    · rfl
  have hdo := does_of_exec h
  cases a with
  | intr b =>
      obtain ⟨_, rfl⟩ := hdo
      exact hstay
  | deliver =>
      rcases hdo with ⟨_, rfl | rfl⟩
      · exact hstay
      · exact hstay
  | fork =>
      obtain ⟨_, rfl⟩ := hdo
      exact hstay
  | raise n vect =>
      obtain ⟨hpc, rfl⟩ := hdo
      refine hself _ ?_
      rw [Cpu.current, Cpu.current, hpc]
      rfl
  | wake =>
      obtain ⟨t, s₁, hpc, hw, rfl⟩ := hdo
      rw [State.setPc, (wake_cpu hw).1]
      refine hself _ ?_
      rw [Cpu.current, Cpu.current, hpc]
  | enter newst =>
      rcases hdo with ⟨hpc, rfl | ⟨_, _, rfl⟩⟩
      · exact hstay
      · refine hself _ ?_
        rw [Cpu.current, Cpu.current, hpc]
  | save =>
      obtain ⟨newst, hpc, rfl⟩ := hdo
      refine hself _ ?_
      rw [Cpu.current, Cpu.current, hpc]
  | pick =>
      obtain ⟨newst, hpc, rfl⟩ := hdo
      rw [State.setPc, (pick_cpu s c (s.cpu c).stack newst).1]
      refine hself _ ?_
      by_cases hth : (s.pick c (s.cpu c).stack newst).1 = (s.cpu c).stack
      · rw [if_pos hth, Cpu.current, Cpu.current, hpc]
        exact hth
      · rw [if_neg hth, Cpu.current, Cpu.current, hpc]
  | store =>
      obtain ⟨newst, th, hpc, rfl⟩ := hdo
      have hsw : s.switchTo c .store = some th := by
        simp only [State.switchTo, hpc]
      rw [hsw, Option.getD_some]
      split
      · exact current_update ..
      · exact current_update ..
  | insert =>
      obtain ⟨newst, th, hpc, rfl⟩ := hdo
      rw [State.setPc, (insert_cpu s c (s.cpu c).stack newst).1]
      refine hself _ ?_
      rw [Cpu.current, Cpu.current, hpc]
  | leave =>
      obtain ⟨th, hpc, rfl⟩ := hdo
      refine hself _ ?_
      rw [Cpu.current, Cpu.current, hpc]

/-! ## Runs -/

/-- What holds in every run: the map has what the switches have marked, and a CPU runs the thread
that it has last switched to. -/
structure MapInv (s : Machine) : Prop where
  marked : ∀ i < 64, s.idlemap.getLsbD i = true ↔ Marked s.switches i
  last : ∀ i, s.Idle i ↔ LastIdle s.switches i

theorem mapInv_kernBoot : MapInv kernBoot where
  marked i _ := by
    constructor
    · intro h
      rw [kernBoot, BitVec.getLsbD_zero] at h
      cases h
    · rintro ⟨c, hc, _⟩
      exact absurd hc List.not_mem_nil
  last i := iff_of_true rfl nofun

/-- A switch marks the bit of an idle thread. -/
theorem marked_cons {sw : List (Nat × Tid)} {th : Tid} {i : Nat} :
    Marked ((c, th) :: sw) i ↔
      Marked sw i ∨ th = .idle c ∧ (i = c % 32 ∨ c % 32 = 31 ∧ 31 ≤ i) := by
  constructor
  · rintro ⟨d, hd, hi⟩
    rcases List.mem_cons.1 hd with heq | hd
    · obtain ⟨rfl, rfl⟩ := Prod.mk.inj heq
      exact .inr ⟨rfl, hi⟩
    · exact .inl ⟨d, hd, hi⟩
  · rintro (⟨d, hd, hi⟩ | ⟨rfl, hi⟩)
    · exact ⟨d, List.mem_cons_of_mem _ hd, hi⟩
    · exact ⟨c, List.mem_cons_self, hi⟩

/-- A switch is the last one of its CPU. -/
theorem lastIdle_cons {sw : List (Nat × Tid)} {th : Tid} {i : Nat} :
    LastIdle ((c, th) :: sw) i ↔ if i = c then th = .idle i else LastIdle sw i := by
  rw [LastIdle, List.find?_cons]
  by_cases hi : i = c
  · rw [if_pos hi, decide_eq_true hi.symm]
    exact ⟨fun h ↦ h _ rfl, fun h x hx ↦ Option.some.inj hx ▸ h⟩
  · rw [if_neg hi, decide_eq_false (Ne.symm hi)]
    exact .rfl

/-- Every step keeps the invariant. -/
theorem MapInv.step {n : Nat} {s t : Machine} {a : Nat × Act} (h : MapInv s)
    (hst : MachineStep n s a t) : MapInv t := by
  obtain ⟨_, _, hex⟩ := hst
  rw [Machine.exec] at hex
  cases hsmp : s.smp.exec a.1 a.2 with
  | error e =>
      rw [hsmp] at hex
      cases hex
  | ok smp =>
      have hcur := current_exec hsmp
      rw [hsmp] at hex
      cases hex
      cases hsw : s.smp.switchTo a.1 a.2 with
      | none =>
          refine ⟨h.marked, fun i ↦ ?_⟩
          rw [← h.last i, Machine.Idle, Machine.Idle, hcur i, hsw, Option.getD_none]
          split
          next hi => rw [hi]
          · exact .rfl
      | some th =>
          refine ⟨fun i hi ↦ ?_, fun i ↦ ?_⟩
          · change (if th = .idle a.1 then s.idlemap ||| idleBit a.1
                else s.idlemap).getLsbD i = true ↔
              Marked ((a.1, th) :: s.switches) i
            rw [marked_cons, ← h.marked i hi]
            by_cases hth : th = .idle a.1
            · rw [if_pos hth, BitVec.getLsbD_or, Bool.or_eq_true, getLsbD_idleBit hi]
              exact or_congr_right (and_iff_right hth).symm
            · rw [if_neg hth]
              exact (or_iff_left fun hno ↦ hth hno.1).symm
          · change (smp.cpu i).current = .idle i ↔ LastIdle ((a.1, th) :: s.switches) i
            rw [lastIdle_cons, ← h.last i, Machine.Idle, hcur i, hsw, Option.getD_some]
            split
            · exact .rfl
            · exact .rfl

/-- Where the map is right, the interrupt goes to an idle CPU. -/
theorem kicked_of_exact {n : Nat} {s : Machine} (hn : n ≤ 64)
    (h : ∀ i < n, s.idlemap.getLsbD i = true ↔ s.Idle i) (hidle : ∃ i < n, s.Idle i) :
    ∃ i < n, s.kicked n = some i ∧ s.Idle i := by
  obtain ⟨i, hi, hii⟩ := hidle
  have hbit : (s.idlemap &&& cpusActive n).getLsbD i = true := by
    rw [BitVec.getLsbD_and, (h i hi).2 hii, (getLsbD_cpusActive hn).2 hi, Bool.true_and]
  obtain ⟨j, hj⟩ := exists_onceFrom 0 hbit (Nat.lt_of_lt_of_le hi (Nat.le_succ_of_le hn))
  obtain ⟨d, hd, hset⟩ := getLsbD_of_onceFrom hj
  rw [Nat.zero_add] at hd
  rw [BitVec.getLsbD_and, Bool.and_eq_true, ← hd] at hset
  have hjn := (getLsbD_cpusActive hn).1 hset.2
  exact ⟨j, hjn, hj, (h j hjn).1 hset.1⟩

/-- After any run of `n` CPUs, `cpu_idlemap` tells the idle ones, and the interrupts go to them,
just when the CPUs on their idle threads are those that the switches so far have marked. -/
theorem idlemap_exact_iff {n : Nat} {s : Machine} {as : List (Nat × Act)} (hn : n ≤ ukernMaxCpus)
    (h : Run (MachineStep n) kernBoot as s) : MapOk n s ↔ Faithful n s.switches := by
  have hinv : MapInv s := h.invariant (fun _ _ _ hi hst ↦ hi.step hst) mapInv_kernBoot
  have hiff : (∀ i < n, s.idlemap.getLsbD i = true ↔ s.Idle i) ↔ Faithful n s.switches := by
    refine forall₂_congr fun i hi ↦ ?_
    rw [hinv.marked i (Nat.lt_of_lt_of_le hi hn), hinv.last i]
    exact iff_comm
  rw [← hiff]
  constructor
  · exact fun hok ↦ hok.exact
  · exact fun hex ↦ ⟨hex, fun _ _ _ _ hidle ↦ kicked_of_exact hn hex hidle⟩

theorem onceCpumask_one : onceCpumask (0#64 ||| idleBit 0) (cpusActive 1) = some 0 := by decide

theorem onceCpumask_two :
    onceCpumask (0#64 ||| idleBit 0 ||| idleBit 1) (cpusActive 2) = some 0 := by
  decide

/-- The only CPU runs `init`, which goes to sleep. -/
theorem idlemap_exact_sleeping : ∃ s, Run (MachineStep 1) kernBoot
    [(0, .enter .stopped), (0, .save), (0, .pick), (0, .store), (0, .leave),
      (0, .enter .stopped), (0, .save), (0, .pick), (0, .store), (0, .insert), (0, .leave)] s ∧
    s.kicked 1 = some 0 ∧ MapOk 1 s := by
  have h : Run (MachineStep 1) kernBoot
      [(0, .enter .stopped), (0, .save), (0, .pick), (0, .store), (0, .leave),
        (0, .enter .stopped), (0, .save), (0, .pick), (0, .store), (0, .insert), (0, .leave)] _ :=
    .cons ⟨by decide, trivial, rfl⟩ <| .cons ⟨by decide, trivial, rfl⟩ <|
    .cons ⟨by decide, trivial, rfl⟩ <| .cons ⟨by decide, trivial, rfl⟩ <|
    .cons ⟨by decide, trivial, rfl⟩ <| .cons ⟨by decide, trivial, rfl⟩ <|
    .cons ⟨by decide, trivial, rfl⟩ <| .cons ⟨by decide, trivial, rfl⟩ <|
    .cons ⟨by decide, trivial, rfl⟩ <| .cons ⟨by decide, trivial, rfl⟩ <|
    .cons ⟨by decide, trivial, rfl⟩ (.nil _)
  obtain ⟨s, hs, hmap, hsw⟩ : ∃ s, Run (MachineStep 1) kernBoot
      [(0, .enter .stopped), (0, .save), (0, .pick), (0, .store), (0, .leave),
        (0, .enter .stopped), (0, .save), (0, .pick), (0, .store), (0, .insert), (0, .leave)] s ∧
      s.idlemap = 0#64 ||| idleBit 0 ∧ s.switches = [(0, .idle 0), (0, .proc 0)] :=
    ⟨_, h, rfl, rfl⟩
  refine ⟨s, hs, ?_, (idlemap_exact_iff (by decide) hs).2 fun i hi ↦ ?_⟩
  · rw [Machine.kicked, hmap]
    exact onceCpumask_one
  · rw [hsw]
    obtain rfl := Nat.lt_one_iff.1 hi
    refine iff_of_true ?_ ⟨0, List.mem_cons_self, .inl rfl⟩
    rintro x ⟨⟩
    rfl

/-- CPU 0 runs `init`, which forks, sleeps and is woken; CPU 1 runs the child, which goes to sleep
after that. -/
def staleRun : List (Nat × Act) :=
  [(0, .enter .stopped), (0, .save), (0, .pick), (0, .store), (0, .leave), (0, .fork),
    (1, .enter .stopped), (1, .save), (1, .pick), (1, .store), (1, .leave),
    (0, .enter .stopped), (0, .save), (0, .pick), (0, .store), (0, .insert), (0, .leave),
    (1, .raise 0 3), (1, .wake),
    (0, .enter .stopped), (0, .save), (0, .pick), (0, .store), (0, .leave),
    (1, .enter .stopped), (1, .save), (1, .pick), (1, .store), (1, .insert), (1, .leave),
    (0, .raise 1 3)]

/-- `init` is about to wake the child while CPU 1 is idle: CPU 0 gets the interrupt, which runs
`init`. -/
theorem idlemap_stale : ∃ s, Run (MachineStep 2) kernBoot staleRun s ∧ s.kicked 2 = some 0 ∧
    ¬ s.Idle 0 ∧ s.Idle 1 ∧ ¬ MapOk 2 s := by
  have h : Run (MachineStep 2) kernBoot staleRun _ :=
    .cons ⟨by decide, trivial, rfl⟩ <| .cons ⟨by decide, trivial, rfl⟩ <|
    .cons ⟨by decide, trivial, rfl⟩ <| .cons ⟨by decide, trivial, rfl⟩ <|
    .cons ⟨by decide, trivial, rfl⟩ <| .cons ⟨by decide, nofun, rfl⟩ <|
    .cons ⟨by decide, trivial, rfl⟩ <| .cons ⟨by decide, trivial, rfl⟩ <|
    .cons ⟨by decide, trivial, rfl⟩ <| .cons ⟨by decide, trivial, rfl⟩ <|
    .cons ⟨by decide, trivial, rfl⟩ <| .cons ⟨by decide, trivial, rfl⟩ <|
    .cons ⟨by decide, trivial, rfl⟩ <| .cons ⟨by decide, trivial, rfl⟩ <|
    .cons ⟨by decide, trivial, rfl⟩ <| .cons ⟨by decide, trivial, rfl⟩ <|
    .cons ⟨by decide, trivial, rfl⟩ <| .cons ⟨by decide, ⟨by decide, by decide⟩, rfl⟩ <|
    .cons ⟨by decide, trivial, rfl⟩ <| .cons ⟨by decide, trivial, rfl⟩ <|
    .cons ⟨by decide, trivial, rfl⟩ <| .cons ⟨by decide, trivial, rfl⟩ <|
    .cons ⟨by decide, trivial, rfl⟩ <| .cons ⟨by decide, trivial, rfl⟩ <|
    .cons ⟨by decide, trivial, rfl⟩ <| .cons ⟨by decide, trivial, rfl⟩ <|
    .cons ⟨by decide, trivial, rfl⟩ <| .cons ⟨by decide, trivial, rfl⟩ <|
    .cons ⟨by decide, trivial, rfl⟩ <| .cons ⟨by decide, trivial, rfl⟩ <|
    .cons ⟨by decide, ⟨by decide, by decide⟩, rfl⟩ (.nil _)
  obtain ⟨s, hs, hmap, h₀, h₁⟩ : ∃ s, Run (MachineStep 2) kernBoot staleRun s ∧
      s.idlemap = 0#64 ||| idleBit 0 ||| idleBit 1 ∧ (s.smp.cpu 0).current = .proc 0 ∧
      (s.smp.cpu 1).current = .idle 1 := ⟨_, h, rfl, rfl, rfl⟩
  have hbusy : ¬ s.Idle 0 := by
    rw [Machine.Idle, h₀]
    exact nofun
  refine ⟨s, hs, ?_, hbusy, h₁, fun hok ↦ hbusy ((hok.exact 0 (by decide)).1 ?_)⟩
  · rw [Machine.kicked, hmap]
    exact onceCpumask_two
  · rw [hmap]
    decide

end Mh.Smp
