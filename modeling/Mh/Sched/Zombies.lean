import Mh.Sched.TimerRuns

/-!
# Zombies

`schedule` puts a thread that exits on `resched` and raises a soft interrupt, which is one bit
however many threads are on the list.  `do_softirq` clears it before `do_zombie`, which takes the
first thread off the list and leaves its loop.  So what is asked of the soft interrupt is done just
when it finds at most one thread (`zombies_done_iff`); no bit tells of the others
(`soft_doSoftirq`).
-/

namespace Mh.Sched

open Mh.Lib

variable {s s' s'' : State} {t p vect : Nat} {k : Key}

/-- `INTR_CHILD`. -/
def intrChild : Nat := 0

/-- A thread is on the `zombie_children` of its parent, and the parent has `INTR_CHILD` pending. -/
def Mourned (s s' : State) (t : Nat) : Prop :=
  ∃ p, (s.thread t).parent = some p ∧ t ∈ s'.zombies p ∧
    (s'.thread p).softintrs.getLsbD intrChild = true

/-- From `s` to `s'` all the threads on `resched` have been handed to their parents. -/
structure ZombiesDone (s s' : State) : Prop where
  empty : s'.resched = []
  mourned : ∀ t ∈ s.resched, Mourned s s' t

/-! ## What the timers leave alone -/

/-- The zombies and the soft interrupts are the same, and pending signals are pending. -/
structure Keeps (s s' : State) : Prop where
  resched : s'.resched = s.resched
  zombies : s'.zombies = s.zombies
  softZombie : s'.softZombie = s.softZombie
  softTimer : s'.softTimer = s.softTimer
  pending : ∀ t i, (s.thread t).softintrs.getLsbD i = true →
    (s'.thread t).softintrs.getLsbD i = true

namespace Keeps

theorem refl (s : State) : Keeps s s := ⟨rfl, rfl, rfl, rfl, fun _ _ h ↦ h⟩

theorem trans (h : Keeps s s') (h' : Keeps s' s'') : Keeps s s'' where
  resched := h'.resched.trans h.resched
  zombies := h'.zombies.trans h.zombies
  softZombie := h'.softZombie.trans h.softZombie
  softTimer := h'.softTimer.trans h.softTimer
  pending t i hi := h'.pending t i (h.pending t i hi)

/-- A thread is waked: its status changes, and its place in the queues. -/
theorem wake (s : State) (t : Nat) : Keeps s (s.wake t) := by
  have hsoft : ∀ u i, (s.thread u).softintrs.getLsbD i = true →
      ((s.wake t).thread u).softintrs.getLsbD i = true := by
    intro u i hi
    rwa [State.wake_field (f := Thread.softintrs) fun _ _ ↦ rfl]
  rw [State.wake] at hsoft ⊢
  cases hst : (s.thread t).status with
  | running | runnable | zombie => exact refl s
  | stopped =>
      rw [hst] at hsoft
      exact ⟨rfl, rfl, rfl, rfl, hsoft⟩

/-- A signal is raised. -/
theorem thraise (h : s.thraise t vect = .ok s') : Keeps s s' := by
  have hsoft := State.softintrs_thraise h
  have hpending : ∀ u i, (s.thread u).softintrs.getLsbD i = true →
      (s'.thread u).softintrs.getLsbD i = true := by
    intro u i hi
    rw [hsoft]
    split
    · rw [BitVec.getLsbD_or, hi, Bool.true_or]
    · exact hi
  rw [State.thraise] at h
  split at h
  · cases h
    have hw := wake (s.setThread t { s.thread t with
      softintrs := (s.thread t).softintrs ||| BitVec.twoPow 32 vect }) t
    exact ⟨hw.resched, hw.zombies, hw.softZombie, hw.softTimer, hpending⟩
  · cases h

/-- The signal of a timer is raised, and the timer is off. -/
theorem fire (h : s.fire k = .ok s') : Keeps s s' := by
  rw [State.fire] at h
  obtain ⟨s₁, h₁, h⟩ := bind_eq_ok.1 h
  have hraise : Keeps s s₁ := by
    simp only [State.raiseTimer] at h₁
    split at h₁
    · exact thraise h₁
    · cases h₁
      exact refl s
  cases h
  exact ⟨hraise.resched, hraise.zombies, hraise.softZombie, hraise.softTimer, hraise.pending⟩

/-- The loop of `do_timer`, by induction over the timers that have expired. -/
theorem doTimer (h : s.doTimer = .ok s') : Keeps s s' := by
  rw [State.doTimer] at h
  obtain ⟨s₁, h₁, h⟩ := bind_eq_ok.1 h
  have hall : Keeps s s₁ :=
    foldlM_invariant (I := Keeps s) (fun _ _ _ _ hI hf ↦ hI.trans (fire hf)) h₁ (refl s)
  cases h
  split
  · exact ⟨hall.resched, hall.zombies, hall.softZombie, hall.softTimer, hall.pending⟩
  · exact hall

end Keeps

/-! ## One thread at a time -/

namespace State

/-- `do_zombie` hands the first thread of `resched` to its parent. -/
theorem doZombie_cons {ts : List Nat} (hr : s.resched = t :: ts) (h : s.doZombie = .ok s') :
    s'.resched = ts ∧ Mourned s s' t := by
  rw [doZombie, hr] at h
  dsimp only at h
  split at h
  · split at h
    · cases h
    next p hp =>
      have hk := Keeps.thraise h
      refine ⟨hk.resched, p, hp, ?_, ?_⟩
      · rw [hk.zombies]
        dsimp only
        rw [Function.update_self]
        exact List.mem_cons_self
      · rw [softintrs_thraise h, if_pos rfl, BitVec.getLsbD_or, Bool.or_eq_true]
        exact .inr (by decide)
  · cases h

theorem doZombie_nil (hr : s.resched = []) (h : s.doZombie = .ok s') : s' = s := by
  rw [doZombie, hr] at h
  exact (Except.ok.inj h).symm

/-- `do_zombie` raises no soft interrupt. -/
theorem soft_doZombie (h : s.doZombie = .ok s') :
    s'.softZombie = s.softZombie ∧ s'.softTimer = s.softTimer := by
  cases hr : s.resched with
  | nil =>
      rw [doZombie_nil hr h]
      exact ⟨rfl, rfl⟩
  | cons t ts =>
      rw [doZombie, hr] at h
      dsimp only at h
      split at h
      · split at h
        · cases h
        · have hk := Keeps.thraise h
          exact ⟨hk.softZombie, hk.softTimer⟩
      · cases h

/-- The state in which `do_softirq` looks at the soft interrupts that it has cleared. -/
def cleared (s : State) : State := { s.deliver with softZombie := false, softTimer := false }

theorem deliver_frame (s : State) :
    s.deliver.resched = s.resched ∧ s.deliver.softZombie = s.softZombie ∧
      s.deliver.softTimer = s.softTimer ∧
      ∀ t, (s.deliver.thread t).parent = (s.thread t).parent := by
  rw [deliver]
  split
  · refine ⟨rfl, rfl, rfl, fun t ↦ ?_⟩
    apply setThread_field (f := Thread.parent)
    rfl
  · exact ⟨rfl, rfl, rfl, fun _ ↦ rfl⟩

/-- `do_softirq` with the soft interrupt of `do_zombie` raised. -/
theorem doSoftirq_ok (hz : s.softZombie = true) (h : s.doSoftirq = .ok s') :
    ∃ s₁, s.cleared.doZombie = .ok s₁ ∧ Keeps s₁ s' := by
  simp only [doSoftirq, softirqs] at h
  obtain ⟨s₁, h₁, h₂⟩ := bind_eq_ok.1 h
  rw [if_pos ((deliver_frame s).2.1.trans hz)] at h₁
  refine ⟨s₁, h₁, ?_⟩
  split at h₂
  · exact .doTimer h₂
  · obtain rfl := Except.ok.inj h₂
    exact .refl _

/-- After `do_softirq` no soft interrupt is raised: its loop makes one round. -/
theorem soft_doSoftirq (hz : s.softZombie = true) (h : s.doSoftirq = .ok s') :
    s'.softZombie = false ∧ s'.softTimer = false := by
  obtain ⟨s₁, h₁, hk⟩ := doSoftirq_ok hz h
  obtain ⟨hzombie, htimer⟩ := soft_doZombie h₁
  exact ⟨hk.softZombie.trans hzombie, hk.softTimer.trans htimer⟩

end State

/-- `do_softirq` empties `resched` and hands every thread on it to its parent just when at most one
thread is on it. -/
theorem zombies_done_iff (hz : s.softZombie = true) (h : s.doSoftirq = .ok s') :
    ZombiesDone s s' ↔ s.resched.length ≤ 1 := by
  obtain ⟨s₁, h₁, hk⟩ := State.doSoftirq_ok hz h
  obtain ⟨hresched, -, -, hparent⟩ := State.deliver_frame s
  cases hr : s.resched with
  | nil =>
      have hnil : s.cleared.resched = [] := hresched.trans hr
      obtain rfl := State.doZombie_nil hnil h₁
      refine iff_of_true ⟨hk.resched.trans hnil, fun t ht ↦ ?_⟩ (Nat.zero_le 1)
      rw [hr] at ht
      cases ht
  | cons t ts =>
      obtain ⟨hts, p, hp, hmem, hpending⟩ :=
        State.doZombie_cons (s := s.cleared) (hresched.trans hr) h₁
      constructor
      · intro hdone
        have hempty : ts = [] := (hts.symm.trans hk.resched.symm).trans hdone.empty
        rw [hempty]
        exact Nat.le_refl 1
      · intro hlen
        have hempty : ts = [] := List.eq_nil_of_length_eq_zero (Nat.le_zero.1
          (Nat.le_of_succ_le_succ hlen))
        refine ⟨(hk.resched.trans hts).trans hempty, fun u hu ↦ ?_⟩
        rw [hr, hempty] at hu
        obtain rfl := List.mem_singleton.1 hu
        exact ⟨p, (hparent u).symm.trans hp, hk.zombies ▸ hmem, hk.pending p _ hpending⟩

/-- `init` forks and waits, and the child exits: `init` gets it at the next soft interrupt. -/
theorem zombies_done_one : ∃ s s', Run Step boot [.fork, .wait, .exit 7] s ∧ s.resched = [2] ∧
    s.softZombie = true ∧ s.doSoftirq = .ok s' ∧ ZombiesDone s s' := by
  have hr : Run Step boot [.fork, .wait, .exit 7] _ :=
    .cons ⟨Nat.one_ne_zero, rfl⟩ <| .cons ⟨trivial, rfl⟩ <| .cons ⟨trivial, rfl⟩ (.nil _)
  exact ⟨_, _, hr, rfl, rfl, rfl, (zombies_done_iff rfl rfl).2 (by decide)⟩

/-- `init` forks twice and waits, and both children exit before a soft interrupt is handled: the
second one stays on `resched`, and no soft interrupt is raised for it. -/
theorem zombies_left : ∃ s s', Run Step boot [.fork, .fork, .wait, .exit 7, .exit 8] s ∧
    s.resched = [2, 3] ∧ s.softZombie = true ∧ s.doSoftirq = .ok s' ∧ s'.resched = [3] ∧
    s'.softZombie = false ∧ ¬ ZombiesDone s s' := by
  have hr : Run Step boot [.fork, .fork, .wait, .exit 7, .exit 8] _ :=
    .cons ⟨Nat.one_ne_zero, rfl⟩ <| .cons ⟨Nat.one_ne_zero, rfl⟩ <| .cons ⟨trivial, rfl⟩ <|
    .cons ⟨trivial, rfl⟩ <| .cons ⟨trivial, rfl⟩ (.nil _)
  exact ⟨_, _, hr, rfl, rfl, rfl, rfl, rfl, fun h ↦ List.cons_ne_nil _ _ h.empty⟩

end Mh.Sched
