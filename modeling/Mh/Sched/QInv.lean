import Mh.Sched.Queues
import Mh.Lib.Refile

/-!
# Every thread is in one place

`QInv` says where every thread is: the current thread runs, the runnable ones are on
`running_threads`, the stopped ones on `stopped_threads`, and a zombie is on the
`resched` list of the CPU or with its parent; and that every thread but `init` is the
child of one that has not exited.

A thread that is waked, that leaves the CPU or that gets it goes from one place to
another, and `QInv.move` is about all three.
-/

namespace Mh.Sched

open Mh.Lib

variable {q : Queues} {t p c : Nat} {ts cs : List Nat} {newst : Status}

/-- The invariant of the queues. -/
structure QInv (q : Queues) : Prop where
  idle_lt : q.idle < q.next
  idle_freed : q.freed q.idle = false
  fresh : ∀ t, q.next ≤ t → q.freed t = false
  absent : ∀ t, ¬q.Alive t → q.status t ≠ .stopped
  init_alive : q.Alive q.init
  init_parent : q.parent q.init = none
  init_zombie : q.status q.init ≠ .zombie
  current : q.current = q.idle ∨ q.Alive q.current
  onCpu : ∀ t, q.Alive t → (q.status t = .running ↔ t = q.current)
  running : ∀ t, t ∈ q.running ↔ q.Alive t ∧ q.status t = .runnable
  stopped : ∀ t, t ∈ q.stopped ↔ q.Alive t ∧ q.status t = .stopped
  zombie : ∀ t, (t ∈ q.resched ∨ ∃ p, t ∈ q.zombies p) ↔ q.Alive t ∧ q.status t = .zombie
  resched : ∀ t ∈ q.resched, ∀ p, t ∉ q.zombies p
  zombies : ∀ t p, t ∈ q.zombies p → q.parent t = some p
  active : ∀ t p, t ∈ q.active p → q.Alive t ∧ q.parent t = some p ∧ ∀ r, t ∉ q.zombies r
  child : ∀ t, q.Alive t → t ≠ q.init → ∃ p, q.parent t = some p ∧ q.Alive p ∧
    q.status p ≠ .zombie ∧ (t ∈ q.active p ∨ t ∈ q.zombies p)
  nodup_running : q.running.Nodup
  nodup_stopped : q.stopped.Nodup
  nodup_resched : q.resched.Nodup
  nodup_zombies : ∀ p, (q.zombies p).Nodup
  nodup_active : ∀ p, (q.active p).Nodup

namespace QInv

theorem status_of_resched (h : QInv q) (ht : t ∈ q.resched) : q.Alive t ∧ q.status t = .zombie :=
  (h.zombie t).1 (.inl ht)

theorem status_of_zombies (h : QInv q) (ht : t ∈ q.zombies p) :
    q.Alive t ∧ q.status t = .zombie :=
  (h.zombie t).1 (.inr ⟨p, ht⟩)

theorem status_current (h : QInv q) (hc : q.current ≠ q.idle) :
    q.Alive q.current ∧ q.status q.current = .running := by
  have ha := h.current.resolve_left hc
  exact ⟨ha, (h.onCpu _ ha).2 rfl⟩

/-! ## A thread changes places -/

/-- What a step does that gives `t` the status `st` and the place that goes with it. -/
structure Moved (q : Queues) (t : Nat) (st : Status) (c : Nat) (r l z : List Nat) : Prop where
  current : c = q.idle ∨ q.Alive c
  onCpu : ∀ u, q.Alive u → u ≠ t → (u = c ↔ u = q.current)
  onCpu_self : t = c ↔ st = .running
  running : Refiled q.running r t (st = .runnable)
  stopped : Refiled q.stopped l t (st = .stopped)
  resched : Refiled q.resched z t (st = .zombie)

/-- A thread that is not a zombie changes places.  It becomes a zombie only when it is
not `init` and has no children. -/
theorem move {st : Status} {r l z : List Nat} (h : QInv q) (ht : q.Alive t)
    (hst : q.status t ≠ .zombie)
    (hz : st = .zombie → t ≠ q.init ∧ ∀ u, q.Alive u → q.parent u ≠ some t)
    (hm : Moved q t st c r l z) :
    QInv { q with
      status := Function.update q.status t st, current := c, running := r, stopped := l,
      resched := z } := by
  have hs : ∀ u, u ≠ t → Function.update q.status t st u = q.status u :=
    fun u hu ↦ Function.update_of_ne hu _ _
  have hself : Function.update q.status t st t = st := Function.update_self _ _ _
  have hnz : ∀ p, t ∉ q.zombies p := fun p hp ↦ hst (h.status_of_zombies hp).2
  -- each field, first for another thread and then for `t`
  refine ⟨h.idle_lt, h.idle_freed, h.fresh, fun u hu ↦ ?_, h.init_alive, h.init_parent, ?_,
    hm.current, fun u hu ↦ ?_, fun u ↦ ?_, fun u ↦ ?_, fun u ↦ ?_, fun u hu p hp ↦ ?_, h.zombies,
    h.active, fun u hu hi ↦ ?_,
    hm.running.nodup, hm.stopped.nodup, hm.resched.nodup, h.nodup_zombies, h.nodup_active⟩
  · show Function.update q.status t st u ≠ .stopped
    rw [hs u (fun hut ↦ hu (hut ▸ ht))]
    exact h.absent u hu
  · show Function.update q.status t st q.init ≠ .zombie
    by_cases hi : q.init = t
    · rw [hi, hself]
      exact fun hst' ↦ (hz hst').1 hi.symm
    · rw [hs _ hi]
      exact h.init_zombie
  · show Function.update q.status t st u = .running ↔ u = c
    by_cases hut : u = t
    · subst hut
      rw [hself]
      exact hm.onCpu_self.symm
    · rw [hs u hut, hm.onCpu u hu hut]
      exact h.onCpu u hu
  · show u ∈ r ↔ q.Alive u ∧ Function.update q.status t st u = .runnable
    by_cases hut : u = t
    · subst hut
      rw [hself, hm.running.mem_self, and_iff_right ht]
    · rw [hs u hut, hm.running.mem_of_ne u hut]
      exact h.running u
  · show u ∈ l ↔ q.Alive u ∧ Function.update q.status t st u = .stopped
    by_cases hut : u = t
    · subst hut
      rw [hself, hm.stopped.mem_self, and_iff_right ht]
    · rw [hs u hut, hm.stopped.mem_of_ne u hut]
      exact h.stopped u
  · show (u ∈ z ∨ _) ↔ q.Alive u ∧ Function.update q.status t st u = .zombie
    by_cases hut : u = t
    · subst hut
      rw [hself, hm.resched.mem_self, and_iff_right ht]
      exact or_iff_left fun ⟨p, hp⟩ ↦ hnz p hp
    · rw [hs u hut, hm.resched.mem_of_ne u hut]
      exact h.zombie u
  · by_cases hut : u = t
    · subst hut
      exact hnz p hp
    · exact h.resched u ((hm.resched.mem_of_ne u hut).1 hu) p hp
  · obtain ⟨p, hp, hpa, hpz, hmem⟩ := h.child u hu hi
    refine ⟨p, hp, hpa, ?_, hmem⟩
    show Function.update q.status t st p ≠ .zombie
    by_cases hpt : p = t
    · subst hpt
      rw [hself]
      exact fun hst' ↦ (hz hst').2 u hu hp
    · rw [hs p hpt]
      exact hpz

theorem notMem_running (h : QInv q) (hst : q.status t ≠ .runnable) : t ∉ q.running :=
  fun hm ↦ hst ((h.running t).1 hm).2

theorem notMem_stopped (h : QInv q) (hst : q.status t ≠ .stopped) : t ∉ q.stopped :=
  fun hm ↦ hst ((h.stopped t).1 hm).2

theorem notMem_resched (h : QInv q) (hst : q.status t ≠ .zombie) : t ∉ q.resched :=
  fun hm ↦ hst (h.status_of_resched hm).2

/-- Waking a thread. -/
theorem wake (h : QInv q) (t : Nat) : QInv (q.wake t) := by
  rw [Queues.wake]
  cases hst : q.status t with
  | running => exact h
  | runnable => exact h
  | zombie => exact h
  | stopped =>
      have ht : q.Alive t := not_not.1 fun ha ↦ h.absent t ha hst
      have hnz : q.status t ≠ .zombie := by rw [hst]; decide
      refine h.move ht hnz (fun hc ↦ absurd hc (by decide)) ⟨h.current, fun u _ _ ↦ Iff.rfl,
        ?_, ?_, ?_, ?_⟩
      · refine iff_of_false (fun hc ↦ ?_) (by decide)
        rw [(h.onCpu t ht).2 hc] at hst
        cases hst
      · exact .snoc h.nodup_running (h.notMem_running (by rw [hst]; decide)) rfl
      · exact .erase h.nodup_stopped (by decide)
      · exact .refl h.nodup_resched (iff_of_false (h.notMem_resched hnz) (by decide))

/-- The current thread leaves the CPU for the queue that goes with its new status. -/
theorem leave (h : QInv q) (hc : q.current ≠ q.idle) (hst : newst ≠ .running)
    (hz : newst = .zombie → q.current ≠ q.init ∧ ∀ u, q.Alive u → q.parent u ≠ some q.current) :
    QInv ({ q with current := q.idle }.requeue q.current newst) := by
  obtain ⟨ha, hrun⟩ := h.status_current hc
  have hr : q.current ∉ q.running := h.notMem_running (by rw [hrun]; decide)
  have hl : q.current ∉ q.stopped := h.notMem_stopped (by rw [hrun]; decide)
  have hnz : q.status q.current ≠ .zombie := by rw [hrun]; decide
  have hz' : q.current ∉ q.resched := h.notMem_resched hnz
  have hoff : ∀ u, q.Alive u → u ≠ q.current → (u = q.idle ↔ u = q.current) :=
    fun u hu hne ↦ iff_of_false hu.2.2 hne
  have hself : q.current = q.idle ↔ newst = .running := iff_of_false hc hst
  cases newst with
  | running => exact absurd rfl hst
  | runnable =>
      refine h.move ha hnz hz ⟨.inl rfl, hoff, hself, ?_, ?_, ?_⟩
      · exact .snoc h.nodup_running hr rfl
      · exact .refl h.nodup_stopped (iff_of_false hl (by decide))
      · exact .refl h.nodup_resched (iff_of_false hz' (by decide))
  | stopped =>
      refine h.move ha hnz hz ⟨.inl rfl, hoff, hself, ?_, ?_, ?_⟩
      · exact .refl h.nodup_running (iff_of_false hr (by decide))
      · exact .snoc h.nodup_stopped hl rfl
      · exact .refl h.nodup_resched (iff_of_false hz' (by decide))
  | zombie =>
      refine h.move ha hnz hz ⟨.inl rfl, hoff, hself, ?_, ?_, ?_⟩
      · exact .refl h.nodup_running (iff_of_false hr (by decide))
      · exact .refl h.nodup_stopped (iff_of_false hl (by decide))
      · exact .snoc h.nodup_resched hz' rfl

/-- The CPU, when it is idle, takes the first thread of `running_threads`. -/
theorem enter (h : QInv q) (hc : q.current = q.idle) (hr : q.running = t :: ts) :
    QInv { q.setStatus t .running with running := ts, current := t } := by
  obtain ⟨ha, hst⟩ := (h.running t).1 (hr ▸ List.mem_cons_self)
  have hnz : q.status t ≠ .zombie := by rw [hst]; decide
  refine h.move ha hnz (fun hc ↦ absurd hc (by decide)) ⟨.inr ha, fun u hu hne ↦ ?_,
    iff_of_true rfl rfl, ?_, ?_, ?_⟩
  · rw [hc]
    exact iff_of_false hne hu.2.2
  · rw [hr]
    exact .tail (hr ▸ h.nodup_running) (by decide)
  · exact .refl h.nodup_stopped (iff_of_false (h.notMem_stopped (by rw [hst]; decide)) (by decide))
  · exact .refl h.nodup_resched (iff_of_false (h.notMem_resched hnz) (by decide))

/-- The current thread leaves the CPU to another one. -/
theorem requeue_enter (q : Queues) (old t : Nat) (ts : List Nat) (hne : t ≠ old)
    (hr : q.running = t :: ts) :
    ({ q.setStatus t .running with running := ts, current := t }.requeue old newst) =
      { ({ q with current := q.idle }.requeue old newst).setStatus t .running with
        running := (({ q with current := q.idle }.requeue old newst).running).tail
        current := t } := by
  have hcomm : ∀ st, Function.update (Function.update q.status t .running) old st =
      Function.update (Function.update q.status old st) t .running :=
    fun st ↦ Function.update_comm hne .running st q.status
  cases newst <;> simp only [Queues.requeue, Queues.setStatus, hcomm, hr, List.cons_append,
    List.tail_cons]

/-- `schedule` with a new status for the current thread. -/
theorem schedule (h : QInv q) (hst : newst ≠ .running)
    (hz : newst = .zombie → q.current ≠ q.init ∧ ∀ u, q.Alive u → q.parent u ≠ some q.current) :
    QInv (q.schedule newst) := by
  by_cases hc : q.current = q.idle
  · cases hr : q.running with
    | nil =>
        have hth : (if newst = .runnable then q.current else q.idle) = q.current := by
          rw [hc, ite_self]
        simp only [Queues.schedule, Queues.pick, hr, hth, if_true]
        exact h
    | cons t ts =>
        have hne : t ≠ q.current := by
          rw [hc]
          exact ((h.running t).1 (hr ▸ List.mem_cons_self)).1.2.2
        simp only [Queues.schedule, Queues.pick, hr, if_neg hne]
        rw [if_pos (show q.current = (q.setStatus t .running).idle from hc)]
        exact h.enter hc hr
  · cases hr : q.running with
    | nil =>
        by_cases hn : newst = .runnable
        · simp only [Queues.schedule, Queues.pick, hr, if_pos hn, if_true]
          exact h
        · simp only [Queues.schedule, Queues.pick, hr, if_neg hn, if_neg (Ne.symm hc), if_neg hc]
          have hl := h.leave hc hst hz
          rwa [hr] at hl
    | cons t ts =>
        have hne : t ≠ q.current := by
          rintro rfl
          have hrun := (h.status_current hc).2
          rw [((h.running _).1 (hr ▸ List.mem_cons_self)).2] at hrun
          cases hrun
        simp only [Queues.schedule, Queues.pick, hr, if_neg hne]
        rw [if_neg (show ¬q.current = (q.setStatus t .running).idle from hc),
          requeue_enter q q.current t ts hne hr]
        have hl := h.leave hc hst hz
        have hhead : ({ q with current := q.idle }.requeue q.current newst).running =
            t :: ({ q with current := q.idle }.requeue q.current newst).running.tail := by
          cases newst <;> simp only [Queues.requeue, Queues.setStatus, hr, List.cons_append,
            List.tail_cons]
        refine hl.enter ?_ hhead
        cases newst <;> rfl

/-! ## Children -/

/-- The parent of an alive thread is alive and no zombie. -/
theorem parent_alive (h : QInv q) (ht : q.Alive t) (hp : q.parent t = some p) :
    q.Alive p ∧ q.status p ≠ .zombie := by
  have hi : t ≠ q.init := by
    rintro rfl
    rw [h.init_parent] at hp
    cases hp
  obtain ⟨p', hp', ha, hz, -⟩ := h.child t ht hi
  rw [hp] at hp'
  cases hp'
  exact ⟨ha, hz⟩

/-- Nobody is the child of a thread that does not exist yet. -/
theorem parent_ne_next (h : QInv q) (ht : q.Alive t) : q.parent t ≠ some q.next :=
  fun hp ↦ Nat.lt_irrefl _ (h.parent_alive ht hp).1.1

theorem zombies_next (h : QInv q) : q.zombies q.next = [] := by
  apply List.eq_nil_iff_forall_not_mem.2
  intro t ht
  exact h.parent_ne_next (h.status_of_zombies ht).1 (h.zombies t _ ht)

theorem active_next (h : QInv q) : q.active q.next = [] := by
  apply List.eq_nil_iff_forall_not_mem.2
  intro t ht
  exact h.parent_ne_next (h.active t _ ht).1 (h.active t _ ht).2.1

section Lists

variable {f : Nat → List Nat} {u r : Nat}

/-- The lists of children after one has been put on the list of `p`. -/
theorem mem_update_cons : u ∈ Function.update f p (t :: f p) r ↔ u ∈ f r ∨ u = t ∧ r = p := by
  by_cases hr : r = p
  · subst hr
    rw [Function.update_self, List.mem_cons, and_iff_left rfl]
    exact or_comm
  · rw [Function.update_of_ne hr]
    exact (or_iff_left fun hc ↦ hr hc.2).symm

theorem nodup_update_cons (hf : ∀ r, (f r).Nodup) (ht : t ∉ f p) (r : Nat) :
    (Function.update f p (t :: f p) r).Nodup := by
  by_cases hr : r = p
  · subst hr
    rw [Function.update_self]
    exact List.nodup_cons.2 ⟨ht, hf r⟩
  · rw [Function.update_of_ne hr]
    exact hf r

end Lists

section Fork

variable {u : Nat}

theorem ne_next (hu : q.Alive u) : u ≠ q.next := Nat.ne_of_lt hu.1

theorem alive_fork (h : QInv q) : q.fork.Alive u ↔ q.Alive u ∨ u = q.next := by
  constructor
  · rintro ⟨hlt, hf, hi⟩
    rcases Nat.lt_succ_iff_lt_or_eq.1 hlt with hlt | heq
    · exact .inl ⟨hlt, hf, hi⟩
    · exact .inr heq
  · rintro (hu | rfl)
    · exact ⟨Nat.lt_succ_of_lt hu.1, hu.2⟩
    · exact ⟨Nat.lt_succ_self _, h.fresh _ (Nat.le_refl _), Nat.ne_of_gt h.idle_lt⟩

theorem status_fork (hu : q.Alive u) : q.fork.status u = q.status u :=
  Function.update_of_ne (ne_next hu) _ _

theorem status_fork_next (q : Queues) : q.fork.status q.next = .runnable :=
  Function.update_self _ _ _

theorem parent_fork (hu : q.Alive u) : q.fork.parent u = q.parent u :=
  Function.update_of_ne (ne_next hu) _ _

theorem parent_fork_next (q : Queues) : q.fork.parent q.next = some q.current :=
  Function.update_self _ _ _

theorem zombies_fork (h : QInv q) : q.fork.zombies = q.zombies := by
  show Function.update q.zombies q.next [] = q.zombies
  rw [← h.zombies_next]
  exact Function.update_eq_self _ _

theorem active_fork (h : QInv q) :
    q.fork.active = Function.update q.active q.current (q.next :: q.active q.current) := by
  show Function.update (Function.update q.active q.next []) q.current
    (q.next :: q.active q.current) = _
  rw [← h.active_next, Function.update_eq_self]

/-- The members of a queue that is not `running_threads` are those that were there. -/
theorem mem_fork (h : QInv q) {st : Status} (hne : st ≠ .runnable) :
    q.fork.Alive u ∧ q.fork.status u = st ↔ q.Alive u ∧ q.status u = st := by
  rw [alive_fork h]
  constructor
  · rintro ⟨hu | rfl, hs⟩
    · exact ⟨hu, status_fork hu ▸ hs⟩
    · exact absurd ((status_fork_next q).symm.trans hs) (Ne.symm hne)
  · rintro ⟨hu, hs⟩
    exact ⟨.inl hu, (status_fork hu).trans hs⟩

end Fork

/-- A new thread is runnable, and the child of the current one. -/
theorem fork (h : QInv q) (hc : q.current ≠ q.idle) : QInv q.fork := by
  obtain ⟨hca, hcr⟩ := h.status_current hc
  have hzom := h.zombies_fork
  have hnot : ∀ p, q.next ∉ q.active p := fun p hm ↦ ne_next (h.active _ _ hm).1 rfl
  have hact : ∀ u p, u ∈ q.fork.active p ↔ u ∈ q.active p ∨ u = q.next ∧ p = q.current := by
    intro u p
    rw [h.active_fork, mem_update_cons]
  refine ⟨Nat.lt_succ_of_lt h.idle_lt, h.idle_freed, fun u hu ↦ h.fresh u (Nat.le_of_succ_le hu),
    fun u hu ↦ ?_, h.alive_fork.2 (.inl h.init_alive), ?_, ?_, .inr (h.alive_fork.2 (.inl hca)),
    fun u hu ↦ ?_,
    fun u ↦ ?_, fun u ↦ ?_, fun u ↦ ?_, ?_, fun u p hu ↦ ?_, fun u p hu ↦ ?_,
    fun u hu hi ↦ ?_, ?_, h.nodup_stopped, h.nodup_resched, ?_, ?_⟩
  · rw [h.alive_fork, not_or] at hu
    rw [show q.fork.status u = q.status u from Function.update_of_ne hu.2 _ _]
    exact h.absent u hu.1
  · rw [show q.fork.init = q.init from rfl, parent_fork h.init_alive]
    exact h.init_parent
  · rw [show q.fork.init = q.init from rfl, status_fork h.init_alive]
    exact h.init_zombie
  · show _ ↔ u = q.current
    rcases h.alive_fork.1 hu with hu | rfl
    · rw [status_fork hu]
      exact h.onCpu u hu
    · rw [status_fork_next]
      exact iff_of_false (by decide) (Ne.symm (ne_next hca))
  · show u ∈ q.running ++ [q.next] ↔ _
    rw [List.mem_append, List.mem_singleton, h.running u, h.alive_fork]
    constructor
    · rintro (⟨hu, hs⟩ | rfl)
      · exact ⟨.inl hu, (status_fork hu).trans hs⟩
      · exact ⟨.inr rfl, status_fork_next q⟩
    · rintro ⟨hu | rfl, hs⟩
      · exact .inl ⟨hu, status_fork hu ▸ hs⟩
      · exact .inr rfl
  · exact (h.stopped u).trans (h.mem_fork (by decide)).symm
  · rw [hzom]
    exact (h.zombie u).trans (h.mem_fork (by decide)).symm
  · rw [hzom]
    exact h.resched
  · rw [hzom] at hu
    rw [parent_fork (h.status_of_zombies hu).1]
    exact h.zombies u p hu
  · rw [hzom]
    rcases (hact u p).1 hu with hu | ⟨rfl, rfl⟩
    · obtain ⟨ha, hp, hz⟩ := h.active u p hu
      exact ⟨h.alive_fork.2 (.inl ha), (parent_fork ha).trans hp, hz⟩
    · refine ⟨h.alive_fork.2 (.inr rfl), parent_fork_next q, fun r hr ↦ ?_⟩
      exact ne_next (h.status_of_zombies hr).1 rfl
  · rw [hzom]
    rcases h.alive_fork.1 hu with hu | rfl
    · obtain ⟨p, hp, hpa, hpz, hm⟩ := h.child u hu hi
      refine ⟨p, (parent_fork hu).trans hp, h.alive_fork.2 (.inl hpa), ?_, ?_⟩
      · rw [status_fork hpa]
        exact hpz
      · exact hm.imp (fun hm ↦ (hact u p).2 (.inl hm)) id
    · refine ⟨q.current, parent_fork_next q, h.alive_fork.2 (.inl hca), ?_,
        .inl ((hact _ _).2 (.inr ⟨rfl, rfl⟩))⟩
      rw [status_fork hca, hcr]
      decide
  · have hn : q.next ∉ q.running := fun hm ↦ ne_next ((h.running _).1 hm).1 rfl
    exact (Refiled.snoc h.nodup_running hn trivial).nodup
  · rw [hzom]
    exact h.nodup_zombies
  · rw [h.active_fork]
    exact nodup_update_cons h.nodup_active (hnot _)

/-- The first thread of `resched` is handed to its parent. -/
theorem mourn (h : QInv q) (hr : q.resched = t :: ts) (hp : q.parent t = some p) :
    QInv (q.mourn t p ts) := by
  have hmem : t ∈ q.resched := hr ▸ List.mem_cons_self
  obtain ⟨hta, htz⟩ := h.status_of_resched hmem
  have hnz : ∀ r, t ∉ q.zombies r := h.resched t hmem
  have hnd : (t :: ts).Nodup := hr ▸ h.nodup_resched
  have hup : (q.mourn t p ts).zombies = Function.update q.zombies p (t :: q.zombies p) := by
    have he : (fun r ↦ (q.zombies r).erase t) = q.zombies :=
      funext fun r ↦ List.erase_of_not_mem (hnz r)
    simp only [Queues.mourn, he]
    rw [List.erase_of_not_mem (hnz p)]
  have hzom : ∀ u r, u ∈ (q.mourn t p ts).zombies r ↔ u ∈ q.zombies r ∨ u = t ∧ r = p := by
    intro u r
    rw [hup, mem_update_cons]
  have hact : ∀ u r, u ∈ (q.mourn t p ts).active r ↔ u ≠ t ∧ u ∈ q.active r :=
    fun u r ↦ (h.nodup_active r).mem_erase_iff
  refine ⟨h.idle_lt, h.idle_freed, h.fresh, h.absent, h.init_alive, h.init_parent, h.init_zombie,
    h.current, h.onCpu, h.running, h.stopped, fun u ↦ ?_, fun u hu r hur ↦ ?_, fun u r hu ↦ ?_,
    fun u r hu ↦ ?_,
    fun u hu hi ↦ ?_, h.nodup_running, h.nodup_stopped, hnd.of_cons, fun r ↦ ?_,
    fun r ↦ (h.nodup_active r).erase t⟩
  · show u ∈ ts ∨ _ ↔ _
    refine Iff.trans ?_ (h.zombie u)
    rw [hr, List.mem_cons]
    constructor
    · rintro (hu | ⟨r, hur⟩)
      · exact .inl (.inr hu)
      · rcases (hzom u r).1 hur with hur | ⟨rfl, -⟩
        · exact .inr ⟨r, hur⟩
        · exact .inl (.inl rfl)
    · rintro ((rfl | hu) | ⟨r, hur⟩)
      · exact .inr ⟨p, (hzom _ _).2 (.inr ⟨rfl, rfl⟩)⟩
      · exact .inl hu
      · exact .inr ⟨r, (hzom _ _).2 (.inl hur)⟩
  · rcases (hzom u r).1 hur with hur | ⟨rfl, -⟩
    · exact h.resched u (hr ▸ List.mem_cons_of_mem t hu) r hur
    · exact (List.nodup_cons.1 hnd).1 hu
  · rcases (hzom u r).1 hu with hu | ⟨rfl, rfl⟩
    · exact h.zombies u r hu
    · exact hp
  · obtain ⟨hne, hu⟩ := (hact u r).1 hu
    obtain ⟨ha, hpr, hz⟩ := h.active u r hu
    refine ⟨ha, hpr, fun r' hr' ↦ ?_⟩
    rcases (hzom u r').1 hr' with hr' | ⟨rfl, -⟩
    · exact hz r' hr'
    · exact hne rfl
  · obtain ⟨p', hp', hpa, hpz, hm⟩ := h.child u hu hi
    refine ⟨p', hp', hpa, hpz, ?_⟩
    by_cases hut : u = t
    · subst hut
      rw [hp] at hp'
      cases hp'
      exact .inr ((hzom _ _).2 (.inr ⟨rfl, rfl⟩))
    · exact hm.imp (fun hm ↦ (hact u p').2 ⟨hut, hm⟩) fun hm ↦ (hzom u p').2 (.inl hm)
  · rw [hup]
    exact nodup_update_cons h.nodup_zombies (hnz p) r

section Inherit

variable {f : Nat → List Nat} {u i : Nat}

/-- The lists of children after `init` has inherited those of `t`. -/
theorem mem_inherited (hi : i ≠ t) : u ∈ Function.update (Function.update f i
    ((f t).reverse ++ f i)) t [] p ↔ p ≠ t ∧ (u ∈ f p ∨ p = i ∧ u ∈ f t) := by
  by_cases hpt : p = t
  · subst hpt
    rw [Function.update_self]
    exact iff_of_false List.not_mem_nil fun hc ↦ hc.1 rfl
  · rw [Function.update_of_ne hpt, and_iff_right hpt]
    by_cases hpi : p = i
    · subst hpi
      rw [Function.update_self, List.mem_append, List.mem_reverse, and_iff_right rfl]
      exact or_comm
    · rw [Function.update_of_ne hpi]
      exact (or_iff_left fun hc ↦ hpi hc.1).symm

theorem nodup_inherited (hf : ∀ p, (f p).Nodup) (hd : ∀ u, u ∈ f t → u ∉ f i) (p : Nat) :
    (Function.update (Function.update f i ((f t).reverse ++ f i)) t [] p).Nodup := by
  by_cases hpt : p = t
  · subst hpt
    rw [Function.update_self]
    exact List.nodup_nil
  · rw [Function.update_of_ne hpt]
    by_cases hpi : p = i
    · subst hpi
      rw [Function.update_self]
      exact (List.nodup_reverse.2 (hf t)).append (hf p) fun u hu hu' ↦
        hd u (List.mem_reverse.1 hu) hu'
    · rw [Function.update_of_ne hpi]
      exact hf p

theorem parent_inherit (h : QInv q) (hu : q.Alive u) : (q.inherit t).parent u =
    if q.parent u = some t then some q.init else q.parent u := by
  show (if u ∈ q.active t ++ q.zombies t then some q.init else q.parent u) = _
  refine if_congr ?_ rfl rfl
  rw [List.mem_append]
  constructor
  · rintro (hm | hm)
    · exact (h.active u t hm).2.1
    · exact h.zombies u t hm
  · intro hp
    have hne : u ≠ q.init := by
      rintro rfl
      rw [h.init_parent] at hp
      cases hp
    obtain ⟨p, hp', -, -, hm⟩ := h.child u hu hne
    rw [hp] at hp'
    cases hp'
    exact hm

theorem mem_active_inherit (hi : q.init ≠ t) : u ∈ (q.inherit t).active p ↔
    p ≠ t ∧ (u ∈ q.active p ∨ p = q.init ∧ u ∈ q.active t) := mem_inherited hi

theorem mem_zombies_inherit (hi : q.init ≠ t) : u ∈ (q.inherit t).zombies p ↔
    p ≠ t ∧ (u ∈ q.zombies p ∨ p = q.init ∧ u ∈ q.zombies t) := mem_inherited hi

/-- Nobody becomes a zombie child, or is one no longer. -/
theorem exists_mem_zombies_inherit (hi : q.init ≠ t) :
    (∃ p, u ∈ (q.inherit t).zombies p) ↔ ∃ p, u ∈ q.zombies p := by
  constructor
  · rintro ⟨p, hp⟩
    rcases ((mem_zombies_inherit hi).1 hp).2 with hm | ⟨-, hm⟩
    · exact ⟨p, hm⟩
    · exact ⟨t, hm⟩
  · rintro ⟨p, hp⟩
    by_cases hpt : p = t
    · subst hpt
      exact ⟨q.init, (mem_zombies_inherit hi).2 ⟨hi, .inr ⟨rfl, hp⟩⟩⟩
    · exact ⟨p, (mem_zombies_inherit hi).2 ⟨hpt, .inl hp⟩⟩

end Inherit

/-- `init` inherits the children of a thread, and nobody remains the child of it. -/
theorem inherit (h : QInv q) (hi : q.init ≠ t) :
    QInv (q.inherit t) ∧ ∀ u, (q.inherit t).Alive u → (q.inherit t).parent u ≠ some t := by
  refine ⟨⟨h.idle_lt, h.idle_freed, h.fresh, h.absent, h.init_alive, ?_, h.init_zombie, h.current,
    h.onCpu, h.running, h.stopped, fun u ↦ ?_, fun u hu p hp ↦ ?_, fun u p hu ↦ ?_, fun u p hu ↦ ?_,
    fun u hu hne ↦ ?_, h.nodup_running, h.nodup_stopped, h.nodup_resched, ?_, ?_⟩, ?_⟩
  · rw [show (q.inherit t).init = q.init from rfl, h.parent_inherit h.init_alive, h.init_parent]
    rfl
  · rw [exists_mem_zombies_inherit hi]
    exact h.zombie u
  · obtain ⟨r, hr⟩ := (exists_mem_zombies_inherit hi).1 ⟨p, hp⟩
    exact h.resched u hu r hr
  · obtain ⟨hpt, hm⟩ := (mem_zombies_inherit hi).1 hu
    rcases hm with hm | ⟨rfl, hm⟩
    · rw [h.parent_inherit (h.status_of_zombies hm).1, h.zombies u p hm,
        if_neg fun hc ↦ hpt (Option.some.inj hc)]
    · rw [h.parent_inherit (h.status_of_zombies hm).1, if_pos (h.zombies u t hm)]
  · obtain ⟨hpt, hm⟩ := (mem_active_inherit hi).1 hu
    have hz : ∀ r, (∀ r, u ∉ q.zombies r) → u ∉ (q.inherit t).zombies r := by
      intro r hn hr
      obtain ⟨r', hr'⟩ := (exists_mem_zombies_inherit hi).1 ⟨r, hr⟩
      exact hn r' hr'
    rcases hm with hm | ⟨rfl, hm⟩
    · obtain ⟨ha, hp, hn⟩ := h.active u p hm
      refine ⟨ha, ?_, fun r ↦ hz r hn⟩
      rw [h.parent_inherit ha, hp, if_neg fun hc ↦ hpt (Option.some.inj hc)]
    · obtain ⟨ha, hp, hn⟩ := h.active u t hm
      exact ⟨ha, (h.parent_inherit ha).trans (if_pos hp), fun r ↦ hz r hn⟩
  · obtain ⟨p, hp, hpa, hpz, hm⟩ := h.child u hu hne
    by_cases hpt : p = t
    · subst hpt
      refine ⟨q.init, (h.parent_inherit hu).trans (if_pos hp), h.init_alive, h.init_zombie, ?_⟩
      exact hm.imp (fun hm ↦ (mem_active_inherit hi).2 ⟨hi, .inr ⟨rfl, hm⟩⟩)
        fun hm ↦ (mem_zombies_inherit hi).2 ⟨hi, .inr ⟨rfl, hm⟩⟩
    · refine ⟨p, ?_, hpa, hpz, ?_⟩
      · rw [h.parent_inherit hu, hp, if_neg fun hc ↦ hpt (Option.some.inj hc)]
      · exact hm.imp (fun hm ↦ (mem_active_inherit hi).2 ⟨hpt, .inl hm⟩)
          fun hm ↦ (mem_zombies_inherit hi).2 ⟨hpt, .inl hm⟩
  · refine nodup_inherited h.nodup_zombies fun u hu hu' ↦ hi ?_
    exact Option.some.inj ((h.zombies u _ hu').symm.trans (h.zombies u t hu))
  · refine nodup_inherited h.nodup_active fun u hu hu' ↦ hi ?_
    exact Option.some.inj ((h.active u _ hu').2.1.symm.trans (h.active u t hu).2.1)
  · intro u hu hp
    rw [h.parent_inherit hu] at hp
    split at hp
    · exact hi (Option.some.inj hp)
    · next hn => exact hn hp

section Reap

variable {u : Nat}

theorem alive_reap : (q.reap c cs).Alive u ↔ q.Alive u ∧ u ≠ c := by
  show u < q.next ∧ Function.update q.freed c true u = false ∧ u ≠ q.idle ↔ _
  by_cases huc : u = c
  · subst huc
    rw [Function.update_self]
    exact iff_of_false (fun hc ↦ Bool.noConfusion hc.2.1) fun hc ↦ hc.2 rfl
  · rw [Function.update_of_ne huc, and_iff_left huc]
    exact Iff.rfl

theorem mem_zombies_reap (h : QInv q) (hz : q.zombies q.current = c :: cs) :
    u ∈ (q.reap c cs).zombies p ↔ u ≠ c ∧ u ∈ q.zombies p := by
  have hcp := h.zombies c q.current (hz ▸ List.mem_cons_self)
  have hnd : (c :: cs).Nodup := hz ▸ h.nodup_zombies q.current
  show u ∈ Function.update q.zombies q.current cs p ↔ _
  by_cases hp : p = q.current
  · subst hp
    rw [Function.update_self, hz, List.mem_cons]
    constructor
    · intro hu
      refine ⟨?_, .inr hu⟩
      rintro rfl
      exact (List.nodup_cons.1 hnd).1 hu
    · rintro ⟨hne, hu⟩
      exact hu.resolve_left hne
  · rw [Function.update_of_ne hp]
    refine ⟨fun hu ↦ ⟨?_, hu⟩, And.right⟩
    rintro rfl
    exact hp (Option.some.inj ((h.zombies _ p hu).symm.trans hcp))

/-- The members of a queue without zombies stay. -/
theorem mem_reap (hcz : q.status c = .zombie) {st : Status} (hne : st ≠ .zombie) :
    (q.reap c cs).Alive u ∧ q.status u = st ↔ q.Alive u ∧ q.status u = st := by
  rw [alive_reap, and_assoc]
  refine and_congr_right fun _ ↦ and_iff_right_of_imp fun hs ↦ ?_
  rintro rfl
  exact hne (hs.symm.trans hcz)

end Reap

/-- A zombie child of the current thread is freed. -/
theorem reap (h : QInv q) (hz : q.zombies q.current = c :: cs) : QInv (q.reap c cs) := by
  have hmem : c ∈ q.zombies q.current := hz ▸ List.mem_cons_self
  obtain ⟨hca, hcz⟩ := h.status_of_zombies hmem
  have hnd : (c :: cs).Nodup := hz ▸ h.nodup_zombies q.current
  have hzom : ∀ u p, u ∈ (q.reap c cs).zombies p ↔ u ≠ c ∧ u ∈ q.zombies p :=
    fun _ _ ↦ h.mem_zombies_reap hz
  have hcur : q.Alive q.current → q.current ≠ c := by
    intro ha heq
    have hrun := (h.onCpu _ ha).2 rfl
    rw [heq, hcz] at hrun
    cases hrun
  refine ⟨h.idle_lt, ?_, fun u hu ↦ ?_, fun u hu ↦ ?_, alive_reap.2 ⟨h.init_alive, ?_⟩,
    h.init_parent, h.init_zombie, h.current.imp id fun ha ↦ alive_reap.2 ⟨ha, hcur ha⟩,
    fun u hu ↦ h.onCpu u (alive_reap.1 hu).1,
    fun u ↦ (h.running u).trans (mem_reap hcz (by decide)).symm,
    fun u ↦ (h.stopped u).trans (mem_reap hcz (by decide)).symm, fun u ↦ ?_, fun u hu p hp ↦ ?_,
    fun u p hu ↦ h.zombies u p ((hzom u p).1 hu).2, fun u p hu ↦ ?_, fun u hu hi ↦ ?_,
    h.nodup_running, h.nodup_stopped, h.nodup_resched, fun p ↦ ?_, h.nodup_active⟩
  · show Function.update q.freed c true q.idle = false
    rw [Function.update_of_ne (Ne.symm hca.2.2)]
    exact h.idle_freed
  · show Function.update q.freed c true u = false
    rw [Function.update_of_ne (Nat.ne_of_gt (Nat.lt_of_lt_of_le hca.1 hu))]
    exact h.fresh u hu
  · by_cases huc : u = c
    · rw [huc, show (q.reap c cs).status c = .zombie from hcz]
      decide
    · exact h.absent u fun ha ↦ hu (alive_reap.2 ⟨ha, huc⟩)
  · intro heq
    exact h.init_zombie (show q.status q.init = .zombie from heq ▸ hcz)
  · show (u ∈ q.resched ∨ _) ↔ (q.reap c cs).Alive u ∧ q.status u = .zombie
    rw [alive_reap, and_right_comm, ← h.zombie u]
    constructor
    · rintro (hu | ⟨p, hp⟩)
      · refine ⟨.inl hu, ?_⟩
        rintro rfl
        exact h.resched _ hu _ hmem
      · obtain ⟨hne, hm⟩ := (hzom u p).1 hp
        exact ⟨.inr ⟨p, hm⟩, hne⟩
    · rintro ⟨hu | ⟨p, hp⟩, hne⟩
      · exact .inl hu
      · exact .inr ⟨p, (hzom u p).2 ⟨hne, hp⟩⟩
  · exact h.resched u hu p ((hzom u p).1 hp).2
  · obtain ⟨ha, hp, hn⟩ := h.active u p hu
    refine ⟨alive_reap.2 ⟨ha, ?_⟩, hp, fun r hr ↦ hn r ((hzom u r).1 hr).2⟩
    rintro rfl
    exact hn _ hmem
  · obtain ⟨ha, hne⟩ := alive_reap.1 hu
    obtain ⟨p, hp, hpa, hpz, hm⟩ := h.child u ha hi
    refine ⟨p, hp, alive_reap.2 ⟨hpa, ?_⟩, hpz, hm.imp id fun hm ↦ (hzom u p).2 ⟨hne, hm⟩⟩
    rintro rfl
    exact hpz hcz
  · show (Function.update q.zombies q.current cs p).Nodup
    by_cases hp : p = q.current
    · subst hp
      rw [Function.update_self]
      exact hnd.of_cons
    · rw [Function.update_of_ne hp]
      exact h.nodup_zombies p

end QInv

end Mh.Sched
