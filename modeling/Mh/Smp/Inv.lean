import Mh.Smp.Model
import Mh.Lib.Refile

/-!
# Who has which thread

`View` is what the queues are about: the threads that each CPU has, the status of each
thread, and the two queues.  A CPU has the thread that it runs; once it has taken
another one it has both, until it puts the old one on a queue; from then on it has only
the new one, although it is still on the stack of the old one.

`Inv` says that no two CPUs have the same thread, that those on the queues are had by
none, and that statuses and queues agree but between the store of a status and the
insertion that belongs to it (`mid`).
-/

namespace Mh.Smp

open Mh.Lib
open Mh.Sched (Status)

variable {c d : Nat} {t u old th : Tid} {newst : Status} {ts : List Tid}

/-- The threads that a CPU has. -/
def Cpu.hold (k : Cpu) : List Tid :=
  match k.pc with
  | .picked _ th | .stored _ th => [k.stack, th]
  | .leaving th => [th]
  | _ => [k.stack]

/-- The old thread and its new status, when the status has been stored and the thread is
not on a queue yet. -/
def Cpu.mid (k : Cpu) : Option (Tid × Status) :=
  match k.pc with
  | .stored newst _ => some (k.stack, newst)
  | _ => none

/-- The threads as far as the queues are concerned. -/
structure View where
  hold : Nat → List Tid
  mid : Nat → Option (Tid × Status)
  status : Tid → Status
  next : Nat
  running : List Tid
  stopped : List Tid

/-- The view of a state. -/
def State.view (s : State) : View where
  hold c := (s.cpu c).hold
  mid c := (s.cpu c).mid
  status t := (s.thread t).status
  next := s.next
  running := s.running
  stopped := s.stopped

variable {v : View}

/-- A thread on a queue, with the status that goes with it. -/
structure Queued (v : View) (t : Tid) (st : Status) : Prop where
  status : v.status t = st
  proc : ∃ n, t = .proc n ∧ n < v.next
  free : ∀ c, t ∉ v.hold c

/-- The invariant of the queues and the CPUs. -/
structure Inv (v : View) : Prop where
  excl : ∀ c c' t, t ∈ v.hold c → t ∈ v.hold c' → c = c'
  idle : ∀ c d, .idle d ∈ v.hold c → d = c
  nodup : ∀ c, (v.hold c).Nodup
  lt : ∀ c n, .proc n ∈ v.hold c → n < v.next
  idleStatus : ∀ d, v.status (.idle d) = .running
  onCpu : ∀ c t, t ∈ v.hold c → (∀ st, v.mid c ≠ some (t, st)) → v.status t = .running
  mid : ∀ c t st, v.mid c = some (t, st) →
    t ∈ v.hold c ∧ v.status t = st ∧ st ≠ .running ∧ ∀ d, t ≠ .idle d
  running : ∀ t ∈ v.running, Queued v t .runnable
  stopped : ∀ t ∈ v.stopped, Queued v t .stopped
  lost : ∀ n, n < v.next → v.status (.proc n) = .stopped →
    .proc n ∈ v.stopped ∨ ∃ c, v.mid c = some (.proc n, .stopped)
  nodup_running : v.running.Nodup
  nodup_stopped : v.stopped.Nodup

namespace Inv

/-- Waking a stopped thread. -/
theorem wake (h : Inv v) (ht : t ∈ v.stopped) :
    Inv { v with
      status := Function.update v.status t .runnable
      stopped := v.stopped.erase t
      running := v.running ++ [t] } := by
  have hq := h.stopped t ht
  obtain ⟨n, rfl, hn⟩ := hq.proc
  have hs : ∀ u, u ≠ .proc n → Function.update v.status (.proc n) .runnable u = v.status u :=
    fun u hu ↦ Function.update_of_ne hu _ _
  have hheld : ∀ c u, u ∈ v.hold c → u ≠ .proc n := by
    rintro c u hu rfl
    exact hq.free c hu
  have hnr : Tid.proc n ∉ v.running := by
    intro hm
    have hst := (h.running _ hm).status
    rw [hq.status] at hst
    cases hst
  refine ⟨h.excl, h.idle, h.nodup, h.lt, fun d ↦ (hs _ (by simp)).trans (h.idleStatus d),
    fun c u hu hm ↦ (hs u (hheld c u hu)).trans (h.onCpu c u hu hm), fun c u st hm ↦ ?_,
    fun u hu ↦ ?_, fun u hu ↦ ?_, fun m hm hst ↦ ?_, ?_, h.nodup_stopped.erase _⟩
  · obtain ⟨hh, hst, hne⟩ := h.mid c u st hm
    exact ⟨hh, (hs u (hheld c u hh)).trans hst, hne⟩
  · rcases List.mem_append.1 hu with hu | hu
    · obtain ⟨hst, hp, hf⟩ := h.running u hu
      refine ⟨(hs u ?_).trans hst, hp, hf⟩
      rintro rfl
      exact hnr hu
    · rw [List.mem_singleton.1 hu]
      exact ⟨Function.update_self _ _ _, ⟨n, rfl, hn⟩, hq.free⟩
  · obtain ⟨hne, hu⟩ := h.nodup_stopped.mem_erase_iff.1 hu
    obtain ⟨hst, hp, hf⟩ := h.stopped u hu
    exact ⟨(hs u hne).trans hst, hp, hf⟩
  · have hst : Function.update v.status (.proc n) .runnable (.proc m) = .stopped := hst
    by_cases hne : Tid.proc m = .proc n
    · rw [hne, Function.update_self] at hst
      cases hst
    · rw [hs _ hne] at hst
      exact (h.lost m hm hst).imp (fun hm ↦ h.nodup_stopped.mem_erase_iff.2 ⟨hne, hm⟩) id
  · exact (Refiled.snoc h.nodup_running hnr trivial).nodup

/-- What a CPU has after a step of CPU `c`. -/
theorem mem_hold {l : List Tid} {c' : Nat} : u ∈ Function.update v.hold c l c' ↔
    (c' = c ∧ u ∈ l) ∨ (c' ≠ c ∧ u ∈ v.hold c') := by
  by_cases hc : c' = c
  · subst hc
    rw [Function.update_self]
    exact ⟨fun hu ↦ .inl ⟨rfl, hu⟩, fun hu ↦ hu.elim And.right fun hu ↦ absurd rfl hu.1⟩
  · rw [Function.update_of_ne hc]
    exact ⟨fun hu ↦ .inr ⟨hc, hu⟩, fun hu ↦ hu.elim (fun hu ↦ absurd hu.1 hc) And.right⟩

/-- A CPU takes the first thread of `running_threads`. -/
theorem take (h : Inv v) (hr : v.running = t :: ts) (hc : v.hold c = [old])
    (hm : v.mid c = none) :
    Inv { v with
      hold := Function.update v.hold c [old, t]
      status := Function.update v.status t .running
      running := ts } := by
  have hq := h.running t (hr ▸ List.mem_cons_self)
  obtain ⟨n, rfl, hn⟩ := hq.proc
  have hs : ∀ u, u ≠ .proc n → Function.update v.status (.proc n) .running u = v.status u :=
    fun u hu ↦ Function.update_of_ne hu _ _
  have hself : Function.update v.status (.proc n) .running (.proc n) = .running :=
    Function.update_self _ _ _
  have hheld : ∀ c u, u ∈ v.hold c → u ≠ .proc n := by
    rintro c u hu rfl
    exact hq.free c hu
  have hnd : (Tid.proc n :: ts).Nodup := hr ▸ h.nodup_running
  have hmem : ∀ c' u, u ∈ Function.update v.hold c [old, .proc n] c' ↔
      u ∈ v.hold c' ∨ c' = c ∧ u = .proc n := by
    intro c' u
    rw [mem_hold]
    by_cases hcc : c' = c
    · subst hcc
      simp [hc]
    · simp [hcc]
  have hqueued : ∀ u st, u ≠ .proc n → Queued v u st → Queued { v with
      hold := Function.update v.hold c [old, .proc n]
      status := Function.update v.status (.proc n) .running
      running := ts } u st := by
    rintro u st hne ⟨hst, hp, hf⟩
    refine ⟨(hs u hne).trans hst, hp, fun c' hu ↦ ?_⟩
    rcases (hmem c' u).1 hu with hu | ⟨-, rfl⟩
    · exact hf c' hu
    · exact hne rfl
  refine ⟨fun c₁ c₂ u h₁ h₂ ↦ ?_, fun c' d hd ↦ ?_, fun c' ↦ ?_, fun c' m hm ↦ ?_,
    fun d ↦ (hs _ (by simp)).trans (h.idleStatus d), fun c' u hu hmid ↦ ?_, fun c' u st hmid ↦ ?_,
    fun u hu ↦ ?_, fun u hu ↦ ?_, fun m hm hst ↦ ?_, hnd.of_cons, h.nodup_stopped⟩
  · rcases (hmem c₁ u).1 h₁ with g₁ | ⟨rfl, hu⟩
    · rcases (hmem c₂ u).1 h₂ with g₂ | ⟨-, hu⟩
      · exact h.excl c₁ c₂ u g₁ g₂
      · exact absurd hu (hheld c₁ u g₁)
    · rcases (hmem c₂ u).1 h₂ with g₂ | ⟨rfl, -⟩
      · exact absurd hu (hheld c₂ u g₂)
      · rfl
  · rcases (hmem c' _).1 hd with hd | ⟨-, hd⟩
    · exact h.idle c' d hd
    · cases hd
  · show (Function.update v.hold c _ c').Nodup
    by_cases hcc : c' = c
    · subst hcc
      rw [Function.update_self, List.nodup_cons, List.mem_singleton]
      exact ⟨hheld c' old (hc ▸ List.mem_singleton_self old), List.nodup_singleton _⟩
    · rw [Function.update_of_ne hcc]
      exact h.nodup c'
  · rcases (hmem c' _).1 hm with hm | ⟨-, hm⟩
    · exact h.lt c' m hm
    · cases hm
      exact hn
  · rcases (hmem c' u).1 hu with hu | ⟨-, rfl⟩
    · exact (hs u (hheld c' u hu)).trans (h.onCpu c' u hu hmid)
    · exact hself
  · obtain ⟨hh, hst, hne⟩ := h.mid c' u st hmid
    exact ⟨(hmem c' u).2 (.inl hh), (hs u (hheld c' u hh)).trans hst, hne⟩
  · have hne : u ≠ .proc n := by
      rintro rfl
      exact (List.nodup_cons.1 hnd).1 hu
    exact hqueued u _ hne (h.running u (hr ▸ List.mem_cons_of_mem _ hu))
  · have hne : u ≠ .proc n := by
      rintro rfl
      have hst := (h.stopped _ hu).status
      rw [hq.status] at hst
      cases hst
    exact hqueued u _ hne (h.stopped u hu)
  · have hst : Function.update v.status (.proc n) .running (.proc m) = .stopped := hst
    by_cases hne : Tid.proc m = .proc n
    · rw [hne, hself] at hst
      cases hst
    · rw [hs _ hne] at hst
      exact h.lost m hm hst

/-- A CPU keeps some of its threads, and may take its idle thread. -/
theorem rehold {l : List Tid} (h : Inv v) (hm : v.mid c = none) (hd : l.Nodup)
    (hl : ∀ u ∈ l, u ∈ v.hold c ∨ u = .idle c) :
    Inv { v with hold := Function.update v.hold c l } := by
  have hmem : ∀ c' u, u ∈ Function.update v.hold c l c' → u ∈ v.hold c' ∨ c' = c ∧ u = .idle c := by
    intro c' u hu
    rcases mem_hold.1 hu with ⟨rfl, hul⟩ | ⟨-, hul⟩
    · exact (hl u hul).imp id fun hi ↦ ⟨rfl, hi⟩
    · exact .inl hul
  have hqueued : ∀ u st, Queued v u st →
      Queued { v with hold := Function.update v.hold c l } u st := by
    rintro u st ⟨hst, hp, hf⟩
    refine ⟨hst, hp, fun c' hu ↦ ?_⟩
    rcases hmem c' u hu with hu | ⟨-, rfl⟩
    · exact hf c' hu
    · obtain ⟨n, hn, -⟩ := hp
      cases hn
  refine ⟨fun c₁ c₂ u h₁ h₂ ↦ ?_, fun c' d hd ↦ ?_, fun c' ↦ ?_, fun c' m hm ↦ ?_, h.idleStatus,
    fun c' u hu hmid ↦ ?_, fun c' u st hmid ↦ ?_, fun u hu ↦ hqueued u _ (h.running u hu),
    fun u hu ↦ hqueued u _ (h.stopped u hu), h.lost, h.nodup_running, h.nodup_stopped⟩
  · rcases hmem c₁ u h₁ with g₁ | ⟨rfl, hu⟩
    · rcases hmem c₂ u h₂ with g₂ | ⟨rfl, hu⟩
      · exact h.excl c₁ c₂ u g₁ g₂
      · rw [hu] at g₁
        exact (h.idle c₁ _ g₁).symm
    · rcases hmem c₂ u h₂ with g₂ | ⟨rfl, -⟩
      · rw [hu] at g₂
        exact h.idle c₂ _ g₂
      · rfl
  · rcases hmem c' _ hd with hd | ⟨rfl, hd⟩
    · exact h.idle c' d hd
    · cases hd
      rfl
  · show (Function.update v.hold c l c').Nodup
    by_cases hcc : c' = c
    · subst hcc
      rw [Function.update_self]
      exact hd
    · rw [Function.update_of_ne hcc]
      exact h.nodup c'
  · rcases hmem c' _ hm with hm | ⟨-, hm⟩
    · exact h.lt c' m hm
    · cases hm
  · rcases hmem c' u hu with hu | ⟨-, rfl⟩
    · exact h.onCpu c' u hu hmid
    · exact h.idleStatus c
  · obtain ⟨hh, hst⟩ := h.mid c' u st hmid
    refine ⟨mem_hold.2 (.inr ⟨?_, hh⟩), hst⟩
    rintro rfl
    rw [hm] at hmid
    cases hmid

/-- The status of the old thread is stored. -/
theorem store (h : Inv v) (hh : old ∈ v.hold c) (hm : v.mid c = none) (hi : ∀ d, old ≠ .idle d)
    (hst : newst ≠ .running) :
    Inv { v with
      mid := Function.update v.mid c (some (old, newst))
      status := Function.update v.status old newst } := by
  have hs : ∀ u, u ≠ old → Function.update v.status old newst u = v.status u :=
    fun u hu ↦ Function.update_of_ne hu _ _
  have hself : Function.update v.status old newst old = newst := Function.update_self _ _ _
  have hmid : ∀ c' u st, Function.update v.mid c (some (old, newst)) c' = some (u, st) ↔
      (c' = c ∧ u = old ∧ st = newst) ∨ (c' ≠ c ∧ v.mid c' = some (u, st)) := by
    intro c' u st
    by_cases hc : c' = c
    · subst hc
      rw [Function.update_self, Option.some.injEq, Prod.mk.injEq]
      exact ⟨fun ⟨h₁, h₂⟩ ↦ .inl ⟨rfl, h₁.symm, h₂.symm⟩, fun h ↦ h.elim
        (fun h ↦ ⟨h.2.1.symm, h.2.2.symm⟩) fun h ↦ absurd rfl h.1⟩
    · rw [Function.update_of_ne hc]
      exact ⟨fun h ↦ .inr ⟨hc, h⟩, fun h ↦ h.elim (fun h ↦ absurd h.1 hc) And.right⟩
  have hother : ∀ c' u, c' ≠ c → u ∈ v.hold c' → u ≠ old := by
    rintro c' u hc hu rfl
    exact hc (h.excl c' c u hu hh)
  have hqueued : ∀ u st, Queued v u st → Queued { v with
      mid := Function.update v.mid c (some (old, newst))
      status := Function.update v.status old newst } u st := by
    rintro u st ⟨hs', hp, hf⟩
    refine ⟨(hs u ?_).trans hs', hp, hf⟩
    rintro rfl
    exact hf c hh
  refine ⟨h.excl, h.idle, h.nodup, h.lt, fun d ↦ (hs _ (hi d).symm).trans (h.idleStatus d),
    fun c' u hu hn ↦ ?_, fun c' u st hu ↦ ?_, fun u hu ↦ hqueued u _ (h.running u hu),
    fun u hu ↦ hqueued u _ (h.stopped u hu), fun n hn hst' ↦ ?_, h.nodup_running,
    h.nodup_stopped⟩
  · have hne : u ≠ old := by
      rintro rfl
      by_cases hc : c' = c
      · exact hn newst ((hmid c' u newst).2 (.inl ⟨hc, rfl, rfl⟩))
      · exact hother c' u hc hu rfl
    refine (hs u hne).trans (h.onCpu c' u hu fun st hm' ↦ ?_)
    refine hn st ((hmid c' u st).2 (.inr ⟨?_, hm'⟩))
    rintro rfl
    rw [hm] at hm'
    cases hm'
  · rcases (hmid c' u st).1 hu with ⟨rfl, rfl, rfl⟩ | ⟨hc, hu⟩
    · exact ⟨hh, hself, hst, hi⟩
    · obtain ⟨hh', hs', hne⟩ := h.mid c' u st hu
      exact ⟨hh', (hs u (hother c' u hc hh')).trans hs', hne⟩
  · have hst' : Function.update v.status old newst (.proc n) = .stopped := hst'
    by_cases hne : Tid.proc n = old
    · rw [hne, hself] at hst'
      exact .inr ⟨c, (hmid c _ _).2 (.inl ⟨rfl, hne, hst'.symm⟩)⟩
    · rw [hs _ hne] at hst'
      refine (h.lost n hn hst').imp id fun ⟨c', hm'⟩ ↦ ⟨c', (hmid c' _ _).2 (.inr ⟨?_, hm'⟩)⟩
      rintro rfl
      rw [hm] at hm'
      cases hm'

/-- The old thread joins the queue for its new status. -/
theorem insert {r l : List Tid} (h : Inv v) (hh : v.hold c = [old, th])
    (hm : v.mid c = some (old, newst)) (hr : Refiled v.running r old (newst = .runnable))
    (hl : Refiled v.stopped l old (newst = .stopped)) :
    Inv { v with
      hold := Function.update v.hold c [th]
      mid := Function.update v.mid c none
      running := r
      stopped := l } := by
  obtain ⟨hmem, hst, hnr, hi⟩ := h.mid c old newst hm
  have hne : th ≠ old := by
    have hd := h.nodup c
    rw [hh, List.nodup_cons, List.mem_singleton] at hd
    exact Ne.symm hd.1
  have hsub : ∀ c' u, u ∈ Function.update v.hold c [th] c' → u ∈ v.hold c' ∧ (c' = c → u = th) := by
    intro c' u hu
    rcases mem_hold.1 hu with ⟨rfl, hul⟩ | ⟨hc, hul⟩
    · have hut := List.mem_singleton.1 hul
      refine ⟨?_, fun _ ↦ hut⟩
      rw [hh, hut]
      exact List.mem_cons_of_mem _ (List.mem_singleton_self th)
    · exact ⟨hul, fun hc' ↦ absurd hc' hc⟩
  have hfree : ∀ c', old ∉ Function.update v.hold c [th] c' := by
    intro c' hu
    obtain ⟨hu, hc⟩ := hsub c' old hu
    exact hne (hc (h.excl c' c old hu hmem)).symm
  have hmid : ∀ c' u st, Function.update v.mid c none c' = some (u, st) →
      c' ≠ c ∧ v.mid c' = some (u, st) := by
    intro c' u st hu
    by_cases hc : c' = c
    · subst hc
      rw [Function.update_self] at hu
      cases hu
    · rw [Function.update_of_ne hc] at hu
      exact ⟨hc, hu⟩
  have hproc : ∃ n, old = .proc n ∧ n < v.next := by
    cases old with
    | idle d => exact absurd rfl (hi d)
    | proc n => exact ⟨n, rfl, h.lt c n hmem⟩
  have hqueued : ∀ u st, Queued v u st → Queued { v with
      hold := Function.update v.hold c [th], mid := Function.update v.mid c none, running := r,
      stopped := l } u st := by
    rintro u st ⟨hst, hp, hf⟩
    exact ⟨hst, hp, fun c' hu ↦ hf c' (hsub c' u hu).1⟩
  refine ⟨fun c₁ c₂ u h₁ h₂ ↦ h.excl c₁ c₂ u (hsub c₁ u h₁).1 (hsub c₂ u h₂).1,
    fun c' d hd ↦ h.idle c' d (hsub c' _ hd).1, fun c' ↦ ?_,
    fun c' n hn ↦ h.lt c' n (hsub c' _ hn).1, h.idleStatus, fun c' u hu hn ↦ ?_,
    fun c' u st hu ↦ ?_, fun u hu ↦ ?_, fun u hu ↦ ?_,
    fun n hn hst' ↦ ?_, hr.nodup, hl.nodup⟩
  · show (Function.update v.hold c [th] c').Nodup
    by_cases hcc : c' = c
    · subst hcc
      rw [Function.update_self]
      exact List.nodup_singleton th
    · rw [Function.update_of_ne hcc]
      exact h.nodup c'
  · obtain ⟨hu, hc⟩ := hsub c' u hu
    refine h.onCpu c' u hu fun st hm' ↦ ?_
    by_cases hcc : c' = c
    · subst hcc
      rw [hm] at hm'
      cases hm'
      exact hne (hc rfl).symm
    · refine hn st ?_
      show Function.update v.mid c none c' = _
      rw [Function.update_of_ne hcc]
      exact hm'
  · obtain ⟨hc, hu⟩ := hmid c' u st hu
    obtain ⟨hh', hst'⟩ := h.mid c' u st hu
    exact ⟨mem_hold.2 (.inr ⟨hc, hh'⟩), hst'⟩
  · by_cases huo : u = old
    · subst huo
      exact ⟨hst.trans (hr.mem_self.1 hu), hproc, hfree⟩
    · exact hqueued u _ (h.running u ((hr.mem_of_ne u huo).1 hu))
  · by_cases huo : u = old
    · subst huo
      exact ⟨hst.trans (hl.mem_self.1 hu), hproc, hfree⟩
    · exact hqueued u _ (h.stopped u ((hl.mem_of_ne u huo).1 hu))
  · by_cases huo : Tid.proc n = old
    · rw [huo] at hst' ⊢
      exact .inl (hl.mem_self.2 (hst.symm.trans hst'))
    · refine (h.lost n hn hst').imp (hl.mem_of_ne _ huo).2 fun ⟨c', hm'⟩ ↦ ⟨c', ?_⟩
      show Function.update v.mid c none c' = _
      rw [Function.update_of_ne]
      · exact hm'
      · rintro rfl
        rw [hm] at hm'
        cases hm'
        exact huo rfl

/-- A thread forks. -/
theorem fork (h : Inv v) :
    Inv { v with
      status := Function.update v.status (.proc v.next) .runnable
      next := v.next + 1
      running := v.running ++ [.proc v.next] } := by
  have hs : ∀ u, u ≠ .proc v.next → Function.update v.status (.proc v.next) .runnable u =
      v.status u := fun u hu ↦ Function.update_of_ne hu _ _
  have hheld : ∀ c u, u ∈ v.hold c → u ≠ .proc v.next := by
    rintro c u hu rfl
    exact Nat.lt_irrefl _ (h.lt c _ hu)
  have hold : ∀ u st, Queued v u st → u ≠ .proc v.next ∧ Queued { v with
      status := Function.update v.status (.proc v.next) .runnable
      next := v.next + 1
      running := v.running ++ [.proc v.next] } u st := by
    rintro u st ⟨hst, ⟨n, rfl, hn⟩, hf⟩
    have hne : Tid.proc n ≠ .proc v.next := by
      rintro ⟨⟩
      exact Nat.lt_irrefl _ hn
    exact ⟨hne, (hs _ hne).trans hst, ⟨n, rfl, Nat.lt_succ_of_lt hn⟩, hf⟩
  refine ⟨h.excl, h.idle, h.nodup, fun c n hn ↦ Nat.lt_succ_of_lt (h.lt c n hn),
    fun d ↦ (hs _ (by simp)).trans (h.idleStatus d),
    fun c u hu hm ↦ (hs u (hheld c u hu)).trans (h.onCpu c u hu hm), fun c u st hm ↦ ?_,
    fun u hu ↦ ?_, fun u hu ↦ (hold u _ (h.stopped u hu)).2, fun n hn hst ↦ ?_, ?_,
    h.nodup_stopped⟩
  · obtain ⟨hh, hst, hne⟩ := h.mid c u st hm
    exact ⟨hh, (hs u (hheld c u hh)).trans hst, hne⟩
  · rcases List.mem_append.1 hu with hu | hu
    · exact (hold u _ (h.running u hu)).2
    · rw [List.mem_singleton.1 hu]
      exact ⟨Function.update_self _ _ _, ⟨v.next, rfl, Nat.lt_succ_self _⟩,
        fun c hc ↦ hheld c _ hc rfl⟩
  · have hst : Function.update v.status (.proc v.next) .runnable (.proc n) = .stopped := hst
    by_cases hne : Tid.proc n = .proc v.next
    · rw [hne, Function.update_self] at hst
      cases hst
    · rw [hs _ hne] at hst
      refine h.lost n ?_ hst
      refine Nat.lt_of_le_of_ne (Nat.le_of_lt_succ hn) ?_
      rintro rfl
      exact hne rfl
  · refine (Refiled.snoc h.nodup_running (fun hm ↦ ?_) trivial).nodup
    exact (hold _ _ (h.running _ hm)).1 rfl

end Inv

end Mh.Smp
