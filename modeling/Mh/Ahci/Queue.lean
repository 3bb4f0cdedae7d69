import Mh.Ahci.Port
import Mathlib.Data.List.Sublists

/-!
# The queue of the AHCI driver, over whole runs

A request that finds no free slot, or something on `ioq`, is put at the end of `ioq`, and
`ahci_port_queue_op` returns 0 for it.  Nothing takes a request from `ioq`.  So the requests that
were accepted are those that were given a slot, and after them those on `ioq`, in every state of
every run; the first keep their order, and to the second nothing happens any more.
-/

namespace Mh.Ahci

open Lib

/-! ## Lists -/

section Lists

variable {α : Type*} {a b q : α} {l l₁ l₂ : List α}

/-- What is added at the end comes after nothing but what was there. -/
theorem pair_sublist_append_singleton (h : [a, b].Sublist (l ++ [q])) (hne : b ≠ q) :
    [a, b].Sublist l := by
  obtain ⟨m₁, m₂, heq, h₁, h₂⟩ := List.sublist_append_iff.1 h
  obtain rfl | rfl := List.sublist_singleton.1 h₂
  · rw [List.append_nil] at heq
    exact heq ▸ h₁
  · have hlast := congrArg List.getLast? heq
    rw [List.getLast?_append, List.getLast?_singleton] at hlast
    exact absurd (Option.some.inj hlast) hne

/-- What comes before an element of a list without repetitions. -/
theorem mem_of_pair_sublist (hnodup : (l₁ ++ b :: l₂).Nodup) (h : [a, b].Sublist (l₁ ++ b :: l₂)) :
    a ∈ l₁ := by
  obtain ⟨-, hcons, hdisj⟩ := List.nodup_append'.1 hnodup
  obtain ⟨m₁, m₂, heq, h₁, h₂⟩ := List.sublist_append_iff.1 h
  cases m₁ with
  | cons c m₁ =>
      obtain ⟨rfl, -⟩ := List.cons.inj heq
      exact h₁.subset List.mem_cons_self
  | nil =>
      rw [List.nil_append] at heq
      rw [← heq] at h₂
      -- the second would be in what follows `b`
      cases h₂ with
      | cons _ h₂ => exact absurd (h₂.subset (by simp)) (List.nodup_cons.1 hcons).1
      | cons_cons _ h₂ => exact absurd (h₂.subset (by simp)) (List.nodup_cons.1 hcons).1

end Lists

/-! ## What is asked of the queue -/

/-- The queue does what it is for. -/
structure Queue (s : State) : Prop where
  /-- A request is given to the controller after those that were accepted before it. -/
  ordered : ∀ a b l₁ l₂, [a, b].Sublist s.accepted → s.issued = l₁ ++ b :: l₂ → a ∈ l₁
  /-- When the functions have returned, no request waits for a port that has a free slot. -/
  drained : s.pc = .idle → ∀ q ∈ s.ioq, (s.port q.port).getSlot = none
  /-- No request is kept for ever: it can still be given to the controller. -/
  served : ∀ q ∈ s.accepted, ∃ as t, Run Step s as t ∧ q ∈ t.issued

/-- What may happen: a request that is accepted finds a slot. -/
def Slotted (s : State) : Label → Prop
  | .submit i _ ok => ok = true → (s.freeSlot i).isSome = true
  | _ => True

instance (s : State) (a : Label) : Decidable (Slotted s a) :=
  match a with
  | .submit i _ ok => inferInstanceAs (Decidable (ok = true → (s.freeSlot i).isSome = true))
  | .write | .intr _ | .read | .hw _ _ => isTrue trivial

/-! ## The invariant -/

/-- The relation between the requests, the slots and `ioq`. -/
structure QInv (s : State) : Prop where
  accepted : s.accepted = s.used.map Prod.fst ++ s.ioq
  fresh : ∀ q ∈ s.accepted, q.id < s.next
  once : s.accepted.Nodup
  issued_used : s.issued ⊆ s.used.map Prod.fst
  ordered : ∀ a b l₁ l₂, [a, b].Sublist s.accepted → s.issued = l₁ ++ b :: l₂ → a ∈ l₁
  /-- A command that runs. -/
  runs : ∀ i k, (s.port i).ci.getLsbD k = true →
    (s.port i).lastci.getLsbD k = true ∧ (s.port i).cmd k ∈ s.issued
  /-- What has a slot was given to the controller. -/
  given : (∀ i j v, s.pc ≠ .writing i j v) → s.used.map Prod.fst ⊆ s.issued
  /-- All but the last, when that is about to be. -/
  writes : ∀ i j v, s.pc = .writing i j v →
    (∃ l, s.used = l ++ [((s.port i).cmd j, j)] ∧ l.map Prod.fst ⊆ s.issued) ∧
    (s.port i).lastci.getLsbD j = true ∧
    ∀ k, v.getLsbD k = true → (s.port i).lastci.getLsbD k = true ∧ (s.port i).cmd k ∈ s.issued

namespace QInv

variable {s t : State} {i : Fin 32} {j k : Nat} {v : BitVec 32} {q : Qop} {r : Request}
  {a : Label} {as : List Label}

/-- The controller and its driver at the start. -/
theorem boot : QInv boot where
  accepted := rfl
  fresh _ hq := nomatch hq
  once := .nil
  issued_used := List.Subset.refl _
  ordered _ _ _ _ _ h := absurd (congrArg List.length h) (by simp [Ahci.boot])
  runs i k h := by simp [Ahci.boot] at h
  given _ := List.Subset.refl _
  writes _ _ _ h := nomatch h

/-- What is given to the controller was accepted. -/
theorem issued_accepted (h : QInv s) : s.issued ⊆ s.accepted := by
  rw [h.accepted]
  exact List.Subset.trans h.issued_used (List.subset_append_left _ _)

/-- A request that does not exist yet. -/
theorem fresh_notMem (h : QInv s) : (⟨r, s.next, i⟩ : Qop) ∉ s.accepted :=
  fun hq ↦ lt_irrefl _ (h.fresh _ hq)

/-- A new request is after the others. -/
theorem ordered_append (h : QInv s) : ∀ a b l₁ l₂, [a, b].Sublist (s.accepted ++ [⟨r, s.next, i⟩]) →
    s.issued = l₁ ++ b :: l₂ → a ∈ l₁ := by
  intro a b l₁ l₂ hab hissued
  have hb : b ∈ s.issued := by
    rw [hissued]
    exact List.mem_append_right _ List.mem_cons_self
  refine h.ordered a b l₁ l₂ (pair_sublist_append_singleton hab ?_) hissued
  rintro rfl
  exact h.fresh_notMem (h.issued_accepted hb)

/-- So it is accepted once. -/
theorem once_append (h : QInv s) : (s.accepted ++ [(⟨r, s.next, i⟩ : Qop)]).Nodup :=
  List.nodup_append'.2 ⟨h.once, List.nodup_singleton _,
    List.disjoint_singleton.2 h.fresh_notMem⟩

/-- And its number is taken. -/
theorem fresh_append (h : QInv s) :
    ∀ q ∈ s.accepted ++ [(⟨r, s.next, i⟩ : Qop)], q.id < s.next + 1 := by
  intro q hq
  obtain hq | hq := List.mem_append.1 hq
  · exact (h.fresh q hq).trans (Nat.lt_succ_self _)
  · obtain rfl := List.mem_singleton.1 hq
    exact Nat.lt_succ_self _

/-! ## The steps of `ahci_port_queue_op` -/

/-- A request that was not accepted. -/
theorem skip (h : QInv s) : QInv { s with next := s.next + 1 } :=
  { h with fresh := fun q hq ↦ (h.fresh q hq).trans (Nat.lt_succ_self _) }

/-- A request is put on `ioq`. -/
theorem queue (h : QInv s) : QInv { s with
    next := s.next + 1, ioq := s.ioq ++ [⟨r, s.next, i⟩],
    accepted := s.accepted ++ [⟨r, s.next, i⟩] } :=
  { h with
    accepted := by rw [h.accepted, List.append_assoc]
    fresh := h.fresh_append
    once := h.once_append
    ordered := h.ordered_append }

/-- A request is put in a free slot. -/
theorem portIssueQop (h : QInv s) (hpc : s.pc = .idle) (hioq : s.ioq = [])
    (hj : (s.port i).getSlot = some j) :
    QInv ({ s with next := s.next + 1 }.portIssueQop i j ⟨r, s.next, i⟩) := by
  obtain ⟨hlt, hfree⟩ := Port.getSlot_some hj
  -- the commands that run are in other slots
  have hother : ∀ i' k, (s.port i').lastci.getLsbD k = true → ¬(i' = i ∧ k = j) := by
    rintro i' k hlast ⟨rfl, rfl⟩
    rw [hfree] at hlast
    cases hlast
  constructor
  case accepted =>
    have haccepted := h.accepted
    rw [hioq, List.append_nil] at haccepted
    simp [State.portIssueQop, State.setPort, haccepted, hioq]
  case fresh => exact h.fresh_append
  case once => exact h.once_append
  case issued_used =>
    intro q hq
    simpa [State.portIssueQop] using Or.inl (by simpa using h.issued_used hq)
  case ordered => exact h.ordered_append
  case runs =>
    intro i' k hci
    rw [portIssueQop_ci] at hci
    obtain ⟨hlast, hcmd⟩ := h.runs i' k hci
    rw [portIssueQop_lastci hlt, portIssueQop_cmd, if_neg (hother i' k hlast)]
    exact ⟨by simp [hlast], hcmd⟩
  case given => exact fun hw ↦ absurd rfl (hw _ _ _)
  case writes =>
    intro i' j' v hv
    obtain ⟨rfl, rfl, rfl⟩ := Pc.writing.inj hv
    rw [portIssueQop_lastci hlt, portIssueQop_cmd, if_pos ⟨rfl, rfl⟩]
    refine ⟨⟨s.used, rfl, h.given fun i j v hw ↦ ?_⟩, by simp, fun k hk ↦ ?_⟩
    · rw [hpc] at hw
      cases hw
    · obtain ⟨hlast, hcmd⟩ := h.runs i k hk
      rw [portIssueQop_lastci hlt, portIssueQop_cmd, if_neg (hother i k hlast)]
      exact ⟨by simp [hlast], hcmd⟩

/-- The commands that a write of `PxCI` starts: that of the request in the slot, and others that the
controller was given before. -/
theorem starts (h : QInv s) (hpc : s.pc = .writing i j v)
    (hq : q ∈ (bits ((v ||| bit j) &&& ~~~(s.port i).ci)).map (s.port i).cmd) :
    q ∈ s.issued ∨ q = (s.port i).cmd j := by
  obtain ⟨k, hk, rfl⟩ := List.mem_map.1 hq
  simp only [mem_bits, getLsbD_and_not, BitVec.getLsbD_or, getLsbD_bit, Bool.and_eq_true,
    Bool.or_eq_true, decide_eq_true_eq] at hk
  obtain ⟨hk | ⟨-, rfl⟩, -⟩ := hk
  · exact .inl ((h.writes i j v hpc).2.2 k hk).2
  · exact .inr rfl

/-- `PxCI` is written. -/
theorem portWriteCi (h : QInv s) (hpc : s.pc = .writing i j v) :
    QInv (s.portWriteCi i (v ||| bit j)) := by
  obtain ⟨⟨l, hused, hl⟩, hlast, hread⟩ := h.writes i j v hpc
  have hsub : s.issued ⊆ (s.portWriteCi i (v ||| bit j)).issued := List.subset_append_left _ _
  -- the request in the slot is given to the controller now, if it was not before
  have hnew : j < 32 → (s.port i).cmd j ∈ (s.portWriteCi i (v ||| bit j)).issued := by
    intro hlt
    cases hci : (s.port i).ci.getLsbD j with
    | true => exact hsub (h.runs i j hci).2
    | false =>
        refine List.mem_append_right _ (List.mem_map_of_mem (mem_bits.2 ?_))
        rw [getLsbD_and_not, BitVec.getLsbD_or, getLsbD_bit, hci, decide_eq_true hlt,
          decide_eq_true rfl, Bool.and_self, Bool.or_true, Bool.not_false, Bool.and_self]
  have hlt : j < 32 := BitVec.lt_of_getLsbD hlast
  constructor
  case accepted => exact h.accepted
  case fresh => exact h.fresh
  case once => exact h.once
  case issued_used =>
    refine List.append_subset.2 ⟨h.issued_used, fun q hq ↦ ?_⟩
    obtain hq | rfl := h.starts hpc hq
    · exact h.issued_used hq
    · rw [show (s.portWriteCi i _).used = s.used from rfl, hused, List.map_append]
      exact List.mem_append_right _ List.mem_cons_self
  case ordered =>
    intro a b l₁ l₂ hab hissued
    -- what was accepted before something that starts now was started before
    have hback : ∀ m m', (bits ((v ||| bit j) &&& ~~~(s.port i).ci)).map (s.port i).cmd =
        m ++ b :: m' → a ∈ s.issued := by
      intro m m' hm
      have hb : b ∈ s.issued ∨ b = (s.port i).cmd j := by
        refine h.starts hpc ?_
        rw [hm]
        exact List.mem_append_right _ List.mem_cons_self
      obtain hb | rfl := hb
      · obtain ⟨n, n', hn⟩ := List.append_of_mem hb
        rw [hn]
        exact List.mem_append_left _ (h.ordered a b n n' hab hn)
      · have haccepted := h.accepted
        rw [hused, List.map_append, List.append_assoc] at haccepted
        have hnodup := h.once
        change [a, (s.port i).cmd j].Sublist s.accepted at hab
        rw [haccepted] at hnodup hab
        exact hl (mem_of_pair_sublist hnodup hab)
    obtain ⟨m, rfl, hm⟩ | ⟨m, hm, hrest⟩ := List.append_eq_append_iff.1 hissued
    · exact List.mem_append_left _ (hback m l₂ hm)
    · cases m with
      | nil =>
          rw [List.append_nil] at hm
          exact hm ▸ hback [] l₂ hrest.symm
      | cons c m =>
          obtain ⟨rfl, -⟩ := List.cons.inj hrest
          exact h.ordered a b l₁ m hab hm
  case runs =>
    intro i' k hci
    simp only [portWriteCi_ci, BitVec.getLsbD_or, getLsbD_bit, Bool.and_eq_true, Bool.or_eq_true,
      decide_eq_true_eq] at hci
    rw [portWriteCi_lastci, portWriteCi_cmd]
    obtain hci | ⟨rfl, hk | ⟨-, rfl⟩⟩ := hci
    · exact ⟨(h.runs i' k hci).1, hsub (h.runs i' k hci).2⟩
    · exact ⟨(hread k hk).1, hsub (hread k hk).2⟩
    · exact ⟨hlast, hnew hlt⟩
  case given =>
    intro _ q hq
    rw [show (s.portWriteCi i _).used = s.used from rfl, hused, List.map_append,
      List.mem_append] at hq
    obtain hq | hq := hq
    · exact hsub (hl hq)
    · obtain rfl := List.mem_singleton.1 hq
      exact hnew hlt
  case writes => exact fun _ _ _ hw ↦ nomatch hw

/-! ## The other steps -/

/-- The interrupt is taken. -/
theorem portIntr (h : QInv s) (hpc : s.pc = .idle) : QInv (s.portIntr i) := by
  refine { h with runs := fun i' k ↦ ?_, given := fun _ ↦ ?_, writes := ?_ }
  · rw [portIntr_lastci, portIntr_cmd, portIntr_ci]
    exact h.runs i' k
  · refine h.given fun i j v hw ↦ ?_
    rw [hpc] at hw
    cases hw
  · exact fun _ _ _ hw ↦ nomatch hw

/-- `PxCI` is read. -/
theorem portRead (h : QInv s) (hpc : s.pc = .reading i) : QInv (s.portRead i) := by
  have hgiven : s.used.map Prod.fst ⊆ s.issued := by
    refine h.given fun i j v hw ↦ ?_
    rw [hpc] at hw
    cases hw
  rw [State.portRead]
  split
  case isTrue => exact { h with given := fun _ ↦ hgiven, writes := fun _ _ _ hw ↦ (nomatch hw) }
  case isFalse =>
    refine { h with runs := fun i' k hci ↦ ?_, given := fun _ ↦ hgiven, writes := ?_ }
    · rw [portReport_ci] at hci
      rw [portReport_lastci, portReport_cmd]
      refine ⟨?_, (h.runs i' k hci).2⟩
      split
      case isTrue hi => exact hi ▸ hci
      case isFalse => exact (h.runs i' k hci).1
    · intro i' j v hw
      rw [show (s.portReport i _).pc = s.pc from rfl, hpc] at hw
      cases hw

/-- A command completes. -/
theorem portComplete (h : QInv s) : QInv (s.portComplete i k) := by
  refine { h with runs := fun i' k' hci ↦ ?_, writes := fun i' j v ↦ ?_ }
  · rw [portComplete_ci, Bool.and_eq_true] at hci
    rw [portComplete_lastci, portComplete_cmd]
    exact h.runs i' k' hci.1
  · rw [portComplete_lastci, portComplete_cmd]
    exact h.writes i' j v

/-- A step preserves the invariant, and leaves on `ioq` what is there; it adds to it only if it does
not meet the condition. -/
theorem step (h : QInv s) (hst : Step s a t) :
    QInv t ∧ s.ioq <+: t.ioq ∧ (s.ioq = [] → Slotted s a → t.ioq = []) := by
  cases a with
  | submit i r ok =>
      rw [Step, State.exec] at hst
      split at hst
      case h_1 hpc =>
        cases hst
        rw [State.portQueueOp]
        cases ok with
        | false => exact ⟨h.skip, List.prefix_rfl, fun hioq _ ↦ hioq⟩
        | true =>
            rw [if_pos rfl]
            cases hj : s.freeSlot i with
            | none =>
                refine ⟨h.queue, List.prefix_append _ _, fun _ hm ↦ ?_⟩
                exact absurd (hm rfl) (by rw [hj]; exact Bool.false_ne_true)
            | some j =>
                rw [State.freeSlot] at hj
                split at hj
                case isTrue hioq =>
                  have hioq := List.isEmpty_iff.1 hioq
                  exact ⟨h.portIssueQop hpc hioq hj, List.prefix_rfl, fun hioq _ ↦ hioq⟩
                case isFalse => cases hj
      case h_2 => cases hst
  | write =>
      rw [Step, State.exec] at hst
      split at hst
      case h_1 hpc =>
        cases hst
        exact ⟨h.portWriteCi hpc, List.prefix_rfl, fun hioq _ ↦ hioq⟩
      case h_2 => cases hst
  | intr i =>
      rw [Step, State.exec] at hst
      split at hst
      case h_1 hpc =>
        cases hst
        exact ⟨h.portIntr hpc, List.prefix_rfl, fun hioq _ ↦ hioq⟩
      case h_2 => cases hst
  | read =>
      rw [Step, State.exec] at hst
      split at hst
      case h_1 i hpc =>
        cases hst
        have hsame : (s.portRead i).ioq = s.ioq := by
          rw [State.portRead]
          split <;> rfl
        rw [hsame]
        exact ⟨h.portRead hpc, List.prefix_rfl, fun hioq _ ↦ hioq⟩
      case h_2 => cases hst
  | hw i k =>
      rw [Step, State.exec] at hst
      split at hst
      case isTrue hk =>
        cases hst
        exact ⟨h.portComplete, List.prefix_rfl, fun hioq _ ↦ hioq⟩
      case isFalse => cases hst

/-! ## Runs -/

/-- What is on `ioq` stays there. -/
theorem stuck (h : QInv s) (hrun : Run Step s as t) : QInv t ∧ s.ioq <+: t.ioq := by
  refine hrun.invariant (I := fun t ↦ QInv t ∧ s.ioq <+: t.ioq) ?_ ⟨h, List.prefix_rfl⟩
  rintro u a u' ⟨hu, hpre⟩ hst
  obtain ⟨hu', hgrow, -⟩ := hu.step hst
  exact ⟨hu', hpre.trans hgrow⟩

/-- A request on `ioq` is never given to the controller. -/
theorem notMem_issued (h : QInv s) (hq : q ∈ s.ioq) (hrun : Run Step s as t) : q ∉ t.issued := by
  intro hissued
  obtain ⟨ht, hpre⟩ := h.stuck hrun
  have honce := ht.once
  rw [ht.accepted] at honce
  exact (List.nodup_append'.1 honce).2.2 (ht.issued_used hissued) (hpre.subset hq)

/-- While nothing is on `ioq`, the queue does what it is for. -/
theorem queue_of_nil (h : QInv s) (hioq : s.ioq = []) : Queue s where
  ordered := h.ordered
  drained _ q hq := by
    rw [hioq] at hq
    cases hq
  served q hq := by
    rw [h.accepted, hioq, List.append_nil] at hq
    by_cases hw : ∃ i j v, s.pc = .writing i j v
    · obtain ⟨i, j, v, hpc⟩ := hw
      have hst : Step s .write (s.portWriteCi i (v ||| bit j)) := by
        rw [Step, State.exec, hpc]
      exact ⟨[.write], _, .cons hst (.nil _), (h.portWriteCi hpc).given (by
        intro _ _ _ hw
        cases hw) hq⟩
    · refine ⟨[], s, .nil s, h.given (fun i j v hpc ↦ hw ⟨i, j, v, hpc⟩) hq⟩

/-- When the queue does what it is for, nothing is on it. -/
theorem nil_of_queue (h : QInv s) (hs : Queue s) : s.ioq = [] := by
  refine List.eq_nil_iff_forall_not_mem.2 fun q hq ↦ ?_
  have hacc : q ∈ s.accepted := by
    rw [h.accepted]
    exact List.mem_append_right _ hq
  obtain ⟨as, t, hrun, hissued⟩ := hs.served q hacc
  exact h.notMem_issued hq hrun hissued

/-- A step after which nothing is on `ioq` meets the condition. -/
theorem slotted (hst : Step s a t) (hioq : t.ioq = []) : Slotted s a := by
  cases a with
  | submit i r ok =>
      rintro rfl
      rw [Step, State.exec] at hst
      split at hst
      case h_1 =>
        cases hst
        by_contra hnone
        rw [Option.not_isSome_iff_eq_none] at hnone
        rw [State.portQueueOp, if_pos rfl] at hioq
        simp only [hnone] at hioq
        exact List.append_ne_nil_of_right_ne_nil _ (List.cons_ne_nil _ _) hioq
      case h_2 => cases hst
  | write => trivial
  | intr i => trivial
  | read => trivial
  | hw i k => trivial

end QInv

/-- In a run of the driver and the controller, in whatever order their steps come: requests are
given to the controller in the order in which they were accepted, none waits for a port with a free
slot when the functions have returned, and each can still be given to the controller, in every state
that the run passes, if and only if each request that is accepted finds a slot when it comes. -/
theorem queue_iff {as : List Label} {s : State} (h : Run Step boot as s) :
    (∀ bs t, bs <+: as → Run Step boot bs t → Queue t) ↔
      Run (fun s a t ↦ Step s a t ∧ Slotted s a) boot as s := by
  refine h.forall_prefix_iff (I := fun s ↦ QInv s ∧ s.ioq = []) deterministic_step ?_ ?_ ?_
    ⟨QInv.boot, rfl⟩
  · rintro s a t ⟨hi, hioq⟩ hst hm
    obtain ⟨ht, -, hkeep⟩ := hi.step hst
    exact ⟨ht, hkeep hioq hm⟩
  · exact fun s ⟨hi, hioq⟩ ↦ hi.queue_of_nil hioq
  · exact fun s a t ⟨hi, _⟩ hst ht ↦ QInv.slotted hst ((hi.step hst).1.nil_of_queue ht)

/-- One request, which is reported, and a second one. -/
theorem queue_two : ∃ s, Run Step boot [.submit 0 zeroRequest true, .write, .hw 0 0, .intr 0,
      .read, .read, .submit 0 zeroRequest true] s ∧
    ∀ bs t, bs <+: [.submit 0 zeroRequest true, .write, .hw 0 0, .intr 0, .read, .read,
      .submit 0 zeroRequest true] → Run Step boot bs t → Queue t := by
  have hrun : ∃ s, Run (fun s a t ↦ Step s a t ∧ Slotted s a) boot
      [.submit 0 zeroRequest true, .write, .hw 0 0, .intr 0, .read, .read,
        .submit 0 zeroRequest true] s :=
    ⟨_, .cons ⟨rfl, by decide⟩ <| .cons ⟨rfl, trivial⟩ <| .cons ⟨rfl, trivial⟩ <|
      .cons ⟨rfl, trivial⟩ <| .cons ⟨rfl, trivial⟩ <| .cons ⟨rfl, trivial⟩ <|
      .cons ⟨rfl, by decide⟩ <| .nil _⟩
  obtain ⟨s, hs⟩ := hrun
  have h := hs.mono fun _ _ _ hst ↦ hst.1
  exact ⟨s, h, (queue_iff h).2 hs⟩

/-- 33 requests for a port, of which the first completes: when `ahci_port_intr` returns, slot 0 is
free and the last request waits for it. -/
theorem queue_stuck : ∃ s, Run Step boot
      ((List.replicate 32 [.submit 0 zeroRequest true, .write]).flatten ++
        [.submit 0 zeroRequest true, .hw 0 0, .intr 0, .read, .read]) s ∧
    s.ioq = [⟨zeroRequest, 32, 0⟩] ∧ (s.port 0).getSlot = some 0 ∧ ¬Queue s := by
  obtain ⟨s, hs, hview⟩ : ∃ s, Run Step boot
      ((List.replicate 32 [.submit 0 zeroRequest true, .write]).flatten ++
        [.submit 0 zeroRequest true, .hw 0 0, .intr 0, .read, .read]) s ∧
      (s.pc, s.ioq, (s.port 0).getSlot) = (.idle, [⟨zeroRequest, 32, 0⟩], some 0) :=
    Run.of_foldlM (by decide +kernel)
  obtain ⟨hpc, hview⟩ := Prod.mk.inj hview
  obtain ⟨hioq, hslot⟩ := Prod.mk.inj hview
  refine ⟨s, hs, hioq, hslot, fun h ↦ ?_⟩
  have hnone := h.drained hpc ⟨zeroRequest, 32, 0⟩ (hioq ▸ List.mem_cons_self)
  rw [hslot] at hnone
  cases hnone

end Mh.Ahci
