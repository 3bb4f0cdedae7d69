import Mh.Ahci.Port

/-!
# The commands of a port, over whole runs

Whose a command slot is, the driver takes from `lastci`, which it keeps itself, and from `PxCI`,
where the controller clears bits.  `Inv` relates the two and the requests, and every step preserves
it that does not go wrong in one of two ways, `Meets`: that a request is put on `ioq`, from where
nothing takes it, and that `PxCI` is written with the bit of a command that has completed since the
register was read, which starts the command again.
-/

namespace Mh.Ahci

open Lib

/-! ## The protocol -/

/-- What the requests can rely on. -/
structure Protocol (s : State) : Prop where
  /-- A command is given to the controller once. -/
  issued_once : s.issued.Nodup
  /-- The controller is given accepted requests only. -/
  issued_accepted : s.issued ⊆ s.accepted
  /-- It has been given all of them when `ahci_port_queue_op` has returned. -/
  accepted_issued : (∀ i j v, s.pc ≠ .writing i j v) → s.accepted ⊆ s.issued
  /-- An event is set once. -/
  evtset_once : s.evtset.Nodup
  /-- A result is stored once. -/
  result_once : s.result.Nodup
  /-- An event is set after the command has completed. -/
  evtset_completed : s.evtset ⊆ s.completed
  /-- So is a result stored. -/
  result_completed : s.result ⊆ s.completed
  /-- When a port has no interrupt pending, all that completed there was reported. -/
  reported : s.pc = .idle → ∀ q ∈ s.completed, (s.port q.port).is = false →
    q ∈ s.evtset ∧ q ∈ s.result
  /-- Of two requests that were given the same slot of a port, the first has been reported. -/
  turns : s.used.Pairwise fun a b ↦ a.1.port = b.1.port → a.2 = b.2 →
    a.1 ∈ s.completed ∧ a.1 ∈ s.evtset ∧ a.1 ∈ s.result

/-- The slots whose commands have completed between the read of `PxCI` and the write. -/
def State.lost (s : State) : List Nat :=
  match s.pc with
  | .writing i _ v => bits (v &&& ~~~(s.port i).ci)
  | _ => []

/-- What may happen: a request that is accepted finds a slot, and no command has completed since the
register was read when `PxCI` is written. -/
def Meets (s : State) : Label → Prop
  | .submit i _ ok => ok = true → (s.freeSlot i).isSome = true
  | .write => s.lost = []
  | _ => True

/-- Nothing is lost if every command that was read as running still runs. -/
theorem lost_eq_nil {s : State} {i : Fin 32} {j : Nat} {v : BitVec 32}
    (hpc : s.pc = .writing i j v) :
    s.lost = [] ↔ ∀ k, v.getLsbD k = true → (s.port i).ci.getLsbD k = true := by
  rw [State.lost, hpc, List.eq_nil_iff_forall_not_mem]
  refine forall_congr' fun k ↦ ?_
  rw [mem_bits, getLsbD_and_not, Bool.and_eq_true, Bool.not_eq_true', not_and, Bool.not_eq_false]

instance (s : State) (a : Label) : Decidable (Meets s a) :=
  match a with
  | .submit i _ ok => inferInstanceAs (Decidable (ok = true → (s.freeSlot i).isSome = true))
  | .write => inferInstanceAs (Decidable (s.lost = []))
  | .intr _ | .read | .hw _ _ => isTrue trivial

/-! ## The invariant -/

/-- The relation between `lastci`, `PxCI` and the requests. -/
structure Inv (s : State) : Prop where
  ioq : s.ioq = []
  accepted : s.used.map Prod.fst = s.accepted
  fresh : ∀ q ∈ s.accepted, q.id < s.next
  once : s.accepted.Nodup
  result : s.result = s.evtset
  issued_accepted : s.issued ⊆ s.accepted
  issued_once : s.issued.Nodup
  completed_issued : s.completed ⊆ s.issued
  evtset_completed : s.evtset ⊆ s.completed
  evtset_once : s.evtset.Nodup
  turns : s.used.Pairwise fun a b ↦ a.1.port = b.1.port → a.2 = b.2 → a.1 ∈ s.evtset
  /-- A slot in `lastci` has a request that was not reported. -/
  held : ∀ i k, (s.port i).lastci.getLsbD k = true → ((s.port i).cmd k, k) ∈ s.used ∧
    ((s.port i).cmd k).port = i ∧ (s.port i).cmd k ∉ s.evtset
  /-- A request that was not reported has its slot. -/
  kept : ∀ q k, (q, k) ∈ s.used → q ∉ s.evtset →
    (s.port q.port).lastci.getLsbD k = true ∧ (s.port q.port).cmd k = q
  /-- A request that has a slot was given to the controller, or is about to be. -/
  given : ∀ q k, (q, k) ∈ s.used → q ∈ s.issued ∨ ∃ v, s.pc = .writing q.port k v
  /-- A command that runs. -/
  runs : ∀ i k, (s.port i).ci.getLsbD k = true → (s.port i).lastci.getLsbD k = true ∧
    (s.port i).cmd k ∈ s.issued ∧ (s.port i).cmd k ∉ s.completed
  /-- The request that is about to be given to the controller, and what was read. -/
  writes : ∀ i j v, s.pc = .writing i j v → j < 32 ∧ (s.port i).lastci.getLsbD j = true ∧
    (s.port i).cmd j ∉ s.issued ∧
    (∀ k, v.getLsbD k = true → (s.port i).lastci.getLsbD k = true ∧ (s.port i).cmd k ∈ s.issued)
  /-- A slot in `lastci` that is not in `PxCI`. -/
  ended : ∀ i k, (s.port i).lastci.getLsbD k = true → (s.port i).ci.getLsbD k = false →
    (∃ v, s.pc = .writing i k v) ∨
      (s.port i).cmd k ∈ s.completed ∧ ((s.port i).is = true ∨ s.pc = .reading i)

namespace Inv

variable {s t : State} {i i' : Fin 32} {j k k' : Nat} {v : BitVec 32} {q : Qop} {r : Request}
  {ok : Bool} {a : Label}

/-- The controller and its driver at the start. -/
theorem boot : Inv boot where
  ioq := rfl
  accepted := rfl
  fresh _ hq := nomatch hq
  once := .nil
  result := rfl
  issued_accepted := List.Subset.refl _
  issued_once := .nil
  completed_issued := List.Subset.refl _
  evtset_completed := List.Subset.refl _
  evtset_once := .nil
  turns := .nil
  held i k h := by simp [Ahci.boot] at h
  kept q k h := nomatch h
  given q k h := nomatch h
  runs i k h := by simp [Ahci.boot] at h
  writes i j v h := nomatch h
  ended i k h := by simp [Ahci.boot] at h

/-- A request has one slot. -/
theorem slot_unique (h : Inv s) (hk : (q, k) ∈ s.used) (hk' : (q, k') ∈ s.used) : k = k' := by
  have hnodup : (s.used.map Prod.fst).Nodup := by
    rw [h.accepted]
    exact h.once
  exact congrArg Prod.snd (List.inj_on_of_nodup_map hnodup hk hk' rfl)

/-- A request is in one slot of one port. -/
theorem cmd_inj (h : Inv s) (hk : (s.port i).lastci.getLsbD k = true)
    (hk' : (s.port i').lastci.getLsbD k' = true) (hcmd : (s.port i).cmd k = (s.port i').cmd k') :
    i = i' ∧ k = k' := by
  obtain ⟨hused, hport, -⟩ := h.held i k hk
  obtain ⟨hused', hport', -⟩ := h.held i' k' hk'
  refine ⟨?_, h.slot_unique hused ?_⟩
  · rw [← hport, ← hport', hcmd]
  · rw [hcmd]
    exact hused'

/-- A request with a slot was accepted. -/
theorem accepted_of_used (h : Inv s) (hk : (q, k) ∈ s.used) : q ∈ s.accepted := by
  rw [← h.accepted]
  exact List.mem_map_of_mem hk

/-- What is reported was given to the controller. -/
theorem evtset_issued (h : Inv s) : s.evtset ⊆ s.issued :=
  List.Subset.trans h.evtset_completed h.completed_issued

/-- A request that does not exist yet. -/
theorem fresh_notMem (h : Inv s) : (⟨r, s.next, i⟩ : Qop) ∉ s.accepted :=
  fun hq ↦ lt_irrefl _ (h.fresh _ hq)

/-! ## What the invariant says of the protocol -/

/-- The invariant gives what the requests can rely on. -/
theorem protocol (h : Inv s) : Protocol s where
  issued_once := h.issued_once
  issued_accepted := h.issued_accepted
  accepted_issued hpc q hq := by
    rw [← h.accepted] at hq
    obtain ⟨⟨q, k⟩, hk, rfl⟩ := List.mem_map.1 hq
    obtain hissued | ⟨v, hv⟩ := h.given q k hk
    · exact hissued
    · exact absurd hv (hpc _ _ _)
  evtset_once := h.evtset_once
  result_once := h.result ▸ h.evtset_once
  evtset_completed := h.evtset_completed
  result_completed := h.result ▸ h.evtset_completed
  reported hpc q hq his := by
    rw [h.result, and_self]
    by_contra hev
    have hacc := h.issued_accepted (h.completed_issued hq)
    rw [← h.accepted] at hacc
    obtain ⟨⟨q, k⟩, hk, rfl⟩ := List.mem_map.1 hacc
    obtain ⟨hlast, hcmd⟩ := h.kept q k hk hev
    -- the bit of a command that completed is clear, and then the interrupt is pending
    have hclear : (s.port q.port).ci.getLsbD k = false := by
      by_contra hci
      rw [Bool.not_eq_false] at hci
      exact (h.runs _ _ hci).2.2 (hcmd.symm ▸ hq)
    obtain ⟨v, hv⟩ | ⟨-, hint | hread⟩ := h.ended _ _ hlast hclear
    · rw [hpc] at hv
      cases hv
    · rw [his] at hint
      cases hint
    · rw [hpc] at hread
      cases hread
  turns := h.turns.imp fun hab hport hslot ↦
    ⟨h.evtset_completed (hab hport hslot), hab hport hslot, h.result.symm ▸ hab hport hslot⟩

/-! ## The steps of `ahci_port_queue_op` -/

/-- A request that was not accepted. -/
theorem skip (h : Inv s) : Inv { s with next := s.next + 1 } :=
  { h with fresh := fun q hq ↦ (h.fresh q hq).trans (Nat.lt_succ_self _) }

/-- A request is put in a free slot. -/
theorem portIssueQop (h : Inv s) (hpc : s.pc = .idle) (hj : (s.port i).getSlot = some j) :
    Inv ({ s with next := s.next + 1 }.portIssueQop i j ⟨r, s.next, i⟩) := by
  obtain ⟨hlt, hfree⟩ := Port.getSlot_some hj
  have hnew : (⟨r, s.next, i⟩ : Qop) ∉ s.accepted := h.fresh_notMem
  have hissued : (⟨r, s.next, i⟩ : Qop) ∉ s.issued := fun hq ↦ hnew (h.issued_accepted hq)
  have hevtset : (⟨r, s.next, i⟩ : Qop) ∉ s.evtset := fun hq ↦ hissued (h.evtset_issued hq)
  -- the slots in `lastci` are other slots, and have what they had
  have hother : ∀ i' k, (s.port i').lastci.getLsbD k = true → ¬(i' = i ∧ k = j) := by
    rintro i' k hlast ⟨rfl, rfl⟩
    rw [hfree] at hlast
    cases hlast
  constructor
  case ioq => exact h.ioq
  case accepted => simp [State.portIssueQop, State.setPort, h.accepted]
  case fresh =>
    intro q hq
    obtain hq | hq := List.mem_append.1 hq
    · exact (h.fresh q hq).trans (Nat.lt_succ_self _)
    · obtain rfl := List.mem_singleton.1 hq
      exact Nat.lt_succ_self _
  case once => exact List.nodup_append.2 ⟨h.once, List.nodup_singleton _, by grind⟩
  case result => exact h.result
  case issued_accepted => exact fun q hq ↦ List.mem_append_left _ (h.issued_accepted hq)
  case issued_once => exact h.issued_once
  case completed_issued => exact h.completed_issued
  case evtset_completed => exact h.evtset_completed
  case evtset_once => exact h.evtset_once
  case turns =>
    refine List.pairwise_append.2 ⟨h.turns, List.pairwise_singleton _ _, ?_⟩
    rintro ⟨q, k⟩ hk b hb hport hslot
    obtain rfl := List.mem_singleton.1 hb
    -- a request in that slot that was not reported would have its bit in `lastci`
    by_contra hq
    exact hother _ _ (h.kept q k hk hq).1 ⟨hport, hslot⟩
  case held =>
    intro i' k hlast
    rw [portIssueQop_lastci hlt, Bool.or_eq_true] at hlast
    rw [portIssueQop_cmd]
    obtain hlast | hlast := hlast
    · rw [if_neg (hother i' k hlast)]
      obtain ⟨hused, hport, hq⟩ := h.held i' k hlast
      exact ⟨List.mem_append_left _ hused, hport, hq⟩
    · have hik := of_decide_eq_true hlast
      rw [if_pos hik, hik.1, hik.2]
      exact ⟨List.mem_append_right _ List.mem_cons_self, rfl, hevtset⟩
  case kept =>
    intro q k hk hq
    rw [portIssueQop_lastci hlt, Bool.or_eq_true, portIssueQop_cmd]
    obtain hk | hk := List.mem_append.1 hk
    · obtain ⟨hlast, hcmd⟩ := h.kept q k hk hq
      rw [if_neg (hother _ _ hlast)]
      exact ⟨.inl hlast, hcmd⟩
    · obtain ⟨rfl, rfl⟩ := Prod.mk.inj (List.mem_singleton.1 hk)
      simp
  case given =>
    intro q k hk
    obtain hk | hk := List.mem_append.1 hk
    · obtain hq | ⟨v, hv⟩ := h.given q k hk
      · exact .inl hq
      · rw [hpc] at hv
        cases hv
    · obtain ⟨rfl, rfl⟩ := Prod.mk.inj (List.mem_singleton.1 hk)
      exact .inr ⟨_, rfl⟩
  case runs =>
    intro i' k hci
    rw [portIssueQop_ci] at hci
    obtain ⟨hlast, hcmd⟩ := h.runs i' k hci
    rw [portIssueQop_lastci hlt, portIssueQop_cmd, if_neg (hother i' k hlast)]
    exact ⟨by simp [hlast], hcmd⟩
  case writes =>
    intro i' j' v hv
    obtain ⟨rfl, rfl, rfl⟩ := Pc.writing.inj hv
    rw [portIssueQop_lastci hlt, portIssueQop_cmd, if_pos ⟨rfl, rfl⟩]
    refine ⟨hlt, by simp, hissued, fun k hk ↦ ?_⟩
    obtain ⟨hlast, hcmd, -⟩ := h.runs i k hk
    rw [portIssueQop_lastci hlt, portIssueQop_cmd, if_neg (hother i k hlast)]
    exact ⟨by simp [hlast], hcmd⟩
  case ended =>
    intro i' k hlast hci
    rw [portIssueQop_lastci hlt, Bool.or_eq_true] at hlast
    rw [portIssueQop_ci] at hci
    rw [portIssueQop_cmd, portIssueQop_is]
    obtain hlast | hlast := hlast
    · rw [if_neg (hother i' k hlast)]
      obtain ⟨v, hv⟩ | ⟨hq, hint | hread⟩ := h.ended i' k hlast hci
      · rw [hpc] at hv
        cases hv
      · exact .inr ⟨hq, .inl hint⟩
      · rw [hpc] at hread
        cases hread
    · obtain ⟨rfl, rfl⟩ := of_decide_eq_true hlast
      exact .inl ⟨_, rfl⟩

/-- The new commands that the write of `PxCI` starts. -/
theorem starts (h : Inv s) (hpc : s.pc = .writing i j v)
    (hv : ∀ k, v.getLsbD k = true → (s.port i).ci.getLsbD k = true) :
    bits ((v ||| bit j) &&& ~~~(s.port i).ci) = [j] := by
  obtain ⟨hlt, -, hj, -⟩ := h.writes i j v hpc
  have hci : (s.port i).ci.getLsbD j = false := by
    by_contra hci
    rw [Bool.not_eq_false] at hci
    exact hj (h.runs i j hci).2.1
  refine List.perm_singleton.1 ((List.perm_ext_iff_of_nodup (nodup_bits _)
    (List.nodup_singleton _)).2 fun k ↦ ?_)
  simp only [mem_bits, getLsbD_and_not, BitVec.getLsbD_or, getLsbD_bit, List.mem_singleton,
    Bool.and_eq_true, Bool.or_eq_true, Bool.not_eq_true', decide_eq_true_eq]
  constructor
  · rintro ⟨hk | ⟨-, rfl⟩, hclear⟩
    · rw [hv k hk] at hclear
      cases hclear
    · rfl
  · rintro rfl
    exact ⟨.inr ⟨hlt, rfl⟩, hci⟩

/-- The command in the slot is given to the controller. -/
theorem portWriteCi (h : Inv s) (hpc : s.pc = .writing i j v)
    (hv : ∀ k, v.getLsbD k = true → (s.port i).ci.getLsbD k = true) :
    Inv (s.portWriteCi i (v ||| bit j)) := by
  obtain ⟨hlt, hlast, hj, hread⟩ := h.writes i j v hpc
  have hissued : (s.portWriteCi i (v ||| bit j)).issued = s.issued ++ [(s.port i).cmd j] := by
    simp only [State.portWriteCi, h.starts hpc hv, List.map_singleton]
  obtain ⟨hused, hport, hevtset⟩ := h.held i j hlast
  constructor
  case ioq => exact h.ioq
  case accepted => exact h.accepted
  case fresh => exact h.fresh
  case once => exact h.once
  case result => exact h.result
  case issued_accepted =>
    rw [hissued]
    refine List.append_subset.2 ⟨h.issued_accepted, List.cons_subset.2 ⟨?_, List.nil_subset _⟩⟩
    exact h.accepted_of_used hused
  case issued_once =>
    rw [hissued]
    exact List.nodup_append.2 ⟨h.issued_once, List.nodup_singleton _, by grind⟩
  case completed_issued =>
    rw [hissued]
    exact List.Subset.trans h.completed_issued (List.subset_append_left _ _)
  case evtset_completed => exact h.evtset_completed
  case evtset_once => exact h.evtset_once
  case turns => exact h.turns
  case held =>
    intro i' k
    rw [portWriteCi_lastci, portWriteCi_cmd]
    exact h.held i' k
  case kept =>
    intro q k
    rw [portWriteCi_lastci, portWriteCi_cmd]
    exact h.kept q k
  case given =>
    intro q k hk
    rw [hissued]
    obtain hq | ⟨w, hw⟩ := h.given q k hk
    · exact .inl (List.mem_append_left _ hq)
    · rw [hpc] at hw
      obtain ⟨hi, rfl, -⟩ := Pc.writing.inj hw
      -- the request in the slot is this one, unless it was reported before
      by_cases hq : q ∈ s.evtset
      · exact .inl (List.mem_append_left _ (h.evtset_issued hq))
      · refine .inl (List.mem_append_right _ (List.mem_singleton.2 ?_))
        rw [hi]
        exact (h.kept q j hk hq).2.symm
  case runs =>
    intro i' k hci
    rw [portWriteCi_lastci, portWriteCi_cmd, hissued]
    simp only [portWriteCi_ci, BitVec.getLsbD_or, getLsbD_bit, Bool.and_eq_true, Bool.or_eq_true,
      decide_eq_true_eq] at hci
    obtain hci : (s.port i').ci.getLsbD k = true ∨ i' = i ∧ j = k := by
      obtain hci | ⟨rfl, hk | ⟨-, rfl⟩⟩ := hci
      · exact .inl hci
      · exact .inl (hv k hk)
      · exact .inr ⟨rfl, rfl⟩
    obtain hci | ⟨rfl, rfl⟩ := hci
    · obtain ⟨hlast', hcmd, hcompleted⟩ := h.runs i' k hci
      exact ⟨hlast', List.mem_append_left _ hcmd, hcompleted⟩
    · exact ⟨hlast, List.mem_append_right _ List.mem_cons_self, fun hq ↦ hj (h.completed_issued hq)⟩
  case writes => exact fun _ _ _ hw ↦ nomatch hw
  case ended =>
    intro i' k hlast' hci
    rw [portWriteCi_lastci] at hlast'
    rw [portWriteCi_cmd, portWriteCi_is]
    simp only [portWriteCi_ci, BitVec.getLsbD_or, getLsbD_bit, Bool.or_eq_false_iff] at hci
    obtain ⟨w, hw⟩ | ⟨hq, hint | hread⟩ := h.ended i' k hlast' hci.1
    · rw [hpc] at hw
      obtain ⟨rfl, rfl, -⟩ := Pc.writing.inj hw
      simp [hlt] at hci
    · exact .inr ⟨hq, .inl hint⟩
    · rw [hpc] at hread
      cases hread

/-! ## The steps of `ahci_port_intr` -/

/-- The interrupt is taken. -/
theorem portIntr (h : Inv s) (hpc : s.pc = .idle) : Inv (s.portIntr i) := by
  constructor
  case ioq => exact h.ioq
  case accepted => exact h.accepted
  case fresh => exact h.fresh
  case once => exact h.once
  case result => exact h.result
  case issued_accepted => exact h.issued_accepted
  case issued_once => exact h.issued_once
  case completed_issued => exact h.completed_issued
  case evtset_completed => exact h.evtset_completed
  case evtset_once => exact h.evtset_once
  case turns => exact h.turns
  case held =>
    intro i' k
    rw [portIntr_lastci, portIntr_cmd]
    exact h.held i' k
  case kept =>
    intro q k
    rw [portIntr_lastci, portIntr_cmd]
    exact h.kept q k
  case given =>
    intro q k hk
    obtain hq | ⟨w, hw⟩ := h.given q k hk
    · exact .inl hq
    · rw [hpc] at hw
      cases hw
  case runs =>
    intro i' k
    rw [portIntr_lastci, portIntr_cmd, portIntr_ci]
    exact h.runs i' k
  case writes => exact fun _ _ _ hw ↦ nomatch hw
  case ended =>
    intro i' k hlast hci
    rw [portIntr_lastci] at hlast
    rw [portIntr_ci] at hci
    rw [portIntr_cmd, portIntr_is]
    obtain ⟨w, hw⟩ | ⟨hq, hint | hread⟩ := h.ended i' k hlast hci
    · rw [hpc] at hw
      cases hw
    · refine .inr ⟨hq, ?_⟩
      by_cases hi : i' = i
      · exact .inr (congrArg Pc.reading hi.symm)
      · exact .inl (by simp [hi, hint])
    · rw [hpc] at hread
      cases hread

/-- The commands that a round of the loop reports. -/
theorem reports (h : Inv s) (hpc : s.pc = .reading i) (hlast : (s.port i).lastci.getLsbD k = true)
    (hci : (s.port i).ci.getLsbD k = false) : (s.port i).cmd k ∈ s.completed := by
  obtain ⟨w, hw⟩ | ⟨hq, -⟩ := h.ended i k hlast hci
  · rw [hpc] at hw
    cases hw
  · exact hq

/-- A read of `PxCI` that finds every command of `lastci` running. -/
theorem portReturn (h : Inv s) (hpc : s.pc = .reading i)
    (hdone : ∀ k, (s.port i).lastci.getLsbD k = true → (s.port i).ci.getLsbD k = true) :
    Inv { s with pc := .idle } := by
  refine { h with given := ?_, writes := ?_, ended := ?_ }
  · intro q k hk
    obtain hq | ⟨w, hw⟩ := h.given q k hk
    · exact .inl hq
    · rw [hpc] at hw
      cases hw
  · exact fun _ _ _ hw ↦ nomatch hw
  · intro i' k hlast hci
    obtain ⟨w, hw⟩ | ⟨hq, hint | hread⟩ := h.ended i' k hlast hci
    · rw [hpc] at hw
      cases hw
    · exact .inr ⟨hq, .inl hint⟩
    · rw [hpc] at hread
      obtain rfl := Pc.reading.inj hread
      rw [hdone k hlast] at hci
      cases hci

/-- A read of `PxCI` that finds that commands have completed. -/
theorem portReport (h : Inv s) (hpc : s.pc = .reading i) :
    Inv (s.portReport i ((s.port i).lastci &&& ~~~(s.port i).ci)) := by
  -- the requests that are reported
  have hmem : ∀ q, q ∈ (bits ((s.port i).lastci &&& ~~~(s.port i).ci)).map (s.port i).cmd ↔
      ∃ k, (s.port i).lastci.getLsbD k = true ∧ (s.port i).ci.getLsbD k = false ∧
        (s.port i).cmd k = q := by
    intro q
    simp only [List.mem_map, mem_bits, getLsbD_and_not, Bool.and_eq_true, Bool.not_eq_true',
      and_assoc]
  have hnodup : ((bits ((s.port i).lastci &&& ~~~(s.port i).ci)).map (s.port i).cmd).Nodup := by
    refine (nodup_bits _).map_on fun k hk k' hk' hcmd ↦ ?_
    rw [mem_bits, getLsbD_and_not, Bool.and_eq_true] at hk hk'
    exact (h.cmd_inj hk.1 hk'.1 hcmd).2
  have hsub : s.evtset ⊆ (s.portReport i ((s.port i).lastci &&& ~~~(s.port i).ci)).evtset :=
    List.subset_append_left _ _
  constructor
  case ioq => exact h.ioq
  case accepted => exact h.accepted
  case fresh => exact h.fresh
  case once => exact h.once
  case result => exact congrArg (· ++ _) h.result
  case issued_accepted => exact h.issued_accepted
  case issued_once => exact h.issued_once
  case completed_issued => exact h.completed_issued
  case evtset_completed =>
    refine List.append_subset.2 ⟨h.evtset_completed, fun q hq ↦ ?_⟩
    obtain ⟨k, hlast, hci, rfl⟩ := (hmem q).1 hq
    exact h.reports hpc hlast hci
  case evtset_once =>
    refine List.nodup_append'.2 ⟨h.evtset_once, hnodup, fun q hq hq' ↦ ?_⟩
    obtain ⟨k, hlast, -, rfl⟩ := (hmem q).1 hq'
    exact (h.held i k hlast).2.2 hq
  case turns => exact h.turns.imp fun hab hport hslot ↦ hsub (hab hport hslot)
  case held =>
    intro i' k hlast
    rw [portReport_lastci] at hlast
    rw [portReport_cmd]
    have hlast' : (s.port i').lastci.getLsbD k = true := by
      split at hlast
      case isTrue hi => exact hi ▸ (h.runs i k hlast).1
      case isFalse => exact hlast
    obtain ⟨hused, hport, hq⟩ := h.held i' k hlast'
    refine ⟨hused, hport, fun hq' ↦ ?_⟩
    obtain hq' | hq' := List.mem_append.1 hq'
    · exact hq hq'
    · -- a request that is reported is not the one of a slot that stays in `lastci`
      obtain ⟨k', hlast'', hci, hcmd⟩ := (hmem _).1 hq'
      obtain ⟨rfl, rfl⟩ := h.cmd_inj hlast'' hlast' hcmd
      rw [if_pos rfl, hci] at hlast
      cases hlast
  case kept =>
    intro q k hk hq
    rw [portReport_lastci, portReport_cmd]
    obtain ⟨hlast, hcmd⟩ := h.kept q k hk fun hq' ↦ hq (hsub hq')
    refine ⟨?_, hcmd⟩
    split
    case isTrue hi =>
      by_contra hci
      rw [Bool.not_eq_true] at hci
      rw [hi] at hlast hcmd
      exact hq (List.mem_append_right _ ((hmem q).2 ⟨k, hlast, hci, hcmd⟩))
    case isFalse => exact hlast
  case given =>
    intro q k hk
    obtain hq | ⟨w, hw⟩ := h.given q k hk
    · exact .inl hq
    · rw [hpc] at hw
      cases hw
  case runs =>
    intro i' k hci
    rw [portReport_ci] at hci
    rw [portReport_lastci, portReport_cmd]
    obtain ⟨hlast, hcmd⟩ := h.runs i' k hci
    refine ⟨?_, hcmd⟩
    split
    case isTrue hi => exact hi ▸ hci
    case isFalse => exact hlast
  case writes =>
    intro i' j w hw
    rw [show (s.portReport i _).pc = s.pc from rfl, hpc] at hw
    cases hw
  case ended =>
    intro i' k hlast hci
    rw [portReport_lastci] at hlast
    rw [portReport_ci] at hci
    rw [portReport_cmd, portReport_is]
    split at hlast
    case isTrue hi =>
      rw [hi, hlast] at hci
      cases hci
    case isFalse hi => exact h.ended i' k hlast hci

/-- A read of `PxCI` and what follows it. -/
theorem portRead (h : Inv s) (hpc : s.pc = .reading i) : Inv (s.portRead i) := by
  rw [State.portRead]
  split
  case isTrue hdone =>
    refine h.portReturn hpc fun k hlast ↦ ?_
    by_contra hci
    rw [Bool.not_eq_true] at hci
    have hk : ((s.port i).lastci &&& ~~~(s.port i).ci).getLsbD k = true := by
      rw [getLsbD_and_not, hlast, hci, Bool.not_false, Bool.and_self]
    rw [hdone] at hk
    exact absurd hk (by simp)
  case isFalse => exact h.portReport hpc

/-! ## The steps of the controller -/

/-- A command completes. -/
theorem portComplete (h : Inv s) (hk : (s.port i).ci.getLsbD k = true) :
    Inv (s.portComplete i k) := by
  obtain ⟨hlast, hissued, hcompleted⟩ := h.runs i k hk
  constructor
  case ioq => exact h.ioq
  case accepted => exact h.accepted
  case fresh => exact h.fresh
  case once => exact h.once
  case result => exact h.result
  case issued_accepted => exact h.issued_accepted
  case issued_once => exact h.issued_once
  case completed_issued =>
    exact List.append_subset.2 ⟨h.completed_issued, List.cons_subset.2 ⟨hissued, List.nil_subset _⟩⟩
  case evtset_completed =>
    exact List.Subset.trans h.evtset_completed (List.subset_append_left _ _)
  case evtset_once => exact h.evtset_once
  case turns => exact h.turns
  case held =>
    intro i' k'
    rw [portComplete_lastci, portComplete_cmd]
    exact h.held i' k'
  case kept =>
    intro q k'
    rw [portComplete_lastci, portComplete_cmd]
    exact h.kept q k'
  case given => exact h.given
  case runs =>
    intro i' k' hci
    rw [portComplete_ci, Bool.and_eq_true] at hci
    rw [portComplete_lastci, portComplete_cmd]
    obtain ⟨hlast', hissued', hcompleted'⟩ := h.runs i' k' hci.1
    refine ⟨hlast', hissued', fun hq ↦ ?_⟩
    obtain hq | hq := List.mem_append.1 hq
    · exact hcompleted' hq
    · -- the other commands that run are other requests
      obtain ⟨rfl, rfl⟩ := h.cmd_inj hlast' hlast (List.mem_singleton.1 hq)
      simp at hci
  case writes =>
    intro i' j w hw
    rw [portComplete_lastci, portComplete_cmd]
    exact h.writes i' j w hw
  case ended =>
    intro i' k' hlast' hci
    rw [portComplete_lastci] at hlast'
    rw [portComplete_ci, Bool.and_eq_false_iff] at hci
    rw [portComplete_cmd, portComplete_is]
    obtain hci | hci := hci
    · obtain hw | ⟨hq, hint | hread⟩ := h.ended i' k' hlast' hci
      · exact .inl hw
      · exact .inr ⟨List.mem_append_left _ hq, .inl (by simp [hint])⟩
      · exact .inr ⟨List.mem_append_left _ hq, .inr hread⟩
    · obtain ⟨rfl, rfl⟩ : i' = i ∧ k' = k := by simpa using hci
      exact .inr ⟨List.mem_append_right _ List.mem_cons_self, .inl (by simp)⟩

/-! ## Runs -/

/-- A step that meets the condition preserves the invariant. -/
theorem step (h : Inv s) (hst : Step s a t) (hm : Meets s a) : Inv t := by
  cases a with
  | submit i r ok =>
      rw [Step, State.exec] at hst
      split at hst
      case h_1 hpc =>
        cases hst
        rw [State.portQueueOp]
        cases ok with
        | false => exact h.skip
        | true =>
            obtain ⟨j, hj⟩ := Option.isSome_iff_exists.1 (hm rfl)
            have hslot : (s.port i).getSlot = some j := by
              rw [State.freeSlot, h.ioq] at hj
              exact hj
            simp only [hj, if_true]
            exact h.portIssueQop hpc hslot
      case h_2 => cases hst
  | write =>
      rw [Step, State.exec] at hst
      split at hst
      case h_1 hpc =>
        cases hst
        exact h.portWriteCi hpc ((lost_eq_nil hpc).1 hm)
      case h_2 => cases hst
  | intr i =>
      rw [Step, State.exec] at hst
      split at hst
      case h_1 hpc =>
        cases hst
        exact h.portIntr hpc
      case h_2 => cases hst
  | read =>
      rw [Step, State.exec] at hst
      split at hst
      case h_1 hpc =>
        cases hst
        exact h.portRead hpc
      case h_2 => cases hst
  | hw i k =>
      rw [Step, State.exec] at hst
      split at hst
      case isTrue hk =>
        cases hst
        exact h.portComplete hk
      case isFalse => cases hst

/-- A step after which the requests can rely on the driver meets the condition. -/
theorem meets (h : Inv s) (hst : Step s a t) (ht : Protocol t) : Meets s a := by
  cases a with
  | submit i r ok =>
      rintro rfl
      rw [Step, State.exec] at hst
      split at hst
      case h_1 hpc =>
        cases hst
        by_contra hnone
        rw [Option.not_isSome_iff_eq_none] at hnone
        -- the request is accepted, and the controller was not given it
        have hacc := ht.accepted_issued
        simp only [State.portQueueOp, hnone, if_true, hpc] at hacc
        have hmem := hacc (fun _ _ _ ↦ Pc.noConfusion)
          (List.mem_append_right s.accepted (List.mem_singleton_self _))
        exact h.fresh_notMem (h.issued_accepted hmem)
      case h_2 => cases hst
  | write =>
      rw [Step, State.exec] at hst
      split at hst
      case h_1 i j v hpc =>
        cases hst
        refine (lost_eq_nil hpc).2 fun k hk ↦ ?_
        by_contra hci
        rw [Bool.not_eq_true] at hci
        -- the command is given to the controller for the second time
        obtain ⟨-, hissued⟩ := (h.writes i j v hpc).2.2.2 k hk
        have hnodup := (List.nodup_append'.1 ht.issued_once).2.2
        refine hnodup hissued (List.mem_map_of_mem (mem_bits.2 ?_))
        rw [getLsbD_and_not, BitVec.getLsbD_or, hk, hci, Bool.true_or, Bool.not_false,
          Bool.and_self]
      case h_2 => cases hst
  | intr i => trivial
  | read => trivial
  | hw i k => trivial

end Inv

/-- In a run of the driver and the controller, in whatever order their steps come: each accepted
request is given to the controller once and reported once, after it has completed, and its slot is
not reused before, in every state that the run passes, if and only if no request is accepted without
a slot and no write of `PxCI` has the bit of a command that has completed since the read. -/
theorem protocol_iff {as : List Label} {s : State} (h : Run Step boot as s) :
    (∀ bs t, bs <+: as → Run Step boot bs t → Protocol t) ↔
      Run (fun s a t ↦ Step s a t ∧ Meets s a) boot as s :=
  h.forall_prefix_iff deterministic_step (fun _ _ _ hi hst hm ↦ hi.step hst hm)
    (fun _ hi ↦ hi.protocol) (fun _ _ _ hi hst ht ↦ hi.meets hst ht) Inv.boot

/-- One request, which completes and is reported, and one that takes the slot again. -/
theorem protocol_two : ∃ s, Run Step boot [.submit 0 zeroRequest true, .write, .hw 0 0, .intr 0,
      .read, .read, .submit 0 zeroRequest true, .write] s ∧
    ∀ bs t, bs <+: [.submit 0 zeroRequest true, .write, .hw 0 0, .intr 0, .read, .read,
      .submit 0 zeroRequest true, .write] → Run Step boot bs t → Protocol t := by
  have hrun : ∃ s, Run (fun s a t ↦ Step s a t ∧ Meets s a) boot
      [.submit 0 zeroRequest true, .write, .hw 0 0, .intr 0, .read, .read,
        .submit 0 zeroRequest true, .write] s :=
    ⟨_, .cons ⟨rfl, by decide⟩ <| .cons ⟨rfl, by decide⟩ <| .cons ⟨rfl, trivial⟩ <|
      .cons ⟨rfl, trivial⟩ <| .cons ⟨rfl, trivial⟩ <| .cons ⟨rfl, trivial⟩ <|
      .cons ⟨rfl, by decide⟩ <| .cons ⟨rfl, by decide⟩ <| .nil _⟩
  obtain ⟨s, hs⟩ := hrun
  have h := hs.mono fun _ _ _ hst ↦ hst.1
  exact ⟨s, h, (protocol_iff h).2 hs⟩

/-- The command in slot 0 completes while the driver, for another request, is between its read of
`PxCI` and its write: the write gives it to the controller again. -/
theorem issued_again : ∃ s, Run Step boot [.submit 0 zeroRequest true, .write,
      .submit 0 zeroRequest true, .hw 0 0, .write] s ∧
    s.issued = [⟨zeroRequest, 0, 0⟩, ⟨zeroRequest, 0, 0⟩, ⟨zeroRequest, 1, 0⟩] ∧
    ¬Protocol s := by
  obtain ⟨s, hs, hissued⟩ : ∃ s, Run Step boot [.submit 0 zeroRequest true, .write,
      .submit 0 zeroRequest true, .hw 0 0, .write] s ∧
      s.issued = [⟨zeroRequest, 0, 0⟩, ⟨zeroRequest, 0, 0⟩, ⟨zeroRequest, 1, 0⟩] :=
    Run.of_foldlM (by decide +kernel)
  refine ⟨s, hs, hissued, fun h ↦ ?_⟩
  have honce := h.issued_once
  rw [hissued] at honce
  exact absurd honce (by decide)

end Mh.Ahci
