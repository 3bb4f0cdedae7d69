import Mh.Lwt.Events

/-!
# The allocation of events

An event is available when its bit in `alloc_evts` is clear.  `evtalloc` takes the first that is,
and `evtfree` is to make the one that it is given available again.  It clears its bit with a mask
that it computes in an `int`, which is right for the bits below 31.  For bit 31 the mask is
positive, and clears the bits above as well; from bit 32 on the shift starts again at 0, and it is
another event that becomes available (`evtfree_frees`).

Where each event that is freed is one for which this is right, `evtalloc` returns only what is
available (`evts_apart`).
-/

namespace Mh.Lwt

open Mh.Lib (Run bind_eq_ok exists_eq_ok)

namespace State

/-- Is the bit of the event set in `alloc_evts`? -/
def evtIsAlloc (s : State) (evt : Nat) : Bool := (s.allocEvts (evt / 64)).getLsbD (evt % 64)

/-- Of the events in `s`, `evt` is not allocated in `s'`, and all others are as they were. -/
def Frees (s : State) (evt : Nat) (s' : State) : Prop :=
  ∀ k < maxEvt, s'.evtIsAlloc k = (s.evtIsAlloc k && k != evt)

/-- The bit of the event is below 31; or it is bit 31 or 63, and of the events from bit 31 on in
its word no other one is allocated. -/
def FreeSafe (s : State) (evt : Nat) : Prop :=
  evt % 64 < 31 ∨ (evt % 64 = 31 ∨ evt % 64 = 63) ∧
    ∀ k, k / 64 = evt / 64 → 31 ≤ k % 64 → k ≠ evt → s.evtIsAlloc k = false

end State

/-! ## Bits -/

section Bits

variable {w : BitVec 64} {j k : Nat}

/-- The bits that `evtfree` keeps. -/
theorem getLsbD_freeMask (hk : k < 64) :
    (freeMask j).getLsbD k = if j % 32 = 31 then decide (k < 31) else k != j % 32 := by
  have hj : j % 32 < 32 := Nat.mod_lt _ (by decide)
  have hbit : ∀ r, r < 32 → (1#32 <<< (j % 32)).getLsbD r = decide (r = j % 32) := by
    intro r hr
    rw [BitVec.getLsbD_shiftLeft, BitVec.getLsbD_one]
    simp only [hr, decide_true, Bool.true_and]
    by_cases h : r = j % 32
    · simp [h]
    · simp only [h, decide_false, Bool.and_eq_false_iff, Bool.not_eq_false', decide_eq_true_eq,
        decide_eq_false_iff_not]
      omega
  rw [freeMask, BitVec.getLsbD_signExtend]
  simp only [hk, decide_true, Bool.true_and, BitVec.msb_eq_getLsbD_last, BitVec.getLsbD_not]
  split
  · next hlt =>
      rw [hbit k hlt]
      simp only [hlt, decide_true, Bool.true_and]
      split
      · next h31 =>
          rw [h31, Bool.eq_iff_iff]
          simp only [Bool.not_eq_true', decide_eq_false_iff_not, decide_eq_true_eq]
          omega
      · exact rfl
  · next hge =>
      rw [hbit (32 - 1) (by decide)]
      split
      · next h31 =>
          rw [h31, decide_eq_false (by omega : ¬ k < 31)]
          rfl
      · next h31 =>
          rw [decide_eq_false (Ne.symm h31), bne_iff_ne.2 (by omega)]
          rfl

/-- `ffs64` finds a bit that is set. -/
theorem getLsbD_ffs64 (h : w ≠ 0) : ffs64 w - 1 < 64 ∧ w.getLsbD (ffs64 w - 1) = true := by
  rw [ffs64]
  cases hf : (List.range 64).find? fun r ↦ w.getLsbD r with
  | none =>
      refine absurd (BitVec.eq_of_getLsbD_eq fun r hr ↦ ?_) h
      rw [show BitVec.getLsbD 0 r = false from BitVec.getLsbD_zero]
      have hn := List.find?_eq_none.1 hf r (List.mem_range.2 hr)
      exact Bool.eq_false_iff.2 hn
  | some r =>
      obtain ⟨hp, hm⟩ := And.intro (List.find?_some hf) (List.mem_of_find?_eq_some hf)
      exact ⟨List.mem_range.1 hm, hp⟩

end Bits

namespace State

variable {s s' : State} {evt e k i b new : Nat} {save : Bool}

/-- Writing the word of an event. -/
theorem evtIsAlloc_update {w : BitVec 64} :
    (Function.update s.allocEvts i w (k / 64)).getLsbD (k % 64) =
      if k / 64 = i then w.getLsbD (k % 64) else s.evtIsAlloc k := by
  split
  · next h => rw [h, Function.update_self]
  · next h =>
      rw [Function.update_of_ne h]
      rfl

/-! ## Freeing and allocating -/

theorem allocEvts_preemptEnable (h : s.preemptEnable = .ok s') : s'.allocEvts = s.allocEvts := by
  obtain ⟨i, rfl⟩ := preemptEnable_eq h
  rfl

/-- What `evtfree` leaves allocated. -/
theorem evtIsAlloc_evtfree (h : s.evtfree evt = .ok s') (k : Nat) : s'.evtIsAlloc k =
    (s.evtIsAlloc k && (k / 64 != evt / 64 ||
      if evt % 32 = 31 then decide (k % 64 < 31) else k % 64 != evt % 32)) := by
  rw [evtfree] at h
  split at h
  · have hmod : evt % 64 % 32 = evt % 32 := Nat.mod_mod_of_dvd _ (by decide)
    rw [evtIsAlloc, allocEvts_preemptEnable h]
    show (Function.update s.allocEvts (evt / 64) _ (k / 64)).getLsbD (k % 64) = _
    rw [evtIsAlloc_update]
    split
    · next hk =>
        rw [BitVec.getLsbD_and, getLsbD_freeMask (Nat.mod_lt _ (by decide)), hmod, hk,
          bne_self_eq_false, Bool.false_or, evtIsAlloc, hk]
        rfl
    · next hk => rw [bne_iff_ne.2 hk, Bool.true_or, Bool.and_true]
  · cases h

/-- `evtfree` makes exactly its event available when the event is safe, and only then. -/
theorem evtfree_frees (h : s.evtfree evt = .ok s') (ha : s.evtIsAlloc evt = true) :
    s.Frees evt s' ↔ s.FreeSafe evt := by
  have hlt : evt < maxEvt := by
    rw [evtfree] at h
    split at h
    · assumption
    · cases h
  have heq : ∀ k, k = evt ↔ k / 64 = evt / 64 ∧ k % 64 = evt % 64 := fun k ↦ by omega
  simp only [Frees, evtIsAlloc_evtfree h]
  by_cases h31 : evt % 32 = 31
  · simp only [h31, if_true]
    constructor
    · intro hf
      refine .inr ⟨by omega, fun k hw hk hne ↦ ?_⟩
      have hkm : k < maxEvt := by
        simp only [maxEvt, maxEvtQword] at hlt ⊢
        omega
      have hs := hf k hkm
      rw [hw, bne_self_eq_false, Bool.false_or, decide_eq_false (Nat.not_lt.2 hk), Bool.and_false,
        bne_iff_ne.2 hne, Bool.and_true] at hs
      exact hs.symm
    · rintro (hlow | ⟨-, hno⟩) k -
      · omega
      · by_cases hne : k = evt
        · subst hne
          have : ¬ k % 64 < 31 := by omega
          simp [this]
        · rw [bne_iff_ne.2 hne, Bool.and_true]
          by_cases hw : k / 64 = evt / 64
          · by_cases hk : 31 ≤ k % 64
            · rw [hno k hw hk hne, Bool.false_and]
            · rw [decide_eq_true (Nat.lt_of_not_le hk), Bool.or_true, Bool.and_true]
          · rw [bne_iff_ne.2 hw, Bool.true_or, Bool.and_true]
  · simp only [h31, if_false]
    constructor
    · intro hf
      -- the bit of the event itself must be one that is cleared
      have hs := hf evt hlt
      rw [ha, bne_self_eq_false, bne_self_eq_false, Bool.false_or, Bool.true_and, Bool.and_false,
        bne_eq_false_iff_eq] at hs
      exact .inl (by omega)
    · rintro (hlow | ⟨hhigh, -⟩) k -
      · have hmod : evt % 32 = evt % 64 := by omega
        rw [hmod]
        congr 1
        rw [Bool.eq_iff_iff]
        simp only [Bool.or_eq_true, bne_iff_ne, ne_eq, heq k]
        omega
      · omega

/-- The bit that `evtalloc` takes is clear. -/
theorem freeSlot_spec (h : s.freeSlot = some (i, b)) :
    i < maxEvtQword ∧ b < 64 ∧ (s.allocEvts i).getLsbD b = false := by
  obtain ⟨j, hj, he⟩ := Option.map_eq_some_iff.1 h
  cases he
  have hw := List.find?_some hj
  have hm := List.mem_of_find?_eq_some hj
  have hne : ~~~s.allocEvts i ≠ 0 := by
    intro hz
    have hw : s.allocEvts i ≠ ~~~0#64 := of_decide_eq_true hw
    apply hw
    rw [← BitVec.not_not (b := s.allocEvts i), hz]
    rfl
  obtain ⟨hb, hset⟩ := getLsbD_ffs64 hne
  refine ⟨List.mem_range.1 hm, hb, ?_⟩
  rw [BitVec.getLsbD_not, decide_eq_true hb, Bool.true_and, Bool.not_eq_true'] at hset
  exact hset

/-- `evtalloc` returns an event that was available, and allocates this one only. -/
theorem evtalloc_spec (h : s.evtalloc = .ok (e, s')) :
    e < maxEvt ∧ s.evtIsAlloc e = false ∧ s.freeSlot = some (e / 64, e % 64) ∧
      ∀ k, s'.evtIsAlloc k = (s.evtIsAlloc k || k == e) := by
  rw [evtalloc] at h
  split at h
  · cases h
  · next i b hf =>
      obtain ⟨u, hu, hr⟩ := bind_eq_ok.1 h
      cases hr
      obtain ⟨hi, hb, hclear⟩ := freeSlot_spec hf
      have hdiv : (b + i * 64) / 64 = i := by omega
      have hmod : (b + i * 64) % 64 = b := by omega
      refine ⟨by simp only [maxEvt, maxEvtQword] at hi ⊢; omega, ?_, ?_, fun k ↦ ?_⟩
      · rw [evtIsAlloc, hdiv, hmod, hclear]
      · rw [hdiv, hmod, hf]
      · rw [evtIsAlloc, allocEvts_preemptEnable hu]
        show (Function.update s.allocEvts i _ (k / 64)).getLsbD (k % 64) = _
        rw [evtIsAlloc_update]
        split
        · next hk =>
            rw [getLsbD_setBit (Nat.mod_lt _ (by decide)), evtIsAlloc, hk]
            congr 1
            rw [Bool.eq_iff_iff, decide_eq_true_iff, beq_iff_eq]
            omega
        · next hk =>
            have hne : k ≠ b + i * 64 := by omega
            rw [beq_eq_false_iff_ne.2 hne, Bool.or_false]

/-! ## What leaves the bitmap alone -/

theorem allocEvts_lwtWakeIntr (s : State) (l : Nat) :
    (s.lwtWakeIntr l).allocEvts = s.allocEvts := by
  unfold lwtWakeIntr
  dsimp only
  split <;> rfl

theorem allocEvts_evtsetIntr (h : s.evtsetIntr evt = .ok s') : s'.allocEvts = s.allocEvts := by
  unfold evtsetIntr at h
  split at h
  · dsimp only at h
    split at h
    · cases h
      rfl
    · cases h
      exact allocEvts_lwtWakeIntr _ _
  · cases h

/-- Of what a handler may call, only `evtalloc` and `evtfree` write the bitmap. -/
theorem allocEvts_act {a : Act} (h : s.act a = .ok s') (ha : a ≠ .evtalloc)
    (hf : ∀ evt, a ≠ .evtfree evt) : s'.allocEvts = s.allocEvts := by
  cases a with
  | lwtWakeIntr l =>
      simp only [act] at h
      split at h
      · cases h
        exact allocEvts_lwtWakeIntr s l
      · cases h
  | evtsetIntr evt => exact allocEvts_evtsetIntr h
  | evtset evt =>
      obtain ⟨u, hu, h⟩ := bind_eq_ok.1 h
      exact (allocEvts_preemptEnable h :).trans (allocEvts_evtsetIntr hu :)
  | evtclear evt =>
      simp only [act, evtclear] at h
      split at h
      · exact (allocEvts_preemptEnable h :)
      · cases h
  | evtalloc => exact absurd rfl ha
  | evtfree evt => exact absurd rfl (hf evt)

theorem allocEvts_next (h : s.next save = .ok s') : s'.allocEvts = s.allocEvts := by
  unfold next at h
  split at h
  · cases h
    rfl
  · obtain ⟨u, hu, h⟩ := bind_eq_ok.1 h
    cases h
    exact (allocEvts_preemptEnable hu :)

theorem allocEvts_lwtYield (h : s.lwtYield = .ok s') : s'.allocEvts = s.allocEvts := by
  unfold lwtYield giveWay at h
  split at h
  · cases h
  · obtain ⟨u, hu, h⟩ := bind_eq_ok.1 h
    cases h
    split
    · exact (allocEvts_preemptEnable hu :)
    · exact (allocEvts_preemptEnable hu :)

theorem allocEvts_evtwait (h : s.evtwait evt = .ok s') : s'.allocEvts = s.allocEvts := by
  unfold evtwait at h
  split at h
  · dsimp only at h
    split at h
    · exact (allocEvts_preemptEnable h :)
    · split at h
      · exact (allocEvts_next h :)
      · cases h
  · cases h

theorem allocEvts_evtast {mem : Bool} (h : s.evtast evt mem = .ok s') :
    s'.allocEvts = s.allocEvts := by
  unfold evtast at h
  split at h
  · cases mem with
    | true =>
        simp only [if_true] at h
        split at h
        · split at h
          · cases h
            exact allocEvts_lwtWakeIntr _ _
          · exact (allocEvts_preemptEnable h :)
        · cases h
    | false =>
        simp only [Bool.false_eq_true, if_false] at h
        split at h
        · split at h
          · cases h
          · exact (allocEvts_preemptEnable h :)
        · cases h
  · cases h

/-- A call by the code of an LWT, other than what a handler may call. -/
theorem allocEvts_call {op : Op} (h : s.call op = .ok s') (hop : ∀ a, op ≠ .act a) :
    s'.allocEvts = s.allocEvts := by
  cases op with
  | act a => exact absurd rfl (hop a)
  | create =>
      cases h
      rfl
  | lwtWake l =>
      simp only [call, lwtWake] at h
      split at h
      · split at h
        · cases h
        · exact (allocEvts_preemptEnable h :).trans (allocEvts_lwtWakeIntr _ _)
      · cases h
  | lwtPause => exact (allocEvts_lwtYield h :)
  | lwtYield => exact (allocEvts_lwtYield h :)
  | lwtSleep => exact (allocEvts_next h :)
  | lwtExit => exact (allocEvts_next h :)
  | evtwait evt => exact (allocEvts_evtwait h :)
  | evtast evt mem => exact (allocEvts_evtast h :)
  | disable =>
      cases h
      rfl
  | enable => exact (allocEvts_preemptEnable h :)
  | evtwaitEnd => cases h
  | retry => cases h
  | switch => cases h
  | intr a => cases h

theorem allocEvts_resume {op : Op} (h : s.resume op = .ok s') : s'.allocEvts = s.allocEvts := by
  cases op with
  | retry =>
      simp only [resume] at h
      split at h
      · exact (allocEvts_next h :)
      · cases h
  | switch =>
      simp only [resume] at h
      split at h
      · cases h
        rfl
      · cases h
  | evtwaitEnd =>
      simp only [resume] at h
      split at h
      · exact (allocEvts_preemptEnable h :)
      · cases h
  | _ => cases h

end State

/-- What is called of what a handler may call, by an LWT or by a handler. -/
def Op.act? : Op → Option Act
  | .act a => some a
  | .intr a => some a
  | _ => none

namespace State

variable {s s' : State} {op : Op}

/-- A step calls what a handler may call, or leaves the bitmap alone. -/
theorem step_act (h : s.step op = .ok s') :
    (∃ (a : Act) (u u' : State), op.act? = some a ∧ u.allocEvts = s.allocEvts ∧
      u.act a = .ok u' ∧ s'.allocEvts = u'.allocEvts) ∨
    op.act? = none ∧ s'.allocEvts = s.allocEvts := by
  have hcall : ∀ {op},
      (if s.cpu = .running ∧ s.pos s.current = .code then s.call op else .error .disabled) =
        .ok s' → (∀ a, op ≠ .act a) → s'.allocEvts = s.allocEvts := by
    intro op h hop
    split at h
    · exact allocEvts_call h hop
    · cases h
  cases op with
  | act a =>
      simp only [step] at h
      split at h
      · exact .inl ⟨a, s, s', rfl, rfl, h, rfl⟩
      · cases h
  | intr a =>
      simp only [step, handle] at h
      split at h
      · obtain ⟨u, hu, h⟩ := bind_eq_ok.1 h
        cases h
        exact .inl ⟨a, { s with intr := false }, u, rfl, rfl, hu, rfl⟩
      · cases h
  | retry => exact .inr ⟨rfl, @allocEvts_resume _ _ .retry h⟩
  | switch => exact .inr ⟨rfl, @allocEvts_resume _ _ .switch h⟩
  | evtwaitEnd => exact .inr ⟨rfl, @allocEvts_resume _ _ .evtwaitEnd h⟩
  | _ => exact .inr ⟨rfl, hcall h fun _ he ↦ Op.noConfusion he⟩

end State

/-! ## Runs -/

/-- The events that are outstanding after a call: what `evtalloc` returns is from then on, and
what `evtfree` is given is no more. -/
def Act.outstanding (s : State) (out : Finset Nat) : Act → Finset Nat
  | .evtalloc => (s.freeSlot.map fun p ↦ p.2 + p.1 * 64).elim out (insert · out)
  | .evtfree evt => out.erase evt
  | _ => out

/-- The events that are outstanding after a step. -/
def outstanding (s : State) (out : Finset Nat) (op : Op) : Finset Nat :=
  op.act?.elim out (Act.outstanding s out)

/-- A step that frees only what is outstanding, and what is outstanding after it. -/
def EvtStep (p : State × Finset Nat) (op : Op) (q : State × Finset Nat) : Prop :=
  Step p.1 op q.1 ∧ q.2 = outstanding p.1 p.2 op ∧
    ∀ evt, op.act? = some (.evtfree evt) → evt ∈ p.2

/-- An event that is freed is one that `evtfree` frees rightly. -/
def State.EvtFreeSafe (s : State) (op : Op) : Prop :=
  ∀ evt, op.act? = some (.evtfree evt) → s.FreeSafe evt

/-- `evtalloc` returns an event that is not outstanding; `evtfree` makes exactly its event
available when this is safe; what is outstanding is what is allocated, and is not more than
there are events. -/
structure EvtsOk (s : State) (out : Finset Nat) : Prop where
  fresh : ∀ e s', s.evtalloc = .ok (e, s') → e < maxEvt ∧ e ∉ out
  frees : ∀ e ∈ out, ∀ s', s.evtfree e = .ok s' → (s.Frees e s' ↔ s.FreeSafe e)
  mem : ∀ e, e ∈ out ↔ e < maxEvt ∧ s.evtIsAlloc e = true
  card : out.card ≤ maxEvt

variable {s s' : State} {out out' : Finset Nat} {op : Op} {ops : List Op}

/-- The invariant: the events that are outstanding are those that are allocated. -/
def Tracks (s : State) (out : Finset Nat) : Prop :=
  ∀ e, e ∈ out ↔ e < maxEvt ∧ s.evtIsAlloc e = true

theorem evtIsAlloc_congr (h : s'.allocEvts = s.allocEvts) (e : Nat) :
    s'.evtIsAlloc e = s.evtIsAlloc e := by
  rw [State.evtIsAlloc, h, State.evtIsAlloc]

namespace Tracks

theorem congr (h : Tracks s out) (ha : s'.allocEvts = s.allocEvts) : Tracks s' out := by
  intro e
  rw [evtIsAlloc_congr ha]
  exact h e

theorem boot : Tracks State.boot ∅ := by
  intro e
  simp [State.evtIsAlloc, State.boot]

/-- What a handler may call. -/
theorem act {a : Act} (h : Tracks s out) (hs : s.act a = .ok s')
    (hsafe : ∀ evt, a = .evtfree evt → s.FreeSafe evt)
    (hout : ∀ evt, a = .evtfree evt → evt ∈ out) :
    Tracks s' (a.outstanding s out) := by
  cases a with
  | evtalloc =>
      obtain ⟨⟨e, u⟩, hu, hs⟩ := bind_eq_ok.1 hs
      cases hs
      obtain ⟨hlt, -, hslot, hset⟩ := State.evtalloc_spec hu
      intro k
      rw [Act.outstanding, hslot]
      show k ∈ insert (e % 64 + e / 64 * 64) out ↔ _
      rw [Nat.mod_add_div', Finset.mem_insert, h k, hset k, Bool.or_eq_true, beq_iff_eq]
      constructor
      · rintro (rfl | ⟨hk, ha⟩)
        · exact ⟨hlt, .inr rfl⟩
        · exact ⟨hk, .inl ha⟩
      · rintro ⟨hk, ha | rfl⟩
        · exact .inr ⟨hk, ha⟩
        · exact .inl rfl
  | evtfree evt =>
      have ha := ((h evt).1 (hout evt rfl)).2
      have hf := (State.evtfree_frees hs ha).2 (hsafe evt rfl)
      intro k
      show k ∈ out.erase evt ↔ _
      rw [Finset.mem_erase, h k]
      constructor
      · rintro ⟨hne, hk, ha⟩
        rw [hf k hk, ha, bne_iff_ne.2 hne]
        exact ⟨hk, rfl⟩
      · rintro ⟨hk, hs⟩
        rw [hf k hk, Bool.and_eq_true, bne_iff_ne] at hs
        exact ⟨hs.2, hk, hs.1⟩
  | lwtWakeIntr l => exact h.congr (State.allocEvts_act hs nofun nofun)
  | evtsetIntr evt => exact h.congr (State.allocEvts_act hs nofun nofun)
  | evtset evt => exact h.congr (State.allocEvts_act hs nofun nofun)
  | evtclear evt => exact h.congr (State.allocEvts_act hs nofun nofun)

/-- A step. -/
theorem step (h : Tracks s out) (hs : EvtStep (s, out) op (s', out')) (hsafe : s.EvtFreeSafe op) :
    Tracks s' out' := by
  obtain ⟨hs, ho, hout⟩ := hs
  dsimp only at hs ho hout
  rw [ho, outstanding]
  rcases State.step_act hs with ⟨a, u, u', ha, hu, hact, hu'⟩ | ⟨ha, hs'⟩
  · rw [State.EvtFreeSafe, ha] at hsafe
    rw [ha] at hout ⊢
    have hslot : a.outstanding u out = a.outstanding s out := by
      cases a with
      | evtalloc => simp only [Act.outstanding, State.freeSlot, hu]
      | _ => rfl
    have hfree : ∀ evt, s.FreeSafe evt → u.FreeSafe evt := by
      intro evt hf
      refine hf.imp_right fun ⟨hb, hno⟩ ↦ ⟨hb, fun k hw hk hne ↦ ?_⟩
      rw [evtIsAlloc_congr hu]
      exact hno k hw hk hne
    have h' := (h.congr hu).act hact (fun evt he ↦ hfree evt (hsafe evt (congrArg some he)))
      fun evt he ↦ hout evt (congrArg some he)
    rw [hslot] at h'
    exact h'.congr hu'
  · rw [ha]
    exact h.congr hs'

theorem evtsOk (h : Tracks s out) : EvtsOk s out where
  fresh e s' hs := by
    obtain ⟨hlt, hno, -⟩ := State.evtalloc_spec hs
    refine ⟨hlt, fun hm ↦ ?_⟩
    rw [((h e).1 hm).2] at hno
    cases hno
  frees e he s' hs := State.evtfree_frees hs ((h e).1 he).2
  mem := h
  card := by
    have hsub : out ⊆ Finset.range maxEvt := fun e he ↦ Finset.mem_range.2 ((h e).1 he).1
    calc out.card ≤ (Finset.range maxEvt).card := Finset.card_le_card hsub
      _ = maxEvt := Finset.card_range maxEvt

end Tracks

/-- In a run in which every event that is freed is freed rightly, `evtalloc` returns no event
that is outstanding. -/
theorem evts_apart (h : Run (fun p op q ↦ EvtStep p op q ∧ p.1.EvtFreeSafe op) (.boot, ∅) ops
    (s, out)) : EvtsOk s out := by
  have hI := h.invariant (I := fun p : State × Finset Nat ↦ Tracks p.1 p.2) ?_ Tracks.boot
  · exact hI.evtsOk
  · rintro ⟨s, out⟩ op ⟨s', out'⟩ hI ⟨hs, hsafe⟩
    exact hI.step hs hsafe

/-- A step, from what it does. -/
theorem evtStep (h : s.step op = .ok s')
    (hout : ∀ evt, op.act? = some (.evtfree evt) → evt ∈ out) :
    EvtStep (s, out) op (s', outstanding s out op) := ⟨h, rfl, hout⟩

/-- Four calls, the third of which frees event 0. -/
theorem evts_apart_four : ∃ s out, Run (fun p op q ↦ EvtStep p op q ∧ p.1.EvtFreeSafe op)
    (.boot, ∅) [.act .evtalloc, .act .evtalloc, .act (.evtfree 0), .act .evtalloc] (s, out) ∧
      0 ∈ out ∧ 1 ∈ out ∧ EvtsOk s out := by
  have hno : ∀ {evt out}, some Act.evtalloc = some (.evtfree evt) → evt ∈ (out : Finset Nat) := by
    rintro evt out ⟨⟩
  have hsafe : ∀ {s : State}, s.EvtFreeSafe (.act .evtalloc) := by
    rintro s evt ⟨⟩
  have h : Run (fun p op q ↦ EvtStep p op q ∧ p.1.EvtFreeSafe op) (State.boot, ∅)
      [.act .evtalloc, .act .evtalloc, .act (.evtfree 0), .act .evtalloc] (_, _) :=
    .cons ⟨evtStep rfl fun _ ↦ hno, hsafe⟩ <| .cons ⟨evtStep rfl fun _ ↦ hno, hsafe⟩ <|
      .cons ⟨evtStep rfl (by rintro evt ⟨⟩; decide), by rintro evt ⟨⟩; exact .inl (by decide)⟩ <|
        .cons ⟨evtStep rfl fun _ ↦ hno, hsafe⟩ (.nil _)
  exact ⟨_, _, h, by decide, by decide, evts_apart h⟩

/-- A run in which nothing is freed. -/
theorem evt_run (h : Run Step s ops s')
    (hno : ∀ op ∈ ops, ∀ evt, op.act? ≠ some (.evtfree evt)) (out : Finset Nat) :
    ∃ out', Run (fun p op q ↦ EvtStep p op q ∧ p.1.EvtFreeSafe op) (s, out) ops (s', out') := by
  induction h generalizing out with
  | nil s => exact ⟨out, .nil _⟩
  | @cons s t r op ops hs _ ih =>
      have hop := hno op List.mem_cons_self
      obtain ⟨out', hr⟩ := ih (fun op hm ↦ hno op (List.mem_cons_of_mem _ hm))
        (outstanding s out op)
      exact ⟨out', .cons ⟨⟨hs, rfl, fun evt he ↦ absurd he (hop evt)⟩,
        fun evt he ↦ absurd he (hop evt)⟩ hr⟩

/-- Of 33 events the last one is freed, and event 0, which is still outstanding, is returned. -/
theorem evts_shared : ¬ ∀ (ops : List Op) (s : State) (out : Finset Nat),
    Run EvtStep (.boot, ∅) ops (s, out) → ∀ e s', s.evtalloc = .ok (e, s') → e ∉ out := by
  intro hall
  have heval : ((List.replicate 33 (.act .evtalloc) : List Op).foldlM State.step
      State.boot).toOption.map (fun s ↦ (s.evtIsAlloc 0, s.evtIsAlloc 32,
        (s.step (.act (.evtfree 32))).toOption.bind fun u ↦
          u.evtalloc.toOption.map fun r ↦ r.1)) = some (true, true, some 0) := by
    decide +kernel
  obtain ⟨s, hr, hs⟩ := Run.of_foldlM heval
  simp only [Prod.mk.injEq] at hs
  obtain ⟨h0, h32, hfree⟩ := hs
  obtain ⟨out, hrun⟩ := evt_run hr (fun op hm evt ↦ by
    rw [List.eq_of_mem_replicate hm]
    exact fun he ↦ Act.noConfusion (Option.some.inj he)) ∅
  have hT : Tracks s out := hrun.invariant (I := fun p : State × Finset Nat ↦ Tracks p.1 p.2)
    (fun _ _ _ hI hs ↦ hI.step hs.1 hs.2) Tracks.boot
  cases hu : s.step (.act (.evtfree 32)) with
  | error e =>
      rw [hu] at hfree
      cases hfree
  | ok u =>
      rw [hu] at hfree
      obtain ⟨⟨e, u'⟩, halloc, he⟩ := exists_eq_ok (g := fun r : Nat × State ↦ r.1) hfree
      obtain rfl : e = 0 := he
      have hstep : EvtStep (s, out) (.act (.evtfree 32)) (u, out.erase 32) :=
        ⟨hu, rfl, by rintro evt ⟨⟩; exact (hT 32).2 ⟨by decide, h32⟩⟩
      refine hall _ _ _ ((hrun.mono fun _ _ _ h ↦ h.1).snoc hstep) 0 u' halloc ?_
      exact Finset.mem_erase.2 ⟨by decide, (hT 0).2 ⟨by decide, h0⟩⟩

end Mh.Lwt
