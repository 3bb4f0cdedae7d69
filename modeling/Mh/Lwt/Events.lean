import Mh.Lwt.Queue

/-!
# Events and their waiters

An LWT is blocked on an event from its call of `evtwait` until it clears its entry of
`wait_evts` when it runs again, and an AST from the `evtast` that creates it until it first
runs.  Meanwhile the entry names it, and once the event is set it is active, or already has
the CPU.

`evtalloc` breaks this.  It clears the entry of the bit it has found within its word, where
it should be that of the event: from the second word on the entry belongs to an event that
was allocated before, and its waiter is forgotten.  In the runs in which no LWT is blocked
on the entry that `evtalloc` clears, no waiter is lost (`waiters_kept`).
-/

namespace Mh.Lwt

open Mh.Lib (Run)

namespace State

/-- The LWT is in `evtwait evt`, or is an AST of `evt` that has not yet run. -/
def Blocked (s : State) (l evt : Nat) : Prop := s.pos l = .evtwait evt ∨ s.pos l = .ast evt

/-- Active, or on the CPU. -/
def Up (s : State) (l : Nat) : Prop := s.active l = true ∨ s.OnCpu l

/-- The entry that `evtalloc` clears is that of an event on which no LWT is blocked. -/
def AllocSafe (s : State) : Prop := ∀ i b, s.freeSlot = some (i, b) → ∀ l, ¬ s.Blocked l b

/-- When `evtalloc` is called, no LWT is blocked on the entry that it clears. -/
def EventSafe (s : State) : Op → Prop
  | .act .evtalloc | .intr .evtalloc => s.AllocSafe
  | _ => True

end State

/-! ## Bits -/

section Bits

variable {w : BitVec 64} {f : Nat → BitVec 64} {r k i b evt : Nat}

theorem getLsbD_bit (hk : k < 64) : (1#64 <<< r).getLsbD k = decide (k = r) := by
  rw [BitVec.getLsbD_shiftLeft, BitVec.getLsbD_one]
  by_cases h : k = r
  · subst h
    simp [hk]
  · simp only [hk, decide_true, Bool.true_and, h, decide_false]
    simp only [Bool.and_eq_false_iff, decide_eq_false_iff_not, Bool.not_eq_false']
    simp only [decide_eq_true_eq]
    omega

theorem getLsbD_setBit (hk : k < 64) :
    (setBit w r).getLsbD k = (w.getLsbD k || decide (k = r)) := by
  rw [setBit, BitVec.getLsbD_or, getLsbD_bit hk]

theorem getLsbD_clearBit (hk : k < 64) :
    (clearBit w r).getLsbD k = (w.getLsbD k && !decide (k = r)) := by
  rw [clearBit, BitVec.getLsbD_and, BitVec.getLsbD_not, getLsbD_bit hk]
  simp [hk]

/-- Setting the bit of an event sets that of no other. -/
theorem setBit_event (h : (Function.update f (evt / 64) (setBit (f (evt / 64)) (evt % 64))
    (k / 64)).getLsbD (k % 64) = true) : k = evt ∨ (f (k / 64)).getLsbD (k % 64) = true := by
  by_cases hi : k / 64 = evt / 64
  · rw [hi, Function.update_self, getLsbD_setBit (Nat.mod_lt _ (by decide)),
      Bool.or_eq_true] at h
    rcases h with h | h
    · exact .inr (hi ▸ h)
    · have hm : k % 64 = evt % 64 := of_decide_eq_true h
      omega
  · rw [Function.update_of_ne hi] at h
    exact .inr h

/-- Clearing a bit sets none. -/
theorem clearBit_event (h : (Function.update f i (clearBit (f i) b)
    (k / 64)).getLsbD (k % 64) = true) : (f (k / 64)).getLsbD (k % 64) = true := by
  by_cases hi : k / 64 = i
  · rw [hi, Function.update_self, getLsbD_clearBit (Nat.mod_lt _ (by decide)),
      Bool.and_eq_true] at h
    exact hi ▸ h.1
  · rwa [Function.update_of_ne hi] at h

end Bits

/-! ## The invariant -/

/-- Every blocked LWT is named by the entry of its event, and has been woken if that is
set, where `up` tells how far a woken LWT has got. -/
structure Awaited (s : State) (up : Nat → Prop) : Prop where
  named : ∀ l e, s.Blocked l e → s.waitEvts e = some l
  awake : ∀ l e, s.Blocked l e → s.evtIsSet e = true → up l

/-- The invariant: a blocked LWT whose event is set is active or on the CPU. -/
abbrev EInv (s : State) : Prop := Awaited s s.Up

theorem EInv.boot : EInv State.boot := by
  have hno : ∀ l e, ¬ State.boot.Blocked l e := by
    intro l e h
    unfold State.Blocked State.boot at h
    by_cases hl : l = 0
    · subst hl
      rcases h with h | h <;> cases h
    · simp only [Function.update_of_ne hl] at h
      rcases h with h | h <;> cases h
  exact ⟨fun l e h ↦ absurd h (hno l e), fun l e h ↦ absurd h (hno l e)⟩

namespace Awaited

variable {s s' : State} {up up' : Nat → Prop} {l evt new : Nat} {save : Bool}

/-- Nobody new is blocked, no entry of a blocked LWT is written, no event is set, and
nobody is put to sleep. -/
theorem keep (h : Awaited s up) (hb : ∀ l e, s'.Blocked l e → s.Blocked l e)
    (hw : ∀ l e, s'.Blocked l e → s'.waitEvts e = s.waitEvts e)
    (hset : ∀ e, s'.evtIsSet e = true → s.evtIsSet e = true)
    (hup : ∀ l e, s'.Blocked l e → up l → up' l) : Awaited s' up' where
  named l e hl := (hw l e hl).trans (h.named l e (hb l e hl))
  awake l e hl he := hup l e hl (h.awake l e (hb l e hl) (hset e he))

/-- Positions, entries and events stay, and nobody is put to sleep. -/
theorem congr (h : Awaited s up) (hp : s'.pos = s.pos) (hw : s'.waitEvts = s.waitEvts)
    (hset : s'.setEvts = s.setEvts) (hup : ∀ l, up l → up' l) : Awaited s' up' := by
  refine h.keep (fun l e hb ↦ ?_) (fun _ e _ ↦ congrFun hw e) (fun e he ↦ ?_) fun l _ _ ↦ hup l
  · unfold State.Blocked at hb ⊢
    rwa [hp] at hb
  · unfold State.evtIsSet at he ⊢
    rwa [hset] at he

end Awaited

namespace State

variable {s s' : State} {l m : Nat}

theorem onCpu_congr (hcpu : s'.cpu = s.cpu) (hc : s'.current = s.current) (h : s.OnCpu l) :
    s'.OnCpu l := by
  unfold OnCpu at h ⊢
  rwa [hcpu, hc, target_congr hcpu]

theorem up_congr (ha : ∀ m, s.active m = true → s'.active m = true) (hcpu : s'.cpu = s.cpu)
    (hc : s'.current = s.current) (h : s.Up l) : s'.Up l :=
  h.imp (ha l) (onCpu_congr hcpu hc)

theorem active_insert (h : s.active m = true) : (s.insert l).active m = true := by
  show Function.update s.active l true m = true
  by_cases hm : m = l
  · rw [hm, Function.update_self]
  · rw [Function.update_of_ne hm, h]

/-- A wake makes the LWT active, and puts nobody to sleep. -/
theorem lwtWakeIntr_spec (s : State) (l : Nat) :
    (s.lwtWakeIntr l).active l = true ∧
      (∀ m, s.active m = true → (s.lwtWakeIntr l).active m = true) ∧
      (s.lwtWakeIntr l).pos = s.pos ∧ (s.lwtWakeIntr l).waitEvts = s.waitEvts ∧
      (s.lwtWakeIntr l).setEvts = s.setEvts ∧ (s.lwtWakeIntr l).current = s.current := by
  unfold lwtWakeIntr
  dsimp only
  split
  · next ha => exact ⟨ha, fun _ h ↦ h, rfl, rfl, rfl, rfl⟩
  · exact ⟨Function.update_self .., fun _ h ↦ active_insert (l := l) h, rfl, rfl, rfl, rfl⟩

theorem preemptEnable_eq (hs : s.preemptEnable = .ok s') :
    ∃ i, s' = { s with level := s.level - 1, intr := i } := by
  unfold preemptEnable at hs
  split at hs
  · cases hs
  · cases hs
    exact ⟨_, rfl⟩

end State

/-! ## What a handler may call -/

namespace EInv

variable {s s' : State} {l evt new : Nat} {save : Bool}

theorem preemptDisable (h : EInv s) : EInv s.preemptDisable := h.congr rfl rfl rfl fun _ hu ↦ hu

theorem preemptEnable (h : EInv s) (hs : s.preemptEnable = .ok s') : EInv s' := by
  obtain ⟨i, rfl⟩ := State.preemptEnable_eq hs
  exact h.congr rfl rfl rfl fun _ hu ↦ hu

theorem enable (hs : s.preemptEnable = .ok s') (h : EInv s) : EInv s' := h.preemptEnable hs

/-- A wake is all that one LWT lacks. -/
theorem wakeOne (h : Awaited s fun m ↦ s.Up m ∨ m = l) : EInv (s.lwtWakeIntr l) := by
  obtain ⟨hl, ha, hp, hw, hset, hc⟩ := s.lwtWakeIntr_spec l
  refine h.congr hp hw hset fun m hu ↦ ?_
  rcases hu with hu | rfl
  · exact State.up_congr ha State.lwtWakeIntr_cpu hc hu
  · exact .inl hl

theorem wake (h : EInv s) : EInv (s.lwtWakeIntr l) :=
  wakeOne (h.congr rfl rfl rfl fun _ hu ↦ .inl hu)

/-- Setting an event wakes the LWT that is blocked on it. -/
theorem evtsetIntr (h : EInv s) (hs : s.evtsetIntr evt = .ok s') : EInv s' := by
  unfold State.evtsetIntr at hs
  split at hs
  · dsimp only at hs
    split at hs
    · next hw =>
        cases hs
        refine ⟨h.named, fun m e hb he ↦ ?_⟩
        rcases setBit_event he with rfl | he
        · rw [h.named m e hb] at hw
          cases hw
        · exact h.awake m e hb he
    · next l hw =>
        cases hs
        refine wakeOne ⟨h.named, fun m e hb he ↦ ?_⟩
        rcases setBit_event he with rfl | he
        · exact .inr (Option.some.inj ((h.named m e hb).symm.trans hw))
        · exact .inl (h.awake m e hb he)
  · cases hs

/-- `evtalloc` clears the entry of nobody who is blocked. -/
theorem evtalloc {e : Nat} (h : EInv s) (hsafe : s.AllocSafe) (hs : s.evtalloc = .ok (e, s')) :
    EInv s' := by
  unfold State.evtalloc at hs
  split at hs
  · cases hs
  · next i b hf =>
      obtain ⟨u, hu, hs⟩ := Mh.Lib.bind_eq_ok.1 hs
      cases hs
      refine enable hu ?_
      refine h.keep (fun _ _ hb ↦ hb) (fun m k hb ↦ ?_) (fun _ ↦ clearBit_event) fun _ _ _ hu ↦ hu
      refine Function.update_of_ne ?_ _ _
      rintro rfl
      exact hsafe i k hf m hb

/-- What a handler may call loses no waiter. -/
theorem act {a : Act} (h : EInv s) (hsafe : a = .evtalloc → s.AllocSafe)
    (hs : s.act a = .ok s') : EInv s' := by
  cases a with
  | lwtWakeIntr l =>
      simp only [State.act] at hs
      split at hs
      · cases hs
        exact h.wake
      · cases hs
  | evtsetIntr evt => exact h.evtsetIntr hs
  | evtset evt =>
      obtain ⟨u, hu, hs⟩ := Mh.Lib.bind_eq_ok.1 hs
      exact (h.preemptDisable.evtsetIntr hu).preemptEnable hs
  | evtclear evt =>
      simp only [State.act, State.evtclear] at hs
      split at hs
      · refine enable hs ?_
        exact h.keep (fun _ _ hb ↦ hb) (fun _ _ _ ↦ rfl) (fun _ ↦ clearBit_event)
          fun _ _ _ hu ↦ hu
      · cases hs
  | evtalloc =>
      obtain ⟨⟨e, u⟩, hu, hs⟩ := Mh.Lib.bind_eq_ok.1 hs
      cases hs
      exact h.evtalloc (hsafe rfl) hu
  | evtfree evt =>
      simp only [State.act, State.evtfree] at hs
      split at hs
      · refine enable hs ?_
        exact h.congr rfl rfl rfl fun _ hu ↦ hu
      · cases hs

end EInv

/-! ## Calls -/

/-- An LWT that is blocked once it runs is in `evtwait`. -/
theorem Pos.of_run {p : Pos} {e : Nat} (h : p.run = .evtwait e ∨ p.run = .ast e) :
    p = .evtwait e := by
  cases p with
  | evtwait k =>
      rcases h with h | h
      · exact h
      · cases h
  | _ => rcases h with h | h <;> cases h

namespace State

variable {s s' : State} {l new : Nat}

/-- Taking the head off the queue leaves the flags of the others. -/
theorem active_dequeue (h : s.active l = true) (hl : l ≠ new) :
    (s.dequeue new).active l = true := by
  show Function.update s.active new false l = true
  rw [Function.update_of_ne hl, h]

/-- Who is blocked when the position of `l` has been written. -/
theorem blocked_update {p : Nat → Pos} {q : Pos} {e : Nat}
    (h : Function.update p l q new = .evtwait e ∨ Function.update p l q new = .ast e) :
    new = l ∧ (q = .evtwait e ∨ q = .ast e) ∨ new ≠ l ∧ (p new = .evtwait e ∨ p new = .ast e) := by
  by_cases hl : new = l
  · subst hl
    rw [Function.update_self] at h
    exact .inl ⟨rfl, h⟩
  · rw [Function.update_of_ne hl] at h
    exact .inr ⟨hl, h⟩

theorem not_blocked {e : Nat} (h : s.pos l = .code) : ¬ s.Blocked l e := by
  rintro (hb | hb) <;> rw [h] at hb <;> cases hb

end State

namespace EInv

variable {s s' : State} {l evt new : Nat} {save : Bool}

/-- While the current LWT runs its own code, those that have been woken are active. -/
theorem strict (h : EInv s) (hr : s.cpu = .running) (hp : s.pos s.current = .code) :
    Awaited s fun l ↦ s.active l = true := by
  refine h.keep (fun _ _ hb ↦ hb) (fun _ _ _ ↦ rfl) (fun _ he ↦ he) fun l e hb hu ↦ ?_
  rcases hu with hu | ⟨-, rfl⟩ | ht
  · exact hu
  · exact absurd hb (State.not_blocked hp)
  · simp only [State.target, hr] at ht
    cases ht

/-- While it waits for an interrupt too. -/
theorem strict_waiting (h : EInv s) (hr : s.cpu = .waiting save) :
    Awaited s fun l ↦ s.active l = true := by
  refine h.keep (fun _ _ hb ↦ hb) (fun _ _ _ ↦ rfl) (fun _ he ↦ he) fun l e hb hu ↦ ?_
  rcases hu with hu | ⟨hc, -⟩ | ht
  · exact hu
  · rw [hr] at hc
    cases hc
  · simp only [State.target, hr] at ht
    cases ht

/-- The head of the queue is switched to; the others stay active. -/
theorem next (hs : s.next save = .ok s') (h : Awaited s fun l ↦ s.active l = true) : EInv s' := by
  unfold State.next at hs
  split at hs
  · cases hs
    exact h.congr rfl rfl rfl fun _ ha ↦ .inl ha
  · next new hf =>
      obtain ⟨u, hu, hs⟩ := Mh.Lib.bind_eq_ok.1 hs
      obtain ⟨i, rfl⟩ := State.preemptEnable_eq hu
      cases hs
      refine h.congr rfl rfl rfl fun l ha ↦ ?_
      by_cases hl : l = new
      · subst hl
        exact .inr (.inr rfl)
      · exact .inl (State.active_dequeue ha hl)

/-- `lwt_yield` and `lwt_pause`: the current LWT, which may find itself at the head, is not
blocked. -/
theorem yield (h : Awaited s fun l ↦ s.active l = true) (hp : s.pos s.current = .code)
    (hs : s.lwtYield = .ok s') : EInv s' := by
  unfold State.lwtYield State.giveWay at hs
  split at hs
  · cases hs
  · next new hf =>
      obtain ⟨u, hu, hs⟩ := Mh.Lib.bind_eq_ok.1 hs
      obtain ⟨i, rfl⟩ := State.preemptEnable_eq hu
      cases hs
      have hact : ∀ l, s.active l = true → l ≠ new →
          ((s.preemptDisable.insert s.current).dequeue new).active l = true :=
        fun l ha ↦ State.active_dequeue (State.active_insert (s := s.preemptDisable) ha)
      split
      · next he =>
          refine h.keep (fun _ _ hb ↦ hb) (fun _ _ _ ↦ rfl) (fun _ he ↦ he) fun l e hb ha ↦ ?_
          refine .inl (hact l ha ?_)
          rintro rfl
          change s.current = l at he
          subst he
          exact State.not_blocked hp hb
      · refine h.congr rfl rfl rfl fun l ha ↦ ?_
        by_cases hl : l = new
        · subst hl
          exact .inr (.inr rfl)
        · exact .inl (hact l ha hl)

/-- `lwt_sleep` and `lwt_exit`: the current LWT may be blocked only on an event that is not
set. -/
theorem sleep (hs : s.preemptDisable.deactivate.next save = .ok s')
    (h : Awaited s fun l ↦ s.active l = true)
    (hc : ∀ e, s.Blocked s.current e → s.evtIsSet e = false) : EInv s' := by
  refine next hs ⟨h.named, fun l e hb he ↦ ?_⟩
  show Function.update s.active s.current false l = true
  rw [Function.update_of_ne, h.awake l e hb he]
  rintro rfl
  have hn := hc e hb
  change s.evtIsSet e = true at he
  rw [hn] at he
  cases he

/-- `evtwait`: the entry was empty, so nobody else is blocked on the event. -/
theorem wait (h : EInv s) (hr : s.cpu = .running) (hp : s.pos s.current = .code)
    (hs : s.evtwait evt = .ok s') : EInv s' := by
  unfold State.evtwait at hs
  split at hs
  · dsimp only at hs
    split at hs
    · exact h.preemptDisable.preemptEnable hs
    · next hset =>
        split at hs
        · next hw =>
            have hset : s.evtIsSet evt = false := Bool.eq_false_iff.2 hset
            have hq := h.strict hr hp
            refine sleep hs ⟨fun l e hb ↦ ?_, fun l e hb he ↦ ?_⟩ fun e hb ↦ ?_
            · rcases State.blocked_update hb with ⟨rfl, he⟩ | ⟨hl, hb⟩
              · obtain rfl : evt = e := by
                  rcases he with he | he <;> cases he
                  rfl
                exact Function.update_self ..
              · have hn := hq.named l e hb
                refine (Function.update_of_ne ?_ _ _).trans hn
                rintro rfl
                cases hw.symm.trans hn
            · rcases State.blocked_update hb with ⟨rfl, he'⟩ | ⟨hl, hb⟩
              · obtain rfl : evt = e := by
                  rcases he' with he' | he' <;> cases he'
                  rfl
                cases hset.symm.trans he
              · exact hq.awake l e hb he
            · rcases State.blocked_update hb with ⟨-, he⟩ | ⟨hl, -⟩
              · rcases he with he | he <;> cases he
                exact hset
              · exact absurd rfl hl
        · cases hs
  · cases hs

/-- A new LWT is not blocked. -/
theorem lwtCreate (h : EInv s) : EInv s.lwtCreate := by
  have hb : ∀ l e, s.lwtCreate.Blocked l e → l ≠ s.lwts ∧ s.Blocked l e := by
    intro l e hb
    rcases State.blocked_update hb with ⟨-, he⟩ | hb
    · rcases he with he | he <;> cases he
    · exact hb
  refine h.keep (fun l e hl ↦ (hb l e hl).2) (fun _ _ _ ↦ rfl) (fun _ he ↦ he) fun l e hl hu ↦ ?_
  refine hu.imp_left fun ha ↦ ?_
  show Function.update s.active s.lwts false l = true
  rw [Function.update_of_ne (hb l e hl).1, ha]

/-- `evtast` names the new LWT in the entry of the event, and has it woken if the event is
set already. -/
theorem ast {mem : Bool} (h : EInv s) (hs : s.evtast evt mem = .ok s') : EInv s' := by
  unfold State.evtast at hs
  split at hs
  · cases mem with
    | true =>
        have hc := h.lwtCreate
        simp only [if_true] at hs
        split at hs
        · next hw =>
            have hnamed : ∀ l e,
                (Function.update s.lwtCreate.pos s.lwts (.ast evt) l = .evtwait e ∨
                  Function.update s.lwtCreate.pos s.lwts (.ast evt) l = .ast e) →
                Function.update s.lwtCreate.waitEvts evt (some s.lwts) e = some l := by
              intro l e hb
              rcases State.blocked_update hb with ⟨rfl, he⟩ | ⟨-, hb⟩
              · rcases he with he | he <;> cases he
                exact Function.update_self ..
              · have hn := hc.named l e hb
                refine (Function.update_of_ne ?_ _ _).trans hn
                rintro rfl
                cases hw.symm.trans hn
            split at hs
            · cases hs
              refine wakeOne ⟨hnamed, fun l e hb he ↦ ?_⟩
              rcases State.blocked_update hb with ⟨rfl, -⟩ | ⟨-, hb⟩
              · exact .inr rfl
              · exact .inl (hc.awake l e hb he)
            · next hset =>
                refine enable hs ⟨hnamed, fun l e hb he ↦ ?_⟩
                rcases State.blocked_update hb with ⟨rfl, he'⟩ | ⟨-, hb⟩
                · rcases he' with he' | he' <;> cases he'
                  exact absurd he hset
                · exact hc.awake l e hb he
        · cases hs
    | false =>
        simp only [Bool.false_eq_true, if_false] at hs
        split at hs
        · next hw =>
            split at hs
            · cases hs
            · refine enable hs ?_
              have hu : Function.update s.waitEvts evt none = s.waitEvts := by
                rw [← show s.waitEvts evt = none from hw, Function.update_eq_self]
              exact h.congr rfl hu rfl fun _ hu ↦ hu
        · cases hs
  · cases hs

/-- A call by the code of the current LWT. -/
theorem call {op : Op} (h : EInv s) (hr : s.cpu = .running) (hp : s.pos s.current = .code)
    (hsafe : s.EventSafe op) (hs : s.call op = .ok s') : EInv s' := by
  have hno : ∀ e, s.Blocked s.current e → s.evtIsSet e = false :=
    fun e hb ↦ absurd hb (State.not_blocked hp)
  cases op with
  | act a =>
      refine h.act ?_ hs
      rintro rfl
      exact hsafe
  | create =>
      cases hs
      exact h.lwtCreate
  | lwtWake l =>
      simp only [State.call, State.lwtWake] at hs
      split at hs
      · split at hs
        · cases hs
        · exact h.preemptDisable.wake.preemptEnable hs
      · cases hs
  | lwtPause => exact yield (h.strict hr hp) hp hs
  | lwtYield => exact yield (h.strict hr hp) hp hs
  | lwtSleep => exact sleep hs (h.strict hr hp) hno
  | lwtExit => exact sleep hs (h.strict hr hp) hno
  | evtwait evt => exact h.wait hr hp hs
  | evtast evt mem => exact h.ast hs
  | disable =>
      cases hs
      exact h.preemptDisable
  | enable => exact h.preemptEnable hs
  | evtwaitEnd => cases hs
  | retry => cases hs
  | switch => cases hs
  | intr a => cases hs

/-- The jump: an AST that starts is not blocked any more, and an LWT in `evtwait` has the
CPU. -/
theorem switch (h : EInv s) (hc : s.cpu = .switching new save) :
    EInv (s.lwtSwitch new save) := by
  refine h.keep (fun l e hb ↦ ?_) (fun _ _ _ ↦ rfl) (fun _ he ↦ he) fun l e _ hu ↦ ?_
  · have hsave : ∀ {l},
        ((if save then s.pos else Function.update s.pos s.current .start) l = .evtwait e ∨
          (if save then s.pos else Function.update s.pos s.current .start) l = .ast e) →
        s.Blocked l e := by
      intro l hb
      cases save with
      | true => exact hb
      | false =>
          rcases State.blocked_update hb with ⟨-, he⟩ | ⟨-, hb⟩
          · rcases he with he | he <;> cases he
          · exact hb
    rcases State.blocked_update hb with ⟨rfl, he⟩ | ⟨-, hb⟩
    · exact hsave (.inl (Pos.of_run he))
    · exact hsave hb
  · rcases hu with hu | ⟨hr, -⟩ | ht
    · exact .inl hu
    · rw [hc] at hr
      cases hr
    · simp only [State.target, hc] at ht
      exact .inr (.inl ⟨rfl, Option.some.inj ht⟩)

/-- `evtwait` returns: the entry that is cleared is that of the current LWT. -/
theorem waitEnd (h : EInv s) (hp : s.pos s.current = .evtwait evt)
    (hs : s.evtwaitEnd evt = .ok s') : EInv s' := by
  have hcur : s.waitEvts evt = some s.current := h.named _ _ (.inl hp)
  have hb : ∀ l e, (Function.update s.pos s.current .code l = .evtwait e ∨
      Function.update s.pos s.current .code l = .ast e) → l ≠ s.current ∧ s.Blocked l e := by
    intro l e hb
    rcases State.blocked_update hb with ⟨-, he⟩ | hb
    · rcases he with he | he <;> cases he
    · exact hb
  refine enable hs (h.keep (fun l e hl ↦ (hb l e hl).2) (fun l e hl ↦ ?_) (fun _ he ↦ he)
    fun _ _ _ hu ↦ hu)
  refine Function.update_of_ne ?_ _ _
  rintro rfl
  exact (hb l e hl).1 (Option.some.inj ((h.named l e (hb l e hl).2).symm.trans hcur))

/-- The rest of a call. -/
theorem resume {op : Op} (h : EInv s) (hs : s.resume op = .ok s') : EInv s' := by
  cases op with
  | retry =>
      simp only [State.resume] at hs
      split at hs
      · next save hc =>
          have hq := h.strict_waiting hc
          exact next hs (hq.congr rfl rfl rfl fun _ ha ↦ ha)
      · cases hs
  | switch =>
      simp only [State.resume] at hs
      split at hs
      · next new save hc =>
          cases hs
          exact h.switch hc
      · cases hs
  | evtwaitEnd =>
      simp only [State.resume] at hs
      split at hs
      · next evt hc hp => exact h.waitEnd hp hs
      · cases hs
  | _ => cases hs

/-- A step that is safe loses no waiter. -/
theorem step {op : Op} (h : EInv s) (hs : s.step op = .ok s') (hsafe : s.EventSafe op) :
    EInv s' := by
  have hcall : ∀ {op}, s.EventSafe op →
      (if s.cpu = .running ∧ s.pos s.current = .code then s.call op else .error .disabled) =
        .ok s' → EInv s' := by
    intro op hsafe hs
    split at hs
    · next hc => exact h.call hc.1 hc.2 hsafe hs
    · cases hs
  have hrest : ∀ o, s.resume o = .ok s' → EInv s' := fun _ ↦ h.resume
  cases op with
  | intr a =>
      simp only [State.step, State.handle] at hs
      split at hs
      · obtain ⟨u, hu, hs⟩ := Mh.Lib.bind_eq_ok.1 hs
        cases hs
        have hi : EInv { s with intr := false } := h.congr rfl rfl rfl fun _ hu ↦ hu
        have hy : EInv u := by
          refine hi.act ?_ hu
          rintro rfl
          exact hsafe
        exact hy.congr rfl rfl rfl fun _ hu ↦ hu
      · cases hs
  | retry => exact hrest .retry hs
  | switch => exact hrest .switch hs
  | evtwaitEnd => exact hrest .evtwaitEnd hs
  | _ => exact hcall hsafe hs

end EInv

/-! ## Runs -/

/-- In a run in which `evtalloc` never clears the entry of an event on which an LWT is
blocked, the entry of an event names the LWT that is blocked on it, and this is active, or
on the CPU, whenever the event is set. -/
theorem waiters_kept {ops : List Op} {s : State}
    (h : Run (fun s op s' ↦ Step s op s' ∧ s.EventSafe op) .boot ops s) {l evt : Nat}
    (hb : s.Blocked l evt) : s.waitEvts evt = some l ∧ (s.evtIsSet evt = true → s.Up l) := by
  have hi := h.invariant (I := EInv) (fun _ _ _ hi hs ↦ hi.step hs.1 hs.2) .boot
  exact ⟨hi.named l evt hb, hi.awake l evt hb⟩

/-- An AST is registered and its event set. -/
theorem waiters_kept_ast : ∃ s : State,
    Run (fun s op s' ↦ Step s op s' ∧ s.EventSafe op) .boot
      [.act .evtalloc, .evtast 0 true, .intr (.evtsetIntr 0)] s ∧
    s.evtIsSet 0 = true ∧ s.waitEvts 0 = some 1 ∧ s.Up 1 := by
  have hsafe : State.boot.AllocSafe := fun i b _ l hb ↦ by
    have hn := EInv.boot.named l b hb
    cases hn
  have h : Run (fun s op s' ↦ Step s op s' ∧ s.EventSafe op) State.boot
      [.act .evtalloc, .evtast 0 true, .intr (.evtsetIntr 0)] _ :=
    .cons ⟨rfl, hsafe⟩ <| .cons ⟨rfl, trivial⟩ <| .cons ⟨rfl, trivial⟩ (.nil _)
  obtain ⟨hw, hup⟩ := @waiters_kept _ _ h 1 0 (.inr rfl)
  exact ⟨_, h, rfl, hw, hup rfl⟩

/-- Event 0 has an AST.  The 65th event allocated is event 64, bit 0 of the second word:
its allocation clears the entry of event 0, and when this is set nobody is woken. -/
theorem waiter_lost : ¬ ∀ (ops : List Op) (s : State) (l evt : Nat), Run Step .boot ops s →
    s.Blocked l evt → s.waitEvts evt = some l ∧ (s.evtIsSet evt = true → s.Up l) := by
  intro hall
  have heval : (([.act .evtalloc, .evtast 0 true] ++ List.replicate 64 (.act .evtalloc) ++
      [.intr (.evtsetIntr 0)] : List Op).foldlM State.step State.boot).toOption.map
        (fun s ↦ (s.pos 1, s.evtIsSet 0, s.active 1, s.cpu, s.current)) =
      some (.ast 0, true, false, .running, 0) := by
    decide +kernel
  obtain ⟨s, hr, hs⟩ := Run.of_foldlM heval
  simp only [Prod.mk.injEq] at hs
  obtain ⟨hpos, hset, hact, hcpu, hcur⟩ := hs
  rcases (hall _ s 1 0 hr (.inr hpos)).2 hset with hup | ⟨-, hc⟩ | ht
  · rw [hact] at hup
    cases hup
  · rw [hcur] at hc
    cases hc
  · simp only [State.target, hcpu] at ht
    cases ht

end Mh.Lwt
