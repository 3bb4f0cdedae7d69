import Mh.Lwt.Model

/-!
# The run queue

The queue holds the LWTs whose flag is set, each once, and a wake is not lost: an LWT that
has been woken since it last started running is on the queue, or is being switched to.

Two things can break this, and both begin with a wake of the running LWT, by an interrupt
that sets the event whose AST it is.  `lwt_yield` and `lwt_pause` insert the running LWT
without testing its flag; and `lwt_sleep` and `lwt_exit` clear its flag and leave it on
the queue, unless it is at the head, where they find it.  In the runs in which this does
not happen the queue is as it should be in every state (`queue_settled`).
-/

namespace Mh.Lwt

open Mh.Lib (Run Simpleq)

namespace State

/-- The LWT that is being switched to. -/
def target (s : State) : Option Nat :=
  match s.cpu with
  | .switching new _ => some new
  | _ => none

theorem target_congr {s s' : State} (h : s'.cpu = s.cpu) : s'.target = s.target := by
  unfold target
  rw [h]

/-- The LWT runs, or is being switched to. -/
def OnCpu (s : State) (l : Nat) : Prop := s.cpu = .running ∧ s.current = l ∨ s.target = some l

/-- Each LWT is on the queue at most once; the flag is set exactly when it is on it; and
an LWT woken since it last started running is on the queue, or on the CPU. -/
def Settled (s : State) : Prop :=
  ∃ xs, s.queue.Holds xs ∧ xs.Nodup ∧ (∀ l, s.active l = true ↔ l ∈ xs) ∧
    ∀ l, s.woken l = true → l ∈ xs ∨ s.OnCpu l

/-- The running LWT, if it is on the queue, is at its head. -/
def AtHead (s : State) : Prop := s.active s.current = true → s.queue.first = some s.current

/-- An LWT that yields or pauses has not been woken since it began to run, and one that
sleeps or exits has not been either, or is at the head of the queue. -/
def QueueSafe (s : State) : Op → Prop
  | .lwtPause | .lwtYield => s.active s.current = false
  | .lwtSleep | .lwtExit => s.AtHead
  | .evtwait evt => s.evtIsSet evt = false → s.AtHead
  | _ => True

end State

/-! ## The invariant -/

/-- The queue is `xs` and agrees with the flags and the wakes, but for the LWT `t` that has
been taken off it to run; and the LWTs that are named exist. -/
structure Queued (s : State) (xs : List Nat) (t : Option Nat) : Prop where
  holds : s.queue.Holds xs
  flag : ∀ l, s.active l = true ↔ l ∈ xs
  woken : ∀ l, s.woken l = true → l ∈ xs ∨ t = some l
  bound : ∀ l ∈ xs, l < s.lwts
  current : s.current < s.lwts
  target : ∀ l, t = some l → l < s.lwts
  waits : ∀ e l, s.waitEvts e = some l → l < s.lwts

/-- The invariant: the queue is in order, up to the LWT that is being switched to. -/
def QInv (s : State) : Prop := ∃ xs, Queued s xs s.target

theorem QInv.settled {s : State} (h : QInv s) : s.Settled := by
  obtain ⟨xs, h⟩ := h
  exact ⟨xs, h.holds, h.holds.nodup, h.flag, fun l hl ↦ (h.woken l hl).imp_right .inr⟩

theorem QInv.boot : QInv State.boot := by
  refine ⟨[], .empty, ?_, ?_, ?_, Nat.one_pos, ?_, ?_⟩
  · exact fun l ↦ ⟨fun h ↦ absurd h Bool.false_ne_true, fun h ↦ absurd h List.not_mem_nil⟩
  · exact fun l h ↦ absurd h Bool.false_ne_true
  · exact fun l h ↦ absurd h List.not_mem_nil
  · exact fun l h ↦ by cases h
  · exact fun e l h ↦ by cases h

namespace Queued

variable {s s' : State} {xs : List Nat} {t : Option Nat} {l new evt : Nat}

/-- Only the queue, the flags, the wakes and who exists count. -/
theorem congr (h : Queued s xs t) (hq : s'.queue = s.queue) (ha : s'.active = s.active)
    (hw : s'.woken = s.woken) (hl : s'.lwts = s.lwts) (hc : s'.current = s.current)
    (he : ∀ e l, s'.waitEvts e = some l → l < s.lwts) : Queued s' xs t := by
  refine ⟨hq ▸ h.holds, ha ▸ h.flag, hw ▸ h.woken, hl ▸ h.bound, ?_, hl ▸ h.target, hl ▸ he⟩
  rw [hl, hc]
  exact h.current

theorem preemptDisable (h : Queued s xs t) : Queued s.preemptDisable xs t :=
  h.congr rfl rfl rfl rfl rfl h.waits

theorem preemptEnable (h : Queued s xs t) (hs : s.preemptEnable = .ok s') : Queued s' xs t := by
  unfold State.preemptEnable at hs
  split at hs
  · cases hs
  · cases hs
    exact h.congr rfl rfl rfl rfl rfl h.waits

theorem notMem (h : Queued s xs t) (ha : s.active l = false) : l ∉ xs := fun hl ↦ by
  rw [(h.flag l).2 hl] at ha
  cases ha

/-- The LWT taken off the queue has not been woken: it is an LWT like any other. -/
theorem dismiss (h : Queued s xs (some l)) (hl : s.woken l = false) : Queued s xs none := by
  refine { h with woken := fun m hm ↦ ?_, target := fun m hm ↦ by cases hm }
  rcases h.woken m hm with hx | hx
  · exact .inl hx
  · cases hx
    rw [hl] at hm
    cases hm

/-- An LWT that is not on the queue is put at its end. -/
theorem insert (h : Queued s xs t) (hl : l < s.lwts) (ha : s.active l = false) :
    Queued (s.insert l) (xs ++ [l]) t where
  holds := h.holds.insertTail (h.notMem ha)
  flag m := by
    show Function.update s.active l true m = true ↔ _
    by_cases hm : m = l
    · subst hm
      simp
    · rw [Function.update_of_ne hm, h.flag m]
      simp [hm]
  woken m hm := (h.woken m hm).imp_left (List.mem_append_left _)
  bound m hm := by
    rcases List.mem_append.1 hm with hm | hm
    · exact h.bound m hm
    · rw [List.mem_singleton.1 hm]
      exact hl
  current := h.current
  target := h.target
  waits := h.waits

/-- A wake puts the LWT on the queue, if it is not there. -/
theorem wake (h : Queued s xs t) (hl : l < s.lwts) : ∃ ys, Queued (s.lwtWakeIntr l) ys t := by
  unfold State.lwtWakeIntr
  have hsub : ∀ ys, l ∈ ys → xs ⊆ ys → ∀ m, Function.update s.woken l true m = true →
      m ∈ ys ∨ t = some m := by
    intro ys hy hsub m hm
    by_cases he : m = l
    · exact .inl (he ▸ hy)
    · rw [Function.update_of_ne he] at hm
      exact (h.woken m hm).imp_left (hsub ·)
  cases ha : s.active l with
  | true =>
      have hx : l ∈ xs := (h.flag l).1 ha
      refine ⟨xs, ?_⟩
      rw [if_pos ha]
      exact { h with woken := hsub xs hx (List.Subset.refl _) }
  | false =>
      refine ⟨xs ++ [l], ?_⟩
      rw [if_neg (by rw [ha]; exact Bool.false_ne_true)]
      have hi := h.insert hl ha
      refine { hi with woken := hsub _ ?_ (List.subset_append_left _ _) }
      exact List.mem_append_right _ List.mem_cons_self

/-- The head is taken off to run. -/
theorem dequeue (h : Queued s xs none) (hf : s.queue.first = some new) :
    ∃ ys, Queued (s.dequeue new) ys (some new) := by
  rw [h.holds.first_eq] at hf
  obtain ⟨ys, rfl⟩ := List.head?_eq_some_iff.1 hf
  have hnd := List.nodup_cons.1 h.holds.nodup
  refine ⟨ys, h.holds.removeHead, ?_, ?_, ?_, h.current, ?_, h.waits⟩
  · intro m
    show Function.update s.active new false m = true ↔ _
    by_cases hm : m = new
    · subst hm
      rw [Function.update_self]
      exact ⟨fun hc ↦ absurd hc Bool.false_ne_true, fun hc ↦ absurd hc hnd.1⟩
    · rw [Function.update_of_ne hm, h.flag m, List.mem_cons, or_iff_right hm]
  · intro m hm
    rcases h.woken m hm with hx | hx
    · rcases List.mem_cons.1 hx with rfl | hx
      · exact .inr rfl
      · exact .inl hx
    · cases hx
  · exact fun m hm ↦ h.bound m (List.mem_cons_of_mem _ hm)
  · rintro m hm
    obtain rfl : new = m := Option.some.inj hm
    exact h.bound _ List.mem_cons_self

/-- A new LWT is not on the queue. -/
theorem lwtCreate (h : Queued s xs t) : Queued s.lwtCreate xs t where
  holds := h.holds
  flag m := by
    show Function.update s.active s.lwts false m = true ↔ _
    by_cases hm : m = s.lwts
    · subst hm
      rw [Function.update_self]
      exact ⟨fun hc ↦ absurd hc Bool.false_ne_true, fun hc ↦ absurd (h.bound _ hc) (lt_irrefl _)⟩
    · rw [Function.update_of_ne hm]
      exact h.flag m
  woken := h.woken
  bound m hm := Nat.lt_succ_of_lt (h.bound m hm)
  current := Nat.lt_succ_of_lt h.current
  target m hm := Nat.lt_succ_of_lt (h.target m hm)
  waits e m hm := Nat.lt_succ_of_lt (h.waits e m hm)

/-- An entry of `wait_evts` is written. -/
theorem setWait (h : Queued s xs t) (evt : Nat) (o : Option Nat)
    (ho : ∀ m, o = some m → m < s.lwts) :
    ∀ e m, Function.update s.waitEvts evt o e = some m → m < s.lwts := by
  intro e m hm
  by_cases he : e = evt
  · subst he
    rw [Function.update_self] at hm
    exact ho m hm
  · rw [Function.update_of_ne he] at hm
    exact h.waits e m hm

theorem evtsetIntr (h : Queued s xs t) (hs : s.evtsetIntr evt = .ok s') :
    ∃ ys, Queued s' ys t := by
  unfold State.evtsetIntr at hs
  split at hs
  · dsimp only at hs
    split at hs
    · cases hs
      exact ⟨xs, h.congr rfl rfl rfl rfl rfl h.waits⟩
    · next l hw =>
        cases hs
        refine @wake _ xs _ _ ?_ (h.waits _ l hw)
        exact h.congr rfl rfl rfl rfl rfl h.waits
  · cases hs

/-- What a handler may call keeps the queue in order. -/
theorem act {a : Act} (h : Queued s xs t) (hs : s.act a = .ok s') : ∃ ys, Queued s' ys t := by
  cases a with
  | lwtWakeIntr l =>
      simp only [State.act] at hs
      split at hs
      · next hl =>
          cases hs
          exact h.wake hl
      · cases hs
  | evtsetIntr evt => exact h.evtsetIntr hs
  | evtset evt =>
      obtain ⟨u, hu, hs⟩ := Mh.Lib.bind_eq_ok.1 hs
      obtain ⟨ys, hq⟩ := h.preemptDisable.evtsetIntr hu
      exact ⟨ys, hq.preemptEnable hs⟩
  | evtclear evt =>
      simp only [State.act, State.evtclear] at hs
      split at hs
      · refine ⟨xs, preemptEnable ?_ hs⟩
        exact h.congr rfl rfl rfl rfl rfl h.waits
      · cases hs
  | evtalloc =>
      obtain ⟨⟨e, u⟩, hu, hs⟩ := Mh.Lib.bind_eq_ok.1 hs
      cases hs
      unfold State.evtalloc at hu
      split at hu
      · cases hu
      · obtain ⟨v, hv, hu⟩ := Mh.Lib.bind_eq_ok.1 hu
        cases hu
        refine ⟨xs, preemptEnable ?_ hv⟩
        exact h.congr rfl rfl rfl rfl rfl (h.setWait _ none fun m hm ↦ by cases hm)
  | evtfree evt =>
      simp only [State.act, State.evtfree] at hs
      split at hs
      · refine ⟨xs, preemptEnable ?_ hs⟩
        exact h.congr rfl rfl rfl rfl rfl h.waits
      · cases hs

end Queued

/-! ## What stays -/

namespace State

variable {s s' : State} {l evt : Nat}

theorem preemptEnable_keeps (hs : s.preemptEnable = .ok s') :
    s'.cpu = s.cpu ∧ s'.current = s.current ∧ s'.woken = s.woken := by
  unfold preemptEnable at hs
  split at hs
  · cases hs
  · cases hs
    exact ⟨rfl, rfl, rfl⟩

theorem lwtWakeIntr_cpu : (s.lwtWakeIntr l).cpu = s.cpu := by
  unfold lwtWakeIntr
  dsimp only
  split <;> rfl

theorem evtsetIntr_cpu (hs : s.evtsetIntr evt = .ok s') : s'.cpu = s.cpu := by
  unfold evtsetIntr at hs
  split at hs
  · dsimp only at hs
    split at hs
    · cases hs
      rfl
    · cases hs
      exact lwtWakeIntr_cpu
  · cases hs

/-- What a handler may call leaves the current LWT where it is. -/
theorem act_cpu {a : Act} (hs : s.act a = .ok s') : s'.cpu = s.cpu := by
  cases a with
  | lwtWakeIntr l =>
      simp only [act] at hs
      split at hs
      · cases hs
        exact lwtWakeIntr_cpu
      · cases hs
  | evtsetIntr evt => exact evtsetIntr_cpu hs
  | evtset evt =>
      obtain ⟨u, hu, hs⟩ := Mh.Lib.bind_eq_ok.1 hs
      exact (preemptEnable_keeps hs).1.trans (evtsetIntr_cpu hu :)
  | evtclear evt =>
      simp only [act, evtclear] at hs
      split at hs
      · exact (preemptEnable_keeps hs).1
      · cases hs
  | evtalloc =>
      obtain ⟨⟨e, u⟩, hu, hs⟩ := Mh.Lib.bind_eq_ok.1 hs
      cases hs
      unfold evtalloc at hu
      split at hu
      · cases hu
      · obtain ⟨v, hv, hu⟩ := Mh.Lib.bind_eq_ok.1 hu
        cases hu
        exact (preemptEnable_keeps hv).1
  | evtfree evt =>
      simp only [act, evtfree] at hs
      split at hs
      · exact (preemptEnable_keeps hs).1
      · cases hs

end State

/-! ## The functions -/

namespace QInv

variable {s s' : State} {xs : List Nat} {t : Option Nat} {l evt : Nat} {save : Bool}

/-- The state with the same target. -/
theorem of_queued (h : Queued s xs t) (ht : s.target = t) : QInv s := ⟨xs, ht ▸ h⟩

theorem of_exists (h : ∃ ys, Queued s ys t) (ht : s.target = t) : QInv s :=
  h.elim fun _ h ↦ of_queued h ht

theorem enable (hs : s.preemptEnable = .ok s') (h : Queued s xs t) (ht : s.target = t) :
    QInv s' :=
  of_queued (h.preemptEnable hs) ((State.target_congr (State.preemptEnable_keeps hs).1).trans ht)

theorem next (h : Queued s xs none) (hs : s.next save = .ok s') : QInv s' := by
  unfold State.next at hs
  split at hs
  · cases hs
    exact of_queued (h.congr rfl rfl rfl rfl rfl h.waits) rfl
  · next new hf =>
      obtain ⟨ys, hd⟩ := h.dequeue hf
      obtain ⟨u, hu, hs⟩ := Mh.Lib.bind_eq_ok.1 hs
      cases hs
      exact of_queued
        ((hd.preemptEnable hu).congr rfl rfl rfl rfl rfl (hd.preemptEnable hu).waits) rfl

/-- `lwt_sleep` and `lwt_exit`, of an LWT that is not on the queue or is at its head. -/
theorem sleep (h : Queued s xs none) (hh : s.AtHead)
    (hs : s.preemptDisable.deactivate.next save = .ok s') : QInv s' := by
  cases ha : s.active s.current with
  | false =>
      have hq : Queued s.preemptDisable.deactivate xs none := by
        refine h.congr rfl ?_ rfl rfl rfl h.waits
        show Function.update s.active s.current false = s.active
        rw [← ha, Function.update_eq_self]
      exact next hq hs
  | true =>
      have hf := hh ha
      have heq : s.preemptDisable.deactivate.next save = s.preemptDisable.next save := by
        unfold State.next State.dequeue State.deactivate State.preemptDisable
        simp only [hf, Function.update_idem]
      exact next h.preemptDisable (heq ▸ hs)

/-- `lwt_yield` and `lwt_pause`, of an LWT that is not on the queue. -/
theorem yield (h : Queued s xs none) (ht : s.target = none) (ha : s.active s.current = false)
    (hs : s.lwtYield = .ok s') : QInv s' := by
  have hw : s.woken s.current = false := by
    cases hw : s.woken s.current with
    | false => rfl
    | true =>
        rcases h.woken _ hw with hx | hx
        · exact absurd hx (h.notMem ha)
        · cases hx
  have hi := h.preemptDisable.insert h.current ha
  unfold State.lwtYield State.giveWay at hs
  split at hs
  · cases hs
  · next new hf =>
      obtain ⟨ys, hd⟩ := hi.dequeue hf
      obtain ⟨u, hu, hs⟩ := Mh.Lib.bind_eq_ok.1 hs
      have hq := hd.preemptEnable hu
      obtain ⟨hcpu, hc, hwu⟩ := State.preemptEnable_keeps hu
      cases hs
      split
      · next he =>
          obtain rfl : s.current = new := hc.symm.trans he
          exact of_queued (hq.dismiss (hwu ▸ hw)) ((State.target_congr hcpu).trans ht)
      · exact of_queued (hq.congr rfl rfl rfl rfl rfl hq.waits) rfl

/-- `evtast`: the new LWT is not on the queue, unless the event is set already. -/
theorem ast {mem : Bool} (h : Queued s xs none) (ht : s.target = none)
    (hs : s.evtast evt mem = .ok s') : QInv s' := by
  unfold State.evtast at hs
  split at hs
  · cases mem with
    | true =>
        have hc := h.lwtCreate.preemptDisable
        have hw := hc.setWait evt (some s.lwts) fun m hm ↦ by
          rw [← Option.some.inj hm]
          exact Nat.lt_succ_self _
        simp only [if_true] at hs
        split at hs
        · split at hs
          · cases hs
            refine of_exists (@Queued.wake _ xs none _ ?_ (Nat.lt_succ_self _)) ?_
            · exact hc.congr rfl rfl rfl rfl rfl hw
            · exact (State.target_congr State.lwtWakeIntr_cpu).trans ht
          · exact enable hs (hc.congr rfl rfl rfl rfl rfl hw) ht
        · cases hs
    | false =>
        have hw := h.setWait evt none fun m hm ↦ by cases hm
        simp only [Bool.false_eq_true, if_false] at hs
        split at hs
        · split at hs
          · cases hs
          · exact enable hs (h.congr rfl rfl rfl rfl rfl hw) ht
        · cases hs
  · cases hs

/-- A call by the code of the current LWT. -/
theorem call {op : Op} (h : Queued s xs none) (ht : s.target = none) (hsafe : s.QueueSafe op)
    (hs : s.call op = .ok s') : QInv s' := by
  cases op with
  | act a =>
      exact of_exists (h.act hs) ((State.target_congr (State.act_cpu hs)).trans ht)
  | create =>
      cases hs
      exact of_queued h.lwtCreate ht
  | lwtWake l =>
      simp only [State.call, State.lwtWake] at hs
      split at hs
      · next hl =>
          split at hs
          · cases hs
          · obtain ⟨ys, hq⟩ := h.preemptDisable.wake hl
            exact enable hs hq ((State.target_congr State.lwtWakeIntr_cpu).trans ht)
      · cases hs
  | lwtPause => exact yield h ht hsafe hs
  | lwtYield => exact yield h ht hsafe hs
  | lwtSleep => exact sleep h hsafe hs
  | lwtExit => exact sleep h hsafe hs
  | evtwait evt =>
      simp only [State.call, State.evtwait] at hs
      split at hs
      · split at hs
        · exact enable hs h.preemptDisable ht
        · next hset =>
            split at hs
            · have hw := h.setWait evt (some s.current) fun m hm ↦ by
                rw [← Option.some.inj hm]
                exact h.current
              refine @sleep _ _ xs _ ?_ ?_ hs
              · exact h.congr rfl rfl rfl rfl rfl hw
              · exact hsafe (Bool.eq_false_iff.2 hset)
            · cases hs
      · cases hs
  | evtast evt mem => exact ast h ht hs
  | disable =>
      cases hs
      exact of_queued h.preemptDisable ht
  | enable =>
      exact enable hs h ht
  | evtwaitEnd => cases hs
  | retry => cases hs
  | switch => cases hs
  | intr a => cases hs

/-- The jump: the LWT runs, and has not been woken since. -/
theorem switch {new : Nat} (h : Queued s xs (some new)) : QInv (s.lwtSwitch new save) := by
  refine ⟨xs, h.holds, h.flag, ?_, h.bound, h.target new rfl, ?_, h.waits⟩
  · intro m hm
    change Function.update s.woken new false m = true at hm
    by_cases he : m = new
    · rw [he, Function.update_self] at hm
      cases hm
    · rw [Function.update_of_ne he] at hm
      refine (h.woken m hm).imp_right fun ht ↦ ?_
      exact absurd (Option.some.inj ht).symm he
  · exact fun m hm ↦ by cases hm

/-- The rest of a call. -/
theorem resume {op : Op} (h : QInv s) (hs : s.resume op = .ok s') : QInv s' := by
  obtain ⟨xs, h⟩ := h
  cases op with
  | retry =>
      simp only [State.resume] at hs
      split at hs
      · next save hc =>
          have ht : s.target = none := by simp only [State.target, hc]
          have hq : Queued s.preemptRestore xs none :=
            (ht ▸ h).congr rfl rfl rfl rfl rfl h.waits
          exact next hq hs
      · cases hs
  | switch =>
      simp only [State.resume] at hs
      split at hs
      · next new save hc =>
          have ht : s.target = some new := by simp only [State.target, hc]
          cases hs
          exact switch (ht ▸ h)
      · cases hs
  | evtwaitEnd =>
      simp only [State.resume] at hs
      split at hs
      · next evt hc hp =>
          have hw := h.setWait evt none fun m hm ↦ by cases hm
          exact enable hs (h.congr rfl rfl rfl rfl rfl hw) rfl
      · cases hs
  | _ => cases hs

/-- A step that is safe keeps the queue in order. -/
theorem step {op : Op} (h : QInv s) (hs : s.step op = .ok s') (hsafe : s.QueueSafe op) :
    QInv s' := by
  have hcall : ∀ {op}, s.QueueSafe op →
      (if s.cpu = .running ∧ s.pos s.current = .code then s.call op else .error .disabled) =
        .ok s' → QInv s' := by
    intro op hsafe hs
    split at hs
    · next hc =>
        obtain ⟨xs, hq⟩ := h
        have ht : s.target = none := by simp only [State.target, hc.1]
        exact call (ht ▸ hq) ht hsafe hs
    · cases hs
  have hrest : ∀ o, s.resume o = .ok s' → QInv s' := fun _ ↦ h.resume
  cases op with
  | intr a =>
      obtain ⟨xs, hq⟩ := h
      simp only [State.step, State.handle] at hs
      split at hs
      · obtain ⟨u, hu, hs⟩ := Mh.Lib.bind_eq_ok.1 hs
        cases hs
        have hi : Queued { s with intr := false } xs s.target :=
          hq.congr rfl rfl rfl rfl rfl hq.waits
        obtain ⟨ys, hy⟩ := hi.act hu
        refine of_queued (hy.congr rfl rfl rfl rfl rfl hy.waits) ?_
        exact (State.target_congr (State.act_cpu hu) :)
      · cases hs
  | retry => exact hrest .retry hs
  | switch => exact hrest .switch hs
  | evtwaitEnd => exact hrest .evtwaitEnd hs
  | _ => exact hcall hsafe hs

end QInv

/-! ## Runs -/

/-- In a run whose steps are safe, every LWT is on the queue at most once and exactly when
its flag is set, and one that has been woken since it last started running is on the queue,
or on the CPU. -/
theorem queue_settled {ops : List Op} {s : State}
    (h : Run (fun s op s' ↦ Step s op s' ∧ s.QueueSafe op) .boot ops s) : s.Settled :=
  (h.invariant (I := QInv) (fun _ _ _ hq hs ↦ hq.step hs.1 hs.2) .boot).settled

/-- The main LWT registers an AST, whose event is set; it yields, and the AST runs and
returns. -/
theorem queue_settled_ast : ∃ s : State,
    Run (fun s op s' ↦ Step s op s' ∧ s.QueueSafe op) .boot
      [.act .evtalloc, .evtast 0 true, .intr (.evtsetIntr 0), .lwtYield, .switch, .lwtExit] s ∧
    s.Settled := by
  have h : Run (fun s op s' ↦ Step s op s' ∧ s.QueueSafe op) State.boot
      [.act .evtalloc, .evtast 0 true, .intr (.evtsetIntr 0), .lwtYield, .switch, .lwtExit] _ :=
    .cons ⟨rfl, trivial⟩ <| .cons ⟨rfl, trivial⟩ <| .cons ⟨rfl, trivial⟩ <| .cons ⟨rfl, rfl⟩ <|
      .cons ⟨rfl, trivial⟩ <| .cons ⟨rfl, fun h ↦ absurd h Bool.false_ne_true⟩ (.nil _)
  exact ⟨_, h, queue_settled h⟩

/-- The event is set again while its AST runs and the main LWT is on the queue.  When the
AST returns, the main LWT is taken off and the AST stays, with its flag clear. -/
theorem queue_unsettled : ¬ ∀ (ops : List Op) (s : State), Run Step .boot ops s → s.Settled := by
  intro hall
  have h : Run Step State.boot
      [.act .evtalloc, .evtast 0 true, .intr (.evtsetIntr 0), .lwtYield, .switch,
        .intr (.evtsetIntr 0), .lwtExit] _ :=
    .cons rfl <| .cons rfl <| .cons rfl <| .cons rfl <| .cons rfl <| .cons rfl <| .cons rfl (.nil _)
  obtain ⟨xs, hx, -, hflag, -⟩ := hall _ _ h
  have hfirst : some 1 = xs.head? := hx.first_eq
  have hmem : 1 ∈ xs := List.mem_of_mem_head? hfirst.symm
  exact absurd ((hflag 1).2 hmem) Bool.false_ne_true

end Mh.Lwt
