import Mh.Tlb.Requests

/-!
# The shootdown protocol

If a CPU is never sent an NMI while it has one that it has not taken, each NMI answers one
request, `__tlbcnt` counts the requests that have not been answered, and an initiator that
finds it zero knows that its targets have flushed what it asked for (`Inv`).

A second initiator that aims at the same CPU in that window is counted twice and answered
once: `__tlbcnt` never comes back to zero, and everybody waits for ever (`tlbcnt_stuck`).
-/

namespace Mh.Tlb

open Mh.Lib (Run tally tally_update tally_eq_zero)

/-! ## The invariant -/

/-- The pairs of CPUs. -/
def pairs (n : Nat) : Finset (Nat × Nat) := Finset.range n ×ˢ Finset.range n

/-- The number of requests whose target has not yet run `__flush_tlbs_on_nmi` for them. -/
def State.requests (n : Nat) (s : State) : Nat := tally (pairs n) (· ≠ .idle) s.req

/-- No NMI is sent to a CPU that has not taken the last one. -/
def State.NmiSafe (s : State) : Op → Prop
  | .send a => ∀ call i todo, s.pc a = .added call i todo → s.nmi i = false
  | _ => True

/-- An initiator is one of the `n` CPUs, and those it has still to deal with are targets. -/
structure PcOk (n a : Nat) (pc : Pc) : Prop where
  lt : ∀ call, pc.call = some call → a < n
  nodup : pc.rest.Nodup
  sub : ∀ call, pc.call = some call → ∀ i ∈ pc.rest, i ∈ targets n a call

/-- What initiator `a` and CPU `c` have between them: a request in order if `a` is flushing
and `c` is a target, and none otherwise. -/
structure Pair (n : Nat) (s : State) (a c : Nat) : Prop where
  life : ∀ call, (s.pc a).call = some call → c ∈ targets n a call →
    Life (flushOf call.tlbf) (s.tlbop c) (s.nmi c) (s.handler c) (s.flushed (a, c))
      ((s.pc a).stage c) (s.req (a, c))
  none : (∀ call, (s.pc a).call = some call → c ∉ targets n a call) → s.req (a, c) = .idle

/-- There is one request of CPU `c` in phase `r`. -/
def One (n : Nat) (s : State) (r : Phase) (c : Nat) : Prop :=
  ∃ a < n, s.req (a, c) = r ∧ ∀ b, s.req (b, c) = r → b = a

/-- The invariant: requests are in order, there is one for each NMI that is latched or
handled, `__tlbcnt` counts them, and who waits has flushed itself. -/
structure Inv (n : Nat) (s : State) : Prop where
  pcs : ∀ a, PcOk n a (s.pc a)
  pair : ∀ a c, Pair n s a c
  own : ∀ a call, s.pc a = .waiting call → flushOf call.tlbf ≤ s.flushed (a, a)
  sent : ∀ c, s.nmi c = true → One n s .sent c
  taken : ∀ c, s.handler c ≠ .idle → One n s .taken c
  count : s.tlbcnt = s.requests n

section

variable {n a c : Nat} {call : Call} {s s' : State}

theorem mem_targets : c ∈ targets n a call ↔ c < n ∧ call.cpumask c = true ∧ c ≠ a := by
  simp [targets]

theorem mem_pairs : (a, c) ∈ pairs n ↔ a < n ∧ c < n := by simp [pairs]

theorem nodup_targets : (targets n a call).Nodup := List.Nodup.filter _ List.nodup_range

/-- Phases change, but nobody's from or to `idle`. -/
theorem requests_congr (h : ∀ p, s'.req p = .idle ↔ s.req p = .idle) :
    s'.requests n = s.requests n := by
  refine Finset.sum_congr rfl fun p _ ↦ ?_
  simp only [ne_eq, h p]

theorem requests_eq_zero :
    s.requests n = 0 ↔ ∀ a < n, ∀ c < n, s.req (a, c) = .idle := by
  unfold State.requests
  rw [tally_eq_zero]
  constructor
  · intro h a ha c hc
    have := h (a, c) (mem_pairs.2 ⟨ha, hc⟩)
    simpa using this
  · rintro h ⟨a, c⟩ hp
    obtain ⟨ha, hc⟩ := mem_pairs.1 hp
    simp [h a ha c hc]

end

namespace Pair

variable {n a c : Nat} {s s' : State}

/-- The call goes on, and the request with it. -/
theorem map (h : Pair n s a c) (hcall : (s'.pc a).call = (s.pc a).call)
    (hlife : ∀ call, (s.pc a).call = some call → c ∈ targets n a call →
      Life (flushOf call.tlbf) (s.tlbop c) (s.nmi c) (s.handler c) (s.flushed (a, c))
        ((s.pc a).stage c) (s.req (a, c)) →
      Life (flushOf call.tlbf) (s'.tlbop c) (s'.nmi c) (s'.handler c) (s'.flushed (a, c))
        ((s'.pc a).stage c) (s'.req (a, c)))
    (hr : s.req (a, c) = .idle → s'.req (a, c) = .idle) : Pair n s' a c where
  life call hc ht := by
    rw [hcall] at hc
    exact hlife call hc ht (h.life call hc ht)
  none hno := by
    rw [hcall] at hno
    exact hr (h.none hno)

/-- What happens elsewhere does no harm. -/
theorem frame (h : Pair n s a c) (hcall : (s'.pc a).call = (s.pc a).call)
    (hst : (s'.pc a).stage c = (s.pc a).stage c)
    (ht : flushOf (s.tlbop c) ≤ flushOf (s'.tlbop c)) (hn : s.nmi c = true → s'.nmi c = true)
    (hh : s'.handler c = s.handler c) (hf : s.flushed (a, c) ≤ s'.flushed (a, c))
    (hr : s'.req (a, c) = s.req (a, c)) : Pair n s' a c := by
  refine h.map hcall (fun call _ _ hl ↦ ?_) fun hi ↦ hr.trans hi
  rw [hst, hh, hr]
  exact hl.mono ht hf hn

/-- A request is one of a call in progress, to one of its targets. -/
theorem alive (h : Pair n s a c) (hr : s.req (a, c) ≠ .idle) :
    ∃ call, (s.pc a).call = some call ∧ c ∈ targets n a call ∧
      Life (flushOf call.tlbf) (s.tlbop c) (s.nmi c) (s.handler c) (s.flushed (a, c))
        ((s.pc a).stage c) (s.req (a, c)) := by
  by_contra hno
  refine hr (h.none fun call hc ht ↦ hno ⟨call, hc, ht, h.life call hc ht⟩)

/-- The NMI of a request that has been sent is latched. -/
theorem latched (h : Pair n s a c) (hr : s.req (a, c) = .sent) : s.nmi c = true := by
  obtain ⟨call, -, -, hl⟩ := h.alive (by rw [hr]; decide)
  generalize (s.pc a).stage c = st at hl
  rw [hr] at hl
  cases hl with
  | sent hn _ => exact hn

/-- The handler of a request that has been taken is running. -/
theorem handled (h : Pair n s a c) (hr : s.req (a, c) = .taken) : s.handler c ≠ .idle := by
  obtain ⟨call, -, -, hl⟩ := h.alive (by rw [hr]; decide)
  generalize (s.pc a).stage c = st at hl
  intro hi
  rw [hr, hi] at hl
  cases hl with
  | entered he _ => cases he
  | fetched he _ => cases he
  | flushed he _ => cases he

end Pair

/-- Only the requests of this phase to this CPU count. -/
theorem One.congr {n c : Nat} {r : Phase} {s s' : State} (h : One n s r c)
    (hr : ∀ b, s'.req (b, c) = r ↔ s.req (b, c) = r) : One n s' r c := by
  obtain ⟨a, ha, hra, huniq⟩ := h
  exact ⟨a, ha, (hr a).2 hra, fun b hb ↦ huniq b ((hr b).1 hb)⟩

theorem Inv.boot (n : Nat) (tlbop : Nat → BitVec 32) : Inv n (.boot tlbop) where
  pcs a := ⟨fun _ h ↦ (by cases h), List.nodup_nil, fun _ h ↦ (by cases h)⟩
  pair a c := ⟨fun _ h ↦ (by cases h), fun _ ↦ rfl⟩
  own a call h := by cases h
  sent c h := by cases h
  taken c h := absurd rfl h
  count := by
    have : (State.boot tlbop).requests n = 0 := requests_eq_zero.2 fun _ _ _ _ ↦ rfl
    rw [this]
    rfl

namespace Inv

variable {n a c i : Nat} {call : Call} {todo : List Nat} {s s' : State}

/-! ## The initiator -/

/-- An initiator goes on from one place to another. -/
theorem pcs_update {pc : Pc} (h : Inv n s) (hpc : PcOk n a pc) :
    ∀ b, PcOk n b (Function.update s.pc a pc b) := by
  intro b
  by_cases hb : b = a
  · subst hb
    rwa [Function.update_self]
  · rw [Function.update_of_ne hb]
    exact h.pcs b

/-- It does not come to wait, and nothing that has been flushed is forgotten. -/
theorem own_update {pc : Pc} {fl : Nat × Nat → Flush} (h : Inv n s)
    (hpc : ∀ call, pc = .waiting call → flushOf call.tlbf ≤ fl (a, a))
    (hfl : ∀ b, b ≠ a → s.flushed (b, b) ≤ fl (b, b)) :
    ∀ b call, Function.update s.pc a pc b = .waiting call → flushOf call.tlbf ≤ fl (b, b) := by
  intro b call hb
  by_cases hba : b = a
  · subst hba
    rw [Function.update_self] at hb
    exact hpc call hb
  · rw [Function.update_of_ne hba] at hb
    exact (h.own b call hb).trans (hfl b hba)

/-- What an initiator does leaves the requests of the others. -/
theorem pair_other {b : Nat} {pc : Pc} (h : Inv n s) (hb : b ≠ a)
    (hpc : s'.pc = Function.update s.pc a pc)
    (ht : flushOf (s.tlbop c) ≤ flushOf (s'.tlbop c)) (hn : s.nmi c = true → s'.nmi c = true)
    (hh : s'.handler = s.handler) (hf : s.flushed (b, c) ≤ s'.flushed (b, c))
    (hr : s'.req (b, c) = s.req (b, c)) : Pair n s' b c := by
  have heq : s'.pc b = s.pc b := by
    rw [hpc, Function.update_of_ne hb]
  exact (h.pair b c).frame (by rw [heq]) (by rw [heq]) ht hn (congrFun hh c) hf hr

/-- The initiator that goes on leaves its requests of the CPUs it is not about. -/
theorem pair_self {pc : Pc} (h : Inv n s) (hpc : s'.pc = Function.update s.pc a pc)
    (hcall : pc.call = (s.pc a).call) (hst : pc.stage c = (s.pc a).stage c)
    (ht : flushOf (s.tlbop c) ≤ flushOf (s'.tlbop c)) (hn : s.nmi c = true → s'.nmi c = true)
    (hh : s'.handler = s.handler) (hf : s.flushed (a, c) ≤ s'.flushed (a, c))
    (hr : s'.req (a, c) = s.req (a, c)) : Pair n s' a c := by
  have heq : s'.pc a = pc := by
    rw [hpc, Function.update_self]
  exact (h.pair a c).frame (by rw [heq, hcall]) (by rw [heq, hst]) ht hn (congrFun hh c) hf hr

/-- And the request that it is about goes on. -/
theorem pair_at {pc : Pc} (h : Inv n s) (hpc : s'.pc = Function.update s.pc a pc)
    (hcall : (s.pc a).call = some call) (hcall' : pc.call = some call)
    (hi : i ∈ targets n a call)
    (hl : Life (flushOf call.tlbf) (s.tlbop i) (s.nmi i) (s.handler i) (s.flushed (a, i))
        ((s.pc a).stage i) (s.req (a, i)) →
      Life (flushOf call.tlbf) (s'.tlbop i) (s'.nmi i) (s'.handler i) (s'.flushed (a, i))
        (pc.stage i) (s'.req (a, i))) : Pair n s' a i := by
  have heq : s'.pc a = pc := by
    rw [hpc, Function.update_self]
  refine ⟨fun call' hc _ ↦ ?_, fun hno ↦ absurd hi (hno call ?_)⟩
  · rw [heq, hcall'] at hc
    cases hc
    rw [heq]
    exact hl ((h.pair a i).life call hcall hi)
  · rw [heq, hcall']

/-- A call begins: no request of this initiator is left. -/
theorem enter (h : Inv n s) (hpc : s.pc a = .out) (ha : a < n) :
    Inv n { s.setPc a (.loop call (targets n a call)) with
      flushed := fun p ↦ if p.1 = a then ⊥ else s.flushed p } := by
  refine ⟨h.pcs_update ⟨fun _ _ ↦ ha, nodup_targets, ?_⟩, fun b c ↦ ?_,
    h.own_update (fun call hc ↦ by cases hc) fun b hb ↦ (if_neg hb).ge, h.sent, h.taken, h.count⟩
  · rintro call' hc i hi
    cases hc
    exact hi
  · by_cases hb : b = a
    · subst hb
      have hidle : s.req (b, c) = .idle := (h.pair b c).none fun call' hc ↦ by
        rw [hpc] at hc
        cases hc
      have hself : Function.update s.pc b (.loop call (targets n b call)) b =
          .loop call (targets n b call) := Function.update_self ..
      refine ⟨fun call' hc ht ↦ ?_, fun _ ↦ hidle⟩
      change (Function.update s.pc b _ b).call = _ at hc
      rw [hself] at hc
      cases hc
      show Life _ _ _ _ _ ((Function.update s.pc b _ b).stage c) (s.req (b, c))
      have hst : (Pc.loop call (targets n b call)).stage c = .todo := if_pos ht
      rw [hself, hidle, hst]
      exact .todo
    · exact h.pair_other hb rfl le_rfl id rfl (if_neg hb).ge rfl

/-- The or into `tlbop`. -/
theorem or (h : Inv n s) (hpc : s.pc a = .loop call (i :: todo)) :
    Inv n { s.setPc a (.ored call i todo) with
      tlbop := Function.update s.tlbop i (s.tlbop i ||| call.tlbf) } := by
  have hok := h.pcs a
  rw [hpc] at hok
  have ht : ∀ c, flushOf (s.tlbop c) ≤
      flushOf (Function.update s.tlbop i (s.tlbop i ||| call.tlbf) c) := by
    intro c
    by_cases hc : c = i
    · subst hc
      rw [Function.update_self]
      exact flushOf_or_left ..
    · rw [Function.update_of_ne hc]
  refine ⟨h.pcs_update ⟨hok.lt, hok.nodup, hok.sub⟩, fun b c ↦ ?_,
    h.own_update (fun call hc ↦ by cases hc) fun _ _ ↦ le_rfl, h.sent, h.taken, h.count⟩
  by_cases hb : b = a
  · subst hb
    by_cases hc : c = i
    · subst hc
      refine h.pair_at rfl (by rw [hpc]; rfl) rfl (hok.sub call rfl c List.mem_cons_self)
        fun hl ↦ ?_
      show Life _ (Function.update s.tlbop c _ c) _ _ _ _ _
      rw [hpc, Pc.stage_head] at hl
      rw [Function.update_self, Pc.stage_ored_self]
      exact hl.or
    · exact h.pair_self rfl (by rw [hpc]; rfl) (by rw [hpc, Pc.stage_ored hc]) (ht c) id rfl le_rfl
        rfl
  · exact h.pair_other hb rfl (ht c) id rfl le_rfl rfl

/-- The increment of `__tlbcnt`: one more request. -/
theorem add (h : Inv n s) (hpc : s.pc a = .ored call i todo) :
    Inv n { s.setPc a (.added call i todo) with
      tlbcnt := s.tlbcnt + 1
      req := Function.update s.req (a, i) .counted } := by
  have hok := h.pcs a
  rw [hpc] at hok
  have hi : i ∈ targets n a call := hok.sub call rfl i List.mem_cons_self
  have hidle : s.req (a, i) = .idle := by
    have hl := (h.pair a i).life call (by rw [hpc]; rfl) hi
    rw [hpc, Pc.stage_ored_self] at hl
    generalize s.req (a, i) = r at hl
    cases hl with
    | ored _ => rfl
  have hone : ∀ r c, r ≠ .idle → r ≠ .counted → ∀ b,
      Function.update s.req (a, i) .counted (b, c) = r ↔ s.req (b, c) = r := by
    intro r c hr hr' b
    by_cases hp : (b, c) = (a, i)
    · rw [hp, Function.update_self, hidle]
      exact ⟨fun h ↦ absurd h.symm hr', fun h ↦ absurd h.symm hr⟩
    · rw [Function.update_of_ne hp]
  refine ⟨h.pcs_update ⟨hok.lt, hok.nodup, hok.sub⟩, fun b c ↦ ?_,
    h.own_update (fun call hc ↦ by cases hc) fun _ _ ↦ le_rfl, fun c hc ↦ ?_, fun c hc ↦ ?_, ?_⟩
  · by_cases hb : b = a
    · subst hb
      by_cases hc : c = i
      · subst hc
        refine h.pair_at rfl (by rw [hpc]; rfl) rfl hi fun hl ↦ ?_
        show Life _ _ _ _ _ _ (Function.update s.req (b, c) _ (b, c))
        rw [hpc, Pc.stage_ored_self] at hl
        rw [Function.update_self, Pc.stage_added_self]
        exact hl.add
      · exact h.pair_self rfl (by rw [hpc]; rfl) (by rw [hpc, Pc.stage_added hc]) le_rfl id rfl
          le_rfl (Function.update_of_ne (fun he ↦ hc (Prod.mk.inj he).2) _ _)
    · exact h.pair_other hb rfl le_rfl id rfl le_rfl
        (Function.update_of_ne (fun he ↦ hb (Prod.mk.inj he).1) _ _)
  · exact (h.sent c hc).congr (hone .sent c (by decide) (by decide))
  · exact (h.taken c hc).congr (hone .taken c (by decide) (by decide))
  · have hp : (a, i) ∈ pairs n := mem_pairs.2 ⟨hok.lt call rfl, (mem_targets.1 hi).1⟩
    have hcnt := tally_update hp (· ≠ .idle) s.req .counted
    rw [hidle] at hcnt
    show s.tlbcnt + 1 = (tally (pairs n) (· ≠ .idle) (Function.update s.req (a, i) .counted) : Nat)
    have := h.count
    unfold State.requests at this
    simp only [ne_eq, not_true_eq_false, decide_false, Bool.toNat_false, reduceCtorEq,
      not_false_eq_true, decide_true, Bool.toNat_true] at hcnt this ⊢
    omega

/-- The NMI, to a CPU that has none: it is for this request. -/
theorem send (h : Inv n s) (hpc : s.pc a = .added call i todo) (hsafe : s.nmi i = false) :
    Inv n { s.setPc a (.loop call todo) with
      nmi := Function.update s.nmi i true
      req := Function.update s.req (a, i) .sent } := by
  have hok := h.pcs a
  rw [hpc] at hok
  have hnd := List.nodup_cons.1 hok.nodup
  have hi : i ∈ targets n a call := hok.sub call rfl i List.mem_cons_self
  have hcounted : s.req (a, i) = .counted := by
    have hl := (h.pair a i).life call (by rw [hpc]; rfl) hi
    rw [hpc, Pc.stage_added_self] at hl
    generalize s.req (a, i) = r at hl
    cases hl with
    | added _ => rfl
  have hn : ∀ c, s.nmi c = true → Function.update s.nmi i true c = true := by
    intro c hc
    by_cases hci : c = i
    · rw [hci, Function.update_self]
    · rwa [Function.update_of_ne hci]
  have hone : ∀ r c, r ≠ .counted → (r ≠ .sent ∨ c ≠ i) → ∀ b,
      Function.update s.req (a, i) .sent (b, c) = r ↔ s.req (b, c) = r := by
    intro r c hr hr' b
    by_cases hp : (b, c) = (a, i)
    · rw [hp, Function.update_self, hcounted]
      refine ⟨fun h ↦ ?_, fun h ↦ absurd h.symm hr⟩
      rcases hr' with hr' | hr'
      · exact absurd h.symm hr'
      · exact absurd (Prod.mk.inj hp).2 hr'
    · rw [Function.update_of_ne hp]
  refine ⟨h.pcs_update ⟨hok.lt, hnd.2, fun call' hc k hk ↦ ?_⟩, fun b c ↦ ?_,
    h.own_update (fun call hc ↦ by cases hc) fun _ _ ↦ le_rfl, fun c hc ↦ ?_, fun c hc ↦ ?_, ?_⟩
  · exact hok.sub call' hc k (List.mem_cons_of_mem _ hk)
  · by_cases hb : b = a
    · subst hb
      by_cases hc : c = i
      · subst hc
        refine h.pair_at rfl (by rw [hpc]; rfl) rfl hi fun hl ↦ ?_
        show Life _ _ (Function.update s.nmi c true c) _ _ _ (Function.update s.req (b, c) _ (b, c))
        rw [hpc, Pc.stage_added_self] at hl
        rw [Function.update_self, Function.update_self, Pc.stage_loop_self hnd.1]
        exact hl.send
      · exact h.pair_self rfl (by rw [hpc]; rfl) (by rw [hpc, Pc.stage_loop hc]) le_rfl (hn c) rfl
          le_rfl (Function.update_of_ne (fun he ↦ hc (Prod.mk.inj he).2) _ _)
    · exact h.pair_other hb rfl le_rfl (hn c) rfl le_rfl
        (Function.update_of_ne (fun he ↦ hb (Prod.mk.inj he).1) _ _)
  · by_cases hci : c = i
    · subst hci
      refine ⟨a, hok.lt call rfl, Function.update_self .., fun b hb ↦ ?_⟩
      by_contra hba
      change Function.update s.req (a, c) .sent (b, c) = .sent at hb
      rw [Function.update_of_ne (fun he ↦ hba (Prod.mk.inj he).1)] at hb
      rw [(h.pair b c).latched hb] at hsafe
      cases hsafe
    · change Function.update s.nmi i true c = true at hc
      rw [Function.update_of_ne hci] at hc
      exact (h.sent c hc).congr (hone .sent c (by decide) (.inr hci))
  · exact (h.taken c hc).congr (hone .taken c (by decide) (.inl (by decide)))
  · refine h.count.trans (congrArg Int.ofNat (requests_congr fun p ↦ ?_).symm)
    show Function.update s.req (a, i) .sent p = .idle ↔ _
    by_cases hp : p = (a, i)
    · rw [hp, Function.update_self, hcounted]
      decide
    · rw [Function.update_of_ne hp]

/-- The initiator's own flush, when the loop is done. -/
theorem flush (h : Inv n s) (hpc : s.pc a = .loop call []) :
    Inv n ((s.flush a (flushOf call.tlbf)).setPc a (.waiting call)) := by
  have hok := h.pcs a
  rw [hpc] at hok
  have hf : ∀ p, s.flushed p ≤
      if p.2 = a then s.flushed p ⊔ flushOf call.tlbf else s.flushed p := by
    intro p
    split
    · exact le_sup_left
    · exact le_rfl
  refine ⟨h.pcs_update ⟨hok.lt, List.nodup_nil, fun _ _ _ hi ↦ by cases hi⟩, fun b c ↦ ?_,
    h.own_update (fun call' hc ↦ ?_) fun b _ ↦ hf (b, b), h.sent, h.taken, h.count⟩
  · by_cases hb : b = a
    · subst hb
      exact h.pair_self rfl (by rw [hpc]; rfl) (by rw [hpc]; rfl) le_rfl id rfl (hf (b, c)) rfl
    · exact h.pair_other hb rfl le_rfl id rfl (hf (b, c)) rfl
  · cases hc
    exact le_sup_right.trans (if_pos rfl).ge

/-- With `__tlbcnt` at zero there is no request. -/
theorem idle_of_zero (h : Inv n s) (hz : s.tlbcnt = 0) (a c : Nat) : s.req (a, c) = .idle := by
  by_contra hr
  obtain ⟨call, hc, ht, -⟩ := (h.pair a c).alive hr
  have hcnt := h.count
  rw [hz] at hcnt
  have hno := requests_eq_zero.1 (Int.ofNat.inj hcnt).symm
  exact hr (hno a ((h.pcs a).lt call hc) c (mem_targets.1 ht).1)

/-- `__flush_tlbs` returns. -/
theorem leave (h : Inv n s) (hz : s.tlbcnt = 0) : Inv n (s.setPc a .out) := by
  refine ⟨h.pcs_update ⟨fun _ hc ↦ (by cases hc), List.nodup_nil, fun _ hc ↦ (by cases hc)⟩,
    fun b c ↦ ?_, h.own_update (fun call hc ↦ by cases hc) fun _ _ ↦ le_rfl, h.sent, h.taken,
    h.count⟩
  by_cases hb : b = a
  · subst hb
    refine ⟨fun call hc ↦ ?_, fun _ ↦ h.idle_of_zero hz b c⟩
    change (Function.update s.pc b .out b).call = some call at hc
    rw [Function.update_self] at hc
    cases hc
  · exact h.pair_other hb rfl le_rfl id rfl le_rfl rfl

/-! ## The target -/

/-- What a handler does leaves the requests of the other CPUs. -/
theorem pair_elsewhere {b k : Nat} (h : Inv n s) (hpc : s'.pc = s.pc)
    (ht : s'.tlbop k = s.tlbop k) (hn : s'.nmi k = s.nmi k) (hh : s'.handler k = s.handler k)
    (hf : s'.flushed (b, k) = s.flushed (b, k)) (hr : s'.req (b, k) = s.req (b, k)) :
    Pair n s' b k :=
  (h.pair b k).frame (by rw [hpc]) (by rw [hpc]) (by rw [ht]) (by rw [hn]; exact id) hh hf.ge hr

/-- And what it has flushed is not forgotten. -/
theorem own_mono {fl : Nat × Nat → Flush} (h : Inv n s) (hfl : ∀ p, s.flushed p ≤ fl p) :
    ∀ b call, s.pc b = .waiting call → flushOf call.tlbf ≤ fl (b, b) :=
  fun b call hb ↦ (h.own b call hb).trans (hfl (b, b))

/-- An NMI is taken: the request it was sent for is the one that the handler answers. -/
theorem deliver (h : Inv n s) (hn : s.nmi c = true) (hh : s.handler c = .idle) :
    Inv n { (s.advance c .sent .taken).setHandler c .entered with
      nmi := Function.update s.nmi c false } := by
  have hother : ∀ b k, k ≠ c →
      (if k = c ∧ s.req (b, k) = .sent then .taken else s.req (b, k)) = s.req (b, k) :=
    fun b k hk ↦ if_neg fun hc ↦ hk hc.1
  refine ⟨h.pcs, fun b k ↦ ?_, h.own, fun k hk ↦ ?_, fun k hk ↦ ?_, ?_⟩
  · by_cases hkc : k = c
    · subst hkc
      refine (h.pair b k).map rfl (fun call _ _ hl ↦ ?_) fun hi ↦ ?_
      · show Life _ _ (Function.update s.nmi k false k) (Function.update s.handler k .entered k) _ _
          (if k = k ∧ s.req (b, k) = .sent then .taken else s.req (b, k))
        rw [hh] at hl
        rw [Function.update_self, Function.update_self]
        simp only [true_and]
        exact hl.deliver
      · exact (if_neg fun hc ↦ absurd (hi.symm.trans hc.2) (by decide)).trans hi
    · exact h.pair_elsewhere rfl rfl (Function.update_of_ne hkc _ _)
        (Function.update_of_ne hkc _ _) rfl (hother b k hkc)
  · change Function.update s.nmi c false k = true at hk
    by_cases hkc : k = c
    · rw [hkc, Function.update_self] at hk
      cases hk
    · rw [Function.update_of_ne hkc] at hk
      exact (h.sent k hk).congr fun b ↦ by
        show (if k = c ∧ s.req (b, k) = .sent then Phase.taken else s.req (b, k)) = .sent ↔ _
        rw [hother b k hkc]
  · change Function.update s.handler c .entered k ≠ .idle at hk
    by_cases hkc : k = c
    · subst hkc
      obtain ⟨a, ha, hra, huniq⟩ := h.sent k hn
      refine ⟨a, ha, if_pos ⟨rfl, hra⟩, fun b hb ↦ huniq b ?_⟩
      by_contra hb'
      change (if k = k ∧ s.req (b, k) = .sent then Phase.taken else s.req (b, k)) = .taken at hb
      rw [if_neg fun hc ↦ hb' hc.2] at hb
      exact (h.pair b k).handled hb hh
    · rw [Function.update_of_ne hkc] at hk
      exact (h.taken k hk).congr fun b ↦ by
        show (if k = c ∧ s.req (b, k) = .sent then Phase.taken else s.req (b, k)) = .taken ↔ _
        rw [hother b k hkc]
  · refine h.count.trans (congrArg Int.ofNat (requests_congr fun p ↦ ?_).symm)
    show (if p.2 = c ∧ s.req p = .sent then Phase.taken else s.req p) = .idle ↔ _
    split
    · next hp =>
        rw [hp.2]
        decide
    · exact Iff.rfl

/-- The handler takes what is in `tlbop`. -/
theorem fetch (h : Inv n s) (hh : s.handler c = .entered) :
    Inv n { s.setHandler c (.fetched (s.tlbop c)) with
      tlbop := Function.update s.tlbop c 0 } := by
  refine ⟨h.pcs, fun b k ↦ ?_, h.own, h.sent, fun k hk ↦ h.taken k ?_, h.count⟩
  · by_cases hkc : k = c
    · subst hkc
      refine (h.pair b k).map rfl (fun call _ _ hl ↦ ?_) id
      show Life _ (Function.update s.tlbop k 0 k) _
        (Function.update s.handler k (.fetched (s.tlbop k)) k) _ _ _
      rw [hh] at hl
      rw [Function.update_self, Function.update_self]
      exact hl.fetch
    · exact h.pair_elsewhere rfl (Function.update_of_ne hkc _ _) rfl
        (Function.update_of_ne hkc _ _) rfl rfl
  · by_cases hkc : k = c
    · rw [hkc, hh]
      decide
    · change Function.update s.handler c _ k ≠ .idle at hk
      rwa [Function.update_of_ne hkc] at hk

/-- The handler flushes. -/
theorem flushNmi {f : BitVec 32} (h : Inv n s) (hh : s.handler c = .fetched f) :
    Inv n ((s.flush c (flushOf f)).setHandler c .flushed) := by
  have hf : ∀ p, s.flushed p ≤ if p.2 = c then s.flushed p ⊔ flushOf f else s.flushed p := by
    intro p
    split
    · exact le_sup_left
    · exact le_rfl
  refine ⟨h.pcs, fun b k ↦ ?_, h.own_mono hf, h.sent, fun k hk ↦ h.taken k ?_, h.count⟩
  · by_cases hkc : k = c
    · subst hkc
      refine (h.pair b k).map rfl (fun call _ _ hl ↦ ?_) id
      show Life _ _ _ (Function.update s.handler k .flushed k)
        (if k = k then s.flushed (b, k) ⊔ flushOf f else s.flushed (b, k)) _ _
      rw [hh] at hl
      rw [Function.update_self, if_pos rfl]
      exact hl.flush
    · exact h.pair_elsewhere rfl rfl rfl (Function.update_of_ne hkc _ _) (if_neg hkc) rfl
  · by_cases hkc : k = c
    · rw [hkc, hh]
      exact Handler.noConfusion
    · change Function.update s.handler c _ k ≠ .idle at hk
      rwa [Function.update_of_ne hkc] at hk

/-- The handler counts down and returns: its one request has been answered. -/
theorem sub (h : Inv n s) (hh : s.handler c = .flushed) :
    Inv n { (s.advance c .taken .idle).setHandler c .idle with tlbcnt := s.tlbcnt - 1 } := by
  have hother : ∀ b k, k ≠ c →
      (if k = c ∧ s.req (b, k) = .taken then .idle else s.req (b, k)) = s.req (b, k) :=
    fun b k hk ↦ if_neg fun hc ↦ hk hc.1
  obtain ⟨a, ha, hra, huniq⟩ := h.taken c (by rw [hh]; decide)
  refine ⟨h.pcs, fun b k ↦ ?_, h.own, fun k hk ↦ (h.sent k hk).congr fun b ↦ ?_,
    fun k hk ↦ ?_, ?_⟩
  · by_cases hkc : k = c
    · subst hkc
      refine (h.pair b k).map rfl (fun call _ _ hl ↦ ?_) fun hi ↦ ?_
      · show Life _ _ _ (Function.update s.handler k .idle k) _ _
          (if k = k ∧ s.req (b, k) = .taken then .idle else s.req (b, k))
        rw [hh] at hl
        rw [Function.update_self]
        simp only [true_and]
        exact hl.sub
      · exact (if_neg fun hc ↦ absurd (hi.symm.trans hc.2) (by decide)).trans hi
    · exact h.pair_elsewhere rfl rfl rfl (Function.update_of_ne hkc _ _) rfl (hother b k hkc)
  · show (if k = c ∧ s.req (b, k) = .taken then Phase.idle else s.req (b, k)) = .sent ↔ _
    split
    · next hp =>
        rw [hp.2]
        decide
    · exact Iff.rfl
  · change Function.update s.handler c .idle k ≠ .idle at hk
    by_cases hkc : k = c
    · rw [hkc, Function.update_self] at hk
      exact absurd rfl hk
    · rw [Function.update_of_ne hkc] at hk
      exact (h.taken k hk).congr fun b ↦ by
        show (if k = c ∧ s.req (b, k) = .taken then Phase.idle else s.req (b, k)) = .taken ↔ _
        rw [hother b k hkc]
  · have heq : (fun p : Nat × Nat ↦ if p.2 = c ∧ s.req p = .taken then Phase.idle else s.req p) =
        Function.update s.req (a, c) .idle := by
      funext p
      by_cases hp : p = (a, c)
      · rw [hp, Function.update_self]
        exact if_pos ⟨rfl, hra⟩
      · rw [Function.update_of_ne hp]
        refine if_neg fun hc ↦ hp (Prod.ext (huniq p.1 ?_) hc.1)
        rw [← hc.1]
        exact hc.2
    obtain ⟨call, hc, ht, -⟩ := (h.pair a c).alive (by rw [hra]; decide)
    have hp : (a, c) ∈ pairs n := mem_pairs.2 ⟨ha, (mem_targets.1 ht).1⟩
    have hcnt := tally_update hp (· ≠ .idle) s.req .idle
    have hold := h.count
    rw [hra] at hcnt
    show s.tlbcnt - 1 = (tally (pairs n) (· ≠ Phase.idle) (fun p ↦ ite _ _ _) : Nat)
    rw [heq]
    unfold State.requests at hold
    simp only [ne_eq, not_true_eq_false, decide_false, Bool.toNat_false, reduceCtorEq,
      not_false_eq_true, decide_true, Bool.toNat_true] at hcnt hold ⊢
    omega

/-- A step that is safe keeps the invariant. -/
theorem step {op : Op} (h : Inv n s) (hs : Step n s op s') (hsafe : s.NmiSafe op) :
    Inv n s' := by
  unfold Step State.step at hs
  cases op with
  | call a call =>
      simp only [State.flushTlbs] at hs
      split at hs
      · split at hs
        · next hpc =>
            split at hs
            · next ha =>
                cases hs
                exact h.enter hpc ha
            · cases hs
        · cases hs
      · cases hs
  | or a =>
      simp only [State.flushTlbs] at hs
      split at hs
      · split at hs
        · next hpc =>
            cases hs
            exact h.or hpc
        · cases hs
      · cases hs
  | add a =>
      simp only [State.flushTlbs] at hs
      split at hs
      · split at hs
        · next hpc =>
            cases hs
            exact h.add hpc
        · cases hs
      · cases hs
  | send a =>
      simp only [State.flushTlbs] at hs
      split at hs
      · split at hs
        · next call i todo hpc =>
            cases hs
            exact h.send hpc (hsafe call i todo hpc)
        · cases hs
      · cases hs
  | flush a =>
      simp only [State.flushTlbs] at hs
      split at hs
      · split at hs
        · next hpc =>
            cases hs
            exact h.flush hpc
        · cases hs
      · cases hs
  | leave a =>
      simp only [State.flushTlbs] at hs
      split at hs
      · split at hs
        · split at hs
          · next hz =>
              cases hs
              exact h.leave hz
          · cases hs
        · cases hs
      · cases hs
  | deliver c =>
      simp only [State.onNmi] at hs
      split at hs
      · next hc =>
          cases hs
          exact h.deliver hc.1 hc.2
      · cases hs
  | fetch c =>
      simp only [State.onNmi] at hs
      split at hs
      · next hh =>
          cases hs
          exact h.fetch hh
      · cases hs
  | flushNmi c =>
      simp only [State.onNmi] at hs
      split at hs
      · next hh =>
          cases hs
          exact h.flushNmi hh
      · cases hs
  | sub c =>
      simp only [State.onNmi] at hs
      split at hs
      · next hh =>
          cases hs
          exact h.sub hh
      · cases hs

/-- What a call asked for has been flushed by all its targets when it can return. -/
theorem served (h : Inv n s) (hpc : s.pc a = .waiting call) (hz : s.tlbcnt = 0) (hc : c < n)
    (hm : call.cpumask c = true) : flushOf call.tlbf ≤ s.flushed (a, c) := by
  by_cases hca : c = a
  · rw [hca]
    exact h.own a call hpc
  · have hl := (h.pair a c).life call (by rw [hpc]; rfl) (mem_targets.2 ⟨hc, hm, hca⟩)
    rw [hpc, h.idle_of_zero hz a c] at hl
    cases hl with
    | served hf => exact hf

end Inv

end Mh.Tlb
