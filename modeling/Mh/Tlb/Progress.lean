import Mh.Tlb.Shootdown

/-!
# Nobody waits for ever

While nobody calls `__flush_tlbs` anew, every step brings its end nearer (`work_lt`), and
as long as somebody is in it there is a step to take (`exists_step`): so every initiator
returns.  The busy wait itself is no step.
-/

namespace Mh.Tlb

open Mh.Lib (Run sum_update)

/-- The steps that an initiator has still to take, with those of the handlers that its NMIs
will cause. -/
def Pc.work : Pc → Nat
  | .out => 0
  | .waiting _ => 1
  | .loop _ todo => 7 * todo.length + 2
  | .ored _ _ todo => 7 * todo.length + 8
  | .added _ _ todo => 7 * todo.length + 7

/-- The steps that a handler has still to take. -/
def Handler.work : Handler → Nat
  | .idle => 0
  | .entered => 3
  | .fetched _ => 2
  | .flushed => 1

/-- The steps that an NMI will cause. -/
def nmiWork (b : Bool) : Nat := 4 * b.toNat

namespace State

/-- The steps that are still to be taken. -/
def work (n : Nat) (s : State) : Nat :=
  (∑ a ∈ Finset.range n, (s.pc a).work) + (∑ c ∈ Finset.range n, (s.handler c).work) +
    ∑ c ∈ Finset.range n, nmiWork (s.nmi c)

/-- No NMI is latched or handled, or has been counted and is about to be sent. -/
def Quiet (s : State) : Prop :=
  (∀ c, s.nmi c = false ∧ s.handler c = .idle) ∧ ∀ a call i todo, s.pc a ≠ .added call i todo

end State

/-- A step that is safe, and is not a new call. -/
def Onward (n : Nat) (s : State) (op : Op) (s' : State) : Prop :=
  Step n s op s' ∧ s.NmiSafe op ∧ ∀ a call, op ≠ .call a call

/-- Without new calls no initiator waits for ever: there is a bound on the steps that can
follow, and as long as an initiator has not returned there is one. -/
def State.Returns (n : Nat) (s : State) : Prop :=
  ∃ B, ∀ ops s', Run (Onward n) s ops s' →
    ops.length ≤ B ∧ ((∃ a, s'.pc a ≠ .out) → ∃ op s'', Onward n s' op s'')

namespace Inv

variable {n a c i : Nat} {call : Call} {todo : List Nat} {s s' : State}

theorem lt_of_pc (h : Inv n s) (hpc : s.pc a ≠ .out) : a < n := by
  cases hp : s.pc a with
  | out => exact absurd hp hpc
  | loop call _ | ored call _ _ | added call _ _ | waiting call =>
      exact (h.pcs a).lt call (by rw [hp]; rfl)

/-- A CPU that has been sent an NMI, or handles one, is one of the `n`. -/
theorem lt_of_one {r : Phase} (h : Inv n s) (ho : One n s r c) (hr : r ≠ .idle) : c < n := by
  obtain ⟨a, -, hra, -⟩ := ho
  obtain ⟨call, -, ht, -⟩ := (h.pair a c).alive (by rwa [hra])
  exact (mem_targets.1 ht).1

/-- An initiator that goes on. -/
theorem sum_pc (h : Inv n s) (hpc : s.pc a ≠ .out) (pc : Pc) :
    (∑ b ∈ Finset.range n, (Function.update s.pc a pc b).work) + (s.pc a).work =
      (∑ b ∈ Finset.range n, (s.pc b).work) + pc.work :=
  sum_update (Finset.mem_range.2 (h.lt_of_pc hpc)) s.pc pc Pc.work

/-- A handler that goes on. -/
theorem sum_handler (hc : c < n) (x : Handler) :
    (∑ b ∈ Finset.range n, (Function.update s.handler c x b).work) + (s.handler c).work =
      (∑ b ∈ Finset.range n, (s.handler b).work) + x.work :=
  sum_update (Finset.mem_range.2 hc) s.handler x Handler.work

/-- An NMI that is sent or taken. -/
theorem sum_nmi (hc : c < n) (x : Bool) :
    (∑ b ∈ Finset.range n, nmiWork (Function.update s.nmi c x b)) + nmiWork (s.nmi c) =
      (∑ b ∈ Finset.range n, nmiWork (s.nmi b)) + nmiWork x :=
  sum_update (Finset.mem_range.2 hc) s.nmi x nmiWork

/-- An initiator goes on to a place from where it has less to do, even with an NMI sent. -/
theorem work_pc {pc : Pc} (h : Inv n s) (hout : s.pc a ≠ .out)
    (hpc : s'.pc = Function.update s.pc a pc) (hh : s'.handler = s.handler)
    (hn : s'.nmi = s.nmi ∧ pc.work < (s.pc a).work ∨
      ∃ i < n, s'.nmi = Function.update s.nmi i true ∧ pc.work + 4 < (s.pc a).work) :
    s'.work n < s.work n := by
  have hsum := h.sum_pc hout pc
  unfold State.work
  rw [hpc, hh]
  rcases hn with ⟨hn, hlt⟩ | ⟨i, hi, hn, hlt⟩
  · rw [hn]
    omega
  · have hnmi := sum_nmi (s := s) hi true
    have h4 : nmiWork true = 4 := rfl
    rw [hn]
    omega

/-- A handler goes on, which has one step less to take. -/
theorem work_handler {x : Handler} (hc : c < n) (hpc : s'.pc = s.pc)
    (hh : s'.handler = Function.update s.handler c x) (hn : s'.nmi = s.nmi)
    (hlt : x.work < (s.handler c).work) : s'.work n < s.work n := by
  have hsum := sum_handler (s := s) hc x
  unfold State.work
  rw [hpc, hh, hn]
  omega

/-- A step of `__flush_tlbs` that is not a new call. -/
theorem flushTlbs_work {op : Op} (h : Inv n s) (hs : s.flushTlbs n op = some s')
    (hcall : ∀ a call, op ≠ .call a call) : s'.work n < s.work n := by
  have hne : ∀ {a pc}, s.pc a = pc → pc ≠ .out → s.pc a ≠ .out := fun he ho ↦ by rwa [he]
  cases op with
  | call a call => exact absurd rfl (hcall a call)
  | or a =>
      simp only [State.flushTlbs] at hs
      split at hs
      · next call i todo hpc =>
          cases hs
          refine h.work_pc (hne hpc Pc.noConfusion) rfl rfl (.inl ⟨rfl, ?_⟩)
          rw [hpc]
          show 7 * todo.length + 8 < 7 * (todo.length + 1) + 2
          omega
      · cases hs
  | add a =>
      simp only [State.flushTlbs] at hs
      split at hs
      · next call i todo hpc =>
          cases hs
          refine h.work_pc (hne hpc Pc.noConfusion) rfl rfl (.inl ⟨rfl, ?_⟩)
          rw [hpc]
          exact Nat.lt_succ_self _
      · cases hs
  | send a =>
      simp only [State.flushTlbs] at hs
      split at hs
      · next call i todo hpc =>
          cases hs
          have hok := h.pcs a
          rw [hpc] at hok
          have hi : i < n := (mem_targets.1 (hok.sub call rfl i List.mem_cons_self)).1
          refine h.work_pc (hne hpc Pc.noConfusion) rfl rfl (.inr ⟨i, hi, rfl, ?_⟩)
          rw [hpc]
          show 7 * todo.length + 2 + 4 < 7 * todo.length + 7
          omega
      · cases hs
  | flush a =>
      simp only [State.flushTlbs] at hs
      split at hs
      · next call hpc =>
          cases hs
          refine h.work_pc (hne hpc Pc.noConfusion) rfl rfl (.inl ⟨rfl, ?_⟩)
          rw [hpc]
          exact Nat.one_lt_two
      · cases hs
  | leave a =>
      simp only [State.flushTlbs] at hs
      split at hs
      · next call hpc =>
          split at hs
          · cases hs
            refine h.work_pc (hne hpc Pc.noConfusion) rfl rfl (.inl ⟨rfl, ?_⟩)
            rw [hpc]
            exact Nat.one_pos
          · cases hs
      · cases hs
  | _ => cases hs

/-- A step of an NMI handler. -/
theorem onNmi_work {op : Op} (h : Inv n s) (hs : s.onNmi op = some s') : s'.work n < s.work n := by
  have hlt : ∀ {c x}, s.handler c = x → x ≠ .idle → c < n := fun he hx ↦
    h.lt_of_one (h.taken _ (by rwa [he])) (by decide)
  cases op with
  | deliver c =>
      simp only [State.onNmi] at hs
      split at hs
      · next hc =>
          cases hs
          have hcn : c < n := h.lt_of_one (h.sent c hc.1) (by decide)
          have hh := sum_handler (s := s) hcn .entered
          have hn := sum_nmi (s := s) hcn false
          rw [hc.2] at hh
          rw [hc.1] at hn
          have h3 : Handler.work .entered = 3 := rfl
          have h0 : Handler.work .idle = 0 := rfl
          have h4 : nmiWork true = 4 := rfl
          have h0' : nmiWork false = 0 := rfl
          show (∑ b ∈ Finset.range n, (s.pc b).work) +
            (∑ b ∈ Finset.range n, (Function.update s.handler c .entered b).work) +
            (∑ b ∈ Finset.range n, nmiWork (Function.update s.nmi c false b)) < s.work n
          unfold State.work
          omega
      · cases hs
  | fetch c =>
      simp only [State.onNmi] at hs
      split at hs
      · next hh =>
          cases hs
          refine work_handler (hlt hh (by decide)) rfl rfl rfl ?_
          rw [hh]
          exact Nat.lt_succ_self 2
      · cases hs
  | flushNmi c =>
      simp only [State.onNmi] at hs
      split at hs
      · next hh =>
          cases hs
          refine work_handler (hlt hh Handler.noConfusion) rfl rfl rfl ?_
          rw [hh]
          exact Nat.lt_succ_self 1
      · cases hs
  | sub c =>
      simp only [State.onNmi] at hs
      split at hs
      · next hh =>
          cases hs
          refine work_handler (hlt hh (by decide)) rfl rfl rfl ?_
          rw [hh]
          exact Nat.lt_succ_self 0
      · cases hs
  | _ => cases hs

/-- Every step but a new call leaves less to do. -/
theorem work_lt {op : Op} (h : Inv n s) (hs : Onward n s op s') : s'.work n < s.work n := by
  obtain ⟨hs, -, hcall⟩ := hs
  unfold Step State.step at hs
  split at hs
  case h_7 => exact h.onNmi_work hs
  all_goals
    split at hs
    · exact h.flushTlbs_work hs hcall
    · cases hs

theorem onward (op : Op) (hs : (s.step n op).isSome = true) (hsafe : s.NmiSafe op)
    (hcall : ∀ a call, op ≠ .call a call) : ∃ op s', Onward n s op s' := by
  obtain ⟨s', hs'⟩ := Option.isSome_iff_exists.1 hs
  exact ⟨op, s', hs', hsafe, hcall⟩

/-- A handler that is running can go on. -/
theorem exists_handler (hh : s.handler c ≠ .idle) : ∃ op s', Onward n s op s' := by
  cases hc : s.handler c with
  | idle => exact absurd hc hh
  | entered =>
      refine onward (.fetch c) ?_ trivial fun _ _ ↦ Op.noConfusion
      simp only [State.step, State.onNmi, hc, Option.isSome_some]
  | fetched f =>
      refine onward (.flushNmi c) ?_ trivial fun _ _ ↦ Op.noConfusion
      simp only [State.step, State.onNmi, hc, Option.isSome_some]
  | flushed =>
      refine onward (.sub c) ?_ trivial fun _ _ ↦ Op.noConfusion
      simp only [State.step, State.onNmi, hc, Option.isSome_some]

/-- With nothing latched and no handler running, an initiator that is in the loop can go
on. -/
theorem exists_loop (hq : ∀ c, s.nmi c = false ∧ s.handler c = .idle) (hpc : s.pc a ≠ .out)
    (hw : ∀ call, s.pc a ≠ .waiting call) : ∃ op s', Onward n s op s' := by
  cases hp : s.pc a with
  | out => exact absurd hp hpc
  | waiting call => exact absurd hp (hw call)
  | loop call todo =>
      cases todo with
      | nil =>
          refine onward (.flush a) ?_ trivial fun _ _ ↦ Op.noConfusion
          simp only [State.step, State.flushTlbs, (hq a).2, hp, if_true, Option.isSome_some]
      | cons i todo =>
          refine onward (.or a) ?_ trivial fun _ _ ↦ Op.noConfusion
          simp only [State.step, State.flushTlbs, (hq a).2, hp, if_true, Option.isSome_some]
  | ored call i todo =>
      refine onward (.add a) ?_ trivial fun _ _ ↦ Op.noConfusion
      simp only [State.step, State.flushTlbs, (hq a).2, hp, if_true, Option.isSome_some]
  | added call i todo =>
      refine onward (.send a) ?_ (fun _ k _ _ ↦ (hq k).1) fun _ _ ↦ Op.noConfusion
      simp only [State.step, State.flushTlbs, (hq a).2, hp, if_true, Option.isSome_some]

/-- With no NMI pending or being handled no request is open. -/
theorem zero_of_quiet (h : Inv n s) (hq : s.Quiet) : s.tlbcnt = 0 := by
  have hz : s.requests n = 0 := by
    refine requests_eq_zero.2 fun a _ c _ ↦ ?_
    by_contra hr
    obtain ⟨call, hc, ht, hl⟩ := (h.pair a c).alive hr
    cases hreq : s.req (a, c) with
    | idle => exact hr hreq
    | counted =>
        rw [hreq] at hl
        generalize hst : (s.pc a).stage c = st at hl
        cases hl
        cases hp : s.pc a with
        | added call i todo => exact hq.2 a call i todo hp
        | out | waiting _ =>
            rw [hp] at hst
            cases hst
        | loop _ todo =>
            rw [hp] at hst
            simp only [Pc.stage] at hst
            split at hst <;> cases hst
        | ored _ i todo =>
            rw [hp] at hst
            simp only [Pc.stage] at hst
            split at hst
            · cases hst
            · split at hst <;> cases hst
    | sent =>
        have hn := (h.pair a c).latched hreq
        rw [(hq.1 c).1] at hn
        cases hn
    | taken => exact (h.pair a c).handled hreq (hq.1 c).2
  rw [h.count, hz]
  rfl

/-- As long as somebody is flushing there is a step to take. -/
theorem exists_step (h : Inv n s) (hpc : s.pc a ≠ .out) : ∃ op s', Onward n s op s' := by
  by_cases hh : ∃ c, s.handler c ≠ .idle
  · obtain ⟨c, hc⟩ := hh
    exact exists_handler hc
  have hidle : ∀ c, s.handler c = .idle := fun c ↦ by_contra fun hc ↦ hh ⟨c, hc⟩
  by_cases hn : ∃ c, s.nmi c = true
  · obtain ⟨c, hc⟩ := hn
    refine onward (.deliver c) ?_ trivial fun _ _ ↦ Op.noConfusion
    simp only [State.step, State.onNmi, hc, hidle c, and_self, if_true, Option.isSome_some]
  have hq : ∀ c, s.nmi c = false ∧ s.handler c = .idle :=
    fun c ↦ ⟨Bool.eq_false_iff.2 fun hc ↦ hn ⟨c, hc⟩, hidle c⟩
  by_cases hw : ∃ b, s.pc b ≠ .out ∧ ∀ call, s.pc b ≠ .waiting call
  · obtain ⟨b, hb, hbw⟩ := hw
    exact exists_loop hq hb hbw
  · have hquiet : s.Quiet := by
      refine ⟨hq, fun b call i todo hb ↦ hw ⟨b, ?_, fun call' ↦ ?_⟩⟩
      · rw [hb]
        exact Pc.noConfusion
      · rw [hb]
        exact Pc.noConfusion
    cases hp : s.pc a with
    | out => exact absurd hp hpc
    | waiting call =>
        refine onward (.leave a) ?_ trivial fun _ _ ↦ Op.noConfusion
        simp only [State.step, State.flushTlbs, hidle a, hp, h.zero_of_quiet hquiet, if_true,
          Option.isSome_some]
    | loop _ _ | ored _ _ _ | added _ _ _ =>
        refine absurd ⟨a, hpc, fun call ↦ ?_⟩ hw
        rw [hp]
        exact Pc.noConfusion

/-- Without new calls every initiator returns. -/
theorem returns (h : Inv n s) : s.Returns n := by
  refine ⟨s.work n, fun ops s' hr ↦ ?_⟩
  have hinv : Inv n s' :=
    hr.invariant (I := Inv n) (fun _ _ _ hi hs ↦ hi.step hs.1 hs.2.1) h
  refine ⟨?_, fun ⟨a, ha⟩ ↦ hinv.exists_step ha⟩
  clear hinv
  induction hr with
  | nil _ => exact Nat.zero_le _
  | cons hs _ ih =>
      have hlt := h.work_lt hs
      have hle := ih (h.step hs.1 hs.2.1)
      exact Nat.lt_of_le_of_lt hle hlt

end Inv

/-! ## Runs -/

/-- In a run in which no CPU is sent an NMI while it has one that it has not taken:
`__tlbcnt` is the number of requests whose target has not yet run `__flush_tlbs_on_nmi`;
with no NMI pending or being handled it is zero, and nobody waits for ever; and when
`__flush_tlbs` returns, every CPU of the mask has flushed what was asked for since it was
called. -/
theorem shootdown {n : Nat} {tlbop : Nat → BitVec 32} {ops : List Op} {s : State}
    (h : Run (fun s op s' ↦ Step n s op s' ∧ s.NmiSafe op) (.boot tlbop) ops s) :
    s.tlbcnt = s.requests n ∧ (s.Quiet → s.tlbcnt = 0) ∧ s.Returns n ∧
      ∀ a s', Step n s (.leave a) s' → ∀ call, s.pc a = .waiting call →
        ∀ c < n, call.cpumask c = true → flushOf call.tlbf ≤ s.flushed (a, c) := by
  have hi : Inv n s :=
    h.invariant (I := Inv n) (fun _ _ _ hi hs ↦ hi.step hs.1 hs.2) (.boot n tlbop)
  refine ⟨hi.count, hi.zero_of_quiet, hi.returns, fun a s' hs call hpc c hc hm ↦ ?_⟩
  refine hi.served hpc ?_ hc hm
  simp only [Step, State.step, State.flushTlbs, hpc] at hs
  split at hs
  · split at hs
    · next hz => exact hz
    · cases hs
  · cases hs

/-- A call of `__flush_tlbs(1 << c, TLBF_NORMAL)`. -/
def callFor (c : Nat) : Call := ⟨fun i ↦ i == c, tlbfNormal⟩

/-- CPU 0 has CPU 1 flush its TLB. -/
theorem shootdown_one : ∃ s : State,
    Run (fun s op s' ↦ Step 2 s op s' ∧ s.NmiSafe op) (.boot fun _ ↦ 0)
      [.call 0 (callFor 1), .or 0, .add 0, .send 0, .flush 0, .deliver 1, .fetch 1, .flushNmi 1,
        .sub 1] s ∧
    s.tlbcnt = s.requests 2 ∧ (s.Quiet → s.tlbcnt = 0) ∧ s.Returns 2 ∧
      ∀ a s', Step 2 s (.leave a) s' → ∀ call, s.pc a = .waiting call →
        ∀ c < 2, call.cpumask c = true → flushOf call.tlbf ≤ s.flushed (a, c) := by
  have h : Run (fun s op s' ↦ Step 2 s op s' ∧ s.NmiSafe op) (.boot fun _ ↦ 0)
      [.call 0 (callFor 1), .or 0, .add 0, .send 0, .flush 0, .deliver 1, .fetch 1, .flushNmi 1,
        .sub 1] _ :=
    .cons ⟨rfl, trivial⟩ <| .cons ⟨rfl, trivial⟩ <| .cons ⟨rfl, trivial⟩ <|
      .cons ⟨rfl, fun _ _ _ _ ↦ rfl⟩ <| .cons ⟨rfl, trivial⟩ <| .cons ⟨rfl, trivial⟩ <|
      .cons ⟨rfl, trivial⟩ <| .cons ⟨rfl, trivial⟩ <| .cons ⟨rfl, trivial⟩ (.nil _)
  exact ⟨_, h, shootdown h⟩

/-- CPUs 0 and 1 both aim at CPU 2.  The second NMI is sent before the first is taken and
is lost in it; CPU 2 counts down once, and with nothing left to happen `__tlbcnt` stays at
one. -/
theorem tlbcnt_stuck : ¬ ∀ (n : Nat) (tlbop : Nat → BitVec 32) (ops : List Op) (s : State),
    Run (Step n) (.boot tlbop) ops s →
      s.tlbcnt = s.requests n ∧ (s.Quiet → s.tlbcnt = 0) ∧ s.Returns n := by
  intro hall
  have h : Run (Step 3) (.boot fun _ ↦ 0)
      [.call 0 (callFor 2), .or 0, .add 0, .send 0, .call 1 (callFor 2), .or 1, .add 1, .send 1,
        .flush 0, .flush 1, .deliver 2, .fetch 2, .flushNmi 2, .sub 2] _ :=
    .cons rfl <| .cons rfl <| .cons rfl <| .cons rfl <| .cons rfl <| .cons rfl <| .cons rfl <|
      .cons rfl <| .cons rfl <| .cons rfl <| .cons rfl <| .cons rfl <| .cons rfl <|
      .cons rfl (.nil _)
  have hcnt := (hall 3 _ _ _ h).1
  exact absurd hcnt (by decide)

end Mh.Tlb
