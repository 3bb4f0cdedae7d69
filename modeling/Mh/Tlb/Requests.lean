import Mathlib.Data.BitVec
import Mathlib.Order.BoundedOrder.Basic
import Mathlib.Order.Lattice
import Mh.Lib.Run
import Mh.Lib.Tally

/-!
# TLB shootdown

`__flush_tlbs` and `__flush_tlbs_on_nmi` of `tlb.c`, run by any number of CPUs at once, in
the atomic operations they are made of.  An NMI is a message to a CPU, which keeps one that
it has not taken yet: a second one sent meanwhile is lost in the first.  A CPU takes an NMI
wherever it is, except in the NMI handler, from `nmi_entry` to the return from it.

A state records two things that the code does not keep.  A request is what an initiator
makes of a target with its increment of `__tlbcnt`; `req` tells how far it has got, until
the target has run `__flush_tlbs_on_nmi` for an NMI that came after it.  And `flushed (a, c)`
is what `c` has flushed since the call in progress on `a` began.
-/

namespace Mh.Tlb

/-- `TLBF_NORMAL`. -/
def tlbfNormal : BitVec 32 := 1

/-- `TLBF_GLOBAL`. -/
def tlbfGlobal : BitVec 32 := 2

/-- What has been flushed, or is to be: the entries that are not global, and those that
are. -/
abbrev Flush := Bool × Bool

/-- What the two functions flush, given flags: `__flush_global_tlbs` flushes everything,
`__flush_local_tlbs` what is not global. -/
def flushOf (tlbf : BitVec 32) : Flush :=
  if tlbf &&& tlbfGlobal ≠ 0 then (true, true)
  else if tlbf &&& tlbfNormal ≠ 0 then (true, false)
  else (false, false)

/-- The arguments of `__flush_tlbs`. -/
structure Call where
  cpumask : Nat → Bool
  tlbf : BitVec 32

/-- Where an initiator is: outside `__flush_tlbs`; in the loop, with the CPUs that are left;
in its body, past the or into `tlbop` of a CPU or past the increment of `__tlbcnt`; or
waiting for `__tlbcnt` to be zero. -/
inductive Pc
  | out
  | loop (call : Call) (todo : List Nat)
  | ored (call : Call) (i : Nat) (todo : List Nat)
  | added (call : Call) (i : Nat) (todo : List Nat)
  | waiting (call : Call)

/-- Where the NMI handler of a CPU is: not running; entered; with the flags it has taken from
`tlbop`; or past the flush. -/
inductive Handler
  | idle
  | entered
  | fetched (tlbf : BitVec 32)
  | flushed
deriving DecidableEq, Repr

/-- How far a request has got: there is none, or it has been served; it is counted; its NMI
has been sent; or the handler is running for it. -/
inductive Phase
  | idle
  | counted
  | sent
  | taken
deriving DecidableEq, Repr

/-- `__tlbcnt`, the `tlbop` of each CPU and the NMIs that are latched, where each CPU is, and
the history. -/
structure State where
  tlbcnt : Int
  tlbop : Nat → BitVec 32
  nmi : Nat → Bool
  pc : Nat → Pc
  handler : Nat → Handler
  req : Nat × Nat → Phase
  flushed : Nat × Nat → Flush

/-- What a CPU does next: call `__flush_tlbs`; the or, the increment and the NMI for one
CPU of the mask; its own flush; find `__tlbcnt` zero and return; take an NMI; and the
three operations of `__flush_tlbs_on_nmi`. -/
inductive Op
  | call (a : Nat) (call : Call)
  | or (a : Nat)
  | add (a : Nat)
  | send (a : Nat)
  | flush (a : Nat)
  | leave (a : Nat)
  | deliver (c : Nat)
  | fetch (c : Nat)
  | flushNmi (c : Nat)
  | sub (c : Nat)

/-- The CPUs that the loop does not skip, of `n` that are active. -/
def targets (n a : Nat) (call : Call) : List Nat :=
  (List.range n).filter fun i ↦ call.cpumask i && i != a

namespace State

/-- Nobody is flushing.  What `tlbop` is at first is left open, as `cpu_add` does not set
it. -/
def boot (tlbop : Nat → BitVec 32) : State where
  tlbcnt := 0
  tlbop := tlbop
  nmi := fun _ ↦ false
  pc := fun _ ↦ .out
  handler := fun _ ↦ .idle
  req := fun _ ↦ .idle
  flushed := fun _ ↦ ⊥

/-- An initiator goes on. -/
def setPc (s : State) (a : Nat) (pc : Pc) : State := { s with pc := Function.update s.pc a pc }

/-- The handler of a CPU goes on. -/
def setHandler (s : State) (c : Nat) (h : Handler) : State :=
  { s with handler := Function.update s.handler c h }

/-- A CPU has flushed. -/
def flush (s : State) (c : Nat) (f : Flush) : State :=
  { s with flushed := fun p ↦ if p.2 = c then s.flushed p ⊔ f else s.flushed p }

/-- The requests of a CPU in one phase go to another. -/
def advance (s : State) (c : Nat) (r r' : Phase) : State :=
  { s with req := fun p ↦ if p.2 = c ∧ s.req p = r then r' else s.req p }

/-- `__flush_tlbs`, step by step. -/
def flushTlbs (n : Nat) (s : State) : Op → Option State
  | .call a call =>
    match s.pc a with
    | .out =>
      if a < n then
        some { s.setPc a (.loop call (targets n a call)) with
          flushed := fun p ↦ if p.1 = a then ⊥ else s.flushed p }
      else none
    | _ => none
  | .or a =>
    match s.pc a with
    | .loop call (i :: todo) =>
      some { s.setPc a (.ored call i todo) with
        tlbop := Function.update s.tlbop i (s.tlbop i ||| call.tlbf) }
    | _ => none
  | .add a =>
    match s.pc a with
    | .ored call i todo =>
      some { s.setPc a (.added call i todo) with
        tlbcnt := s.tlbcnt + 1
        req := Function.update s.req (a, i) .counted }
    | _ => none
  | .send a =>
    match s.pc a with
    | .added call i todo =>
      some { s.setPc a (.loop call todo) with
        nmi := Function.update s.nmi i true
        req := Function.update s.req (a, i) .sent }
    | _ => none
  | .flush a =>
    match s.pc a with
    | .loop call [] => some ((s.flush a (flushOf call.tlbf)).setPc a (.waiting call))
    | _ => none
  | .leave a =>
    match s.pc a with
    | .waiting _ => if s.tlbcnt = 0 then some (s.setPc a .out) else none
    | _ => none
  | _ => none

/-- An NMI is taken, and `__flush_tlbs_on_nmi`, step by step. -/
def onNmi (s : State) : Op → Option State
  | .deliver c =>
    if s.nmi c ∧ s.handler c = .idle then
      some { (s.advance c .sent .taken).setHandler c .entered with
        nmi := Function.update s.nmi c false }
    else none
  | .fetch c =>
    match s.handler c with
    | .entered =>
      some { s.setHandler c (.fetched (s.tlbop c)) with tlbop := Function.update s.tlbop c 0 }
    | _ => none
  | .flushNmi c =>
    match s.handler c with
    | .fetched tlbf => some ((s.flush c (flushOf tlbf)).setHandler c .flushed)
    | _ => none
  | .sub c =>
    match s.handler c with
    | .flushed =>
      some { (s.advance c .taken .idle).setHandler c .idle with tlbcnt := s.tlbcnt - 1 }
    | _ => none
  | _ => none

/-- A step.  An initiator does not go on while its CPU is in the handler. -/
def step (n : Nat) (s : State) (op : Op) : Option State :=
  match op with
  | .call a _ | .or a | .add a | .send a | .flush a | .leave a =>
    if s.handler a = .idle then s.flushTlbs n op else none
  | _ => s.onNmi op

end State

/-- A step of `n` CPUs. -/
def Step (n : Nat) (s : State) (op : Op) (s' : State) : Prop := s.step n op = some s'

end Mh.Tlb

/-!
## The life of a request

A request goes from one phase to the next with the steps of its initiator, up to the NMI,
and then with those of its target; at every point what it asks for is still in the
`tlbop` of the target, or in the hands of its handler, or has been flushed (`Life`).

`NmiSafe` is the condition that a CPU is not sent an NMI while it has one that it has not
taken.  Then each NMI answers one request, so `__tlbcnt` counts the requests (`Inv`).
-/

namespace Mh.Tlb

open Mh.Lib (tally tally_update tally_eq_zero)

/-! ## Flushes -/

theorem and_or_ne_zero {x y m : BitVec 32} (h : x &&& m ≠ 0) : (x ||| y) &&& m ≠ 0 := by
  intro h'
  rw [BitVec.and_or_distrib_right] at h'
  exact h (BitVec.or_eq_zero_iff.1 h').1

theorem flushOf_or_left (x y : BitVec 32) : flushOf x ≤ flushOf (x ||| y) := by
  unfold flushOf
  by_cases hg : x &&& tlbfGlobal ≠ 0
  · rw [if_pos hg, if_pos (and_or_ne_zero hg)]
  · rw [if_neg hg]
    by_cases hn : x &&& tlbfNormal ≠ 0
    · rw [if_pos hn]
      split
      · decide
      · rw [if_pos (and_or_ne_zero hn)]
    · rw [if_neg hn]
      exact bot_le

theorem flushOf_or_right (x y : BitVec 32) : flushOf y ≤ flushOf (x ||| y) := by
  rw [BitVec.or_comm]
  exact flushOf_or_left y x

/-! ## Where an initiator is -/

namespace Pc

/-- The call in progress. -/
def call : Pc → Option Call
  | .out => none
  | .loop call _ | .ored call _ _ | .added call _ _ | .waiting call => some call

/-- The CPUs that are still to be sent an NMI. -/
def rest : Pc → List Nat
  | .out | .waiting _ => []
  | .loop _ todo => todo
  | .ored _ i todo | .added _ i todo => i :: todo

/-- What an initiator has done about a CPU: nothing yet; the or; the increment; all. -/
inductive Stage
  | todo
  | ored
  | added
  | past
deriving DecidableEq, Repr

/-- What an initiator has done about a target. -/
def stage (c : Nat) : Pc → Stage
  | .out | .waiting _ => .past
  | .loop _ todo => if c ∈ todo then .todo else .past
  | .ored _ i todo => if c = i then .ored else if c ∈ todo then .todo else .past
  | .added _ i todo => if c = i then .added else if c ∈ todo then .todo else .past

end Pc

namespace Pc

variable {c i : Nat} {call : Call} {todo : List Nat}

theorem stage_head : stage i (.loop call (i :: todo)) = .todo := if_pos List.mem_cons_self

theorem stage_ored_self : stage i (.ored call i todo) = .ored := if_pos rfl

theorem stage_added_self : stage i (.added call i todo) = .added := if_pos rfl

theorem stage_ored (hc : c ≠ i) :
    stage c (.ored call i todo) = stage c (.loop call (i :: todo)) := by
  simp [stage, hc]

theorem stage_added (hc : c ≠ i) :
    stage c (.added call i todo) = stage c (.ored call i todo) := by
  simp [stage, hc]

theorem stage_loop (hc : c ≠ i) :
    stage c (.loop call todo) = stage c (.added call i todo) := by
  simp [stage, hc]

theorem stage_loop_self (hi : i ∉ todo) : stage i (.loop call todo) = .past := if_neg hi

end Pc

/-! ## Requests -/

/-- What is asked for is in `tlbop`, in the hands of the handler, or has been flushed. -/
def OnItsWay (w : Flush) (tlbop : BitVec 32) (h : Handler) (fl : Flush) : Prop :=
  w ≤ flushOf tlbop ∨ (∃ f, h = .fetched f ∧ w ≤ flushOf f) ∨ w ≤ fl

/-- The life of a request for `w`: what the initiator has done, how far the request has got,
and where what is asked for is. -/
inductive Life (w : Flush) (tlbop : BitVec 32) (nmi : Bool) (h : Handler) (fl : Flush) :
    Pc.Stage → Phase → Prop
  | todo : Life w tlbop nmi h fl .todo .idle
  | ored : OnItsWay w tlbop h fl → Life w tlbop nmi h fl .ored .idle
  | added : OnItsWay w tlbop h fl → Life w tlbop nmi h fl .added .counted
  | sent : nmi = true → OnItsWay w tlbop h fl → Life w tlbop nmi h fl .past .sent
  | entered : h = .entered → OnItsWay w tlbop h fl → Life w tlbop nmi h fl .past .taken
  | fetched {f : BitVec 32} : h = .fetched f → w ≤ flushOf f ∨ w ≤ fl →
      Life w tlbop nmi h fl .past .taken
  | flushed : h = .flushed → w ≤ fl → Life w tlbop nmi h fl .past .taken
  | served : w ≤ fl → Life w tlbop nmi h fl .past .idle

namespace Life

variable {w fl fl' : Flush} {t t' f : BitVec 32} {nmi nmi' : Bool} {h : Handler} {st : Pc.Stage}
  {r : Phase}

/-- More in `tlbop`, another NMI or another flush do no harm. -/
theorem mono (hl : Life w t nmi h fl st r) (ht : flushOf t ≤ flushOf t') (hf : fl ≤ fl')
    (hn : nmi = true → nmi' = true) : Life w t' nmi' h fl' st r := by
  have how : OnItsWay w t h fl → OnItsWay w t' h fl' :=
    Or.imp (le_trans · ht) (Or.imp_right (le_trans · hf))
  cases hl with
  | todo => exact .todo
  | ored ho => exact .ored (how ho)
  | added ho => exact .added (how ho)
  | sent hm ho => exact .sent (hn hm) (how ho)
  | entered he ho => exact .entered he (how ho)
  | fetched he ho => exact .fetched he (ho.imp_right (le_trans · hf))
  | flushed he ho => exact .flushed he (ho.trans hf)
  | served ho => exact .served (ho.trans hf)

/-- The initiator puts it into `tlbop`. -/
theorem or (hl : Life (flushOf f) t nmi h fl .todo r) :
    Life (flushOf f) (t ||| f) nmi h fl .ored r := by
  cases hl
  exact .ored (.inl (flushOf_or_right t f))

/-- The initiator counts it. -/
theorem add (hl : Life w t nmi h fl .ored r) : Life w t nmi h fl .added .counted := by
  cases hl with
  | ored ho => exact .added ho

/-- The initiator sends the NMI. -/
theorem send (hl : Life w t nmi h fl .added r) : Life w t true h fl .past .sent := by
  cases hl with
  | added ho => exact .sent rfl ho

/-- The target takes the NMI. -/
theorem deliver (hl : Life w t nmi .idle fl st r) :
    Life w t false .entered fl st (if r = .sent then .taken else r) := by
  have how : OnItsWay w t .idle fl → OnItsWay w t .entered fl := by
    rintro (ho | ⟨f, hf, -⟩ | ho)
    · exact .inl ho
    · cases hf
    · exact .inr (.inr ho)
  cases hl with
  | todo => exact .todo
  | ored ho => exact .ored (how ho)
  | added ho => exact .added (how ho)
  | sent _ ho => exact .entered rfl (how ho)
  | entered he _ => cases he
  | fetched he _ => cases he
  | flushed he _ => cases he
  | served ho => exact .served ho

/-- The handler takes what is in `tlbop`. -/
theorem fetch (hl : Life w t nmi .entered fl st r) : Life w 0 nmi (.fetched t) fl st r := by
  have how : OnItsWay w t .entered fl → w ≤ flushOf t ∨ w ≤ fl := by
    rintro (ho | ⟨f, hf, -⟩ | ho)
    · exact .inl ho
    · cases hf
    · exact .inr ho
  have how' : OnItsWay w t .entered fl → OnItsWay w 0 (.fetched t) fl :=
    fun ho ↦ .inr ((how ho).imp_left fun ho ↦ ⟨t, rfl, ho⟩)
  cases hl with
  | todo => exact .todo
  | ored ho => exact .ored (how' ho)
  | added ho => exact .added (how' ho)
  | sent hm ho => exact .sent hm (how' ho)
  | entered _ ho => exact .fetched rfl (how ho)
  | fetched he _ => cases he
  | flushed he _ => cases he
  | served ho => exact .served ho

/-- The handler flushes. -/
theorem flush (hl : Life w t nmi (.fetched f) fl st r) :
    Life w t nmi .flushed (fl ⊔ flushOf f) st r := by
  have hfl : w ≤ flushOf f ∨ w ≤ fl → w ≤ fl ⊔ flushOf f :=
    fun ho ↦ ho.elim le_sup_of_le_right le_sup_of_le_left
  have how : OnItsWay w t (.fetched f) fl → OnItsWay w t .flushed (fl ⊔ flushOf f) := by
    rintro (ho | ⟨g, hg, ho⟩ | ho)
    · exact .inl ho
    · cases hg
      exact .inr (.inr (hfl (.inl ho)))
    · exact .inr (.inr (hfl (.inr ho)))
  cases hl with
  | todo => exact .todo
  | ored ho => exact .ored (how ho)
  | added ho => exact .added (how ho)
  | sent hm ho => exact .sent hm (how ho)
  | entered he _ => cases he
  | fetched he ho =>
      cases he
      exact .flushed rfl (hfl ho)
  | flushed he _ => cases he
  | served ho => exact .served (hfl (.inr ho))

/-- The handler returns. -/
theorem sub (hl : Life w t nmi .flushed fl st r) :
    Life w t nmi .idle fl st (if r = .taken then .idle else r) := by
  have how : OnItsWay w t .flushed fl → OnItsWay w t .idle fl := by
    rintro (ho | ⟨f, hf, -⟩ | ho)
    · exact .inl ho
    · cases hf
    · exact .inr (.inr ho)
  cases hl with
  | todo => exact .todo
  | ored ho => exact .ored (how ho)
  | added ho => exact .added (how ho)
  | sent hm ho => exact .sent hm (how ho)
  | entered he _ => cases he
  | fetched he _ => cases he
  | flushed _ ho => exact .served ho
  | served ho => exact .served ho

end Life

end Mh.Tlb
