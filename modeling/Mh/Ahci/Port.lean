import Mh.Lib.Run
import Mathlib.Data.List.Nodup
import Mathlib.Data.List.FinRange

/-!
# The ports of the AHCI driver

`ahci_port_queue_op`, `ahci_port_issue_qop`, `ahci_port_get_slot` and `ahci_port_intr` of
`libahci/ahci.c`, with a controller that clears bits of `PxCI` when it pleases and sets `PxIS` as it
does so.

The two functions run on threads of `libmrg`, `ahci_port_intr` on the one that `evtast` makes, and
neither of them gives up the processor: what comes between the steps of one of them is the
controller only.  The controller and the driver share two registers, so a function is cut where it
reads or writes one of these.  `ahci_port_queue_op` is a step up to the read of `PxCI` in
`ci |= 1 << j` and a step for the write; `ahci_port_intr` is a step for `is = -1` and one for each
read of `PxCI`, with the round of its loop that follows.

A request carries a number, which the source does not have, and what is done with it is kept in
lists.  What a command looks like in memory is left out; of the pages that are exported for it,
`Mh.Ahci.Prdt` treats.
-/

namespace Mh.Ahci

open Lib

/-! ## Requests and ports -/

/-- `enum blk_op`. -/
inductive BlkOp
  | read
  | write
deriving DecidableEq, Repr

/-- What `ahci_port_queue_op` is called with, apart from the port. -/
structure Request where
  op : BlkOp
  data : Nat
  sz : Nat
  blkid : Nat
  nblks : Nat
  evt : Nat
  retp : Nat
deriving DecidableEq, Repr

/-- `struct blk_ahci_qop`.  The number and the port are not in the source: what it keeps of a
request does not say for which port it is. -/
structure Qop extends Request where
  id : Nat
  port : Fin 32
deriving DecidableEq, Repr

/-- `1 << j`. -/
def bit (j : Nat) : BitVec 32 := BitVec.twoPow 32 j

/-- The bits that are set, from the lowest. -/
def bits (x : BitVec 32) : List Nat := (List.range 32).filter x.getLsbD

/-- A port: `struct blk_ahci_port`, where `cmd j` is what `cmd_retp[j]`, `cmd_evt[j]`, `cmd_addr[j]`
and `cmd_sz[j]` were taken from, and the registers `PxCI`, `PxSACT` and `PxIS`, of which the last is
whether it is not zero. -/
structure Port where
  lastci : BitVec 32
  cmd : Nat → Qop
  ci : BitVec 32
  sact : BitVec 32
  is : Bool

/-- `ahci_port_get_slot`: `ffs32` of the slots that are neither in `lastci` nor in `PxSACT`. -/
def Port.getSlot (p : Port) : Option Nat :=
  (List.range 32).find? (~~~p.lastci &&& ~~~p.sact).getLsbD

/-- Where the driver stands. -/
inductive Pc
  | /-- In none of the functions. -/
    idle
  | /-- In `ahci_port_issue_qop` for slot `j` of port `i`, having read `v` from `PxCI`. -/
    writing (i : Fin 32) (j : Nat) (v : BitVec 32)
  | /-- In `ahci_port_intr` for port `i`, at a read of `PxCI`. -/
    reading (i : Fin 32)
deriving DecidableEq, Repr

/-- The state of a controller: its ports and `ioq`, and what happened. -/
structure State where
  port : Fin 32 → Port
  ioq : List Qop
  pc : Pc
  /-- The number of the next request. -/
  next : Nat
  /-- The requests that `ahci_port_queue_op` returned 0 for. -/
  accepted : List Qop
  /-- The requests that were given a slot, with the slot. -/
  used : List (Qop × Nat)
  /-- The commands that the controller was given, one for each time. -/
  issued : List Qop
  /-- The commands that it completed. -/
  completed : List Qop
  /-- The requests whose event was set, one for each time. -/
  evtset : List Qop
  /-- The requests whose result was stored, one for each time. -/
  result : List Qop

/-- A state with another port `i`. -/
def State.setPort (s : State) (i : Fin 32) (p : Port) : State :=
  { s with port := Function.update s.port i p }

/-! ## The functions -/

/-- `ahci_port_issue_qop`, when the pages can be exported, up to the read of `PxCI`. -/
def State.portIssueQop (s : State) (i : Fin 32) (j : Nat) (q : Qop) : State :=
  let p := s.port i
  { s.setPort i { p with lastci := p.lastci ||| bit j, cmd := Function.update p.cmd j q } with
    pc := .writing i j p.ci
    accepted := s.accepted ++ [q]
    used := s.used ++ [(q, j)] }

/-- The slot that `ahci_port_queue_op` takes: none while something is on `ioq`. -/
def State.freeSlot (s : State) (i : Fin 32) : Option Nat :=
  if s.ioq.isEmpty then (s.port i).getSlot else none

/-- `ahci_port_queue_op`, up to the read of `PxCI` if there is one.  `ok` is whether the pages could
be exported, or else whether `malloc` found room. -/
def State.portQueueOp (s : State) (i : Fin 32) (r : Request) (ok : Bool) : State :=
  let q : Qop := { r with id := s.next, port := i }
  let s' := { s with next := s.next + 1 }
  if ok then
    match s.freeSlot i with
    | some j => s'.portIssueQop i j q
    | none => { s' with ioq := s.ioq ++ [q], accepted := s.accepted ++ [q] }
  else s'

/-- The write of `PxCI` in `ahci_port_issue_qop`.  The controller takes every bit of what is written
that is not set in the register for a new command. -/
def State.portWriteCi (s : State) (i : Fin 32) (w : BitVec 32) : State :=
  let p := s.port i
  { s.setPort i { p with ci := p.ci ||| w } with
    pc := .idle
    issued := s.issued ++ (bits (w &&& ~~~p.ci)).map p.cmd }

/-- `ahci_port_intr` up to its first read of `PxCI`. -/
def State.portIntr (s : State) (i : Fin 32) : State :=
  { s.setPort i { s.port i with is := false } with pc := .reading i }

/-- A round of the loop in `ahci_port_intr`: for every slot in `done` the event is set and the
result is stored, and `lastci` becomes what was read. -/
def State.portReport (s : State) (i : Fin 32) (done : BitVec 32) : State :=
  let p := s.port i
  { s.setPort i { p with lastci := p.ci } with
    evtset := s.evtset ++ (bits done).map p.cmd
    result := s.result ++ (bits done).map p.cmd }

/-- A read of `PxCI` in `ahci_port_intr`, and the round of the loop that follows it. -/
def State.portRead (s : State) (i : Fin 32) : State :=
  let done := (s.port i).lastci &&& ~~~(s.port i).ci
  if done = 0 then { s with pc := .idle } else s.portReport i done

/-- The controller completes the command in slot `k`. -/
def State.portComplete (s : State) (i : Fin 32) (k : Nat) : State :=
  let p := s.port i
  { s.setPort i { p with ci := p.ci &&& ~~~bit k, is := true } with
    completed := s.completed ++ [p.cmd k] }

/-! ## Steps -/

/-- What happens. -/
inductive Label
  | /-- A call of `ahci_port_queue_op`. -/
    submit (i : Fin 32) (r : Request) (ok : Bool)
  | /-- It writes `PxCI`. -/
    write
  | /-- A call of `ahci_port_intr`. -/
    intr (i : Fin 32)
  | /-- It reads `PxCI`. -/
    read
  | /-- The controller completes the command in slot `k` of port `i`. -/
    hw (i : Fin 32) (k : Nat)
deriving DecidableEq, Repr

/-- Why a label cannot be performed. -/
inductive Fault
  | /-- The driver stands elsewhere. -/
    busy
  | /-- The slot has no command that runs. -/
    empty
deriving DecidableEq, Repr

/-- One step. -/
def State.exec (s : State) : Label → Except Fault State
  | .submit i r ok =>
      match s.pc with
      | .idle => .ok (s.portQueueOp i r ok)
      | _ => .error .busy
  | .write =>
      match s.pc with
      | .writing i j v => .ok (s.portWriteCi i (v ||| bit j))
      | _ => .error .busy
  | .intr i =>
      match s.pc with
      | .idle => .ok (s.portIntr i)
      | _ => .error .busy
  | .read =>
      match s.pc with
      | .reading i => .ok (s.portRead i)
      | _ => .error .busy
  | .hw i k => if (s.port i).ci.getLsbD k then .ok (s.portComplete i k) else .error .empty

/-- The step relation. -/
def Step (s : State) (a : Label) (t : State) : Prop := s.exec a = .ok t

/-- The steps are those of a function. -/
theorem deterministic_step : Run.Deterministic Step :=
  fun _ _ _ _ h h' ↦ Except.ok.inj (h.symm.trans h')

/-- A request whose fields are zero. -/
def zeroRequest : Request := ⟨.read, 0, 0, 0, 0, 0, 0⟩

/-- The controller after `ahci_port_init` has started its ports.  What `malloc` leaves in `cmd` is
taken to be zero: a slot is written before it is read. -/
def boot : State where
  port _ := { lastci := 0, cmd := fun _ ↦ ⟨zeroRequest, 0, 0⟩, ci := 0, sact := 0, is := false }
  ioq := []
  pc := .idle
  next := 0
  accepted := []
  used := []
  issued := []
  completed := []
  evtset := []
  result := []

/-! ## Bits -/

variable {x y : BitVec 32} {j k : Nat}

@[simp] theorem getLsbD_bit : (bit j).getLsbD k = (decide (j < 32) && decide (j = k)) := by
  simp [bit, BitVec.getLsbD_twoPow]

/-- The members of `bits`. -/
@[simp] theorem mem_bits : k ∈ bits x ↔ x.getLsbD k = true := by
  rw [bits, List.mem_filter, List.mem_range, and_iff_right_iff_imp]
  exact BitVec.lt_of_getLsbD

/-- `bits` lists a bit once. -/
theorem nodup_bits (x : BitVec 32) : (bits x).Nodup := List.nodup_range.filter _

/-- The bits of one register that another does not have. -/
@[simp] theorem getLsbD_and_not :
    (x &&& ~~~y).getLsbD k = (x.getLsbD k && !y.getLsbD k) := by
  rw [BitVec.getLsbD_and, BitVec.getLsbD_not]
  by_cases h : k < 32
  · simp [h]
  · simp [BitVec.getLsbD_of_ge x k (not_lt.1 h)]

/-- The slot that is found is not in `lastci`. -/
theorem Port.getSlot_some {p : Port} (h : p.getSlot = some j) :
    j < 32 ∧ p.lastci.getLsbD j = false := by
  have hmem := List.mem_of_find?_eq_some h
  have hfree := List.find?_some h
  rw [getLsbD_and_not, Bool.and_eq_true, BitVec.getLsbD_not] at hfree
  refine ⟨List.mem_range.1 hmem, ?_⟩
  have h := hfree.1
  rw [Bool.and_eq_true] at h
  simpa using h.2

/-! ## What the steps change of the ports -/

section Ports

variable {s : State} {i i' : Fin 32} {q : Qop} {w : BitVec 32}

/-- A field of a port of a state whose port `i` was replaced. -/
theorem State.setPort_apply {B : Type*} (f : Port → B) (s : State) (i i' : Fin 32) (p : Port) :
    f ((s.setPort i p).port i') = if i' = i then f p else f (s.port i') := by
  by_cases h : i' = i
  · subst h
    simp [State.setPort]
  · simp [State.setPort, h]

/-- A field that the replacement leaves as it was. -/
theorem State.setPort_same {B : Type*} (f : Port → B) {p : Port} (h : f p = f (s.port i)) :
    f ((s.setPort i p).port i') = f (s.port i') := by
  rw [State.setPort_apply f]
  by_cases hi : i' = i
  · rw [if_pos hi, h, hi]
  · rw [if_neg hi]

theorem portIssueQop_cmd : ((s.portIssueQop i j q).port i').cmd k =
    if i' = i ∧ k = j then q else (s.port i').cmd k := by
  refine (State.setPort_apply (Port.cmd · k) s i i' _).trans ?_
  by_cases hi : i' = i
  · subst hi
    simp [Function.update_apply]
  · simp [hi]

theorem portIssueQop_lastci (hj : j < 32) : ((s.portIssueQop i j q).port i').lastci.getLsbD k =
    ((s.port i').lastci.getLsbD k || decide (i' = i ∧ k = j)) := by
  refine (State.setPort_apply (Port.lastci · |>.getLsbD k) s i i' _).trans ?_
  by_cases hi : i' = i
  · subst hi
    simp [hj, eq_comm]
  · simp [hi]

@[simp] theorem portIssueQop_ci : ((s.portIssueQop i j q).port i').ci = (s.port i').ci :=
  State.setPort_same Port.ci rfl

@[simp] theorem portIssueQop_is : ((s.portIssueQop i j q).port i').is = (s.port i').is :=
  State.setPort_same Port.is rfl

@[simp] theorem portWriteCi_cmd : ((s.portWriteCi i w).port i').cmd = (s.port i').cmd :=
  State.setPort_same Port.cmd rfl

@[simp] theorem portWriteCi_lastci :
    ((s.portWriteCi i w).port i').lastci = (s.port i').lastci :=
  State.setPort_same Port.lastci rfl

@[simp] theorem portWriteCi_is : ((s.portWriteCi i w).port i').is = (s.port i').is :=
  State.setPort_same Port.is rfl

theorem portWriteCi_ci : ((s.portWriteCi i w).port i').ci.getLsbD k =
    ((s.port i').ci.getLsbD k || (decide (i' = i) && w.getLsbD k)) := by
  refine (State.setPort_apply (Port.ci · |>.getLsbD k) s i i' _).trans ?_
  by_cases hi : i' = i <;> simp [hi]

@[simp] theorem portIntr_cmd : ((s.portIntr i).port i').cmd = (s.port i').cmd :=
  State.setPort_same Port.cmd rfl

@[simp] theorem portIntr_lastci : ((s.portIntr i).port i').lastci = (s.port i').lastci :=
  State.setPort_same Port.lastci rfl

@[simp] theorem portIntr_ci : ((s.portIntr i).port i').ci = (s.port i').ci :=
  State.setPort_same Port.ci rfl

theorem portIntr_is : ((s.portIntr i).port i').is = (!decide (i' = i) && (s.port i').is) := by
  refine (State.setPort_apply Port.is s i i' _).trans ?_
  by_cases hi : i' = i <;> simp [hi]

@[simp] theorem portReport_cmd : ((s.portReport i w).port i').cmd = (s.port i').cmd :=
  State.setPort_same Port.cmd rfl

@[simp] theorem portReport_ci : ((s.portReport i w).port i').ci = (s.port i').ci :=
  State.setPort_same Port.ci rfl

@[simp] theorem portReport_is : ((s.portReport i w).port i').is = (s.port i').is :=
  State.setPort_same Port.is rfl

theorem portReport_lastci : ((s.portReport i w).port i').lastci =
    if i' = i then (s.port i).ci else (s.port i').lastci :=
  State.setPort_apply Port.lastci s i i' _

@[simp] theorem portComplete_cmd : ((s.portComplete i j).port i').cmd = (s.port i').cmd :=
  State.setPort_same Port.cmd rfl

@[simp] theorem portComplete_lastci :
    ((s.portComplete i j).port i').lastci = (s.port i').lastci :=
  State.setPort_same Port.lastci rfl

theorem portComplete_is : ((s.portComplete i j).port i').is =
    (decide (i' = i) || (s.port i').is) := by
  refine (State.setPort_apply Port.is s i i' _).trans ?_
  by_cases hi : i' = i <;> simp [hi]

theorem portComplete_ci : ((s.portComplete i j).port i').ci.getLsbD k =
    ((s.port i').ci.getLsbD k && !decide (i' = i ∧ k = j)) := by
  refine (State.setPort_apply (Port.ci · |>.getLsbD k) s i i' _).trans ?_
  by_cases hi : i' = i
  · subst hi
    by_cases hk : k < 32
    · simp only [if_true, getLsbD_and_not, getLsbD_bit, true_and]
      by_cases hkj : k = j
      · simp [hkj, hkj ▸ hk]
      · simp [hkj, Ne.symm hkj]
    · simp [BitVec.getLsbD_of_ge _ k (not_lt.1 hk)]
  · simp [hi]

end Ports

end Mh.Ahci
