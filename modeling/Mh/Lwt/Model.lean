import Mh.Lib.Run
import Mh.Lib.Simpleq
import Mathlib.Data.BitVec

/-!
# Light-weight threads and events of libmrg

`lwt.c`, `evt.c` and `mrg_preempt.h`: the LWTs of one process, the queue of those that are
to run, and the events they wait for.

A function runs with interrupts off from its `preempt_disable` to its `preempt_enable`,
and the step for it is this section.  What comes outside is a step of its own: the jump of
`_lwt_switch` (`lwtSwitch`), the end of `sys_wait` in `lwt_sleep` and `lwt_exit`
(`lwtRetry`), and what `evtwait` does when it runs again (`evtwaitEnd`).  Between any two
steps, if interrupts are on, an interrupt handler can run; it calls the functions that a
handler may call (`Act`).

LWTs are numbered in the order they are created, the main one being 0; a null `lwt_t *`
is `none`.  Two things are recorded that the code does not keep: where the code of an LWT
goes on when it runs next (`Pos`), which is the content of its jump buffer, and whether a
wake has been aimed at it since it last started running (`woken`).
-/

namespace Mh.Lwt

open Mh.Lib (Simpleq)

/-- Where an LWT goes on: at its start; in its own code; in `evtwait evt`, past
`lwt_sleep`; or at its start, created by `evtast evt` and never run. -/
inductive Pos
  | start
  | code
  | evtwait (evt : Nat)
  | ast (evt : Nat)
deriving DecidableEq, Repr

/-- Where an LWT is once it runs. -/
def Pos.run : Pos → Pos
  | .evtwait evt => .evtwait evt
  | _ => .code

/-- What the current LWT is doing: running; in the `sys_wait` of `lwt_sleep` or (with
`save` false) of `lwt_exit`; or about to jump to another. -/
inductive Cpu
  | running
  | waiting (save : Bool)
  | switching (new : Nat) (save : Bool)
deriving DecidableEq, Repr

/-- Why a step is not taken: the process is elsewhere, or interrupts are off; an assertion
fails; a null or wild pointer is followed. -/
inductive Fault
  | disabled
  | assertion
  | pointer
deriving DecidableEq, Repr

/-- The variables of `lwt.c`, `evt.c` and `int.c`, and the `THFL_INTR` flag of the
process.  `active` is `LWTF_ACTIVE`. -/
structure State where
  queue : Simpleq Nat
  active : Nat → Bool
  current : Nat
  lwts : Nat
  pos : Nat → Pos
  woken : Nat → Bool
  cpu : Cpu
  level : Nat
  intr : Bool
  allocEvts : Nat → BitVec 64
  setEvts : Nat → BitVec 64
  waitEvts : Nat → Option Nat

/-- The main LWT runs, interrupts have never been on, and no event is allocated. -/
def State.boot : State where
  queue := .empty
  active := fun _ ↦ false
  current := 0
  lwts := 1
  pos := Function.update (fun _ ↦ .start) 0 .code
  woken := fun _ ↦ false
  cpu := .running
  level := 0
  intr := false
  allocEvts := fun _ ↦ 0
  setEvts := fun _ ↦ 0
  waitEvts := fun _ ↦ none

/-- `MAXEVTQWORD`. -/
def maxEvtQword : Nat := 3

/-- `MAXEVT`. -/
def maxEvt : Nat := 64 * maxEvtQword

namespace State

/-! ## Preemption -/

/-- `preempt_disable`. -/
def preemptDisable (s : State) : State := { s with intr := false, level := s.level + 1 }

/-- `preempt_enable`. -/
def preemptEnable (s : State) : Except Fault State :=
  if s.level = 0 then .error .assertion
  else .ok { s with level := s.level - 1, intr := s.intr || s.level - 1 == 0 }

/-- `preempt_restore`. -/
def preemptRestore (s : State) : State := { s with intr := s.level == 0 }

/-! ## The queue -/

/-- Put an LWT at the end of the queue and set its flag, as `lwt_pause` and `lwt_yield` do
without testing it. -/
def insert (s : State) (l : Nat) : State :=
  { s with queue := s.queue.insertTail l, active := Function.update s.active l true }

/-- Take the head `new` off the queue and clear its flag. -/
def dequeue (s : State) (new : Nat) : State :=
  { s with queue := s.queue.removeHead, active := Function.update s.active new false }

/-- `__lwt_wake`. -/
def lwtWakeIntr (s : State) (l : Nat) : State :=
  let s := { s with woken := Function.update s.woken l true }
  if s.active l then s else s.insert l

/-- `lwt_wake`. -/
def lwtWake (s : State) (l : Nat) : Except Fault State :=
  if l = s.current then .error .assertion else (s.preemptDisable.lwtWakeIntr l).preemptEnable

/-- Give the CPU to the head of the queue, which may be the LWT itself. -/
def giveWay (s : State) : Except Fault State :=
  match s.queue.first with
  | none => .error .pointer
  | some new => do
    let s ← (s.dequeue new).preemptEnable
    return if s.current = new then s else { s with cpu := .switching new true }

/-- `lwt_yield`, up to the jump. -/
def lwtYield (s : State) : Except Fault State := (s.preemptDisable.insert s.current).giveWay

/-- `lwt_pause`, up to the jump.  Where `lwt_yield` returns at once it calls `sys_yield`,
which only gives the processor away. -/
def lwtPause (s : State) : Except Fault State := s.lwtYield

/-- The loop of `lwt_sleep` and `lwt_exit`: with nobody to run, wait for an interrupt. -/
def next (s : State) (save : Bool) : Except Fault State :=
  match s.queue.first with
  | none => .ok { s with intr := true, cpu := .waiting save }
  | some new => do
    let s ← (s.dequeue new).preemptEnable
    return { s with cpu := .switching new save }

/-- Clear the flag of the current LWT, as `lwt_sleep` and `lwt_exit` do. -/
def deactivate (s : State) : State :=
  { s with active := Function.update s.active s.current false }

/-- `lwt_sleep`, up to the jump or to `sys_wait`. -/
def lwtSleep (s : State) : Except Fault State := s.preemptDisable.deactivate.next true

/-- `lwt_exit`, up to the jump or to `sys_wait`. -/
def lwtExit (s : State) : Except Fault State := s.preemptDisable.deactivate.next false

/-- Back from `sys_wait`: try again. -/
def lwtRetry (s : State) (save : Bool) : Except Fault State := s.preemptRestore.next save

/-- `_lwt_switch`, and before it the `lwt_makebuf` of `lwt_exit`. -/
def lwtSwitch (s : State) (new : Nat) (save : Bool) : State :=
  let pos := if save then s.pos else Function.update s.pos s.current .start
  { s with
    current := new
    woken := Function.update s.woken new false
    pos := Function.update pos new (pos new).run
    cpu := .running }

/-- `lwt_create_priv`, when there is memory. -/
def lwtCreate (s : State) : State :=
  { s with
    lwts := s.lwts + 1
    active := Function.update s.active s.lwts false
    pos := Function.update s.pos s.lwts .start }

/-! ## Events -/

end State

/-- `ffs64`: the number of the lowest bit that is set, counted from 1. -/
def ffs64 (w : BitVec 64) : Nat := (((List.range 64).find? fun r ↦ w.getLsbD r).map (· + 1)).getD 0

/-- Set bit `r` of a word. -/
def setBit (w : BitVec 64) (r : Nat) : BitVec 64 := w ||| (1#64 <<< r)

/-- Clear bit `r` of a word. -/
def clearBit (w : BitVec 64) (r : Nat) : BitVec 64 := w &&& ~~~(1#64 <<< r)

/-- `~(1 << j)` as `evtfree` computes it and makes 64 bits of it: in an `int`, of which the
shift counts modulo 32. -/
def freeMask (j : Nat) : BitVec 64 := (~~~(1#32 <<< (j % 32))).signExtend 64

namespace State

/-- `evtfree`. -/
def evtfree (s : State) (evt : Nat) : Except Fault State :=
  if evt < maxEvt then
    let s := s.preemptDisable
    { s with allocEvts := Function.update s.allocEvts (evt / 64)
              (s.allocEvts (evt / 64) &&& freeMask (evt % 64)) }.preemptEnable
  else .error .pointer

/-- The word and the bit that `evtalloc` takes. -/
def freeSlot (s : State) : Option (Nat × Nat) :=
  ((List.range maxEvtQword).find? fun i ↦ s.allocEvts i ≠ ~~~0#64).map fun i ↦
    (i, ffs64 (~~~s.allocEvts i) - 1)

/-- `evtalloc`: the event, and the state. -/
def evtalloc (s : State) : Except Fault (Nat × State) :=
  match s.freeSlot with
  | none => .error .assertion
  | some (i, evt) => do
    let s := s.preemptDisable
    let s ← { s with
      allocEvts := Function.update s.allocEvts i (setBit (s.allocEvts i) evt)
      setEvts := Function.update s.setEvts i (clearBit (s.setEvts i) evt)
      waitEvts := Function.update s.waitEvts evt none }.preemptEnable
    return (evt + i * 64, s)

/-- Is the event set? -/
def evtIsSet (s : State) (evt : Nat) : Bool := (s.setEvts (evt / 64)).getLsbD (evt % 64)

/-- `__evtset`. -/
def evtsetIntr (s : State) (evt : Nat) : Except Fault State :=
  if evt < maxEvt then
    let s := { s with setEvts := Function.update s.setEvts (evt / 64)
                        (setBit (s.setEvts (evt / 64)) (evt % 64)) }
    match s.waitEvts evt with
    | none => .ok s
    | some l => .ok (s.lwtWakeIntr l)
  else .error .assertion

/-- `evtset`. -/
def evtset (s : State) (evt : Nat) : Except Fault State := do
  (← s.preemptDisable.evtsetIntr evt).preemptEnable

/-- `evtclear`. -/
def evtclear (s : State) (evt : Nat) : Except Fault State :=
  if evt < maxEvt then
    let s := s.preemptDisable
    { s with setEvts := Function.update s.setEvts (evt / 64)
              (clearBit (s.setEvts (evt / 64)) (evt % 64)) }.preemptEnable
  else .error .assertion

/-- `evtwait`, up to the jump or to the `sys_wait` of `lwt_sleep`. -/
def evtwait (s : State) (evt : Nat) : Except Fault State :=
  if evt < maxEvt then
    let s := s.preemptDisable
    if s.evtIsSet evt then s.preemptEnable
    else if s.waitEvts evt = none then
      { s with
        waitEvts := Function.update s.waitEvts evt (some s.current)
        pos := Function.update s.pos s.current (.evtwait evt) }.lwtSleep
    else .error .assertion
  else .error .assertion

/-- `evtwait`, after `lwt_sleep` has returned. -/
def evtwaitEnd (s : State) (evt : Nat) : Except Fault State :=
  { s with
    waitEvts := Function.update s.waitEvts evt none
    pos := Function.update s.pos s.current .code }.preemptEnable

/-- `evtast`; `mem` tells whether `lwt_create` finds memory.  When the event is set already
there is no `preempt_enable`. -/
def evtast (s : State) (evt : Nat) (mem : Bool) : Except Fault State :=
  if evt < maxEvt then
    let lwt := if mem then some s.lwts else none
    let s := (if mem then s.lwtCreate else s).preemptDisable
    if s.waitEvts evt = none then
      let s := { s with waitEvts := Function.update s.waitEvts evt lwt }
      match lwt with
      | some l =>
        let s := { s with pos := Function.update s.pos l (.ast evt) }
        if s.evtIsSet evt then .ok (s.lwtWakeIntr l) else s.preemptEnable
      | none => if s.evtIsSet evt then .error .pointer else s.preemptEnable
    else .error .assertion
  else .error .assertion

end State

/-! ## Steps -/

/-- What an LWT and an interrupt handler can both call. -/
inductive Act
  | lwtWakeIntr (l : Nat)
  | evtsetIntr (evt : Nat)
  | evtset (evt : Nat)
  | evtclear (evt : Nat)
  | evtalloc
  | evtfree (evt : Nat)
deriving DecidableEq, Repr

/-- What comes next: a call by the current LWT, the rest of one, or an interrupt. -/
inductive Op
  | act (a : Act)
  | create
  | lwtWake (l : Nat)
  | lwtPause
  | lwtYield
  | lwtSleep
  | lwtExit
  | evtwait (evt : Nat)
  | evtast (evt : Nat) (mem : Bool)
  | disable
  | enable
  | evtwaitEnd
  | retry
  | switch
  | intr (a : Act)
deriving DecidableEq, Repr

namespace State

/-- A call: `__lwt_wake` of an LWT that exists, or one of the functions on events. -/
def act (s : State) : Act → Except Fault State
  | .lwtWakeIntr l => if l < s.lwts then .ok (s.lwtWakeIntr l) else .error .pointer
  | .evtsetIntr evt => s.evtsetIntr evt
  | .evtset evt => s.evtset evt
  | .evtclear evt => s.evtclear evt
  | .evtalloc => s.evtalloc >>= fun r ↦ .ok r.2
  | .evtfree evt => s.evtfree evt

/-- A call by the code of the current LWT. -/
def call (s : State) : Op → Except Fault State
  | .act a => s.act a
  | .create => .ok s.lwtCreate
  | .lwtWake l => if l < s.lwts then s.lwtWake l else .error .pointer
  | .lwtPause => s.lwtPause
  | .lwtYield => s.lwtYield
  | .lwtSleep => s.lwtSleep
  | .lwtExit => s.lwtExit
  | .evtwait evt => s.evtwait evt
  | .evtast evt mem => s.evtast evt mem
  | .disable => .ok s.preemptDisable
  | .enable => s.preemptEnable
  | _ => .error .disabled

/-- The rest of a call that has been begun: of a `waiting` or `switching` one, or of
`evtwait`. -/
def resume (s : State) : Op → Except Fault State
  | .retry =>
    match s.cpu with
    | .waiting save => s.lwtRetry save
    | _ => .error .disabled
  | .switch =>
    match s.cpu with
    | .switching new save => .ok (s.lwtSwitch new save)
    | _ => .error .disabled
  | .evtwaitEnd =>
    match s.cpu, s.pos s.current with
    | .running, .evtwait evt => s.evtwaitEnd evt
    | _, _ => .error .disabled
  | _ => .error .disabled

/-- An interrupt handler runs with interrupts off, and they are on again after it. -/
def handle (s : State) (a : Act) : Except Fault State :=
  if s.intr then do
    let s ← { s with intr := false }.act a
    return { s with intr := true }
  else .error .disabled

/-- A step. -/
def step (s : State) : Op → Except Fault State
  | .intr a => s.handle a
  | .retry => s.resume .retry
  | .switch => s.resume .switch
  | .evtwaitEnd => s.resume .evtwaitEnd
  | op => if s.cpu = .running ∧ s.pos s.current = .code then s.call op else .error .disabled

end State

/-- A step that is taken. -/
def Step (s : State) (op : Op) (s' : State) : Prop := s.step op = .ok s'

end Mh.Lwt
