import Mh.Lib.Digits
import Mh.Lib.Run
import Mh.Param
import Mathlib.Order.CompletePartialOrder

/-!
# Signals to a thread

The kernel delivers an exception or an external interrupt to a thread by a frame that it writes
on the signal stack of the thread (`usrframe_signal` of `i386/src/machdep.c`, called by `thintr`
and `thextintr` of `src/kern.c`).  The thread goes on in `__inthdlr` of `libuk/i386/xcpt.S`, which
saves the registers next to the frame, calls `_libuk_signal_handler` and asks the kernel, by
`SYS_IRET`, to resume what was interrupted (`usrframe_iret`).

A step of the machine is an instruction of `__inthdlr`, a step of other code of the thread, a
system call, or a delivery.  A delivery may come between any two instructions: an external
interrupt when `THFL_INTR` is set, an exception at any time.
-/

namespace Mh.Signal

open Mh.Lib.Bytes

/-- A word of the machine. -/
abbrev Word := BitVec 32

/-! ## Registers -/

/-- The registers of a thread, without its instruction and stack pointers. -/
inductive Reg
  | eax | ecx | edx | ebx | esi | edi | ebp | eflags | gs | fs | es | ds
deriving DecidableEq, Repr

/-- The bytes of a register. -/
def Reg.width : Reg → Nat
  | .gs | .fs | .es | .ds => 2
  | _ => 4

/-- What the kernel keeps of a thread when it is entered: `struct usrframe`. -/
structure UsrFrame where
  eip : Word
  esp : Word
  reg : (r : Reg) → BitVec (8 * r.width)

/-- The frame pointer. -/
def UsrFrame.ebp (f : UsrFrame) : Word := f.reg .ebp

/-- Write a register. -/
def UsrFrame.set (f : UsrFrame) (r : Reg) (v : BitVec (8 * r.width)) : UsrFrame :=
  { f with reg := Function.update f.reg r v }

/-! ## The stub -/

/-- The instructions of `__inthdlr`: `push`, `pushfl` and `pushw` of a register, and the
corresponding `pop`; `mov %esp, %ebp`; `push %esp`; `pushl n(%ebp)`; the call of the handler;
`add $n, %esp`; `mov $n, %eax`; `int $VECT_SYSC`. -/
inductive Insn
  | push (r : Reg)
  | pop (r : Reg)
  | movEbp
  | pushEsp
  | pushArg (n : Nat)
  | call
  | add (n : Nat)
  | movEax (n : Nat)
  | int
deriving DecidableEq, Repr

/-- `SYS_IRET`. -/
def sysIret : Nat := 2

/-- `__inthdlr`. -/
def inthdlr : List Insn :=
  [.push .ebp, .movEbp,
    .push .eflags, .push .eax, .push .ecx, .push .edx, .push .ebx, .push .esi, .push .edi,
    .push .gs, .push .fs, .push .es, .push .ds,
    .pushEsp, .pushArg 12, .pushArg 8, .pushArg 4, .call, .add 16,
    .pop .ds, .pop .es, .pop .fs, .pop .gs,
    .pop .edi, .pop .esi, .pop .ebx, .pop .edx, .pop .ecx, .pop .eax, .pop .eflags, .pop .ebp,
    .add 12, .push .eax, .movEax sysIret, .int]

/-- The bytes of the code of an instruction. -/
def Insn.len : Insn → Nat
  | .push .gs | .push .fs | .pop .gs | .pop .fs => 3
  | .push .es | .push .ds | .pop .es | .pop .ds => 2
  | .push _ | .pop _ | .pushEsp => 1
  | .movEbp | .int => 2
  | .pushArg _ | .add _ => 3
  | .call | .movEax _ => 5

/-- Where an instruction is in the stub. -/
def offset (k : Nat) : Nat := ((inthdlr.take k).map Insn.len).sum

/-- The instruction at a place in the stub. -/
def index (o : Nat) : Option Nat := (List.range inthdlr.length).find? fun k ↦ offset k = o

/-- A program that is linked with the stub: where the stub and `_libuk_signal_handler` are.
`addl` are the flags that an addition leaves. -/
structure Image where
  inthdlr : Word
  handler : Word
  apart : index (handler - inthdlr).toNat = none
  addl : Word → Word → Word → Word

/-- The address of an instruction. -/
def Image.pc (im : Image) (k : Nat) : Word := im.inthdlr + .ofNat 32 (offset k)

/-- The instruction of the stub that is at an address. -/
def Image.at (im : Image) (a : Word) : Option Nat := index (a - im.inthdlr).toNat

/-- Push bytes. -/
def UsrFrame.push (f : UsrFrame) (m : Mem) {n : Nat} (v : BitVec (8 * n)) : UsrFrame × Mem :=
  let esp := f.esp - BitVec.ofNat 32 n
  ({ f with esp := esp }, store m esp.toNat v)

/-- An instruction that does not enter the kernel. -/
def Insn.exec (im : Image) (i : Insn) (f : UsrFrame) (m : Mem) : UsrFrame × Mem :=
  let f : UsrFrame := { f with eip := f.eip + BitVec.ofNat 32 i.len }
  match i with
  | .push r => f.push m (f.reg r)
  | .pop r =>
      ({ f with esp := f.esp + BitVec.ofNat 32 r.width }.set r (load m f.esp.toNat r.width), m)
  | .movEbp => (f.set .ebp f.esp, m)
  | .pushEsp => f.push (n := 4) m f.esp
  | .pushArg n => f.push m (load m (f.ebp + BitVec.ofNat 32 n).toNat 4)
  | .call =>
      let (f, m) := f.push (n := 4) m f.eip
      ({ f with eip := im.handler }, m)
  | .add n =>
      ({ f with esp := f.esp + BitVec.ofNat 32 n }.set .eflags
        (im.addl (f.reg .eflags) f.esp (.ofNat 32 n)), m)
  | .movEax n => (f.set .eax (.ofNat 32 n), m)
  | .int => (f, m)

/-! ## The kernel -/

/-- The thread is ended: it has no handler, or its stack cannot be written or read. -/
inductive Death
  | noHandler | badStack
deriving DecidableEq, Repr

/-- `THFL_INTR`. -/
def thflIntr : Word := 1

/-- What a thread was in when a signal was delivered to it, and the top of the stack that was used
for the signal. -/
structure Delivery where
  frame : UsrFrame
  userfl : Word
  sp : Word
  mem : Mem

/-- A thread: its registers and memory, the part of it that the kernel can write, its signal
handler and stack, and its flags; and the deliveries whose handlers have not returned. -/
structure State where
  frame : UsrFrame
  mem : Mem
  mapped : Nat → Bool
  sigip : Word
  sigsp : Word
  userfl : Word
  live : List Delivery

/-- `copy_from_user` and `copy_to_user` succeed. -/
def State.usrcpy (s : State) (a n : Nat) : Bool :=
  chkuaddr a n && (List.range n).all fun i ↦ s.mapped (a + i)

/-- `usrframe_signal`, called by `thintr` and `thextintr`. -/
def State.signal (s : State) (vect va err : Word) : Except Death State :=
  let usp := s.sigsp - 24
  if s.sigip = 0 ∨ s.sigsp = 0 then .error .noHandler
  else if s.usrcpy usp.toNat 24 then
    .ok { s with
      frame := { s.frame with esp := usp, eip := s.sigip }
      mem := storeWords s.mem usp.toNat [vect, va, err, s.frame.eip, s.frame.esp, s.userfl]
      userfl := s.userfl &&& ~~~thflIntr
      live := ⟨s.frame, s.userfl, s.sigsp, s.mem⟩ :: s.live }
  else .error .badStack

/-- `usrframe_iret`, and the `eax` that `syscall_entry` leaves. -/
def State.iret (s : State) : Except Death State :=
  let a := s.frame.esp.toNat
  if s.usrcpy a 16 then
    .ok { s with
      frame := { s.frame.set .eax (load s.mem a Reg.eax.width) with
        eip := load s.mem (a + 4) 4
        esp := load s.mem (a + 8) 4 }
      userfl := load s.mem (a + 12) 4
      live := s.live.tail }
  else .error .badStack

/-! ## The thread -/

/-- The steps: the thread executes code outside of `__inthdlr`, an instruction of `__inthdlr`, or
one of the system calls `SYS_INTHDLR`, `SYS_STI`, `SYS_CLI` and `SYS_IRET`; the kernel delivers a
signal, an external one or an exception. -/
inductive Op
  | user (frame : UsrFrame) (mem : Mem) (mapped : Nat → Bool)
  | insn
  | sysInthdlr (sp : Word)
  | sysSti
  | sysCli
  | sysIret
  | signal (ext : Bool) (vect va err : Word)

/-- The stack that the interrupted handlers use, and the one that runs. -/
def inUse (f : UsrFrame) : List Delivery → Set Nat
  | [] => ∅
  | d :: ds => {x | f.esp.toNat ≤ x ∧ x < d.sp.toNat} ∪ inUse d.frame ds

section Step

variable (im : Image)

/-- The handler that runs stays on its stack, below what `__inthdlr` has saved there, and returns
to `__inthdlr`; it does not write what `__inthdlr` has saved, nor the stack that an interrupted
handler uses.  Code that is no handler is free. -/
def UserOk (s : State) (f : UsrFrame) (m : Mem) : Prop :=
  match s.live with
  | [] => im.at f.eip = none
  | d :: ds =>
      (im.at f.eip = none ∧ f.esp.toNat + 84 ≤ d.sp.toNat ∨
        f.eip = im.pc 18 ∧ f.esp.toNat + 80 = d.sp.toNat) ∧
      (∀ x, d.sp.toNat ≤ x + 64 → x < d.sp.toNat → m x = s.mem x) ∧
      ∀ x ∈ inUse d.frame ds, m x = s.mem x

/-- What can happen next. -/
def Allowed (s : State) : Op → Prop
  | .user f m _ => im.at s.frame.eip = none ∧ UserOk im s f m
  | .insn => ∃ k i, im.at s.frame.eip = some k ∧ inthdlr[k]? = some i ∧ i ≠ .int
  | .sysInthdlr _ => im.at s.frame.eip = none
  | .sysSti => im.at s.frame.eip = none
  | .sysCli => im.at s.frame.eip = none
  | .sysIret => ∃ k, im.at s.frame.eip = some k ∧ inthdlr[k]? = some .int
  | .signal ext _ _ _ => ext = true → s.userfl &&& thflIntr ≠ 0

/-- The instruction at `eip`. -/
def State.insn (s : State) : State :=
  match (im.at s.frame.eip).bind (inthdlr[·]?) with
  | none => s
  | some i =>
      let (f, m) := i.exec im s.frame s.mem
      { s with frame := f, mem := m }

/-- One step. -/
def exec (s : State) : Op → Except Death State
  | .user f m mapped => .ok { s with frame := f, mem := m, mapped := mapped }
  | .insn => .ok (s.insn im)
  | .sysInthdlr sp =>
      if chkuaddr im.inthdlr.toNat 4 && chkuaddr sp.toNat 24 then
        .ok { s with frame := s.frame.set .eax 0, sigip := im.inthdlr, sigsp := sp }
      else .ok { s with frame := s.frame.set .eax (.ofInt 32 Errno.EACCES.neg) }
  | .sysSti => .ok { s with frame := s.frame.set .eax 0, userfl := s.userfl ||| thflIntr }
  | .sysCli => .ok { s with frame := s.frame.set .eax 0, userfl := s.userfl &&& ~~~thflIntr }
  | .sysIret => s.iret
  | .signal _ vect va err => s.signal vect va err

/-- A step that the thread survives. -/
def Step (s : State) (op : Op) (s' : State) : Prop := Allowed im s op ∧ exec im s op = .ok s'

end Step

/-! ## What is asked -/

/-- What was interrupted goes on: with the registers that it had, except for the flags of the
processor, and with the stack that handlers use as it was. -/
structure Resumed (d : Delivery) (s : State) : Prop where
  eip : s.frame.eip = d.frame.eip
  esp : s.frame.esp = d.frame.esp
  userfl : s.userfl = d.userfl
  reg : ∀ r, r ≠ .eflags → s.frame.reg r = d.frame.reg r
  mem : ∀ x ∈ inUse d.frame s.live, s.mem x = d.mem x

end Mh.Signal
