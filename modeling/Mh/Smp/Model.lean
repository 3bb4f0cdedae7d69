import Mh.Sched.Model

/-!
# The scheduler on many CPUs

`schedule`, `thraise` and `wake` in the steps that other CPUs can come between.  A CPU is
a place in this code (`Pc`) and the thread on whose kernel stack it is: inside `schedule`
that is the old thread, until the jump to the new one.  Everything done under
`sched_lock` is one step; so are the or into `softintrs`, the test for pending signals,
the store of the new status and the jump.

The kernel runs with interrupts off, so the interrupt that `wake` sends to the CPU of a
running thread does nothing before that CPU has left `schedule`.

There are as many CPUs as one likes, numbered from 0: those beyond the machine's take no
steps.  Each has its own idle thread; the others are numbered in the order of `thfork`.
-/

namespace Mh.Smp

open Mh.Sched (Status)

/-- A thread: the idle thread of a CPU, or a process. -/
inductive Tid
  | idle (cpu : Nat)
  | proc (n : Nat)
deriving DecidableEq, Repr

/-- `struct thread`: what `schedule` and `wake` use of it. -/
structure Thread where
  status : Status
  intr : Bool
  softintrs : BitVec 32
deriving DecidableEq, Repr

/-- `thread_has_interrupts`. -/
def Thread.hasInterrupts (th : Thread) : Bool := th.intr && th.softintrs ≠ 0

/-- Where a CPU is: outside these functions, in `thraise` before `wake`, or in `schedule`:
past the test for pending signals, with the context saved, with the next thread taken,
with the status of the old thread stored, or before the jump. -/
inductive Pc
  | run
  | raised (t : Tid)
  | entered (newst : Status)
  | saved (newst : Status)
  | picked (newst : Status) (th : Tid)
  | stored (newst : Status) (th : Tid)
  | leaving (th : Tid)
deriving DecidableEq, Repr

/-- A CPU: the thread on whose kernel stack it is, and where it is. -/
structure Cpu where
  stack : Tid
  pc : Pc
deriving DecidableEq, Repr

/-- The threads, the queues and the CPUs. -/
structure State where
  thread : Tid → Thread
  next : Nat
  running : List Tid
  stopped : List Tid
  resched : Nat → List Tid
  cpu : Nat → Cpu

/-- What a CPU can do next: leave or enter user mode with `THFL_INTR` set or clear,
deliver the pending signals, fork, and the steps of `thraise` and of `schedule`. -/
inductive Act
  | intr (b : Bool)
  | deliver
  | fork
  | raise (n vect : Nat)
  | wake
  | enter (newst : Status)
  | save
  | pick
  | store
  | insert
  | leave
deriving DecidableEq, Repr

/-- Why a step is not taken: the CPU is elsewhere; or `wake` would take a thread off
`stopped_threads` that is not on it. -/
inductive Fault
  | disabled
  | unlinked
deriving DecidableEq, Repr

namespace State

/-- Write a thread. -/
def setThread (s : State) (t : Tid) (th : Thread) : State :=
  { s with thread := Function.update s.thread t th }

/-- Write the status of a thread. -/
def setStatus (s : State) (t : Tid) (st : Status) : State :=
  s.setThread t { s.thread t with status := st }

/-- A CPU goes on. -/
def setPc (s : State) (c : Nat) (pc : Pc) : State :=
  { s with cpu := Function.update s.cpu c ⟨(s.cpu c).stack, pc⟩ }

/-- `thfork`: the new thread. -/
def thfork (s : State) (t : Tid) : State :=
  { s with
    thread := Function.update s.thread (.proc s.next) { s.thread t with status := .runnable }
    next := s.next + 1
    running := s.running ++ [.proc s.next] }

/-- `wake`. -/
def wake (s : State) (t : Tid) : Except Fault State :=
  match (s.thread t).status with
  | .stopped =>
      if t ∈ s.stopped then
        .ok { s.setStatus t .runnable with
          stopped := s.stopped.erase t
          running := s.running ++ [t] }
      else .error .unlinked
  | _ => .ok s

/-- The selection of the next thread, by CPU `c` that is on the stack of `old`. -/
def pick (s : State) (c : Nat) (old : Tid) (newst : Status) : Tid × State :=
  match s.running with
  | [] => (if newst = .runnable then old else .idle c, s)
  | t :: ts => (t, { s.setStatus t .running with running := ts })

/-- The insertion of the old thread in the queue for its new status. -/
def insert (s : State) (c : Nat) (old : Tid) (newst : Status) : State :=
  match newst with
  | .runnable => { s with running := s.running ++ [old] }
  | .stopped => { s with stopped := s.stopped ++ [old] }
  | .zombie =>
      { s with resched := Function.update s.resched c (s.resched c ++ [old]) }
  | .running => s

/-- One step of CPU `c`. -/
def exec (s : State) (c : Nat) (a : Act) : Except Fault State :=
  let old := (s.cpu c).stack
  match a, (s.cpu c).pc with
  | .intr b, .run => .ok (s.setThread old { s.thread old with intr := b })
  | .deliver, .run =>
      let th := s.thread old
      .ok (if th.intr then
        s.setThread old { th with softintrs := 0, intr := th.softintrs = 0 } else s)
  | .fork, .run => .ok (s.thfork old)
  | .raise n vect, .run =>
      let th := s.thread (.proc n)
      .ok ((s.setThread (.proc n)
        { th with softintrs := th.softintrs ||| BitVec.twoPow 32 vect }).setPc c
          (.raised (.proc n)))
  | .wake, .raised t => (s.wake t).map fun s ↦ s.setPc c .run
  | .enter newst, .run =>
      .ok (if newst = .running ∨ newst = .stopped ∧ (s.thread old).hasInterrupts then s
        else s.setPc c (.entered newst))
  | .save, .entered newst => .ok (s.setPc c (.saved newst))
  | .pick, .saved newst =>
      let (th, s) := s.pick c old newst
      .ok (s.setPc c (if th = old then .leaving th else .picked newst th))
  | .store, .picked newst th =>
      .ok (if old = .idle c then s.setPc c (.leaving th)
        else (s.setStatus old newst).setPc c (.stored newst th))
  | .insert, .stored newst th => .ok ((s.insert c old newst).setPc c (.leaving th))
  | .leave, .leaving th => .ok { s with cpu := Function.update s.cpu c ⟨th, .run⟩ }
  | _, _ => .error .disabled

end State

/-- A signal in range is raised for a thread that exists, and the idle thread does not
fork. -/
def Allowed (s : State) (c : Nat) : Act → Prop
  | .raise n vect => n < s.next ∧ vect < Mh.Sched.State.maxSignals
  | .fork => (s.cpu c).stack ≠ .idle c
  | _ => True

/-- A step of one of the CPUs. -/
def Step (s : State) (a : Nat × Act) (s' : State) : Prop :=
  Allowed s a.1 a.2 ∧ s.exec a.1 a.2 = .ok s'

/-- CPU 0 runs `init` and the others are idle. -/
def boot : State where
  thread _ := ⟨.running, false, 0⟩
  next := 1
  running := []
  stopped := []
  resched _ := []
  cpu c := ⟨if c = 0 then .proc 0 else .idle c, .run⟩

end Mh.Smp
