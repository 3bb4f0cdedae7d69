import Mathlib.Algebra.Order.Ring.Nat
import Mathlib.Logic.Function.Basic
import Mathlib.Tactic.Common

/-!
# Parents and children

What `thfork`, `__exit`, `do_zombie` and `childstat` of `src/kern.c` do to the lists of children,
on any number of CPUs.  Each call is atomic; any thread that has not exited makes any of them, on
any CPU, so nothing is assumed about the scheduler.

A thread is named by its pid, which is never used again: `getnewpid` fails an assertion when its
counter wraps.  `LIST_REMOVE` takes a child off whichever list of whichever parent it is on.

History variables, which no function reads: `creator`, the thread that forked a thread; `exits`,
the calls of `__exit`; `returned`, what `childstat` has returned, and to whom; and the CPU in
`Life.exited`.
-/

namespace Mh.Proc

/-- How far a thread has come: `exited` is the status `THST_ZOMBIE` of a thread that waits on the
`resched` list of the CPU where it called `__exit`, and `zombie` that of one that `do_zombie` has
passed to its parent; `freed` is a thread that `childstat` has passed to `thfree`. -/
inductive Life (Cpu : Type)
  | unborn
  | idle
  | live
  | exited (i : Cpu)
  | zombie
  | freed
deriving DecidableEq

/-- What stops the kernel: the pids are used up; the exit of a thread without a parent; a thread
on `resched` that is not a zombie, or has no parent. -/
inductive Panic
  | pid
  | parent
  | status
deriving DecidableEq, Repr

/-- The threads, with the part of each CPU that has to do with their exit: its `resched` list and
whether `SOFTIRQ_ZOMBIE` is raised on it. -/
structure State (Cpu : Type) where
  life : Nat → Life Cpu
  parent : Nat → Option Nat
  exitStatus : Nat → Int
  active : Nat → List Nat
  zombies : Nat → List Nat
  resched : Cpu → List Nat
  softZombie : Cpu → Bool
  next : Nat
  init : Nat
  creator : Nat → Option Nat
  exits : List (Nat × Int)
  returned : List (Nat × Nat × Int)

namespace State

variable {Cpu : Type} (s : State Cpu)

/-! ## The calls -/

/-- `getnewpid`. -/
def getnewpid : Except Panic (Nat × State Cpu) :=
  if s.next + 1 < 2 ^ 32 then .ok (s.next, { s with next := s.next + 1 }) else .error .pid

/-- `thfork`, of the thread `cth`. -/
def thfork (cth : Nat) : Except Panic (State Cpu) := do
  let (nth, s) ← s.getnewpid
  return { s with
    life := Function.update s.life nth .live
    parent := Function.update s.parent nth (some cth)
    creator := Function.update s.creator nth (some cth)
    active := Function.update (Function.update s.active nth []) cth (nth :: s.active cth)
    zombies := Function.update s.zombies nth [] }

/-- The loops of `__exit`: the children of `th` become children of `init`. -/
def inherit (th : Nat) : State Cpu :=
  { s with
    parent := fun c ↦
      if c ∈ s.active th ∨ c ∈ s.zombies th then some s.init else s.parent c
    active := Function.update (Function.update s.active s.init
      ((s.active th).reverse ++ s.active s.init)) th []
    zombies := Function.update (Function.update s.zombies s.init
      ((s.zombies th).reverse ++ s.zombies s.init)) th [] }

variable [DecidableEq Cpu]

/-- The end of `__exit`, with `schedule(THST_ZOMBIE)` on the CPU `i`. -/
def retire (i : Cpu) (th : Nat) (status : Int) : State Cpu :=
  { s with
    exitStatus := Function.update s.exitStatus th status
    life := Function.update s.life th (.exited i)
    resched := Function.update s.resched i (s.resched i ++ [th])
    softZombie := Function.update s.softZombie i true
    exits := s.exits ++ [(th, status)] }

/-- `__exit`, of the thread `th` on the CPU `i`. -/
def exit (i : Cpu) (th : Nat) (status : Int) : Except Panic (State Cpu) :=
  if s.parent th = none then .error .parent
  else .ok ((s.inherit th).retire i th status)

/-- `do_zombie`, on the CPU `i`: the loop is left after its first round. -/
def doZombie (i : Cpu) : Except Panic (State Cpu) :=
  match s.resched i with
  | [] => .ok s
  | th :: ths =>
      if s.life th = .exited i then
        match s.parent th with
        | none => .error .parent
        | some p =>
            let zombies := fun q ↦ (s.zombies q).erase th
            .ok { s with
              life := Function.update s.life th .zombie
              resched := Function.update s.resched i ths
              active := fun q ↦ (s.active q).erase th
              zombies := Function.update zombies p (th :: zombies p) }
      else .error .status

/-- `do_softirq`, on the CPU `i`: the part that has to do with zombies. -/
def doSoftirq (i : Cpu) : Except Panic (State Cpu) :=
  if s.softZombie i then { s with softZombie := Function.update s.softZombie i false }.doZombie i
  else .ok s

omit [DecidableEq Cpu] in
/-- `childstat`, of the thread `th`: the pid and the exit status that it returns, or `-ESRCH`. -/
def childstat (th : Nat) : Option (Nat × Int) × State Cpu :=
  match s.zombies th with
  | [] => (none, s)
  | child :: children =>
      let r := (child, s.exitStatus child)
      (some r,
        { s with
          zombies := Function.update s.zombies th children
          life := Function.update s.life child .freed
          returned := s.returned ++ [(th, r)] })

end State

/-! ## Runs -/

/-- The calls, with the threads that make them and the CPUs that they are made on.  `bootAp` is
another CPU that comes up, with its idle thread. -/
inductive Op (Cpu : Type)
  | fork (p : Nat)
  | exit (i : Cpu) (p : Nat) (status : Int)
  | softirq (i : Cpu)
  | childstat (p : Nat)
  | bootAp

variable {Cpu : Type} [DecidableEq Cpu]

/-- The thread that makes a call has not exited. -/
def Allowed (s : State Cpu) : Op Cpu → Prop
  | .fork p | .exit _ p _ | .childstat p => s.life p = .live
  | _ => True

/-- One call. -/
def exec (s : State Cpu) : Op Cpu → Except Panic (State Cpu)
  | .fork p => s.thfork p
  | .exit i p status => s.exit i p status
  | .softirq i => s.doSoftirq i
  | .childstat p => .ok (s.childstat p).2
  | .bootAp => do
      let (th, s) ← s.getnewpid
      return { s with life := Function.update s.life th .idle }

/-- A call that returns. -/
def Step (s : State Cpu) (op : Op Cpu) (s' : State Cpu) : Prop := Allowed s op ∧ exec s op = .ok s'

/-- The state in which `init`, the thread 1, begins to run; 0 is the idle thread of the CPU that
boots. -/
def boot : State Cpu where
  life t := if t = 0 then .idle else if t = 1 then .live else .unborn
  parent _ := none
  exitStatus _ := 0
  active _ := []
  zombies _ := []
  resched _ := []
  softZombie _ := false
  next := 2
  init := 1
  creator _ := none
  exits := []
  returned := []

end Mh.Proc
