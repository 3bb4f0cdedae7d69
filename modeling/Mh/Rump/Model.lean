import Mathlib.Logic.Function.Basic
import Mh.Lib.Run

/-!
# The threads of a rump kernel

`rumpuser.c`: the threads of a rump kernel are LWTs, of which one runs until it sleeps or gives
way.  Mutexes, read/write locks and condition variables have a queue of waiters each, which are on
the stacks of the threads that wait.

Before a thread sleeps, and around each wake, the code leaves the rump kernel by
`hyp_backend_unschedule` and comes back by `hyp_backend_schedule`.  These two belong to the rump
kernel: here they may do anything that the code of a thread may do.  They call the functions of
this file, they sleep, they give way.

What a thread has still to do is a list of instructions, `todo`: its stack of return addresses.  A
step executes one instruction of the current thread, which may put others in its place, and from
one step to the next the thread goes on unless it sleeps or is at a place where it may give way.
`held`, `readers`, `writers` and `entered` are kept for the statements: who believes to hold what,
and as whom a writer entered.
-/

namespace Mh.Rump

/-- `enum rumprwlock`. -/
inductive Rwlock
  | writer
  | reader
deriving DecidableEq, Repr

/-- The `struct waithead` of a mutex, of the readers and the writers of a lock, and of a condition
variable. -/
inductive Waithead
  | mtx (m : Nat)
  | rwait (r : Nat)
  | wwait (r : Nat)
  | cv (c : Nat)
deriving DecidableEq, Repr

/-- Where `rw_enter` waits. -/
def Rwlock.waithead (r : Nat) : Rwlock → Waithead
  | .writer => .wwait r
  | .reader => .rwait r

/-- The function that leaves the rump kernel, or comes back. -/
inductive Site
  | wake
  | block
  | exit
  | clock
  | mutex
  | rw
  | cv
deriving DecidableEq, Repr

/-- The function that calls `wake`. -/
inductive Waker
  | wakeup
  | exit
  | join
deriving DecidableEq, Repr

/-- What a thread does next. -/
inductive Instr
  | unsched (site : Site)
  | sched (site : Site)
  | lwtYield
  | lwtSleep
  /-- In `block`, past `lwt_sleep`. -/
  | slept
  | lwtWake (waker : Waker) (t : Nat)
  | lwtExit
  | wait (h : Waithead)
  /-- In `wait`, past `lwt_sleep`. -/
  | waiting (h : Waithead)
  /-- The loop of `wakeup_all`. -/
  | wakeupAll (h : Waithead)
  | clockSleep
  | mutexEnter (m : Nat)
  /-- The loop of `rumpuser_mutex_enter`. -/
  | mutexLoop (m : Nat)
  | mutexEnterNowrap (m : Nat)
  | mutexTryenter (m : Nat)
  | mutexExit (m : Nat)
  | mutexDestroy (m : Nat)
  | rwEnter (lk : Rwlock) (r : Nat)
  /-- The loop of `rumpuser_rw_enter`. -/
  | rwLoop (lk : Rwlock) (r : Nat)
  | rwTryenter (lk : Rwlock) (r : Nat)
  | rwExit (r : Nat)
  | rwDowngrade (r : Nat)
  | rwTryupgrade (r : Nat)
  | cvWait (c m : Nat)
  | cvWaitNowrap (c m : Nat)
  /-- `cv_resched`. -/
  | cvResched (m : Nat)
  /-- The end of a wait: `cv->nwaiters--`. -/
  | cvDone (c : Nat)
  | cvSignal (c : Nat)
  | cvBroadcast (c : Nat)
  | cvDestroy (c : Nat)
  | threadCreate (joinable : Bool)
  | threadExit
  | threadJoin (t : Nat)
  /-- The loop of `join_thread`. -/
  | joinLoop (t : Nat)
  /-- In the loop of `join_thread`, past `block`. -/
  | joinRemove (t : Nat)
  | curlwpSet (l : Nat)
  | curlwpClear (l : Nat)
deriving DecidableEq, Repr

/-- The functions that a rump kernel calls. -/
def Instr.isCall : Instr → Bool
  | .clockSleep | .mutexEnter _ | .mutexEnterNowrap _ | .mutexTryenter _ | .mutexExit _
  | .mutexDestroy _ | .rwEnter _ _ | .rwTryenter _ _ | .rwExit _ | .rwDowngrade _
  | .rwTryupgrade _ | .cvWait _ _ | .cvWaitNowrap _ _ | .cvSignal _ | .cvBroadcast _
  | .cvDestroy _ | .threadCreate _ | .threadExit | .threadJoin _ | .curlwpSet _
  | .curlwpClear _ => true
  | _ => false

/-- `struct rumpuser_mtx`, less its waiters; of the flags, whether both `RUMPUSER_MTX_KMUTEX` and
`RUMPUSER_MTX_SPIN` are set. -/
structure Mtx where
  v : Int
  o : Option Nat
  kspin : Bool
deriving DecidableEq, Repr

/-- `struct rumpuser_rw`, less its waiters. -/
structure Rw where
  v : Int
  o : Option Nat
deriving DecidableEq, Repr

/-- Why a step is not taken: it is not the thread's next; an assertion fails. -/
inductive Fault
  | disabled
  | assertion
deriving DecidableEq, Repr

/-- The threads and their locks.  `awake` holds of a thread that runs or is on the run queue,
`live` is `thread_list`. -/
structure State where
  current : Nat
  awake : Nat → Bool
  todo : Nat → List Instr
  threads : Nat
  live : List Nat
  exited : List Nat
  lwp : Nat → Option Nat
  mustjoin : Nat → Bool
  joined : Nat → Bool
  joinwq : List (Nat × Nat)
  mtx : Nat → Mtx
  rw : Nat → Rw
  nwaiters : Nat → Int
  waiters : Waithead → List Nat
  held : Nat → Nat → Nat
  readers : Nat → List Nat
  writers : Nat → List Nat
  /-- Of a lock and a thread, the lwp with which the thread last entered as a writer. -/
  entered : Nat → Nat → Option Nat

/-- After `rumpuser_init`: one thread, which runs.  `kspin` tells how the mutexes are made. -/
def State.init (kspin : Nat → Bool) : State where
  current := 0
  awake := fun t ↦ t == 0
  todo := fun _ ↦ []
  threads := 1
  live := [0]
  exited := []
  lwp := fun _ ↦ none
  mustjoin := fun _ ↦ false
  joined := fun _ ↦ false
  joinwq := []
  mtx := fun m ↦ ⟨0, none, kspin m⟩
  rw := fun _ ↦ ⟨0, none⟩
  nwaiters := fun _ ↦ 0
  waiters := fun _ ↦ []
  held := fun _ _ ↦ 0
  readers := fun _ ↦ []
  writers := fun _ ↦ []
  entered := fun _ _ ↦ none

/-! ## Waking and waiting -/

/-- `wake`. -/
def wake (waker : Waker) (t : Nat) : List Instr :=
  [.unsched .wake, .lwtWake waker t, .sched .wake]

/-- `block`. -/
def block : List Instr := [.unsched .block, .lwtSleep, .sched .block]

namespace State

variable (s : State)

/-- The current thread is off the run queue. -/
def sleep : State := { s with awake := Function.update s.awake s.current false }

/-- `wait`, up to the return of `lwt_sleep`. -/
def wait (h : Waithead) : State × List Instr :=
  ({ s.sleep with waiters := Function.update s.waiters h (s.waiters h ++ [s.current]) },
    [.waiting h])

/-- `wakeup_one`. -/
def wakeupOne (h : Waithead) : State × List Instr :=
  match s.waiters h with
  | [] => (s, [])
  | w :: ws => ({ s with waiters := Function.update s.waiters h ws }, wake .wakeup w)

/-- `wakeup_all`, or one round of its loop and what is left. -/
def wakeupAll (h : Waithead) : State × List Instr :=
  match s.waiters h with
  | [] => (s, [])
  | w :: ws =>
    ({ s with waiters := Function.update s.waiters h ws }, wake .wakeup w ++ [.wakeupAll h])

/-- `lwt_wake`. -/
def lwtWake (t : Nat) : Except Fault State :=
  if t = s.current then .error .assertion
  else .ok { s with awake := Function.update s.awake t true }

end State

/-! ## Mutexes -/

/-- What `rumpuser_mutex_tryenter` makes of the mutex, when thread `t` is let in. -/
def Mtx.tryenter (x : Mtx) (t : Nat) : Option Mtx :=
  if x.v ≠ 0 ∧ x.o ≠ some t then none else some { x with v := x.v + 1, o := some t }

/-- What `rumpuser_mutex_exit` makes of the mutex. -/
def Mtx.exit (x : Mtx) : Mtx :=
  if x.v - 1 = 0 then { x with v := 0, o := none } else { x with v := x.v - 1 }

/-- What `rumpuser_rw_exit` makes of the lock. -/
def Rw.exit (x : Rw) : Rw :=
  if x.o = none then { x with v := x.v - 1 } else { x with o := none }

namespace State

variable (s : State)

/-- The thread believes to hold the mutex once more. -/
def hold (t m : Nat) : State :=
  { s with held := Function.update s.held t (Function.update (s.held t) m (s.held t m + 1)) }

/-- The thread believes to hold the mutex once less. -/
def unhold (t m : Nat) : State :=
  { s with held := Function.update s.held t (Function.update (s.held t) m (s.held t m - 1)) }

/-- `rumpuser_mutex_tryenter`, when it returns 0. -/
def mutexTryenter (m : Nat) : Option State :=
  ((s.mtx m).tryenter s.current).map fun x ↦
    { s.hold s.current m with mtx := Function.update s.mtx m x }

/-- `rumpuser_mutex_enter_nowrap`: the code that calls it goes on in either case. -/
def mutexEnterNowrap (m : Nat) : State := (s.mutexTryenter m).getD (s.hold s.current m)

/-- `rumpuser_mutex_exit`. -/
def mutexExit (m : Nat) : Except Fault (State × List Instr) :=
  if 0 < (s.mtx m).v then
    let s' := { s.unhold s.current m with mtx := Function.update s.mtx m (s.mtx m).exit }
    .ok (if (s.mtx m).v - 1 = 0 then s'.wakeupOne (.mtx m) else (s', []))
  else .error .assertion

/-- `rumpuser_mutex_owner`. -/
def mutexOwner (m : Nat) : Option Nat := (s.mtx m).o.bind s.lwp

/-! ## Read/write locks -/

/-- `rumpuser_curlwp`. -/
def curlwp : Option Nat := s.lwp s.current

/-- The thread believes to write, as the lwp that it has. -/
def rwWrite (r : Nat) : State :=
  { s with
    writers := Function.update s.writers r (s.current :: s.writers r)
    entered := Function.update s.entered r (Function.update (s.entered r) s.current s.curlwp) }

/-- `rumpuser_rw_tryenter`, when it returns 0. -/
def rwTryenter (r : Nat) : Rwlock → Option State
  | .writer =>
    if (s.rw r).o = none then
      some { s.rwWrite r with rw := Function.update s.rw r { s.rw r with o := s.curlwp } }
    else none
  | .reader =>
    if (s.rw r).o = none ∧ s.waiters (.wwait r) = [] then
      some { s with
        rw := Function.update s.rw r { s.rw r with v := (s.rw r).v + 1 }
        readers := Function.update s.readers r (s.current :: s.readers r) }
    else none

/-- The thread believes to hold the lock no longer. -/
def rwDrop (r : Nat) : State :=
  { s with
    writers := if s.current ∈ s.writers r then
        Function.update s.writers r ((s.writers r).erase s.current) else s.writers
    readers := if s.current ∈ s.writers r then s.readers else
        Function.update s.readers r ((s.readers r).erase s.current) }

/-- `rumpuser_rw_exit`. -/
def rwExit (r : Nat) : State × List Instr :=
  let s' := { s.rwDrop r with rw := Function.update s.rw r (s.rw r).exit }
  if s.waiters (.wwait r) ≠ [] then
    if (s'.rw r).o = none then s'.wakeupOne (.wwait r) else (s', [])
  else if s.waiters (.rwait r) ≠ [] ∧ (s'.rw r).o = none then s'.wakeupAll (.rwait r)
  else (s', [])

/-- `rumpuser_rw_downgrade`. -/
def rwDowngrade (r : Nat) : Except Fault State :=
  if (s.rw r).o = s.curlwp then
    .ok { s with rw := Function.update s.rw r { s.rw r with v := -1 } }
  else .error .assertion

/-- `rumpuser_rw_tryupgrade`, when it returns 0. -/
def rwTryupgrade (r : Nat) : Option State :=
  if (s.rw r).v = -1 then
    some { s.rwWrite r with
      rw := Function.update s.rw r ⟨1, s.curlwp⟩
      readers := Function.update s.readers r ((s.readers r).erase s.current) }
  else none

/-- `rumpuser_rw_held`. -/
def rwHeld (r : Nat) : Rwlock → Bool
  | .writer => (s.rw r).o == s.curlwp
  | .reader => decide (0 < (s.rw r).v)

/-! ## Condition variables -/

/-- `rumpuser_cv_has_waiters`. -/
def cvHasWaiters (c : Nat) : Bool := s.nwaiters c != 0

/-- `cv->nwaiters += n`. -/
def addWaiters (c : Nat) (n : Int) : State :=
  { s with nwaiters := Function.update s.nwaiters c (s.nwaiters c + n) }

/-- `rumpuser_cv_wait`, and `rumpuser_cv_timedwait`, whose `wait` has no use for the time. -/
def cvWait (c m : Nat) : State × List Instr :=
  (s.addWaiters c 1,
    [.unsched .cv, .mutexExit m, .wait (.cv c), .cvResched m, .cvDone c])

/-- `cv_resched`. -/
def cvResched (m : Nat) : List Instr :=
  if (s.mtx m).kspin then [.sched .cv, .mutexEnterNowrap m] else [.mutexEnterNowrap m, .sched .cv]

/-! ## Threads -/

/-- `rumpuser_thread_create`, when there is memory. -/
def threadCreate (joinable : Bool) : State :=
  { s with
    threads := s.threads + 1
    awake := Function.update s.awake s.threads false
    todo := Function.update s.todo s.threads []
    lwp := Function.update s.lwp s.threads none
    mustjoin := Function.update s.mustjoin s.threads joinable
    joined := Function.update s.joined s.threads false
    live := s.live ++ [s.threads] }

/-- The thread that waits to join `t`. -/
def joiner (t : Nat) : Option Nat := (s.joinwq.find? fun jw ↦ jw.2 == t).map Prod.fst

/-- `exit_thread`, or one round of its loop and what is left. -/
def threadExit : State × List Instr :=
  if s.mustjoin s.current then
    ({ s with joined := Function.update s.joined s.current true },
      ((s.joiner s.current).elim [] (wake .exit)) ++ (block ++ [.threadExit]))
  else
    ({ s with live := s.live.erase s.current, exited := s.current :: s.exited },
      [.unsched .exit, .lwtExit])

/-- The loop of `join_thread`: one round and what is left, or what comes after it. -/
def joinLoop (t : Nat) : State × List Instr :=
  if s.joined t then
    ({ s with mustjoin := Function.update s.mustjoin t false }, wake .join t)
  else
    ({ s with joinwq := s.joinwq ++ [(s.current, t)] }, block ++ [.joinRemove t, .joinLoop t])

/-! ## Steps -/

/-- One instruction of the current thread: the state, and what the thread does in its place. -/
def exec : Instr → Except Fault (State × List Instr)
  | .unsched _ | .sched _ | .lwtExit => .error .disabled
  | .lwtYield | .slept | .waiting _ => .ok (s, [])
  | .lwtSleep => .ok (s.sleep, [.slept])
  | .lwtWake _ t => do return (← s.lwtWake t, [])
  | .wait h => .ok (s.wait h)
  | .wakeupAll h => .ok (s.wakeupAll h)
  | .clockSleep => .ok (s, [.unsched .clock, .lwtYield, .sched .clock])
  | .mutexEnter m => .ok ((s.mutexTryenter m).elim (s, [.mutexLoop m]) (·, []))
  | .mutexLoop m =>
    .ok ((s.mutexTryenter m).elim
      (s, [.unsched .mutex, .wait (.mtx m), .sched .mutex, .mutexLoop m]) (·, []))
  | .mutexEnterNowrap m => .ok (s.mutexEnterNowrap m, [])
  | .mutexTryenter m => .ok ((s.mutexTryenter m).getD s, [])
  | .mutexExit m => s.mutexExit m
  | .mutexDestroy m =>
    if s.waiters (.mtx m) = [] ∧ (s.mtx m).o = none then .ok (s, []) else .error .assertion
  | .rwEnter lk r =>
    .ok ((s.rwTryenter r lk).elim (s, [.unsched .rw, .rwLoop lk r, .sched .rw]) (·, []))
  | .rwLoop lk r =>
    .ok ((s.rwTryenter r lk).elim
      ((s.wait (lk.waithead r)).1, (s.wait (lk.waithead r)).2 ++ [.rwLoop lk r]) (·, []))
  | .rwTryenter lk r => .ok ((s.rwTryenter r lk).getD s, [])
  | .rwExit r => .ok (s.rwExit r)
  | .rwDowngrade r => do return (← s.rwDowngrade r, [])
  | .rwTryupgrade r => .ok ((s.rwTryupgrade r).getD s, [])
  | .cvWait c m => .ok (s.cvWait c m)
  | .cvWaitNowrap c m =>
    .ok (s.addWaiters c 1, [.mutexExit m, .wait (.cv c), .mutexEnterNowrap m, .cvDone c])
  | .cvResched m => .ok (s, s.cvResched m)
  | .cvDone c => .ok (s.addWaiters c (-1), [])
  | .cvSignal c => .ok (s.wakeupOne (.cv c))
  | .cvBroadcast c => .ok (s.wakeupAll (.cv c))
  | .cvDestroy c => if s.nwaiters c = 0 then .ok (s, []) else .error .assertion
  | .threadCreate joinable => .ok (s.threadCreate joinable, [])
  | .threadExit => .ok s.threadExit
  | .threadJoin t => if s.mustjoin t then .ok (s, [.joinLoop t]) else .error .assertion
  | .joinLoop t => .ok (s.joinLoop t)
  | .joinRemove t => .ok ({ s with joinwq := s.joinwq.erase (s.current, t) }, [])
  | .curlwpSet l => .ok ({ s with lwp := Function.update s.lwp s.current (some l) }, [])
  | .curlwpClear l =>
    if s.lwp s.current = some l then
      .ok ({ s with lwp := Function.update s.lwp s.current none }, [])
    else .error .assertion

/-- What the current thread has still to do. -/
def setTodo (is : List Instr) : State :=
  { s with todo := Function.update s.todo s.current is }

end State

/-- The thread is in its own code, or in that of the rump kernel. -/
def outside : List Instr → Bool
  | [] | .unsched _ :: _ | .sched _ :: _ => true
  | _ => false

/-- The thread may give way here. -/
def givesWay : List Instr → Bool
  | .lwtYield :: _ => true
  | is => outside is

/-- What comes next: the current thread executes an instruction; it returns from the rump kernel,
or calls a function, or sleeps, outside of this file; another thread runs; a thread is woken from
outside of this file, by an event or an interrupt. -/
inductive Op
  | exec
  | ret
  | call (i : Instr)
  | doze
  | switch (t : Nat)
  | kick (t : Nat)
deriving DecidableEq, Repr

namespace State

variable (s : State)

/-- The current thread runs and is outside of this file. -/
def atLarge : Bool := s.awake s.current && outside (s.todo s.current)

/-- A step of the current thread, which `lwt_exit` sets back to its start. -/
def go : Except Fault State :=
  if s.awake s.current then
    match s.todo s.current with
    | [] => .error .disabled
    | .lwtExit :: _ => .ok (s.sleep.setTodo [])
    | i :: is => do
      let r ← s.exec i
      return r.1.setTodo (r.2 ++ is)
  else .error .disabled

/-- A step. -/
def step : Op → Except Fault State
  | .exec => s.go
  | .ret =>
    match s.todo s.current with
    | .unsched _ :: is | .sched _ :: is =>
      if s.awake s.current then .ok (s.setTodo is) else .error .disabled
    | _ => .error .disabled
  | .call i =>
    if s.atLarge ∧ i.isCall then .ok (s.setTodo (i :: s.todo s.current)) else .error .disabled
  | .doze => if s.atLarge then .ok s.sleep else .error .disabled
  | .switch t =>
    if s.awake t ∧ (s.awake s.current = false ∨ givesWay (s.todo s.current)) then
      .ok { s with current := t }
    else .error .disabled
  | .kick t =>
    if t < s.threads then .ok { s with awake := Function.update s.awake t true }
    else .error .disabled

end State

/-- A step that is taken. -/
def Step (s : State) (op : Op) (s' : State) : Prop := s.step op = .ok s'

end Mh.Rump
