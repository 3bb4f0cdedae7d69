import Mh.Param
import Mh.Lib.Run
import Mathlib.Logic.Function.Basic

/-!
# Threads, the scheduler and the timers

The part of `src/kern.c` that moves threads between the queues, on one CPU: `thfork`,
`wake`, `thraise`, `schedule`, `do_softirq`, `__exit` and `childstat`; and the timers,
two for each thread, that `schedule` starts and stops along with the thread that they
belong to.

A thread is named by its number, which is never used again.  The lists of the kernel
are lists of these numbers; `LIST_REMOVE` takes a child off whichever list of whichever
parent it is on.  A call reads the counter of the timer once.
-/

namespace Mh.Sched

open Mh.Lib

/-- `THST_RUNNING` and the others. -/
inductive Status
  | running
  | runnable
  | stopped
  | zombie
deriving DecidableEq, Repr

/-- `rtt_alarm` and `vtt_alarm`. -/
inductive Alarm
  | rtt
  | vtt
deriving DecidableEq, Repr

/-- `struct timer`, of a thread and without its links. -/
structure Timer where
  valid : Bool
  time : Nat
  sig : Nat
deriving DecidableEq, Repr

/-- `struct thread`: what the scheduler uses of it. -/
structure Thread where
  status : Status
  parent : Option Nat
  intr : Bool
  softintrs : BitVec 32
  exitStatus : Nat
  vttAlmdiff : Nat
  vttOffset : Nat
  vttRttbase : Nat
deriving DecidableEq, Repr

/-- What stops the kernel: a signal out of range, the exit of a thread without a
parent, and a thread on `resched` that is not a zombie. -/
inductive Panic
  | signal
  | parent
  | status
deriving DecidableEq, Repr

/-- A timer is named by its thread and which of the two it is. -/
abbrev Key := Nat × Alarm

/-- The threads, the queues and the timers.  `current`, `idle`, `resched` and the two
soft interrupts are those of the CPU; `alarm` is what the hardware timer is set to,
`none` when it is disabled. -/
structure State where
  thread : Nat → Thread
  active : Nat → List Nat
  zombies : Nat → List Nat
  freed : Nat → Bool
  next : Nat
  init : Nat
  current : Nat
  idle : Nat
  running : List Nat
  stopped : List Nat
  resched : List Nat
  softZombie : Bool
  softTimer : Bool
  timer : Key → Timer
  timers : List Key
  alarm : Option Nat
  counter : Nat

namespace State

/-- Write a thread. -/
def setThread (s : State) (t : Nat) (th : Thread) : State :=
  { s with thread := Function.update s.thread t th }

/-- Write the status of a thread. -/
def setStatus (s : State) (t : Nat) (st : Status) : State :=
  s.setThread t { s.thread t with status := st }

/-- Write a timer. -/
def setTimer (s : State) (k : Key) (tm : Timer) : State :=
  { s with timer := Function.update s.timer k tm }

/-! ## Timers -/

/-- Set the hardware timer to the first timer of the list, or disable it. -/
def updateAlarm (s : State) : State :=
  { s with alarm := s.timers.head?.map fun k ↦ (s.timer k).time }

/-- Where `timer_register` inserts a timer that expires at `time`, into a list that is
not empty: `c` is the element that its loop has reached. -/
def insertTimer (s : State) (k : Key) (time : Nat) (c : Key) : List Key → List Key
  | [] => [c, k]
  | d :: ds => if (s.timer c).time < time then c :: insertTimer s k time d ds else c :: k :: d :: ds

/-- `timer_register`, of a timer that is valid. -/
def timerRegister (s : State) (k : Key) : State :=
  updateAlarm { s with
    timers :=
      match s.timers with
      | [] => [k]
      | c :: cs => s.insertTimer k (s.timer k).time c cs }

/-- `timer_remove`. -/
def timerRemove (s : State) (k : Key) : State :=
  if (s.timer k).valid then
    (updateAlarm { s with timers := s.timers.erase k }).setTimer k { s.timer k with valid := false }
  else s

/-- `thalrm` and `thvtalrm`, of the timer of the current thread that they are about. -/
def setAlarm (s : State) (a : Alarm) (diff : Nat) : State :=
  let k := (s.current, a)
  let s := s.timerRemove k
  let s := s.setTimer k ⟨true, (s.counter + diff) % 2 ^ 64, (s.timer k).sig⟩
  s.timerRegister k

/-! ## Waking -/

/-- `wake`, without the interrupts that it sends to other CPUs. -/
def wake (s : State) (t : Nat) : State :=
  match (s.thread t).status with
  | .stopped =>
      { s.setStatus t .runnable with
        stopped := s.stopped.erase t
        running := s.running ++ [t] }
  | _ => s

/-- `MAXSIGNALS`. -/
def maxSignals : Nat := 32

/-- `thraise`. -/
def thraise (s : State) (t vect : Nat) : Except Panic State :=
  if vect < maxSignals then
    let th := s.thread t
    .ok ((s.setThread t { th with softintrs := th.softintrs ||| BitVec.twoPow 32 vect }).wake t)
  else .error .signal

/-- The signal of a timer, which has been stored plus one. -/
def raiseTimer (s : State) (k : Key) : Except Panic State :=
  let sig := (s.timer k).sig
  if sig ≠ 0 then s.thraise k.1 (w32 (sig + (2 ^ 32 - 1))) else .ok s

/-- `do_timer` for one timer. -/
def fire (s : State) (k : Key) : Except Panic State := do
  let s ← s.raiseTimer k
  return { s.setTimer k { s.timer k with valid := false } with timers := s.timers.erase k }

/-- The timers that have expired, as far as the loop of `do_timer` goes. -/
def expired (s : State) : List Key := s.timers.takeWhile fun k ↦ (s.timer k).time ≤ s.counter

/-- `do_timer`. -/
def doTimer (s : State) : Except Panic State := do
  let ks := s.expired
  let s ← ks.foldlM fire s
  return if ks ≠ [] then s.updateAlarm else s

/-! ## Switching -/

/-- `thread_has_interrupts`. -/
def hasInterrupts (s : State) (t : Nat) : Bool :=
  (s.thread t).intr && (s.thread t).softintrs ≠ 0

/-- `thvtt`. -/
def thvtt (s : State) (t : Nat) : Nat :=
  (s.counter + (2 ^ 64 - (s.thread t).vttRttbase) + (s.thread t).vttOffset) % 2 ^ 64

/-- The part of `schedule` that stops the virtual timer of the old thread. -/
def switchFrom (s : State) (t : Nat) : State :=
  let tm := s.timer (t, .vtt)
  let th := { s.thread t with vttOffset := s.thvtt t }
  let th :=
    if tm.valid then
      { th with vttAlmdiff := if s.counter < tm.time then w32 (tm.time - s.counter) else 1 }
    else th
  (s.setThread t th).timerRemove (t, .vtt)

/-- The part of `schedule` that switches to the new thread. -/
def switchTo (s : State) (t : Nat) : State :=
  let s := { s with current := t }
  let s := s.setThread t { s.thread t with vttRttbase := s.counter }
  if (s.thread t).vttAlmdiff ≠ 0 then s.setAlarm .vtt (s.thread t).vttAlmdiff else s

/-- The part of `schedule` that puts the old thread on a queue. -/
def requeue (s : State) (t : Nat) (newst : Status) : State :=
  let s := s.setStatus t newst
  match newst with
  | .runnable => { s with running := s.running ++ [t] }
  | .stopped => { s with stopped := s.stopped ++ [t] }
  | .zombie => { s with resched := s.resched ++ [t], softZombie := true }
  | .running => s

/-- The selection of the next thread. -/
def pick (s : State) (newst : Status) : Nat × State :=
  match s.running with
  | [] => (if newst = .runnable then s.current else s.idle, s)
  | t :: ts => (t, { s.setStatus t .running with running := ts })

/-- `schedule`. -/
def schedule (s : State) (newst : Status) : State :=
  if newst = .running ∨ newst = .stopped ∧ s.hasInterrupts s.current then s
  else
    let oldth := s.current
    let (th, s) := s.pick newst
    if th = oldth then s
    else
      let s := (s.switchFrom oldth).switchTo th
      if oldth = s.idle then s else s.requeue oldth newst

/-! ## Children -/

/-- `thfork`: what it does to threads, queues and timers. -/
def thfork (s : State) : State :=
  let nth := s.next
  let cth := s.current
  { s with
    thread := Function.update s.thread nth
      { s.thread cth with
        status := .runnable
        parent := some cth
        vttAlmdiff := 0
        vttOffset := 0
        vttRttbase := 0 }
    active := Function.update (Function.update s.active nth []) cth (nth :: s.active cth)
    zombies := Function.update s.zombies nth []
    timer := Function.update (Function.update s.timer (nth, .rtt) ⟨false, 0, 0⟩) (nth, .vtt)
      ⟨false, 0, 0⟩
    next := nth + 1
    running := s.running ++ [nth] }

/-- `do_zombie`. -/
def doZombie (s : State) : Except Panic State :=
  match s.resched with
  | [] => .ok s
  | t :: ts =>
      let s := { s with resched := ts }
      if (s.thread t).status = .zombie then
        match (s.thread t).parent with
        | none => .error .parent
        | some p =>
            let zombies := fun q ↦ (s.zombies q).erase t
            { s with
              active := fun q ↦ (s.active q).erase t
              zombies := Function.update zombies p (t :: zombies p) }.thraise p 0
      else .error .status

/-- The part of `do_softirq` that delivers the signals of the current thread. -/
def deliver (s : State) : State :=
  let th := s.thread s.current
  if th.intr then s.setThread s.current { th with softintrs := 0, intr := th.softintrs = 0 } else s

/-- The soft interrupts of the CPU: whether each of the two is raised, and what it does. -/
def softirqs (s : State) (zombie timer : Bool) : Except Panic State :=
  (if zombie then s.doZombie else .ok s) >>= fun s ↦ if timer then s.doTimer else .ok s

/-- `do_softirq`. -/
def doSoftirq (s : State) : Except Panic State :=
  let s := s.deliver
  { s with softZombie := false, softTimer := false }.softirqs s.softZombie s.softTimer

/-- The loops of `__exit`: the children of `t` become children of `init`. -/
def inherit (s : State) (t : Nat) : State :=
  let mine := s.active t ++ s.zombies t
  { s with
    thread := fun c ↦ if c ∈ mine then { s.thread c with parent := some s.init } else s.thread c
    active := Function.update (Function.update s.active s.init
      ((s.active t).reverse ++ s.active s.init)) t []
    zombies := Function.update (Function.update s.zombies s.init
      ((s.zombies t).reverse ++ s.zombies s.init)) t [] }

/-- `__exit`: what it does to threads and queues. -/
def exit (s : State) (status : Nat) : Except Panic State :=
  if (s.thread s.current).parent = none then .error .parent
  else do
    let s ← (s.inherit s.current).thraise s.init 0
    let s := s.setThread s.current { s.thread s.current with exitStatus := status }
    return s.schedule .zombie

/-- `childstat`, with `thfree`: the child that it frees, if there is one. -/
def childstat (s : State) : Option Nat × State :=
  match s.zombies s.current with
  | [] => (none, s)
  | c :: cs =>
      (some c,
        { s with
          zombies := Function.update s.zombies s.current cs
          freed := Function.update s.freed c true })

end State

/-! ## Runs -/

/-- The calls, of the current thread or from an interrupt. -/
inductive Op
  | fork
  | yield
  | wait
  | sti
  | cli
  | exit (status : Nat)
  | childstat
  | wake (t : Nat)
  | raise (t vect : Nat)
  | softirq
  | alarm (a : Alarm) (diff : Nat)
  | irqmap (a : Alarm) (sig : Nat)
  | idle
  | event
  | tick (counter : Nat)
deriving DecidableEq, Repr

/-- Threads that may be woken: created and not freed, and not the idle thread. -/
def State.Alive (s : State) (t : Nat) : Prop := t < s.next ∧ s.freed t = false ∧ t ≠ s.idle

/-- A thread that is woken is alive; the idle thread does not fork, and the counter
does not go back. -/
def Allowed (s : State) : Op → Prop
  | .fork => s.current ≠ s.idle
  | .wake t | .raise t _ => s.Alive t
  | .idle => s.current = s.idle
  | .tick counter => s.counter ≤ counter
  | _ => True

/-- One call. -/
def exec (s : State) : Op → Except Panic State
  | .fork => .ok s.thfork
  | .yield => .ok (s.schedule .runnable)
  | .wait =>
      .ok ((s.setThread s.current { s.thread s.current with intr := true }).schedule .stopped)
  | .sti => .ok (s.setThread s.current { s.thread s.current with intr := true })
  | .cli => .ok (s.setThread s.current { s.thread s.current with intr := false })
  | .exit status => s.exit status
  | .childstat => .ok s.childstat.2
  | .wake t => .ok (s.wake t)
  | .raise t vect => s.thraise t vect
  | .softirq => s.doSoftirq
  | .alarm a diff => .ok (s.setAlarm a diff)
  | .irqmap a sig =>
      let k := (s.current, a)
      .ok (s.setTimer k { s.timer k with sig := w32 (sig + 1) })
  | .idle => .ok (s.schedule .stopped)
  | .event => .ok { s with softTimer := true }
  | .tick counter => .ok { s with counter := counter }

/-- A call that returns. -/
def Step (s : State) (op : Op) (s' : State) : Prop := Allowed s op ∧ exec s op = .ok s'

/-- The state in which `init`, the first thread, begins to run: thread 0 is the idle
thread. -/
def boot : State where
  thread _ := ⟨.running, none, false, 0, 0, 0, 0, 0⟩
  active _ := []
  zombies _ := []
  freed _ := false
  next := 2
  init := 1
  current := 1
  idle := 0
  running := []
  stopped := []
  resched := []
  softZombie := false
  softTimer := false
  timer _ := ⟨false, 0, 0⟩
  timers := []
  alarm := none
  counter := 0

end Mh.Sched
