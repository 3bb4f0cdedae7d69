import Mh.Bus.Calls
import Mh.Lib.Outcome
import Mh.Sched.Model
import Mh.Sched.Runs
import Mh.Vm.Refs
import Mh.Vm.State

/-!
# System calls that hand something over

`sys_childstat` and `sys_poll` of `src/sys.c` take an item off a list of the kernel, a zombie
child or a device request, and then copy what there is to say about it to user memory.  The
copy is `__usrcpy` of `src/kern.c`: it checks the address, and gives up at the first store that
faults.  `CR0.WP` is set, so a page that is absent, read only or copy-on-write faults, and a
fault in the kernel is not resolved.

The lists are those of `Mh.Sched` and `Mh.Bus`, the pages those of `Mh.Vm`.  The stores of a
call are listed in its result.
-/

namespace Mh.Consume

open Mh.Lib

/-- A word of the machine. -/
abbrev Word := BitVec 32

/-- What is written to user memory: at each address a word. -/
abbrev Stores := List (Nat × Word)

/-! ## Copying to user memory -/

/-- The kernel can store to the page of an address in the address space of `cur`. -/
def writable (m : Vm.Sys) (cur a : Nat) : Bool := (m.l1 cur (vpn a)).p && (m.l1 cur (vpn a)).w

/-- A word can be stored at `a`, in each of the pages that it lies in. -/
def canStore (m : Vm.Sys) (cur a : Nat) : Bool := writable m cur a && writable m cur (a + 3)

/-- `memcpy` to user memory, which stores word after word: the stores that it makes, and
whether it comes to its end. -/
def memcpy (m : Vm.Sys) (cur a : Nat) : List Word → Stores × Bool
  | [] => ([], true)
  | w :: ws =>
      if canStore m cur a then
        let (stores, done) := memcpy m cur (a + 4) ws
        ((a, w) :: stores, done)
      else ([], false)

/-- `copy_to_user`, of words. -/
def copyToUser (m : Vm.Sys) (cur uaddr : Nat) (src : List Word) : Int × Stores :=
  if !chkuaddr uaddr (4 * src.length) then (Errno.EFAULT.neg, [])
  else
    let (stores, done) := memcpy m cur uaddr src
    (if done then 0 else Errno.EFAULT.neg, stores)

/-! ## The calls -/

/-- What a call returns, the state of the kernel that it leaves, and what it has written to user
memory. -/
structure Result (σ : Type) where
  ret : Int
  kern : σ
  stores : Stores

/-- The end of both calls: an error of `copy_to_user` is returned in the place of `ret`. -/
def handOver {σ : Type} (m : Vm.Sys) (cur uaddr : Nat) (src : List Word) (ret : Int) (kern : σ) :
    Result σ :=
  let (err, stores) := copyToUser m cur uaddr src
  ⟨if err ≠ 0 then err else ret, kern, stores⟩

/-- `int`, of a `pid_t`. -/
def intOf (pid : Nat) : Int := (BitVec.ofNat 32 pid).toInt

/-- `sys_childstat`; `cs` is what is on the kernel stack where the `struct sys_childstat`
comes to lie. -/
def sysChildstat (s : Sched.State) (m : Vm.Sys) (cs : Word) (ucs : Nat) : Result Sched.State :=
  if !chkuaddr ucs 4 then ⟨Errno.EFAULT.neg, s, []⟩
  else
    match s.childstat with
    | (none, s') => handOver m s.current ucs [cs] Errno.ESRCH.neg s'
    | (some child, s') =>
        let status := BitVec.ofNat 32 (s.thread child).exitStatus
        handOver m s.current ucs [status] (intOf child) s'

/-- `enum sys_poll_ior_op`. -/
def pollOp : Bus.IorOp → Word
  | .openOp => 0
  | .cloneOp _ => 1
  | .outOp .. => 2
  | .closeOp => 3

/-- The union of `struct sys_poll_ior`: the size is a byte, the port lies behind it in the
second half of the word. -/
def pollUnion : Bus.IorOp → List Word
  | .openOp | .closeOp => [0, 0, 0]
  | .cloneOp cloneId => [BitVec.ofNat 32 cloneId, 0, 0]
  | .outOp size port val =>
      [BitVec.ofNat 32 (size % 2 ^ 8 + port % 2 ^ 16 * 2 ^ 16), BitVec.ofNat 32 val,
        BitVec.ofNat 32 (val / 2 ^ 32)]

/-- `struct sys_poll_ior`, as `usrdev_poll` fills it in. -/
def pollWords (p : Bus.PollIor) : List Word :=
  pollOp p.op :: pollUnion p.op ++
    [BitVec.ofNat 32 p.pid, BitVec.ofNat 32 p.uid, BitVec.ofNat 32 p.gid]

/-- `sys_poll`, by `cur`; `devpoll` fills `sior` in unless it returns an error. -/
def sysPoll (s : Bus.State) (m : Vm.Sys) (cur did uior : Nat) :
    Except Bus.Panic (Result Bus.State) := do
  match ← s.devpoll cur did with
  | (id, none, s') => return ⟨id, s', []⟩
  | (id, some sior, s') => return handOver m cur uior (pollWords sior) id s'

/-! ## What is asked of them -/

/-- The child that `sys_childstat` is to return. -/
def waiting (s : Sched.State) : Option Nat := (s.zombies s.current).head?

/-- The request that `sys_poll` is to return. -/
def pending (s : Bus.State) (cur did : Nat) : Option Bus.Ior :=
  if Bus.maxDevs ≤ did then none
  else (s.usrdevs (cur, did)).bind fun d ↦ (s.usr d).ioreqs.head?

/-- A call that is there to return `item`, if there is one: when it returns an error it has left
everything where it was, for the next call to find; and when there is nothing to return it
writes nothing. -/
structure Atomic {σ ι : Type} (s : σ) (item : Option ι) (r : Result σ) : Prop where
  keeps : r.ret < 0 → r.kern = s
  silent : item = none → r.stores = []

end Mh.Consume

/-!
## When a call can be made again

Both calls take their item before they copy, and nothing puts it back.  `sys_childstat` copies
even when there is no child, and then it copies what was on the stack.  So a call is atomic as
far as its destination can be written: `sys_poll` when it can, or when there is no request
(`PollSafe`), and `sys_childstat` when it can and there is a child, or when it cannot and there
is none (`ChildstatSafe`).
-/

namespace Mh.Consume

open Mh.Lib

/-- `copy_to_user` of `n` words to `uaddr` comes to its end. -/
def Copies (m : Vm.Sys) (cur uaddr n : Nat) : Prop :=
  chkuaddr uaddr (4 * n) ∧ ∀ i < n, canStore m cur (uaddr + 4 * i)

/-- The address does not pass `__chkuaddr`; or there is a child, with a pid that is not negative
as an `int`, and its exit status can be stored; or there is none, and nothing can be stored. -/
def ChildstatSafe (s : Sched.State) (m : Vm.Sys) (ucs : Nat) : Prop :=
  chkuaddr ucs 4 → match s.zombies s.current with
    | [] => ¬Copies m s.current ucs 1
    | child :: _ => child % 2 ^ 32 < 2 ^ 31 ∧ Copies m s.current ucs 1

/-- There is no request, or the seven words that describe it can be stored. -/
def PollSafe (s : Bus.State) (m : Vm.Sys) (cur did uior : Nat) : Prop :=
  pending s cur did ≠ none → Copies m cur uior 7

/-! ## The copy -/

section Copy

variable {m : Vm.Sys} {cur a uaddr : Nat} {w : Word} {ws : List Word}

theorem memcpy_done :
    (memcpy m cur a ws).2 = true ↔ ∀ i < ws.length, canStore m cur (a + 4 * i) := by
  induction ws generalizing a with
  | nil => simp [memcpy]
  | cons w ws ih =>
      have hstep : ∀ i, a + 4 + 4 * i = a + 4 * (i + 1) := fun i ↦ by omega
      rw [memcpy, List.length_cons, Nat.forall_lt_succ_left, Nat.mul_zero, Nat.add_zero]
      split
      · next h => simp [ih, h, hstep]
      · next h => simp [h]

/-- `copy_to_user` returns 0 when it comes to its end. -/
theorem copyToUser_of_copies (h : Copies m cur uaddr ws.length) :
    (copyToUser m cur uaddr ws).1 = 0 := by
  have hdone := memcpy_done.2 h.2
  simp [copyToUser, h.1, hdone]

/-- Otherwise it returns `-EFAULT`. -/
theorem copyToUser_of_not_copies (h : ¬Copies m cur uaddr ws.length) :
    (copyToUser m cur uaddr ws).1 = Errno.EFAULT.neg := by
  unfold copyToUser
  split
  · rfl
  · next hc =>
      have hdone : (memcpy m cur uaddr ws).2 ≠ true := fun hd ↦
        h ⟨by simpa using hc, memcpy_done.1 hd⟩
      simp [hdone]

/-- A word is stored, or nothing is. -/
theorem copyToUser_stores : (copyToUser m cur uaddr [w]).2 = [] ↔ ¬Copies m cur uaddr 1 := by
  by_cases hc : chkuaddr uaddr 4
  · by_cases hs : canStore m cur uaddr
    · have hcopies : Copies m cur uaddr 1 := ⟨hc, by simpa using hs⟩
      simp [copyToUser, memcpy, hc, hs, hcopies]
    · have hcopies : ¬Copies m cur uaddr 1 := fun h ↦ hs (by simpa using h.2 0 Nat.one_pos)
      simp [copyToUser, memcpy, hc, hs, hcopies]
  · have hcopies : ¬Copies m cur uaddr 1 := fun h ↦ hc h.1
    simp [copyToUser, hc, hcopies]

variable {σ : Type} {ret : Int} {kern : σ}

/-- What a call returns that hands something over. -/
theorem handOver_ret_lt : (handOver m cur uaddr ws ret kern).ret < 0 ↔
    (Copies m cur uaddr ws.length → ret < 0) := by
  by_cases h : Copies m cur uaddr ws.length
  · simp [handOver, copyToUser_of_copies h, h]
  · simp [handOver, copyToUser_of_not_copies h, h, Errno.neg]

end Copy

/-! ## `sys_childstat` -/

section Childstat

variable {s : Sched.State} {m : Vm.Sys} {cs : Word} {ucs child : Nat} {children : List Nat}

/-- A pid is returned as an error from `2 ^ 31` on. -/
theorem intOf_neg {pid : Nat} : intOf pid < 0 ↔ 2 ^ 31 ≤ pid % 2 ^ 32 := by
  rw [intOf, BitVec.toInt_eq_toNat_cond, BitVec.toNat_ofNat]
  split <;> omega

/-- A call with an address that does not pass does nothing. -/
theorem sysChildstat_of_bad (h : ¬chkuaddr ucs 4) :
    sysChildstat s m cs ucs = ⟨Errno.EFAULT.neg, s, []⟩ := by
  simp [sysChildstat, h]

/-- A call with no child to return. -/
theorem sysChildstat_of_nil (h : chkuaddr ucs 4) (hz : s.zombies s.current = []) :
    Atomic s (waiting s) (sysChildstat s m cs ucs) ↔ ¬Copies m s.current ucs 1 := by
  have hcall : sysChildstat s m cs ucs = handOver m s.current ucs [cs] Errno.ESRCH.neg s := by
    simp [sysChildstat, h, Sched.State.childstat, hz]
  have hwait : waiting s = none := by rw [waiting, hz, List.head?_nil]
  rw [hcall]
  constructor
  · intro ha
    exact copyToUser_stores.1 (ha.silent hwait)
  · intro hc
    exact ⟨fun _ ↦ rfl, fun _ ↦ copyToUser_stores.2 hc⟩

/-- A call with a child to return. -/
theorem sysChildstat_of_cons (h : chkuaddr ucs 4) (hz : s.zombies s.current = child :: children) :
    Atomic s (waiting s) (sysChildstat s m cs ucs) ↔
      child % 2 ^ 32 < 2 ^ 31 ∧ Copies m s.current ucs 1 := by
  obtain ⟨s', hstat, hne⟩ : ∃ s', s.childstat = (some child, s') ∧ s' ≠ s := by
    refine ⟨_, by rw [Sched.State.childstat, hz], fun he ↦ ?_⟩
    have hlen := congrArg (fun u ↦ (u.zombies s.current).length) he
    simp [hz] at hlen
  have hcall : sysChildstat s m cs ucs = handOver m s.current ucs
      [BitVec.ofNat 32 (s.thread child).exitStatus] (intOf child) s' := by
    simp [sysChildstat, h, hstat]
  have hwait : waiting s ≠ none := by
    rw [waiting, hz]
    exact Option.some_ne_none child
  rw [hcall]
  constructor
  · intro ha
    by_contra hc
    refine hne (ha.keeps (handOver_ret_lt.2 fun hcopies ↦ intOf_neg.2 ?_))
    exact Nat.le_of_not_lt fun hlt ↦ hc ⟨hlt, hcopies⟩
  · rintro ⟨hlt, hc⟩
    refine ⟨fun hr ↦ ?_, fun hn ↦ absurd hn hwait⟩
    exact absurd (intOf_neg.1 (handOver_ret_lt.1 hr hc)) (Nat.not_le_of_lt hlt)

/-- When a call of `sys_childstat` is atomic. -/
theorem sysChildstat_atomic :
    Atomic s (waiting s) (sysChildstat s m cs ucs) ↔ ChildstatSafe s m ucs := by
  by_cases h : chkuaddr ucs 4
  · cases hz : s.zombies s.current with
    | nil =>
        rw [sysChildstat_of_nil h hz, ChildstatSafe, hz]
        exact ⟨fun hc _ ↦ hc, fun hc ↦ hc h⟩
    | cons child children =>
        rw [sysChildstat_of_cons h hz, ChildstatSafe, hz]
        exact ⟨fun hc _ ↦ hc, fun hc ↦ hc h⟩
  · rw [sysChildstat_of_bad h]
    exact iff_of_true ⟨fun _ ↦ rfl, fun _ ↦ rfl⟩ fun hc ↦ absurd hc h

end Childstat

/-! ## `sys_poll` -/

section Poll

variable {s : Bus.State} {m : Vm.Sys} {cur did uior d : Nat} {ior : Bus.Ior} {iors : List Bus.Ior}

/-- A description of a request is seven words long. -/
theorem length_pollWords (p : Bus.PollIor) : (pollWords p).length = 7 := by
  cases p with
  | mk id op pid uid gid => cases op <;> rfl

/-- `usrdev_poll` takes a request off the queue, if there is one. -/
theorem usrdevPoll_ends : Ends
    (fun r ↦ (s.usr d).ioreqs.head? = none ∧ r.1 = none ∧ r.2 = s ∨
      (s.usr d).ioreqs.head? ≠ none ∧ (∃ p, r.1 = some p) ∧ r.2 ≠ s)
    (· = .null) (s.usrdevPoll d) := by
  unfold Bus.State.usrdevPoll
  dsimp only
  split
  · next hq => exact .inl ⟨by rw [hq, List.head?_nil], rfl, rfl⟩
  · next ior iors hq =>
      have hhead : (s.usr d).ioreqs.head? ≠ none := by
        rw [hq]
        exact Option.some_ne_none ior
      split
      · exact rfl
      · refine .inr ⟨hhead, ⟨_, rfl⟩, fun he ↦ ?_⟩
        have hlen := congrArg (fun u ↦ (u.usr d).ioreqs.length) he
        simp [Bus.State.setUsr, hq] at hlen

/-- A call that finds no request does nothing; one that finds one takes it. -/
theorem devpoll_ends : Ends
    (fun r ↦ pending s cur did = none ∧ r.1 < 0 ∧ r.2.1 = none ∧ r.2.2 = s ∨
      pending s cur did ≠ none ∧ 0 ≤ r.1 ∧ (∃ p, r.2.1 = some p) ∧ r.2.2 ≠ s)
    (· = .null) (s.devpoll cur did) := by
  have hneg : ∀ e : Errno, e.neg < 0 := Errno.neg_lt_zero
  unfold Bus.State.devpoll pending
  split
  · exact .inl ⟨rfl, hneg .EINVAL, rfl, rfl⟩
  · cases s.usrdevs (cur, did) with
    | none => exact .inl ⟨rfl, hneg .ENOENT, rfl, rfl⟩
    | some d =>
        refine usrdevPoll_ends.bind fun r hr ↦ ?_
        obtain ⟨p, s'⟩ := r
        rcases hr with ⟨hq, rfl, rfl⟩ | ⟨hq, ⟨p, rfl⟩, hne⟩
        · exact .inl ⟨hq, hneg .ENOENT, rfl, rfl⟩
        · exact .inr ⟨hq, Int.natCast_nonneg p.id, ⟨p, rfl⟩, hne⟩

/-- When a call of `sys_poll` is atomic. -/
theorem sysPoll_atomic : Ends
    (fun r ↦ Atomic s (pending s cur did) r ↔ PollSafe s m cur did uior)
    (· = .null) (sysPoll s m cur did uior) := by
  refine devpoll_ends.bind fun r hr ↦ ?_
  obtain ⟨id, sior, s'⟩ := r
  rcases hr with ⟨hn, -, rfl, rfl⟩ | ⟨hp, hpos, ⟨sior, rfl⟩, hne⟩
  · exact iff_of_true ⟨fun _ ↦ rfl, fun _ ↦ rfl⟩ fun hp ↦ absurd hn hp
  · have hlen := length_pollWords sior
    constructor
    · intro ha _
      by_contra hc
      exact hne (ha.keeps (handOver_ret_lt.2 fun hcopies ↦ absurd (hlen ▸ hcopies) hc))
    · intro hsafe
      refine ⟨fun hr ↦ ?_, fun hn ↦ absurd hn hp⟩
      exact absurd (handOver_ret_lt.1 hr (hlen.symm ▸ hsafe hp)) (Int.not_lt.2 hpos)

end Poll

/-! ## Both calls -/

/-- When the calls are atomic: an error leaves the child or the request where it was, and a call
that finds nothing writes nothing. -/
theorem consumers_atomic (s : Sched.State) (b : Bus.State) (m : Vm.Sys) (cs : Word)
    (ucs cur did uior : Nat) :
    (Atomic s (waiting s) (sysChildstat s m cs ucs) ↔ ChildstatSafe s m ucs) ∧
    Ends (fun r ↦ Atomic b (pending b cur did) r ↔ PollSafe b m cur did uior) (· = .null)
      (sysPoll b m cur did uior) :=
  ⟨sysChildstat_atomic, sysPoll_atomic⟩

/-- `init` waits for its child with a pointer to a page that it has not touched, and the child is
lost; with no child, what was on the stack is written to a page that it has. -/
theorem consumers_not_atomic : ∃ s,
    Run Sched.Step Sched.boot [.fork, .sti, .wait, .exit 7, .softirq] s ∧ waiting s = some 2 ∧
      chkuaddr 0x400000 4 = true ∧
      (∀ cs, (sysChildstat s Vm.demo cs 0x400000).ret = Errno.EFAULT.neg ∧
        waiting (sysChildstat s Vm.demo cs 0x400000).kern = none) ∧
      waiting Sched.boot = none ∧
      ∀ cs, (sysChildstat Sched.boot Vm.demoMapped cs 0x400000).stores = [(0x400000, cs)] := by
  have h : Run Sched.Step Sched.boot [.fork, .sti, .wait, .exit 7, .softirq] _ :=
    .cons ⟨Nat.one_ne_zero, rfl⟩ (.cons ⟨trivial, rfl⟩ (.cons ⟨trivial, rfl⟩
      (.cons ⟨trivial, rfl⟩ (.cons ⟨trivial, rfl⟩ (.nil _)))))
  exact ⟨_, h, rfl, by decide, fun _ ↦ ⟨rfl, rfl⟩, rfl, fun _ ↦ rfl⟩

end Mh.Consume
