import Mh.Vm.Kern

/-!
# Private memories

What a process is meant to see of its memory, and what the page-fault handler of
the user library does to make it so.

The specification is the machine `PStep`: every process has a memory of its own, a
partial function from addresses to bytes.  A fork gives the child a copy of it,
and nothing a process does changes the memory of another.

The implementation is the machine `MStep`.  Its processes share physical pages
through the kernel (`exec`), and carry out `__sys_pgfaulthandler` of
`libmrg/vm.c` on a page fault.  The handler copies a page byte by byte, and other
processes may run between any two of its steps.
-/

namespace Mh.Vm

open Mh.Lib

/-! ## The specification -/

/-- What can be observed of a process. -/
inductive Ev
  /-- reading the byte `c` -/
  | read (pid va : Nat) (c : UInt8)
  /-- writing the byte `c` -/
  | write (pid va : Nat) (c : UInt8)
  /-- `vmmap`, asked for by the program or done by the handler on demand -/
  | map (pid va : Nat)
  | fork (pid child : Nat)
  | exit (pid : Nat)
  /-- a step of the implementation that changes no memory -/
  | tau
deriving DecidableEq, Repr

/-- The memories of all processes; a process that does not exist has none. -/
abbrev Private : Type := Nat → Option (Nat → Option UInt8)

/-- A memory with a page of zeros at the page `v`. -/
def zeroPage (f : Nat → Option UInt8) (v : Nat) : Nat → Option UInt8 :=
  fun a ↦ if vpn a = v then some 0 else f a

/-- A step of the specification. -/
inductive PStep : Private → Ev → Private → Prop
  | /-- A read returns what the process's own memory holds. -/
    read {A : Private} {pid va : Nat} {c : UInt8} {f : Nat → Option UInt8} :
      A pid = some f → f va = some c → PStep A (.read pid va c) A
  | /-- A write changes the process's own memory, where it is mapped. -/
    write {A : Private} {pid va : Nat} {c : UInt8} {f : Nat → Option UInt8} :
      A pid = some f → (f va).isSome →
      PStep A (.write pid va c) (Function.update A pid (some (Function.update f va (some c))))
  | /-- A new page is full of zeros. -/
    map {A : Private} {pid va : Nat} {f : Nat → Option UInt8} : A pid = some f →
      PStep A (.map pid va) (Function.update A pid (some (zeroPage f (vpn va))))
  | /-- The child starts with the memory of its parent. -/
    fork {A : Private} {pid child : Nat} {f : Nat → Option UInt8} :
      A pid = some f → A child = none →
      PStep A (.fork pid child) (Function.update A child (some f))
  | exit {A : Private} {pid : Nat} {f : Nat → Option UInt8} : A pid = some f →
      PStep A (.exit pid) (Function.update A pid none)
  | tau {A : Private} : PStep A .tau A

/-- The memories at boot: one process, with nothing mapped. -/
def Private.boot (init : Nat) : Private := fun pid ↦ if pid = init then some fun _ ↦ none else none

/-- What a process finds at an address after the events of a history, the last one
first: its own last write, or else what its parent found there when it forked. -/
def lastValue : List Ev → Nat → Nat → Option UInt8
  | [], _, _ => none
  | .write p a c :: h, pid, va => if p = pid ∧ a = va then some c else lastValue h pid va
  | .map p a :: h, pid, va => if p = pid ∧ vpn a = vpn va then some 0 else lastValue h pid va
  | .fork p child :: h, pid, va => if child = pid then lastValue h p va else lastValue h pid va
  | _ :: h, pid, va => lastValue h pid va

/-- The memories hold what the history says. -/
def Remembers (A : Private) (h : List Ev) : Prop :=
  ∀ pid f, A pid = some f → ∀ va, f va = lastValue h pid va

theorem Remembers.boot (init : Nat) : Remembers (.boot init) [] := by
  intro pid f hf va
  simp only [Private.boot] at hf
  split at hf <;> cases hf
  rfl

theorem Remembers.step {A A' : Private} {h : List Ev} {ev : Ev} (hr : Remembers A h)
    (hs : PStep A ev A') : Remembers A' (ev :: h) := by
  intro q g hg va
  cases hs with
  | read _ _ => exact hr q g hg va
  | tau => exact hr q g hg va
  | @write pid a c f hf _ =>
      by_cases hq : q = pid
      · subst hq
        rw [Function.update_self, Option.some.injEq] at hg
        subst hg
        by_cases ha : va = a
        · subst ha
          simp [lastValue]
        · rw [Function.update_of_ne ha, hr q f hf va]
          simp [lastValue, Ne.symm ha]
      · rw [Function.update_of_ne hq] at hg
        rw [hr q g hg va]
        simp [lastValue, Ne.symm hq]
  | @map pid a f hf =>
      by_cases hq : q = pid
      · subst hq
        rw [Function.update_self, Option.some.injEq] at hg
        subst hg
        by_cases ha : vpn va = vpn a
        · simp [lastValue, zeroPage, ha]
        · simp [lastValue, zeroPage, ha, Ne.symm ha, hr q f hf va]
      · rw [Function.update_of_ne hq] at hg
        rw [hr q g hg va]
        simp [lastValue, Ne.symm hq]
  | @fork pid child f hf _ =>
      by_cases hq : q = child
      · subst hq
        rw [Function.update_self, Option.some.injEq] at hg
        subst hg
        rw [hr pid f hf va]
        simp [lastValue]
      · rw [Function.update_of_ne hq] at hg
        rw [hr q g hg va]
        simp [lastValue, Ne.symm hq]
  | @exit pid f _ =>
      have hq : q ≠ pid := by
        rintro rfl
        rw [Function.update_self] at hg
        cases hg
      rw [Function.update_of_ne hq] at hg
      exact hr q g hg va

theorem Remembers.run {A A' : Private} {h evs : List Ev} (hr : Remembers A h)
    (hrun : Run PStep A evs A') : Remembers A' (evs.reverse ++ h) := by
  induction hrun generalizing h with
  | nil _ => exact hr
  | cons hs _ ih =>
      rw [List.reverse_cons, List.append_assoc]
      exact ih (hr.step hs)

/-- Every read in a run of the specification returns what the history says. -/
theorem read_eq_lastValue {A : Private} {init pid va : Nat} {c : UInt8} {pre post : List Ev}
    (h : Run PStep (.boot init) (pre ++ .read pid va c :: post) A) :
    lastValue pre.reverse pid va = some c := by
  obtain ⟨A₁, h₁, h₂⟩ := h.split
  have hr := (Remembers.boot init).run h₁
  rw [List.append_nil] at hr
  cases h₂ with
  | cons hs _ =>
      cases hs with
      | @read _ _ _ f hf hc => rw [← hr pid f hf va, hc]

/-! ## The page-fault handler -/

/-- `vm_prot_t`. -/
inductive VmProt
  | nil | ro | rx | rw | wx
deriving DecidableEq, Repr

/-- The value of a `vm_prot_t`: the permission word of `sys_map`. -/
def VmProt.perm : VmProt → Nat
  | .nil => 0
  | .ro => 1
  | .rx => 2
  | .rw => 3
  | .wx => 4

/-- `VACOW`. -/
def vacow : Nat := 2 ^ 30

/-- `maxbrk`. -/
def maxbrk : Nat := 2 ^ 30

/-- `VM_MINMMAP_ADDRESS`. -/
def vmMinmmap : Nat := 768 * pageSize

/-- The layout of a program's address space.  `brk` refuses to go beyond `maxbrk`,
the areas of `vmap_info` are allocated from `VM_MINMMAP_ADDRESS` on, and they end
where the stack begins. -/
structure Layout where
  /-- `__getbrk()` -/
  brk : Nat
  /-- `_scode` -/
  scode : Nat
  /-- `_ecode` -/
  ecode : Nat
  /-- `_sdata` -/
  sdata : Nat
  /-- `USRSTACK - MAXSSIZ` -/
  stackLo : Nat
  /-- `USRSTACK` -/
  stackHi : Nat
  /-- the protection of the area that `vmap_info` finds -/
  area : Nat → Option VmProt
  brk_le : brk ≤ maxbrk
  stack_le : vmMinmmap ≤ stackLo
  area_le : ∀ va prot, area va = some prot → vmMinmmap ≤ va

/-- `_resolve_va`. -/
def resolveVa (L : Layout) (va : Nat) : VmProt :=
  if va / pageSize = 0 then .nil
  else if va < L.brk then
    if L.sdata ≤ va then .rw
    else if va < L.ecode ∧ L.scode < va then .rx
    else .nil
  else if L.stackLo ≤ va ∧ va ≤ L.stackHi then .rw
  else (L.area va).getD .nil

/-- The page at `VACOW` belongs to no area. -/
theorem resolveVa_vacow (L : Layout) {va : Nat} (h : vpn va = vpn vacow) :
    resolveVa L va = .nil := by
  have hlo : vacow ≤ va ∧ va < vmMinmmap := by
    simp only [vpn, vacow, vmMinmmap, pageSize, pageShift] at h ⊢
    omega
  have hbrk : ¬va < L.brk := by
    have := L.brk_le
    simp only [maxbrk] at this
    simp only [vacow] at hlo
    omega
  have hstack : ¬(L.stackLo ≤ va ∧ va ≤ L.stackHi) := fun hs ↦ by
    have := L.stack_le
    omega
  have harea : L.area va = none := by
    cases ha : L.area va with
    | none => rfl
    | some prot => exact absurd (L.area_le va prot ha) (Nat.not_le.2 hlo.2)
  simp [resolveVa, hbrk, hstack, harea]

/-- What the handler goes on to do. -/
inductive HndCall
  /-- `sys_die(-3)` -/
  | die
  /-- `vmmap(va, prot)` -/
  | vmmap
  /-- `vmmap(VACOW, VM_PROT_RW)`, `memcpy`, `sys_move(va, VACOW)` -/
  | cow
  /-- `vmchprot(va, prot)` -/
  | vmchprot
deriving DecidableEq, Repr

/-- `__sys_pgfaulthandler`.  `_resolve_va` never returns `VM_PROT_PASSTHROUGH`. -/
def pgfaulthandler (prot : VmProt) (x : Xcpterr) : HndCall :=
  if prot = .nil then .die
  else if !x.prot then .vmmap
  else if x.cow && x.write then .cow
  else if x.write && (prot = .rw || prot = .wx) then .vmchprot
  else .die

/-! ## The implementation -/

/-- Where a process is. -/
inductive Hnd
  /-- in the program -/
  | user
  /-- at the start of the handler -/
  | fault (va : Nat) (x : Xcpterr)
  /-- in the handler's `memcpy`, with `i` bytes done -/
  | copy (va i : Nat)
deriving DecidableEq, Repr

/-- Where a page fault leads: back to the program, or to the handler. -/
def Hnd.ofFault (va : Nat) : Option Xcpterr → Hnd
  | none => .user
  | some x => .fault va x

/-- The machine: the kernel's state, and where each process is. -/
structure Mach where
  sys : Sys
  hnd : Nat → Hnd

/-- A user-mode access that the entry allows. -/
def L1e.allows (e : L1e) (write : Bool) : Bool := e.p && e.u && (!write || e.w)

/-- A store to memory. -/
def Sys.poke (s : Sys) (pfn off : Nat) (c : UInt8) : Sys :=
  s.setMem pfn (Function.update (s.mem pfn) off c)

@[simp] theorem Sys.l1_poke (s : Sys) (pfn off pid v : Nat) (c : UInt8) :
    (s.poke pfn off c).l1 pid v = s.l1 pid v := rfl

theorem Sys.poke_mem_self (s : Sys) (pfn off : Nat) (c : UInt8) :
    (s.poke pfn off c).mem pfn = Function.update (s.mem pfn) off c := by
  simp [poke, setMem]

theorem Sys.poke_mem_of_ne (s : Sys) {pfn q : Nat} (off : Nat) (c : UInt8) (h : q ≠ pfn) :
    (s.poke pfn off c).mem q = s.mem q := by
  simp [poke, setMem, h]

/-- A system call that checks the address `va` first is observed as `ev`, or kills
the process. -/
def callEv (pid va : Nat) (ev : Ev) : Ev :=
  if chkuaddr (truncPage va) pageSize then ev else .exit pid

/-- A process in the program or in the handler is scheduled. -/
def Mach.At (m : Mach) (pid : Nat) (h : Hnd) : Prop := m.sys.Running pid ∧ m.hnd pid = h

/-- The machine after a step of `pid`, which then is at `h`. -/
def Mach.goto (m : Mach) (pid : Nat) (s : Sys) (h : Hnd) : Mach :=
  ⟨s, Function.update m.hnd pid h⟩

/-- A step of the implementation. -/
inductive MStep : Mach → Ev → Mach → Prop
  | /-- The program reads a byte. -/
    read {m : Mach} {pid va : Nat} : m.At pid .user → isuaddr va →
      (m.sys.l1 pid (vpn va)).allows false →
      MStep m (.read pid va (m.sys.mem (m.sys.l1 pid (vpn va)).pfn (va % pageSize))) m
  | /-- The program writes a byte. -/
    write {m : Mach} {pid va : Nat} {c : UInt8} : m.At pid .user → isuaddr va →
      (m.sys.l1 pid (vpn va)).allows true →
      MStep m (.write pid va c)
        (m.goto pid (m.sys.poke (m.sys.l1 pid (vpn va)).pfn (va % pageSize) c) .user)
  | /-- An access that is not allowed: the kernel repairs the entry and lets the
    program try again, or starts its handler. -/
    fault {m : Mach} {pid va : Nat} {present write : Bool} {x : Option Xcpterr} {s' : Sys} :
      m.At pid .user → (isuaddr va → (m.sys.l1 pid (vpn va)).allows write = false) →
      (isuaddr va → present = (m.sys.l1 pid (vpn va)).p) →
      pmapFault m.sys pid va ⟨present, write, true⟩ = .ok (x, s') →
      MStep m .tau (m.goto pid s' (.ofFault va x))
  | /-- The program asks for a page. -/
    map {m : Mach} {pid va : Nat} {prot : VmProt} {root : Bool} {pg : Page} {s' : Sys} :
      m.At pid .user → prot ≠ .nil → vpn va ≠ vpn vacow →
      exec m.sys pid (.map va (prot.perm + mapNew) root pg) = .ok s' →
      MStep m (callEv pid va (.map pid va)) (m.goto pid s' .user)
  | /-- The program forks.  The child starts in the program. -/
    fork {m : Mach} {pid : Nat} {stale : Tlbf} {pick : Nat → Page} {s' : Sys} :
      m.At pid .user → exec m.sys pid (.fork stale pick) = .ok s' →
      MStep m (.fork pid m.sys.nextpid) (m.goto m.sys.nextpid s' .user)
  | /-- The program exits. -/
    exit {m : Mach} {pid : Nat} {s' : Sys} : m.At pid .user →
      exec m.sys pid .exit = .ok s' → MStep m (.exit pid) (m.goto pid s' .user)
  | /-- A parent collects the status of a thread that has exited. -/
    thfree {m : Mach} {pid th : Nat} {s' : Sys} : m.At pid .user →
      exec m.sys pid (.thfree th) = .ok s' → MStep m .tau (m.goto pid s' .user)
  | /-- The handler gives up. -/
    hndDie {m : Mach} {pid va : Nat} {x : Xcpterr} {L : Layout} {s' : Sys} :
      m.At pid (.fault va x) → pgfaulthandler (resolveVa L va) x = .die →
      exec m.sys pid .exit = .ok s' → MStep m (.exit pid) (m.goto pid s' .user)
  | /-- The handler maps a page on demand. -/
    hndMap {m : Mach} {pid va : Nat} {x : Xcpterr} {L : Layout} {root : Bool} {pg : Page}
      {s' : Sys} : m.At pid (.fault va x) → pgfaulthandler (resolveVa L va) x = .vmmap →
      exec m.sys pid (.map va ((resolveVa L va).perm + mapNew) root pg) = .ok s' →
      MStep m (callEv pid va (.map pid va)) (m.goto pid s' .user)
  | /-- The handler makes a page writable. -/
    hndChprot {m : Mach} {pid va : Nat} {x : Xcpterr} {L : Layout} {root : Bool} {pg : Page}
      {s' : Sys} : m.At pid (.fault va x) → pgfaulthandler (resolveVa L va) x = .vmchprot →
      exec m.sys pid (.map va (resolveVa L va).perm root pg) = .ok s' →
      MStep m (callEv pid va .tau) (m.goto pid s' .user)
  | /-- The handler takes a page to copy to. -/
    hndCow {m : Mach} {pid va : Nat} {x : Xcpterr} {L : Layout} {root : Bool} {pg : Page}
      {s' : Sys} : m.At pid (.fault va x) → pgfaulthandler (resolveVa L va) x = .cow →
      exec m.sys pid (.map vacow (VmProt.rw.perm + mapNew) root pg) = .ok s' →
      MStep m .tau (m.goto pid s' (.copy va 0))
  | /-- The handler copies a byte. -/
    hndCopy {m : Mach} {pid va i : Nat} : m.At pid (.copy va i) → i < pageSize →
      (m.sys.l1 pid (vpn va)).allows false → (m.sys.l1 pid (vpn vacow)).allows true →
      MStep m .tau (m.goto pid
        (m.sys.poke (m.sys.l1 pid (vpn vacow)).pfn i (m.sys.mem (m.sys.l1 pid (vpn va)).pfn i))
        (.copy va (i + 1)))
  | /-- The handler moves the copy into place. -/
    hndMove {m : Mach} {pid va : Nat} {s' : Sys} : m.At pid (.copy va pageSize) →
      exec m.sys pid (.move va vacow) = .ok s' →
      MStep m (callEv pid va .tau) (m.goto pid s' .user)

/-- At boot every process is in its program. -/
def Mach.Boot (m : Mach) : Prop := Vm.Boot m.sys ∧ ∀ pid, m.hnd pid = .user

/-- The memory of a process as the implementation has it. -/
def view (s : Sys) (pid a : Nat) : Option UInt8 :=
  if isuaddr a && vpn a != vpn vacow && (s.l1 pid (vpn a)).p then
    some (s.mem (s.l1 pid (vpn a)).pfn (a % pageSize))
  else none

/-- The private memories that the implementation represents. -/
def Mach.privateMem (m : Mach) : Private :=
  fun pid ↦ if m.sys.Running pid then some (view m.sys pid) else none

end Mh.Vm
