import Mh.Vm.Entry
import Mh.Lib.Run
import Mh.Lib.Copying

/-!
# Copying between two address spaces

`xcopy_from` and `xcopy_to` of `src/xcopy.c` on one CPU, with the memory that they read and write:
`pmap_hmap` and `pmap_hunmap` of `pmap.c`, `__usrcpy` of `kern.c`, and `memcpy` of
`lib/arch/i386/string/memcpy.S`.

An access goes by the entry of its page, and faults if that is not present or, for a write, not
writable: `CR0.WP` is set, so the kernel does not write to a page that is read-only.  The handler
leaves `memcpy` by `_longjmp`, with what it has done so far.  The page tables do not change during a
call, and the two address spaces may be the same one.
-/

namespace Mh.Xcopy

open Mh.Lib Mh.Vm

/-! ## The machine -/

/-- Physical memory, the entries of the pmaps by page number, the pmap of the current thread, the
entry of `KVA_HYPER`, and the locks of the pmaps. -/
structure State where
  mem : Nat → BitVec 8
  l1 : Nat → Nat → L1e
  cur : Nat
  hyper : L1e
  lock : Nat → Bool

/-- What stops a call: the assertions of `pmap_hmap`, and a lock that is never released. -/
inductive Stuck
  | uaddr
  | slot
  | spin
deriving DecidableEq, Repr

/-- The byte of physical memory that is read at offset `off` of a page. -/
def readAt (e : L1e) (off : Nat) : Option Nat :=
  if e.p then some (e.pfn * pageSize + off) else none

/-- The byte that is written there. -/
def writeAt (e : L1e) (off : Nat) : Option Nat :=
  if e.p && e.w then some (e.pfn * pageSize + off) else none

/-- Either of them. -/
def byteAt (write : Bool) : L1e → Nat → Option Nat := if write then writeAt else readAt

/-- The moves of `memcpy` for less than four bytes. -/
def trailing : Nat → List Nat
  | 0 => []
  | 1 => [1]
  | 2 => [2]
  | _ => [2, 1]

/-- The moves of `memcpy`: words of four bytes, then what is left of them. -/
def moves (sz : Nat) : List Nat := List.replicate (sz / 4) 4 ++ trailing (sz % 4)

/-! ## The functions -/

/-- `__usrcpy`, with the places of the bytes: what it returns, and the memory that it leaves. -/
def usrcpy (uaddr : Nat) (dst src : Nat → Option Nat) (sz : Nat) (m : Nat → BitVec 8) :
    Int × (Nat → BitVec 8) :=
  if !chkuaddr uaddr sz then (Errno.EFAULT.neg, m)
  else
    let (m, n) := copyUnits src dst (moves sz) 0 m
    (if n = sz then 0 else Errno.EFAULT.neg, m)

namespace State

/-- `pmap_hmap`. -/
def hmap (s : State) (pmap va : Nat) : Except Stuck State :=
  if !isuaddr va then .error .uaddr
  else if s.lock pmap then .error .spin
  else if s.hyper.p then .error .slot
  else .ok { s with
    lock := Function.update s.lock pmap true
    hyper := s.l1 pmap (vpn va) }

/-- `pmap_hunmap`. -/
def hunmap (s : State) (pmap : Nat) : State :=
  { s with lock := Function.update s.lock pmap false, hyper := invalidL1e }

/-- Byte `k` from a user address of the current thread on. -/
def user (s : State) (write : Bool) (va k : Nat) : Option Nat :=
  byteAt write (s.l1 s.cur (vpn (w32 (va + k)))) (w32 (va + k) % pageSize)

/-- Byte `k` from `KVA_HYPER + off` on, in the page. -/
def hyperAt (s : State) (write : Bool) (off k : Nat) : Option Nat :=
  byteAt write s.hyper (off + k)

/-- The source of `copy_from_user` to the page of the client, or else of `copy_to_user`. -/
def roundSrc (s : State) (write : Bool) (va xva : Nat) : Nat → Option Nat :=
  if write then s.user false va else s.hyperAt false (xva % pageSize)

/-- The destination. -/
def roundDst (s : State) (write : Bool) (va xva : Nat) : Nat → Option Nat :=
  if write then s.hyperAt true (xva % pageSize) else s.user true va

/-- The copy of a round. -/
def round (s : State) (write : Bool) (va xva sz : Nat) : Int × State :=
  let r := usrcpy va (s.roundDst write va xva) (s.roundSrc write va xva) sz s.mem
  (r.1, { s with mem := r.2 })

end State

/-- `xcopy_to`, or else `xcopy_from`, of the thread with this pmap.  `ret` is what the variable
holds. -/
def xcopy (write : Bool) (pmap : Nat) (ret : Int) (s : State) (va xva sz : Nat) :
    Except Stuck (Int × State) :=
  if sz = 0 then .ok (ret, s)
  else do
    let todo := min sz (pageSize - xva % pageSize)
    let s ← s.hmap pmap xva
    let r := s.round write va xva todo
    let s := r.2.hunmap pmap
    if r.1 ≠ 0 then return (r.1, s)
    xcopy write pmap r.1 s (w32 (va + todo)) (w32 (xva + todo)) (sz - todo)
termination_by sz
decreasing_by
  have hmod : xva % pageSize < pageSize := Nat.mod_lt _ (by decide)
  omega

/-- `xcopy_from`. -/
def xcopyFrom : Nat → Int → State → Nat → Nat → Nat → Except Stuck (Int × State) := xcopy false

/-- `xcopy_to`. -/
def xcopyTo : Nat → Int → State → Nat → Nat → Nat → Except Stuck (Int × State) := xcopy true

/-! ## Runs -/

/-- A copy, or anything else that changes memory, page tables or the current thread. -/
inductive Label
  | copy (write : Bool) (pmap : Nat) (ret : Int) (va xva sz : BitVec 32)
  | other

/-- A step.  Between two copies the locks are free, and the slot is not used for anything else. -/
def Step (s : State) (a : Label) (t : State) : Prop :=
  match a with
  | .copy write pmap ret va xva sz =>
    ∃ r, xcopy write pmap ret s va.toNat xva.toNat sz.toNat = .ok (r, t)
  | .other => t.hyper = s.hyper ∧ t.lock = s.lock

/-- No copy has been made. -/
def State.boot (mem : Nat → BitVec 8) (l1 : Nat → Nat → L1e) (cur : Nat) : State :=
  ⟨mem, l1, cur, .zero, fun _ ↦ false⟩

/-! ## What is wanted -/

/-- Where byte `k` of a copy is read. -/
def State.src (s : State) (write : Bool) (pmap va xva k : Nat) : Option Nat :=
  if write then s.user false va k
  else readAt (s.l1 pmap (vpn (xva + k))) ((xva + k) % pageSize)

/-- Where it is written. -/
def State.dst (s : State) (write : Bool) (pmap va xva k : Nat) : Option Nat :=
  if write then writeAt (s.l1 pmap (vpn (xva + k))) ((xva + k) % pageSize)
  else s.user true va k

/-- The entry by which it is written. -/
def State.dstEntry (s : State) (write : Bool) (pmap va xva k : Nat) : L1e :=
  if write then s.l1 pmap (vpn (xva + k)) else s.l1 s.cur (vpn (w32 (va + k)))

/-- What a copy returns and leaves.  The first `n` bytes are copied, and nothing else is written;
byte `k` is what the client's byte was at first if no byte before it was written over that, and none
after it over the copy.  A page that no present and writable entry of the copy has is left alone. -/
structure Copies (write : Bool) (pmap : Nat) (s : State) (va xva sz : Nat) (ret : Int)
    (t : State) : Prop where
  bytes : ∃ n ≤ sz, (ret = 0 ∧ n = sz ∨ ret = Errno.EFAULT.neg ∧ n < sz) ∧
    Copied (s.src write pmap va xva) (s.dst write pmap va xva) 0 n s.mem t.mem
  done : ret = 0 ↔ (userBase ≤ va ∧ va + sz ≤ userEnd) ∧
    Accessible (s.src write pmap va xva) (s.dst write pmap va xva) 0 sz
  kept : ∀ pfn, (∀ k < sz, (s.dstEntry write pmap va xva k).pfn = pfn →
      ¬ ((s.dstEntry write pmap va xva k).p ∧ (s.dstEntry write pmap va xva k).w)) →
    ∀ off < pageSize, t.mem (pfn * pageSize + off) = s.mem (pfn * pageSize + off)
  hyper : t.hyper.p = false
  lock : t.lock pmap = false
  locks : t.lock = s.lock
  l1 : t.l1 = s.l1

end Mh.Xcopy
