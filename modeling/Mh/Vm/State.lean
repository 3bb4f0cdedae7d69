import Mh.Vm.Entry
import Mh.Lib.Run
import Mh.Lib.Tally

/-!
# Address spaces and the page database

The state that the virtual memory code works on: one page table for each thread
that has not been freed, the user part of the page database (`usr.ref` and
`usr.wir` of `pfndb.c`) and the contents of the physical pages.

`pgalloc` is seen from the outside here.  It may hand out any page that is tagged
free, so the page is an argument, `pg`; the words of the page database entry that
`usr.ref` and `usr.wir` share with the free-list records are left as they were,
hence arbitrary.  When the page named is not free the kernel has run out of
memory, and panics.

A function that can panic returns in `Except Panic`.  Locks are left out: each
function runs to its end.
-/

namespace Mh.Vm

open Mh.Lib

/-- Where the kernel stops. -/
inductive Panic
  /-- `assert(__isuaddr(va))` -/
  | notUaddr
  /-- `assert(is_prot_present(prot) && "can't unmap with chprot")` -/
  | protNotPresent
  /-- `assert(is_prot_user(prot))` -/
  | protNotUser
  /-- `assert(pfn_is_userpage(pfn))` -/
  | notUserpage
  /-- `assert(pfn_is_mmio(pfn))` -/
  | notMmio
  /-- `assert(pfn <= pfndb_max)` -/
  | pfnRange
  /-- `assert(p->type == PFNT_USER)` -/
  | pfnNotUser
  /-- `assert(l1e_normal(ol1e))` in `pmap_uchprot` -/
  | notNormal
  /-- `assert(l1e & PG_U)` in `pmap_copy` -/
  | l1eNotUser
  /-- `assert(!ret && (pfn == PFN_INVALID))` in `thfork` -/
  | zcowBusy
  /-- `assert(err & 4)` in `_pmap_fault` -/
  | faultNotUser
  /-- `assert(pfn != 0)` in `pgfree` -/
  | pfnZero
  /-- `panic("OOM")` -/
  | oom
  /-- `assert(pid != 0)` in `getnewpid` -/
  | pidWrap
  /-- `panic("Killed System Process %d\n")` -/
  | killedInit
  /-- A page fault in kernel mode: `__goodbye()` -/
  | kernelFault
deriving DecidableEq, Repr

/-- `assert`. -/
def kassert (b : Bool) (e : Panic) : Except Panic Unit := if b then .ok () else .error e

@[simp] theorem kassert_eq_ok {b : Bool} {e : Panic} {x : Unit} :
    kassert b e = .ok x ↔ b = true := by
  cases b <;> simp [kassert]

/-- The user part of a page database entry. -/
structure Ipfn where
  type : PfnType
  /-- `usr.ref` -/
  ref : Nat
  /-- `usr.wir` -/
  wir : Nat
deriving DecidableEq, Repr

/-- What `pgalloc` hands out: a page, and the stale words its entry holds. -/
structure Page where
  pfn : Nat
  ref : Nat
  wir : Nat
deriving DecidableEq, Repr

/-- An address space. -/
structure Pmap where
  l1s : Nat → L1e
  tlbflush : Tlbf

/-- The state of the virtual memory code. -/
structure Sys where
  /-- `pfndb_max` -/
  pfndbMax : Nat
  /-- `pfndb` -/
  db : Nat → Ipfn
  /-- The bytes of every physical page, by offset. -/
  mem : Nat → Nat → UInt8
  /-- The address space of each thread, by pid. -/
  pmap : Nat → Pmap
  /-- The threads that have not been freed. -/
  live : Finset Nat
  /-- Those of them that have exited. -/
  zombie : Finset Nat
  /-- `__kern_init` -/
  init : Nat
  /-- The next pid `getnewpid` returns. -/
  nextpid : Nat

namespace Sys

variable (s : Sys)

/-- The l1 entry of page `v` in the address space of `pid`. -/
def l1 (pid v : Nat) : L1e := (s.pmap pid).l1s v

/-- `__setl1e`. -/
def setL1e (pid v : Nat) (e : L1e) : Sys :=
  let pm := { s.pmap pid with l1s := Function.update (s.pmap pid).l1s v e }
  { s with pmap := Function.update s.pmap pid pm }

/-- `pmap->tlbflush = f`. -/
def setFlush (pid : Nat) (f : Tlbf) : Sys :=
  { s with pmap := Function.update s.pmap pid { s.pmap pid with tlbflush := f } }

/-- Replace a page database entry. -/
def setDb (pfn : Nat) (e : Ipfn) : Sys := { s with db := Function.update s.db pfn e }

/-- Replace the contents of a page. -/
def setMem (pfn : Nat) (c : Nat → UInt8) : Sys := { s with mem := Function.update s.mem pfn c }

@[simp] theorem setL1e_db (pid v : Nat) (e : L1e) : (s.setL1e pid v e).db = s.db := rfl
@[simp] theorem setL1e_mem (pid v : Nat) (e : L1e) : (s.setL1e pid v e).mem = s.mem := rfl
@[simp] theorem setL1e_pfndbMax (pid v : Nat) (e : L1e) :
    (s.setL1e pid v e).pfndbMax = s.pfndbMax := rfl

@[simp] theorem setFlush_db (pid : Nat) (f : Tlbf) : (s.setFlush pid f).db = s.db := rfl
@[simp] theorem setFlush_mem (pid : Nat) (f : Tlbf) : (s.setFlush pid f).mem = s.mem := rfl
@[simp] theorem setFlush_pfndbMax (pid : Nat) (f : Tlbf) :
    (s.setFlush pid f).pfndbMax = s.pfndbMax := rfl

@[simp] theorem setDb_pfndbMax (pfn : Nat) (e : Ipfn) :
    (s.setDb pfn e).pfndbMax = s.pfndbMax := rfl
@[simp] theorem setDb_db_self (pfn : Nat) (e : Ipfn) : (s.setDb pfn e).db pfn = e := by
  simp [setDb]
theorem setDb_db_of_ne {pfn q : Nat} (h : q ≠ pfn) (e : Ipfn) :
    (s.setDb pfn e).db q = s.db q := by
  simp [setDb, h]

@[simp] theorem setMem_pfndbMax (pfn : Nat) (c : Nat → UInt8) :
    (s.setMem pfn c).pfndbMax = s.pfndbMax := rfl

@[simp] theorem l1_setDb (pfn pid v : Nat) (e : Ipfn) : (s.setDb pfn e).l1 pid v = s.l1 pid v := rfl
@[simp] theorem l1_setMem (pfn pid v : Nat) (c : Nat → UInt8) :
    (s.setMem pfn c).l1 pid v = s.l1 pid v := rfl

@[simp] theorem l1_setFlush (pid pid' v : Nat) (f : Tlbf) :
    (s.setFlush pid f).l1 pid' v = s.l1 pid' v := by
  by_cases h : pid' = pid
  · subst h; simp [l1, setFlush]
  · simp [l1, setFlush, h]

@[simp] theorem l1_setL1e_self (pid v : Nat) (e : L1e) : (s.setL1e pid v e).l1 pid v = e := by
  simp [l1, setL1e]

theorem l1_setL1e_of_ne {pid v pid' v' : Nat} (h : pid' ≠ pid ∨ v' ≠ v) (e : L1e) :
    (s.setL1e pid v e).l1 pid' v' = s.l1 pid' v' := by
  by_cases hp : pid' = pid
  · subst hp
    have hv : v' ≠ v := h.resolve_left (not_not_intro rfl)
    simp [l1, setL1e, hv]
  · simp [l1, setL1e, hp]

theorem l1_setL1e (pid v pid' v' : Nat) (e : L1e) :
    (s.setL1e pid v e).l1 pid' v' = if pid' = pid ∧ v' = v then e else s.l1 pid' v' := by
  split
  · rename_i h; obtain ⟨rfl, rfl⟩ := h; simp
  · rename_i h; exact s.l1_setL1e_of_ne (not_and_or.1 h) e

theorem setL1e_setL1e (pid v : Nat) (e e' : L1e) :
    (s.setL1e pid v e).setL1e pid v e' = s.setL1e pid v e' := by
  simp [setL1e]

end Sys

/-! ## The page database -/

/-- `pfndb_type`. -/
def pfndbType (s : Sys) (pfn : Nat) : Except Panic PfnType := do
  kassert (pfn ≤ s.pfndbMax) .pfnRange
  return (s.db pfn).type

/-- The two assertions at the head of the counter functions of `pfndb.c`. -/
def pfndbUser (s : Sys) (pfn : Nat) : Except Panic Ipfn := do
  kassert (pfn ≤ s.pfndbMax) .pfnRange
  kassert ((s.db pfn).type == .user) .pfnNotUser
  return s.db pfn

/-- A counter of the page database after `++`. -/
def incCount (n : Nat) : Nat := (n + 1) % 2 ^ 64

/-- A counter of the page database after `--`. -/
def decCount (n : Nat) : Nat := (n + (2 ^ 64 - 1)) % 2 ^ 64

/-- `pfndb_incref`. -/
def pfndbIncref (s : Sys) (pfn : Nat) : Except Panic Sys := do
  let e ← pfndbUser s pfn
  return s.setDb pfn { e with ref := incCount e.ref }

/-- `pfndb_decref`, with the new count. -/
def pfndbDecref (s : Sys) (pfn : Nat) : Except Panic (Nat × Sys) := do
  let e ← pfndbUser s pfn
  return (decCount e.ref, s.setDb pfn { e with ref := decCount e.ref })

/-- `pfndb_getref`. -/
def pfndbGetref (s : Sys) (pfn : Nat) : Except Panic Nat := do
  let e ← pfndbUser s pfn
  return e.ref

/-- `pfndb_clrref`. -/
def pfndbClrref (s : Sys) (pfn : Nat) : Except Panic Sys := do
  let e ← pfndbUser s pfn
  return s.setDb pfn { e with ref := 0 }

/-- `pfndb_incwir`. -/
def pfndbIncwir (s : Sys) (pfn : Nat) : Except Panic Sys := do
  let e ← pfndbUser s pfn
  return s.setDb pfn { e with wir := incCount e.wir }

/-- `pfndb_decwir`, with the new count. -/
def pfndbDecwir (s : Sys) (pfn : Nat) : Except Panic (Nat × Sys) := do
  let e ← pfndbUser s pfn
  return (decCount e.wir, s.setDb pfn { e with wir := decCount e.wir })

/-- `pfndb_clrwir`. -/
def pfndbClrwir (s : Sys) (pfn : Nat) : Except Panic Sys := do
  let e ← pfndbUser s pfn
  return s.setDb pfn { e with wir := 0 }

/-- `pgalloc(1, PFNT_USER, flags)`, returning the page `pg`. -/
def pgalloc (s : Sys) (pg : Page) : Except Panic Sys := do
  kassert (pg.pfn != 0 && pg.pfn < s.pfndbMax && (s.db pg.pfn).type.isPgzfree) .oom
  return s.setDb pg.pfn ⟨.user, pg.ref, pg.wir⟩

/-- `pgfree(pfn, 1)`, also `__freepage`. -/
def pgfree (s : Sys) (pfn : Nat) : Except Panic Sys := do
  kassert (pfn != 0) .pfnZero
  return s.setDb pfn { s.db pfn with type := .free }

/-- `__allocuser` and `__allocuser32`, which differ in the zones they take pages
from. -/
def allocuser (s : Sys) (pg : Page) : Except Panic Sys := do
  let s ← pgalloc s pg
  let s ← pfndbClrref s pg.pfn
  pfndbClrwir s pg.pfn

/-! ## Counting entries -/

/-- The number of user entries with the property `p`, over all address spaces. -/
def Sys.count (s : Sys) (p : L1e → Bool) : Nat := ∑ pid ∈ s.live, tally userVpns p (s.pmap pid).l1s

/-- The number of entries that map a page. -/
def Sys.refs (s : Sys) (pfn : Nat) : Nat := s.count (L1e.maps pfn)

/-- The number of entries that own a page. -/
def Sys.owners (s : Sys) (pfn : Nat) : Nat := s.count (L1e.owns pfn)

namespace Sys

variable {s : Sys} {pid v : Nat}

@[simp] theorem count_setFlush (pid : Nat) (f : Tlbf) (p : L1e → Bool) :
    (s.setFlush pid f).count p = s.count p := by
  refine Finset.sum_congr rfl fun q _ ↦ ?_
  by_cases h : q = pid
  · subst h; simp [setFlush]
  · simp [setFlush, h]

/-- Setting an entry moves the count by that entry's share. -/
theorem count_setL1e (hpid : pid ∈ s.live) (hv : v ∈ userVpns) (e : L1e) (p : L1e → Bool) :
    (s.setL1e pid v e).count p + (p (s.l1 pid v)).toNat = s.count p + (p e).toNat := by
  have h₁ := sum_update hpid s.pmap { s.pmap pid with l1s := Function.update (s.pmap pid).l1s v e }
    fun pm ↦ tally userVpns p pm.l1s
  have h₂ := tally_update hv p (s.pmap pid).l1s e
  change (∑ q ∈ s.live, _) + _ = (∑ q ∈ s.live, _) + _
  simp only [setL1e, l1] at h₁ h₂ ⊢
  omega

/-- An entry with the property makes the count positive. -/
theorem count_pos (hpid : pid ∈ s.live) (hv : v ∈ userVpns) {p : L1e → Bool}
    (h : p (s.l1 pid v)) : 0 < s.count p :=
  Nat.lt_of_lt_of_le (tally_pos hv h)
    (Finset.single_le_sum (f := fun q ↦ tally userVpns p (s.pmap q).l1s)
      (fun _ _ ↦ Nat.zero_le _) hpid)

theorem count_mono {p q : L1e → Bool} (hpq : ∀ e, p e → q e) : s.count p ≤ s.count q :=
  Finset.sum_le_sum fun _ _ ↦ tally_mono hpq _

/-- Two different entries with the property make the count at least two. -/
theorem two_le_count {pid' v' : Nat} {p : L1e → Bool} (hpid : pid ∈ s.live) (hv : v ∈ userVpns)
    (hpid' : pid' ∈ s.live) (hv' : v' ∈ userVpns) (hne : pid' ≠ pid ∨ v' ≠ v)
    (h : p (s.l1 pid v)) (h' : p (s.l1 pid' v')) (hz : p L1e.zero = false) : 2 ≤ s.count p := by
  have hupd := s.count_setL1e hpid hv L1e.zero p
  have hpos : 0 < (s.setL1e pid v .zero).count p := by
    have hl : p ((s.setL1e pid v .zero).l1 pid' v') := by rwa [s.l1_setL1e_of_ne hne]
    exact count_pos (s := s.setL1e pid v .zero) hpid' hv' hl
  simp only [h, hz, Bool.toNat_true, Bool.toNat_false] at hupd
  omega

theorem owners_le_refs (pfn : Nat) : s.owners pfn ≤ s.refs pfn :=
  count_mono fun _ ↦ L1e.maps_of_owns

end Sys

end Mh.Vm
