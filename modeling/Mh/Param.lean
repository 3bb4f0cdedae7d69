import Mathlib.Tactic.Common
import Mathlib.Order.Interval.Finset.Nat

/-!
# Machine parameters

The constants of `i386/src/ukparam.h`, `i386/src/param.h`, `i386/src/vmparam.h`
and `src/param.h` that the models share, with the address checks `__isuaddr` and
`__chkuaddr`, the page type tags of `pfndb.h` and the error codes of `errno.h`.

Pages are 2MB.  Virtual addresses (`va`) are natural numbers below `2 ^ 32`, and
sums of addresses and sizes are taken modulo `2 ^ 32`, as `vaddr_t` and `size_t`
are 32 bits wide.  A virtual page number (`v`) is the index of an address's l1
entry; a physical page number (`pfn`) is a `pfn_t`.
-/

namespace Mh

/-- The value of a 32-bit word. -/
def w32 (n : Nat) : Nat := n % 2 ^ 32

/-- The value of a 64-bit word. -/
def w64 (n : Nat) : Nat := n % 2 ^ 64

/-- `PAGE_SHIFT`. -/
def pageShift : Nat := 21

/-- `PAGE_SIZE`. -/
def pageSize : Nat := 2 ^ pageShift

/-- `trunc_page`. -/
def truncPage (a : Nat) : Nat := a / pageSize * pageSize

/-- `round_page`, on 32-bit words. -/
def roundPage (a : Nat) : Nat := truncPage (w32 (a + (pageSize - 1)))

/-- `USERBASE`, also `ZCOWBASE`: the first page is never mapped. -/
def userBase : Nat := 1 * pageSize

/-- `ZCOWEND`, also `COWBASE`. -/
def zcowEnd : Nat := 2 * pageSize

/-- `USEREND`, also `COWEND`: `__paeoffva(2, LINOFF, 0)`. -/
def userEnd : Nat := 2 * 2 ^ 30 + 508 * pageSize

/-- `L2OFF(va) * NPTES + L1OFF(va)`: the index of the l1 entry of an address. -/
def vpn (va : Nat) : Nat := va / pageSize

/-- `__isuaddr`. -/
def isuaddr (va : Nat) : Bool := userBase ≤ va && va < userEnd

/-- `__chkuaddr`. -/
def chkuaddr (va sz : Nat) : Bool :=
  isuaddr va && w32 (va + sz) ≤ userEnd && va < w32 (va + sz)

/-- The l1 entries of the user range. -/
def userVpns : Finset Nat := Finset.Ico (vpn userBase) (vpn userEnd)

/-- The address ranges walked by the loops of `pmap_copy` and `thfork`. -/
def zcowVpns : List Nat := List.range' (vpn userBase) (vpn zcowEnd - vpn userBase)

@[inherit_doc zcowVpns]
def cowVpns : List Nat := List.range' (vpn zcowEnd) (vpn userEnd - vpn zcowEnd)

/-- The constants in numbers. -/
theorem pageSize_eq : pageSize = 2097152 := by decide

@[inherit_doc pageSize_eq]
theorem userBase_eq : userBase = 2097152 := by decide

@[inherit_doc pageSize_eq]
theorem userEnd_eq : userEnd = 3212836864 := by decide

theorem pageSize_pos : 0 < pageSize := Nat.two_pow_pos pageShift

theorem vpn_userBase : vpn userBase = 1 := by decide

theorem vpn_zcowEnd : vpn zcowEnd = 2 := by decide

theorem vpn_userEnd : vpn userEnd = 1532 := by decide

@[simp] theorem mem_userVpns {v : Nat} : v ∈ userVpns ↔ 1 ≤ v ∧ v < 1532 := by
  rw [userVpns, Finset.mem_Ico, vpn_userBase, vpn_userEnd]

theorem mem_cowVpns {v : Nat} : v ∈ cowVpns ↔ 2 ≤ v ∧ v < 1532 := by
  rw [cowVpns, vpn_zcowEnd, vpn_userEnd, List.mem_range'_1]

/-- The user range in numbers. -/
theorem isuaddr_iff {va : Nat} : isuaddr va ↔ 2097152 ≤ va ∧ va < 3212836864 := by
  rw [isuaddr, Bool.and_eq_true, decide_eq_true_eq, decide_eq_true_eq]
  rfl

/-- `__chkuaddr` in numbers. -/
theorem chkuaddr_iff {va sz : Nat} :
    chkuaddr va sz ↔ isuaddr va ∧ (va + sz) % 2 ^ 32 ≤ 3212836864 ∧ va < (va + sz) % 2 ^ 32 := by
  rw [chkuaddr, Bool.and_eq_true, Bool.and_eq_true, decide_eq_true_eq, decide_eq_true_eq,
    and_assoc]
  rfl

/-- Whether an address is a user address is decided by its page. -/
theorem isuaddr_iff_vpn {va : Nat} : isuaddr va ↔ vpn va ∈ userVpns := by
  rw [isuaddr_iff]
  simp only [mem_userVpns, vpn, pageSize, pageShift]
  omega

/-- A user address has a user page. -/
theorem vpn_mem_userVpns {va : Nat} (h : isuaddr va) : vpn va ∈ userVpns :=
  isuaddr_iff_vpn.1 h

/-- The page of a user address passes `__chkuaddr`. -/
theorem chkuaddr_of_isuaddr {va : Nat} (h : isuaddr va) : chkuaddr (truncPage va) pageSize := by
  rw [isuaddr_iff] at h
  rw [chkuaddr_iff, isuaddr_iff]
  simp only [truncPage, pageSize, pageShift]
  omega

/-- An address whose page passes `__chkuaddr` is a user address. -/
theorem isuaddr_of_chkuaddr {va : Nat} (h : chkuaddr (truncPage va) pageSize) :
    isuaddr va := by
  rw [chkuaddr_iff, isuaddr_iff] at h
  rw [isuaddr_iff]
  simp only [truncPage, pageSize, pageShift] at h
  omega

/-- A range that `__chkuaddr` lets pass. -/
theorem range_of_chkuaddr {va sz : Nat} (hsz : sz < 2 ^ 32) (h : chkuaddr va sz) :
    userBase ≤ va ∧ 0 < sz ∧ va + sz ≤ userEnd := by
  rw [chkuaddr_iff, isuaddr_iff] at h
  rw [userBase_eq, userEnd_eq]
  omega

/-- `__chkuaddr` lets a range of user addresses pass. -/
theorem chkuaddr_of_range {va sz : Nat} (hva : userBase ≤ va) (hpos : 0 < sz)
    (hend : va + sz ≤ userEnd) : chkuaddr va sz := by
  rw [userBase_eq] at hva
  rw [userEnd_eq] at hend
  rw [chkuaddr_iff, isuaddr_iff]
  omega

/-- The page type tags (`PFNT_*`), in the order of their values. -/
inductive PfnType
  | invalid | heap | freePzLone | freePzStrt | freePzTerm | fixmem | user | free | system | mmio
deriving DecidableEq, Repr

/-- `is_pfnt_pgzfree`. -/
def PfnType.isPgzfree : PfnType → Bool
  | .free | .freePzLone | .freePzStrt | .freePzTerm => true
  | _ => false

/-- `is_pfnt_pgzterm`. -/
def PfnType.isPgzterm : PfnType → Bool
  | .freePzLone | .freePzTerm => true
  | _ => false

/-- `is_pfnt_pgzstart`. -/
def PfnType.isPgzstart : PfnType → Bool
  | .freePzLone | .freePzStrt => true
  | _ => false

/-- The error codes. -/
inductive Errno
  | EPERM | ENOENT | ESRCH | EBADF | ENOMEM | EACCES | EFAULT | EBUSY | EEXIST | ENODEV
  | EINVAL | ENFILE | EMFILE | ENOSYS
deriving DecidableEq, Repr

/-- The value returned for an error: the negated code. -/
def Errno.neg : Errno → Int
  | .EPERM => -1
  | .ENOENT => -2
  | .ESRCH => -3
  | .EBADF => -9
  | .ENOMEM => -12
  | .EACCES => -13
  | .EFAULT => -14
  | .EBUSY => -16
  | .EEXIST => -17
  | .ENODEV => -19
  | .EINVAL => -22
  | .ENFILE => -23
  | .EMFILE => -24
  | .ENOSYS => -78

theorem Errno.neg_lt_zero (e : Errno) : e.neg < 0 := by cases e <;> decide

end Mh
