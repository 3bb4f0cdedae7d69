import Mathlib.Algebra.Order.Ring.Nat
import Mh.Bus.Calls

/-!
# The client table and the calls of the owner

`SYS_WRIOSPC`, `SYS_IRQ`, `SYS_READ` and `SYS_WRITE` let the owner of a user device name an
entry of the client table.  The two that copy memory check that the entry is in the table
and in use; `usrdev_irq` checks the index only, and `usrdev_wriospace` checks neither.
`owner_calls_checked` says on which arguments the calls keep to the table all the same.
-/

namespace Mh.Bus

open Mh.Lib

/-- The calls of an owner that name a client. -/
inductive OwnerCall
  | wriospace (did id port val : Nat)
  | irq (did id irq : Nat)
  | xcopy (did id iova sz va : Nat) (xcopy : Int)

namespace OwnerCall

/-- The number of the device. -/
def did : OwnerCall → Nat
  | .wriospace did .. | .irq did .. | .xcopy did .. => did

/-- The client id. -/
def id : OwnerCall → Nat
  | .wriospace _ id .. | .irq _ id .. | .xcopy _ id .. => id

end OwnerCall

namespace State

variable (s : State)

/-- The call, made by the thread `t`: what it returns, and the state. -/
def ownerCall (t : Nat) : OwnerCall → Except Panic (Int × State)
  | .wriospace did id port val => s.sysWriospace t did id port val
  | .irq did id irq => s.sysIrq t did id irq
  | .xcopy did id iova sz va xcopy => s.sysXcopy t did id iova sz va xcopy

/-- The thread `t` has created the device `d` under the number `did`. -/
def Owns (t did d : Nat) : Prop := did < maxDevs ∧ s.usrdevs (t, did) = some d

/-- The entry `id` of the client table of `d` exists and is in use. -/
def Client (d id : Nat) : Prop := id < maxUsrdevRems ∧ ((s.usr d).remths id).use

/-- The call fails and changes nothing, or it names a client of a device of the caller. -/
def Checked (t : Nat) (c : OwnerCall) : Prop :=
  (∃ e : Int, e < 0 ∧ s.ownerCall t c = .ok (e, s)) ∨ ∃ d, s.Owns t c.did d ∧ s.Client d c.id

/-- The id passed to `SYS_WRIOSPC` is that of a client, and so is the one passed to `SYS_IRQ`
unless it or the line is out of range. -/
def NamesClient (t : Nat) : OwnerCall → Prop
  | .wriospace did id _ _ => ∀ d, s.Owns t did d → s.Client d id
  | .irq did id irq =>
    id < maxUsrdevRems → irq < irqmapSz → ∀ d, s.Owns t did d → s.Client d id
  | .xcopy .. => True

variable {s} {t did d : Nat}

/-- Without the device, the calls fail before they look at the client. -/
theorem withUsrdev_of_not_owns (h : ∀ d, ¬ s.Owns t did d)
    (f : Nat → Except Panic (Int × State)) :
    ∃ e : Int, e < 0 ∧ s.withUsrdev t did f = .ok (e, s) := by
  unfold withUsrdev
  by_cases hd : maxDevs ≤ did
  · exact ⟨_, Errno.neg_lt_zero .EINVAL, if_pos hd⟩
  · rw [if_neg hd]
    cases hu : s.usrdevs (t, did) with
    | none => exact ⟨_, Errno.neg_lt_zero .ENOENT, rfl⟩
    | some d => exact absurd ⟨Nat.lt_of_not_le hd, hu⟩ (h d)

/-- With the device, they go on to the driver. -/
theorem withUsrdev_of_owns (h : s.Owns t did d) (f : Nat → Except Panic (Int × State)) :
    s.withUsrdev t did f = f d := by
  unfold withUsrdev
  rw [if_neg (Nat.not_le.2 h.1), h.2]

/-- A thread has at most one device under a number. -/
theorem Owns.unique {d' : Nat} (h : s.Owns t did d) (h' : s.Owns t did d') : d = d' :=
  Option.some.inj (h.2.symm.trans h'.2)

/-- A call on a device of the caller is checked just when it fails and changes nothing, or
names a client of that device. -/
theorem checked_iff_of_owns {c : OwnerCall} (h : s.Owns t c.did d) :
    s.Checked t c ↔
      (∃ e : Int, e < 0 ∧ s.ownerCall t c = .ok (e, s)) ∨ s.Client d c.id := by
  refine or_congr_right ⟨?_, fun hc ↦ ⟨d, h, hc⟩⟩
  rintro ⟨d', hd', hc⟩
  rwa [h.unique hd']

/-- `usrdev_wriospace` never fails. -/
theorem checked_wriospace {id port val : Nat} :
    s.Checked t (.wriospace did id port val) ↔ s.NamesClient t (.wriospace did id port val) := by
  by_cases hd : ∃ d, s.Owns t did d
  · obtain ⟨d, hd⟩ := hd
    rw [checked_iff_of_owns (show s.Owns t (OwnerCall.wriospace did id port val).did d from hd)]
    constructor
    · rintro (⟨e, he, hr⟩ | hc) d' hd'
      · rw [ownerCall, sysWriospace, withUsrdev_of_owns hd] at hr
        have : (0 : Int) = e := congrArg Prod.fst (Except.ok.inj hr)
        omega
      · rwa [hd'.unique hd]
    · exact fun h ↦ .inr (h d hd)
  · rw [not_exists] at hd
    exact iff_of_true (.inl (withUsrdev_of_not_owns hd _)) fun d h ↦ absurd h (hd d)

/-- `usrdev_irq` fails just for numbers out of range. -/
theorem checked_irq {id irq : Nat} :
    s.Checked t (.irq did id irq) ↔ s.NamesClient t (.irq did id irq) := by
  by_cases hd : ∃ d, s.Owns t did d
  · obtain ⟨d, hd⟩ := hd
    rw [checked_iff_of_owns (show s.Owns t (OwnerCall.irq did id irq).did d from hd), ownerCall,
      sysIrq, withUsrdev_of_owns hd, usrdevIrq]
    by_cases hr : maxUsrdevRems ≤ id ∨ irqmapSz ≤ irq
    · rw [if_pos hr]
      refine iff_of_true (.inl ⟨_, Errno.neg_lt_zero .EINVAL, rfl⟩) fun hid hirq ↦ ?_
      exact absurd hr (not_or.2 ⟨Nat.not_le.2 hid, Nat.not_le.2 hirq⟩)
    · rw [if_neg hr]
      obtain ⟨hid, hirq⟩ := not_or.1 hr
      constructor
      · rintro (⟨e, he, h⟩ | hc) - - d' hd'
        · -- the calls that reach the client table return 0, or do not return
          rw [hd'.unique hd]
          by_cases hu : ((s.usr d).remths id).use
          · exact ⟨Nat.lt_of_not_le hid, hu⟩
          · rw [if_neg fun h ↦ hu h.2] at h
            have : (0 : Int) = e := congrArg Prod.fst (Except.ok.inj h)
            omega
        · rwa [hd'.unique hd]
      · exact fun h ↦ .inr (h (Nat.lt_of_not_le hid) (Nat.lt_of_not_le hirq) d hd)
  · rw [not_exists] at hd
    exact iff_of_true (.inl (withUsrdev_of_not_owns hd _)) fun _ _ d h ↦ absurd h (hd d)

/-- `usrdev_read` and `usrdev_write` check the client. -/
theorem checked_xcopy {id iova sz va : Nat} {xcopy : Int} :
    s.Checked t (.xcopy did id iova sz va xcopy) := by
  by_cases hva : chkuaddr (truncPage va) sz
  · have hcall : s.ownerCall t (.xcopy did id iova sz va xcopy) =
        s.withUsrdev t did fun d ↦ .ok (s.usrdevXcopy d id iova sz xcopy) := by
      simp [ownerCall, sysXcopy, hva]
    by_cases hd : ∃ d, s.Owns t did d
    · obtain ⟨d, hd⟩ := hd
      rw [checked_iff_of_owns (show s.Owns t (OwnerCall.xcopy did id iova sz va xcopy).did d from
        hd), hcall, withUsrdev_of_owns hd, usrdevXcopy]
      by_cases hid : maxUsrdevRems ≤ id
      · rw [if_pos hid]
        exact .inl ⟨_, Errno.neg_lt_zero .EINVAL, rfl⟩
      · rw [if_neg hid]
        by_cases hu : ((s.usr d).remths id).use
        · exact .inr ⟨Nat.lt_of_not_le hid, hu⟩
        · rw [Bool.eq_false_of_not_eq_true hu]
          exact .inl ⟨_, Errno.neg_lt_zero .ENOENT, rfl⟩
    · rw [not_exists] at hd
      rw [Checked, hcall]
      exact .inl (withUsrdev_of_not_owns hd _)
  · refine .inl ⟨_, Errno.neg_lt_zero .EINVAL, ?_⟩
    simp [ownerCall, sysXcopy, hva]

end State

/-- The owner's calls keep to the clients of the table, or fail and change nothing, just when
`SYS_WRIOSPC` and `SYS_IRQ` are given the id of a client. -/
theorem owner_calls_checked (s : State) (t : Nat) (c : OwnerCall) :
    s.Checked t c ↔ s.NamesClient t c := by
  cases c with
  | wriospace did id port val => exact State.checked_wriospace
  | irq did id irq => exact State.checked_irq
  | xcopy did id iova sz va xcopy => exact iff_of_true State.checked_xcopy trivial

/-- `init` creates a device that nobody has opened and writes to the I/O space of its client
256, one beyond the table: the call returns 0, and the memory there has changed. -/
theorem owner_call_unchecked :
    ∃ s s', Run Step (State.boot 1 2 3) [.call 1 (.creat 7 ⟨0, 0, 0, fun _ ↦ 0⟩ 1 0o111)] s ∧
      ¬ s.Checked 1 (.wriospace 0 256 0 9) ∧
      s.ownerCall 1 (.wriospace 0 256 0 9) = .ok (0, s') ∧
      ((s.usr 3).remths 256).iospace 0 = 0 ∧ ((s'.usr 3).remths 256).iospace 0 = 9 := by
  have h : Run Step (State.boot 1 2 3)
      [.call 1 (.creat 7 ⟨0, 0, 0, fun _ ↦ 0⟩ 1 0o111)] _ := .cons ⟨rfl, rfl⟩ (.nil _)
  refine ⟨_, _, h, fun hc ↦ ?_, rfl, rfl, rfl⟩
  have hno := State.checked_wriospace.1 hc 3 ⟨by decide, rfl⟩
  exact absurd hno.1 (by decide)

end Mh.Bus

/-!
## A word through the I/O space of a client

`devwriospace` of `libmrg/dev.c` writes to the I/O space of a client: by way of `sys_wriospc` of
`libuk`, the registers of `int 0x21`, `sys_call` and `usrdev_wriospace`.  The client reads it with
`SYS_IN`, by way of `din`, `sys_in` and `_usrdev_in`.  `sys_wriospc` takes the word as an
`unsigned long`, which has 32 bits on i386.
-/

namespace Mh.Bus

open Mh.Lib

/-! ## The call, register by register -/

/-- The registers of `struct usrframe` that a system call is made in. -/
structure Regs where
  eax : BitVec 32
  edi : BitVec 32
  esi : BitVec 32
  ecx : BitVec 32
  edx : BitVec 32
deriving DecidableEq, Repr

/-- `SYS_IN`. -/
def sysInNo : BitVec 32 := 0x22

/-- `SYS_WRIOSPC`. -/
def sysWriospcNo : BitVec 32 := 0x32

/-- `__syscall3`; `r` are the registers before. -/
def syscall3 (r : Regs) (sys a1 a2 a3 : BitVec 32) : Regs :=
  { r with eax := sys, edi := a1, esi := a2, ecx := a3 }

/-- `__syscall4`. -/
def syscall4 (r : Regs) (sys a1 a2 a3 a4 : BitVec 32) : Regs :=
  { r with eax := sys, edi := a1, esi := a2, ecx := a3, edx := a4 }

/-- `sys_wriospc` of `libuk`. -/
def sysWriospc (r : Regs) (did id port val : BitVec 32) : Regs :=
  syscall4 r sysWriospcNo did id port val

/-- `devwriospace` of `libmrg`; `val` becomes the `unsigned long` that `sys_wriospc` takes. -/
def devwriospace (r : Regs) (did id port : BitVec 32) (val : BitVec 64) : Regs :=
  sysWriospc r did id port (val.truncate 32)

/-- `din` of `libmrg` and `sys_in` of `libuk`. -/
def din (r : Regs) (dd port valptr : BitVec 32) : Regs := syscall3 r sysInNo dd port valptr

/-- `IOPORT_BYTE`, `IOPORT_WORD`, `IOPORT_DWORD` and `IOPORT_QWORD`: an access of `2 ^ k` bytes
at `p`. -/
def ioport (p k : Nat) : BitVec 32 := .ofNat 32 (p <<< 2 ||| k)

namespace State

variable (s : State)

/-- `VECT_SYSC`: `sys_call` with the registers of the thread `t`, for the two calls that are made
here. -/
def trap (t : Nat) (r : Regs) (hw : Nat) (fault : Bool) : Option (Except Panic SysRes) :=
  if r.eax = sysWriospcNo then
    some do
      let (ret, s') ← s.sysWriospace t r.edi.toNat r.esi.toNat r.ecx.toNat r.edx.toNat
      return ⟨ret, none, s'⟩
  else if r.eax = sysInNo then
    some (s.sysIn t r.edi.toNat r.esi.toNat hw r.ecx.toNat fault)
  else none

/-- The byte `i` of the I/O space of a client. -/
def ioByte (d id i : Nat) : Nat := ((s.usr d).remths id).iospace i

/-- The descriptor `dd` of the thread `t` is the client `id` of the user device `d`. -/
structure Reaches (t dd d id : Nat) : Prop where
  desc : dd < maxBusDevs
  plg : (s.devs (t, dd)).plg
  dev : (s.devs (t, dd)).dev = some d
  devid : (s.devs (t, dd)).devid = id
  online : (s.dev d).offline = false
  kind : (s.dev d).kind = .usr

/-- What a read of `n` bytes gives, when the low `n` bytes of `v` are there. -/
def lowBytes (n v : Nat) : Nat := v % 256 ^ n + (2 ^ 64 - 256 ^ n)

/-- What `SYS_IN` gives to the client. -/
def ReadsWord (t : Nat) (r : Regs) (dd port valptr : BitVec 32) (w : Nat) : Prop :=
  ∀ hw, s.trap t (din r dd port valptr) hw false = some (.ok ⟨0, some (some w), s⟩)

/-- Nothing but the bytes `p`, ..., `p + n - 1` of the client `id` of `d` is changed. -/
def KeepsOthers (s' : State) (d id p n : Nat) : Prop :=
  ∀ d' id' i, ¬ (d' = d ∧ id' = id ∧ p ≤ i ∧ i < p + n) → s'.ioByte d' id' i = s.ioByte d' id' i

/-- No write, whatever its port, changes a byte behind the I/O space. -/
def WritesInside (cur : Nat) (did id : BitVec 32) : Prop :=
  ∀ r port v hw fault s',
    s.trap cur (devwriospace r did id port v) hw fault = some (.ok ⟨0, none, s'⟩) →
    ∀ d id' i, iospaceSz ≤ i → s'.ioByte d id' i = s.ioByte d id' i

/-- No read, whatever its port, depends on a byte behind the I/O space. -/
def ReadsInside (t d : Nat) (dd valptr : BitVec 32) (id : Nat) : Prop :=
  ∀ r port (s₂ : State), s₂.Reaches t dd.toNat d id →
    (∀ i < iospaceSz, s₂.ioByte d id i = s.ioByte d id i) →
    ∃ w, s.ReadsWord t r dd port valptr w ∧ s₂.ReadsWord t r dd port valptr w

end State

/-! ## Bytes of a word -/

/-- The word with `m` bytes. -/
theorem foldr_bytes_succ (f : Nat → Nat) (m : Nat) :
    (List.range (m + 1)).foldr (fun i v ↦ f i + 256 * v) 0 =
      f 0 + 256 * (List.range m).foldr (fun i v ↦ f (i + 1) + 256 * v) 0 := by
  rw [List.range_succ_eq_map, List.foldr_cons, List.foldr_map]

/-- The word with `m` bytes 255. -/
theorem foldr_bytes_full (m : Nat) :
    (List.range m).foldr (fun _ v ↦ 255 + 256 * v) 0 = 256 ^ m - 1 := by
  induction m with
  | zero => rfl
  | succ m ih =>
      rw [foldr_bytes_succ (fun _ ↦ 255), ih, Nat.pow_succ]
      have hpos : 0 < 256 ^ m := Nat.pow_pos (by decide)
      omega

/-- The word with the low `n` bytes of `v`, and `m` bytes 255 above them. -/
theorem foldr_bytes_low (n m v : Nat) :
    (List.range (n + m)).foldr
        (fun i w ↦ (if i < n then v / 256 ^ i % 256 else 255) + 256 * w) 0 =
      v % 256 ^ n + (256 ^ (n + m) - 256 ^ n) := by
  induction n generalizing v with
  | zero =>
      rw [Nat.zero_add, Nat.pow_zero, Nat.mod_one, Nat.zero_add]
      exact foldr_bytes_full m
  | succ n ih =>
      have hshift : ∀ i, (if i + 1 < n + 1 then v / 256 ^ (i + 1) % 256 else 255) =
          if i < n then v / 256 / 256 ^ i % 256 else 255 := by
        intro i
        rw [Nat.pow_succ', Nat.div_div_eq_div_mul]
        by_cases hi : i < n
        · rw [if_pos hi, if_pos (Nat.succ_lt_succ hi)]
        · rw [if_neg hi, if_neg fun h ↦ hi (Nat.lt_of_succ_lt_succ h)]
      rw [Nat.succ_add, foldr_bytes_succ]
      simp only [hshift]
      have hzero : (if 0 < n + 1 then v / 256 ^ 0 % 256 else 255) = v % 256 := by
        rw [if_pos (Nat.succ_pos n), Nat.pow_zero, Nat.div_one]
      rw [hzero, ih, Nat.pow_succ 256 (n + m), Nat.pow_succ', Nat.mod_mul]
      have hle : 256 ^ n ≤ 256 ^ (n + m) := Nat.pow_le_pow_right (by decide) (Nat.le_add_right n m)
      omega

/-- What is read back of a word whose low `n` bytes are in the I/O space. -/
theorem bytesVal_low {n : Nat} (hn : n ≤ 8) (v : Nat) :
    bytesVal (fun i ↦ if i < n then v / 256 ^ i % 256 else 255) = State.lowBytes n v := by
  obtain ⟨m, hm⟩ := Nat.exists_eq_add_of_le hn
  have h := foldr_bytes_low n m v
  rw [← hm] at h
  exact h

/-- A word depends on its bytes. -/
theorem bytesVal_congr {f g : Nat → Nat} (h : ∀ i < 8, f i = g i) : bytesVal f = bytesVal g := by
  have hf : ∀ l : List Nat, (∀ i ∈ l, i < 8) →
      l.foldr (fun i v ↦ f i + 256 * v) 0 = l.foldr (fun i v ↦ g i + 256 * v) 0 := by
    intro l
    induction l with
    | nil => exact fun _ ↦ rfl
    | cons i l ih =>
        intro hl
        rw [List.foldr_cons, List.foldr_cons, h i (hl i List.mem_cons_self),
          ih fun j hj ↦ hl j (List.mem_cons_of_mem i hj)]
  exact hf _ fun i hi ↦ List.mem_range.1 hi

/-! ## The port -/

theorem ioport_toNat {p k : Nat} (hk : k < 4) (hp : p < 2 ^ 30) :
    (ioport p k).toNat = 4 * p + k := by
  rw [ioport, BitVec.toNat_ofNat, ← Nat.shiftLeft_add_eq_or_of_lt (i := 2) hk, Nat.shiftLeft_eq,
    Nat.mod_eq_of_lt (by omega)]
  omega

/-- The bytes that an access within the I/O space covers. -/
theorem ioRange_ioport {p k : Nat} (hk : k < 4) (hp : p + 2 ^ k ≤ iospaceSz) :
    Usrdev.ioRange (ioport p k).toNat = (p, 2 ^ k) := by
  have hpos : 0 < 2 ^ k := Nat.pow_pos (by decide)
  have hlt : p < iospaceSz := Nat.lt_of_lt_of_le (Nat.lt_add_of_pos_right hpos) hp
  have hbig : p < 2 ^ 14 := Nat.lt_trans hlt (by decide)
  have hport : ioPort (4 * p + k) = p := by
    rw [ioPort]
    omega
  have hsize : ioSize (4 * p + k) = k := by
    rw [ioSize]
    omega
  rw [ioport_toNat hk (by omega), Usrdev.ioRange, hport, hsize, Nat.min_eq_left (Nat.le_of_lt hlt),
    Nat.min_eq_left hp, Nat.add_sub_cancel_left]

/-- No access covers a byte behind the I/O space. -/
theorem ioRange_le (port : Nat) :
    (Usrdev.ioRange port).1 + (Usrdev.ioRange port).2 ≤ iospaceSz := by
  rw [Usrdev.ioRange]
  omega

/-! ## The two calls -/

namespace State

variable {s s' s₂ : State} {cur t d hw : Nat} {did id dd port valptr : BitVec 32}
  {r : Regs} {v : BitVec 64} {fault : Bool}

/-- What is written to the I/O space of a client. -/
theorem ioByte_write (s : State) (d id port val i : Nat) :
    (s.usrdevWriospace d id port val).2.ioByte d id i =
      if (Usrdev.ioRange port).1 ≤ i ∧ i < (Usrdev.ioRange port).1 + (Usrdev.ioRange port).2 then
        val / 256 ^ (i - (Usrdev.ioRange port).1) % 256
      else s.ioByte d id i := by
  rw [ioByte, usrdevWriospace, setUsr_self, Usrdev.setRem_self]
  rfl

/-- The other clients and the other devices keep their bytes. -/
theorem ioByte_write_of_ne {d' id id' : Nat} (h : ¬ (d' = d ∧ id' = id)) (port val i : Nat) :
    (s.usrdevWriospace d id port val).2.ioByte d' id' i = s.ioByte d' id' i := by
  rw [ioByte, usrdevWriospace]
  by_cases hd : d' = d
  · rw [hd, setUsr_self, Usrdev.setRem_of_ne _ fun hid ↦ h ⟨hd, hid⟩, ioByte]
  · rw [setUsr_of_ne hd, ioByte]

/-- `SYS_WRIOSPC` writes the low 32 bits of the word. -/
theorem trap_write (ho : s.Owns cur did.toNat d) :
    s.trap cur (devwriospace r did id port v) hw fault =
      some (.ok ⟨0, none,
        (s.usrdevWriospace d id.toNat port.toNat (v.toNat % 2 ^ 32)).2⟩) := by
  have hval : (v.truncate 32).toNat = v.toNat % 2 ^ 32 := BitVec.toNat_setWidth ..
  rw [trap, devwriospace, sysWriospc, syscall4, if_pos rfl, sysWriospace, withUsrdev_of_owns ho,
    hval]
  rfl

/-- A `SYS_WRIOSPC` that succeeds is made by the owner of a device. -/
theorem owns_of_trap_write
    (h : s.trap cur (devwriospace r did id port v) hw fault = some (.ok ⟨0, none, s'⟩)) :
    ∃ d, s.Owns cur did.toNat d := by
  by_contra hno
  rw [not_exists] at hno
  obtain ⟨e, he, hr⟩ := withUsrdev_of_not_owns hno
    fun d ↦ .ok (s.usrdevWriospace d id.toNat port.toNat (v.truncate 32).toNat)
  have hcall : s.trap cur (devwriospace r did id port v) hw fault = some (.ok ⟨e, none, s⟩) := by
    rw [trap, devwriospace, sysWriospc, syscall4, if_pos rfl, sysWriospace, hr]
    rfl
  rw [hcall] at h
  have hz : e = 0 := congrArg State.SysRes.ret (Except.ok.inj (Option.some.inj h))
  omega

/-- `SYS_IN` of a client gives the bytes that the access covers. -/
theorem trap_read (r : Regs) (port : BitVec 32) (hc : s.Reaches t dd.toNat d id.toNat)
    (hv : chkuaddr valptr.toNat 8) :
    s.ReadsWord t r dd port valptr (bytesVal fun i ↦
      if i < (Usrdev.ioRange port.toNat).2 then
        s.ioByte d id.toNat ((Usrdev.ioRange port.toNat).1 + i)
      else 255) := by
  intro hw
  have hget : s.busGetDev t dd.toNat = .ok (.inr d) := by
    rw [busGetDev, if_neg (Nat.not_le.2 hc.desc)]
    dsimp only
    rw [hc.plg, hc.dev]
    dsimp only
    rw [hc.online]
    rfl
  have hop : ∀ q, s.op (t, dd.toNat) d id.toNat q = s.usrdevOp (t, dd.toNat) d id.toNat q := by
    intro q
    rw [op, hc.kind]
  have hcall : s.opCall t dd.toNat (.inPort port.toNat hw) = .ok (0, some (bytesVal fun i ↦
      if i < (Usrdev.ioRange port.toNat).2 then
        s.ioByte d id.toNat ((Usrdev.ioRange port.toNat).1 + i)
      else 255), s) := by
    rw [opCall, hget]
    dsimp only [bind, Except.bind]
    rw [hc.devid, hop]
    rfl
  have hno : sysInNo ≠ sysWriospcNo := by decide
  rw [trap, din, syscall3, if_neg hno, if_pos rfl, sysIn, hv, hcall]
  rfl

/-! ## What both do to the I/O space -/

/-- A write within the I/O space changes no other byte. -/
theorem keepsOthers_write {p k id val : Nat} (hk : k < 4) (hp : p + 2 ^ k ≤ iospaceSz) :
    s.KeepsOthers (s.usrdevWriospace d id (ioport p k).toNat val).2 d id p (2 ^ k) := by
  intro d' id' i hi
  by_cases hc : d' = d ∧ id' = id
  · obtain ⟨rfl, rfl⟩ := hc
    rw [ioByte_write, ioRange_ioport hk hp, if_neg fun h ↦ hi ⟨rfl, rfl, h⟩]
  · exact ioByte_write_of_ne hc ..

/-- A write at any port changes no byte behind the I/O space. -/
theorem writesInside (s : State) (cur : Nat) (did id : BitVec 32) : s.WritesInside cur did id := by
  intro r port v hw fault s' h d' id' i hi
  obtain ⟨d, ho⟩ := owns_of_trap_write h
  rw [trap_write ho] at h
  have hs : (s.usrdevWriospace d id.toNat port.toNat (v.toNat % 2 ^ 32)).2 = s' :=
    congrArg SysRes.state (Except.ok.inj (Option.some.inj h))
  rw [← hs]
  by_cases hc : d' = d ∧ id' = id.toNat
  · obtain ⟨rfl, rfl⟩ := hc
    rw [ioByte_write, if_neg fun h ↦ ?_]
    exact absurd (Nat.lt_of_lt_of_le h.2 (ioRange_le port.toNat)) (Nat.not_lt.2 hi)
  · exact ioByte_write_of_ne hc ..

/-- A read at any port depends on the bytes of the I/O space only. -/
theorem readsInside (hc : s.Reaches t dd.toNat d id.toNat) (hv : chkuaddr valptr.toNat 8) :
    s.ReadsInside t d dd valptr id.toNat := by
  intro r port s₂ hc₂ hsame
  refine ⟨_, trap_read r port hc hv, ?_⟩
  have hval := trap_read r port hc₂ hv
  rw [bytesVal_congr fun i _ ↦ ?_] at hval
  · exact hval
  · by_cases hi : i < (Usrdev.ioRange port.toNat).2
    · rw [if_pos hi, if_pos hi, hsame _ ?_]
      exact Nat.lt_of_lt_of_le (Nat.add_lt_add_left hi _) (ioRange_le port.toNat)
    · rw [if_neg hi, if_neg hi]

/-- The word that is read back after a write at the same port. -/
theorem read_of_write {p k : Nat} {valptr : BitVec 32} (hk : k < 4) (hp : p + 2 ^ k ≤ iospaceSz)
    (hv : chkuaddr valptr.toNat 8) {val : Nat} (hc : s₂.Reaches t dd.toNat d id.toNat)
    (hs : ∀ i, s₂.ioByte d id.toNat i =
      (s.usrdevWriospace d id.toNat (ioport p k).toNat val).2.ioByte d id.toNat i) :
    s₂.ReadsWord t r dd (ioport p k) valptr (lowBytes (2 ^ k) val) := by
  have hread := trap_read r (ioport p k) hc hv
  rw [ioRange_ioport hk hp] at hread
  have hle : 2 ^ k ≤ 8 := Nat.pow_le_pow_right (by decide) (Nat.le_of_lt_succ hk)
  rw [← bytesVal_low hle]
  rw [bytesVal_congr fun i _ ↦ ?_] at hread
  · exact hread
  · by_cases hi : i < 2 ^ k
    · rw [if_pos hi, if_pos hi]
      dsimp only
      rw [hs, ioByte_write, ioRange_ioport hk hp,
        if_pos ⟨Nat.le_add_right p i, Nat.add_lt_add_left hi p⟩, Nat.add_sub_cancel_left]
    · rw [if_neg hi, if_neg hi]

end State

/-- The low bytes of a word survive 32 bits, unless there are eight of them and the word is
larger. -/
theorem lowBytes_w32 {k : Nat} (hk : k < 4) (v : BitVec 64) :
    State.lowBytes (2 ^ k) (v.toNat % 2 ^ 32) = State.lowBytes (2 ^ k) v.toNat ↔
      k < 3 ∨ v.toNat < 2 ^ 32 := by
  rw [State.lowBytes, State.lowBytes, Nat.add_right_cancel_iff]
  rcases Nat.lt_or_ge k 3 with hlt | hge
  · have hdvd : (256 ^ 2 ^ k : Nat) ∣ 2 ^ 32 := by
      have hpow : (256 : Nat) ^ 2 ^ k = 2 ^ (8 * 2 ^ k) := (Nat.pow_mul 2 8 (2 ^ k)).symm
      rw [hpow]
      refine Nat.pow_dvd_pow 2 ?_
      have hle : 2 ^ k ≤ 4 := Nat.pow_le_pow_right (by decide) (Nat.le_of_lt_succ hlt)
      exact Nat.mul_le_mul_left 8 hle
    exact iff_of_true (Nat.mod_mod_of_dvd v.toNat hdvd) (.inl hlt)
  · obtain rfl : k = 3 := Nat.le_antisymm (Nat.le_of_lt_succ hk) hge
    have hv : v.toNat < 2 ^ 64 := v.isLt
    omega

/-- After `devwriospace` of a word, `SYS_IN` of the client at the same port gives the low bytes
of the word, in every state in which the bytes are still there; no other byte has changed, and
accesses at any port stay inside of the I/O space.  This is so unless an access of eight bytes is
given a word of more than 32 bits. -/
theorem devwriospace_din_iff {s s' : State} {cur t d hw p k : Nat} {fault : Bool}
    {did id dd valptr : BitVec 32} {r : Regs} {v : BitVec 64} (hk : k < 4)
    (hp : p + 2 ^ k ≤ iospaceSz) (ho : s.Owns cur did.toNat d)
    (hw' : s.trap cur (devwriospace r did id (ioport p k) v) hw fault = some (.ok ⟨0, none, s'⟩))
    (hc : s'.Reaches t dd.toNat d id.toNat) (hv : chkuaddr valptr.toNat 8) :
    ((∀ (s₂ : State) r', s₂.Reaches t dd.toNat d id.toNat →
          (∀ i, s₂.ioByte d id.toNat i = s'.ioByte d id.toNat i) →
          s₂.ReadsWord t r' dd (ioport p k) valptr (State.lowBytes (2 ^ k) v.toNat)) ∧
        s.KeepsOthers s' d id.toNat p (2 ^ k) ∧ s.WritesInside cur did id ∧
        s'.ReadsInside t d dd valptr id.toNat) ↔
      k < 3 ∨ v.toNat < 2 ^ 32 := by
  rw [State.trap_write ho] at hw'
  have hs : (s.usrdevWriospace d id.toNat (ioport p k).toNat (v.toNat % 2 ^ 32)).2 = s' :=
    congrArg State.SysRes.state (Except.ok.inj (Option.some.inj hw'))
  have hkeep : s.KeepsOthers s' d id.toNat p (2 ^ k) := by
    rw [← hs]
    exact State.keepsOthers_write hk hp
  have hread : ∀ (s₂ : State) r', s₂.Reaches t dd.toNat d id.toNat →
      (∀ i, s₂.ioByte d id.toNat i = s'.ioByte d id.toNat i) →
      s₂.ReadsWord t r' dd (ioport p k) valptr
        (State.lowBytes (2 ^ k) (v.toNat % 2 ^ 32)) := by
    intro s₂ r' hc₂ hsame
    refine State.read_of_write (s := s) hk hp hv hc₂ fun i ↦ ?_
    rw [hs]
    exact hsame i
  rw [← lowBytes_w32 hk v]
  constructor
  · rintro ⟨hr, _⟩
    have heq := (hr s' r hc fun _ ↦ rfl) 0
    rw [hread s' r hc (fun _ ↦ rfl) 0] at heq
    have hval := congrArg State.SysRes.copied (Except.ok.inj (Option.some.inj heq))
    exact Option.some.inj (Option.some.inj hval)
  · intro heq
    rw [heq] at hread
    exact ⟨hread, hkeep, State.writesInside s cur did id, State.readsInside hc hv⟩

/-- A write leaves the descriptors as they are. -/
theorem State.Reaches.write {s : State} {t dd d id : Nat} (h : s.Reaches t dd d id)
    (d' id' port val : Nat) : (s.usrdevWriospace d' id' port val).2.Reaches t dd d id :=
  ⟨h.desc, h.plg, h.dev, h.devid, h.online, h.kind⟩

/-- `init` creates a device and opens it. -/
def openOwn : List Label :=
  [.call 1 (.creat 7 ⟨0, 0, 0, fun _ ↦ 0⟩ 1 0o111), .call 1 (.openDev 7)]

theorem openOwn_reaches :
    ∃ s, Run Step (State.boot 1 2 3) openOwn s ∧ s.Owns 1 0 3 ∧ s.Reaches 1 0 3 0 := by
  have h : Run Step (State.boot 1 2 3) openOwn _ := .cons ⟨rfl, rfl⟩ (.cons ⟨rfl, rfl⟩ (.nil _))
  exact ⟨_, h, ⟨by decide, rfl⟩, by decide, rfl, rfl, rfl, rfl, rfl⟩

/-- The bytes 4 and 5 of a client. -/
theorem devwriospace_din_word :
    ∃ s s', Run Step (State.boot 1 2 3) openOwn s ∧
      s.trap 1 (devwriospace ⟨0, 0, 0, 0, 0⟩ 0 0 (ioport 4 1) 0x98765) 0 false =
        some (.ok ⟨0, none, s'⟩) ∧
      s'.ReadsWord 1 ⟨0, 0, 0, 0, 0⟩ 0 (ioport 4 1) 0x200000 0xffffffffffff8765 := by
  obtain ⟨s, hrun, ho, hc⟩ := openOwn_reaches
  have ho' : s.Owns 1 (0 : BitVec 32).toNat 3 := ho
  have hw : s.trap 1 (devwriospace ⟨0, 0, 0, 0, 0⟩ 0 0 (ioport 4 1) 0x98765) 0 false =
      some (.ok ⟨0, none, _⟩) := State.trap_write ho'
  refine ⟨s, _, hrun, hw, ?_⟩
  exact ((devwriospace_din_iff (by decide) (by decide) ho' hw (hc.write ..) (by decide)).2
    (.inl (by decide))).1 _ _ (hc.write ..) fun _ ↦ rfl

/-- Eight bytes at 0, with the word 2 ^ 32: the client reads 0. -/
theorem devwriospace_truncates :
    ∃ s s', Run Step (State.boot 1 2 3) openOwn s ∧
      s.trap 1 (devwriospace ⟨0, 0, 0, 0, 0⟩ 0 0 (ioport 0 3) 0x100000000) 0 false =
        some (.ok ⟨0, none, s'⟩) ∧
      s'.ReadsWord 1 ⟨0, 0, 0, 0, 0⟩ 0 (ioport 0 3) 0x200000 0 ∧
      ¬ s'.ReadsWord 1 ⟨0, 0, 0, 0, 0⟩ 0 (ioport 0 3) 0x200000
        (State.lowBytes 8 0x100000000) := by
  obtain ⟨s, hrun, ho, hc⟩ := openOwn_reaches
  have ho' : s.Owns 1 (0 : BitVec 32).toNat 3 := ho
  have hc' := hc.write 3 (0 : BitVec 32).toNat (ioport 0 3).toNat 0
  have hread : State.ReadsWord _ 1 ⟨0, 0, 0, 0, 0⟩ 0 (ioport 0 3) 0x200000
      (State.lowBytes (2 ^ 3) 0) :=
    State.read_of_write (by decide) (by decide) (by decide) hc' fun _ ↦ rfl
  refine ⟨s, _, hrun, State.trap_write ho', hread, fun hno ↦ ?_⟩
  have heq := (hread 0).symm.trans (hno 0)
  have hval : some (some (State.lowBytes 8 0)) = some (some (State.lowBytes 8 0x100000000)) :=
    congrArg State.SysRes.copied (Except.ok.inj (Option.some.inj heq))
  exact absurd hval (by decide)

end Mh.Bus
