import Mh.Param

/-!
# Page-table entries

The l1 entries of `i386/src/pae.h`.  An entry is a 64-bit word: a page number
above the flags `PG_P`, `PG_W`, `PG_U`, `PG_S`, `PG_G`, and the three software
bits `PG_AVAIL`, which hold one of four markers.  We keep the fields apart; the
macros `l1e_mknormal`, `l1e_mkcow`, `l1e_mkwired` and `l1e_mkiomap` overwrite the
marker, and `l1e_mkcow` alone also clears `PG_W`.

The accessed and dirty bits, which the processor sets and nothing reads, are left
out; `PG_NX` is zero in this configuration.
-/

namespace Mh.Vm

/-- The markers kept in `PG_AVAIL`. -/
inductive Avail
  | normal | cow | wired | iomap
deriving DecidableEq, Repr

/-- A protection word (`pmap_prot_t`). -/
structure Prot where
  /-- `PG_P` -/
  p : Bool
  /-- `PG_W` -/
  w : Bool
  /-- `PG_U` -/
  u : Bool
  /-- `PG_G` -/
  g : Bool
deriving DecidableEq, Repr

/-- The empty protection word, used to unmap. -/
def Prot.none : Prot := ⟨false, false, false, false⟩

/-- `PROT_USER` and `PROT_USER_X`, which differ in `PG_NX` only. -/
def protUser : Prot := ⟨true, false, true, false⟩

/-- `PROT_USER_WR` and `PROT_USER_WRX`. -/
def protUserWr : Prot := ⟨true, true, true, false⟩

/-- An l1 entry (`l1e_t`). -/
structure L1e where
  /-- `l1epfn` -/
  pfn : Nat
  /-- `PG_P` -/
  p : Bool
  /-- `PG_W` -/
  w : Bool
  /-- `PG_U` -/
  u : Bool
  /-- `PG_S`, set by `mkl1e` -/
  s : Bool
  /-- `PG_G` -/
  g : Bool
  /-- `l1etype` -/
  avail : Avail
deriving DecidableEq, Repr

/-- The zero word. -/
def L1e.zero : L1e := ⟨0, false, false, false, false, false, .normal⟩

/-- `mkl1e(ptoa(pfn), prot)`. -/
def mkl1e (pfn : Nat) (prot : Prot) : L1e := ⟨pfn, prot.p, prot.w, prot.u, true, prot.g, .normal⟩

/-- `PFN_INVALID`. -/
def pfnInvalid : Nat := 2 ^ 32 - 1

/-- `mkl1e(PFN_INVALID, 0)`: here the page number is taken for an address, so the
page number stored is `PFN_INVALID >> PAGE_SHIFT`. -/
def invalidL1e : L1e := mkl1e (pfnInvalid / pageSize) .none

/-- `l1e_mknormal`. -/
def l1eMknormal (e : L1e) : L1e := { e with avail := .normal }

/-- `l1e_mkcow`. -/
def l1eMkcow (e : L1e) : L1e := { e with avail := .cow, w := false }

/-- `l1e_mkwired`. -/
def l1eMkwired (e : L1e) : L1e := { e with avail := .wired }

/-- `l1e_mkiomap`. -/
def l1eMkiomap (e : L1e) : L1e := { e with avail := .iomap }

/-- `l1e_normal`. -/
def l1eNormal (e : L1e) : Bool := e.p && e.avail == .normal

/-- `l1e_wired`. -/
def l1eWired (e : L1e) : Bool := e.p && e.avail == .wired

/-- `l1e_cow`. -/
def l1eCow (e : L1e) : Bool := e.p && e.avail == .cow

/-- `l1e_iomap`. -/
def l1eIomap (e : L1e) : Bool := e.p && e.avail == .iomap

/-- `l1e_external`. -/
def l1eExternal (e : L1e) : Bool := l1eWired e || l1eIomap e

/-- `l1eflags(e) != 0`. -/
def l1eFlagged (e : L1e) : Bool :=
  e.p || e.w || e.u || e.s || e.g || e.avail != .normal

/-- The flags kept in `tlbflush`. -/
structure Tlbf where
  /-- `TLBF_NORMAL` -/
  normal : Bool
  /-- `TLBF_GLOBAL` -/
  global : Bool
deriving DecidableEq, Repr

/-- `TLBF_NULL`. -/
def Tlbf.null : Tlbf := ⟨false, false⟩

/-- The bitwise or of two flush words. -/
def Tlbf.or (a b : Tlbf) : Tlbf := ⟨a.normal || b.normal, a.global || b.global⟩

/-- `__tlbflushp`.  The first test negates the flag word before masking it, so it
only recognises an entry whose flags are all clear; `restricts_permissions` is
the constant 1. -/
def tlbflushp (ol1e nl1e : L1e) : Tlbf :=
  if !l1eFlagged ol1e then .null
  else if ol1e.g || nl1e.g then ⟨false, true⟩ else ⟨true, false⟩

/-! ## Which entries hold a page

An entry *maps* a page when it is present and not an I/O mapping: these are the
entries that the reference count of a user page is about.  It holds the page
*exclusively* when it is normal or wired. -/

/-- The entry maps the page `pfn`. -/
def L1e.maps (pfn : Nat) (e : L1e) : Bool := e.p && e.avail != .iomap && e.pfn == pfn

/-- The entry maps the page `pfn` without the copy-on-write marker. -/
def L1e.owns (pfn : Nat) (e : L1e) : Bool := e.maps pfn && e.avail != .cow

theorem L1e.maps_iff {pfn : Nat} {e : L1e} :
    e.maps pfn ↔ e.p ∧ e.avail ≠ .iomap ∧ e.pfn = pfn := by
  simp [maps, and_assoc]

theorem L1e.owns_iff {pfn : Nat} {e : L1e} :
    e.owns pfn ↔ e.maps pfn ∧ e.avail ≠ .cow := by
  simp [owns]

/-- What an entry owns it maps. -/
theorem L1e.maps_of_owns {pfn : Nat} {e : L1e} (h : e.owns pfn) : e.maps pfn :=
  (owns_iff.1 h).1

/-- An entry that is not present maps nothing. -/
theorem L1e.maps_of_not_present {pfn : Nat} {e : L1e} (h : e.p = false) : e.maps pfn = false := by
  simp [maps, h]

/-- An entry maps one page at most. -/
theorem L1e.maps_of_ne {pfn : Nat} {e : L1e} (h : e.pfn ≠ pfn) : e.maps pfn = false := by
  simp [maps, h]

theorem L1e.owns_of_maps_false {pfn : Nat} {e : L1e} (h : e.maps pfn = false) :
    e.owns pfn = false := by
  simp [owns, h]

/-- An entry that is not an I/O mapping maps its page. -/
theorem maps_of_avail_ne {e : L1e} (h : e.avail ≠ .iomap) (q : Nat) :
    e.maps q = (e.p && e.pfn == q) := by
  rw [L1e.maps, bne_iff_ne.2 h, Bool.and_true]

/-- A normal or wired entry owns its page. -/
theorem owns_of_avail_ne {e : L1e} (h : e.avail ≠ .iomap) (h' : e.avail ≠ .cow) (q : Nat) :
    e.owns q = (e.p && e.pfn == q) := by
  rw [L1e.owns, maps_of_avail_ne h, bne_iff_ne.2 h', Bool.and_true]

section Marker

variable (pfn q : Nat) (prot : Prot) (e : L1e)

@[simp] theorem maps_mkl1e : (mkl1e pfn prot).maps q = (prot.p && pfn == q) :=
  maps_of_avail_ne (by simp [mkl1e]) q

@[simp] theorem owns_mkl1e : (mkl1e pfn prot).owns q = (prot.p && pfn == q) :=
  owns_of_avail_ne (by simp [mkl1e]) (by simp [mkl1e]) q

@[simp] theorem maps_mknormal : (l1eMknormal e).maps q = (e.p && e.pfn == q) :=
  maps_of_avail_ne (by simp [l1eMknormal]) q

@[simp] theorem owns_mknormal : (l1eMknormal e).owns q = (e.p && e.pfn == q) :=
  owns_of_avail_ne (by simp [l1eMknormal]) (by simp [l1eMknormal]) q

@[simp] theorem maps_mkcow : (l1eMkcow e).maps q = (e.p && e.pfn == q) :=
  maps_of_avail_ne (by simp [l1eMkcow]) q

@[simp] theorem owns_mkcow : (l1eMkcow e).owns q = false := by
  simp [L1e.owns, l1eMkcow]

@[simp] theorem maps_mkwired : (l1eMkwired e).maps q = (e.p && e.pfn == q) :=
  maps_of_avail_ne (by simp [l1eMkwired]) q

@[simp] theorem owns_mkwired : (l1eMkwired e).owns q = (e.p && e.pfn == q) :=
  owns_of_avail_ne (by simp [l1eMkwired]) (by simp [l1eMkwired]) q

@[simp] theorem maps_mkiomap : (l1eMkiomap e).maps q = false := by
  simp [L1e.maps, l1eMkiomap]

end Marker

/-- A present entry carries exactly one of the four markers. -/
theorem l1e_cases {e : L1e} (h : e.p) : l1eNormal e ∨ l1eCow e ∨ l1eWired e ∨ l1eIomap e := by
  rcases e with ⟨pfn, p, w, u, s, g, avail⟩
  cases avail <;> simp_all [l1eNormal, l1eCow, l1eWired, l1eIomap]

theorem l1eNormal_iff {e : L1e} : l1eNormal e ↔ e.p ∧ e.avail = .normal := by simp [l1eNormal]

theorem l1eCow_iff {e : L1e} : l1eCow e ↔ e.p ∧ e.avail = .cow := by simp [l1eCow]

theorem l1eWired_iff {e : L1e} : l1eWired e ↔ e.p ∧ e.avail = .wired := by simp [l1eWired]

theorem l1eIomap_iff {e : L1e} : l1eIomap e ↔ e.p ∧ e.avail = .iomap := by simp [l1eIomap]

theorem l1eExternal_iff {e : L1e} : l1eExternal e ↔ l1eWired e ∨ l1eIomap e := by
  simp [l1eExternal]

/-- A present entry that is not external is normal or copy-on-write. -/
theorem normal_or_cow {e : L1e} (hp : e.p) (hx : l1eExternal e = false) :
    l1eNormal e ∨ l1eCow e := by
  rcases l1e_cases hp with h | h | h | h
  · exact .inl h
  · exact .inr h
  · simp [l1eExternal, h] at hx
  · simp [l1eExternal, h] at hx

end Mh.Vm
