import Mh.Vm.Refs
import Mh.Bus.State

/-!
# Exporting a page

`_hwdev_export` of `hwdev.c` hands the physical address of a user page to a driver.  It wires the
entry of the page, reads the frame number back through `pmap_phys`, and files the address in the
descriptor's list.

The caller decides what the entry holds.  `pmap_uwire` counts the frame of any entry that is not an
I/O mapping, also of an entry that is not present, so the assertions of `pfndb_incwir` are within
reach of a thread; and when they hold for an entry that is not present the mark does not stick,
`pmap_phys` finds nothing, and the assertion on `pmap_uunwire` stops the kernel instead.  A range
that crosses a page is refused, but with the device's lock still held: the next call on that device
does not return.

`heap_alloc` is taken to return a block.
-/

namespace Mh.Vm

open Mh.Lib Mh.Bus

/-- Why a call does not return. -/
inductive Stop
  /-- The kernel stops in the page tables or the page database. -/
  | panic (e : Panic)
  /-- `assert(!pmap_uunwire(NULL, va))` -/
  | unwire
  /-- `spinlock` of a lock that nobody is left to release -/
  | spin
deriving DecidableEq, Repr

/-- A call into the page tables. -/
def liftPanic {α : Type} : Except Panic α → Except Stop α
  | .ok a => .ok a
  | .error e => .error (.panic e)

/-- What `_hwdev_export` works on. -/
structure HwState where
  vm : Sys
  /-- `hd->lock` is taken. -/
  lock : Bool
  /-- `hd->remths[id].hwdmas` -/
  hwdmas : Nat → List Hwdma

/-- `spinlock(&hd->lock)`. -/
def HwState.acquire (h : HwState) : Except Stop HwState :=
  if h.lock then .error .spin else .ok { h with lock := true }

/-- `spinunlock(&hd->lock)`. -/
def HwState.release (h : HwState) : HwState := { h with lock := false }

/-- `LIST_INSERT_HEAD(&hd->remths[id].hwdmas, pd, list)`. -/
def HwState.insertHwdma (h : HwState) (id : Nat) (pd : Hwdma) : HwState :=
  { h with hwdmas := Function.update h.hwdmas id (pd :: h.hwdmas id) }

/-- `pmap_phys`: the frame of an external entry, or `-EFAULT`. -/
def pmapPhys (s : Sys) (pm va : Nat) : Except Errno Nat :=
  let l1e := s.l1 pm (vpn va)
  if l1eExternal l1e && l1e.p then .ok l1e.pfn else .error .EFAULT

/-- `trunc_page(va + sz - 1) != trunc_page(va)`. -/
def crosses (va sz : Nat) : Bool := truncPage (w32 (va + sz + (2 ^ 32 - 1))) != truncPage va

/-- `_hwdev_export` from the wiring on, with the lock taken. -/
def hwdevExportPage (h : HwState) (cur id va : Nat) : Except Stop (Int × Option Nat × HwState) := do
  let (ret, vm) ← liftPanic (pmapUwire h.vm cur va)
  let h := { h with vm := vm }
  if ret ≠ 0 then
    return (ret, none, h.release)
  match pmapPhys h.vm cur va with
  | .error e =>
      let (r, vm) ← liftPanic (pmapUunwire h.vm cur va)
      if r ≠ 0 then
        throw .unwire
      return (e.neg, none, { h with vm := vm }.release)
  | .ok pfn =>
      return (0, some (pfn * pageSize + va % pageSize), (h.insertHwdma id ⟨va, pfn⟩).release)

/-- `_hwdev_export`, called by the thread `cur`: the value returned, and what is stored at `iova`.
The check of the range returns with the lock taken. -/
def hwdevExport (h : HwState) (cur id va sz : Nat) :
    Except Stop (Int × Option Nat × HwState) := do
  let h ← h.acquire
  if crosses va sz then
    return (Errno.EINVAL.neg, none, h)
  hwdevExportPage h cur id va

/-! ## What an export should do -/

/-- A refusal: a negative error, and nothing has moved. -/
structure ExportRefused (h : HwState) (cur id va : Nat) (ret : Int) (h' : HwState) : Prop where
  neg : ret < 0
  entry : h'.vm.l1 cur (vpn va) = h.vm.l1 cur (vpn va)
  wir : ∀ q, (h'.vm.db q).wir = (h.vm.db q).wir
  hwdmas : h'.hwdmas id = h.hwdmas id

/-- A success: the page was present, it is wired and counted, and the driver gets its address. -/
structure ExportDone (h : HwState) (cur id va : Nat) (ret : Int) (iova : Option Nat)
    (h' : HwState) : Prop where
  zero : ret = 0
  present : (h.vm.l1 cur (vpn va)).p
  entry : h'.vm.l1 cur (vpn va) = l1eMkwired (h.vm.l1 cur (vpn va))
  wir : (h'.vm.db (h.vm.l1 cur (vpn va)).pfn).wir = (h.vm.db (h.vm.l1 cur (vpn va)).pfn).wir + 1
  iova : iova = some ((h.vm.l1 cur (vpn va)).pfn * pageSize + va % pageSize)
  hwdmas : h'.hwdmas id = ⟨va, (h.vm.l1 cur (vpn va)).pfn⟩ :: h.hwdmas id

/-- The call returns, with a refusal or a success. -/
def ExportOk (h : HwState) (cur id va sz : Nat) : Prop :=
  ∃ ret iova h', hwdevExport h cur id va sz = .ok (ret, iova, h') ∧
    (ExportRefused h cur id va ret h' ∨ ExportDone h cur id va ret iova h')

/-- An entry that can be wired: present, for a user page of the database, and not yet wired so often
that the count would wrap. -/
structure Wirable (s : Sys) (e : L1e) : Prop where
  present : e.p
  le : e.pfn ≤ s.pfndbMax
  user : (s.db e.pfn).type = .user
  room : (s.db e.pfn).wir + 1 < 2 ^ 64

/-- The calls that keep the promise. -/
def ExportSafe (h : HwState) (cur va sz : Nat) : Prop :=
  h.lock = false ∧
    (crosses va sz ∨ l1eIomap (h.vm.l1 cur (vpn va)) ∨ Wirable h.vm (h.vm.l1 cur (vpn va)))

section Export

variable {h : HwState} {cur id va sz : Nat}

/-- The address range that `sys_export` lets through starts at a user address. -/
theorem isuaddr_of_export (hchk : chkuaddr va sz) : isuaddr va := (chkuaddr_iff.1 hchk).1

/-- A count that does not wrap. -/
theorem incCount_eq_iff {n : Nat} : incCount n = n + 1 ↔ n + 1 < 2 ^ 64 := by
  have hpos : 2 ^ 64 ≠ 0 := (Nat.two_pow_pos 64).ne'
  rw [incCount]
  generalize 2 ^ 64 = m at hpos ⊢
  exact Nat.mod_eq_iff_lt hpos

/-- A taken lock stops the call. -/
theorem hwdevExport_spin (hl : h.lock) : hwdevExport h cur id va sz = .error .spin := by
  rw [hwdevExport, HwState.acquire, if_pos hl]
  rfl

/-- With the lock free, the call is decided by the range and the page. -/
theorem hwdevExport_eq (hl : h.lock = false) :
    hwdevExport h cur id va sz =
      if crosses va sz then .ok (Errno.EINVAL.neg, none, { h with lock := true })
      else hwdevExportPage { h with lock := true } cur id va := by
  rw [hwdevExport, HwState.acquire, hl]
  generalize crosses va sz = c
  cases c <;> rfl

/-- A range that crosses a page is refused, and the lock stays taken. -/
theorem hwdevExport_crosses (hl : h.lock = false) (hc : crosses va sz) :
    hwdevExport h cur id va sz = .ok (Errno.EINVAL.neg, none, { h with lock := true }) := by
  rw [hwdevExport_eq hl, if_pos hc]

/-- An I/O mapping is refused. -/
theorem hwdevExportPage_iomap (hva : isuaddr va) (hi : l1eIomap (h.vm.l1 cur (vpn va))) :
    hwdevExportPage h cur id va = .ok (Errno.EBUSY.neg, none, h.release) := by
  have hbusy : ¬Errno.EBUSY.neg = 0 := by decide
  have hwire : pmapUwire h.vm cur va = .ok (Errno.EBUSY.neg, h.vm) := by
    simp [pmapUwire, kassert, hva, hi, bind, pure, Except.bind, Except.pure]
  simp [hwdevExportPage, hwire, liftPanic, hbusy, bind, pure, Except.bind, Except.pure]

/-- The page tables after the entry has been wired. -/
def Sys.wired (s : Sys) (cur va : Nat) : Sys :=
  (s.setDb (s.l1 cur (vpn va)).pfn { s.db (s.l1 cur (vpn va)).pfn with
    wir := incCount (s.db (s.l1 cur (vpn va)).pfn).wir }).put cur (vpn va)
      (l1eMkwired (s.l1 cur (vpn va)))

theorem Sys.wired_l1 (s : Sys) (cur va : Nat) :
    (s.wired cur va).l1 cur (vpn va) = l1eMkwired (s.l1 cur (vpn va)) := by
  rw [wired, put, l1_setL1e_self]

theorem Sys.wired_wir (s : Sys) (cur va : Nat) :
    ((s.wired cur va).db (s.l1 cur (vpn va)).pfn).wir =
      incCount (s.db (s.l1 cur (vpn va)).pfn).wir := by
  rw [wired, put, setL1e_db, setFlush_db, setDb_db_self]

/-- An entry that is not an I/O mapping is marked and counted, if the assertions of `pfndb_incwir`
hold of the frame it names. -/
theorem pmapUwire_wired {s : Sys} (hva : isuaddr va) (hi : l1eIomap (s.l1 cur (vpn va)) = false)
    (hle : (s.l1 cur (vpn va)).pfn ≤ s.pfndbMax)
    (hu : (s.db (s.l1 cur (vpn va)).pfn).type = .user) :
    pmapUwire s cur va = .ok (0, s.wired cur va) :=
  pmapUwire_eq hva hi ⟨hle, hu, rfl⟩

/-- Otherwise the kernel stops. -/
theorem pmapUwire_panics {s : Sys} (hi : l1eIomap (s.l1 cur (vpn va)) = false)
    (hbad : ¬((s.l1 cur (vpn va)).pfn ≤ s.pfndbMax ∧
      (s.db (s.l1 cur (vpn va)).pfn).type = .user)) :
    ∃ e, pmapUwire s cur va = .error e := by
  cases hcall : pmapUwire s cur va with
  | error e => exact ⟨e, rfl⟩
  | ok r =>
      refine absurd ?_ hbad
      simp only [pmapUwire, bind_eq_ok, hi, Bool.false_eq_true, if_false] at hcall
      obtain ⟨_, _, s₁, h₁, _⟩ := hcall
      simp only [pfndbIncwir, pfndbUser, bind_eq_ok, kassert_eq_ok, decide_eq_true_eq,
        beq_iff_eq] at h₁
      obtain ⟨_, ⟨_, hle, _, hu, _⟩, _⟩ := h₁
      exact ⟨hle, hu⟩

/-- A present entry that has been wired gives the driver its address. -/
theorem hwdevExportPage_done (hva : isuaddr va) (hi : l1eIomap (h.vm.l1 cur (vpn va)) = false)
    (hp : (h.vm.l1 cur (vpn va)).p) (hle : (h.vm.l1 cur (vpn va)).pfn ≤ h.vm.pfndbMax)
    (hu : (h.vm.db (h.vm.l1 cur (vpn va)).pfn).type = .user) :
    hwdevExportPage h cur id va =
      .ok (0, some ((h.vm.l1 cur (vpn va)).pfn * pageSize + va % pageSize),
        (({ h with vm := h.vm.wired cur va } : HwState).insertHwdma id
          ⟨va, (h.vm.l1 cur (vpn va)).pfn⟩).release) := by
  have hphys : pmapPhys (h.vm.wired cur va) cur va = .ok (h.vm.l1 cur (vpn va)).pfn := by
    rw [pmapPhys, Sys.wired_l1]
    simp [l1eExternal, l1eWired, l1eMkwired, hp]
  simp [hwdevExportPage, pmapUwire_wired hva hi hle hu, hphys, liftPanic, bind, pure, Except.bind,
    Except.pure]

/-- The mark does not stick to an entry that is not present: `pmap_phys` reports nothing, and the
assertion on `pmap_uunwire` fails. -/
theorem hwdevExportPage_unwire (hva : isuaddr va) (hp : (h.vm.l1 cur (vpn va)).p = false)
    (hle : (h.vm.l1 cur (vpn va)).pfn ≤ h.vm.pfndbMax)
    (hu : (h.vm.db (h.vm.l1 cur (vpn va)).pfn).type = .user) :
    hwdevExportPage h cur id va = .error .unwire := by
  have hi : l1eIomap (h.vm.l1 cur (vpn va)) = false := by simp [l1eIomap, hp]
  have hnw : l1eWired (l1eMkwired (h.vm.l1 cur (vpn va))) = false := by
    simp [l1eWired, l1eMkwired, hp]
  have hphys : pmapPhys (h.vm.wired cur va) cur va = .error .EFAULT := by
    rw [pmapPhys, Sys.wired_l1]
    simp [l1eMkwired, hp]
  have hunwire : pmapUunwire (h.vm.wired cur va) cur va = .ok (-1, h.vm.wired cur va) := by
    simp [pmapUunwire, kassert, hva, Sys.wired_l1, hnw, bind, pure, Except.bind, Except.pure]
  simp [hwdevExportPage, pmapUwire_wired hva hi hle hu, hphys, hunwire, liftPanic, bind,
    Except.bind, throw, throwThe, MonadExceptOf.throw]

/-- A frame that the page database does not know as a user page stops the kernel. -/
theorem hwdevExportPage_panics (hi : l1eIomap (h.vm.l1 cur (vpn va)) = false)
    (hbad : ¬((h.vm.l1 cur (vpn va)).pfn ≤ h.vm.pfndbMax ∧
      (h.vm.db (h.vm.l1 cur (vpn va)).pfn).type = .user)) :
    ∃ e, hwdevExportPage h cur id va = .error e := by
  obtain ⟨e, he⟩ := pmapUwire_panics hi hbad
  refine ⟨.panic e, ?_⟩
  simp [hwdevExportPage, he, liftPanic, bind, Except.bind]

/-- A range inside its page leaves the page to decide. -/
theorem hwdevExport_page (hl : h.lock = false) (hc : crosses va sz = false) :
    hwdevExport h cur id va sz = hwdevExportPage { h with lock := true } cur id va := by
  rw [hwdevExport_eq hl, hc, if_neg Bool.false_ne_true]

/-- An I/O mapping is refused, and nothing has moved. -/
theorem ExportOk.of_iomap (hva : isuaddr va) (hl : h.lock = false)
    (hc : crosses va sz = false) (hi : l1eIomap (h.vm.l1 cur (vpn va))) :
    ExportOk h cur id va sz :=
  ⟨_, _, _, (hwdevExport_page hl hc).trans (hwdevExportPage_iomap hva hi),
    .inl ⟨Errno.neg_lt_zero .EBUSY, rfl, fun _ ↦ rfl, rfl⟩⟩

/-- A range that crosses a page is refused, and nothing but the lock has moved. -/
theorem ExportOk.of_crosses (hl : h.lock = false) (hc : crosses va sz) :
    ExportOk h cur id va sz :=
  ⟨_, _, _, hwdevExport_crosses hl hc, .inl ⟨Errno.neg_lt_zero .EINVAL, rfl, fun _ ↦ rfl, rfl⟩⟩

/-- An entry that can be wired is exported. -/
theorem ExportOk.of_wirable (hva : isuaddr va) (hl : h.lock = false)
    (hc : crosses va sz = false) (hi : l1eIomap (h.vm.l1 cur (vpn va)) = false)
    (hw : Wirable h.vm (h.vm.l1 cur (vpn va))) : ExportOk h cur id va sz := by
  have hcall : hwdevExport h cur id va sz = _ := (hwdevExport_page hl hc).trans
    (hwdevExportPage_done (h := { h with lock := true }) hva hi hw.present hw.le hw.user)
  refine ⟨_, _, _, hcall, .inr ⟨rfl, hw.present, ?_, ?_, rfl, ?_⟩⟩
  · exact h.vm.wired_l1 cur va
  · rw [← incCount_eq_iff.2 hw.room]
    exact h.vm.wired_wir cur va
  · exact Function.update_self ..

/-- A call that does not return keeps no promise. -/
theorem not_exportOk_of_error {e : Stop} (he : hwdevExport h cur id va sz = .error e) :
    ¬ExportOk h cur id va sz := by
  rintro ⟨ret, iova, h', hcall, _⟩
  rw [he] at hcall
  cases hcall

/-- Where a page that is not an I/O mapping is exported, its entry can be wired. -/
theorem wirable_of_exportOk (hva : isuaddr va) (hl : h.lock = false) (hc : crosses va sz = false)
    (hi : l1eIomap (h.vm.l1 cur (vpn va)) = false) (hok : ExportOk h cur id va sz) :
    Wirable h.vm (h.vm.l1 cur (vpn va)) := by
  have hpage : hwdevExport h cur id va sz = _ := hwdevExport_page hl hc
  obtain ⟨hle, hu⟩ : (h.vm.l1 cur (vpn va)).pfn ≤ h.vm.pfndbMax ∧
      (h.vm.db (h.vm.l1 cur (vpn va)).pfn).type = .user := by
    by_contra hbad
    obtain ⟨e, he⟩ := hwdevExportPage_panics (h := { h with lock := true }) hi hbad
    exact not_exportOk_of_error (hpage.trans he) hok
  have hp : (h.vm.l1 cur (vpn va)).p := by
    by_contra hp
    have hp := Bool.eq_false_iff.2 hp
    exact not_exportOk_of_error (hpage.trans (hwdevExportPage_unwire hva hp hle hu)) hok
  refine ⟨hp, hle, hu, ?_⟩
  -- The call succeeds, so its count must not have wrapped.
  have hdone := hpage.trans (hwdevExportPage_done (h := { h with lock := true }) hva hi hp hle hu)
  obtain ⟨ret, iova, h', hcall, hr | hd⟩ := hok
  · rw [hdone] at hcall
    cases hcall
    exact absurd hr.neg (Int.lt_irrefl 0)
  · rw [hdone] at hcall
    cases hcall
    exact incCount_eq_iff.1 ((h.vm.wired_wir cur va).symm.trans hd.wir)

end Export

/-! ## When the promise is kept -/

/-- Exactly the calls of `ExportSafe` return with a refusal or a success: for every state, every
address and size that `sys_export` lets through. -/
theorem hwdevExport_total_iff (h : HwState) (cur id va sz : Nat) (hchk : chkuaddr va sz) :
    ExportOk h cur id va sz ↔ ExportSafe h cur va sz := by
  have hva := isuaddr_of_export hchk
  constructor
  · intro hok
    have hl : h.lock = false := by
      by_contra hl
      exact not_exportOk_of_error (hwdevExport_spin (Bool.eq_true_of_not_eq_false hl)) hok
    refine ⟨hl, ?_⟩
    cases hc : crosses va sz with
    | true => exact .inl rfl
    | false =>
        cases hi : l1eIomap (h.vm.l1 cur (vpn va)) with
        | true => exact .inr (.inl rfl)
        | false => exact .inr (.inr (wirable_of_exportOk hva hl hc hi hok))
  · rintro ⟨hl, hsafe⟩
    cases hc : crosses va sz with
    | true => exact .of_crosses hl hc
    | false =>
        cases hi : l1eIomap (h.vm.l1 cur (vpn va)) with
        | true => exact .of_iomap hva hl hc hi
        | false =>
            rw [hc, hi] at hsafe
            obtain h | h | hw := hsafe
            · cases h
            · cases h
            · exact .of_wirable hva hl hc hi hw

/-- A device at rest, over the machine of the demonstration. -/
def demoHw (s : Sys) : HwState := ⟨s, false, fun _ ↦ []⟩

/-- Sixteen bytes of the page that the thread has mapped. -/
theorem hwdevExport_total_demo : ExportOk (demoHw demoMapped) 1 0 0x400000 16 := by
  refine (hwdevExport_total_iff (demoHw demoMapped) 1 0 0x400000 16 (by decide)).2 ⟨rfl, ?_⟩
  have hl1 : (demoHw demoMapped).vm.l1 1 (vpn 0x400000) = mkl1e 1 protUserWr := demoMapped_l1 2
  rw [hl1]
  exact .inr (.inr ⟨rfl, by decide, by decide, by decide⟩)

/-- The first thread exports an address it has never mapped: the entry names frame 0, which is the
kernel's. -/
theorem hwdevExport_stops : ¬∀ h cur id va sz, Boot h.vm → h.vm.Running cur → h.lock = false →
    chkuaddr va sz → ExportOk h cur id va sz := by
  intro hall
  have hok := hall (demoHw demo) 1 0 0x400000 16 demo_boot (by decide) rfl (by decide)
  have hw := wirable_of_exportOk (by decide) rfl (by decide) rfl hok
  cases hw.present

end Mh.Vm
