import Mh.Vm.Export
import Mh.Lib.Tally

/-!
# Exports and their records

The end of an export in `hwdev.c`, `_hwdev_unexport` and the last loop of `_hwdev_close`, beside
`_hwdev_export`, over the address spaces of all threads.  The records of a thread are the `hwdmas`
lists of the descriptors on its bus; a descriptor stands for the client that the device has for it.
`bus_remove` closes all descriptors of a thread before its address space is cleared.

A call that finds the lock of its device taken makes no step, so the lock is left out: this adds
runs and takes none away.  So does leaving out which descriptors are plugged, since the list of one
that is not is empty.
-/

namespace Mh.Vm

open Mh.Lib Mh.Bus

/-- The address spaces, with the records of each thread, by descriptor. -/
structure Dma where
  vm : Sys
  /-- `hd->remths[id].hwdmas` -/
  hwdmas : Nat → Nat → List Hwdma

/-- Replace the list of a descriptor. -/
def Dma.setHwdmas (m : Dma) (cur d : Nat) (l : List Hwdma) : Dma :=
  { m with hwdmas := Function.update m.hwdmas cur (Function.update (m.hwdmas cur) d l) }

/-- `LIST_REMOVE(pd, list)`. -/
def Dma.remove (m : Dma) (cur d : Nat) (pd : Hwdma) : Dma :=
  m.setHwdmas cur d ((m.hwdmas cur d).erase pd)

/-- A record taken off its list, and its address unwired, which must succeed. -/
def hwdmaRelease (cur d : Nat) (m : Dma) (pd : Hwdma) : Except Stop Dma := do
  let m := m.remove cur d pd
  let (ret, vm) ← liftPanic (pmapUunwire m.vm cur pd.va)
  if ret ≠ 0 then
    throw .unwire
  return { m with vm := vm }

/-- `_hwdev_unexport`. -/
def hwdevUnexport (m : Dma) (cur d va : Nat) : Except Stop (Int × Dma) :=
  match (m.hwdmas cur d).find? (·.va == va) with
  | none => return (Errno.ENOENT.neg, m)
  | some pd => do return (0, ← hwdmaRelease cur d m pd)

/-- `_hwdev_close`, as far as the exports of the client. -/
def hwdevClose (cur : Nat) (m : Dma) (d : Nat) : Except Stop Dma :=
  (m.hwdmas cur d).foldlM (hwdmaRelease cur d) m

/-- `bus_remove`. -/
def busRemove (m : Dma) (cur : Nat) : Except Stop Dma :=
  (List.range maxBusDevs).foldlM (hwdevClose cur) m

/-! ## The steps -/

/-- The operation ends in `__exit`. -/
def Op.kills : Op → Bool
  | .map va _ _ _ => !chkuaddr (truncPage va) pageSize
  | .move dst src => !chkuaddr (truncPage dst) pageSize || !chkuaddr (truncPage src) pageSize
  | .exit => true
  | _ => false

/-- What a running thread can do to the address spaces and the records. -/
inductive DmaOp
  /-- an operation on the address spaces, other than wiring and unwiring -/
  | vm (op : Op)
  /-- `SYS_EXPORT` -/
  | exportPage (d va sz : Nat)
  /-- `SYS_UNEXPORT` -/
  | unexport (d va : Nat)
  /-- `SYS_CLOSE` -/
  | close (d : Nat)

/-- Perform an operation for the thread `cur`.  A descriptor out of range and an address out of
range are refused. -/
def Dma.exec (m : Dma) (cur : Nat) : DmaOp → Except Stop Dma
  | .vm op => do
      let m ← if op.kills then busRemove m cur else pure m
      return { m with vm := ← liftPanic (Vm.exec m.vm cur op) }
  | .exportPage d va sz =>
      if chkuaddr va sz && d < maxBusDevs then do
        let (_, _, h) ← hwdevExport ⟨m.vm, false, m.hwdmas cur⟩ cur d va sz
        return ⟨h.vm, Function.update m.hwdmas cur h.hwdmas⟩
      else return m
  | .unexport d va =>
      if chkuaddr va 1 && d < maxBusDevs then do
        return (← hwdevUnexport m cur d va).2
      else return m
  | .close d => if d < maxBusDevs then hwdevClose cur m d else return m

/-- One step: a running thread performs an operation, and the kernel does not stop. -/
def DmaStep (m : Dma) (a : Nat × DmaOp) (m' : Dma) : Prop :=
  m.vm.Running a.1 ∧ (∀ op, a.2 = .vm op → op.wires = false) ∧ m.exec a.1 a.2 = .ok m'

/-- At boot nothing is exported. -/
structure DmaBoot (m : Dma) : Prop where
  vm : Boot m.vm
  hwdmas : ∀ pid d, m.hwdmas pid d = []

/-! ## Counting records -/

/-- The number of records in the lists of a thread with the property `p`. -/
def recorded (x : Nat → List Hwdma) (p : Hwdma → Bool) : Nat :=
  ∑ d ∈ Finset.range maxBusDevs, (x d).countP p

/-- The exports of a page that have not been unexported. -/
def Dma.exports (m : Dma) (pfn : Nat) : Nat :=
  ∑ pid ∈ m.vm.live, recorded (m.hwdmas pid) (·.iopfn == pfn)

/-- The exports made through an entry that have not been unexported. -/
def Dma.through (m : Dma) (pid v : Nat) : Nat := recorded (m.hwdmas pid) fun pd ↦ vpn pd.va == v

section Recorded

variable {x : Nat → List Hwdma} {p : Hwdma → Bool} {d : Nat} {pd : Hwdma}

/-- A record that counts makes the number positive. -/
theorem recorded_pos (hd : d < maxBusDevs) (hpd : pd ∈ x d) (hp : p pd) : 0 < recorded x p :=
  shelved_pos (Finset.mem_range.2 hd) hpd hp

/-- A positive number comes from a record. -/
theorem exists_of_recorded_pos (h : 0 < recorded x p) :
    ∃ d < maxBusDevs, ∃ pd ∈ x d, p pd := by
  obtain ⟨d, hd, hpd⟩ := exists_of_shelved_pos h
  exact ⟨d, Finset.mem_range.1 hd, hpd⟩

/-- Empty lists hold nothing. -/
theorem recorded_eq_zero (h : ∀ d < maxBusDevs, x d = []) : recorded x p = 0 :=
  shelved_eq_zero fun d hd ↦ h d (Finset.mem_range.1 hd)

/-- Filing a record. -/
theorem recorded_cons (hd : d < maxBusDevs) :
    recorded (Function.update x d (pd :: x d)) p = recorded x p + (p pd).toNat :=
  shelved_cons (Finset.mem_range.2 hd)

/-- Removing one. -/
theorem recorded_erase (hd : d < maxBusDevs) (hpd : pd ∈ x d) :
    recorded (Function.update x d ((x d).erase pd)) p + (p pd).toNat = recorded x p :=
  shelved_erase (Finset.mem_range.2 hd) hpd

end Recorded

namespace Dma

variable {m : Dma} {cur d pid d' v q : Nat} {l : List Hwdma} {pd : Hwdma}

@[simp] theorem setHwdmas_vm (m : Dma) (cur d : Nat) (l : List Hwdma) :
    (m.setHwdmas cur d l).vm = m.vm := rfl

@[simp] theorem setHwdmas_self (m : Dma) (cur d : Nat) (l : List Hwdma) :
    (m.setHwdmas cur d l).hwdmas cur = Function.update (m.hwdmas cur) d l :=
  Function.update_self ..

theorem setHwdmas_of_ne (h : pid ≠ cur) : (m.setHwdmas cur d l).hwdmas pid = m.hwdmas pid :=
  Function.update_of_ne h ..

/-- The exports through an entry are a matter of the records alone. -/
theorem through_congr {m' : Dma} (h : m'.hwdmas = m.hwdmas) (pid v : Nat) :
    m'.through pid v = m.through pid v := by
  rw [through, h, through]

/-- Those of a page are also a matter of the threads. -/
theorem exports_congr {m' : Dma} (h : m'.hwdmas = m.hwdmas) (hl : m'.vm.live = m.vm.live)
    (q : Nat) : m'.exports q = m.exports q := by
  rw [exports, h, hl, exports]

/-- A record is one of those put in, or was there before. -/
theorem mem_setHwdmas (h : pd ∈ (m.setHwdmas cur d l).hwdmas pid d') :
    (pid = cur ∧ d' = d ∧ pd ∈ l) ∨ pd ∈ m.hwdmas pid d' :=
  mem_setCell h

/-- The exports of a page, when one list is replaced. -/
theorem exports_setHwdmas (hcur : cur ∈ m.vm.live) (l : List Hwdma) (q : Nat) :
    (m.setHwdmas cur d l).exports q + recorded (m.hwdmas cur) (·.iopfn == q) =
      m.exports q + recorded (Function.update (m.hwdmas cur) d l) (·.iopfn == q) :=
  sum_update hcur m.hwdmas (Function.update (m.hwdmas cur) d l) fun x ↦ recorded x (·.iopfn == q)

theorem through_setHwdmas (l : List Hwdma) (v : Nat) : (m.setHwdmas cur d l).through cur v =
    recorded (Function.update (m.hwdmas cur) d l) fun pd ↦ vpn pd.va == v := by
  rw [through, setHwdmas_self]

theorem through_setHwdmas_of_ne (h : pid ≠ cur) :
    (m.setHwdmas cur d l).through pid v = m.through pid v := by
  rw [through, setHwdmas_of_ne h, through]

/-- Filing a record adds one to the exports of its page. -/
theorem exports_cons (hcur : cur ∈ m.vm.live) (hd : d < maxBusDevs) :
    (m.setHwdmas cur d (pd :: m.hwdmas cur d)).exports q =
      m.exports q + (pd.iopfn == q).toNat := by
  have h := exports_setHwdmas (d := d) hcur (pd :: m.hwdmas cur d) q
  rw [recorded_cons hd] at h
  omega

/-- And to the exports through its entry. -/
theorem through_cons (hd : d < maxBusDevs) :
    (m.setHwdmas cur d (pd :: m.hwdmas cur d)).through cur v =
      m.through cur v + (vpn pd.va == v).toNat := by
  rw [through_setHwdmas, recorded_cons hd, through]

/-- Removing a record takes one away. -/
theorem exports_remove (hcur : cur ∈ m.vm.live) (hd : d < maxBusDevs) (hpd : pd ∈ m.hwdmas cur d) :
    (m.remove cur d pd).exports q + (pd.iopfn == q).toNat = m.exports q := by
  have h := exports_setHwdmas (d := d) hcur ((m.hwdmas cur d).erase pd) q
  have he := recorded_erase (p := (·.iopfn == q)) hd hpd
  rw [remove]
  omega

theorem through_remove (hd : d < maxBusDevs) (hpd : pd ∈ m.hwdmas cur d) :
    (m.remove cur d pd).through cur v + (vpn pd.va == v).toNat = m.through cur v := by
  rw [remove, through_setHwdmas]
  exact recorded_erase hd hpd

end Dma

/-! ## The steps that keep the counts -/

/-- No other export of the page outlasts the last one through an entry. -/
def Dma.LastOut (m : Dma) (cur : Nat) (pd : Hwdma) : Prop :=
  m.through cur (vpn pd.va) = 1 → m.exports pd.iopfn = 1

/-- So it is when the records of a list are released one after the other. -/
def Dma.Releases (cur d : Nat) : Dma → List Hwdma → Prop
  | _, [] => True
  | m, pd :: pds => m.LastOut cur pd ∧ (m.remove cur d pd).Releases cur d pds

/-- So it is when the descriptors of a thread are closed one after the other. -/
def Dma.Removes (cur : Nat) : Dma → List Nat → Prop
  | _, [] => True
  | m, d :: ds => m.Releases cur d (m.hwdmas cur d) ∧ (m.setHwdmas cur d []).Removes cur ds

/-- A page that is handed out and entered in a table has no export outstanding, and the page that
`thfork` takes has no wire count left over. -/
def Dma.HandsOut (m : Dma) (cur : Nat) : Op → Prop
  | .map va perm root pg =>
      (∃ prot, mapCall perm root = .vmmap prot ∨ mapCall perm root = .vmmap32 prot) →
      l1eExternal (m.vm.l1 cur (vpn va)) = false → m.exports pg.pfn = 0
  | .fork _ pick => ∀ v ∈ zcowVpns, (m.vm.l1 cur v).p →
      (pick v).wir = 0 ∧ m.exports (pick v).pfn = 0
  | _ => True

/-- The step keeps the wire counts and the marks. -/
def Dma.Wires (m : Dma) : Nat × DmaOp → Prop
  | (cur, .vm op) => if op.kills then m.Removes cur (List.range maxBusDevs) else m.HandsOut cur op
  | (cur, .exportPage _ va _) => m.exports (m.vm.l1 cur (vpn va)).pfn + 1 < 2 ^ 64
  | (cur, .unexport d va) => ∀ pd, (m.hwdmas cur d).find? (·.va == va) = some pd → m.LastOut cur pd
  | (cur, .close d) => m.Releases cur d (m.hwdmas cur d)

end Mh.Vm
