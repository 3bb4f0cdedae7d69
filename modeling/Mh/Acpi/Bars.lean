import Mh.Acpi.Resources
import Mathlib.Algebra.Order.Ring.Nat

/-!
# The base addresses of a PCI device

The second half of `acpi_pci_scandevice` of `sys/bootstrap/plt_acpi.c`, from the reading of the
header type to `devadd`.  A base address register (BAR) is sized by writing ones to it, reading back
which of them it keeps, and writing back what it held; an access that is refused ends the sizing
where it is, be the register restored or not.  Memory addresses of 64 bits have two registers, which
the loops look at one by one.

`sizing_meets_iff` says for which devices and which failures all registers are restored, and when
the segments are the ranges that the device decodes.
-/

namespace Mh.Acpi

/-! ## Configuration space -/

/-- A register of configuration space: the bits of `mask` can be written. -/
structure Register where
  val : BitVec 32
  mask : BitVec 32
deriving DecidableEq, Repr

/-- What a register holds after a write. -/
def Register.write (r : Register) (v : BitVec 32) : Register :=
  { r with val := (v &&& r.mask) ||| (r.val &&& ~~~r.mask) }

/-- The registers of a function of a device, by their offsets. -/
abbrev Config := Nat → Register

/-- An access takes two calls of the kernel, one for the address (port `0xcf8`) and one for the
data (port `0xcfc`).  If the first fails the caller is told; if the second does, it is not. -/
inductive Outcome
  | done
  | refused
  | lost
deriving DecidableEq, Repr

/-- `AcpiOsReadPciConfiguration`: `value` is what the variable holds before; `none` is a failure,
which leaves it. -/
def acpiOsReadPciConfiguration (o : Outcome) (r : Register) (value : BitVec 64) :
    Option (BitVec 64) :=
  match o with
  | .refused => none
  | .lost => some value
  | .done => some (r.val.setWidth 64)

/-- `AcpiOsWritePciConfiguration`: `none` is a failure, which leaves the register. -/
def acpiOsWritePciConfiguration (o : Outcome) (r : Register) (value : BitVec 64) :
    Option Register :=
  match o with
  | .refused => none
  | .lost => some r
  | .done => some (r.write (value.setWidth 32))

/-- `PCI_HDRTYPE_REG`. -/
def pciHdrtypeReg : Nat := 0x0c

/-- `PCI_BAR_REG`. -/
def pciBarReg (i : Nat) : Nat := 0x10 + i * 4

/-- `PCI_BRIDGE_IO_REG`, and the other registers of a bridge. -/
def pciBridgeIoReg : Nat := 0x1c
def pciBridgeMemReg : Nat := 0x20
def pciBridgePmemReg : Nat := 0x24
def pciBridgePmemBaseupperReg : Nat := 0x28
def pciBridgePmemLimitupperReg : Nat := 0x2c
def pciBridgeIoupperReg : Nat := 0x30

/-- `PCI_HDRTYPE(reg) & 0x7f`. -/
def pciHdrtype (reg : BitVec 64) : BitVec 64 := (reg >>> 16) &&& 0xff &&& 0x7f

/-- How many BARs a header of some type has. -/
def nbars (hdrtype : BitVec 64) : Nat :=
  if hdrtype = 0 then 6 else if hdrtype = 1 then 2 else 0

/-! ## Sizing -/

/-- The accesses to a BAR. -/
inductive Access
  | probe
  | ones
  | size
  | restore
deriving DecidableEq, Repr

/-- The accesses of the second half of `acpi_pci_scandevice`. -/
inductive Site
  | hdrtype
  | pio (i : Nat) (a : Access)
  | bridgeIo
  | bridgeIoupper
  | mem (i : Nat) (a : Access)
  | bridgeMem
  | bridgePmem
  | bridgePmemBaseupper
  | bridgePmemLimitupper
deriving DecidableEq, Repr

/-- `ffs`: the number of the lowest bit that is set, counted from 1. -/
def ffs (w : BitVec 32) : Nat := (((List.range 32).find? fun i ↦ w.getLsbD i).map (· + 1)).getD 0

/-- What both loops do with a BAR: the contents of the register and what it kept of the ones, if
the loop gets so far. -/
def sizeBar (wanted : BitVec 64 → Bool) (out : Access → Outcome) (r : Register) :
    Option (BitVec 64 × BitVec 64) × Register :=
  match acpiOsReadPciConfiguration (out .probe) r 0 with
  | none => (none, r)
  | some reg =>
    if reg = 0 ∨ wanted reg = false then (none, r)
    else match acpiOsWritePciConfiguration (out .ones) r (-1) with
      | none => (none, r)
      | some r₁ => match acpiOsReadPciConfiguration (out .size) r₁ 0 with
        | none => (none, r₁)
        | some size => match acpiOsWritePciConfiguration (out .restore) r₁ reg with
          | none => (none, r₁)
          | some r₂ => (some (reg, size), r₂)

/-- `(reg & 1) == 1`: the register is for ports. -/
def isPio (reg : BitVec 64) : Bool := reg &&& 1 == 1

/-- `(reg & 1) == 0`: it is for memory. -/
def isMem (reg : BitVec 64) : Bool := reg &&& 1 == 0

/-- The ports of a BAR. -/
def pioSeg (orig size : BitVec 64) : Option Seg :=
  let size := size &&& ~~~0x3
  if size = 0 then none
  else
    let iobase : BitVec 32 := (orig &&& ~~~0x3).setWidth 32
    let iolen : BitVec 32 := 1#32 <<< (ffs (size.setWidth 32) - 1)
    if iobase = 0 then none else some ⟨iobase.setWidth 16, iolen.setWidth 16⟩

/-- The memory of a BAR. -/
def memSeg (orig size : BitVec 64) : Option Memseg :=
  let size := size &&& ~~~0xf
  if size = 0 then none
  else
    let membase := orig &&& ~~~0xf
    let memlen : BitVec 64 := (1#32 <<< (ffs (size.setWidth 32) - 1)).signExtend 64
    some ⟨membase, memlen.setWidth 32⟩

/-- The device, the configuration to be, and the variable `reg`. -/
structure Scan where
  config : Config
  cfg : HwcreatCfg
  reg : BitVec 64

namespace Scan

/-- `AcpiOsReadPciConfiguration(&acpi_pciid, addr, &reg, 32)`, whatever it returns. -/
def read (s : Scan) (o : Outcome) (addr : Nat) : Scan :=
  { s with reg := (acpiOsReadPciConfiguration o (s.config addr) s.reg).getD s.reg }

/-- What both loops do with BAR `i`. -/
def scanBar {α : Type} (wanted : BitVec 64 → Bool) (seg : BitVec 64 → BitVec 64 → Option α)
    (push : HwcreatCfg → α → HwcreatCfg) (out : Nat → Access → Outcome) (s : Scan) (i : Nat) :
    Scan :=
  let r := s.config (pciBarReg i)
  let found := sizeBar wanted (out i) r
  { config := Function.update s.config (pciBarReg i) found.2
    cfg := ((found.1.bind fun p ↦ seg p.1 p.2).map (push s.cfg)).getD s.cfg
    reg := (acpiOsReadPciConfiguration (out i .probe) r 0).getD 0 }

/-- The loop over the BARs for ports. -/
def pioBars (out : Site → Outcome) (n : Nat) (s : Scan) : Scan :=
  (List.range n).foldl (scanBar isPio pioSeg HwcreatCfg.pushPio fun i a ↦ out (.pio i a)) s

/-- The loop over the BARs for memory. -/
def memBars (out : Site → Outcome) (n : Nat) (s : Scan) : Scan :=
  (List.range n).foldl (scanBar isMem memSeg HwcreatCfg.pushMem fun i a ↦ out (.mem i a)) s

/-- A range of ports, if it is not empty. -/
def addPio (s : Scan) (iobase iolimit : BitVec 32) : Scan :=
  if iobase < iolimit then
    { s with cfg := s.cfg.pushPio ⟨iobase.setWidth 16, (iolimit - iobase).setWidth 16⟩ }
  else s

/-- A range of memory, if it is not empty. -/
def addMem (s : Scan) (membase memlimit : BitVec 64) : Scan :=
  if membase < memlimit then
    { s with cfg := s.cfg.pushMem ⟨membase, (memlimit - membase).setWidth 32⟩ }
  else s

/-- The ports behind a bridge. -/
def bridgePio (out : Site → Outcome) (s : Scan) : Scan :=
  let s := s.read (out .bridgeIo) pciBridgeIoReg
  let iobase : BitVec 32 := (((s.reg &&& 0xff) &&& 0xf0) <<< 8).setWidth 32
  let iolimit : BitVec 32 := 0xfff ||| ((((s.reg >>> 8) &&& 0xff) &&& 0xf0) <<< 8).setWidth 32
  let s := s.read (out .bridgeIoupper) pciBridgeIoupperReg
  -- both tests are made of the register with the upper halves
  let iobase := if (s.reg &&& 0xff) &&& 0xf = 1 then
    iobase ||| ((s.reg &&& 0xffff) <<< 16).setWidth 32 else iobase
  let iolimit := if ((s.reg >>> 8) &&& 0xff) &&& 0xf = 1 then
    iolimit ||| (((s.reg >>> 16) &&& 0xffff) <<< 16).setWidth 32 else iolimit
  s.addPio iobase iolimit

/-- The memory behind a bridge. -/
def bridgeMem (out : Site → Outcome) (s : Scan) : Scan :=
  let s := s.read (out .bridgeMem) pciBridgeMemReg
  s.addMem (((s.reg &&& 0xffff) &&& 0xfff0) <<< 20)
    (((((s.reg >>> 16) &&& 0xffff) &&& 0xfff0) <<< 20) + 0xfffff)

/-- The prefetchable memory behind a bridge. -/
def bridgePmem (out : Site → Outcome) (s : Scan) : Scan :=
  let s := s.read (out .bridgePmem) pciBridgePmemReg
  let membase := ((s.reg &&& 0xffff) &&& 0xfff0) <<< 20
  let memlimit := ((((s.reg >>> 16) &&& 0xffff) &&& 0xfff0) <<< 20) + 0xfffff
  let s := s.read (out .bridgePmemBaseupper) pciBridgePmemBaseupperReg
  let membase := if s.reg ≠ 0xffffffff then membase ||| (s.reg <<< 32) else membase
  let s := s.read (out .bridgePmemLimitupper) pciBridgePmemLimitupperReg
  let memlimit := if s.reg ≠ 0xffffffff then memlimit ||| (s.reg <<< 32) else memlimit
  s.addMem membase memlimit

/-- The ports of a VGA device. -/
def vgaPio (s : Scan) : Scan := { s with cfg := s.cfg.pushPio ⟨0x3c0, 0x20⟩ }

/-- The memory of a VGA device. -/
def vgaMem (s : Scan) : Scan := { s with cfg := s.cfg.pushMem ⟨0xb8000, 0x4000⟩ }

end Scan

/-- `acpi_pci_scandevice`, from the reading of the header type to `devadd`. -/
def acpiPciScandevice (out : Site → Outcome) (isVga : Bool) (s : Scan) : Scan :=
  let s := s.read (out .hdrtype) pciHdrtypeReg
  let hdrtype := pciHdrtype s.reg
  let s := s.pioBars out (nbars hdrtype)
  let s := if isVga then s.vgaPio else s
  let s := if hdrtype = 1 then s.bridgePio out else s
  let s := s.memBars out (nbars hdrtype)
  let s := if isVga then s.vgaMem else s
  if hdrtype = 1 then (s.bridgeMem out).bridgePmem out else s

/-! ## Devices -/

/-- An aligned range of a power of two of addresses. -/
structure Range (w lo : Nat) where
  base : BitVec w
  shift : Nat
  le_shift : lo ≤ shift
  shift_lt : shift < w
  aligned : 2 ^ shift ∣ base.toNat

namespace Range

variable {w lo : Nat} (r : Range w lo)

/-- The bits of the address that can be written. -/
def mask : BitVec w := BitVec.allOnes w <<< r.shift

/-- The base and the size, if the range has an address. -/
def decoded : List (Nat × Nat) := if r.base = 0 then [] else [(r.base.toNat, 2 ^ r.shift)]

end Range

/-- The base addresses of a device. -/
inductive Bar
  | unimplemented
  | io (r : Range 32 2)
  | mem32 (prefetchable : Bool) (r : Range 32 4)
  | mem64 (prefetchable : Bool) (r : Range 64 4)

namespace Bar

/-- The prefetchable bit of a memory BAR. -/
def prefetch (p : Bool) : BitVec 32 := if p then 8 else 0

/-- The registers of a BAR. -/
def registers : Bar → List Register
  | unimplemented => [⟨0, 0⟩]
  | io r => [⟨r.base ||| 1, r.mask⟩]
  | mem32 p r => [⟨r.base ||| prefetch p, r.mask⟩]
  | mem64 p r =>
    [⟨r.base.setWidth 32 ||| (4 ||| prefetch p), r.mask.setWidth 32⟩,
      ⟨(r.base >>> 32).setWidth 32, (r.mask >>> 32).setWidth 32⟩]

/-- The ports that a BAR decodes. -/
def ports : Bar → List (Nat × Nat)
  | io r => r.decoded
  | _ => []

/-- The memory that a BAR decodes. -/
def memory : Bar → List (Nat × Nat)
  | mem32 _ r => r.decoded
  | mem64 _ r => r.decoded
  | _ => []

end Bar

/-- A function of a device, with its base addresses. -/
structure Device where
  config : Config
  bars : List Bar
  registers_eq : (List.range (nbars (pciHdrtype ((config pciHdrtypeReg).val.setWidth 64)))).map
    (fun i ↦ config (pciBarReg i)) = bars.flatMap Bar.registers

namespace Device

variable (dev : Device)

/-- The header type. -/
def hdrtype : BitVec 64 := pciHdrtype ((dev.config pciHdrtypeReg).val.setWidth 64)

/-- The state when the interrupts are done: there may be one, and `reg` holds what was read last. -/
def start (irq : Option Seg) (reg : BitVec 64) : Scan := ⟨dev.config, filledIrq irq.toList, reg⟩

end Device

/-- All BARs hold what they held before; and if nothing fails and the device is neither a bridge nor
VGA, the segments are the ranges that it decodes. -/
structure SizingMeets (dev : Device) (out : Site → Outcome) (isVga : Bool) (s : Scan) : Prop where
  restored : ∀ i < nbars dev.hdrtype,
    (s.config (pciBarReg i)).val = (dev.config (pciBarReg i)).val
  segments : (∀ a, out a = .done) → dev.hdrtype ≠ 1 → isVga = false →
    s.cfg.pios.map (fun seg ↦ (seg.base.toNat, seg.len.toNat)) = dev.bars.flatMap Bar.ports ∧
      s.cfg.mems.map (fun seg ↦ (seg.base.toNat, seg.len.toNat)) = dev.bars.flatMap Bar.memory

end Mh.Acpi
