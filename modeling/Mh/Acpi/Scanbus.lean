import Mh.Acpi.Bars
import Mh.Acpi.Decode
import Mh.Lib.Tour

/-!
# What `acpi_pci_scandevice` makes of a device

The two halves of the result: the BARs that hold what they held, whatever fails, and the segments of
a device that nothing fails for.
-/

namespace Mh.Acpi

variable {dev : Device} {out : Site → Outcome} {isVga : Bool} {irq : Option Seg} {reg : BitVec 64}

/-! ## The registers -/

/-- The accesses to each BAR that is sized get as far as writing back what it held, if they get as
far as writing the ones and if these make a difference. -/
def Recovers (dev : Device) (out : Site → Outcome) (reg : BitVec 64) : Prop :=
  ∀ i < nbars dev.hdrtype, i < nbars (hdrtypeRead dev out reg) →
    Spoiled out i (dev.config (pciBarReg i)) →
      (dev.config (pciBarReg i)).val ||| (dev.config (pciBarReg i)).mask =
        (dev.config (pciBarReg i)).val

theorem restored_iff : (∀ i < nbars dev.hdrtype,
    ((acpiPciScandevice out isVga (dev.start irq reg)).config (pciBarReg i)).val =
      (dev.config (pciBarReg i)).val) ↔ Recovers dev out reg := by
  refine forall₂_congr fun i _ ↦ ?_
  rw [config_scandevice]
  by_cases hi : i < nbars (hdrtypeRead dev out reg)
  · rw [if_pos hi, snd_sizeBar_sizeBar]
    exact ⟨fun h _ ↦ h, fun h ↦ h hi⟩
  · rw [if_neg hi]
    exact ⟨fun _ h ↦ absurd h hi, fun _ ↦ rfl⟩

/-! ## The segments -/

/-- The registers of the BARs, one after the other. -/
theorem filterMap_registers {α : Type} (dev : Device) (f : Register → Option α) :
    (List.range (nbars dev.hdrtype)).filterMap (fun i ↦ f (dev.config (pciBarReg i))) =
      dev.bars.flatMap fun b ↦ b.registers.filterMap f := by
  have h := congrArg (List.filterMap f) dev.registers_eq
  rw [List.filterMap_map, List.filterMap_flatMap] at h
  exact h

/-- With no failure the loop over the BARs for ports leaves all as it is, but for the segments. -/
theorem config_pioBars (s : Scan) (n i : Nat) :
    (s.pioBars (fun _ ↦ .done) n).config (pciBarReg i) = s.config (pciBarReg i) := by
  refine (Scan.config_scanBars isPio pioSeg _ _ s n i).trans ?_
  rw [sizeBar_done]
  exact ite_self _

theorem cfg_pioBars (s : Scan) (n : Nat) : (s.pioBars (fun _ ↦ .done) n).cfg =
    ((List.range n).filterMap fun i ↦ (s.config (pciBarReg i)).ports).foldl
      HwcreatCfg.pushPio s.cfg :=
  Scan.cfg_scanBars isPio pioSeg HwcreatCfg.pushPio (fun _ _ ↦ .done) s n

theorem cfg_memBars (s : Scan) (n : Nat) : (s.memBars (fun _ ↦ .done) n).cfg =
    ((List.range n).filterMap fun i ↦ (s.config (pciBarReg i)).memory).foldl
      HwcreatCfg.pushMem s.cfg :=
  Scan.cfg_scanBars isMem memSeg HwcreatCfg.pushMem (fun _ _ ↦ .done) s n

/-- The segments of a device that nothing fails for. -/
theorem cfg_scandevice (hbridge : dev.hdrtype ≠ 1) :
    (acpiPciScandevice (fun _ ↦ .done) false (dev.start irq reg)).cfg =
      filled irq.toList (dev.bars.flatMap Bar.foundPorts) (dev.bars.flatMap Bar.foundMemory) := by
  have hread : pciHdrtype ((dev.start irq reg).read .done pciHdrtypeReg).reg = dev.hdrtype := rfl
  rw [acpiPciScandevice, hread, if_neg hbridge, if_neg hbridge, if_neg Bool.false_ne_true,
    if_neg Bool.false_ne_true, cfg_memBars, cfg_pioBars]
  simp only [config_pioBars]
  change (List.filterMap (fun i ↦ (dev.config (pciBarReg i)).memory) _).foldl _
    ((List.filterMap (fun i ↦ (dev.config (pciBarReg i)).ports) _).foldl _
      (filledIrq irq.toList)) = _
  rw [filterMap_registers, filterMap_registers]
  rfl

/-- They are the ranges that it decodes if and only if its BARs are plain. -/
theorem segments_iff (hbridge : dev.hdrtype ≠ 1) :
    ((acpiPciScandevice (fun _ ↦ .done) false (dev.start irq reg)).cfg.pios.map
        (fun seg ↦ (seg.base.toNat, seg.len.toNat)) = dev.bars.flatMap Bar.ports ∧
      (acpiPciScandevice (fun _ ↦ .done) false (dev.start irq reg)).cfg.mems.map
        (fun seg ↦ (seg.base.toNat, seg.len.toNat)) = dev.bars.flatMap Bar.memory) ↔
      ∀ b ∈ dev.bars, b.Plain := by
  rw [cfg_scandevice hbridge, pios_filled, mems_filled]
  exact Bar.found_iff dev.bars

/-- A device is sized right if and only if its registers are recovered and, when nothing fails and
it is neither a bridge nor VGA, its BARs are plain. -/
theorem sizing_meets_iff (dev : Device) (out : Site → Outcome) (isVga : Bool) (irq : Option Seg)
    (reg : BitVec 64) :
    SizingMeets dev out isVga (acpiPciScandevice out isVga (dev.start irq reg)) ↔
      Recovers dev out reg ∧
        ((∀ a, out a = .done) → dev.hdrtype ≠ 1 → isVga = false → ∀ b ∈ dev.bars, b.Plain) := by
  constructor
  · rintro ⟨hrestored, hsegs⟩
    refine ⟨restored_iff.1 hrestored, fun hout hbridge hvga ↦ ?_⟩
    have hfound := hsegs hout hbridge hvga
    obtain rfl : out = fun _ ↦ .done := funext hout
    subst hvga
    exact (segments_iff hbridge).1 hfound
  · rintro ⟨hrecovers, hplain⟩
    refine ⟨restored_iff.2 hrecovers, fun hout hbridge hvga ↦ ?_⟩
    have hbars := hplain hout hbridge hvga
    obtain rfl : out = fun _ ↦ .done := funext hout
    subst hvga
    exact (segments_iff hbridge).2 hbars

/-- A network adapter with 4 KB of memory. -/
def nic : Device where
  config := fun a ↦ if a = 0x10 then ⟨0xfebf0000, 0xfffff000⟩ else ⟨0, 0⟩
  bars := [.mem32 false ⟨0xfebf0000, 12, by decide, by decide, by decide⟩, .unimplemented,
    .unimplemented, .unimplemented, .unimplemented, .unimplemented]
  registers_eq := rfl

/-- An adapter with its memory at 4 GB. -/
def nicAbove : Device where
  config := fun a ↦ if a = 0x10 then ⟨4, 0xfffff000⟩ else if a = 0x14 then ⟨1, 0xffffffff⟩
    else ⟨0, 0⟩
  bars := [.mem64 false ⟨0x100000000, 12, by decide, by decide, by decide⟩, .unimplemented,
    .unimplemented, .unimplemented, .unimplemented]
  registers_eq := rfl

/-- If the size cannot be read, the adapter is left with ones in its BAR; and with its memory at
4 GB it is not declared even if all goes well. -/
theorem sizing_fails :
    ¬ SizingMeets nic (fun a ↦ if a = .mem 0 .size then .refused else .done) false
      (acpiPciScandevice (fun a ↦ if a = .mem 0 .size then .refused else .done) false
        (nic.start none 0)) ∧
    ¬ SizingMeets nicAbove (fun _ ↦ .done) false
      (acpiPciScandevice (fun _ ↦ .done) false (nicAbove.start none 0)) := by
  constructor
  · intro h
    have hrecovers := restored_iff.1 h.restored
    have hspoiled : Spoiled (fun a ↦ if a = .mem 0 .size then .refused else .done) 0
        (nic.config (pciBarReg 0)) := Or.inr (by decide)
    exact absurd (hrecovers 0 (by decide) (by decide) hspoiled) (by decide)
  · intro h
    have hplain := (segments_iff (by decide)).1 (h.segments (fun _ ↦ rfl) (by decide) rfl)
    exact absurd (hplain _ (List.mem_cons_self)).1 (by decide)

end Mh.Acpi

/-!
## The enumeration of PCI

`acpi_pci_scanbus` and `acpi_pci_scandevice` of `sys/bootstrap/plt_acpi.c` call each other: a bus is
scanned function by function, and behind each bridge the bus whose number the bridge holds.  Nothing
is kept of the buses that were scanned.

The number comes from the hardware, and so the enumeration comes to an end, with each function
registered once, just for the numbers that make a tree of the buses (`enumeration_iff`).
-/

namespace Mh.Acpi

open Mh.Lib

/-- A function of a device on a bus. -/
structure Fn where
  bus : BitVec 8
  dev : Nat
  func : Nat
deriving DecidableEq, Repr

/-- Configuration space: the registers of each function, by their offsets. -/
structure PciSpace where
  register : Fn → Nat → BitVec 32

/-- `PCI_VENDOR_REG`. -/
def pciVendorReg : Nat := 0x00

/-- `PCI_BRIDGE_BUSNO_REG`. -/
def pciBridgeBusnoReg : Nat := 0x18

namespace PciSpace

variable (s : PciSpace)

/-- `AcpiOsReadPciConfiguration`. -/
def read (f : Fn) (addr : Nat) : BitVec 64 := (s.register f addr).setWidth 64

/-- `getnfuncs`. -/
def getnfuncs (bus : BitVec 8) (dev : Nat) : Nat :=
  if ((s.read ⟨bus, dev, 0⟩ pciHdrtypeReg >>> 16) &&& 0xff) &&& 0x80 ≠ 0 then 8 else 1

/-- `PCI_VENDOR`. -/
def pciVendor (f : Fn) : BitVec 64 := s.read f pciVendorReg &&& 0xffff

/-- `PCI_BRIDGE_SECONDBUS`. -/
def pciBridgeSecondbus (f : Fn) : BitVec 8 :=
  ((s.read f pciBridgeBusnoReg >>> 8) &&& 0xff).setWidth 8

/-- `acpi_pci_scandevice`: `added` is what `devadd` has been called for. -/
def acpiPciScandevice (acpiPciScanbus : BitVec 8 → List Fn → Option (List Fn)) (f : Fn)
    (added : List Fn) : Option (List Fn) :=
  let added := added ++ [f]
  if pciHdrtype (s.read f pciHdrtypeReg) = 1 then acpiPciScanbus (s.pciBridgeSecondbus f) added
  else some added

/-- `acpi_pci_scanbus`, in a stack with room for so many calls. -/
def acpiPciScanbus : Nat → BitVec 8 → List Fn → Option (List Fn)
  | 0, _, _ => none
  | n + 1, bus, added =>
    (List.range 32).foldlM (fun added dev ↦
      (List.range (s.getnfuncs bus dev)).foldlM (fun added func ↦
        let f : Fn := ⟨bus, dev, func⟩
        if s.pciVendor f = 0xffff ∨ s.pciVendor f = 0 then some added
        else s.acpiPciScandevice (acpiPciScanbus n) f added) added) added

/-! ## The tour of the buses -/

/-- A function that is there. -/
def Present (f : Fn) : Prop := ¬ (s.pciVendor f = 0xffff ∨ s.pciVendor f = 0)

instance : DecidablePred s.Present := fun _ ↦ inferInstanceAs (Decidable (¬ _))

/-- The functions on a bus, in the order of the scan. -/
def functions (bus : BitVec 8) : List Fn :=
  (List.range 32).flatMap fun dev ↦ (List.range (s.getnfuncs bus dev)).flatMap fun func ↦
    if s.Present ⟨bus, dev, func⟩ then [⟨bus, dev, func⟩] else []

/-- The bus behind a bridge. -/
def behind (f : Fn) : Option (BitVec 8) :=
  if pciHdrtype (s.read f pciHdrtypeReg) = 1 then some (s.pciBridgeSecondbus f) else none

variable {s} {f : Fn} {bus : BitVec 8}

theorem mem_functions : f ∈ s.functions bus ↔
    f.bus = bus ∧ f.dev < 32 ∧ f.func < s.getnfuncs bus f.dev ∧ s.Present f := by
  rw [functions, List.mem_flatMap]
  constructor
  · rintro ⟨dev, hdev, hf⟩
    obtain ⟨func, hfunc, hf⟩ := List.mem_flatMap.1 hf
    by_cases hp : s.Present ⟨bus, dev, func⟩
    · rw [if_pos hp, List.mem_singleton] at hf
      subst hf
      exact ⟨rfl, List.mem_range.1 hdev, List.mem_range.1 hfunc, hp⟩
    · rw [if_neg hp] at hf
      cases hf
  · rintro ⟨rfl, hdev, hfunc, hp⟩
    refine ⟨f.dev, List.mem_range.2 hdev, List.mem_flatMap.2 ⟨f.func, List.mem_range.2 hfunc, ?_⟩⟩
    rw [if_pos hp]
    exact List.mem_singleton_self f

theorem nodup_functions (s : PciSpace) (bus : BitVec 8) : (s.functions bus).Nodup := by
  have hone (dev func : Nat) : ∀ f ∈ (if s.Present ⟨bus, dev, func⟩ then
      [(⟨bus, dev, func⟩ : Fn)] else []), f = ⟨bus, dev, func⟩ := by
    intro f hf
    split at hf
    · exact List.mem_singleton.1 hf
    · cases hf
  rw [functions, List.nodup_flatMap]
  constructor
  · intro dev _
    rw [List.nodup_flatMap]
    constructor
    · intro func _
      split
      · exact List.nodup_singleton _
      · exact List.nodup_nil
    · refine List.nodup_range.imp fun {i j} hne f hi hj ↦ hne ?_
      exact congrArg Fn.func ((hone dev i f hi).symm.trans (hone dev j f hj))
  · refine List.nodup_range.imp fun {i j} hne f hi hj ↦ hne ?_
    obtain ⟨k, -, hk⟩ := List.mem_flatMap.1 hi
    obtain ⟨l, -, hl⟩ := List.mem_flatMap.1 hj
    exact congrArg Fn.dev ((hone i k f hk).symm.trans (hone j l f hl))

/-- The functions on the buses, with the bridges between these. -/
def tour (s : PciSpace) : Tour (BitVec 8) Fn where
  items := s.functions
  next := s.behind
  place := Fn.bus
  place_of_mem h := (mem_functions.1 h).1
  nodup := s.nodup_functions

/-! ## The scan is a tour -/

section Step

variable {n : Nat} {added r : List Fn}
  (ih : ∀ bus added r, s.acpiPciScanbus n bus added = some r ↔
    s.tour.Depth n bus ∧ r = added ++ s.tour.visits n bus)

include ih

/-- What the scan of a function registers. -/
theorem acpiPciScandevice_eq_some :
    s.acpiPciScandevice (s.acpiPciScanbus n) f added = some r ↔
      (∀ c, s.behind f = some c → s.tour.Depth n c) ∧ r = added ++ (f :: s.tour.behind n f) := by
  rw [acpiPciScandevice, Tour.behind]
  change _ ↔ _ ∧ r = added ++ (f :: ((s.behind f).map (s.tour.visits n)).getD [])
  rw [behind]
  split
  · rw [ih, List.append_assoc, List.singleton_append]
    refine and_congr_left fun _ ↦ ⟨fun h c hc ↦ ?_, fun h ↦ h _ rfl⟩
    cases hc
    exact h
  · constructor
    · intro h
      refine ⟨fun c hc ↦ ?_, (Option.some.inj h).symm⟩
      cases hc
    · rintro ⟨-, rfl⟩
      rfl

/-- What the loop over the functions registers for one of them, which may not be there. -/
theorem scanFunction_eq_some :
    (if s.pciVendor f = 0xffff ∨ s.pciVendor f = 0 then some added
      else s.acpiPciScandevice (s.acpiPciScanbus n) f added) = some r ↔
    (s.Present f → ∀ c, s.behind f = some c → s.tour.Depth n c) ∧
      r = added ++ (if s.Present f then f :: s.tour.behind n f else []) := by
  by_cases hp : s.Present f
  · rw [if_neg hp, if_pos hp, acpiPciScandevice_eq_some ih]
    exact and_congr_left fun _ ↦ ⟨fun h _ ↦ h, fun h ↦ h hp⟩
  · rw [if_pos (not_not.1 hp), if_neg hp, List.append_nil]
    constructor
    · intro h
      exact ⟨fun h' ↦ absurd h' hp, (Option.some.inj h).symm⟩
    · rintro ⟨-, rfl⟩
      rfl

end Step

/-- What a tour visits on a bus, device by device and function by function. -/
theorem visits_tour (n : Nat) (bus : BitVec 8) : s.tour.visits (n + 1) bus =
    (List.range 32).flatMap fun dev ↦ (List.range (s.getnfuncs bus dev)).flatMap fun func ↦
      if s.Present ⟨bus, dev, func⟩ then
        (⟨bus, dev, func⟩ : Fn) :: s.tour.behind n ⟨bus, dev, func⟩
      else [] := by
  have hone (f : Fn) : (if s.Present f then [f] else []).flatMap
      (fun f ↦ f :: s.tour.behind n f) = if s.Present f then f :: s.tour.behind n f else [] := by
    split
    · exact List.flatMap_singleton _ _
    · rfl
  rw [Tour.visits_succ]
  change (s.functions bus).flatMap _ = _
  rw [functions, List.flatMap_assoc]
  simp only [List.flatMap_assoc, hone]

/-- The scan of a bus is the tour from there. -/
theorem acpiPciScanbus_eq_some {n : Nat} {added r : List Fn} :
    s.acpiPciScanbus n bus added = some r ↔
      s.tour.Depth n bus ∧ r = added ++ s.tour.visits n bus := by
  induction n generalizing bus added r with
  | zero => exact ⟨fun h ↦ (Option.some_ne_none r h.symm).elim, fun h ↦ h.1.elim⟩
  | succ n ih =>
    have hdev : ∀ dev ∈ List.range 32, ∀ added r, _ ↔ _ := fun dev _ added r ↦
      foldlM_append_eq_some (l := List.range (s.getnfuncs bus dev)) (s := added) (r := r)
        fun func _ _ _ ↦ scanFunction_eq_some (f := ⟨bus, dev, func⟩) fun _ _ _ ↦ ih
    rw [acpiPciScanbus, visits_tour]
    refine (foldlM_append_eq_some hdev).trans (and_congr_left' ⟨?_, ?_⟩)
    · rintro h f c ⟨hf, hnext⟩
      obtain ⟨rfl, hd, hfn, hp⟩ := mem_functions.1 hf
      exact h f.dev (List.mem_range.2 hd) f.func (List.mem_range.2 hfn) hp c hnext
    · intro h dev hd func hfn hp c hnext
      exact h ⟨bus, dev, func⟩ c ⟨mem_functions.2
        ⟨rfl, List.mem_range.1 hd, List.mem_range.1 hfn, hp⟩, hnext⟩

/-- The enumeration from a bus comes to an end, and registers no function twice. -/
def Enumerates (s : PciSpace) (bus : BitVec 8) : Prop :=
  ∃ n added, s.acpiPciScanbus n bus [] = some added ∧ added.Nodup

/-- It does so if and only if the buses form a tree: no bridge that is reached leads to the bus the
enumeration starts from, and no two to one bus, unless that is empty. -/
theorem enumeration_iff (s : PciSpace) (bus : BitVec 8) :
    s.Enumerates bus ↔ s.tour.Branches bus := by
  have : Finite (BitVec 8) := Finite.of_injective BitVec.toFin fun _ _ ↦ BitVec.eq_of_toFin_eq
  rw [← Tour.ends_iff]
  refine exists_congr fun n ↦ ?_
  constructor
  · rintro ⟨added, hscan, hnodup⟩
    obtain ⟨hdepth, rfl⟩ := acpiPciScanbus_eq_some.1 hscan
    exact ⟨hdepth, hnodup⟩
  · rintro ⟨hdepth, hnodup⟩
    exact ⟨_, acpiPciScanbus_eq_some.2 ⟨hdepth, rfl⟩, hnodup⟩

/-- One bridge, with the bus numbers it has after a reset. -/
def resetBridge : PciSpace where
  register f addr :=
    if f = ⟨0, 0, 0⟩ then
      if addr = pciVendorReg then 0x244e8086 else if addr = pciHdrtypeReg then 0x00010000 else 0
    else 0xffffffff

/-- The bus behind it is the one that it is on, and the scan does not return, in a stack of any
size. -/
theorem enumeration_loops :
    (∀ n, resetBridge.acpiPciScanbus n 0 [] = none) ∧ ¬ resetBridge.Enumerates 0 := by
  have hbridge : (⟨0, 0, 0⟩ : Fn) ∈ resetBridge.functions 0 :=
    mem_functions.2 ⟨rfl, by decide, by decide, by decide⟩
  have hcycle : Relation.TransGen resetBridge.tour.Leads 0 0 :=
    .single ⟨⟨0, 0, 0⟩, hbridge, by decide⟩
  have hnone (n : Nat) : resetBridge.acpiPciScanbus n 0 [] = none := by
    refine Option.eq_none_iff_forall_ne_some.2 fun r hr ↦ ?_
    exact (acpiPciScanbus_eq_some.1 hr).1.not_cycle hcycle
  refine ⟨hnone, ?_⟩
  rintro ⟨n, added, hscan, -⟩
  rw [hnone n] at hscan
  cases hscan

end PciSpace

end Mh.Acpi
