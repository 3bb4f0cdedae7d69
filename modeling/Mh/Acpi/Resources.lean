import Mh.Lib.Run
import Mathlib.Data.List.Range

/-!
# The resources of a device in ACPI

`acpi_per_device` of `sys/bootstrap/plt_acpi.c` fills the tables of a `struct sys_hwcreat_cfg` in
three walks over the resources of a device: interrupts and ports share one table, memory has the
other.  `AcpiWalkResources` calls its callback for one resource after the other until it returns
`AE_CTRL_TERMINATE`; the list is the same in all three walks.

The tests for a full table let one entry more in than there is room for, so the walks are right just
for the devices whose resources all fit (`resources_collected_iff`).
-/

namespace Mh.Acpi

open Mh.Lib

/-! ## The tables -/

/-- `SYS_HWCREAT_MAX_SEGMENTS`, which is also `SYS_HWCREAT_MAX_MEMSEGMENTS`. -/
def sysHwcreatMaxSegments : Nat := 24

/-- `struct sys_hwcreat_seg`. -/
structure Seg where
  base : BitVec 16
  len : BitVec 16
deriving DecidableEq, Repr

/-- `struct sys_hwcreat_memseg`. -/
structure Memseg where
  base : BitVec 64
  len : BitVec 32
deriving DecidableEq, Repr

/-- The tables of `struct sys_hwcreat_cfg`. -/
structure HwcreatCfg where
  nirqsegs : Nat
  npiosegs : Nat
  nmemsegs : Nat
  segs : Nat → Seg
  memsegs : Nat → Memseg

/-- A write past the end of a table. -/
structure Overrun where
  index : Nat
deriving DecidableEq, Repr

namespace HwcreatCfg

variable (cfg : HwcreatCfg)

/-- `HWCREAT_SEGS_FULL`. -/
def segsFull : Bool := sysHwcreatMaxSegments < cfg.nirqsegs + cfg.npiosegs

/-- `HWCREAT_MEMSEGS_FULL`. -/
def memsegsFull : Bool := sysHwcreatMaxSegments < cfg.nmemsegs

/-- `cfg->segs[i] = seg`. -/
def setSeg (i : Nat) (seg : Seg) : Except Overrun HwcreatCfg :=
  if i < sysHwcreatMaxSegments then .ok { cfg with segs := Function.update cfg.segs i seg }
  else .error ⟨i⟩

/-- `cfg->memsegs[i] = seg`. -/
def setMemseg (i : Nat) (seg : Memseg) : Except Overrun HwcreatCfg :=
  if i < sysHwcreatMaxSegments then .ok { cfg with memsegs := Function.update cfg.memsegs i seg }
  else .error ⟨i⟩

end HwcreatCfg

/-- `struct sys_hwcreat_cfg hwcreat = { 0, }`. -/
def HwcreatCfg.zero : HwcreatCfg := ⟨0, 0, 0, fun _ ↦ ⟨0, 0⟩, fun _ ↦ ⟨0, 0⟩⟩

/-! ## Resources -/

/-- `ACPI_RESOURCE`: the types that are looked at, with the fields that are. -/
inductive Resource
  | irq (interruptCount : Nat) (interrupt0 : BitVec 8)
  | extendedIrq (interruptCount : Nat) (interrupt0 : BitVec 32)
  | io (minimum maximum : BitVec 16) (addressLength : BitVec 8)
  | fixedIo (address : BitVec 16) (addressLength : BitVec 8)
  | memory24 (minimum maximum addressLength : BitVec 16)
  | memory32 (minimum maximum addressLength : BitVec 32)
  | fixedMemory32 (address addressLength : BitVec 32)
  | address16 (minimum maximum addressLength : BitVec 16)
  | address32 (minimum maximum addressLength : BitVec 32)
  | address64 (minimum maximum addressLength : BitVec 64)
  | other
deriving DecidableEq, Repr

/-- The interrupt that `acpi_per_resource_irq` takes from a resource. -/
def irqOf : Resource → Option Seg
  | .irq n i => if n = 0 ∨ i = 0 then none else some ⟨i.setWidth 16, 1⟩
  | .extendedIrq n i => if n = 0 ∨ i = 0 then none else some ⟨i.setWidth 16, 1⟩
  | _ => none

/-- The ports that `acpi_per_resource_pio` takes from a resource. -/
def pioOf : Resource → Option Seg
  | .io lo hi len =>
    if lo = 0 ∨ (len = 0 ∧ hi = 0) then none
    else some ⟨lo, if len ≠ 0 then len.setWidth 16 else hi - lo⟩
  | .fixedIo addr len => if addr = 0 ∨ len = 0 then none else some ⟨addr, len.setWidth 16⟩
  | _ => none

/-- The memory from a minimum, a maximum and a length. -/
def memRange {w : Nat} (lo hi len : BitVec w) : Option Memseg :=
  if lo = 0 ∨ (len = 0 ∧ hi = 0) then none
  else
    let start : BitVec 64 := lo.setWidth 64
    let n : BitVec 64 := if len ≠ 0 then len.setWidth 64 else hi.setWidth 64 - start
    some ⟨start, n.setWidth 32⟩

/-- The memory that `acpi_per_resource_mem` takes from a resource. -/
def memOf : Resource → Option Memseg
  | .memory24 lo hi len => memRange lo hi len
  | .memory32 lo hi len => memRange lo hi len
  | .fixedMemory32 addr len =>
    if addr = 0 ∨ len = 0 then none else some ⟨addr.setWidth 64, len⟩
  | .address16 lo hi len => memRange lo hi len
  | .address32 lo hi len => memRange lo hi len
  | .address64 lo hi len => memRange lo hi len
  | _ => none

/-! ## The callbacks -/

/-- What the callbacks return. -/
inductive Status
  | ok
  | ctrlTerminate
deriving DecidableEq, Repr

/-- What the three callbacks have in common: a resource of another kind is passed over, and one
that there is no room for ends the walk. -/
def perResource {α : Type} (get : Resource → Option α) (full : HwcreatCfg → Bool)
    (put : HwcreatCfg → α → Except Overrun HwcreatCfg) (res : Resource) (cfg : HwcreatCfg) :
    Except Overrun (Status × HwcreatCfg) :=
  match get res with
  | none => .ok (.ok, cfg)
  | some a =>
    if full cfg then .ok (.ctrlTerminate, cfg)
    else do
      let cfg ← put cfg a
      return (.ok, cfg)

/-- `cfg->segs[cfg->nirqsegs] = seg; cfg->nirqsegs++`. -/
def putIrq (cfg : HwcreatCfg) (seg : Seg) : Except Overrun HwcreatCfg := do
  let cfg ← cfg.setSeg cfg.nirqsegs seg
  return { cfg with nirqsegs := cfg.nirqsegs + 1 }

/-- `cfg->segs[cfg->nirqsegs + cfg->npiosegs] = seg; cfg->npiosegs++`. -/
def putPio (cfg : HwcreatCfg) (seg : Seg) : Except Overrun HwcreatCfg := do
  let cfg ← cfg.setSeg (cfg.nirqsegs + cfg.npiosegs) seg
  return { cfg with npiosegs := cfg.npiosegs + 1 }

/-- `cfg->memsegs[cfg->nmemsegs] = seg; cfg->nmemsegs++`. -/
def putMem (cfg : HwcreatCfg) (seg : Memseg) : Except Overrun HwcreatCfg := do
  let cfg ← cfg.setMemseg cfg.nmemsegs seg
  return { cfg with nmemsegs := cfg.nmemsegs + 1 }

/-- `acpi_per_resource_irq`. -/
def acpiPerResourceIrq : Resource → HwcreatCfg → Except Overrun (Status × HwcreatCfg) :=
  perResource irqOf HwcreatCfg.segsFull putIrq

/-- `acpi_per_resource_pio`. -/
def acpiPerResourcePio : Resource → HwcreatCfg → Except Overrun (Status × HwcreatCfg) :=
  perResource pioOf HwcreatCfg.segsFull putPio

/-- `acpi_per_resource_mem`. -/
def acpiPerResourceMem : Resource → HwcreatCfg → Except Overrun (Status × HwcreatCfg) :=
  perResource memOf HwcreatCfg.memsegsFull putMem

/-- `AcpiWalkResources`. -/
def acpiWalkResources (f : Resource → HwcreatCfg → Except Overrun (Status × HwcreatCfg)) :
    List Resource → HwcreatCfg → Except Overrun HwcreatCfg
  | [], cfg => .ok cfg
  | res :: rest, cfg => do
    let (status, cfg) ← f res cfg
    match status with
    | .ok => acpiWalkResources f rest cfg
    | .ctrlTerminate => return cfg

/-- The three walks of `acpi_per_device`. -/
def acpiPerDevice (res : List Resource) : Except Overrun HwcreatCfg := do
  let cfg ← acpiWalkResources acpiPerResourceIrq res .zero
  let cfg ← acpiWalkResources acpiPerResourcePio res cfg
  acpiWalkResources acpiPerResourceMem res cfg

/-- Nothing is written past the end, and the tables hold the first resources of each kind, as far as
there is room: the interrupts, after them the ports, and the memory. -/
def Collected (res : List Resource) (r : Except Overrun HwcreatCfg) : Prop :=
  ∃ cfg, r = .ok cfg ∧ cfg.nirqsegs + cfg.npiosegs ≤ sysHwcreatMaxSegments ∧
    cfg.nmemsegs ≤ sysHwcreatMaxSegments ∧
    (List.range cfg.nirqsegs).map cfg.segs = (res.filterMap irqOf).take sysHwcreatMaxSegments ∧
    (List.range cfg.npiosegs).map (fun i ↦ cfg.segs (cfg.nirqsegs + i)) =
      (res.filterMap pioOf).take (sysHwcreatMaxSegments - cfg.nirqsegs) ∧
    (List.range cfg.nmemsegs).map cfg.memsegs = (res.filterMap memOf).take sysHwcreatMaxSegments

/-! ## A walk -/

section Walk

variable {α : Type} {full : HwcreatCfg → Bool} {put : HwcreatCfg → α → Except Overrun HwcreatCfg}
  {push : HwcreatCfg → α → HwcreatCfg} {count : HwcreatCfg → Nat}

/-- The entries of a walk: `count` is how many there are in its table. -/
structure Fills (full : HwcreatCfg → Bool) (put : HwcreatCfg → α → Except Overrun HwcreatCfg)
    (count : HwcreatCfg → Nat) (push : HwcreatCfg → α → HwcreatCfg) (cfg : HwcreatCfg) : Prop where
  full : full cfg = decide (sysHwcreatMaxSegments < count cfg)
  put : ∀ a, put cfg a =
    if count cfg < sysHwcreatMaxSegments then .ok (push cfg a) else .error ⟨count cfg⟩
  count : ∀ a, count (push cfg a) = count cfg + 1

/-- A resource of another kind is passed over. -/
theorem perResource_none {get : Resource → Option α} {r : Resource} (hget : get r = none)
    (cfg : HwcreatCfg) : perResource get full put r cfg = .ok (.ok, cfg) := by
  rw [perResource, hget]

/-- A resource of the kind is put into the table, as long as nothing was put past its end. -/
theorem Fills.perResource_some {cfg : HwcreatCfg} (hf : Fills full put count push cfg)
    (hc : count cfg ≤ sysHwcreatMaxSegments) {get : Resource → Option α} {r : Resource} {a : α}
    (hget : get r = some a) : perResource get full put r cfg =
      (if count cfg < sysHwcreatMaxSegments then .ok (push cfg a)
        else .error ⟨count cfg⟩) >>= fun cfg ↦ .ok (.ok, cfg) := by
  have hroom : full cfg = false := by
    rw [hf.full]
    exact decide_eq_false (Nat.not_lt.2 hc)
  rw [perResource, hget, ← hf.put]
  dsimp only
  rw [hroom]
  rfl

/-- A walk puts all it finds into its table, if there is room; if not, it writes to the place after
the last one.  `I` is what the walk starts from and keeps. -/
theorem walk_perResource (get : Resource → Option α) (push : HwcreatCfg → α → HwcreatCfg)
    (count : HwcreatCfg → Nat) {I : HwcreatCfg → Prop} (hI : ∀ cfg a, I cfg → I (push cfg a))
    (hfills : ∀ cfg, I cfg → Fills full put count push cfg) (res : List Resource)
    {cfg : HwcreatCfg} (hi : I cfg) (hc : count cfg ≤ sysHwcreatMaxSegments) :
    acpiWalkResources (perResource get full put) res cfg =
      if count cfg + (res.filterMap get).length ≤ sysHwcreatMaxSegments then
        .ok ((res.filterMap get).foldl push cfg)
      else .error ⟨sysHwcreatMaxSegments⟩ := by
  induction res generalizing cfg with
  | nil => exact (if_pos hc).symm
  | cons r res ih =>
    have hf := hfills cfg hi
    cases hget : get r with
    | none =>
      rw [acpiWalkResources, perResource_none hget, List.filterMap_cons_none hget]
      exact ih hi hc
    | some a =>
      rw [acpiWalkResources, hf.perResource_some hc hget, List.filterMap_cons_some hget,
        List.length_cons]
      by_cases hlt : count cfg < sysHwcreatMaxSegments
      · have hnext := ih (hI cfg a hi) ((hf.count a).trans_le hlt)
        rw [hf.count, Nat.add_right_comm, Nat.add_assoc] at hnext
        rw [if_pos hlt]
        exact hnext
      · have heq : count cfg = sysHwcreatMaxSegments := Nat.le_antisymm hc (Nat.le_of_not_lt hlt)
        rw [if_neg hlt, heq, if_neg (by omega)]
        rfl

/-- What each entry appends. -/
theorem foldl_view (view : HwcreatCfg → List α) (h : ∀ cfg a, view (push cfg a) = view cfg ++ [a])
    (l : List α) (cfg : HwcreatCfg) : view (l.foldl push cfg) = view cfg ++ l := by
  induction l generalizing cfg with
  | nil => exact (List.append_nil _).symm
  | cons a l ih => rw [List.foldl_cons, ih, h, List.append_assoc, List.singleton_append]

/-- What no entry changes. -/
theorem foldl_keeps {β : Type} (push : HwcreatCfg → α → HwcreatCfg) (view : HwcreatCfg → β)
    (h : ∀ cfg a, view (push cfg a) = view cfg) (l : List α) (cfg : HwcreatCfg) :
    view (l.foldl push cfg) = view cfg := by
  induction l generalizing cfg with
  | nil => rfl
  | cons a l ih => rw [List.foldl_cons, ih, h]

end Walk

/-! ## The three tables -/

namespace HwcreatCfg

variable (cfg : HwcreatCfg)

/-- The interrupts in the table. -/
def irqs : List Seg := (List.range cfg.nirqsegs).map cfg.segs

/-- The ports, which come after the interrupts. -/
def pios : List Seg := (List.range cfg.npiosegs).map fun i ↦ cfg.segs (cfg.nirqsegs + i)

/-- The memory. -/
def mems : List Memseg := (List.range cfg.nmemsegs).map cfg.memsegs

/-- One more interrupt. -/
def pushIrq (seg : Seg) : HwcreatCfg :=
  { cfg with segs := Function.update cfg.segs cfg.nirqsegs seg, nirqsegs := cfg.nirqsegs + 1 }

/-- One more range of ports. -/
def pushPio (seg : Seg) : HwcreatCfg :=
  { cfg with
    segs := Function.update cfg.segs (cfg.nirqsegs + cfg.npiosegs) seg
    npiosegs := cfg.npiosegs + 1 }

/-- One more range of memory. -/
def pushMem (seg : Memseg) : HwcreatCfg :=
  { cfg with
    memsegs := Function.update cfg.memsegs cfg.nmemsegs seg
    nmemsegs := cfg.nmemsegs + 1 }

/-- A table with one more entry. -/
theorem map_range_update {β : Type} (f : Nat → β) (a : β) (k n : Nat) :
    (List.range (n + 1)).map (fun i ↦ Function.update f (k + n) a (k + i)) =
      (List.range n).map (fun i ↦ f (k + i)) ++ [a] := by
  rw [List.range_succ, List.map_append, List.map_singleton, Function.update_self]
  congr 1
  refine List.map_congr_left fun i hi ↦ Function.update_of_ne ?_ _ _
  have hlt := List.mem_range.1 hi
  omega

variable {cfg}

theorem irqs_pushIrq (seg : Seg) : (cfg.pushIrq seg).irqs = cfg.irqs ++ [seg] := by
  have h := map_range_update cfg.segs seg 0 cfg.nirqsegs
  simp only [Nat.zero_add] at h
  exact h

theorem pios_pushPio (seg : Seg) : (cfg.pushPio seg).pios = cfg.pios ++ [seg] :=
  map_range_update cfg.segs seg cfg.nirqsegs cfg.npiosegs

/-- The ports do not touch the interrupts. -/
theorem irqs_pushPio (seg : Seg) : (cfg.pushPio seg).irqs = cfg.irqs := by
  refine List.map_congr_left fun i hi ↦ Function.update_of_ne ?_ _ _
  have hlt : i < cfg.nirqsegs := List.mem_range.1 hi
  omega

theorem mems_pushMem (seg : Memseg) : (cfg.pushMem seg).mems = cfg.mems ++ [seg] := by
  have h := map_range_update cfg.memsegs seg 0 cfg.nmemsegs
  simp only [Nat.zero_add] at h
  exact h

end HwcreatCfg

open HwcreatCfg

variable {res : List Resource} {cfg : HwcreatCfg}

/-- The walk for interrupts, before there are ports. -/
theorem walk_irq (res : List Resource) (hz : cfg.npiosegs = 0)
    (hc : cfg.nirqsegs ≤ sysHwcreatMaxSegments) :
    acpiWalkResources acpiPerResourceIrq res cfg =
      if cfg.nirqsegs + (res.filterMap irqOf).length ≤ sysHwcreatMaxSegments then
        .ok ((res.filterMap irqOf).foldl pushIrq cfg)
      else .error ⟨sysHwcreatMaxSegments⟩ := by
  refine walk_perResource irqOf pushIrq HwcreatCfg.nirqsegs (I := fun cfg ↦ cfg.npiosegs = 0)
    (fun _ _ h ↦ h) ?_ res hz hc
  intro cfg hz
  refine ⟨by rw [segsFull, hz, Nat.add_zero], fun seg ↦ ?_, fun _ ↦ rfl⟩
  rw [putIrq, setSeg]
  split <;> rfl

/-- The walk for ports. -/
theorem walk_pio (res : List Resource)
    (hc : cfg.nirqsegs + cfg.npiosegs ≤ sysHwcreatMaxSegments) :
    acpiWalkResources acpiPerResourcePio res cfg =
      if cfg.nirqsegs + cfg.npiosegs + (res.filterMap pioOf).length ≤ sysHwcreatMaxSegments then
        .ok ((res.filterMap pioOf).foldl pushPio cfg)
      else .error ⟨sysHwcreatMaxSegments⟩ := by
  refine walk_perResource pioOf pushPio (fun cfg ↦ cfg.nirqsegs + cfg.npiosegs)
    (I := fun _ ↦ True) (fun _ _ h ↦ h) ?_ res trivial hc
  intro cfg _
  refine ⟨rfl, fun seg ↦ ?_, fun _ ↦ rfl⟩
  rw [putPio, setSeg]
  split <;> rfl

/-- The walk for memory. -/
theorem walk_mem (res : List Resource) (hc : cfg.nmemsegs ≤ sysHwcreatMaxSegments) :
    acpiWalkResources acpiPerResourceMem res cfg =
      if cfg.nmemsegs + (res.filterMap memOf).length ≤ sysHwcreatMaxSegments then
        .ok ((res.filterMap memOf).foldl pushMem cfg)
      else .error ⟨sysHwcreatMaxSegments⟩ := by
  refine walk_perResource memOf pushMem HwcreatCfg.nmemsegs (I := fun _ ↦ True)
    (fun _ _ h ↦ h) ?_ res trivial hc
  intro cfg _
  refine ⟨rfl, fun seg ↦ ?_, fun _ ↦ rfl⟩
  rw [putMem, setMemseg]
  split <;> rfl

section Filled

variable (is ps : List Seg) (ms : List Memseg)

/-- The tables with some interrupts. -/
def filledIrq : HwcreatCfg := is.foldl pushIrq .zero

/-- And with some ports. -/
def filledPio : HwcreatCfg := ps.foldl pushPio (filledIrq is)

/-- And with some memory. -/
def filled : HwcreatCfg := ms.foldl pushMem (filledPio is ps)

theorem irqs_filledIrq : (filledIrq is).irqs = is :=
  foldl_view HwcreatCfg.irqs (fun _ seg ↦ irqs_pushIrq seg) is .zero

theorem npiosegs_filledIrq : (filledIrq is).npiosegs = 0 :=
  foldl_keeps pushIrq HwcreatCfg.npiosegs (fun _ _ ↦ rfl) is .zero

theorem irqs_filledPio : (filledPio is ps).irqs = is :=
  (foldl_keeps pushPio HwcreatCfg.irqs (fun _ seg ↦ irqs_pushPio seg) ps _).trans
    (irqs_filledIrq is)

theorem pios_filledPio : (filledPio is ps).pios = ps := by
  rw [filledPio, foldl_view HwcreatCfg.pios (fun _ seg ↦ pios_pushPio seg), pios,
    npiosegs_filledIrq]
  rfl

theorem nmemsegs_filledPio : (filledPio is ps).nmemsegs = 0 :=
  (foldl_keeps pushPio HwcreatCfg.nmemsegs (fun _ _ ↦ rfl) ps _).trans
    (foldl_keeps pushIrq HwcreatCfg.nmemsegs (fun _ _ ↦ rfl) is .zero)

theorem irqs_filled : (filled is ps ms).irqs = is :=
  (foldl_keeps pushMem HwcreatCfg.irqs (fun _ _ ↦ rfl) ms _).trans (irqs_filledPio is ps)

theorem pios_filled : (filled is ps ms).pios = ps :=
  (foldl_keeps pushMem HwcreatCfg.pios (fun _ _ ↦ rfl) ms _).trans (pios_filledPio is ps)

theorem mems_filled : (filled is ps ms).mems = ms := by
  rw [filled, foldl_view HwcreatCfg.mems (fun _ seg ↦ mems_pushMem seg), mems, nmemsegs_filledPio]
  rfl

end Filled

/-- The counters are the lengths of the tables. -/
theorem length_irqs (cfg : HwcreatCfg) : cfg.irqs.length = cfg.nirqsegs := by
  rw [irqs, List.length_map, List.length_range]

theorem length_pios (cfg : HwcreatCfg) : cfg.pios.length = cfg.npiosegs := by
  rw [pios, List.length_map, List.length_range]

theorem length_mems (cfg : HwcreatCfg) : cfg.mems.length = cfg.nmemsegs := by
  rw [mems, List.length_map, List.length_range]

/-! ## The three walks -/

/-- A device has no more resources than there is room for. -/
def Fits (res : List Resource) : Prop :=
  (res.filterMap irqOf).length + (res.filterMap pioOf).length ≤ sysHwcreatMaxSegments ∧
    (res.filterMap memOf).length ≤ sysHwcreatMaxSegments

instance : DecidablePred Fits := fun _ ↦ inferInstanceAs (Decidable (_ ∧ _))

/-- The walk for interrupts, from the empty tables. -/
theorem walk_irq_zero (res : List Resource) : acpiWalkResources acpiPerResourceIrq res .zero =
    if (res.filterMap irqOf).length ≤ sysHwcreatMaxSegments then
      .ok (filledIrq (res.filterMap irqOf))
    else .error ⟨sysHwcreatMaxSegments⟩ := by
  have h := walk_irq res (show HwcreatCfg.zero.npiosegs = 0 from rfl) (Nat.zero_le _)
  rw [show HwcreatCfg.zero.nirqsegs = 0 from rfl, Nat.zero_add] at h
  exact h

/-- The walk for ports, after the one for interrupts. -/
theorem walk_pio_filledIrq (res : List Resource) {is : List Seg}
    (h : is.length ≤ sysHwcreatMaxSegments) :
    acpiWalkResources acpiPerResourcePio res (filledIrq is) =
      if is.length + (res.filterMap pioOf).length ≤ sysHwcreatMaxSegments then
        .ok (filledPio is (res.filterMap pioOf))
      else .error ⟨sysHwcreatMaxSegments⟩ := by
  have hcount : (filledIrq is).nirqsegs + (filledIrq is).npiosegs = is.length := by
    rw [← length_irqs, irqs_filledIrq, npiosegs_filledIrq, Nat.add_zero]
  have hwalk := walk_pio res (hcount.le.trans h)
  rw [hcount] at hwalk
  exact hwalk

/-- The walk for memory, after the other two. -/
theorem walk_mem_filledPio (res : List Resource) (is ps : List Seg) :
    acpiWalkResources acpiPerResourceMem res (filledPio is ps) =
      if (res.filterMap memOf).length ≤ sysHwcreatMaxSegments then
        .ok (filled is ps (res.filterMap memOf))
      else .error ⟨sysHwcreatMaxSegments⟩ := by
  have hroom : (filledPio is ps).nmemsegs ≤ sysHwcreatMaxSegments :=
    (nmemsegs_filledPio is ps).le.trans (Nat.zero_le _)
  have hwalk := walk_mem res hroom
  rw [nmemsegs_filledPio, Nat.zero_add] at hwalk
  exact hwalk

/-- The walks one after the other. -/
theorem acpiPerDevice_eq (res : List Resource) : acpiPerDevice res =
    if Fits res then
      .ok (filled (res.filterMap irqOf) (res.filterMap pioOf) (res.filterMap memOf))
    else .error ⟨sysHwcreatMaxSegments⟩ := by
  rw [acpiPerDevice, walk_irq_zero]
  by_cases hirq : (res.filterMap irqOf).length ≤ sysHwcreatMaxSegments
  · rw [if_pos hirq]
    change (acpiWalkResources acpiPerResourcePio res (filledIrq _) >>= _) = _
    rw [walk_pio_filledIrq res hirq]
    by_cases hsegs : (res.filterMap irqOf).length + (res.filterMap pioOf).length ≤
        sysHwcreatMaxSegments
    · rw [if_pos hsegs]
      change acpiWalkResources acpiPerResourceMem res (filledPio _ _) = _
      rw [walk_mem_filledPio]
      exact if_congr ⟨fun hmem ↦ ⟨hsegs, hmem⟩, fun h ↦ h.2⟩ rfl rfl
    · rw [if_neg hsegs, if_neg fun h ↦ hsegs h.1]
      rfl
  · rw [if_neg hirq, if_neg fun h ↦ hirq (Nat.le_of_add_right_le h.1)]
    rfl

/-- Tables that hold all of what fits. -/
theorem collected_filled (h : Fits res) : Collected res
    (.ok (filled (res.filterMap irqOf) (res.filterMap pioOf) (res.filterMap memOf))) := by
  obtain ⟨hsegs, hmem⟩ := h
  have hirqs := irqs_filled (res.filterMap irqOf) (res.filterMap pioOf) (res.filterMap memOf)
  have hpios := pios_filled (res.filterMap irqOf) (res.filterMap pioOf) (res.filterMap memOf)
  have hmems := mems_filled (res.filterMap irqOf) (res.filterMap pioOf) (res.filterMap memOf)
  have hnirq := (length_irqs _).symm.trans (congrArg List.length hirqs)
  have hnpio := (length_pios _).symm.trans (congrArg List.length hpios)
  have hnmem := (length_mems _).symm.trans (congrArg List.length hmems)
  refine ⟨_, rfl, ?_, hnmem.le.trans hmem, ?_, ?_, ?_⟩
  · rw [hnirq, hnpio]
    exact hsegs
  · exact hirqs.trans (List.take_of_length_le (Nat.le_of_add_right_le hsegs)).symm
  · refine hpios.trans (List.take_of_length_le ?_).symm
    rw [hnirq]
    omega
  · exact hmems.trans (List.take_of_length_le hmem).symm

/-- The walks stay in bounds and collect the resources of a device if and only if its interrupts and
ports are no more than twenty-four and its ranges of memory are no more than twenty-four. -/
theorem resources_collected_iff (res : List Resource) :
    Collected res (acpiPerDevice res) ↔ Fits res := by
  rw [acpiPerDevice_eq]
  constructor
  · intro hcollected
    by_contra hnot
    rw [if_neg hnot] at hcollected
    obtain ⟨cfg, hok, -⟩ := hcollected
    cases hok
  · intro hfits
    rw [if_pos hfits]
    exact collected_filled hfits

/-- The twenty-fifth interrupt of a device is written past the end. -/
theorem resources_overrun : acpiPerDevice (List.replicate 25 (.irq 1 5)) = .error ⟨24⟩ ∧
    ¬ Collected (List.replicate 25 (.irq 1 5)) (acpiPerDevice (List.replicate 25 (.irq 1 5))) := by
  have hnot : ¬ Fits (List.replicate 25 (.irq 1 5)) := fun h ↦ absurd h.1 (by decide)
  have herr : acpiPerDevice (List.replicate 25 (.irq 1 5)) = .error ⟨24⟩ := by
    rw [acpiPerDevice_eq, if_neg hnot]
    rfl
  refine ⟨herr, ?_⟩
  rintro ⟨cfg, hok, -⟩
  rw [herr] at hok
  cases hok

end Mh.Acpi
