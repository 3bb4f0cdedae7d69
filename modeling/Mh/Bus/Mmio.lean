import Mh.Bus.Calls
import Mh.Vm.Spec

/-!
# The ports of a hardware device

`sys_hwcreat` declares the ports of a device as segments, and `_hwdev_in` and `_hwdev_out` look for
the port of an access in them.  They look for its first byte only, and the end of a segment is a
16-bit word: the empty segment at port 0 ends at 65535, so it has every port.
-/

namespace Mh.Bus

/-! ## Configurations -/

/-- `struct sys_hwcreat_cfg`, with the segments that it counts as lists of their bases and
lengths. -/
structure HwcreatCfg where
  vendorid : BitVec 64
  deviceids : List (BitVec 64)
  irqsegs : List (BitVec 16 × BitVec 16)
  piosegs : List (BitVec 16 × BitVec 16)
  memsegs : List (BitVec 64 × BitVec 32)
deriving DecidableEq, Repr

/-- A segment that `hwdev_creat` has copied. -/
def Seg.of {m n : Nat} (g : BitVec m × BitVec n) : Seg := ⟨g.1.toNat, g.2.toNat⟩

/-- The configuration that `hwdev_creat` fills in. -/
def HwcreatCfg.cfg (c : HwcreatCfg) : HwdevCfg where
  vid := c.vendorid.toNat
  did := c.deviceids.map (·.toNat)
  irqsegs := c.irqsegs.map .of
  piosegs := c.piosegs.map .of
  memsegs := c.memsegs.map .of

variable {s : State} {g : Seg} {cfg : HwdevCfg} {c : HwcreatCfg} {d port hw n : Nat}

/-- A device that `sys_hwcreat` has made has the configuration that it has been given. -/
theorem sysHwcreat_cfg {t nameid mode : Nat} (h : (s.sysHwcreat t nameid cfg mode).1 = 0) :
    ((s.sysHwcreat t nameid cfg mode).2.hw s.ndev).cfg = cfg := by
  rw [State.sysHwcreat] at h ⊢
  split at h
  · cases h
  next h₁ =>
  split at h
  · cases h
  next h₂ =>
  split at h
  · cases h
  next h₃ =>
  rw [if_neg h₁, if_neg h₂, if_neg h₃]
  rw [State.hwcreat] at h ⊢
  split at h
  · cases h
  · next s' hs' =>
    have hset : (s'.setHw s.ndev ⟨cfg, fun _ ↦ .zero⟩).hw s.ndev = ⟨cfg, fun _ ↦ .zero⟩ :=
      Function.update_self ..
    exact congrArg Hwdev.cfg hset

/-! ## What an access touches -/

/-- The number is one of the segment. -/
def Seg.Contains (g : Seg) (n : Nat) : Prop := g.base ≤ n ∧ n < g.base + g.len

/-- The port is declared. -/
def HwdevCfg.Declares (cfg : HwdevCfg) (n : Nat) : Prop := ∃ g ∈ cfg.piosegs, g.Contains n

/-- The byte ports of an access. -/
def accessPorts (port : Nat) : List Nat := List.range' (ioPort port) (2 ^ ioSize port)

/-- The byte ports that `_hwdev_in` or `_hwdev_out` has touched: it returns 0 just where it has
performed the access. -/
def touched (port : Nat) : Except Panic Res → List Nat
  | .ok r => if r.ret = some 0 then accessPorts port else []
  | .error _ => []

/-- All the byte ports that the call has touched are declared. -/
def Confined (cfg : HwdevCfg) (port : Nat) (r : Except Panic Res) : Prop :=
  ∀ n ∈ touched port r, cfg.Declares n

/-- The port is let through. -/
def HwdevCfg.Admits (cfg : HwdevCfg) (port : Nat) : Prop :=
  (cfg.piosegs.any fun g ↦ g.has (ioPort port)) = true ∧ ioSize port < 3

instance (cfg : HwdevCfg) (port : Nat) : Decidable (cfg.Admits port) :=
  inferInstanceAs (Decidable (_ ∧ _))

/-- A port that is let through is declared if there is an empty segment at port 0, and its access
does not go on from a byte that is declared to one that is not. -/
def HwdevCfg.Fits (cfg : HwdevCfg) (port : Nat) : Prop :=
  cfg.Admits port → (⟨0, 0⟩ ∈ cfg.piosegs → cfg.Declares (ioPort port)) ∧
    ∀ n, ioPort port ≤ n → n + 1 < ioPort port + 2 ^ ioSize port →
      cfg.Declares n → cfg.Declares (n + 1)

/-- The ports that a segment lets through: its own, or all. -/
theorem Seg.contains_or_eq {r : BitVec 16 × BitVec 16} (h : (Seg.of r).has n = true) :
    (Seg.of r).Contains n ∨ Seg.of r = ⟨0, 0⟩ := by
  have hb := r.1.isLt
  have hl := r.2.isLt
  rw [Seg.has, Bool.and_eq_true, decide_eq_true_eq, decide_eq_true_eq] at h
  simp only [Seg.Contains, Seg.of, Seg.mk.injEq] at h ⊢
  omega

/-- A port that is let through is declared, unless by the empty segment at port 0. -/
theorem HwcreatCfg.declares_or_mem (h : c.cfg.Admits port) :
    c.cfg.Declares (ioPort port) ∨ ⟨0, 0⟩ ∈ c.cfg.piosegs := by
  obtain ⟨g, hg, hhas⟩ := List.any_eq_true.1 h.1
  obtain ⟨r, -, rfl⟩ := List.mem_map.1 hg
  obtain hcontains | heq := Seg.contains_or_eq hhas
  · exact .inl ⟨_, hg, hcontains⟩
  · exact .inr (heq ▸ hg)

theorem mem_accessPorts : n ∈ accessPorts port ↔
    ioPort port ≤ n ∧ n < ioPort port + 2 ^ ioSize port := by
  rw [accessPorts, List.mem_range'_1]

/-- The bytes of an access that is let through are declared just where it fits. -/
theorem HwcreatCfg.forall_declares_iff (h : c.cfg.Admits port) :
    (∀ n ∈ accessPorts port, c.cfg.Declares n) ↔ c.cfg.Fits port := by
  have hsize : 0 < 2 ^ ioSize port := Nat.two_pow_pos _
  constructor
  · intro hall _
    refine ⟨fun _ ↦ hall _ (mem_accessPorts.2 (by omega)), fun n hn hlt _ ↦ ?_⟩
    exact hall (n + 1) (mem_accessPorts.2 (by omega))
  · intro hfits n hn
    obtain ⟨hempty, hnext⟩ := hfits h
    obtain ⟨hle, hlt⟩ := mem_accessPorts.1 hn
    obtain ⟨i, rfl⟩ := Nat.exists_eq_add_of_le hle
    -- from each byte to the next
    clear hn hle
    induction i with
    | zero =>
        obtain hd | hmem := c.declares_or_mem h
        · exact hd
        · exact hempty hmem
    | succ i ih => exact hnext _ (Nat.le_add_right _ _) hlt (ih (Nat.lt_of_succ_lt hlt))

/-- `_hwdev_in` performs the accesses that are let through. -/
theorem touched_hwdevIn (s : State) (d port hw : Nat) :
    touched port (s.hwdevIn d port hw) =
      if (s.hw d).cfg.Admits port then accessPorts port else [] := by
  by_cases ha : (s.hw d).cfg.Admits port
  · rw [if_pos ha, State.hwdevIn, ha.1, platformIn, if_pos ha.2]
    rfl
  · rw [if_neg ha, State.hwdevIn]
    cases hany : (s.hw d).cfg.piosegs.any fun g ↦ g.has (ioPort port) with
    | false => rfl
    | true =>
        rw [platformIn, if_neg fun hsize ↦ ha ⟨hany, hsize⟩]
        rfl

/-- So does `_hwdev_out`. -/
theorem touched_hwdevOut (s : State) (d port : Nat) :
    touched port (s.hwdevOut d port) =
      if (s.hw d).cfg.Admits port then accessPorts port else [] := by
  by_cases ha : (s.hw d).cfg.Admits port
  · rw [if_pos ha, State.hwdevOut, ha.1, if_pos ha.2]
    rfl
  · rw [if_neg ha, State.hwdevOut]
    cases hany : (s.hw d).cfg.piosegs.any fun g ↦ g.has (ioPort port) with
    | false => rfl
    | true =>
        rw [if_neg fun hsize ↦ ha ⟨hany, hsize⟩]
        rfl

/-- An operation that performs the accesses that are let through is confined just for those that
fit. -/
theorem HwcreatCfg.confined_iff {r : Except Panic Res}
    (h : touched port r = if c.cfg.Admits port then accessPorts port else []) :
    Confined c.cfg port r ↔ c.cfg.Fits port := by
  rw [Confined, h]
  by_cases ha : c.cfg.Admits port
  · rw [if_pos ha]
    exact c.forall_declares_iff ha
  · rw [if_neg ha]
    exact iff_of_true (fun n hn ↦ absurd hn List.not_mem_nil) fun h ↦ absurd h ha

/-- The accesses of a device stay in the ports that it has been made with just where they fit. -/
theorem hwdev_ports_confined_iff (c : HwcreatCfg) (s : State) (d : Nat)
    (hcfg : (s.hw d).cfg = c.cfg) (port hw : Nat) :
    (Confined c.cfg port (s.hwdevIn d port hw) ↔ c.cfg.Fits port) ∧
      (Confined c.cfg port (s.hwdevOut d port) ↔ c.cfg.Fits port) := by
  constructor
  · apply HwcreatCfg.confined_iff
    rw [touched_hwdevIn, hcfg]
  · apply HwcreatCfg.confined_iff
    rw [touched_hwdevOut, hcfg]

/-- A configuration that declares the 8 ports from 0x3f8 on. -/
def uart : HwcreatCfg := ⟨0, [], [], [(0x3f8, 8)], []⟩

/-- The device 3 that the thread 1 makes of the configuration `c`. -/
def made (c : HwcreatCfg) : Int × State := (State.boot 1 2 3).sysHwcreat 1 9 c.cfg 0

theorem hwdev_ports_confined_uart :
    Confined uart.cfg (0x3fe * 4 + 1) ((made uart).2.hwdevIn 3 (0x3fe * 4 + 1) 0) := by
  have hcfg : ((made uart).2.hw 3).cfg = uart.cfg := sysHwcreat_cfg rfl
  refine ((hwdev_ports_confined_iff uart _ 3 hcfg (0x3fe * 4 + 1) 0).1).2 fun _ ↦ ⟨?_, ?_⟩
  · exact fun h ↦ absurd h (by decide)
  · intro n hle hlt _
    have hle' : 0x3fe ≤ n := hle
    have hlt' : n + 1 < 0x400 := hlt
    exact ⟨⟨0x3f8, 8⟩, List.mem_cons_self, Nat.le_trans (by decide) (Nat.le_succ_of_le hle'), hlt'⟩

/-- A configuration with an empty segment. -/
def emptySeg : HwcreatCfg := ⟨0, [], [], [(0, 0)], []⟩

/-- An access of 4 bytes at the last of the 8 ports goes on behind them; and a device with an empty
segment at port 0 reaches port 0x60. -/
theorem hwdev_ports_unconfined :
    ((made uart).1 = 0 ∧
      ¬ Confined uart.cfg (0x3ff * 4 + 2) ((made uart).2.hwdevIn 3 (0x3ff * 4 + 2) 0)) ∧
    (made emptySeg).1 = 0 ∧
      ¬ Confined emptySeg.cfg (0x60 * 4) ((made emptySeg).2.hwdevOut 3 (0x60 * 4)) := by
  refine ⟨⟨rfl, fun h ↦ ?_⟩, rfl, fun h ↦ ?_⟩
  · obtain ⟨g, hg, hle, hlt⟩ := h 0x400 (by decide)
    obtain rfl := List.mem_singleton.1 hg
    exact absurd hlt (by decide)
  · obtain ⟨g, hg, hle, hlt⟩ := h 0x60 (by decide)
    obtain rfl := List.mem_singleton.1 hg
    exact absurd hlt (by decide)

end Mh.Bus

/-!
## The memory of a hardware device

`sys_hwcreat` declares the memory of a device as segments, and `_hwdev_iomap` maps the page of an
address that it finds in the pages of one.  It takes the end of the pages for one of their
addresses, so the page behind them is let through, as is one page of an empty segment; and the
number of the page that it maps is cut down to 32 bits.
-/

namespace Mh.Bus

open Mh.Lib

/-! ## Mapping a page -/

/-- `_hwdev_iomap` of a device with the configuration `cfg`, by the thread `cur`, as far as the page
tables are concerned; the record of the mapping is that of `State.hwdevIomap`. -/
def hwdevMap (cfg : HwdevCfg) (vm : Vm.Sys) (cur va mmioaddr : Nat) (prot : Vm.Prot) :
    Except Vm.Panic (Int × Vm.Sys) :=
  if !cfg.memsegs.any fun g ↦ g.hasPage mmioaddr then .ok (Errno.EPERM.neg, vm)
  else if va % pageSize ≠ mmioaddr % pageSize then .ok (Errno.EINVAL.neg, vm)
  else if vm.pfndbMax < mmiopfn mmioaddr then .ok (Errno.EINVAL.neg, vm)
  else do
    let (ret, vm) ← Vm.iomap vm cur va (mmiopfn mmioaddr) prot
    return (if ret < 0 then ret else 0, vm)

/-- What the page tables and the page database say about the page of a mapping. -/
def pageOf (vm : Vm.Sys) (cur va mmioaddr : Nat) : Page where
  valid := mmiopfn mmioaddr ≤ vm.pfndbMax
  mmio := (vm.db (mmiopfn mmioaddr)).type = .mmio
  wired := Vm.l1eWired (vm.l1 cur (vpn va))

variable {s : State} {k : Slot} {g : Seg} {cfg : HwdevCfg} {c : HwcreatCfg} {vm vm' : Vm.Sys}
  {cur d id va mmioaddr pfn : Nat} {prot : Vm.Prot} {ret : Int}

/-- An entry that `pmap_uiomap` finds busy is one of another's. -/
theorem external_of_busy {opfn : Option Nat}
    (h : Vm.pmapUiomap vm cur va pfn prot = .ok (Errno.EBUSY.neg, opfn, vm')) :
    Vm.l1eExternal (vm.l1 cur (vpn va)) = true := by
  simp only [Vm.pmapUiomap, bind_eq_ok] at h
  obtain ⟨-, -, -, -, h⟩ := h
  split at h
  · assumption
  · obtain ⟨r, _, h'⟩ := bind_eq_ok.1 h
    cases h'

/-- What is freed with the old entry is not a page for I/O. -/
theorem freed_type_mmio {opfn : Option Nat} {o : Vm.L1e} (h : Vm.dropL1e vm o = .ok (opfn, vm'))
    (hty : (vm'.db pfn).type = .mmio) : ((vm'.freed opfn).db pfn).type = .mmio := by
  obtain ⟨-, rfl, -⟩ | ⟨-, huser, hvm, hopfn⟩ := Vm.dropL1e_ok h
  · exact hty
  · cases opfn with
    | none => exact hty
    | some q =>
        have hq : q = o.pfn := by
          split at hopfn
          · exact Option.some.inj hopfn
          · cases hopfn
        have hne : pfn ≠ q := by
          rintro rfl
          rw [(Vm.dropL1e_db h pfn).type, hq, huser] at hty
          cases hty
        exact (congrArg Vm.Ipfn.type (Vm.Sys.setDb_db_of_ne vm' hne _)).trans hty

/-- What `iomap` has done where it returns. -/
theorem iomap_spec (h : Vm.iomap vm cur va pfn prot = .ok (ret, vm')) :
    ((vm.db pfn).type ≠ .mmio ∧ ret = Errno.EINVAL.neg) ∨
    ((vm.db pfn).type = .mmio ∧ Vm.l1eExternal (vm.l1 cur (vpn va)) = true ∧
      ret = Errno.EBUSY.neg) ∨
    ((vm.db pfn).type = .mmio ∧ Vm.l1eExternal (vm.l1 cur (vpn va)) = false ∧ 0 ≤ ret ∧
      vm'.l1 cur (vpn va) = Vm.l1eMkiomap (Vm.mkl1e pfn prot) ∧ (vm'.db pfn).type = .mmio) := by
  simp only [Vm.iomap, bind_eq_ok] at h
  obtain ⟨t, ht, h⟩ := h
  obtain ⟨-, rfl⟩ := Vm.pfndbType_ok ht
  split at h
  · next hty =>
    cases h
    exact .inl ⟨by simpa using hty, rfl⟩
  next hty =>
  have hty : (vm.db pfn).type = .mmio := by simpa using hty
  rw [bind_eq_ok] at h
  obtain ⟨⟨r, opfn, vm₁⟩, h₁, h₂⟩ := h
  obtain ⟨-, ⟨rfl, rfl, rfl⟩ | ⟨hx, rfl, hd⟩⟩ := Vm.pmapUiomap_ok h₁
  · have hneg : Errno.EBUSY.neg < 0 := Errno.neg_lt_zero .EBUSY
    rw [if_pos hneg] at h₂
    cases h₂
    exact .inr (.inl ⟨hty, external_of_busy h₁, rfl⟩)
  · rw [if_neg (Int.lt_irrefl 0)] at h₂
    obtain ⟨rfl, hret⟩ := Vm.freeOld_ok h₂
    have htype : (vm₁.db pfn).type = .mmio := by
      rw [(Vm.dropL1e_db hd pfn).type]
      exact hty
    refine .inr (.inr ⟨hty, hx, hret, ?_, ?_⟩)
    · rw [Vm.Sys.l1_freed, Vm.pmapCommit_snd, Vm.Sys.l1_setFlush, Vm.dropL1e_l1 hd]
      exact Vm.Sys.l1_setL1e_self ..
    · rw [Vm.pmapCommit_snd, Vm.Sys.setFlush_freed, Vm.Sys.setFlush_db]
      exact freed_type_mmio hd htype

/-- The driver of the bus returns what `hwdevMap` does, where it knows of the same mappings as the
page tables do. -/
theorem hwdevIomap_ret (hio : (s.io (k.1, vpn va)).isSome = Vm.l1eIomap (vm.l1 k.1 (vpn va)))
    (h : hwdevMap (s.hw d).cfg vm k.1 va mmioaddr prot = .ok (ret, vm')) :
    ∃ r, s.hwdevIomap k d id va mmioaddr (pageOf vm k.1 va mmioaddr) = .ok r ∧
      r.ret = some ret := by
  rw [hwdevMap] at h
  rw [State.hwdevIomap]
  split at h
  · next hseg =>
    cases h
    rw [if_pos hseg]
    exact ⟨_, rfl, rfl⟩
  next hseg =>
  rw [if_neg hseg]
  split at h
  · next hoff =>
    cases h
    rw [if_pos hoff]
    exact ⟨_, rfl, rfl⟩
  next hoff =>
  rw [if_neg hoff]
  split at h
  · next hmax =>
    cases h
    have hinv : (!(pageOf vm k.1 va mmioaddr).valid) = true := by
      simpa [pageOf] using hmax
    rw [if_pos hinv]
    exact ⟨_, rfl, rfl⟩
  next hmax =>
  have hvalid : ¬ (!(pageOf vm k.1 va mmioaddr).valid) = true := by
    simpa [pageOf] using hmax
  rw [if_neg hvalid]
  obtain ⟨⟨r, vm₁⟩, hmap, hret⟩ := bind_eq_ok.1 h
  have hmmio : (pageOf vm k.1 va mmioaddr).mmio = true ↔
      (vm.db (mmiopfn mmioaddr)).type = .mmio := decide_eq_true_iff
  have hbusy : ((pageOf vm k.1 va mmioaddr).wired || (s.io (k.1, vpn va)).isSome) =
      Vm.l1eExternal (vm.l1 k.1 (vpn va)) := by rw [hio]; rfl
  rw [State.iomap, hbusy]
  obtain ⟨hty, rfl⟩ | ⟨hty, hx, rfl⟩ | ⟨hty, hx, hr, -⟩ := iomap_spec hmap
  · have hnot : (!(pageOf vm k.1 va mmioaddr).mmio) = true := by
      rw [Bool.not_eq_true', ← Bool.not_eq_true, hmmio]
      exact hty
    rw [if_pos hnot]
    cases hret
    exact ⟨_, rfl, rfl⟩
  · rw [hmmio.2 hty, hx]
    cases hret
    exact ⟨_, rfl, rfl⟩
  · rw [hmmio.2 hty, hx]
    have hzero : (if r < 0 then r else 0) = ret := congrArg Prod.fst (Except.ok.inj hret)
    rw [if_neg (Int.not_lt.2 hr)] at hzero
    subst hzero
    exact ⟨_, rfl, rfl⟩

/-! ## The segments -/

/-- The page has an address of the segment. -/
def Seg.Meets (g : Seg) (pfn : Nat) : Prop := ∃ a, g.Contains a ∧ a / pageSize = pfn

/-- `end` of `_hwdev_iomap`: the end of the pages of a segment. -/
def Seg.pageEnd (g : Seg) : Nat := truncPage ((g.base + g.len + (pageSize - 1)) % 2 ^ 64)

/-- The test passes for the page that is mapped, with a segment that is not empty and does not end
before that page. -/
def HwdevCfg.FitsPage (cfg : HwdevCfg) (mmioaddr : Nat) : Prop :=
  ∃ g ∈ cfg.memsegs, g.len ≠ 0 ∧ g.hasPage (mmiopfn mmioaddr * pageSize) = true ∧
    mmiopfn mmioaddr * pageSize ≠ g.pageEnd

theorem Seg.hasPage_iff {pa : Nat} :
    g.hasPage pa = true ↔ truncPage g.base ≤ pa ∧ pa ≤ g.pageEnd := by
  rw [Seg.hasPage, Bool.and_eq_true, decide_eq_true_eq, decide_eq_true_eq]
  rfl

/-- The pages of a segment of the types of `sys_hwcreat`. -/
theorem Seg.meets_iff {r : BitVec 64 × BitVec 32} (hpfn : pfn < 2 ^ 32) :
    (Seg.of r).Meets pfn ↔ (Seg.of r).len ≠ 0 ∧ (Seg.of r).hasPage (pfn * pageSize) = true ∧
      pfn * pageSize ≠ (Seg.of r).pageEnd := by
  have hb := r.1.isLt
  have hl := r.2.isLt
  simp only [Seg.Meets, Seg.Contains, Seg.hasPage_iff, Seg.pageEnd, truncPage, pageSize, pageShift,
    Seg.of]
  constructor
  · rintro ⟨a, ⟨hle, hlt⟩, rfl⟩
    refine ⟨?_, ⟨?_, ?_⟩, ?_⟩ <;> omega
  · rintro ⟨hlen, ⟨hle, hlt⟩, hne⟩
    refine ⟨max r.1.toNat (pfn * 2 ^ 21), ⟨?_, ?_⟩, ?_⟩ <;> omega

/-- What `_hwdev_iomap` maps where it succeeds is memory for I/O, at the page of `va`; it has memory
of the device just where the address fits. -/
theorem hwdev_mmio_confined_iff (c : HwcreatCfg) (vm vm' : Vm.Sys) (cur va mmioaddr : Nat)
    (prot : Vm.Prot) (h : hwdevMap c.cfg vm cur va mmioaddr prot = .ok (0, vm')) :
    vm'.l1 cur (vpn va) = Vm.l1eMkiomap (Vm.mkl1e (mmiopfn mmioaddr) prot) ∧
    (vm'.db (mmiopfn mmioaddr)).type = .mmio ∧
    ((∃ g ∈ c.cfg.memsegs, g.Meets (mmiopfn mmioaddr)) ↔ c.cfg.FitsPage mmioaddr) := by
  have hpfn : mmiopfn mmioaddr < 2 ^ 32 := Nat.mod_lt _ (by decide)
  rw [hwdevMap] at h
  split at h
  · cases h
  split at h
  · cases h
  split at h
  · cases h
  obtain ⟨⟨r, vm₁⟩, hmap, hret⟩ := bind_eq_ok.1 h
  obtain rfl : vm₁ = vm' := congrArg Prod.snd (Except.ok.inj hret)
  refine (and_assoc.1 ⟨?_, ?_⟩)
  · obtain ⟨-, rfl⟩ | ⟨-, -, rfl⟩ | ⟨-, -, -, hl1, hdb⟩ := iomap_spec hmap
    · cases hret
    · cases hret
    · exact ⟨hl1, hdb⟩
  · apply exists_congr
    intro g
    apply and_congr_right
    intro hg
    obtain ⟨r, -, rfl⟩ := List.mem_map.1 hg
    exact Seg.meets_iff hpfn

/-- A configuration with the memory of page 2032. -/
def frameBuf : HwcreatCfg := ⟨0, [], [], [], [(0xfe000000, 0x200000)]⟩

/-- The thread 1 has mapped nothing, and all the pages from 1024 to 2048 are memory for I/O. -/
def emptyVm : Vm.Sys where
  pfndbMax := 2048
  db pfn := ⟨if 1024 ≤ pfn then .mmio else .system, 0, 0⟩
  mem _ _ := 0
  pmap _ := ⟨fun _ ↦ .zero, .null⟩
  live := {1}
  zombie := ∅
  init := 1
  nextpid := 2

theorem hwdev_mmio_confined_page : ∃ vm',
    hwdevMap frameBuf.cfg emptyVm 1 0x400000 0xfe000000 Vm.protUserWr = .ok (0, vm') ∧
      ∃ g ∈ frameBuf.cfg.memsegs, g.Meets 2032 := by
  have h : hwdevMap frameBuf.cfg emptyVm 1 0x400000 0xfe000000 Vm.protUserWr = .ok (0, _) := rfl
  refine ⟨_, h, (hwdev_mmio_confined_iff frameBuf _ _ _ _ _ _ h).2.2.2 ?_⟩
  exact ⟨_, List.mem_cons_self, by decide, by decide, by decide⟩

/-- The page behind that of the device is mapped, too. -/
theorem hwdev_mmio_unconfined : (made frameBuf).1 = 0 ∧ ∃ vm',
    hwdevMap frameBuf.cfg emptyVm 1 0x400000 0xfe200000 Vm.protUserWr = .ok (0, vm') ∧
      ¬ ∃ g ∈ frameBuf.cfg.memsegs, g.Meets (mmiopfn 0xfe200000) := by
  refine ⟨rfl, _, rfl, ?_⟩
  rintro ⟨g, hg, hmeets⟩
  obtain rfl := List.mem_singleton.1 hg
  have hpfn : mmiopfn 0xfe200000 < 2 ^ 32 := by decide
  exact absurd ((Seg.meets_iff hpfn).1 hmeets).2.2 (by decide)

end Mh.Bus
