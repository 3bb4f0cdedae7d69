import Mh.Acpi.Sizing

/-!
# The segments of a PCI device

What the two loops take a BAR for, when no access fails.  A register that holds zero is passed over
and one that does not is taken for a BAR of its own, so memory at zero with a flag set is declared,
and of a memory address of 64 bits only the lower half is.  The segments have room for the lower 16
bits of a port.
-/

namespace Mh.Acpi

/-! ## Bits -/

section Bits

variable {b m f k v : BitVec 32}

theorem setWidth_clear (v k : BitVec 32) :
    v.setWidth 64 &&& ~~~k.setWidth 64 = (v &&& ~~~k).setWidth 64 := by
  ext i hi
  simp only [BitVec.getElem_and, BitVec.getElem_not, BitVec.getElem_setWidth, BitVec.getLsbD_and,
    BitVec.getLsbD_not]
  by_cases h : i < 32
  · simp [h]
  · simp [BitVec.getLsbD_of_ge v i (by omega)]

/-- The length of a segment is its lower half. -/
theorem setWidth_signExtend (v : BitVec 32) : (v.signExtend 64).setWidth 32 = v := by
  ext i hi
  rw [BitVec.getElem_setWidth, BitVec.getLsbD_signExtend]
  simp [hi, Nat.lt_of_lt_of_le hi (show 32 ≤ 64 by decide)]

/-- An address has no bits where its mask has none. -/
theorem and_eq_zero_of_mask (hm : m &&& k = 0) (hb : b &&& m = b) : b &&& k = 0 := by
  rw [← hb, BitVec.and_assoc, hm]
  exact BitVec.and_zero

/-- The address without the flags. -/
theorem clear_flags (hb : b &&& k = 0) (hf : f &&& k = f) : (b ||| f) &&& ~~~k = b := by
  ext i hi
  have hbi := congrArg (fun x : BitVec 32 ↦ x[i]) hb
  have hfi := congrArg (fun x : BitVec 32 ↦ x[i]) hf
  simp only [BitVec.getElem_and] at hbi hfi
  simp only [BitVec.getElem_and, BitVec.getElem_or, BitVec.getElem_not]
  revert hbi hfi
  cases b[i] <;> cases f[i] <;> cases k[i] <;> simp

/-- The ones that a register keeps. -/
theorem clear_ones (hm : m &&& k = 0) (hb : b &&& m = b) (hf : f &&& k = f) :
    (b ||| f ||| m) &&& ~~~k = m := by
  have hbm : b ||| f ||| m = m ||| f := by
    ext i hi
    have hbi := congrArg (fun x : BitVec 32 ↦ x[i]) hb
    simp only [BitVec.getElem_and] at hbi
    simp only [BitVec.getElem_or]
    revert hbi
    cases b[i] <;> cases f[i] <;> cases m[i] <;> simp
  rw [hbm, clear_flags hm hf]

end Bits

/-- The lowest bit of the ones that an address keeps. -/
theorem ffs_shiftLeft {k : Nat} (hk : k < 32) : ffs (BitVec.allOnes 32 <<< k) = k + 1 := by
  have hfind : ((List.range 32).find? fun i ↦ (BitVec.allOnes 32 <<< k).getLsbD i) = some k := by
    rw [List.find?_range_eq_some]
    refine ⟨?_, List.mem_range.2 hk, fun j hj ↦ ?_⟩
    · rw [BitVec.getLsbD_shiftLeft, BitVec.getLsbD_allOnes]
      simp [hk]
    · rw [BitVec.getLsbD_shiftLeft]
      simp [hj]
  rw [ffs, hfind]
  rfl

/-! ## Ranges -/

namespace Range

variable {w lo : Nat} (r : Range w lo)

theorem getLsbD_base {i : Nat} (h : i < r.shift) : r.base.getLsbD i = false := by
  obtain ⟨n, hn⟩ := r.aligned
  rw [BitVec.getLsbD, hn, Nat.testBit_two_pow_mul]
  simp [h]

theorem base_and_mask : r.base &&& r.mask = r.base := by
  refine BitVec.eq_of_getLsbD_eq fun i hi ↦ ?_
  rw [mask, BitVec.getLsbD_and, BitVec.getLsbD_shiftLeft, BitVec.getLsbD_allOnes]
  by_cases h : i < r.shift
  · rw [r.getLsbD_base h, Bool.false_and]
  · have hlt : i - r.shift < w := by omega
    simp [hi, h, hlt]

/-- The flags are below the address. -/
theorem mask_and {c : BitVec w} (h : c.toNat < 2 ^ lo) : r.mask &&& c = 0#w := by
  refine BitVec.eq_of_getLsbD_eq fun i hi ↦ ?_
  rw [mask, BitVec.getLsbD_and, BitVec.getLsbD_shiftLeft, BitVec.getLsbD_zero]
  by_cases hlt : i < r.shift
  · simp [hlt]
  · have hc : c.getLsbD i = false :=
      Nat.testBit_lt_two_pow (h.trans_le (Nat.pow_le_pow_right (by decide)
        (r.le_shift.trans (Nat.le_of_not_lt hlt))))
    rw [hc, Bool.and_false]

/-- A range that does not start at zero is not larger than where it starts. -/
theorem two_pow_le (h : r.base ≠ 0) : 2 ^ r.shift ≤ r.base.toNat := by
  refine Nat.le_of_dvd (Nat.pos_of_ne_zero fun h0 ↦ h ?_) r.aligned
  exact BitVec.eq_of_toNat_eq h0

theorem shift_lt_of_lt {n : Nat} (h : r.base ≠ 0) (hn : r.base.toNat < 2 ^ n) : r.shift < n :=
  (Nat.pow_lt_pow_iff_right (by decide)).1 ((r.two_pow_le h).trans_lt hn)

end Range

/-! ## What the loops find -/

namespace Register

/-- The ports that a register is taken for. -/
def ports (r : Register) : Option Seg :=
  (sizeBar isPio (fun _ ↦ .done) r).1.bind fun p ↦ pioSeg p.1 p.2

/-- The memory that a register is taken for. -/
def memory (r : Register) : Option Memseg :=
  (sizeBar isMem (fun _ ↦ .done) r).1.bind fun p ↦ memSeg p.1 p.2

variable {r : Register} {b m f : BitVec 32}

theorem ports_of_even (h : r.val.getLsbD 0 = false) : r.ports = none := by
  have hnot : ¬ Wanted isPio r := fun hw ↦ by
    have hodd := hw.2
    rw [isPio_setWidth, h] at hodd
    cases hodd
  rw [ports, sizeBar_done, if_neg hnot]
  rfl

theorem memory_of_odd (h : r.val.getLsbD 0 = true) : r.memory = none := by
  have hnot : ¬ Wanted isMem r := fun hw ↦ by
    have heven := hw.2
    rw [isMem_setWidth, h] at heven
    cases heven
  rw [memory, sizeBar_done, if_neg hnot]
  rfl

theorem memory_of_zero (h : r.val = 0) : r.memory = none := by
  rw [memory, sizeBar_done, if_neg fun hw ↦ hw.1 h]
  rfl

/-- A register with ports. -/
theorem ports_mk (hm : m &&& 3 = 0) (hb : b &&& m = b) (hne : m ≠ 0) :
    ports ⟨b ||| 1, m⟩ =
      if b = 0 then none else some ⟨b.setWidth 16, (1#32 <<< (ffs m - 1)).setWidth 16⟩ := by
  have hb3 : b &&& 3 = 0 := and_eq_zero_of_mask hm hb
  have hodd : (b ||| 1).getLsbD 0 = true := by
    rw [BitVec.getLsbD_or]
    exact Bool.or_true _
  have hwant : Wanted isPio ⟨b ||| 1, m⟩ := by
    refine ⟨fun h0 ↦ ?_, (isPio_setWidth _).trans hodd⟩
    dsimp only at h0
    rw [h0] at hodd
    cases hodd
  have hsize : (b ||| 1 ||| m).setWidth 64 &&& ~~~0x3 = m.setWidth 64 :=
    (setWidth_clear (b ||| 1 ||| m) 3).trans (congrArg _ (clear_ones hm hb rfl))
  have hbase : (b ||| 1).setWidth 64 &&& ~~~0x3 = b.setWidth 64 :=
    (setWidth_clear (b ||| 1) 3).trans (congrArg _ (clear_flags hb3 rfl))
  rw [ports, sizeBar_done, if_pos hwant]
  change pioSeg ((b ||| 1).setWidth 64) ((b ||| 1 ||| m).setWidth 64) = _
  rw [pioSeg, hsize, hbase]
  dsimp only
  rw [if_neg (mt setWidth_eq_zero.1 hne), setWidth_setWidth, setWidth_setWidth]

/-- A register with memory, or with the lower half of its address. -/
theorem memory_mk (hm : m &&& 15 = 0) (hb : b &&& m = b) (hf : f &&& 15 = f)
    (heven : f.getLsbD 0 = false) :
    memory ⟨b ||| f, m⟩ = if b ||| f = 0 ∨ m = 0 then none
      else some ⟨b.setWidth 64, 1#32 <<< (ffs m - 1)⟩ := by
  have hb15 : b &&& 15 = 0 := and_eq_zero_of_mask hm hb
  have hbit : (b ||| f).getLsbD 0 = false := by
    have hbit := congrArg (fun x : BitVec 32 ↦ x.getLsbD 0) hb15
    rw [BitVec.getLsbD_and] at hbit
    rw [BitVec.getLsbD_or, heven, Bool.or_false]
    exact (Bool.and_true _).symm.trans hbit
  by_cases h0 : b ||| f = 0
  · rw [if_pos (Or.inl h0), memory_of_zero h0]
  · have hwant : Wanted isMem ⟨b ||| f, m⟩ := by
      refine ⟨h0, (isMem_setWidth _).trans ?_⟩
      rw [hbit]
      rfl
    have hsize : (b ||| f ||| m).setWidth 64 &&& ~~~0xf = m.setWidth 64 :=
      (setWidth_clear (b ||| f ||| m) 15).trans (congrArg _ (clear_ones hm hb hf))
    have hbase : (b ||| f).setWidth 64 &&& ~~~0xf = b.setWidth 64 :=
      (setWidth_clear (b ||| f) 15).trans (congrArg _ (clear_flags hb15 hf))
    rw [memory, sizeBar_done, if_pos hwant]
    change memSeg ((b ||| f).setWidth 64) ((b ||| f ||| m).setWidth 64) = _
    rw [memSeg, hsize, hbase]
    dsimp only
    rw [setWidth_setWidth, setWidth_signExtend]
    exact if_congr (setWidth_eq_zero.trans (or_iff_right h0).symm) rfl rfl

/-- No segment of memory starts beyond 32 bits. -/
theorem base_lt_of_memory {seg : Memseg} (h : r.memory = some seg) :
    seg.base.toNat < 2 ^ 32 := by
  rw [memory, sizeBar_done] at h
  split at h
  · change memSeg (r.val.setWidth 64) ((r.val ||| r.mask).setWidth 64) = _ at h
    rw [memSeg] at h
    dsimp only at h
    split at h
    · cases h
    · cases h
      refine (Nat.and_le_left).trans_lt ?_
      rw [BitVec.toNat_setWidth]
      exact (Nat.mod_le _ _).trans_lt r.val.isLt
  · cases h

end Register

/-! ## What they find of a BAR -/

namespace Bar

theorem prefetch_and (p : Bool) : prefetch p &&& 15 = prefetch p := by
  cases p <;> rfl

theorem getLsbD_prefetch (p : Bool) : (prefetch p).getLsbD 0 = false := by
  cases p <;> rfl

/-- The segments that a BAR is declared as are what it decodes: ports that 16 bits can name, and
memory that 32 bits can, which is not at zero unless there is nothing to see of it. -/
def Plain : Bar → Prop
  | unimplemented => True
  | io r => r.base.toNat < 2 ^ 16
  | mem32 p r => p = true → r.base ≠ 0
  | mem64 _ r => r.base.toNat < 2 ^ 32 ∧ (r.base = 0 → 32 ≤ r.shift)

/-- The ports that a BAR is taken for. -/
def foundPorts (b : Bar) : List Seg := b.registers.filterMap Register.ports

/-- The memory that a BAR is taken for. -/
def foundMemory (b : Bar) : List Memseg := b.registers.filterMap Register.memory

/-- A segment, as numbers. -/
def ofSeg (seg : Seg) : Nat × Nat := (seg.base.toNat, seg.len.toNat)

def ofMemseg (seg : Memseg) : Nat × Nat := (seg.base.toNat, seg.len.toNat)

/-- The length of a range, when it can be told. -/
theorem ffs_mask {lo : Nat} (r : Range 32 lo) : ffs r.mask - 1 = r.shift := by
  rw [Range.mask, ffs_shiftLeft r.shift_lt, Nat.add_sub_cancel]

theorem shiftLeft_allOnes_ne_zero {k : Nat} (hk : k < 32) : BitVec.allOnes 32 <<< k ≠ 0 := by
  intro h
  have hffs := ffs_shiftLeft hk
  rw [h] at hffs
  exact absurd hffs.symm (Nat.succ_ne_zero k)

theorem toNat_one_shiftLeft {k : Nat} (hk : k < 32) : (1#32 <<< k).toNat = 2 ^ k := by
  rw [BitVec.toNat_shiftLeft, BitVec.toNat_ofNat, Nat.one_mod, Nat.one_shiftLeft]
  exact Nat.mod_eq_of_lt (Nat.pow_lt_pow_right (by decide) hk)

/-- A port register. -/
theorem foundPorts_io (r : Range 32 2) : (io r).foundPorts =
    if r.base = 0 then [] else [⟨r.base.setWidth 16, (1#32 <<< r.shift).setWidth 16⟩] := by
  have hports := Register.ports_mk (r.mask_and (c := 3) (by decide)) r.base_and_mask
    (shiftLeft_allOnes_ne_zero r.shift_lt)
  rw [ffs_mask] at hports
  rw [foundPorts, registers]
  by_cases h0 : r.base = 0
  · rw [if_pos h0] at hports ⊢
    exact List.filterMap_cons_none hports
  · rw [if_neg h0] at hports ⊢
    exact List.filterMap_cons_some hports

/-- A register of memory below 4 GB. -/
theorem foundMemory_mem32 (p : Bool) (r : Range 32 4) : (mem32 p r).foundMemory =
    if r.base ||| prefetch p = 0 then [] else [⟨r.base.setWidth 64, 1#32 <<< r.shift⟩] := by
  have hmask : r.mask ≠ 0 := shiftLeft_allOnes_ne_zero r.shift_lt
  have hmemory := Register.memory_mk (r.mask_and (c := 15) (by decide)) r.base_and_mask
    (prefetch_and p) (getLsbD_prefetch p)
  rw [ffs_mask] at hmemory
  rw [foundMemory, registers]
  by_cases h0 : r.base ||| prefetch p = 0
  · rw [if_pos (Or.inl h0)] at hmemory
    rw [if_pos h0]
    exact List.filterMap_cons_none hmemory
  · rw [if_neg fun h ↦ h.elim h0 hmask] at hmemory
    rw [if_neg h0]
    exact List.filterMap_cons_some hmemory

/-- The lower register of an address of 64 bits. -/
theorem memory_lower (p : Bool) (r : Range 64 4) :
    Register.memory ⟨r.base.setWidth 32 ||| (4 ||| prefetch p), r.mask.setWidth 32⟩ =
      if 32 ≤ r.shift then none
      else some ⟨(r.base.setWidth 32).setWidth 64, 1#32 <<< r.shift⟩ := by
  have hmask : r.mask.setWidth 32 = BitVec.allOnes 32 <<< r.shift := by
    rw [Range.mask, BitVec.setWidth_shiftLeft_of_le (by decide)]
    rfl
  have hlow := congrArg (BitVec.setWidth 32) (r.mask_and (c := 15) (by decide))
  have hbase := congrArg (BitVec.setWidth 32) r.base_and_mask
  rw [BitVec.setWidth_and] at hlow hbase
  have hflags : (4 ||| prefetch p) &&& 15 = 4 ||| prefetch p := by cases p <;> rfl
  have heven : (4 ||| prefetch p).getLsbD 0 = false := by cases p <;> rfl
  have hne : r.base.setWidth 32 ||| (4 ||| prefetch p) ≠ 0 := by
    intro h
    have hbit := congrArg (fun x : BitVec 32 ↦ x.getLsbD 2) h
    rw [BitVec.getLsbD_or] at hbit
    have hset : (4 ||| prefetch p).getLsbD 2 = true := by cases p <;> rfl
    rw [hset, Bool.or_true] at hbit
    cases hbit
  rw [Register.memory_mk hlow hbase hflags heven, hmask]
  by_cases hs : 32 ≤ r.shift
  · rw [if_pos hs]
    exact if_pos (Or.inr (BitVec.shiftLeft_eq_zero hs))
  · have hlt := Nat.lt_of_not_le hs
    rw [if_neg hs, if_neg fun h ↦ h.elim hne (shiftLeft_allOnes_ne_zero hlt), ffs_shiftLeft hlt,
      Nat.add_sub_cancel]

/-- The upper register of an address below 4 GB. -/
theorem upper_eq_zero (r : Range 64 4) (h : r.base.toNat < 2 ^ 32) :
    (r.base >>> 32).setWidth 32 = 0#32 := by
  refine BitVec.eq_of_toNat_eq ?_
  rw [BitVec.toNat_setWidth, BitVec.toNat_ushiftRight, Nat.shiftRight_eq_div_pow,
    Nat.div_eq_of_lt h]
  rfl

theorem foundPorts_mem64 (p : Bool) (r : Range 64 4) (h : r.base.toNat < 2 ^ 32) :
    (mem64 p r).foundPorts = [] := by
  have hlow : (r.base.setWidth 32 ||| (4 ||| prefetch p)).getLsbD 0 = false := by
    have hbase : r.base.getLsbD 0 = false :=
      r.getLsbD_base (Nat.lt_of_lt_of_le (by decide) r.le_shift)
    rw [BitVec.getLsbD_or, BitVec.getLsbD_setWidth, hbase]
    cases p <;> rfl
  rw [foundPorts, registers, List.filterMap_cons_none (Register.ports_of_even hlow),
    upper_eq_zero r h]
  exact List.filterMap_cons_none (Register.ports_of_even BitVec.getLsbD_zero)

theorem foundMemory_mem64 (p : Bool) (r : Range 64 4) (h : r.base.toNat < 2 ^ 32) :
    (mem64 p r).foundMemory =
      if 32 ≤ r.shift then [] else [⟨r.base, 1#32 <<< r.shift⟩] := by
  have hback : (r.base.setWidth 32).setWidth 64 = r.base := by
    refine BitVec.eq_of_toNat_eq ?_
    rw [BitVec.toNat_setWidth, BitVec.toNat_setWidth, Nat.mod_eq_of_lt h,
      Nat.mod_eq_of_lt r.base.isLt]
  have hlow := memory_lower p r
  rw [hback] at hlow
  have hupper : List.filterMap Register.memory
      [⟨(r.base >>> 32).setWidth 32, (r.mask >>> 32).setWidth 32⟩] = [] := by
    rw [upper_eq_zero r h]
    exact List.filterMap_cons_none (Register.memory_of_zero rfl)
  rw [foundMemory, registers]
  by_cases hs : 32 ≤ r.shift
  · rw [if_pos hs] at hlow ⊢
    rw [List.filterMap_cons_none hlow, hupper]
  · rw [if_neg hs] at hlow ⊢
    rw [List.filterMap_cons_some hlow, hupper]

theorem foundPorts_mem32 (p : Bool) (r : Range 32 4) : (mem32 p r).foundPorts = [] := by
  refine List.filterMap_cons_none (Register.ports_of_even ?_)
  rw [BitVec.getLsbD_or, getLsbD_prefetch,
    r.getLsbD_base (Nat.lt_of_lt_of_le (by decide) r.le_shift)]
  rfl

theorem foundMemory_io (r : Range 32 2) : (io r).foundMemory = [] := by
  refine List.filterMap_cons_none (Register.memory_of_odd ?_)
  rw [BitVec.getLsbD_or]
  exact Bool.or_true _

/-- A plain BAR is declared as what it decodes. -/
theorem found_of_plain {b : Bar} (h : b.Plain) :
    b.foundPorts.map ofSeg = b.ports ∧ b.foundMemory.map ofMemseg = b.memory := by
  cases b with
  | unimplemented => exact ⟨rfl, rfl⟩
  | io r =>
    refine ⟨?_, by rw [foundMemory_io]; rfl⟩
    rw [foundPorts_io, ports, Range.decoded]
    by_cases h0 : r.base = 0
    · rw [if_pos h0, if_pos h0]
      rfl
    · have hs := r.shift_lt_of_lt h0 h
      have hbase : (r.base.setWidth 16).toNat = r.base.toNat := by
        rw [BitVec.toNat_setWidth]
        exact Nat.mod_eq_of_lt h
      have hlen : ((1#32 <<< r.shift).setWidth 16).toNat = 2 ^ r.shift := by
        rw [BitVec.toNat_setWidth, toNat_one_shiftLeft r.shift_lt]
        exact Nat.mod_eq_of_lt (Nat.pow_lt_pow_right (by decide) hs)
      rw [if_neg h0, if_neg h0, List.map_singleton, ofSeg, hbase, hlen]
  | mem32 p r =>
    refine ⟨by rw [foundPorts_mem32]; rfl, ?_⟩
    rw [foundMemory_mem32, memory, Range.decoded]
    by_cases h0 : r.base = 0
    · have hp : p = false := by
        cases p with
        | false => rfl
        | true => exact absurd h0 (h rfl)
      rw [if_pos h0, h0, hp]
      rfl
    · have hne : r.base ||| prefetch p ≠ 0 := fun hor ↦ h0 (BitVec.or_eq_zero_iff.1 hor).1
      rw [if_neg h0, if_neg hne, List.map_singleton, ofMemseg, toNat_one_shiftLeft r.shift_lt,
        BitVec.toNat_setWidth_of_le (by decide)]
  | mem64 p r =>
    obtain ⟨hlt, hzero⟩ := h
    refine ⟨by rw [foundPorts_mem64 p r hlt]; rfl, ?_⟩
    rw [foundMemory_mem64 p r hlt, memory, Range.decoded]
    by_cases h0 : r.base = 0
    · rw [if_pos h0, if_pos (hzero h0)]
      rfl
    · have hs := r.shift_lt_of_lt h0 hlt
      rw [if_neg h0, if_neg (Nat.not_le.2 hs), List.map_singleton, ofMemseg,
        toNat_one_shiftLeft hs]

/-! ## What it takes to be found right -/

theorem base_of_mem_decoded {w lo : Nat} {r : Range w lo} {x : Nat × Nat} (h : x ∈ r.decoded) :
    x.1 ≠ 0 := by
  rw [Range.decoded] at h
  by_cases h0 : r.base = 0
  · rw [if_pos h0] at h
    cases h
  · rw [if_neg h0] at h
    rw [List.mem_singleton.1 h]
    exact fun heq ↦ h0 (BitVec.eq_of_toNat_eq heq)

theorem base_of_mem_memory {b : Bar} {x : Nat × Nat} (h : x ∈ b.memory) : x.1 ≠ 0 := by
  cases b with
  | unimplemented => cases h
  | io r => cases h
  | mem32 p r => exact base_of_mem_decoded h
  | mem64 p r => exact base_of_mem_decoded h

theorem lt_of_mem_foundPorts {b : Bar} {x : Nat × Nat} (h : x ∈ b.foundPorts.map ofSeg) :
    x.1 < 2 ^ 16 := by
  obtain ⟨seg, -, rfl⟩ := List.mem_map.1 h
  exact seg.base.isLt

theorem lt_of_mem_foundMemory {b : Bar} {x : Nat × Nat} (h : x ∈ b.foundMemory.map ofMemseg) :
    x.1 < 2 ^ 32 := by
  obtain ⟨seg, hseg, rfl⟩ := List.mem_map.1 h
  obtain ⟨r, -, hr⟩ := List.mem_filterMap.1 hseg
  exact Register.base_lt_of_memory hr

/-- A BAR that is not plain decodes something that no BAR is declared as, or is declared as
something that no BAR decodes. -/
theorem exists_of_not_plain {b : Bar} (h : ¬ b.Plain) :
    (∃ x ∈ b.ports, 2 ^ 16 ≤ x.1) ∨ (∃ x ∈ b.memory, 2 ^ 32 ≤ x.1) ∨
      ∃ x ∈ b.foundMemory.map ofMemseg, x.1 = 0 := by
  cases b with
  | unimplemented => exact absurd trivial h
  | io r =>
    have hle : 2 ^ 16 ≤ r.base.toNat := Nat.le_of_not_lt h
    have h0 : r.base ≠ 0 := fun h0 ↦ by
      rw [h0] at hle
      exact absurd hle (by decide)
    refine Or.inl ⟨(r.base.toNat, 2 ^ r.shift), ?_, hle⟩
    rw [ports, Range.decoded, if_neg h0]
    exact List.mem_singleton_self _
  | mem32 p r =>
    obtain ⟨rfl, h0⟩ := Classical.not_imp.1 h
    rw [not_not] at h0
    refine Or.inr (Or.inr ⟨(0, 2 ^ r.shift), ?_, rfl⟩)
    rw [foundMemory_mem32, h0, if_neg (by decide), List.map_singleton, ofMemseg,
      toNat_one_shiftLeft r.shift_lt]
    exact List.mem_singleton_self _
  | mem64 p r =>
    by_cases hlt : r.base.toNat < 2 ^ 32
    · obtain ⟨h0, hs⟩ := Classical.not_imp.1 fun hzero ↦ h ⟨hlt, hzero⟩
      refine Or.inr (Or.inr ⟨(0, 2 ^ r.shift), ?_, rfl⟩)
      rw [foundMemory_mem64 p r hlt, if_neg hs, List.map_singleton, ofMemseg,
        toNat_one_shiftLeft (Nat.lt_of_not_le hs), h0]
      exact List.mem_singleton_self _
    · have hle := Nat.le_of_not_lt hlt
      have h0 : r.base ≠ 0 := fun h0 ↦ by
        rw [h0] at hle
        exact absurd hle (by decide)
      refine Or.inr (Or.inl ⟨(r.base.toNat, 2 ^ r.shift), ?_, hle⟩)
      rw [memory, Range.decoded, if_neg h0]
      exact List.mem_singleton_self _

/-- The BARs are declared as what they decode if and only if each of them is plain. -/
theorem found_iff (bars : List Bar) :
    (bars.flatMap foundPorts).map ofSeg = bars.flatMap ports ∧
      (bars.flatMap foundMemory).map ofMemseg = bars.flatMap memory ↔ ∀ b ∈ bars, b.Plain := by
  rw [List.map_flatMap, List.map_flatMap]
  constructor
  · rintro ⟨hports, hmemory⟩ b hb
    by_contra hnot
    rcases exists_of_not_plain hnot with ⟨x, hx, hle⟩ | ⟨x, hx, hle⟩ | ⟨x, hx, h0⟩
    · have hmem : x ∈ bars.flatMap ports := List.mem_flatMap.2 ⟨b, hb, hx⟩
      rw [← hports] at hmem
      obtain ⟨c, -, hc⟩ := List.mem_flatMap.1 hmem
      exact absurd hle (Nat.not_le.2 (lt_of_mem_foundPorts hc))
    · have hmem : x ∈ bars.flatMap memory := List.mem_flatMap.2 ⟨b, hb, hx⟩
      rw [← hmemory] at hmem
      obtain ⟨c, -, hc⟩ := List.mem_flatMap.1 hmem
      exact absurd hle (Nat.not_le.2 (lt_of_mem_foundMemory hc))
    · have hmem : x ∈ bars.flatMap memory := by
        rw [← hmemory]
        exact List.mem_flatMap.2 ⟨b, hb, hx⟩
      obtain ⟨c, -, hc⟩ := List.mem_flatMap.1 hmem
      exact base_of_mem_memory hc h0
  · intro hplain
    exact ⟨List.flatMap_congr fun b hb ↦ (found_of_plain (hplain b hb)).1,
      List.flatMap_congr fun b hb ↦ (found_of_plain (hplain b hb)).2⟩

end Bar

end Mh.Acpi
