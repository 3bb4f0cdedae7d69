import Mh.Acpi.Bars

/-!
# Sizing a base address

A BAR goes through one of the two loops at most, by its lowest bit.  There it is spoiled if the ones
have been written and the accesses after that do not get as far as writing it back.
-/

namespace Mh.Acpi

/-! ## Registers -/

namespace Register

variable (r : Register)

theorem write_val : r.write r.val = r := by
  rw [write]
  congr 1
  ext i hi
  simp only [BitVec.getElem_or, BitVec.getElem_and, BitVec.getElem_not]
  cases r.mask[i] <;> simp

/-- A register that gets its contents back is as it was. -/
theorem write_write_val (v : BitVec 32) : (r.write v).write r.val = r := by
  rw [write, write]
  congr 1
  ext i hi
  simp only [BitVec.getElem_or, BitVec.getElem_and, BitVec.getElem_not]
  cases r.mask[i] <;> simp

/-- A register that is written ones. -/
def ones : Register := r.write (BitVec.allOnes 32)

theorem val_ones : r.ones.val = r.val ||| r.mask := by
  rw [ones, write]
  ext i hi
  simp only [BitVec.getElem_or, BitVec.getElem_and, BitVec.getElem_not, BitVec.getElem_allOnes]
  cases r.mask[i] <;> simp

end Register

variable {r : Register} {wanted : BitVec 64 → Bool} {out : Access → Outcome}

/-- The contents of a register are looked at in this loop. -/
def Wanted (wanted : BitVec 64 → Bool) (r : Register) : Prop :=
  r.val ≠ 0 ∧ wanted (r.val.setWidth 64) = true

/-- The ones get into the register, and then its contents do not get back. -/
def Spoils (out : Access → Outcome) : Prop :=
  out .probe = .done ∧ out .ones = .done ∧ (out .size = .refused ∨ out .restore ≠ .done)

instance : DecidablePred (Wanted wanted) := fun _ ↦ inferInstanceAs (Decidable (_ ∧ _))

instance : DecidablePred Spoils := fun _ ↦ inferInstanceAs (Decidable (_ ∧ _))

theorem setWidth_eq_zero {v : BitVec 32} : v.setWidth 64 = 0 ↔ v = 0 := by
  constructor
  · intro h
    have h' := congrArg (BitVec.setWidth 32) h
    simpa using h'
  · rintro rfl
    rfl

/-- A loop that does not look at a register leaves it alone. -/
theorem sizeBar_of_not_wanted (h : ¬ Wanted wanted r) : sizeBar wanted out r = (none, r) := by
  rw [sizeBar]
  cases out .probe with
  | refused => rfl
  | lost => rfl
  | done =>
    refine if_pos ?_
    rw [setWidth_eq_zero]
    by_contra hnot
    rw [not_or, Bool.not_eq_false] at hnot
    exact h hnot

/-- The sizing of a register that is looked at. -/
theorem sizeBar_of_wanted (h : Wanted wanted r) (hp : out .probe = .done) :
    sizeBar wanted out r =
      match acpiOsWritePciConfiguration (out .ones) r (-1) with
      | none => (none, r)
      | some r₁ => match acpiOsReadPciConfiguration (out .size) r₁ 0 with
        | none => (none, r₁)
        | some size =>
          match acpiOsWritePciConfiguration (out .restore) r₁ (r.val.setWidth 64) with
          | none => (none, r₁)
          | some r₂ => (some (r.val.setWidth 64, size), r₂) := by
  rw [sizeBar, hp]
  refine if_neg ?_
  rw [setWidth_eq_zero, not_or, Bool.not_eq_false]
  exact h

/-- A register comes back as it was read. -/
theorem setWidth_setWidth (v : BitVec 32) : (v.setWidth 64).setWidth 32 = v := by simp

/-- What a loop leaves in a register. -/
theorem sizeBar_snd : (sizeBar wanted out r).2 =
    if Wanted wanted r ∧ Spoils out then r.ones else r := by
  by_cases hw : Wanted wanted r
  · by_cases hp : out .probe = .done
    · rw [sizeBar_of_wanted hw hp]
      cases ho : out .ones with
      | refused => exact (if_neg fun h ↦ by simp [Spoils, ho] at h).symm
      | lost =>
        rw [if_neg fun h ↦ by simp [Spoils, ho] at h]
        cases out .size <;> cases out .restore <;>
          simp only [acpiOsWritePciConfiguration, acpiOsReadPciConfiguration,
            setWidth_setWidth, Register.write_val]
      | done =>
        have hones : r.write ((-1 : BitVec 64).setWidth 32) = r.ones := rfl
        have hback : r.ones.write r.val = r := r.write_write_val _
        cases hs : out .size <;> cases hr : out .restore <;>
          simp only [acpiOsWritePciConfiguration, acpiOsReadPciConfiguration, hones,
            setWidth_setWidth, hback, Spoils, hw, hp, ho, hs, hr, ne_eq, reduceCtorEq,
            not_true_eq_false, not_false_eq_true, or_self, or_true, true_or, and_self, and_false,
            if_true, if_false]
    · rw [if_neg fun h ↦ hp h.2.1, sizeBar]
      cases ho : out .probe with
      | refused => rfl
      | lost => rfl
      | done => exact absurd ho hp
  · rw [if_neg fun h ↦ hw h.1, sizeBar_of_not_wanted hw]

/-- With no failure a loop leaves the register, and finds what it decodes. -/
theorem sizeBar_done : sizeBar wanted (fun _ ↦ .done) r =
    (if Wanted wanted r then some (r.val.setWidth 64, (r.val ||| r.mask).setWidth 64) else none,
      r) := by
  by_cases hw : Wanted wanted r
  · rw [if_pos hw, sizeBar_of_wanted hw rfl, ← r.val_ones]
    change (some (r.val.setWidth 64, r.ones.val.setWidth 64),
      r.ones.write ((r.val.setWidth 64).setWidth 32)) = _
    rw [setWidth_setWidth, Register.ones, r.write_write_val]
  · rw [if_neg hw, sizeBar_of_not_wanted hw]

/-! ## The loops -/

namespace Scan

section Loop

variable {α : Type} (wanted : BitVec 64 → Bool) (seg : BitVec 64 → BitVec 64 → Option α)
  (push : HwcreatCfg → α → HwcreatCfg) (out : Nat → Access → Outcome) (s : Scan)

/-- The loop over the BARs. -/
def scanBars (n : Nat) : Scan := (List.range n).foldl (scanBar wanted seg push out) s

theorem scanBars_succ (n : Nat) : s.scanBars wanted seg push out (n + 1) =
    scanBar wanted seg push out (s.scanBars wanted seg push out n) n := by
  rw [scanBars, List.range_succ, List.foldl_append]
  rfl

theorem pciBarReg_injective : Function.Injective pciBarReg := by
  intro i j h
  rw [pciBarReg, pciBarReg] at h
  omega

/-- A loop does with each BAR what it does with that BAR alone. -/
theorem config_scanBars (n i : Nat) :
    (s.scanBars wanted seg push out n).config (pciBarReg i) =
      if i < n then (sizeBar wanted (out i) (s.config (pciBarReg i))).2
      else s.config (pciBarReg i) := by
  induction n with
  | zero => rfl
  | succ n ih =>
    rw [scanBars_succ, scanBar]
    dsimp only
    by_cases hi : i = n
    · subst hi
      rw [Function.update_self, if_pos (Nat.lt_succ_self i), ih, if_neg (Nat.lt_irrefl i)]
    · rw [Function.update_of_ne fun h ↦ hi (pciBarReg_injective h), ih]
      exact if_congr (by omega) rfl rfl

/-- The segment that a loop finds at BAR `i`. -/
def found (i : Nat) : Option α :=
  (sizeBar wanted (out i) (s.config (pciBarReg i))).1.bind fun p ↦ seg p.1 p.2

/-- A loop adds the segments that it finds, one after the other. -/
theorem cfg_scanBars (n : Nat) : (s.scanBars wanted seg push out n).cfg =
    ((List.range n).filterMap (s.found wanted seg out)).foldl push s.cfg := by
  induction n with
  | zero => rfl
  | succ n ih =>
    have hfound : (s.scanBars wanted seg push out n).found wanted seg out n =
        s.found wanted seg out n := by
      rw [found, config_scanBars, if_neg (Nat.lt_irrefl n)]
      rfl
    rw [scanBars_succ, List.range_succ, List.filterMap_append, List.foldl_append, ← ih]
    change ((found wanted seg out _ n).map _).getD _ = _
    rw [hfound]
    cases hf : s.found wanted seg out n with
    | none =>
      rw [List.filterMap_cons_none hf]
      rfl
    | some a =>
      rw [List.filterMap_cons_some hf]
      rfl

end Loop

theorem config_addPio (s : Scan) (lo hi : BitVec 32) : (s.addPio lo hi).config = s.config := by
  rw [addPio]
  split <;> rfl

theorem config_addMem (s : Scan) (lo hi : BitVec 64) : (s.addMem lo hi).config = s.config := by
  rw [addMem]
  split <;> rfl

theorem config_bridgePio (s : Scan) (out : Site → Outcome) :
    (s.bridgePio out).config = s.config :=
  config_addPio _ _ _

theorem config_bridgeMem (s : Scan) (out : Site → Outcome) :
    (s.bridgeMem out).config = s.config :=
  config_addMem _ _ _

theorem config_bridgePmem (s : Scan) (out : Site → Outcome) :
    (s.bridgePmem out).config = s.config :=
  config_addMem _ _ _

theorem config_ite {c : Prop} [Decidable c] {f : Scan → Scan}
    (hf : ∀ s, (f s).config = s.config) (s : Scan) : (if c then f s else s).config = s.config := by
  split
  · exact hf s
  · rfl

end Scan

/-! ## Restoring -/

theorem isPio_setWidth (v : BitVec 32) : isPio (v.setWidth 64) = v.getLsbD 0 := by
  rw [isPio, show (1 : BitVec 64) = 1#64 from rfl, BitVec.and_one_eq_setWidth_ofBool_getLsbD,
    BitVec.getLsbD_setWidth]
  cases v.getLsbD 0 <;> rfl

theorem isMem_setWidth (v : BitVec 32) : isMem (v.setWidth 64) = !v.getLsbD 0 := by
  rw [isMem, show (1 : BitVec 64) = 1#64 from rfl, BitVec.and_one_eq_setWidth_ofBool_getLsbD,
    BitVec.getLsbD_setWidth]
  cases v.getLsbD 0 <;> rfl

/-- A register is spoiled in the loop that it is looked at in. -/
def Spoiled (out : Site → Outcome) (i : Nat) (r : Register) : Prop :=
  Wanted isPio r ∧ Spoils (fun a ↦ out (.pio i a)) ∨
    Wanted isMem r ∧ Spoils (fun a ↦ out (.mem i a))

/-- What both loops leave in a register: one that is spoiled in the first is passed over in the
second, for it keeps its lowest bit. -/
theorem snd_sizeBar_sizeBar (out : Site → Outcome) (i : Nat) (r : Register) :
    (sizeBar isMem (fun a ↦ out (.mem i a))
      (sizeBar isPio (fun a ↦ out (.pio i a)) r).2).2.val = r.val ↔
      (Spoiled out i r → r.val ||| r.mask = r.val) := by
  rw [sizeBar_snd, sizeBar_snd, ← r.val_ones]
  by_cases hpio : Wanted isPio r ∧ Spoils fun a ↦ out (.pio i a)
  · have hskip : ¬ Wanted isMem r.ones := by
      intro hmem
      have hodd := hpio.1.2
      rw [isPio_setWidth] at hodd
      have heven := hmem.2
      rw [isMem_setWidth, r.val_ones, BitVec.getLsbD_or, hodd] at heven
      cases heven
    rw [if_pos hpio, if_neg fun h ↦ hskip h.1]
    exact ⟨fun h _ ↦ h, fun h ↦ h (Or.inl hpio)⟩
  · rw [if_neg hpio]
    by_cases hmem : Wanted isMem r ∧ Spoils fun a ↦ out (.mem i a)
    · rw [if_pos hmem]
      exact ⟨fun h _ ↦ h, fun h ↦ h (Or.inr hmem)⟩
    · rw [if_neg hmem]
      exact ⟨fun _ h ↦ (h.elim hpio hmem).elim, fun _ ↦ rfl⟩

/-- The header type as it is read: if that fails, it is taken from what was read before. -/
def hdrtypeRead (dev : Device) (out : Site → Outcome) (reg : BitVec 64) : BitVec 64 :=
  pciHdrtype ((acpiOsReadPciConfiguration (out .hdrtype) (dev.config pciHdrtypeReg) reg).getD reg)

/-- What the function leaves in a BAR. -/
theorem config_scandevice (dev : Device) (out : Site → Outcome) (isVga : Bool) (irq : Option Seg)
    (reg : BitVec 64) (i : Nat) :
    (acpiPciScandevice out isVga (dev.start irq reg)).config (pciBarReg i) =
      if i < nbars (hdrtypeRead dev out reg) then
        (sizeBar isMem (fun a ↦ out (.mem i a))
          (sizeBar isPio (fun a ↦ out (.pio i a)) (dev.config (pciBarReg i))).2).2
      else dev.config (pciBarReg i) := by
  have hmem (n : Nat) (s : Scan) : (s.memBars out n).config (pciBarReg i) =
      if i < n then (sizeBar isMem (fun a ↦ out (.mem i a)) (s.config (pciBarReg i))).2
      else s.config (pciBarReg i) := Scan.config_scanBars _ _ _ _ s n i
  have hpio (n : Nat) (s : Scan) : (s.pioBars out n).config (pciBarReg i) =
      if i < n then (sizeBar isPio (fun a ↦ out (.pio i a)) (s.config (pciBarReg i))).2
      else s.config (pciBarReg i) := Scan.config_scanBars _ _ _ _ s n i
  rw [acpiPciScandevice,
    Scan.config_ite (f := fun s ↦ (s.bridgeMem out).bridgePmem out)
      fun s ↦ (Scan.config_bridgePmem _ out).trans (Scan.config_bridgeMem s out),
    Scan.config_ite (f := Scan.vgaMem) fun _ ↦ rfl, hmem,
    Scan.config_ite (f := fun s ↦ s.bridgePio out) fun s ↦ Scan.config_bridgePio s out,
    Scan.config_ite (f := Scan.vgaPio) fun _ ↦ rfl, hpio]
  change (if i < nbars (hdrtypeRead dev out reg) then _ else _) = _
  split
  · rw [if_pos ‹_›]
    rfl
  · rw [if_neg ‹_›]
    rfl

end Mh.Acpi
