import Mh.Bus.Platform

/-!
# Drivers that do not see the user devices

`s.swap u σ` is the state `s` with other user devices and other pending signals.  The
drivers of the other devices read neither and write neither, which is to say that they
commute with `swap`.
-/

namespace Mh.Bus

open Mh.Lib

/-- The state with other user devices and other pending signals. -/
def State.swap (s : State) (u : Nat → Usrdev) (σ : Nat → BitVec 32) : State :=
  { s with usr := u, softintrs := σ }

/-- What an operation gives, with other user devices and other pending signals. -/
def Res.swap (u : Nat → Usrdev) (σ : Nat → BitVec 32) (r : Res) : Res :=
  { r with state := r.state.swap u σ }

/-- What a call gives, with other user devices and other pending signals. -/
def swapSnd (u : Nat → Usrdev) (σ : Nat → BitVec 32) (r : Int × State) : Int × State :=
  (r.1, r.2.swap u σ)

section Blind

variable (s : State) (u : Nat → Usrdev) (σ : Nat → BitVec 32) (k : Slot) (d id t : Nat)

/-! ## Operations -/

theorem iomap_swap (va pfn : Nat) (pg : Page) :
    (s.swap u σ).iomap k va pfn pg = swapSnd u σ (s.iomap k va pfn pg) := by
  unfold State.iomap
  rw [apply_ite (swapSnd u σ), apply_ite (swapSnd u σ)]
  rfl

theorem hwdevOp_swap (q : Req) : (s.swap u σ).hwdevOp k d id q =
    (s.hwdevOp k d id q).map (Except.map (Res.swap u σ)) := by
  cases q with
  | inPort port hw =>
      refine congrArg some ?_
      unfold State.hwdevIn
      rw [apply_ite (Except.map (Res.swap u σ))]
      cases platformIn port hw <;> rfl
  | outPort port val =>
      refine congrArg some ?_
      unfold State.hwdevOut
      rw [apply_ite (Except.map (Res.swap u σ)), apply_ite (Except.map (Res.swap u σ))]
      rfl
  | exportVa va sz wire phys =>
      refine congrArg some ?_
      unfold State.hwdevExport
      dsimp only
      rw [apply_ite (Except.map (Res.swap u σ)), apply_ite (Except.map (Res.swap u σ))]
      cases phys <;> rfl
  | unexportVa va =>
      refine congrArg some ?_
      simp only [State.hwdevUnexport, State.swap]
      cases (((s.hw d).remths id).hwdmas).find? fun pd ↦ decide (pd.va = va) <;> rfl
  | iomap va mmioaddr pg =>
      refine congrArg some ?_
      unfold State.hwdevIomap
      rw [iomap_swap]
      dsimp only
      rw [apply_ite (Except.map (Res.swap u σ)), apply_ite (Except.map (Res.swap u σ)),
        apply_ite (Except.map (Res.swap u σ)), apply_ite (Except.map (Res.swap u σ))]
      rfl
  | iounmap va =>
      refine congrArg some ?_
      unfold State.hwdevIounmap
      dsimp only
      rw [apply_ite (Except.map (Res.swap u σ)), apply_ite (Except.map (Res.swap u σ))]
      rfl
  | irqmap irq sig =>
      refine congrArg some ?_
      unfold State.hwdevIrqmap State.irqregister
      rw [apply_ite (Except.map (Res.swap u σ))]
      by_cases h : irq < maxIrqs
      · rw [if_pos h, if_pos h]
        rfl
      · rw [if_neg h, if_neg h]
        rfl
  | eoi irq =>
      refine congrArg some ?_
      unfold State.hwdevEoi State.irqeoi
      rw [apply_ite (Except.map (Res.swap u σ))]
      by_cases h : irq < maxIrqs
      · rw [if_pos h, if_pos h]
        rfl
      · rw [if_neg h, if_neg h]
        rfl
  | rdcfg | wrcfg => rfl

theorem pltdevOp_swap (q : Req) : (s.swap u σ).pltdevOp k id q =
    (s.pltdevOp k id q).map (Except.map (Res.swap u σ)) := by
  cases q with
  | inPort port hw =>
      refine congrArg some ?_
      unfold State.pltdevIn
      cases platformIn port hw <;> rfl
  | outPort port val =>
      refine congrArg some ?_
      unfold State.pltdevOut
      rw [apply_ite (Except.map (Res.swap u σ))]
      rfl
  | exportVa va sz wire phys =>
      refine congrArg some ?_
      unfold State.pltdevExport
      cases phys <;> rfl
  | iomap va mmioaddr pg =>
      refine congrArg some ?_
      unfold State.pltdevIomap
      rw [iomap_swap]
      dsimp only
      rw [apply_ite (Except.map (Res.swap u σ)), apply_ite (Except.map (Res.swap u σ)),
        apply_ite (Except.map (Res.swap u σ))]
      rfl
  | iounmap va =>
      refine congrArg some ?_
      unfold State.pltdevIounmap
      dsimp only
      rw [apply_ite (Except.map (Res.swap u σ)), apply_ite (Except.map (Res.swap u σ))]
      rfl
  | irqmap irq sig =>
      refine congrArg some ?_
      unfold State.pltdevIrqmap State.irqregister
      by_cases h : irq < maxIrqs
      · rw [if_pos h, if_pos h]
        rfl
      · rw [if_neg h, if_neg h]
        rfl
  | rdcfg | wrcfg | unexportVa | eoi => rfl

theorem sysdevOp_swap (q : Req) : (s.swap u σ).sysdevOp k q =
    (s.sysdevOp k q).map (Except.map (Res.swap u σ)) := by
  cases q with
  | irqmap irq sig =>
      refine congrArg some ?_
      unfold State.sysdevIrqmap
      split <;> rfl
  | _ => rfl

theorem klogdevOp_swap (q : Req) : (s.swap u σ).klogdevOp q =
    (s.klogdevOp q).map (Except.map (Res.swap u σ)) := by
  cases q with
  | outPort port val =>
      refine congrArg some ?_
      unfold State.klogdevOut
      split <;> rfl
  | irqmap irq sig =>
      refine congrArg some ?_
      unfold State.klogdevIrqmap
      split <;> rfl
  | _ => rfl

/-- `d->ops->_op` of a device that is not a user device. -/
theorem op_swap (h : (s.dev d).kind ≠ .usr) (q : Req) : (s.swap u σ).op k d id q =
    (s.op k d id q).map (Except.map (Res.swap u σ)) := by
  have hdev : (s.swap u σ).dev = s.dev := rfl
  unfold State.op
  rw [hdev]
  cases hk : (s.dev d).kind with
  | usr => exact absurd hk h
  | hw => exact hwdevOp_swap ..
  | plt => exact pltdevOp_swap ..
  | sys => exact sysdevOp_swap ..
  | klog => exact klogdevOp_swap ..

/-! ## Opening and closing -/

/-- `d->ops->open` of a device that is not a user device. -/
theorem opOpen_swap (h : (s.dev d).kind ≠ .usr) :
    (s.swap u σ).opOpen t d = (s.opOpen t d).map (swapSnd u σ) := by
  have hdev : (s.swap u σ).dev = s.dev := rfl
  unfold State.opOpen
  rw [hdev]
  cases hk : (s.dev d).kind with
  | usr => exact absurd hk h
  | hw =>
      refine congrArg Except.ok ?_
      have hhw : (s.swap u σ).hw = s.hw := rfl
      unfold State.hwdevOpen
      rw [hhw]
      cases (s.hw d).freeRem <;> rfl
  | plt =>
      refine congrArg Except.ok ?_
      have hrems : (s.swap u σ).platformRems = s.platformRems := rfl
      unfold State.pltdevOpen
      rw [hrems]
      cases (List.range maxPltSigs).find? fun i ↦ !(s.platformRems i).inUse <;> rfl
  | sys => rfl
  | klog =>
      refine congrArg Except.ok ?_
      unfold State.klogdevOpen
      rw [apply_ite (swapSnd u σ)]
      rfl

/-- `d->ops->close` of a device that is not a user device. -/
theorem opClose_swap (h : (s.dev d).kind ≠ .usr) :
    (s.swap u σ).opClose t d id = (s.opClose t d id).map fun w ↦ w.swap u σ := by
  have hdev : (s.swap u σ).dev = s.dev := rfl
  unfold State.opClose
  rw [hdev]
  cases hk : (s.dev d).kind with
  | usr => exact absurd hk h
  | hw =>
      dsimp only [State.hwdevClose]
      rw [apply_ite (Except.map fun w : State ↦ w.swap u σ), foldl_iounmap,
        foldl_irqunregister, foldl_iounmap, foldl_irqunregister]
      rfl
  | plt =>
      dsimp only [State.pltdevClose]
      rw [apply_ite (Except.map fun w : State ↦ w.swap u σ), foldl_iounmap,
        foldl_irqunregister, foldl_iounmap, foldl_irqunregister]
      rfl
  | sys => rfl
  | klog =>
      dsimp only [State.klogdevClose]
      rw [apply_ite (Except.map fun w : State ↦ w.swap u σ)]
      rfl

/-! ## What they leave alone -/

/-- A value that `swap` does not change has the user devices and the signals of `s`. -/
theorem ends_usr {α : Type} {x : Except Panic α} {f : α → α} (st : α → State)
    (hx : x = x.map f) (hf : ∀ a, (st (f a)).usr = s.usr) :
    Ends (fun a ↦ (st a).usr = s.usr) Panic.Any x := by
  cases x with
  | error e => trivial
  | ok a =>
      have ha : a = f a := Except.ok.inj hx
      change (st a).usr = s.usr
      rw [ha]
      exact hf a

/-- An operation on another device leaves the user devices alone. -/
theorem op_usr {q : Req} {x : Except Panic Res} (h : (s.dev d).kind ≠ .usr)
    (hx : s.op k d id q = some x) : Ends (fun r ↦ r.state.usr = s.usr) Panic.Any x := by
  have hs := op_swap s s.usr s.softintrs k d id h q
  change s.op k d id q = _ at hs
  rw [hx] at hs
  exact ends_usr s (fun r : Res ↦ r.state) (Option.some.inj hs) fun _ ↦ rfl

/-- So does opening it. -/
theorem opOpen_usr (h : (s.dev d).kind ≠ .usr) :
    Ends (fun r ↦ r.2.usr = s.usr) Panic.Any (s.opOpen t d) :=
  ends_usr s (fun r : Int × State ↦ r.2) (opOpen_swap s s.usr s.softintrs d t h) fun _ ↦ rfl

/-- So does closing it. -/
theorem opClose_usr (h : (s.dev d).kind ≠ .usr) :
    Ends (fun w ↦ w.usr = s.usr) Panic.Any (s.opClose t d id) := by
  have hs := opClose_swap s s.usr s.softintrs d id t h
  change s.opClose t d id = _ at hs
  exact ends_usr s (fun w : State ↦ w) hs fun _ ↦ rfl

end Blind

end Mh.Bus
