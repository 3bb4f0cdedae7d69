import Mh.Signal.Model

/-!
# What the stub keeps

`Sym` describes a thread at an instruction of `__inthdlr`: what is on the signal stack, from the
stack pointer up to the frame of the kernel, and which registers are still, or again, those of
what was interrupted.  `Insn.sym` is what an instruction does to such a description, and
`Insn.sound` that the machine does the same.

The flags of the processor are not followed: `__inthdlr` restores them and then adds to the stack
pointer.
-/

namespace Mh.Signal

open Mh.Lib.Bytes

variable {im : Image} {d : Delivery} {f f' : UsrFrame} {m m' : Mem} {a k : Nat}

/-! ## Descriptions -/

/-- Bytes of a signal stack: a register of what was interrupted, or anything. -/
inductive Slot
  | saved (r : Reg)
  | junk (n : Nat)
deriving DecidableEq, Repr

/-- The number of bytes. -/
def Slot.size : Slot → Nat
  | .saved r => r.width
  | .junk n => n

/-- The number of bytes of a stack. -/
def size (l : List Slot) : Nat := (l.map Slot.size).sum

@[simp] theorem size_cons (s : Slot) (l : List Slot) : size (s :: l) = s.size + size l := by
  rw [size, List.map_cons, List.sum_cons, size]

/-- What is on the stack above the stack pointer, and the registers that are as they were. -/
structure Sym where
  stack : List Slot
  kept : List Reg
deriving DecidableEq, Repr

/-- Take bytes off a stack. -/
def dropBytes : List Slot → Nat → Option (List Slot)
  | l, 0 => some l
  | [], _ => none
  | s :: l, n => if s.size ≤ n then dropBytes l (n - s.size) else none

/-- What an instruction does; of the call, what it has done when the handler has returned. -/
def Insn.sym (y : Sym) : Insn → Option Sym
  | .push r => some { y with stack := (if r ∈ y.kept then .saved r else .junk r.width) :: y.stack }
  | .pop r =>
      match y.stack with
      | [] => none
      | s :: l =>
          if s.size = r.width then
            some ⟨l, if s = .saved r then r :: y.kept else y.kept.filter (· ≠ r)⟩
          else none
  | .movEbp => some { y with kept := y.kept.filter (· ≠ .ebp) }
  | .pushEsp | .pushArg _ => some { y with stack := .junk 4 :: y.stack }
  | .call => some { y with kept := [] }
  | .add n => (dropBytes y.stack n).map fun l ↦ ⟨l, y.kept.filter (· ≠ .eflags)⟩
  | .movEax _ => some { y with kept := y.kept.filter (· ≠ .eax) }
  | .int => some y

/-- At the entry of the stub: the three arguments of the handler are on the stack. -/
def entry : Sym := ⟨[.junk 12], [.eax, .ecx, .edx, .ebx, .esi, .edi, .ebp, .gs, .fs, .es, .ds]⟩

/-- Before an instruction of the stub. -/
def symAt (k : Nat) : Option Sym := (inthdlr.take k).foldlM Insn.sym entry

/-! ## The stub, in numbers -/

theorem index_offset : ∀ k < 35, index (offset k) = some k := by decide +kernel

theorem offset_lt : ∀ k < 35, offset k < 100 := by decide +kernel

theorem offset_succ : ∀ k < 35, ∀ i ∈ inthdlr[k]?, offset (k + 1) = offset k + i.len := by
  decide +kernel

theorem symAt_isSome : ∀ k < 35, (symAt k).isSome := by decide +kernel

/-- The stub uses 80 bytes of the stack, and does not follow the flags. -/
theorem symAt_bound : ∀ k < 35, ∀ y ∈ symAt k, size y.stack + 12 ≤ 80 ∧ Reg.eflags ∉ y.kept := by
  decide +kernel

/-- What the handler may write: its arguments. -/
theorem symAt_call : ∀ y ∈ symAt 17, ∃ l, symAt 19 = some ⟨l, []⟩ ∧ size l = 52 ∧
    y.stack = .junk 4 :: .junk 4 :: .junk 4 :: .junk 4 :: l := by
  have hl : ∀ l, (symAt 17).map Sym.stack =
      some (.junk 4 :: .junk 4 :: .junk 4 :: .junk 4 :: l) → symAt 19 = some ⟨l, []⟩ → size l = 52 →
      ∀ y ∈ symAt 17, ∃ l, symAt 19 = some ⟨l, []⟩ ∧ size l = 52 ∧
        y.stack = .junk 4 :: .junk 4 :: .junk 4 :: .junk 4 :: l := by
    intro l h₁ h₂ h₃ y hy
    rw [Option.mem_def.1 hy] at h₁
    exact ⟨l, h₂, h₃, Option.some.inj h₁⟩
  exact hl [.saved .ds, .saved .es, .saved .fs, .saved .gs, .saved .edi, .saved .esi, .saved .ebx,
    .saved .edx, .saved .ecx, .saved .eax, .junk 4, .saved .ebp, .junk 12] (by decide +kernel)
    (by decide +kernel) (by decide +kernel)

/-- At the `int`: `eax` is on the stack, next to what the kernel has pushed. -/
theorem symAt_int : ∀ y ∈ symAt 34, y.stack = [.saved .eax] ∧
    ∀ r, r ≠ .eax → r ≠ .eflags → r ∈ y.kept := by
  have hk : (symAt 34).all fun y ↦ y.stack = [.saved .eax] ∧ (.ecx ∈ y.kept ∧ .edx ∈ y.kept ∧
      .ebx ∈ y.kept ∧ .esi ∈ y.kept ∧ .edi ∈ y.kept ∧ .ebp ∈ y.kept ∧ .gs ∈ y.kept ∧
      .fs ∈ y.kept ∧ .es ∈ y.kept ∧ .ds ∈ y.kept) := by decide +kernel
  intro y hy
  rw [Option.mem_def.1 hy] at hk
  obtain ⟨hst, hm⟩ := of_decide_eq_true hk
  refine ⟨hst, fun r ha hf ↦ ?_⟩
  cases r <;> simp_all

/-! ## The machine -/

/-- From `a` on the memory holds a stack, and then the words that the kernel reads when the
handler returns. -/
def Holds (m : Mem) (d : Delivery) : Nat → List Slot → Prop
  | a, [] => a + 12 = d.sp.toNat ∧ load m a 4 = d.frame.eip ∧ load m (a + 4) 4 = d.frame.esp ∧
      load m (a + 8) 4 = d.userfl
  | a, .saved r :: l => load m a r.width = d.frame.reg r ∧ Holds m d (a + r.width) l
  | a, .junk n :: l => Holds m d (a + n) l

/-- A description is right. -/
structure Sound (d : Delivery) (y : Sym) (f : UsrFrame) (m : Mem) : Prop where
  stack : Holds m d f.esp.toNat y.stack
  kept : ∀ r ∈ y.kept, f.reg r = d.frame.reg r

theorem Holds.size_eq {l : List Slot} (h : Holds m d a l) : a + size l + 12 = d.sp.toNat := by
  induction l generalizing a with
  | nil => exact h.1
  | cons s l ih =>
      rw [size_cons]
      cases s with
      | saved r =>
          have := ih h.2
          simp only [Slot.size]
          omega
      | junk n =>
          have := ih h
          simp only [Slot.size]
          omega

/-- A stack is in the bytes from the stack pointer up. -/
theorem Holds.congr {l : List Slot} (h : Holds m d a l)
    (hm : ∀ x, a ≤ x → x < d.sp.toNat → m' x = m x) : Holds m' d a l := by
  induction l generalizing a with
  | nil =>
      obtain ⟨hsp, h₁, h₂, h₃⟩ := h
      refine ⟨hsp, ?_, ?_, ?_⟩
      · rw [load_congr fun x _ _ ↦ hm x (by omega) (by omega), h₁]
      · rw [load_congr fun x _ _ ↦ hm x (by omega) (by omega), h₂]
      · rw [load_congr fun x _ _ ↦ hm x (by omega) (by omega), h₃]
  | cons s l ih =>
      have hsz := h.size_eq
      rw [size_cons] at hsz
      cases s with
      | saved r =>
          simp only [Slot.size] at hsz
          refine ⟨?_, ih h.2 fun x _ hx' ↦ hm x (by omega) hx'⟩
          rw [load_congr fun x _ _ ↦ hm x (by omega) (by omega), h.1]
      | junk n => exact ih (a := a + n) h fun x _ hx' ↦ hm x (by omega) hx'

theorem Holds.drop {l l' : List Slot} {n : Nat} (h : Holds m d a l) (hl : dropBytes l n = some l') :
    Holds m d (a + n) l' := by
  induction l generalizing a n with
  | nil =>
      cases n with
      | zero =>
          obtain rfl := Option.some.inj hl
          exact h
      | succ n => cases hl
  | cons s l ih =>
      cases n with
      | zero =>
          obtain rfl := Option.some.inj hl
          exact h
      | succ n =>
          simp only [dropBytes] at hl
          split at hl
          · next hle =>
              have hs : Holds m d (a + s.size) l := by
                cases s with
                | saved r => exact h.2
                | junk k => exact h
              have hd := ih hs hl
              rwa [show a + s.size + (n + 1 - s.size) = a + (n + 1) by omega] at hd
          · cases hl

@[simp] theorem set_reg_self (r : Reg) (v : BitVec (8 * r.width)) : (f.set r v).reg r = v :=
  Function.update_self ..

theorem set_reg_of_ne {r r' : Reg} (h : r' ≠ r) (v : BitVec (8 * r.width)) :
    (f.set r v).reg r' = f.reg r' := Function.update_of_ne h ..

theorem Reg.width_le (r : Reg) : 2 ≤ r.width ∧ r.width ≤ 4 := by cases r <;> decide

/-- Registers other than one that is written stay. -/
theorem kept_filter {y : Sym} {r : Reg} {v : BitVec (8 * r.width)}
    (h : ∀ r ∈ y.kept, f.reg r = d.frame.reg r) :
    ∀ r' ∈ y.kept.filter (· ≠ r), (f.set r v).reg r' = d.frame.reg r' := by
  intro r' hr
  obtain ⟨hm, hne⟩ := List.mem_filter.1 hr
  rw [set_reg_of_ne (of_decide_eq_true hne)]
  exact h r' hm

/-- A push: the new bytes are below the old ones. -/
theorem Sound.pushed {y : Sym} {n : Nat} (h : Sound d y f m) (hn : n ≤ 4)
    (hsp : size y.stack + 16 ≤ d.sp.toNat) (v : BitVec (8 * n)) :
    (f.push m v).1.esp.toNat + n = f.esp.toNat ∧
      Holds (f.push m v).2 d ((f.push m v).1.esp.toNat + n) y.stack ∧
      load (f.push m v).2 (f.push m v).1.esp.toNat n = v ∧
      ∀ x, x < (f.push m v).1.esp.toNat ∨ f.esp.toNat ≤ x → (f.push m v).2 x = m x := by
  have hsz := h.stack.size_eq
  have hesp : (f.push m v).1.esp.toNat + n = f.esp.toNat := by
    show (f.esp - BitVec.ofNat 32 n).toNat + n = f.esp.toNat
    have := f.esp.isLt
    rw [BitVec.toNat_sub, BitVec.toNat_ofNat]
    omega
  have hout : ∀ x, x < (f.push m v).1.esp.toNat ∨ f.esp.toNat ≤ x → (f.push m v).2 x = m x :=
    fun x hx ↦ store_outside (by
      show x < (f.push m v).1.esp.toNat ∨ (f.push m v).1.esp.toNat + n ≤ x
      omega) v
  refine ⟨hesp, ?_, load_store .., hout⟩
  rw [hesp]
  exact h.stack.congr fun x hx _ ↦ hout x (.inr hx)

/-- The next instruction. -/
def UsrFrame.next (f : UsrFrame) (i : Insn) : UsrFrame :=
  { f with eip := f.eip + BitVec.ofNat 32 i.len }

/-- Bytes of the stack are taken off. -/
theorem toNat_add_of_holds {l : List Slot} {n : Nat} (h : Holds m d (f.esp.toNat + n) l) :
    (f.esp + BitVec.ofNat 32 n).toNat = f.esp.toNat + n := by
  have := h.size_eq
  have := d.sp.isLt
  rw [BitVec.toNat_add, BitVec.toNat_ofNat]
  omega

/-- The effect of an instruction on a thread is the one on its description, and it writes between
the new stack pointer and the frame of the kernel. -/
structure Moves (d : Delivery) (y' : Sym) (m : Mem) (r : UsrFrame × Mem) : Prop where
  sound : Sound d y' r.1 r.2
  outside : ∀ x, x + size y'.stack + 12 < d.sp.toNat ∨ d.sp.toNat ≤ x → r.2 x = m x

/-- A push of one of the words that are not restored. -/
theorem Sound.pushWord {y : Sym} (h : Sound d y f m) (hsp : size y.stack + 16 ≤ d.sp.toNat)
    (v : Word) : Moves d { y with stack := .junk 4 :: y.stack } m (f.push (n := 4) m v) := by
  obtain ⟨hesp, hst, -, hout⟩ := h.pushed (n := 4) le_rfl hsp v
  have hsz := h.stack.size_eq
  refine ⟨⟨hst, h.kept⟩, fun x hx ↦ hout x ?_⟩
  rw [size_cons, Slot.size] at hx
  omega

/-- A push of a register. -/
theorem Sound.push {y : Sym} (h : Sound d y f m) (hsp : size y.stack + 16 ≤ d.sp.toNat) (r : Reg) :
    Moves d { y with stack := (if r ∈ y.kept then .saved r else .junk r.width) :: y.stack } m
      (f.push m (f.reg r)) := by
  obtain ⟨hesp, hst, hload, hout⟩ := h.pushed r.width_le.2 hsp (f.reg r)
  have hsz := h.stack.size_eq
  refine ⟨⟨?_, h.kept⟩, fun x hx ↦ hout x ?_⟩
  · show Holds _ d _ (_ :: _)
    split
    · next hr => exact ⟨hload.trans (h.kept r hr), hst⟩
    · exact hst
  · have hs : (if r ∈ y.kept then Slot.saved r else .junk r.width).size = r.width := by
      split <;> rfl
    rw [size_cons, hs] at hx
    omega

/-- A pop. -/
theorem Sound.pop {y : Sym} {s : Slot} {l : List Slot} {r : Reg} (h : Sound d y f m)
    (hy : y.stack = s :: l) (hs : s.size = r.width) :
    Sound d ⟨l, if s = .saved r then r :: y.kept else y.kept.filter (· ≠ r)⟩
      ({ f with esp := f.esp + BitVec.ofNat 32 r.width }.set r (load m f.esp.toNat r.width)) m := by
  have hst := h.stack
  rw [hy] at hst
  have hl : Holds m d (f.esp.toNat + r.width) l := by
    rw [← hs]
    cases s with
    | saved r' => exact hst.2
    | junk n => exact hst
  refine ⟨?_, ?_⟩
  · show Holds m d (f.esp + BitVec.ofNat 32 r.width).toNat l
    rwa [toNat_add_of_holds hl]
  · split
    · next hr =>
        subst hr
        intro r' hr'
        by_cases hrr : r' = r
        · subst hrr
          rw [set_reg_self]
          exact hst.1
        · rw [set_reg_of_ne hrr]
          exact h.kept r' ((List.mem_cons.1 hr').resolve_left hrr)
    · exact kept_filter (f := { f with esp := f.esp + BitVec.ofNat 32 r.width }) h.kept

theorem Insn.sound (im : Image) {i : Insn} {y y' : Sym} (h : Sound d y f m) (hy : i.sym y = some y')
    (hsp : size y.stack + 16 ≤ d.sp.toNat) (hc : i ≠ .call) :
    Moves d y' m (i.exec im f m) ∧ (i.exec im f m).1.eip = f.eip + BitVec.ofNat 32 i.len := by
  have hn : Sound d y (f.next i) m := ⟨h.stack, h.kept⟩
  cases i with
  | push r =>
      obtain rfl := Option.some.inj hy
      exact ⟨hn.push hsp r, rfl⟩
  | pop r =>
      rw [Insn.sym] at hy
      split at hy
      · cases hy
      · next s l hst =>
          split at hy
          · next hs =>
              obtain rfl := Option.some.inj hy
              exact ⟨⟨hn.pop hst hs, fun _ _ ↦ rfl⟩, rfl⟩
          · cases hy
  | movEbp =>
      obtain rfl := Option.some.inj hy
      exact ⟨⟨⟨hn.stack, kept_filter hn.kept⟩, fun _ _ ↦ rfl⟩, rfl⟩
  | pushEsp =>
      obtain rfl := Option.some.inj hy
      exact ⟨hn.pushWord hsp _, rfl⟩
  | pushArg n =>
      obtain rfl := Option.some.inj hy
      exact ⟨hn.pushWord hsp _, rfl⟩
  | call => exact absurd rfl hc
  | add n =>
      obtain ⟨l, hl, rfl⟩ := Option.map_eq_some_iff.1 hy
      have hd := hn.stack.drop hl
      refine ⟨⟨⟨?_, ?_⟩, fun _ _ ↦ rfl⟩, rfl⟩
      · show Holds m d ((f.next (.add n)).esp + BitVec.ofNat 32 n).toNat l
        rwa [toNat_add_of_holds hd]
      · exact kept_filter (f := { f.next (.add n) with esp := f.esp + BitVec.ofNat 32 n }) hn.kept
  | movEax n =>
      obtain rfl := Option.some.inj hy
      exact ⟨⟨⟨hn.stack, kept_filter hn.kept⟩, fun _ _ ↦ rfl⟩, rfl⟩
  | int =>
      obtain rfl := Option.some.inj hy
      exact ⟨⟨hn, fun _ _ ↦ rfl⟩, rfl⟩

end Mh.Signal
