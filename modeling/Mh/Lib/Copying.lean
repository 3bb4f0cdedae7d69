import Mathlib.Algebra.GroupWithZero.Nat
import Mathlib.Order.Nat
import Mathlib.Tactic.Common

/-!
# Copies that may fault

A copy of so many bytes reads byte `k` at the place `src k` and writes it at the place `dst k`,
where there is such a place; without one it faults.  It goes from the first byte to the last, some
of them at a time: those of one unit are read before they are written, and a unit that faults does nothing.

`Copied` says what the bytes `lo, …, hi - 1` leave of a memory.  The places may be any: byte `k` is
the old one if no byte before it was written to the place where it is read, and none after it to the
place where it is written.
-/

universe u v

namespace Mh.Lib

variable {A : Type u} {B : Type v} {src dst : Nat → Option A} {m m' m₁ : A → B}
  {lo mid hi o n k : Nat}

/-- The bytes from `lo` on, below `hi`, were copied. -/
structure Copied (src dst : Nat → Option A) (lo hi : Nat) (m m' : A → B) : Prop where
  access : ∀ k, lo ≤ k → k < hi → (src k).isSome ∧ (dst k).isSome
  frame : ∀ a, (∀ k, lo ≤ k → k < hi → dst k ≠ some a) → m' a = m a
  copied : ∀ k, lo ≤ k → k < hi → ∀ a b, src k = some a → dst k = some b →
    (∀ j, lo ≤ j → j < k → dst j ≠ some a) → (∀ j, k < j → j < hi → dst j ≠ some b) → m' b = m a

namespace Copied

theorem refl (src dst : Nat → Option A) (lo : Nat) (m : A → B) : Copied src dst lo lo m m where
  access _ hlo hhi := absurd hhi (Nat.not_lt.2 hlo)
  frame _ _ := rfl
  copied _ hlo hhi := absurd hhi (Nat.not_lt.2 hlo)

/-- One copy after another. -/
theorem trans (h : Copied src dst lo mid m m₁) (h' : Copied src dst mid hi m₁ m')
    (hlo : lo ≤ mid) (hhi : mid ≤ hi) : Copied src dst lo hi m m' where
  access k hk hk' := by
    rcases Nat.lt_or_ge k mid with hlt | hge
    · exact h.access k hk hlt
    · exact h'.access k hge hk'
  frame a ha := by
    rw [h'.frame a fun k hk hk' ↦ ha k (hlo.trans hk) hk',
      h.frame a fun k hk hk' ↦ ha k hk (Nat.lt_of_lt_of_le hk' hhi)]
  copied k hk hk' a b hsrc hdst hbefore hafter := by
    rcases Nat.lt_or_ge k mid with hlt | hge
    · -- the second copy leaves the place where the byte was written
      rw [h'.frame b fun j hj hj' ↦ hafter j (Nat.lt_of_lt_of_le hlt hj) hj']
      exact h.copied k hk hlt a b hsrc hdst hbefore fun j hj hj' ↦
        hafter j hj (Nat.lt_of_lt_of_le hj' hhi)
    · -- the first copy left the place where the byte is read
      rw [h'.copied k hge hk' a b hsrc hdst (fun j hj hj' ↦ hbefore j (hlo.trans hj) hj') hafter]
      exact h.frame a fun j hj hj' ↦ hbefore j hj (Nat.lt_of_lt_of_le hj' hge)

/-- A copy depends on the places of its bytes. -/
theorem congr {src' dst' : Nat → Option A} (h : Copied src dst lo hi m m')
    (hsrc : ∀ k, lo ≤ k → k < hi → src' k = src k) (hdst : ∀ k, lo ≤ k → k < hi → dst' k = dst k) :
    Copied src' dst' lo hi m m' where
  access k hk hk' := by
    rw [hsrc k hk hk', hdst k hk hk']
    exact h.access k hk hk'
  frame a ha := h.frame a fun k hk hk' ↦ hdst k hk hk' ▸ ha k hk hk'
  copied k hk hk' a b ha hb hbefore hafter :=
    h.copied k hk hk' a b (hsrc k hk hk' ▸ ha) (hdst k hk hk' ▸ hb)
      (fun j hj hj' ↦ hdst j hj (hj'.trans hk') ▸ hbefore j hj hj')
      fun j hj hj' ↦ hdst j (hk.trans hj.le) hj' ▸ hafter j hj hj'

/-- The bytes of a copy counted from another one. -/
theorem shift (c : Nat) (h : Copied (fun k ↦ src (c + k)) (fun k ↦ dst (c + k)) lo hi m m') :
    Copied src dst (c + lo) (c + hi) m m' where
  access k hk hk' := by
    have hlo : lo ≤ k - c := by omega
    have hsum : c + (k - c) = k := by omega
    have hacc := h.access (k - c) hlo (by omega)
    rwa [hsum] at hacc
  frame a ha := h.frame a fun k hk hk' ↦ ha (c + k) (by omega) (by omega)
  copied k hk hk' a b hsrc hdst hbefore hafter := by
    have hlo : lo ≤ k - c := by omega
    have hsum : c + (k - c) = k := by omega
    refine h.copied (k - c) hlo (by omega) a b ?_ ?_ (fun j hj hj' ↦ ?_) fun j hj hj' ↦ ?_
    · rwa [hsum]
    · rwa [hsum]
    · exact hbefore (c + j) (by omega) (by omega)
    · exact hafter (c + j) (by omega) (by omega)

end Copied

/-! ## Units -/

/-- The bytes of a unit have their places. -/
def Accessible (src dst : Nat → Option A) (o n : Nat) : Prop :=
  ∀ i < n, (src (o + i)).isSome ∧ (dst (o + i)).isSome

theorem Accessible.congr {src' dst' : Nat → Option A} (hsrc : ∀ i < n, src' (o + i) = src (o + i))
    (hdst : ∀ i < n, dst' (o + i) = dst (o + i)) :
    Accessible src' dst' o n ↔ Accessible src dst o n :=
  forall₂_congr fun i hi ↦ by rw [hsrc i hi, hdst i hi]

instance (src dst : Nat → Option A) (o n : Nat) : Decidable (Accessible src dst o n) :=
  inferInstanceAs (Decidable (∀ i < n, _))

section Units

variable [DecidableEq A]

/-- The memory after the first bytes of a unit at `o`: they have been read already. -/
def moveUnit (src dst : Nat → Option A) (m : A → B) (o : Nat) : Nat → A → B
  | 0 => m
  | i + 1 =>
    match src (o + i), dst (o + i) with
    | some a, some b => Function.update (moveUnit src dst m o i) b (m a)
    | _, _ => moveUnit src dst m o i

/-- A copy of units of the given sizes from byte `o` on, with the byte at which it ends. -/
def copyUnits (src dst : Nat → Option A) : List Nat → Nat → (A → B) → (A → B) × Nat
  | [], o, m => (m, o)
  | n :: ns, o, m =>
    if Accessible src dst o n then copyUnits src dst ns (o + n) (moveUnit src dst m o n) else (m, o)

theorem moveUnit_succ {m : A → B} {i : Nat} {a b : A} (ha : src (o + i) = some a)
    (hb : dst (o + i) = some b) :
    moveUnit src dst m o (i + 1) = Function.update (moveUnit src dst m o i) b (m a) := by
  rw [moveUnit, ha, hb]

/-- A unit is copied. -/
theorem copied_moveUnit (m : A → B) (h : Accessible src dst o n) :
    Copied src dst o (o + n) m (moveUnit src dst m o n) := by
  induction n with
  | zero => exact .refl src dst o m
  | succ n ih =>
      have ih := ih fun i hi ↦ h i (Nat.lt_succ_of_lt hi)
      obtain ⟨hsrc, hdst⟩ := h n (Nat.lt_succ_self n)
      obtain ⟨a, ha⟩ := Option.isSome_iff_exists.1 hsrc
      obtain ⟨b, hb⟩ := Option.isSome_iff_exists.1 hdst
      rw [moveUnit_succ ha hb]
      refine ⟨fun k hk hk' ↦ ?_, fun x hx ↦ ?_, fun k hk hk' x y hx hy hbefore hafter ↦ ?_⟩
      · have hacc := h (k - o) (by omega)
        rwa [Nat.add_sub_cancel' hk] at hacc
      · have hne : x ≠ b := fun hxb ↦ hx (o + n) (by omega) (by omega) (hxb ▸ hb)
        rw [Function.update_of_ne hne]
        exact ih.frame x fun k hk hk' ↦ hx k hk (by omega)
      · rcases Nat.lt_or_ge k (o + n) with hlt | hge
        · have hne : y ≠ b := fun hyb ↦ hafter (o + n) hlt (by omega) (hyb ▸ hb)
          rw [Function.update_of_ne hne]
          exact ih.copied k hk hlt x y hx hy hbefore fun j hj hj' ↦ hafter j hj (by omega)
        · -- the last byte of the unit, which was read before any was written
          obtain rfl : k = o + n := by omega
          rw [ha] at hx
          rw [hb] at hy
          cases hx
          cases hy
          exact Function.update_self _ _ _

/-- What a copy of units leaves, and why it ends. -/
theorem copied_copyUnits (src dst : Nat → Option A) (ns : List Nat) (o : Nat) (m : A → B) :
    Copied src dst o (copyUnits src dst ns o m).2 m (copyUnits src dst ns o m).1 ∧
      o ≤ (copyUnits src dst ns o m).2 ∧
      ((copyUnits src dst ns o m).2 = o + ns.sum ∨
        (copyUnits src dst ns o m).2 < o + ns.sum ∧ ¬ Accessible src dst o ns.sum) := by
  induction ns generalizing o m with
  | nil => exact ⟨.refl src dst o m, Nat.le_refl o, .inl rfl⟩
  | cons n ns ih =>
      by_cases h : Accessible src dst o n
      · obtain ⟨hc, hle, hend⟩ := ih (o + n) (moveUnit src dst m o n)
        rw [copyUnits, if_pos h, List.sum_cons, ← Nat.add_assoc]
        refine ⟨(copied_moveUnit m h).trans hc (Nat.le_add_right o n) hle,
          (Nat.le_add_right o n).trans hle, hend.imp_right fun ⟨hlt, hno⟩ ↦ ⟨hlt, fun hacc ↦ ?_⟩⟩
        refine hno fun i hi ↦ ?_
        rw [Nat.add_assoc]
        exact hacc (n + i) (Nat.add_lt_add_left hi n)
      · have hpos : 0 < n := Nat.pos_of_ne_zero fun hz ↦
          h fun i hi ↦ absurd hi (hz ▸ Nat.not_lt_zero i)
        rw [copyUnits, if_neg h, List.sum_cons]
        exact ⟨.refl src dst o m, Nat.le_refl o, .inr ⟨by omega, fun hacc ↦
          h fun i hi ↦ hacc i (Nat.lt_of_lt_of_le hi (Nat.le_add_right n _))⟩⟩

end Units

end Mh.Lib
