import Mathlib.Data.List.Nodup

/-!
# One element changes queues

`Refiled l l' x P` says that the queue `l` has become `l'` by a step that concerns `x`
only: no element is on `l'` twice, the others are on it as they were, and `x` is on it
just when `P`.  A step that moves `x` from one of several queues to another refiles it in
each of them.
-/

universe u

namespace Mh.Lib

variable {α : Type u} {l l' : List α} {x y : α} {P : Prop}

/-- `l'` is `l` but for `x`, which is on it just when `P`. -/
structure Refiled (l l' : List α) (x : α) (P : Prop) : Prop where
  nodup : l'.Nodup
  mem_of_ne : ∀ y, y ≠ x → (y ∈ l' ↔ y ∈ l)
  mem_self : x ∈ l' ↔ P

namespace Refiled

/-- A queue that the step leaves alone. -/
theorem refl (hl : l.Nodup) (h : x ∈ l ↔ P) : Refiled l l x P :=
  ⟨hl, fun _ _ ↦ Iff.rfl, h⟩

/-- `x` joins the queue at its tail. -/
theorem snoc (hl : l.Nodup) (hx : x ∉ l) (hP : P) : Refiled l (l ++ [x]) x P where
  nodup := by
    refine hl.append (List.nodup_singleton x) fun y hy hy' ↦ ?_
    rw [List.mem_singleton.1 hy'] at hy
    exact hx hy
  mem_of_ne y hy := by
    rw [List.mem_append, List.mem_singleton, or_iff_left hy]
  mem_self := iff_of_true (List.mem_append_right _ (List.mem_singleton_self x)) hP

/-- `x` leaves the queue. -/
theorem erase [DecidableEq α] (hl : l.Nodup) (hP : ¬P) : Refiled l (l.erase x) x P where
  nodup := hl.erase x
  mem_of_ne y hy := by
    rw [hl.mem_erase_iff, and_iff_right hy]
  mem_self := iff_of_false (fun h ↦ (hl.mem_erase_iff.1 h).1 rfl) hP

/-- `x` leaves the queue at its head. -/
theorem tail (hl : (x :: l).Nodup) (hP : ¬P) : Refiled (x :: l) l x P where
  nodup := hl.of_cons
  mem_of_ne y hy := by
    rw [List.mem_cons, or_iff_right hy]
  mem_self := iff_of_false (List.nodup_cons.1 hl).1 hP

end Refiled

end Mh.Lib
