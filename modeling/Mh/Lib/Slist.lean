import Mh.Lib.Digits

/-!
# Lists linked through memory

A singly linked list whose links are in the elements: the first `w` bytes of an element are the
address of the next one, and the last element's are zero.  `Leads w m p xs` says that the list
which starts at `p` has the elements `xs`.  It depends on the links alone (`Leads.congr`), so it is
kept by whatever is written elsewhere.

An element joins the list at the head and leaves it there.  It may join when its link shares no byte
with the links of the others, which is the case when elements are apart and have room for a link.
-/

namespace Mh.Lib.Slist

open Bytes (Mem loadNat storeNat)

variable {w p q x a : Nat} {m m' : Mem} {xs ys : List Nat}

/-- The elements of the list that starts at an address. -/
def Leads (w : Nat) (m : Mem) : Nat → List Nat → Prop
  | p, [] => p = 0
  | p, x :: xs => p = x ∧ x ≠ 0 ∧ Leads w m (loadNat m x w) xs

/-- Two links share no byte. -/
def Apart (w x y : Nat) : Prop := x + w ≤ y ∨ y + w ≤ x

/-- `SLIST_INSERT_HEAD`, on the first element and the memory. -/
def insertHead (w : Nat) (l : Nat × Mem) (x : Nat) : Nat × Mem := (x, storeNat l.2 x w l.1)

/-- `SLIST_REMOVE_HEAD`, on the first element. -/
def removeHead (w : Nat) (l : Nat × Mem) : Nat := loadNat l.2 l.1 w

namespace Leads

/-- The list is empty if it starts nowhere. -/
theorem eq_zero_iff (h : Leads w m p xs) : p = 0 ↔ xs = [] := by
  cases xs with
  | nil => exact iff_of_true h rfl
  | cons x xs => exact iff_of_false (h.1 ▸ h.2.1) (List.cons_ne_nil _ _)

theorem head_mem (h : Leads w m p xs) (hp : p ≠ 0) : p ∈ xs := by
  cases xs with
  | nil => exact absurd h hp
  | cons x xs => exact h.1 ▸ List.mem_cons_self

/-- There is one list that starts at an address. -/
theorem eq (h : Leads w m p xs) (h' : Leads w m p ys) : xs = ys := by
  induction xs generalizing p ys with
  | nil => exact (h'.eq_zero_iff.1 h).symm
  | cons x xs ih =>
      cases ys with
      | nil => exact absurd (h.1.symm.trans h') h.2.1
      | cons y ys =>
          obtain rfl : x = y := h.1.symm.trans h'.1
          rw [ih h.2.2 h'.2.2]

/-- The list depends on the links of its elements. -/
theorem congr (h : Leads w m p xs) (hm : ∀ x ∈ xs, ∀ a, x ≤ a → a < x + w → m' a = m a) :
    Leads w m' p xs := by
  induction xs generalizing p with
  | nil => exact h
  | cons x xs ih =>
      refine ⟨h.1, h.2.1, ?_⟩
      rw [Bytes.loadNat_congr (hm x List.mem_cons_self)]
      exact ih h.2.2 fun y hy ↦ hm y (List.mem_cons_of_mem x hy)

/-- What is written apart from the elements leaves the list alone. -/
theorem storeNat (h : Leads w m p xs) (hx : ∀ y ∈ xs, Apart w x y) (v : Nat) :
    Leads w (storeNat m x w v) p xs :=
  h.congr fun y hy a hle hlt ↦ Bytes.storeNat_outside (by
    have hxy := hx y hy
    unfold Apart at hxy
    omega) v

/-- An element that is apart from the others joins the list. -/
theorem insertHead (h : Leads w m p xs) (hx : x ≠ 0) (hp : p < 2 ^ (8 * w))
    (hxs : ∀ y ∈ xs, Apart w x y) :
    Leads w (insertHead w (p, m) x).2 (Slist.insertHead w (p, m) x).1 (x :: xs) := by
  refine ⟨rfl, hx, ?_⟩
  dsimp only [Slist.insertHead]
  rw [Bytes.loadNat_storeNat, Nat.mod_eq_of_lt hp]
  exact h.storeNat hxs p

/-- The first element leaves the list. -/
theorem removeHead (h : Leads w m p (x :: xs)) : Leads w m (Slist.removeHead w (p, m)) xs := by
  rw [Slist.removeHead, h.1]
  exact h.2.2

end Leads

end Mh.Lib.Slist
