import Mathlib.Data.List.Range
import Mathlib.Logic.Function.Basic
import Mathlib.Tactic.Common

/-!
# RingBuf buffers

A ring buffer of `n` slots, filled from `head` up to `tail`, where the indices go round.  One slot
stays free: the buffer is empty when `head` and `tail` are the same, and full when `tail` is one
before `head`.

`contents` is what the buffer holds, in order.  Putting an element into a buffer that is not full
appends it (`contents_put`), and getting one from a buffer that is not empty takes the first one
off (`contents_get`).
-/

universe u

namespace Mh.Lib

/-- The slots and the two indices. -/
structure RingBuf (α : Type u) where
  slot : Nat → α
  head : Nat
  tail : Nat

namespace RingBuf

variable {α : Type u} {n : Nat} {r : RingBuf α} {a : α}

/-- How many slots are filled. -/
def size (n : Nat) (r : RingBuf α) : Nat := (r.tail + n - r.head) % n

/-- What the buffer holds. -/
def contents (n : Nat) (r : RingBuf α) : List α :=
  (List.range (r.size n)).map fun i ↦ r.slot ((r.head + i) % n)

/-- Put an element into the slot at `tail`. -/
def put (n : Nat) (r : RingBuf α) (a : α) : RingBuf α :=
  { r with slot := Function.update r.slot r.tail a, tail := (r.tail + 1) % n }

/-- Take off the element at `head`. -/
def get (n : Nat) (r : RingBuf α) : RingBuf α := { r with head := (r.head + 1) % n }

/-- The indices are those of slots. -/
structure InRange (n : Nat) (r : RingBuf α) : Prop where
  head : r.head < n
  tail : r.tail < n

/-- The indices go round at most once. -/
theorem mod_eq {k : Nat} (hk : k < n + n) : k % n = if k < n then k else k - n := by
  split
  · next h => exact Nat.mod_eq_of_lt h
  · next h => rw [Nat.mod_eq_sub_mod (Nat.le_of_not_lt h), Nat.mod_eq_of_lt (by omega)]

namespace InRange

theorem size_eq (h : r.InRange n) :
    r.size n = if r.head ≤ r.tail then r.tail - r.head else r.tail + n - r.head := by
  have h₁ := h.head
  have h₂ := h.tail
  rw [size, mod_eq (by omega)]
  split
  · rw [if_neg (by omega)]
  · next hlt =>
      rw [if_pos (by omega)]
      omega

theorem size_lt (h : r.InRange n) : r.size n < n := Nat.mod_lt _ (Nat.zero_lt_of_lt h.head)

theorem put (h : r.InRange n) (a : α) : (r.put n a).InRange n :=
  ⟨h.head, Nat.mod_lt _ (Nat.zero_lt_of_lt h.head)⟩

theorem get (h : r.InRange n) : (r.get n).InRange n :=
  ⟨Nat.mod_lt _ (Nat.zero_lt_of_lt h.head), h.tail⟩

theorem size_put (h : r.InRange n) (hf : (r.tail + 1) % n ≠ r.head) (a : α) :
    (r.put n a).size n = r.size n + 1 := by
  have h₁ := h.head
  have h₂ := h.tail
  rw [(h.put a).size_eq, h.size_eq]
  show (if r.head ≤ (r.tail + 1) % n then (r.tail + 1) % n - r.head
    else (r.tail + 1) % n + n - r.head) = _
  rw [mod_eq (by omega)] at hf ⊢
  split_ifs at hf ⊢ <;> omega

theorem size_get (h : r.InRange n) (he : r.head ≠ r.tail) :
    r.size n = (r.get n).size n + 1 := by
  have h₁ := h.head
  have h₂ := h.tail
  rw [h.get.size_eq, h.size_eq]
  show _ = (if (r.head + 1) % n ≤ r.tail then r.tail - (r.head + 1) % n
    else r.tail + n - (r.head + 1) % n) + 1
  rw [mod_eq (by omega)]
  split_ifs <;> omega

/-- The slots that are filled are not the one at `tail`. -/
theorem slot_ne (h : r.InRange n) {i : Nat} (hi : i < r.size n) :
    (r.head + i) % n ≠ r.tail := by
  have h₁ := h.head
  have h₂ := h.tail
  have hs := h.size_lt
  rw [h.size_eq] at hi hs
  rw [mod_eq (by omega)]
  split at hi <;> split <;> omega

/-- Putting an element into a buffer that is not full. -/
theorem contents_put (h : r.InRange n) (hf : (r.tail + 1) % n ≠ r.head) (a : α) :
    (r.put n a).contents n = r.contents n ++ [a] := by
  rw [contents, h.size_put hf, List.range_succ, List.map_append, contents]
  congr 1
  · refine List.map_congr_left fun i hi ↦ ?_
    exact Function.update_of_ne (h.slot_ne (List.mem_range.1 hi)) ..
  · have htail : (r.head + r.size n) % n = r.tail := by
      have h₁ := h.head
      have h₂ := h.tail
      have hs := h.size_lt
      rw [mod_eq (by omega), h.size_eq]
      split <;> split <;> omega
    show [Function.update r.slot r.tail a ((r.head + r.size n) % n)] = [a]
    rw [htail, Function.update_self]

/-- Getting an element from a buffer that is not empty. -/
theorem contents_get (h : r.InRange n) (he : r.head ≠ r.tail) :
    r.contents n = r.slot r.head :: (r.get n).contents n := by
  rw [contents, h.size_get he, List.range_succ_eq_map, List.map_cons, List.map_map, contents]
  congr 1
  · rw [Nat.add_zero, Nat.mod_eq_of_lt h.head]
  · refine List.map_congr_left fun i _ ↦ ?_
    show r.slot ((r.head + (i + 1)) % n) = r.slot (((r.head + 1) % n + i) % n)
    rw [Nat.mod_add_mod, Nat.add_right_comm, ← Nat.add_assoc]

end InRange

/-- A buffer is empty exactly when the indices are the same. -/
theorem contents_empty (h : r.head = r.tail) : r.contents n = [] := by
  have hs : r.size n = 0 := by
    rw [size, h, Nat.add_sub_cancel_left, Nat.mod_self]
  rw [contents, hs]
  rfl

end RingBuf

end Mh.Lib
