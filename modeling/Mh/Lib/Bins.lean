import Mathlib.Data.Finset.Card
import Mathlib.Data.Set.Insert
import Mathlib.Logic.Function.Basic

/-!
# Bins

An allocator that sorts its blocks into classes keeps one list for each class.
`b : ι → List α` are the bins.  A block is on one list only, and leaves whichever
list it is on (`remove`); it joins a list at the head (`insert`), as an intrusive
list does it.

`Filed b S` says that the bins hold exactly the blocks of `S`, each of them once
and in one bin.  The lemmas are the two operations' effect on `Filed`, on
membership and on the lengths of the bins.
-/

universe u v

namespace Mh.Lib.Bins

variable {ι : Type u} {α : Type v}
variable {b : ι → List α} {S : Set α} {i j : ι} {x y : α}

/-- Take `x` off whichever list it is on. -/
def remove [DecidableEq α] (b : ι → List α) (x : α) : ι → List α := fun i ↦ (b i).erase x

/-- Put `x` at the head of bin `i`. -/
def insert [DecidableEq ι] (b : ι → List α) (i : ι) (x : α) : ι → List α :=
  Function.update b i (x :: b i)

/-- The bins hold the blocks of `S`, each once and in one bin. -/
structure Filed (b : ι → List α) (S : Set α) : Prop where
  nodup : ∀ i, (b i).Nodup
  inj : ∀ {i j x}, x ∈ b i → x ∈ b j → i = j
  mem_iff : ∀ {x}, x ∈ S ↔ ∃ i, x ∈ b i

/-- Empty bins hold nothing. -/
theorem filed_nil : Filed (fun _ : ι ↦ ([] : List α)) ∅ where
  nodup _ := List.nodup_nil
  inj h _ := absurd h List.not_mem_nil
  mem_iff := by simp

/-! ## Membership -/

theorem mem_insert [DecidableEq ι] : y ∈ insert b i x j ↔ j = i ∧ y = x ∨ y ∈ b j := by
  by_cases h : j = i
  · subst h
    simp [insert]
  · simp [insert, h]

theorem mem_insert_self [DecidableEq ι] : x ∈ insert b i x i := mem_insert.2 (.inl ⟨rfl, rfl⟩)

theorem mem_of_mem_remove [DecidableEq α] (h : y ∈ remove b x i) : y ∈ b i :=
  List.mem_of_mem_erase h

namespace Filed

theorem mem (h : Filed b S) (hx : x ∈ b i) : x ∈ S := h.mem_iff.2 ⟨i, hx⟩

theorem mem_remove [DecidableEq α] (h : Filed b S) : y ∈ Bins.remove b x i ↔ y ≠ x ∧ y ∈ b i :=
  (h.nodup i).mem_erase_iff

/-! ## The operations -/

protected theorem remove [DecidableEq α] (h : Filed b S) (x : α) :
    Filed (Bins.remove b x) (S \ {x}) where
  nodup i := (h.nodup i).erase x
  inj hy hy' := h.inj (mem_of_mem_remove hy) (mem_of_mem_remove hy')
  mem_iff {y} := by
    constructor
    · rintro ⟨hy, hne⟩
      obtain ⟨i, hi⟩ := h.mem_iff.1 hy
      exact ⟨i, h.mem_remove.2 ⟨hne, hi⟩⟩
    · rintro ⟨i, hi⟩
      obtain ⟨hne, hy⟩ := h.mem_remove.1 hi
      exact ⟨h.mem hy, hne⟩

protected theorem insert [DecidableEq ι] (h : Filed b S) (hx : x ∉ S) (i : ι) :
    Filed (Bins.insert b i x) (Insert.insert x S) where
  nodup j := by
    by_cases hj : j = i
    · subst hj
      simpa [Bins.insert] using ⟨fun hm ↦ hx (h.mem hm), h.nodup j⟩
    · simpa [Bins.insert, hj] using h.nodup j
  inj {j j' y} hy hy' := by
    rcases mem_insert.1 hy with ⟨hj, rfl⟩ | hm
    · rcases mem_insert.1 hy' with ⟨hj', _⟩ | hm'
      · rw [hj, hj']
      · exact absurd (h.mem hm') hx
    · rcases mem_insert.1 hy' with ⟨_, rfl⟩ | hm'
      · exact absurd (h.mem hm) hx
      · exact h.inj hm hm'
  mem_iff {y} := by
    constructor
    · rintro (rfl | hy)
      · exact ⟨i, mem_insert_self⟩
      · obtain ⟨j, hj⟩ := h.mem_iff.1 hy
        exact ⟨j, mem_insert.2 (.inr hj)⟩
    · rintro ⟨j, hj⟩
      rcases mem_insert.1 hj with ⟨_, rfl⟩ | hy
      · exact Set.mem_insert y S
      · exact Set.mem_insert_of_mem x (h.mem hy)

/-- A block that changes bins stays filed. -/
theorem move [DecidableEq ι] [DecidableEq α] (h : Filed b S) (hx : x ∈ S) (i : ι) :
    Filed (Bins.insert (Bins.remove b x) i x) S := by
  have hins := (h.remove x).insert (x := x) (fun hm ↦ hm.2 rfl) i
  rwa [Set.insert_sdiff_singleton, Set.insert_eq_of_mem hx] at hins

/-- A bin that is emptied leaves the blocks of the others. -/
theorem clear [DecidableEq ι] (h : Filed b S) (i : ι) :
    Filed (Function.update b i []) (S \ {x | x ∈ b i}) := by
  have hmem : ∀ {j y}, y ∈ Function.update b i [] j ↔ j ≠ i ∧ y ∈ b j := by
    intro j y
    by_cases hj : j = i
    · subst hj
      simp
    · simp [hj]
  refine ⟨fun j ↦ ?_, fun hy hy' ↦ h.inj (hmem.1 hy).2 (hmem.1 hy').2, fun {y} ↦ ⟨?_, ?_⟩⟩
  · by_cases hj : j = i
    · subst hj
      rw [Function.update_self]
      exact List.nodup_nil
    · rw [Function.update_of_ne hj]
      exact h.nodup j
  · rintro ⟨hy, hn⟩
    obtain ⟨j, hj⟩ := h.mem_iff.1 hy
    refine ⟨j, hmem.2 ⟨?_, hj⟩⟩
    rintro rfl
    exact hn hj
  · rintro ⟨j, hj⟩
    obtain ⟨hne, hy⟩ := hmem.1 hj
    exact ⟨h.mem hy, fun hy' ↦ hne (h.inj hy hy')⟩

/-! ## Lengths -/

theorem length_remove [DecidableEq ι] [DecidableEq α] (h : Filed b S) (hx : x ∈ b i) (j : ι) :
    (Bins.remove b x j).length = (b j).length - if j = i then 1 else 0 := by
  by_cases hj : j = i
  · subst hj
    simp [Bins.remove, hx]
  · have hn : x ∉ b j := fun hm ↦ hj (h.inj hm hx)
    simp [Bins.remove, List.erase_of_not_mem hn, hj]

end Filed

theorem length_insert [DecidableEq ι] (b : ι → List α) (i : ι) (x : α) (j : ι) :
    (insert b i x j).length = (b j).length + if j = i then 1 else 0 := by
  by_cases hj : j = i
  · subst hj
    simp [insert]
  · simp [insert, hj]

/-- A bin of numbers below `n` has at most `n` of them. -/
theorem Filed.length_le {b : ι → List Nat} {S : Set Nat} {n : Nat} (h : Filed b S)
    (hS : ∀ x ∈ S, x < n) (i : ι) : (b i).length ≤ n := by
  rw [← List.toFinset_card_of_nodup (h.nodup i), ← Finset.card_range n]
  apply Finset.card_le_card
  intro x hx
  exact Finset.mem_range.2 (hS x (h.mem (List.mem_toFinset.1 hx)))

end Mh.Lib.Bins
