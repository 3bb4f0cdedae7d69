import Mathlib.Data.List.Nodup
import Mathlib.Tactic.Common

/-!
# Tilings

`Tiles len a es b`: the blocks `es`, each given by where it begins, follow one another
without gaps from `a` to `b`, where `len` is the length of a block.  A block may be
cut in two (`Tiles.cut`), and two that follow one another may be made one
(`Tiles.glue`).
-/

namespace Mh.Lib

/-- The blocks `es` cover the range from `a` to `b`, in order. -/
def Tiles (len : Nat → Nat) : Nat → List Nat → Nat → Prop
  | a, [], b => a = b
  | a, e :: es, b => e = a ∧ 0 < len e ∧ Tiles len (a + len e) es b

namespace Tiles

variable {len len' : Nat → Nat} {a b e e' n : Nat} {es xs ys : List Nat}

theorem append_iff :
    Tiles len a (xs ++ ys) b ↔ ∃ m, Tiles len a xs m ∧ Tiles len m ys b := by
  induction xs generalizing a with
  | nil =>
      constructor
      · intro h
        exact ⟨a, rfl, h⟩
      · rintro ⟨_, rfl, h⟩
        exact h
  | cons e xs ih =>
      constructor
      · rintro ⟨he, hpos, h⟩
        obtain ⟨m, h₁, h₂⟩ := ih.1 h
        exact ⟨m, ⟨he, hpos, h₁⟩, h₂⟩
      · rintro ⟨m, ⟨he, hpos, h₁⟩, h₂⟩
        exact ⟨he, hpos, ih.2 ⟨m, h₁, h₂⟩⟩

theorem congr (h : Tiles len a es b) (he : ∀ e ∈ es, len' e = len e) : Tiles len' a es b := by
  induction es generalizing a with
  | nil => exact h
  | cons e es ih =>
      obtain ⟨hea, hpos, hrest⟩ := h
      have hlen := he e List.mem_cons_self
      rw [← hlen] at hpos hrest
      exact ⟨hea, hpos, ih hrest fun e' he' ↦ he e' (List.mem_cons_of_mem _ he')⟩

/-- There are at most as many blocks as units. -/
theorem add_length_le (h : Tiles len a es b) : a + es.length ≤ b := by
  induction es generalizing a with
  | nil => exact Nat.le_of_eq h
  | cons e es ih =>
      obtain ⟨_, hpos, hrest⟩ := h
      have hle := ih hrest
      rw [List.length_cons]
      omega

/-- A block is not empty and lies inside. -/
theorem mem (h : Tiles len a es b) (he : e ∈ es) : a ≤ e ∧ 0 < len e ∧ e + len e ≤ b := by
  obtain ⟨xs, ys, rfl⟩ := List.append_of_mem he
  obtain ⟨m, h₁, rfl, hpos, h₂⟩ := append_iff.1 h
  have hle := h₁.add_length_le
  have hle' := h₂.add_length_le
  exact ⟨by omega, hpos, by omega⟩

/-- The blocks before a block end where it begins at the latest, and the blocks after
it begin where it ends at the earliest. -/
theorem mem_split (h : Tiles len a (xs ++ e :: ys) b) :
    (∀ e' ∈ xs, e' + len e' ≤ e) ∧ ∀ e' ∈ ys, e + len e ≤ e' := by
  obtain ⟨m, h₁, rfl, _, h₂⟩ := append_iff.1 h
  exact ⟨fun e' he' ↦ (h₁.mem he').2.2, fun e' he' ↦ (h₂.mem he').1⟩

/-- Two blocks do not overlap. -/
theorem apart (h : Tiles len a es b) (he : e ∈ es) (he' : e' ∈ es) (hne : e ≠ e') :
    e + len e ≤ e' ∨ e' + len e' ≤ e := by
  obtain ⟨xs, ys, rfl⟩ := List.append_of_mem he
  obtain ⟨hx, hy⟩ := h.mem_split
  rcases List.mem_append.1 he' with hm | hm
  · exact .inr (hx e' hm)
  · rcases List.mem_cons.1 hm with rfl | hm
    · exact absurd rfl hne
    · exact .inl (hy e' hm)

/-- A block may be cut in two. -/
theorem cut (h : Tiles len a (xs ++ e :: ys) b) (hn : 0 < n) (hlt : n < len e)
    (he : len' e = n) (he' : len' (e + n) = len e - n)
    (hlen : ∀ x ∈ xs ++ ys, len' x = len x) : Tiles len' a (xs ++ e :: (e + n) :: ys) b := by
  obtain ⟨m, h₁, rfl, _, h₂⟩ := append_iff.1 h
  refine append_iff.2
    ⟨e, h₁.congr fun x hx ↦ hlen x (List.mem_append_left _ hx), rfl, ?_, ?_, ?_, ?_⟩
  · rwa [he]
  · rw [he]
  · rw [he']
    exact Nat.sub_pos_of_lt hlt
  · have hend : e + len' e + len' (e + n) = e + len e := by omega
    rw [hend]
    exact h₂.congr fun x hx ↦ hlen x (List.mem_append_right _ hx)

/-- Two blocks that follow one another may be made one. -/
theorem glue (h : Tiles len a (xs ++ e :: e' :: ys) b) (he : len' e = len e + len e')
    (hlen : ∀ x ∈ xs ++ ys, len' x = len x) : Tiles len' a (xs ++ e :: ys) b := by
  obtain ⟨m, h₁, rfl, hpos, rfl, _, h₂⟩ := append_iff.1 h
  refine append_iff.2 ⟨e, h₁.congr fun x hx ↦ hlen x (List.mem_append_left _ hx), rfl, ?_, ?_⟩
  · rw [he]
    exact Nat.add_pos_left hpos _
  · rw [he, ← Nat.add_assoc]
    exact h₂.congr fun x hx ↦ hlen x (List.mem_append_right _ hx)

end Tiles

end Mh.Lib
