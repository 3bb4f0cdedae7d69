import Mathlib.Data.Tree.Basic
import Mathlib.Order.Lattice

/-!
# Search trees

A binary tree of values with keys, where smaller keys are to the left.  A search for a key goes
one way down, and so does an insertion: `descent` is the values it compares the key with.

It does not see all of the tree, but it does see the values next to the key on both sides, unless
it ends at a value that has the key itself (`Ordered.exists_below`, `Ordered.exists_above`).
-/

universe u v

namespace Mh.Lib.SearchTree

variable {α : Type u} {β : Type v} [LinearOrder β]

/-- The values of a tree, from left to right. -/
def values : BinaryTree α → List α
  | .nil => []
  | .node a l r => values l ++ a :: values r

@[simp] theorem mem_values_node {a b : α} {l r : BinaryTree α} :
    b ∈ values (.node a l r) ↔ b ∈ values l ∨ b = a ∨ b ∈ values r := by
  rw [values, List.mem_append, List.mem_cons]

/-- Smaller keys are to the left of each value, and greater ones to its right. -/
def Ordered (key : α → β) : BinaryTree α → Prop
  | .nil => True
  | .node a l r => (Ordered key l ∧ ∀ b ∈ values l, key b < key a) ∧
      Ordered key r ∧ ∀ b ∈ values r, key a < key b

/-- The values that a search for `k` compares it with. -/
def descent (key : α → β) (k : β) : BinaryTree α → List α
  | .nil => []
  | .node a l r =>
    a :: if k < key a then descent key k l else if key a < k then descent key k r else []

variable {key : α → β} {k : β} {t : BinaryTree α} {a b : α}

/-- They are values of the tree. -/
theorem mem_values_of_mem_descent (h : a ∈ descent key k t) : a ∈ values t := by
  induction t with
  | nil => cases h
  | node b l r ihl ihr =>
    rw [descent, List.mem_cons] at h
    rw [mem_values_node]
    rcases h with rfl | h
    · exact .inr (.inl rfl)
    · split_ifs at h
      · exact .inl (ihl h)
      · exact .inr (.inr (ihr h))
      · cases h

namespace Ordered

/-- No two values have one key. -/
theorem key_inj (h : Ordered key t) (ha : a ∈ values t) (hb : b ∈ values t)
    (hk : key a = key b) : a = b := by
  induction t with
  | nil => cases ha
  | node c l r ihl ihr =>
    obtain ⟨⟨hl, hlt⟩, hr, hgt⟩ := h
    rw [mem_values_node] at ha hb
    rcases ha with ha | rfl | ha <;> rcases hb with hb | rfl | hb
    · exact ihl hl ha hb
    · exact absurd hk (hlt a ha).ne
    · exact absurd hk ((hlt a ha).trans (hgt b hb)).ne
    · exact absurd hk (hlt b hb).ne'
    · rfl
    · exact absurd hk (hgt b hb).ne
    · exact absurd hk ((hlt b hb).trans (hgt a ha)).ne'
    · exact absurd hk (hgt a ha).ne'
    · exact ihr hr ha hb

/-- On the way to a key there is a value between any smaller one and the key. -/
theorem exists_below (h : Ordered key t) (ha : a ∈ values t) (hk : key a ≤ k) :
    ∃ b ∈ descent key k t, key a ≤ key b ∧ key b ≤ k := by
  induction t with
  | nil => cases ha
  | node c l r ihl ihr =>
    obtain ⟨⟨hl, hlt⟩, hr, hgt⟩ := h
    rw [mem_values_node] at ha
    rw [descent]
    rcases lt_trichotomy k (key c) with hc | rfl | hc
    · -- the root is too great, and with it all that is to its right
      rw [if_pos hc]
      have hal : a ∈ values l := by
        rcases ha with ha | rfl | ha
        · exact ha
        · exact absurd hk hc.not_ge
        · exact absurd (hk.trans_lt (hc.trans (hgt a ha))) (lt_irrefl _)
      obtain ⟨b, hb, hab⟩ := ihl hl hal
      exact ⟨b, List.mem_cons_of_mem _ hb, hab⟩
    · exact ⟨c, List.mem_cons_self, hk, le_refl _⟩
    · rw [if_neg hc.not_gt, if_pos hc]
      rcases ha with ha | rfl | ha
      · exact ⟨c, List.mem_cons_self, (hlt a ha).le, hc.le⟩
      · exact ⟨a, List.mem_cons_self, le_refl _, hc.le⟩
      · obtain ⟨b, hb, hab⟩ := ihr hr ha
        exact ⟨b, List.mem_cons_of_mem _ hb, hab⟩

/-- And one between the key and any greater value. -/
theorem exists_above (h : Ordered key t) (ha : a ∈ values t) (hk : k ≤ key a) :
    ∃ b ∈ descent key k t, k ≤ key b ∧ key b ≤ key a := by
  induction t with
  | nil => cases ha
  | node c l r ihl ihr =>
    obtain ⟨⟨hl, hlt⟩, hr, hgt⟩ := h
    rw [mem_values_node] at ha
    rw [descent]
    rcases lt_trichotomy k (key c) with hc | rfl | hc
    · rw [if_pos hc]
      rcases ha with ha | rfl | ha
      · obtain ⟨b, hb, hab⟩ := ihl hl ha
        exact ⟨b, List.mem_cons_of_mem _ hb, hab⟩
      · exact ⟨a, List.mem_cons_self, hc.le, le_refl _⟩
      · exact ⟨c, List.mem_cons_self, hc.le, (hgt a ha).le⟩
    · exact ⟨c, List.mem_cons_self, le_refl _, hk⟩
    · -- the root is too small, and with it all that is to its left
      rw [if_neg hc.not_gt, if_pos hc]
      have har : a ∈ values r := by
        rcases ha with ha | rfl | ha
        · exact absurd ((hlt a ha).trans (hc.trans_le hk)) (lt_irrefl _)
        · exact absurd hk hc.not_ge
        · exact ha
      obtain ⟨b, hb, hab⟩ := ihr hr har
      exact ⟨b, List.mem_cons_of_mem _ hb, hab⟩

end Ordered

end Mh.Lib.SearchTree
