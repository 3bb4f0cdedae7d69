import Mathlib.Algebra.BigOperators.Group.Finset.Basic
import Mathlib.Algebra.Order.BigOperators.Group.Finset
import Mathlib.Data.List.Count
import Mathlib.Data.List.Nodup
import Mathlib.Data.List.Perm.Basic
import Mathlib.Logic.Function.Basic
import Mathlib.Tactic.Common

/-!
# Counting the entries of a finite table

A table is a function from an index type, of which only the indices in a finite
set matter.  `tally I p f` is the number of indices in `I` whose entry has the
property `p`.  A count over several tables is a `Finset` sum of tallies, so the
one fact about updates, `sum_update`, is stated for sums and serves both levels.
-/

universe u v w

namespace Mh.Lib

variable {ι : Type u} {α : Type v}

/-- Changing one entry changes a sum over the table by that entry's share. -/
theorem sum_update [DecidableEq ι] {I : Finset ι} {i : ι} (hi : i ∈ I) (f : ι → α) (a : α)
    (g : α → Nat) :
    (∑ j ∈ I, g (Function.update f i a j)) + g (f i) = (∑ j ∈ I, g (f j)) + g a := by
  have hcongr : ∀ j ∈ I.erase i, g (Function.update f i a j) = g (f j) := fun j hj ↦ by
    rw [Function.update_of_ne (Finset.ne_of_mem_erase hj)]
  rw [← Finset.add_sum_erase I _ hi, ← Finset.add_sum_erase I (fun j ↦ g (f j)) hi,
    Finset.sum_congr rfl hcongr, Function.update_self]
  omega

/-- The number of indices in `I` whose entry satisfies `p`. -/
def tally (I : Finset ι) (p : α → Bool) (f : ι → α) : Nat := ∑ i ∈ I, (p (f i)).toNat

/-- Changing one entry of a table. -/
theorem tally_update [DecidableEq ι] {I : Finset ι} {i : ι} (hi : i ∈ I) (p : α → Bool)
    (f : ι → α) (a : α) :
    tally I p (Function.update f i a) + (p (f i)).toNat = tally I p f + (p a).toNat :=
  sum_update hi f a fun x ↦ (p x).toNat

/-- A weaker property has at least as many entries. -/
theorem tally_mono {I : Finset ι} {p q : α → Bool} (hpq : ∀ a, p a → q a) (f : ι → α) :
    tally I p f ≤ tally I q f := by
  refine Finset.sum_le_sum fun i _ ↦ ?_
  have := hpq (f i)
  cases hp : p (f i) <;> cases hq : q (f i) <;> simp_all

/-- An index with the property makes the tally positive. -/
theorem tally_pos {I : Finset ι} {i : ι} (hi : i ∈ I) {p : α → Bool} {f : ι → α}
    (h : p (f i)) : 0 < tally I p f := by
  refine Nat.lt_of_lt_of_le ?_ (Finset.single_le_sum (fun _ _ ↦ Nat.zero_le _) hi)
  simp [h]

/-- A tally is zero exactly when no index has the property. -/
theorem tally_eq_zero {I : Finset ι} {p : α → Bool} {f : ι → α} :
    tally I p f = 0 ↔ ∀ i ∈ I, p (f i) = false := by
  rw [tally, Finset.sum_eq_zero_iff]
  refine forall₂_congr fun i _ ↦ ?_
  cases p (f i) <;> simp

end Mh.Lib

/-!
## Lists in the entries of a finite table

A table in which every entry is a list, of which only the indices in a finite set matter: a shelf
for each index, and what has been put there.  `shelved I x p` is the number of items with the
property `p` on the shelves, an item that is there twice counted twice.  An item goes to the head
of a list, and one of its occurrences is taken off again.

Where each of many owners has such a table, `setCell` writes one entry of one of the tables.
-/

namespace Mh.Lib

variable {ι : Type u} {α : Type v}

/-- The number of items with the property `p` on the shelves in `I`. -/
def shelved (I : Finset ι) (x : ι → List α) (p : α → Bool) : Nat := ∑ i ∈ I, (x i).countP p

variable {I : Finset ι} {x : ι → List α} {p : α → Bool} {i : ι} {a : α}

/-- An item that counts makes the number positive. -/
theorem shelved_pos (hi : i ∈ I) (ha : a ∈ x i) (hp : p a) : 0 < shelved I x p :=
  Nat.lt_of_lt_of_le (List.countP_pos_iff.2 ⟨a, ha, hp⟩)
    (Finset.single_le_sum (f := fun i ↦ (x i).countP p) (fun _ _ ↦ Nat.zero_le _) hi)

/-- A positive number comes from an item. -/
theorem exists_of_shelved_pos (h : 0 < shelved I x p) : ∃ i ∈ I, ∃ a ∈ x i, p a := by
  obtain ⟨i, hi, hne⟩ := Finset.exists_ne_zero_of_sum_ne_zero h.ne'
  obtain ⟨a, ha, hp⟩ := List.countP_pos_iff.1 (Nat.pos_of_ne_zero hne)
  exact ⟨i, hi, a, ha, hp⟩

/-- Empty shelves hold nothing. -/
theorem shelved_eq_zero (h : ∀ i ∈ I, x i = []) : shelved I x p = 0 :=
  Finset.sum_eq_zero fun i hi ↦ by rw [h i hi, List.countP_nil]

theorem countP_cons_toNat (p : α → Bool) (a : α) (l : List α) :
    (a :: l).countP p = l.countP p + (p a).toNat := by
  cases hp : p a <;> simp [hp]

theorem countP_erase_toNat [BEq α] [LawfulBEq α] (p : α → Bool) {l : List α} (ha : a ∈ l) :
    l.countP p = (l.erase a).countP p + (p a).toNat := by
  rw [← countP_cons_toNat]
  exact (List.perm_cons_erase ha).countP_eq p

section Update

variable [DecidableEq ι]

/-- Replacing one list changes the number by the share of that list. -/
theorem shelved_update (hi : i ∈ I) (l : List α) :
    shelved I (Function.update x i l) p + (x i).countP p = shelved I x p + l.countP p :=
  sum_update hi x l (List.countP p)

/-- Putting an item on a shelf. -/
theorem shelved_cons (hi : i ∈ I) :
    shelved I (Function.update x i (a :: x i)) p = shelved I x p + (p a).toNat := by
  have h := shelved_update (x := x) (p := p) hi (a :: x i)
  rw [countP_cons_toNat] at h
  omega

/-- Taking one off. -/
theorem shelved_erase [BEq α] [LawfulBEq α] (hi : i ∈ I) (ha : a ∈ x i) :
    shelved I (Function.update x i ((x i).erase a)) p + (p a).toNat = shelved I x p := by
  have h := shelved_update (x := x) (p := p) hi ((x i).erase a)
  rw [countP_erase_toNat p ha] at h
  omega

end Update

/-! ## Tables of tables -/

section Cells

variable {κ : Type w} {β : Type v} [DecidableEq κ] [DecidableEq ι] {k k' : κ} {j : ι} {b c : β}
  {y : κ → ι → β}

/-- Write one entry of the table of `k`. -/
def setCell (y : κ → ι → β) (k : κ) (i : ι) (b : β) : κ → ι → β :=
  Function.update y k (Function.update (y k) i b)

theorem setCell_apply : setCell y k i b k' j = if k' = k ∧ j = i then b else y k' j := by
  rw [setCell, Function.update_apply]
  split
  · rename_i hk
    rw [Function.update_apply, hk]
    simp only [true_and]
  · rename_i hk
    rw [if_neg fun h ↦ hk h.1]

/-- The table of `k` afterwards. -/
theorem setCell_self : setCell y k i b k = Function.update (y k) i b := Function.update_self ..

/-- The other tables. -/
theorem setCell_of_ne (h : k' ≠ k) : setCell y k i b k' = y k' := Function.update_of_ne h ..

/-- Writing what is there. -/
theorem setCell_eq_self (h : y k i = b) : setCell y k i b = y := by
  rw [setCell, ← h, Function.update_eq_self, Function.update_eq_self]

/-- Writing twice. -/
theorem setCell_setCell : setCell (setCell y k i b) k i c = setCell y k i c := by
  rw [setCell, setCell_self, Function.update_idem, setCell, Function.update_idem, setCell]

/-- An item on a shelf is one of those that were put there, or was there before. -/
theorem mem_setCell {x : κ → ι → List α} {l : List α} (h : a ∈ setCell x k i l k' j) :
    (k' = k ∧ j = i ∧ a ∈ l) ∨ a ∈ x k' j := by
  rw [setCell_apply] at h
  split at h
  · rename_i hkj
    exact .inl ⟨hkj.1, hkj.2, h⟩
  · exact .inr h

end Cells

end Mh.Lib

/-!
## Ledgers

A resource has at most one owner, and every owner keeps a list of what it owns.  The two
records are kept apart: `own a k` is what the resources say, `T k` is the list of the owner
`k`.  `Ledger T own` says that they agree, and the rules below are for the three ways in
which both change: an owner acquires a resource, releases one, or is cleared, giving back
all that is on its list.  Clearing an owner by its list takes from no other owner
(`Ledger.mem_iff_of_own`).
-/

namespace Mh.Lib

variable {A : Type u} {K : Type v}

/-- The lists `T` of the owners are what they own, each resource once, and a resource has one
owner. -/
structure Ledger (T : K → List A) (own : A → K → Prop) : Prop where
  mem : ∀ a k, own a k ↔ a ∈ T k
  nodup : ∀ k, (T k).Nodup
  unique : ∀ a k k', own a k → own a k' → k = k'

namespace Ledger

variable {T T' : K → List A} {own own' : A → K → Prop} {a : A} {k : K}

/-- Nothing is owned. -/
theorem empty (hT : ∀ k, T k = []) (ho : ∀ a k, ¬ own a k) : Ledger T own where
  mem a k := by
    rw [hT]
    exact iff_of_false (ho a k) List.not_mem_nil
  nodup k := by
    rw [hT]
    exact List.nodup_nil
  unique a k _ h := absurd h (ho a k)

/-- What a ledger depends on. -/
theorem congr (h : Ledger T own) (hT : ∀ k, T' k = T k) (ho : ∀ a k, own' a k ↔ own a k) :
    Ledger T' own' where
  mem a k := by
    rw [ho, hT]
    exact h.mem a k
  nodup k := by
    rw [hT]
    exact h.nodup k
  unique a k k' hk hk' := h.unique a k k' ((ho a k).1 hk) ((ho a k').1 hk')

/-- A resource that somebody owns is on the list of `k` just when `k` is the owner. -/
theorem mem_iff_of_own {k' : K} (h : Ledger T own) (ho : own a k') : a ∈ T k ↔ k' = k := by
  rw [← h.mem]
  refine ⟨fun hk ↦ h.unique a k' k ho hk, ?_⟩
  rintro rfl
  exact ho

/-- A resource without an owner is acquired. -/
theorem acquire (h : Ledger T own) (hfree : ∀ k', ¬ own a k') (hk : T' k = a :: T k)
    (hT : ∀ k' ≠ k, T' k' = T k') (ho : ∀ b k', own' b k' ↔ own b k' ∨ b = a ∧ k' = k) :
    Ledger T' own' where
  mem b k' := by
    rw [ho]
    rcases eq_or_ne k' k with rfl | hne
    · rw [hk, List.mem_cons, h.mem, and_iff_left rfl, or_comm]
    · rw [hT k' hne, h.mem]
      exact or_iff_left fun hb ↦ hne hb.2
  nodup k' := by
    rcases eq_or_ne k' k with rfl | hne
    · rw [hk, List.nodup_cons]
      exact ⟨fun ha ↦ hfree k' ((h.mem a k').2 ha), h.nodup k'⟩
    · rw [hT k' hne]
      exact h.nodup k'
  unique b k₁ k₂ h₁ h₂ := by
    rw [ho] at h₁ h₂
    rcases h₁ with h₁ | ⟨rfl, rfl⟩
    · rcases h₂ with h₂ | ⟨rfl, -⟩
      · exact h.unique b k₁ k₂ h₁ h₂
      · exact absurd h₁ (hfree k₁)
    · rcases h₂ with h₂ | ⟨-, rfl⟩
      · exact absurd h₂ (hfree k₂)
      · rfl

/-- Resources of an owner are given back; `L` is what is left on its list. -/
theorem release {L : List A} {p : A → Prop} (h : Ledger T own) (hL : L.Nodup)
    (hmem : ∀ b, b ∈ L ↔ b ∈ T k ∧ ¬ p b) (hp : ∀ b, p b → b ∈ T k) (hk : T' k = L)
    (hT : ∀ k' ≠ k, T' k' = T k') (ho : ∀ b k', own' b k' ↔ own b k' ∧ ¬ p b) :
    Ledger T' own' where
  mem b k' := by
    rw [ho]
    rcases eq_or_ne k' k with rfl | hne
    · rw [hk, hmem, h.mem]
    · rw [hT k' hne, h.mem]
      refine and_iff_left_of_imp fun hb hpb ↦ hne ?_
      exact (h.mem_iff_of_own ((h.mem b k').2 hb)).1 (hp b hpb)
  nodup k' := by
    rcases eq_or_ne k' k with rfl | hne
    · rw [hk]
      exact hL
    · rw [hT k' hne]
      exact h.nodup k'
  unique b k₁ k₂ h₁ h₂ := h.unique b k₁ k₂ ((ho b k₁).1 h₁).1 ((ho b k₂).1 h₂).1

/-- An owner gives back all that is on its list. -/
theorem clear (h : Ledger T own) (hk : T' k = []) (hT : ∀ k' ≠ k, T' k' = T k')
    (ho : ∀ b k', own' b k' ↔ own b k' ∧ b ∉ T k) : Ledger T' own' :=
  h.release List.nodup_nil (fun _ ↦ iff_of_false List.not_mem_nil fun hb ↦ hb.2 hb.1)
    (fun _ hb ↦ hb) hk hT ho

end Ledger

end Mh.Lib
