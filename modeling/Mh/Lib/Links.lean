import Mathlib.Data.List.Basic
import Mathlib.Data.List.Nodup
import Mathlib.Logic.Function.Basic
import Mathlib.Tactic.Common

/-!
# Intrusive lists

A list linked through its elements: `first` and the `next` of every element are the
links, and the `prev` of an element is the address of the link that points to it,
`none` for `first` and `some a` for the `next` of `a`.

`l.Linked o xs` says that from link `o` on the links lead through `xs` and then end,
and that every element of `xs` points back; `l.Holds xs` says so of the whole list.
Inserting after a link and removing an element do to the list that is held what they
should (`Holds.insert`, `Holds.remove`), and following the links finds it
(`Holds.walk`).  `Linked.insertAfter` and `Linked.remove` are the same for a list whose head is an
element, with what becomes of the other lists in the same links.
-/

universe u

namespace Mh.Lib

/-- The links of a list and of its elements. -/
structure Links (α : Type u) where
  first : Option α
  next : α → Option α
  prev : α → Option α

namespace Links

variable {α : Type u} {l m : Links α} {o r : Option α} {a b x : α} {xs ys : List α}

/-- A link: `first`, or the `next` of an element. -/
def link (l : Links α) : Option α → Option α
  | none => l.first
  | some a => l.next a

/-- The elements from a link on, as many as `n` of them. -/
def walk (l : Links α) : Nat → Option α → List α
  | 0, _ => []
  | _ + 1, none => []
  | n + 1, some a => a :: l.walk n (l.next a)

section Update

variable [DecidableEq α]

/-- Write a link. -/
def setLink (l : Links α) (o v : Option α) : Links α :=
  match o with
  | none => { l with first := v }
  | some a => { l with next := Function.update l.next a v }

/-- Write the back pointer of an element, if there is one. -/
def setPrev (l : Links α) (o v : Option α) : Links α :=
  match o with
  | none => l
  | some a => { l with prev := Function.update l.prev a v }

/-- Insert `a` after a link. -/
def insert (l : Links α) (o : Option α) (a : α) : Links α :=
  let n := l.link o
  (((l.setLink (some a) n).setPrev n (some a)).setLink o (some a)).setPrev (some a) o

/-- `LIST_INSERT_HEAD`. -/
def insertHead (l : Links α) (a : α) : Links α := l.insert none a

/-- `LIST_INSERT_AFTER`. -/
def insertAfter (l : Links α) (b a : α) : Links α := l.insert (some b) a

/-- `LIST_REMOVE`. -/
def remove (l : Links α) (a : α) : Links α :=
  (l.setPrev (l.next a) (l.prev a)).setLink (l.prev a) (l.next a)

/-! ## Reading what was written -/

@[simp] theorem link_setLink (l : Links α) (o v r : Option α) :
    (l.setLink o v).link r = if r = o then v else l.link r := by
  cases o with
  | none =>
      cases r with
      | none => rfl
      | some a => rfl
  | some b =>
      cases r with
      | none => rfl
      | some a =>
          show Function.update l.next b v a = _
          by_cases hab : a = b
          · subst hab
            rw [Function.update_self, if_pos rfl]
          · rw [Function.update_of_ne hab, if_neg fun he ↦ hab (Option.some.inj he)]
            rfl

@[simp] theorem link_setPrev (l : Links α) (o v : Option α) : (l.setPrev o v).link = l.link := by
  cases o with
  | none => rfl
  | some a =>
      funext r
      cases r <;> rfl

@[simp] theorem prev_setLink (l : Links α) (o v : Option α) : (l.setLink o v).prev = l.prev := by
  cases o <;> rfl

@[simp] theorem prev_setPrev (l : Links α) (o v : Option α) (a : α) :
    (l.setPrev o v).prev a = if some a = o then v else l.prev a := by
  cases o with
  | none => rfl
  | some b =>
      show Function.update l.prev b v a = _
      by_cases hab : a = b
      · subst hab
        rw [Function.update_self, if_pos rfl]
      · rw [Function.update_of_ne hab, if_neg fun he ↦ hab (Option.some.inj he)]

end Update

/-! ## Following the links -/

/-- From link `o` through `xs` to link `r`, with every element pointing back. -/
def Seg (l : Links α) : Option α → List α → Option α → Prop
  | o, [], r => o = r
  | o, a :: xs, r => l.link o = some a ∧ l.prev a = o ∧ l.Seg (some a) xs r

/-- From link `o` through `xs` to the end. -/
def Linked (l : Links α) (o : Option α) (xs : List α) : Prop :=
  ∃ r, l.Seg o xs r ∧ l.link r = none

/-- The list is `xs`. -/
structure Holds (l : Links α) (xs : List α) : Prop where
  nodup : xs.Nodup
  linked : l.Linked none xs

theorem seg_append {r : Option α} :
    l.Seg o (xs ++ ys) r ↔ ∃ m, l.Seg o xs m ∧ l.Seg m ys r := by
  induction xs generalizing o with
  | nil =>
      constructor
      · intro h
        exact ⟨o, rfl, h⟩
      · rintro ⟨_, rfl, h⟩
        exact h
  | cons a xs ih =>
      constructor
      · rintro ⟨hl, hp, h⟩
        obtain ⟨m, h₁, h₂⟩ := ih.1 h
        exact ⟨m, ⟨hl, hp, h₁⟩, h₂⟩
      · rintro ⟨m, ⟨hl, hp, h₁⟩, h₂⟩
        exact ⟨hl, hp, ih.2 ⟨m, h₁, h₂⟩⟩

/-- A segment ends at the link of its last element. -/
theorem Seg.end_eq (h : l.Seg o xs r) : r = xs.getLast?.or o := by
  induction xs generalizing o with
  | nil => exact h.symm
  | cons a xs ih =>
      rw [ih h.2.2, List.getLast?_cons]
      cases xs.getLast? <;> rfl

/-- A segment stays one when its elements keep their back pointers and its links,
except the one it ends at, stay. -/
theorem Seg.congr (h : l.Seg o xs r) (hn : (o :: xs.map some).Nodup)
    (hl : ∀ q ∈ o :: xs.map some, q ≠ r → m.link q = l.link q)
    (hp : ∀ a ∈ xs, m.prev a = l.prev a) : m.Seg o xs r := by
  induction xs generalizing o with
  | nil => exact h
  | cons a xs ih =>
      obtain ⟨hlink, hprev, hrest⟩ := h
      have hne : o ≠ r := by
        rintro rfl
        have hend := hrest.end_eq
        have hmem : o ∈ (a :: xs).map some := by
          rw [List.map_cons]
          cases hlast : xs.getLast? with
          | none =>
              rw [hlast] at hend
              exact List.mem_cons.2 (.inl hend)
          | some b =>
              rw [hlast] at hend
              have hb : o = some b := hend
              rw [hb]
              exact List.mem_cons_of_mem _ (List.mem_map.2 ⟨b, List.mem_of_getLast? hlast, rfl⟩)
        exact (List.nodup_cons.1 hn).1 hmem
      refine ⟨?_, ?_, ih hrest (List.nodup_cons.1 hn).2 ?_ ?_⟩
      · rw [hl o List.mem_cons_self hne, hlink]
      · rw [hp a List.mem_cons_self, hprev]
      · exact fun q hq ↦ hl q (List.mem_cons_of_mem _ hq)
      · exact fun b hb ↦ hp b (List.mem_cons_of_mem _ hb)

theorem Linked.link_eq (h : l.Linked o xs) : l.link o = xs.head? := by
  obtain ⟨r, hs, hr⟩ := h
  cases xs with
  | nil =>
      obtain rfl : o = r := hs
      exact hr
  | cons a xs => exact hs.1

/-- The rest of a list, whose links and back pointers stay. -/
theorem Linked.congr (h : l.Linked o xs) (hl : ∀ q ∈ o :: xs.map some, m.link q = l.link q)
    (hp : ∀ a ∈ xs, m.prev a = l.prev a) : m.Linked o xs := by
  induction xs generalizing o with
  | nil =>
      obtain ⟨r, rfl, hr⟩ := h
      exact ⟨o, rfl, (hl o List.mem_cons_self).trans hr⟩
  | cons a xs ih =>
      obtain ⟨r, ⟨hlink, hprev, hrest⟩, hr⟩ := h
      obtain ⟨r', hrest', hr'⟩ := ih ⟨r, hrest, hr⟩
        (fun q hq ↦ hl q (List.mem_cons_of_mem _ hq)) fun b hb ↦ hp b (List.mem_cons_of_mem _ hb)
      refine ⟨r', ⟨?_, ?_, hrest'⟩, hr'⟩
      · rw [hl o List.mem_cons_self, hlink]
      · rw [hp a List.mem_cons_self, hprev]

/-- A link that is not one of the list is written. -/
theorem Linked.setLink [DecidableEq α] {q : Option α} (h : l.Linked o xs)
    (hq : q ∉ o :: xs.map some) (v : Option α) : (l.setLink q v).Linked o xs := by
  refine h.congr (fun q' hq' ↦ ?_) fun a _ ↦ by rw [prev_setLink]
  rw [link_setLink, if_neg]
  rintro rfl
  exact hq hq'

theorem nodup_none_map (h : xs.Nodup) : (none :: xs.map some : List (Option α)).Nodup := by
  refine List.nodup_cons.2 ⟨fun hm ↦ ?_, h.map fun _ _ ↦ Option.some.inj⟩
  obtain ⟨_, _, he⟩ := List.mem_map.1 hm
  cases he

namespace Holds

/-- A list that is held, cut at a link. -/
theorem split (h : l.Holds (xs ++ ys)) :
    l.Seg none xs xs.getLast? ∧ l.Linked xs.getLast? ys := by
  obtain ⟨r, hs, hr⟩ := h.linked
  obtain ⟨m, h₁, h₂⟩ := seg_append.1 hs
  have hm : m = xs.getLast? := by
    rw [h₁.end_eq]
    cases xs.getLast? <;> rfl
  rw [← hm]
  exact ⟨h₁, r, h₂, hr⟩

theorem of_split (hn : (xs ++ ys).Nodup) (hs : l.Seg none xs r) (hl : l.Linked r ys) :
    l.Holds (xs ++ ys) := by
  obtain ⟨e, h₂, he⟩ := hl
  exact ⟨hn, e, seg_append.2 ⟨r, hs, h₂⟩, he⟩

/-- The link an element is at. -/
theorem prev_eq (h : l.Holds (xs ++ a :: ys)) : l.prev a = xs.getLast? := by
  obtain ⟨_, r, hs, _⟩ := h.split
  exact hs.2.1

/-- The element that follows. -/
theorem next_eq (h : l.Holds (xs ++ a :: ys)) : l.next a = ys.head? := by
  obtain ⟨_, r, hs, hr⟩ := h.split
  exact Linked.link_eq ⟨r, hs.2.2, hr⟩

/-- Following the links finds the list. -/
theorem walk (h : l.Holds xs) {n : Nat} (hn : xs.length ≤ n) : l.walk n l.first = xs := by
  have hgen : ∀ (xs : List α) (o : Option α) (n : Nat), l.Linked o xs → xs.length ≤ n →
      l.walk n (l.link o) = xs := by
    intro xs
    induction xs with
    | nil =>
        intro o n hl _
        rw [hl.link_eq]
        cases n <;> rfl
    | cons a xs ih =>
        intro o n hl hlen
        rw [hl.link_eq]
        obtain ⟨r, hs, hr⟩ := hl
        cases n with
        | zero => exact absurd hlen (Nat.not_succ_le_zero _)
        | succ n =>
            exact congrArg (a :: ·) (ih (some a) n ⟨r, hs.2.2, hr⟩ (Nat.le_of_succ_le_succ hlen))
  exact hgen xs none n h.linked hn

theorem empty (h : l.first = none) : l.Holds [] := ⟨.nil, none, rfl, h⟩

variable [DecidableEq α]

/-- Inserting a new element. -/
theorem insert (h : l.Holds (xs ++ ys)) (ha : a ∉ xs ++ ys) :
    (l.insert xs.getLast? a).Holds (xs ++ a :: ys) := by
  have hn : (xs ++ a :: ys).Nodup := List.nodup_middle.2 (List.nodup_cons.2 ⟨ha, h.nodup⟩)
  obtain ⟨hs, hl⟩ := h.split
  have hax : a ∉ xs := fun hm ↦ ha (List.mem_append_left _ hm)
  have hay : a ∉ ys := fun hm ↦ ha (List.mem_append_right _ hm)
  have hnext := hl.link_eq
  have hdis : ∀ b ∈ xs, b ∉ ys := fun b hb hb' ↦
    (List.nodup_append.1 h.nodup).2.2 b hb b hb' rfl
  have hlast : ∀ b, xs.getLast? = some b → b ∈ xs := fun b hb ↦ List.mem_of_getLast? hb
  refine of_split (r := xs.getLast?) hn ?_ ?_
  · refine hs.congr (nodup_none_map (List.nodup_append.1 h.nodup).1) ?_ ?_
    · intro q hq hne
      have hqa : q ≠ some a := by
        rintro rfl
        exact hax (by simpa using hq)
      simp [Links.insert, hne, hqa]
    · intro b hb
      have hba : b ≠ a := fun he ↦ hax (he ▸ hb)
      have hby : some b ≠ ys.head? := fun he ↦ hdis b hb (List.mem_of_head? he.symm)
      simp [Links.insert, hba, hnext, hby]
  · have hla : xs.getLast? ≠ some a := fun he ↦ hax (hlast a he)
    have hrest : (l.insert xs.getLast? a).Linked (some a) ys := by
      cases ys with
      | nil =>
          refine ⟨some a, rfl, ?_⟩
          simp [Links.insert, hla.symm, hnext]
      | cons y ys =>
          obtain ⟨r, ⟨hlink, hprev, htail⟩, hr⟩ := hl
          have hya : y ≠ a := fun he ↦ hay (he ▸ List.mem_cons_self)
          have hyn : y ∉ ys := (List.nodup_cons.1 (List.nodup_append.1 h.nodup).2.1).1
          obtain ⟨r', htail', hr'⟩ : (l.insert xs.getLast? a).Linked (some y) ys := by
            refine Linked.congr ⟨r, htail, hr⟩ ?_ ?_
            · intro q hq
              rw [← List.map_cons] at hq
              obtain ⟨b, hb, rfl⟩ := List.mem_map.1 hq
              have hba : b ≠ a := fun he ↦ hay (he ▸ hb)
              have hbl : some b ≠ xs.getLast? := fun he ↦ hdis b (hlast b he.symm) hb
              simp [Links.insert, hba, hbl]
            · intro b hb
              have hba : b ≠ a := fun he ↦ hay (he ▸ List.mem_cons_of_mem _ hb)
              have hby : b ≠ y := fun he ↦ hyn (he ▸ hb)
              simp [Links.insert, hba, hlink, hby]
          refine ⟨r', ⟨?_, ?_, htail'⟩, hr'⟩
          · simp [Links.insert, hla.symm, hlink]
          · simp [Links.insert, hya, hlink]
    obtain ⟨r, hs', hr⟩ := hrest
    refine ⟨r, ⟨?_, ?_, hs'⟩, hr⟩
    · simp [Links.insert]
    · simp [Links.insert]

theorem insertHead (h : l.Holds xs) (ha : a ∉ xs) : (l.insertHead a).Holds (a :: xs) :=
  show (l.insert ([] : List _).getLast? a).Holds ([] ++ a :: xs) from insert h ha

theorem insertAfter (h : l.Holds (xs ++ b :: ys)) (ha : a ∉ xs ++ b :: ys) :
    (l.insertAfter b a).Holds (xs ++ b :: a :: ys) := by
  have hap : xs ++ b :: ys = (xs ++ [b]) ++ ys := by rw [List.append_assoc]; rfl
  rw [hap] at h ha
  have hins := h.insert ha
  rw [List.getLast?_concat, List.append_assoc] at hins
  exact hins

/-- Removing an element. -/
theorem remove (h : l.Holds (xs ++ a :: ys)) : (l.remove a).Holds (xs ++ ys) := by
  have hmid := List.nodup_cons.1 (List.nodup_middle.1 h.nodup)
  have hprev := h.prev_eq
  have hnext := h.next_eq
  obtain ⟨hs, hl⟩ := h.split
  obtain ⟨r, ⟨_, _, hys⟩, hr⟩ := hl
  have hax : a ∉ xs := fun hm ↦ hmid.1 (List.mem_append_left _ hm)
  have hdis : ∀ b ∈ xs, b ∉ ys := fun b hb hb' ↦
    (List.nodup_append.1 hmid.2).2.2 b hb b hb' rfl
  have hlast : ∀ b, xs.getLast? = some b → b ∈ xs := fun b hb ↦ List.mem_of_getLast? hb
  refine of_split (r := xs.getLast?) hmid.2 ?_ ?_
  · refine hs.congr (nodup_none_map (List.nodup_append.1 hmid.2).1) ?_ ?_
    · intro q _ hne
      simp [Links.remove, hprev, hne]
    · intro b hb
      have hby : some b ≠ ys.head? := fun he ↦ hdis b hb (List.mem_of_head? he.symm)
      simp [Links.remove, hnext, hby]
  · cases ys with
    | nil =>
        refine ⟨xs.getLast?, rfl, ?_⟩
        simp [Links.remove, hprev, hnext]
    | cons y ys =>
        have hyn : y ∉ ys := (List.nodup_cons.1 (List.nodup_append.1 hmid.2).2.1).1
        obtain ⟨r', htail', hr'⟩ : (l.remove a).Linked (some y) ys := by
          refine Linked.congr ⟨r, hys.2.2, hr⟩ ?_ ?_
          · intro q hq
            rw [← List.map_cons] at hq
            obtain ⟨b, hb, rfl⟩ := List.mem_map.1 hq
            have hbl : some b ≠ xs.getLast? := fun he ↦ hdis b (hlast b he.symm) hb
            simp [Links.remove, hprev, hbl]
          · intro b hb
            have hby : b ≠ y := fun he ↦ hyn (he ▸ hb)
            simp [Links.remove, hnext, hby]
        refine ⟨r', ⟨?_, ?_, htail'⟩, hr'⟩
        · simp [Links.remove, hprev, hnext]
        · simp [Links.remove, hprev, hnext]

end Holds

/-! ## Several lists in the same links

The head of a list may be an element as well, which is in no list: `LIST_INSERT_HEAD` is then
`insertAfter` of the head. -/

theorem linked_nil : l.Linked o [] ↔ l.link o = none :=
  ⟨fun h ↦ h.link_eq, fun h ↦ ⟨o, rfl, h⟩⟩

theorem linked_cons :
    l.Linked o (a :: xs) ↔ l.link o = some a ∧ l.prev a = o ∧ l.Linked (some a) xs := by
  constructor
  · rintro ⟨r, ⟨hlink, hprev, hs⟩, hr⟩
    exact ⟨hlink, hprev, r, hs, hr⟩
  · rintro ⟨hlink, hprev, r, hs, hr⟩
    exact ⟨r, ⟨hlink, hprev, hs⟩, hr⟩

namespace Linked

/-- The link of an element is in the list. -/
theorem prev_mem (h : l.Linked o (xs ++ a :: ys)) : l.prev a ∈ o :: xs.map some := by
  induction xs generalizing o with
  | nil => exact List.mem_cons.2 (.inl (linked_cons.1 h).2.1)
  | cons x xs ih => exact List.mem_cons_of_mem _ (ih (linked_cons.1 h).2.2)

/-- The element that follows. -/
theorem next_eq (h : l.Linked o (xs ++ a :: ys)) : l.next a = ys.head? := by
  induction xs generalizing o with
  | nil => exact (linked_cons.1 h).2.2.link_eq
  | cons x xs ih => exact ih (linked_cons.1 h).2.2

variable [DecidableEq α] {zs : List α}

/-- Inserting a new element after the head. -/
theorem insertAfter (h : l.Linked (some b) xs) (hn : (b :: xs).Nodup) (ha : a ∉ b :: xs) :
    (l.insertAfter b a).Linked (some b) (a :: xs) := by
  obtain ⟨hab, hax⟩ := not_or.1 (List.mem_cons.not.1 ha)
  obtain ⟨hbx, hn⟩ := List.nodup_cons.1 hn
  have hlink := h.link_eq
  refine linked_cons.2 ⟨by simp [Links.insertAfter, Links.insert],
    by simp [Links.insertAfter, Links.insert], ?_⟩
  cases xs with
  | nil => exact linked_nil.2 (by simp [Links.insertAfter, Links.insert, hab, hlink])
  | cons x xs =>
      obtain ⟨hxx, -, hrest⟩ := linked_cons.1 h
      have hxa : x ≠ a := fun he ↦ hax (he ▸ List.mem_cons_self)
      refine linked_cons.2 ⟨by simp [Links.insertAfter, Links.insert, hab, hxx],
        by simp [Links.insertAfter, Links.insert, hxa, hxx], hrest.congr ?_ ?_⟩
      · intro q hq
        rw [← List.map_cons] at hq
        obtain ⟨y, hy, rfl⟩ := List.mem_map.1 hq
        have hya : y ≠ a := fun he ↦ hax (he ▸ hy)
        have hyb : y ≠ b := fun he ↦ hbx (he ▸ hy)
        simp [Links.insertAfter, Links.insert, hya, hyb]
      · intro y hy
        have hya : y ≠ a := fun he ↦ hax (he ▸ List.mem_cons_of_mem _ hy)
        have hyx : y ≠ x := fun he ↦ (List.nodup_cons.1 hn).1 (he ▸ hy)
        simp [Links.insertAfter, Links.insert, hya, hxx, hyx]

/-- Inserting an element leaves the other lists alone. -/
theorem insertAfter_of_disjoint (h : l.Linked (some b) xs) (hz : l.Linked (some x) zs)
    (ha : a ∉ x :: zs) (hd : (b :: xs).Disjoint (x :: zs)) :
    (l.insertAfter b a).Linked (some x) zs := by
  have hlink := h.link_eq
  refine hz.congr ?_ ?_
  · intro q hq
    rw [← List.map_cons] at hq
    obtain ⟨y, hy, rfl⟩ := List.mem_map.1 hq
    have hya : y ≠ a := fun he ↦ ha (he ▸ hy)
    have hyb : y ≠ b := fun he ↦ hd List.mem_cons_self (he ▸ hy)
    simp [Links.insertAfter, Links.insert, hya, hyb]
  · intro y hy
    have hya : y ≠ a := fun he ↦ ha (he ▸ List.mem_cons_of_mem _ hy)
    have hyx : some y ≠ xs.head? := fun he ↦
      hd (List.mem_cons_of_mem _ (List.mem_of_head? he.symm)) (List.mem_cons_of_mem _ hy)
    simp [Links.insertAfter, Links.insert, hya, hlink, hyx]

/-- Removing an element. -/
theorem remove (h : l.Linked (some b) (xs ++ a :: ys)) (hn : (b :: (xs ++ a :: ys)).Nodup) :
    (l.remove a).Linked (some b) (xs ++ ys) := by
  induction xs generalizing b with
  | nil =>
      obtain ⟨hba, hpa, hys⟩ := linked_cons.1 h
      have hnext := hys.link_eq
      obtain ⟨hb, hn⟩ := List.nodup_cons.1 hn
      cases ys with
      | nil =>
          have hna : l.next a = none := hnext
          exact linked_nil.2 (by simp [Links.remove, hpa, hna])
      | cons y ys =>
          obtain ⟨hay, -, hrest⟩ := linked_cons.1 hys
          have hya : l.next a = some y := hay
          refine linked_cons.2 ⟨by simp [Links.remove, hpa, hya], by simp [Links.remove, hpa, hya],
            hrest.congr ?_ ?_⟩
          · intro q hq
            rw [← List.map_cons] at hq
            obtain ⟨z, hz, rfl⟩ := List.mem_map.1 hq
            have hzb : z ≠ b := fun he ↦ hb (he ▸ List.mem_cons_of_mem _ hz)
            simp [Links.remove, hpa, hzb]
          · intro z hz
            have hzy : z ≠ y := fun he ↦
              (List.nodup_cons.1 (List.nodup_cons.1 hn).2).1 (he ▸ hz)
            simp [Links.remove, hya, hzy]
  | cons x xs ih =>
      obtain ⟨hbx, hpx, hrest⟩ := linked_cons.1 h
      obtain ⟨hb, hn⟩ := List.nodup_cons.1 hn
      have hprev : l.prev a ≠ some b := by
        intro he
        have hm := hrest.prev_mem
        rw [he, ← List.map_cons] at hm
        obtain ⟨y, hy, he⟩ := List.mem_map.1 hm
        cases he
        exact hb (List.cons_append .. ▸ List.mem_append_left _ hy)
      have hnext : some x ≠ l.next a := by
        rw [hrest.next_eq]
        intro he
        exact (List.nodup_cons.1 hn).1
          (List.mem_append_right _ (List.mem_cons_of_mem _ (List.mem_of_head? he.symm)))
      exact linked_cons.2 ⟨by simp [Links.remove, hprev.symm, hbx],
        by simp [Links.remove, hnext, hpx], ih hrest hn⟩

/-- Removing an element leaves the other lists alone. -/
theorem remove_of_disjoint (h : l.Linked (some b) (xs ++ a :: ys)) (hz : l.Linked (some x) zs)
    (hd : (b :: (xs ++ a :: ys)).Disjoint (x :: zs)) : (l.remove a).Linked (some x) zs := by
  have hprev := h.prev_mem
  rw [← List.map_cons] at hprev
  obtain ⟨p, hp, hpa⟩ := List.mem_map.1 hprev
  refine hz.congr ?_ ?_
  · intro q hq
    rw [← List.map_cons] at hq
    obtain ⟨y, hy, rfl⟩ := List.mem_map.1 hq
    have hyp : y ≠ p := by
      rintro rfl
      exact hd (List.cons_append .. ▸ List.mem_append_left _ hp) hy
    simp [Links.remove, ← hpa, hyp]
  · intro y hy
    have hyx : some y ≠ l.next a := by
      rw [h.next_eq]
      intro he
      exact hd (List.mem_cons_of_mem _ (List.mem_append_right _ (List.mem_cons_of_mem _
        (List.mem_of_head? he.symm)))) (List.mem_cons_of_mem _ hy)
    simp [Links.remove, hyx]

end Linked

end Links

end Mh.Lib
