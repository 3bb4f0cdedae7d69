import Mathlib.Data.List.Nodup
import Mathlib.Logic.Function.Basic
import Mathlib.Tactic.Common

/-!
# Singly linked tail queues

A queue linked through its elements: `first`, the `next` of every element, and where the
next element will be hooked: at the `next` of `last`, or at `first` when `last` is `none`.

`q.Holds xs` says that the links lead from `first` through `xs` to the end, and that the
hook is the end of `xs`.  A queue that holds a list holds it without repetition
(`Holds.nodup`): the links of an element that came twice would never end.  Inserting an
element that is not on the queue appends it (`Holds.insertTail`), and removing the head
takes the first element off (`Holds.removeHead`).  The operations test nothing, as their
originals do not, and inserting an element that is already there breaks the queue.
-/

universe u

namespace Mh.Lib

/-- The links of a tail queue. -/
structure Simpleq (α : Type u) where
  first : Option α
  last : Option α
  next : α → Option α

namespace Simpleq

variable {α : Type u} {q r : Simpleq α} {o : Option α} {a b : α} {xs ys : List α}

/-- `SIMPLEQ_HEAD_INITIALIZER`. -/
def empty : Simpleq α := ⟨none, none, fun _ ↦ none⟩

section Update

variable [DecidableEq α]

/-- `SIMPLEQ_INSERT_TAIL`. -/
def insertTail (q : Simpleq α) (a : α) : Simpleq α :=
  let next := Function.update q.next a none
  match q.last with
  | none => ⟨some a, some a, next⟩
  | some b => ⟨q.first, some a, Function.update next b (some a)⟩

end Update

/-- `SIMPLEQ_REMOVE_HEAD`, of a queue that has a head. -/
def removeHead (q : Simpleq α) : Simpleq α :=
  match q.first.bind q.next with
  | none => { q with first := none, last := none }
  | some b => { q with first := some b }

/-- The links lead from `o` through `xs` to the end. -/
def Leads (q : Simpleq α) : Option α → List α → Prop
  | o, [] => o = none
  | o, a :: xs => o = some a ∧ q.Leads (q.next a) xs

/-- The queue is `xs`. -/
structure Holds (q : Simpleq α) (xs : List α) : Prop where
  leads : q.Leads q.first xs
  last : q.last = xs.getLast?

/-! ## Following the links -/

/-- The links lead through one list only. -/
theorem Leads.unique (h : q.Leads o xs) (h' : q.Leads o ys) : xs = ys := by
  induction xs generalizing o ys with
  | nil =>
      cases ys with
      | nil => rfl
      | cons b ys => exact absurd (h.symm.trans h'.1) (by simp)
  | cons a xs ih =>
      cases ys with
      | nil => exact absurd (h'.symm.trans h.1) (by simp)
      | cons b ys =>
          obtain rfl : a = b := Option.some.inj (h.1.symm.trans h'.1)
          rw [ih h.2 h'.2]

/-- From an element on, the links lead through the rest. -/
theorem Leads.suffix (h : q.Leads o (xs ++ a :: ys)) : q.Leads (some a) (a :: ys) := by
  induction xs generalizing o with
  | nil =>
      obtain ⟨_, h⟩ := h
      exact ⟨rfl, h⟩
  | cons b xs ih => exact ih h.2

/-- No element comes twice. -/
theorem Leads.nodup (h : q.Leads o xs) : xs.Nodup := by
  induction xs generalizing o with
  | nil => exact List.nodup_nil
  | cons a xs ih =>
      refine List.nodup_cons.2 ⟨fun ha ↦ ?_, ih h.2⟩
      obtain ⟨ys, zs, rfl⟩ := List.append_of_mem ha
      have hrest := h.2.suffix.2.unique h.2
      have hlen := congrArg List.length hrest
      simp only [List.length_append, List.length_cons] at hlen
      omega

/-- The links of the elements of `xs` are all that counts. -/
theorem Leads.congr (h : q.Leads o xs) (hn : ∀ x ∈ xs, r.next x = q.next x) : r.Leads o xs := by
  induction xs generalizing o with
  | nil => exact h
  | cons a xs ih =>
      refine ⟨h.1, ?_⟩
      rw [hn a List.mem_cons_self]
      exact ih h.2 fun x hx ↦ hn x (List.mem_cons_of_mem _ hx)

/-- Hooking `a` at the end of a list that it is not on. -/
theorem Leads.hook {next : α → Option α} (hx : q.Leads o xs) (hb : xs.getLast? = some b)
    (ha : a ∉ xs) (hn : ∀ x ∈ xs, x ≠ b → next x = q.next x) (hnb : next b = some a)
    (hna : next a = none) : (⟨q.first, some a, next⟩ : Simpleq α).Leads o (xs ++ [a]) := by
  induction xs generalizing o with
  | nil => cases hb
  | cons x xs ih =>
      refine ⟨hx.1, ?_⟩
      cases xs with
      | nil =>
          obtain rfl : x = b := Option.some.inj hb
          exact ⟨hnb, hna⟩
      | cons y ys =>
          rw [List.getLast?_cons_cons] at hb
          have hxb : x ≠ b := by
            rintro rfl
            exact (List.nodup_cons.1 hx.nodup).1 (List.mem_of_getLast? hb)
          have hnx : next x = q.next x := hn x List.mem_cons_self hxb
          show Leads _ (next x) _
          rw [hnx]
          exact ih hx.2 hb (fun hm ↦ ha (List.mem_cons_of_mem _ hm))
            fun z hz ↦ hn z (List.mem_cons_of_mem _ hz)

/-! ## Queues that hold a list -/

namespace Holds

theorem empty : (empty : Simpleq α).Holds [] := ⟨rfl, rfl⟩

theorem nodup (h : q.Holds xs) : xs.Nodup := h.leads.nodup

/-- The first element. -/
theorem first_eq (h : q.Holds xs) : q.first = xs.head? := by
  cases xs with
  | nil => exact h.leads
  | cons a xs => exact h.leads.1

section Update

variable [DecidableEq α]

/-- Inserting an element that is not on the queue appends it. -/
theorem insertTail (h : q.Holds xs) (ha : a ∉ xs) : (q.insertTail a).Holds (xs ++ [a]) := by
  unfold Simpleq.insertTail
  cases hl : q.last with
  | none =>
      obtain rfl : xs = [] := List.getLast?_eq_none_iff.1 (h.last.symm.trans hl)
      exact ⟨⟨rfl, Function.update_self ..⟩, rfl⟩
  | some b =>
      have hb : xs.getLast? = some b := h.last.symm.trans hl
      have hba : a ≠ b := by
        rintro rfl
        exact ha (List.mem_of_getLast? hb)
      refine ⟨h.leads.hook hb ha ?_ (Function.update_self ..) ?_, ?_⟩
      · intro x hx hxb
        have hxa : x ≠ a := fun he ↦ ha (he ▸ hx)
        rw [Function.update_of_ne hxb, Function.update_of_ne hxa]
      · rw [Function.update_of_ne hba, Function.update_self]
      · exact (List.getLast?_concat ..).symm

end Update

/-- Removing the head takes the first element off. -/
theorem removeHead (h : q.Holds (a :: xs)) : q.removeHead.Holds xs := by
  unfold Simpleq.removeHead
  rw [h.first_eq, List.head?_cons, Option.bind_some]
  cases hn : q.next a with
  | none =>
      have hx : q.Leads none xs := hn ▸ h.leads.2
      obtain rfl : xs = [] := by
        cases xs with
        | nil => rfl
        | cons b xs => cases hx.1
      exact ⟨rfl, rfl⟩
  | some b =>
      have hx : q.Leads (some b) xs := hn ▸ h.leads.2
      cases xs with
      | nil => cases hx
      | cons c xs =>
          refine ⟨hx.congr fun _ _ ↦ rfl, ?_⟩
          rw [← List.getLast?_cons_cons (a := a)]
          exact h.last

end Holds

/-! ## What is linked -/

/-- The elements that are linked satisfy `P`, whether or not the links are in order. -/
structure All (P : α → Prop) (q : Simpleq α) : Prop where
  first : ∀ a, q.first = some a → P a
  next : ∀ b a, q.next b = some a → P a

namespace All

variable {P P' : α → Prop}

theorem empty : (empty : Simpleq α).All P := ⟨nofun, nofun⟩

theorem mono (h : q.All P) (hP : ∀ a, P a → P' a) : q.All P' :=
  ⟨fun a ha ↦ hP a (h.first a ha), fun b a ha ↦ hP a (h.next b a ha)⟩

theorem insertTail [DecidableEq α] (h : q.All P) (ha : P a) : (q.insertTail a).All P := by
  have hn : ∀ b c, Function.update q.next a none b = some c → P c := by
    intro b c hc
    by_cases hb : b = a
    · rw [hb, Function.update_self] at hc
      cases hc
    · rw [Function.update_of_ne hb] at hc
      exact h.next b c hc
  unfold Simpleq.insertTail
  cases q.last with
  | none => exact ⟨fun c hc ↦ Option.some.inj hc ▸ ha, hn⟩
  | some l =>
      refine ⟨h.first, fun b c hc ↦ ?_⟩
      change Function.update (Function.update q.next a none) l (some a) b = some c at hc
      by_cases hb : b = l
      · rw [hb, Function.update_self] at hc
        exact Option.some.inj hc ▸ ha
      · rw [Function.update_of_ne hb] at hc
        exact hn b c hc

theorem removeHead (h : q.All P) : q.removeHead.All P := by
  unfold Simpleq.removeHead
  cases hb : q.first.bind q.next with
  | none => exact ⟨nofun, h.next⟩
  | some b =>
      obtain ⟨a, -, hn⟩ := Option.bind_eq_some_iff.1 hb
      exact ⟨fun c hc ↦ Option.some.inj hc ▸ h.next a b hn, h.next⟩

end All

end Simpleq

end Mh.Lib
