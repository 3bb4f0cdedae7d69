import Mathlib.Data.Set.Insert
import Mathlib.Data.List.Nodup
import Mathlib.Tactic.Common

/-!
# Programs that take and release locks

`Code L α` is the control flow of a program that takes and releases locks of `L`, reads values
that depend on a state that is left open, and returns an `α` or stops.  `Code.Ends` holds of the
locks at which the program starts when, whatever it reads, it releases only what it holds and
every path on which it returns ends as asked; a path on which it takes a lock that it holds does
not return.

`Frees ls` is the judgement that the programs here are checked by: a program that holds the locks
`ls`, besides others, has released exactly these when it returns.  `Balanced` is the case of no
locks: every lock is as it was.  The rules follow the program; a call of a balanced program is one
step.
-/

universe u v

namespace Mh.Lib

/-- The control flow of a program: return; stop, as a failed assertion does; take a lock; release
one; read a value. -/
inductive Code (L : Type u) (α : Type v) : Type (max u v)
  | ret (a : α)
  | stop
  | lock (l : L) (k : Code L α)
  | unlock (l : L) (k : Code L α)
  | read (k : Nat → Code L α)

namespace Code

variable {L : Type u} {α β : Type v}

/-- One program after another. -/
def bind : Code L α → (α → Code L β) → Code L β
  | ret a, f => f a
  | stop, _ => stop
  | lock l k, f => lock l (k.bind f)
  | unlock l k, f => unlock l (k.bind f)
  | read k, f => read fun v ↦ (k v).bind f

instance : Monad (Code L) where
  pure := ret
  bind := bind

/-- On every path on which the program returns, `Q` holds of what it returns and of the locks that
are held then; and it releases no lock that is not held. -/
def Ends : Code L α → Set L → (α → Set L → Prop) → Prop
  | ret a, h, Q => Q a h
  | stop, _, _ => True
  | lock l k, h, Q => l ∉ h → k.Ends (insert l h) Q
  | unlock l k, h, Q => l ∈ h ∧ k.Ends (h \ {l}) Q
  | read k, h, Q => ∀ v, (k v).Ends h Q

theorem Ends.mono {p : Code L α} {h : Set L} {Q R : α → Set L → Prop} (hp : p.Ends h Q)
    (hQ : ∀ a h, Q a h → R a h) : p.Ends h R := by
  induction p generalizing h with
  | ret a => exact hQ a h hp
  | stop => trivial
  | lock l k ih => exact fun hl ↦ ih (hp hl)
  | unlock l k ih => exact ⟨hp.1, ih hp.2⟩
  | read k ih => exact fun v ↦ ih v (hp v)

/-- The rule of sequences. -/
theorem ends_bind {p : Code L α} {f : α → Code L β} {h : Set L} {Q : β → Set L → Prop} :
    (p >>= f).Ends h Q ↔ p.Ends h fun a h' ↦ (f a).Ends h' Q := by
  induction p generalizing h with
  | ret a => exact Iff.rfl
  | stop => exact Iff.rfl
  | lock l k ih => exact imp_congr_right fun _ ↦ ih
  | unlock l k ih => exact and_congr_right fun _ ↦ ih
  | read k ih => exact forall_congr' fun v ↦ ih v

end Code

theorem Code.bind_assoc {L : Type u} {α β γ : Type v} (p : Code L α) (f : α → Code L β)
    (g : β → Code L γ) : p >>= f >>= g = p >>= fun a ↦ f a >>= g := by
  induction p with
  | ret a => rfl
  | stop => rfl
  | lock l k ih => exact congrArg (Code.lock l) ih
  | unlock l k ih => exact congrArg (Code.unlock l) ih
  | read k ih => exact congrArg Code.read (funext ih)

/-! ## Steps of a program -/

section Steps

variable {L : Type u} {α β : Type}

/-- Take a lock. -/
def take (l : L) : Code L Unit := .lock l (.ret ())

/-- Release a lock. -/
def release (l : L) : Code L Unit := .unlock l (.ret ())

/-- A number that depends on the state. -/
def value : Code L Nat := .read .ret

/-- A condition that depends on the state. -/
def flag : Code L Bool := .read fun v ↦ .ret (v != 0)

/-- Stop unless a condition holds. -/
def check (c : Prop) [Decidable c] : Code L Unit := if c then .ret () else .stop

/-- A program that a condition of the state decides about. -/
def optional (p : Code L Unit) : Code L Unit := do
  if ← flag then p else return

/-- The same program several times. -/
def times : Nat → Code L Unit → Code L Unit
  | 0, _ => .ret ()
  | n + 1, p => do
      p
      times n p

/-- The same program until it says so, at most so many times. -/
def repeatUntil : Nat → Code L Bool → Code L Unit
  | 0, _ => .ret ()
  | n + 1, p => do
      if ← p then return else repeatUntil n p

section Ends

variable {l : L} {h : Set L} {k : Unit → Code L β} {Q : β → Set L → Prop}

@[simp] theorem ends_pure {b : β} : (pure b : Code L β).Ends h Q ↔ Q b h := Iff.rfl

@[simp] theorem ends_take :
    (take l >>= k).Ends h Q ↔ l ∉ h → (k ()).Ends (insert l h) Q := Iff.rfl

@[simp] theorem ends_release :
    (release l >>= k).Ends h Q ↔ l ∈ h ∧ (k ()).Ends (h \ {l}) Q := Iff.rfl

@[simp] theorem ends_flag {f : Bool → Code L β} :
    (flag >>= f).Ends h Q ↔ ∀ b, (f b).Ends h Q := by
  constructor
  · intro hf b
    cases b with
    | false => exact hf 0
    | true => exact hf 1
  · exact fun hf v ↦ hf (v != 0)

@[simp] theorem ends_check {c : Prop} [Decidable c] :
    (check c >>= k).Ends h Q ↔ c → (k ()).Ends h Q := by
  by_cases hc : c
  · simp only [check, hc, if_true, true_implies]
    rfl
  · simp only [check, hc, if_false, false_implies, iff_true]
    trivial

end Ends

/-! ## Releasing what is held -/

/-- A program that holds the locks `ls`, and others, returns with the others. -/
def Frees (ls : List L) (p : Code L α) : Prop :=
  ls.Nodup → ∀ h : Set L, (∀ l ∈ ls, l ∉ h) → p.Ends (h ∪ {l | l ∈ ls}) fun _ h' ↦ h' = h

/-- A program that returns with the locks that it was called with. -/
def Balanced (p : Code L α) : Prop := Frees [] p

variable {ls : List L} {l : L} {p q : Code L α} {f : α → Code L β} {k : Unit → Code L β}

theorem balanced_iff : Balanced p ↔ ∀ h : Set L, p.Ends h fun _ h' ↦ h' = h := by
  have hs : ∀ h : Set L, h ∪ {l | l ∈ ([] : List L)} = h := fun h ↦ by simp
  constructor
  · intro hp h
    have := hp .nil h fun l hl ↦ absurd hl List.not_mem_nil
    rwa [hs] at this
  · intro hp _ h _
    rw [hs]
    exact hp h

namespace Frees

theorem pure (a : α) : Frees (L := L) [] (Pure.pure a : Code L α) := balanced_iff.2 fun _ ↦ rfl

theorem stop : Frees ls (.stop : Code L α) := fun _ _ _ ↦ trivial

theorem take (h : Frees (l :: ls) (k ())) : Frees ls (take l >>= k) := by
  intro hnd h₀ hls hl
  have hin : l ∉ ls := fun hm ↦ hl (.inr hm)
  have hnot : l ∉ h₀ := fun hm ↦ hl (.inl hm)
  have hk := h (List.nodup_cons.2 ⟨hin, hnd⟩) h₀ fun l' hl' ↦ by
    rcases List.mem_cons.1 hl' with rfl | hl'
    · exact hnot
    · exact hls l' hl'
  have hset : insert l (h₀ ∪ {l | l ∈ ls}) = h₀ ∪ {l' | l' ∈ l :: ls} := by
    ext x
    simp only [Set.mem_insert_iff, Set.mem_union, Set.mem_ofPred_eq, List.mem_cons]
    tauto
  rw [hset]
  exact hk

theorem release (h : Frees ls (k ())) : Frees (l :: ls) (release l >>= k) := by
  intro hnd h₀ hls
  obtain ⟨hin, hnd⟩ := List.nodup_cons.1 hnd
  refine ⟨.inr List.mem_cons_self, ?_⟩
  have hset : (h₀ ∪ {l' | l' ∈ l :: ls}) \ {l} = h₀ ∪ {l | l ∈ ls} := by
    ext x
    have hx₀ : x = l → x ∉ h₀ := fun hx ↦ hx ▸ hls l List.mem_cons_self
    have hx₁ : x = l → x ∉ ls := fun hx ↦ hx ▸ hin
    simp only [Set.mem_sdiff, Set.mem_union, Set.mem_ofPred_eq, List.mem_cons,
      Set.mem_singleton_iff]
    tauto
  rw [hset]
  exact h hnd h₀ fun l' hl' ↦ hls l' (List.mem_cons_of_mem _ hl')

/-- A release at the end. -/
theorem last : Frees [l] (Mh.Lib.release l) := release (k := .ret) (pure ())

theorem value {f : Nat → Code L β} (h : ∀ v, Frees ls (f v)) : Frees ls (value >>= f) :=
  fun hnd h₀ hls v ↦ h v hnd h₀ hls

theorem flag {f : Bool → Code L β} (h : ∀ b, Frees ls (f b)) : Frees ls (flag >>= f) :=
  fun hnd h₀ hls v ↦ h (v != 0) hnd h₀ hls

theorem check {c : Prop} [Decidable c] (h : c → Frees ls (k ())) :
    Frees ls (check c >>= k) := by
  rw [Mh.Lib.check]
  split
  · next hc => exact h hc
  · exact stop

theorem ite {c : Prop} [Decidable c] (hp : Frees ls p) (hq : Frees ls q) :
    Frees ls (if c then p else q) := by
  split
  · exact hp
  · exact hq

/-- A call. -/
theorem call (hp : Balanced p) (h : ∀ a, Frees ls (f a)) : Frees ls (p >>= f) :=
  fun hnd h₀ hls ↦ Code.ends_bind.2 <| (balanced_iff.1 hp _).mono fun a _ hh ↦ hh ▸ h a hnd h₀ hls

end Frees

namespace Balanced

theorem optional {c : Code L Unit} (hc : Balanced c) : Balanced (optional c) :=
  .flag fun _ ↦ .ite hc (Frees.pure ())

theorem times {c : Code L Unit} (hc : Balanced c) (n : Nat) : Balanced (times n c) := by
  induction n with
  | zero => exact Frees.pure ()
  | succ n ih => exact .call hc fun _ ↦ ih

theorem repeatUntil {c : Code L Bool} (hc : Balanced c) (n : Nat) : Balanced (repeatUntil n c) := by
  induction n with
  | zero => exact Frees.pure ()
  | succ n ih => exact .call hc fun _ ↦ .ite (Frees.pure ()) ih

end Balanced

end Steps

end Mh.Lib
