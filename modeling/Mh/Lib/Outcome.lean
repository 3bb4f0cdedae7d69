import Mathlib.Data.List.Basic
import Mathlib.Tactic.Common
import Mh.Lib.Run

/-!
# Outcomes of computations that may fail

`Ends P E x` says how the computation `x` ends: with a value that satisfies `P`, or with an
error that satisfies `E`.  With `E` the errors that are not the one in question, it says in
one statement that `x` keeps an invariant and that this error does not come up; the rules
below follow the computation, through binds and loops.  Of a number of calls one may be the first
that fails (`first_fail`).
-/

universe u v

namespace Mh.Lib

/-- Of `m` calls every one succeeds, or one is the first that fails. -/
theorem first_fail (p : Nat → Prop) (m : Nat) :
    (∀ j < m, p j) ∨ ∃ j < m, (∀ i < j, p i) ∧ ¬ p j := by
  induction m with
  | zero => exact .inl fun j hj ↦ absurd hj (Nat.not_lt_zero j)
  | succ m ih =>
      rcases ih with hall | ⟨j, hj, hfirst⟩
      · by_cases hm : p m
        · refine .inl fun j hj ↦ ?_
          rcases Nat.lt_succ_iff_lt_or_eq.1 hj with hlt | rfl
          · exact hall j hlt
          · exact hm
        · exact .inr ⟨m, Nat.lt_succ_self m, hall, hm⟩
      · exact .inr ⟨j, Nat.lt_succ_of_lt hj, hfirst⟩

variable {ε : Type u} {α β : Type v}

/-- The computation ends with a value that satisfies `P` or an error that satisfies `E`. -/
def Ends (P : α → Prop) (E : ε → Prop) : Except ε α → Prop
  | .ok a => P a
  | .error e => E e

namespace Ends

variable {P : α → Prop} {Q : β → Prop} {E : ε → Prop} {x : Except ε α} {f : α → Except ε β}

/-- The value satisfies `P`. -/
theorem of_ok {a : α} (h : Ends P E x) (hx : x = .ok a) : P a := by
  subst hx
  exact h

/-- The error satisfies `E`. -/
theorem of_error {e : ε} (h : Ends P E x) (hx : x = .error e) : E e := by
  subst hx
  exact h

/-- The value is the one that the computation ends with. -/
theorem self (h : ∀ e, x = .error e → E e) : Ends (fun a ↦ x = .ok a) E x := by
  cases x with
  | error e => exact h e rfl
  | ok a => exact rfl

/-- A weaker statement. -/
theorem mono {P' : α → Prop} (h : Ends P E x) (hP : ∀ a, P a → P' a) : Ends P' E x := by
  cases x with
  | error e => exact h
  | ok a => exact hP a h

/-- A weaker statement about the errors. -/
theorem imp_error {E' : ε → Prop} (h : Ends P E x) (hE : ∀ e, E e → E' e) : Ends P E' x := by
  cases x with
  | error e => exact hE e h
  | ok a => exact h

/-- One computation after another. -/
theorem bind (h : Ends P E x) (hf : ∀ a, P a → Ends Q E (f a)) : Ends Q E (x >>= f) := by
  cases x with
  | error e => exact h
  | ok a => exact hf a h

/-- The value of a computation is passed on. -/
theorem map {g : α → β} (h : Ends P E x) (hg : ∀ a, P a → Q (g a)) :
    Ends Q E (do return g (← x)) :=
  h.bind hg

/-- The other way round: what is passed on satisfies `Q`. -/
theorem of_map {g : α → β} (h : Ends Q E (x.map g)) : Ends (fun a ↦ Q (g a)) E x := by
  cases x with
  | error e => exact h
  | ok a => exact h

/-- The rule for loops: an invariant that every iteration keeps. -/
theorem foldlM {S A : Type v} {I : S → Prop} {f : S → A → Except ε S} {l : List A} {s : S}
    (hstep : ∀ s, ∀ a ∈ l, I s → Ends I E (f s a)) (hs : I s) : Ends I E (l.foldlM f s) := by
  induction l generalizing s with
  | nil => exact hs
  | cons a l ih =>
      rw [List.foldlM_cons]
      exact (hstep s a List.mem_cons_self hs).bind fun s₁ h₁ ↦
        ih (fun s b hb ↦ hstep s b (List.mem_cons_of_mem a hb)) h₁

end Ends

end Mh.Lib

/-!
## Two computations side by side

`Both R x y` says of two computations that may fail that their values are related by `R`
when both have one.  It is the notion for two-run properties: what the two runs have in
common is kept by `R`, and a run that stops has nothing to answer for.  The rules follow the
computations, through binds and loops, as those of `Ends` do for a single one.
-/

namespace Mh.Lib

variable {ε ε' : Type u} {α β γ δ : Type v}

/-- When both computations have a value, the values are related. -/
def Both (R : α → β → Prop) (x : Except ε α) (y : Except ε' β) : Prop :=
  ∀ a b, x = .ok a → y = .ok b → R a b

namespace Both

variable {R : α → β → Prop} {S : γ → δ → Prop} {x : Except ε α} {y : Except ε' β}

/-- Two values. -/
theorem ok {a : α} {b : β} (h : R a b) :
    Both R (.ok a : Except ε α) (.ok b : Except ε' β) := by
  rintro a' b' ha hb
  cases ha
  cases hb
  exact h

/-- The first computation fails. -/
theorem error (e : ε) : Both R (.error e : Except ε α) y := by
  rintro a b ha
  cases ha

/-- A weaker relation. -/
theorem mono {R' : α → β → Prop} (h : Both R x y) (hR : ∀ a b, R a b → R' a b) : Both R' x y :=
  fun a b ha hb ↦ hR a b (h a b ha hb)

/-- One computation after another. -/
theorem bind {f : α → Except ε γ} {g : β → Except ε' δ} (h : Both R x y)
    (hf : ∀ a b, R a b → Both S (f a) (g b)) : Both S (x >>= f) (y >>= g) := by
  intro c d hc hd
  obtain ⟨a, ha, hc⟩ := bind_eq_ok.1 hc
  obtain ⟨b, hb, hd⟩ := bind_eq_ok.1 hd
  exact hf a b (h a b ha hb) c d hc hd

/-- The values of the computations are passed on. -/
theorem map {f : α → γ} {g : β → δ} (h : Both R x y) (hf : ∀ a b, R a b → S (f a) (g b)) :
    Both S (do return f (← x)) (do return g (← y)) :=
  h.bind fun a b hab ↦ ok (hf a b hab)

/-- The second computation is the first one, with its value passed on. -/
theorem of_map {f : α → β} {z : Except ε β} (hz : z = x.map f)
    (h : ∀ a, x = .ok a → R a (f a)) :
    Both R x z := by
  rintro a b rfl hb
  subst hz
  cases hb
  exact h a rfl

/-- The rule for loops: a relation that the two iterations keep. -/
theorem foldlM {A : Type v} {f : α → A → Except ε α} {g : β → A → Except ε' β} {l : List A}
    {a : α} {b : β} (hstep : ∀ a b, ∀ c ∈ l, R a b → Both R (f a c) (g b c)) (hR : R a b) :
    Both R (l.foldlM f a) (l.foldlM g b) := by
  induction l generalizing a b with
  | nil => exact ok hR
  | cons c l ih =>
      rw [List.foldlM_cons, List.foldlM_cons]
      exact (hstep a b c List.mem_cons_self hR).bind fun a' b' h' ↦
        ih (fun a b d hd ↦ hstep a b d (List.mem_cons_of_mem c hd)) h'

end Both

/-- Both computations have values, which are related, or both fail with one error. -/
inductive Alike (R : α → β → Prop) : Except ε α → Except ε β → Prop
  | /-- Two values. -/
    ok {a : α} {b : β} : R a b → Alike R (.ok a) (.ok b)
  | /-- An error. -/
    error (e : ε) : Alike R (.error e) (.error e)

/-- One computation after another. -/
theorem Alike.bind {R : α → β → Prop} {S : γ → δ → Prop} {x : Except ε α} {y : Except ε β}
    {f : α → Except ε γ} {g : β → Except ε δ} (h : Alike R x y)
    (hf : ∀ a b, R a b → Alike S (f a) (g b)) : Alike S (x >>= f) (y >>= g) := by
  cases h with
  | ok hab => exact hf _ _ hab
  | error e => exact .error e

/-- What calls return, one after the other, up to the first that fails. -/
def returns {σ A ρ : Type v} (call : σ → A → Except ε (σ × ρ)) : σ → List A → List (Except ε ρ)
  | _, [] => []
  | s, a :: as =>
    match call s a with
    | .error e => [.error e]
    | .ok (s, r) => .ok r :: returns call s as

/-- Two systems that go in step return the same. -/
theorem returns_eq {σ τ A ρ : Type v} {R : σ → τ → Prop} {call : σ → A → Except ε (σ × ρ)}
    {call' : τ → A → Except ε (τ × ρ)}
    (hcall : ∀ s t a, R s t → Alike (fun x y ↦ R x.1 y.1 ∧ x.2 = y.2) (call s a) (call' t a))
    {s : σ} {t : τ} (h : R s t) (as : List A) : returns call s as = returns call' t as := by
  induction as generalizing s t with
  | nil => rfl
  | cons a as ih =>
    have hstep := hcall s t a h
    rw [returns, returns]
    cases hs : call s a with
    | error e =>
      cases ht : call' t a with
      | error e' =>
        rw [hs, ht] at hstep
        cases hstep
        rfl
      | ok y =>
        rw [hs, ht] at hstep
        cases hstep
    | ok x =>
      cases ht : call' t a with
      | error e' =>
        rw [hs, ht] at hstep
        cases hstep
      | ok y =>
        rw [hs, ht] at hstep
        cases hstep with
        | ok hxy => exact congrArg₂ List.cons (congrArg Except.ok hxy.2) (ih hxy.1)

end Mh.Lib
