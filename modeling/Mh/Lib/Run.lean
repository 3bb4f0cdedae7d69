import Mathlib.Data.List.Basic
import Mathlib.Tactic.Common

/-!
# Runs of a labelled transition system

A system is given by a step relation `step : S → A → S → Prop`: from a state,
under a label, to a state.  A function that may fail, `f : S → A → Except ε S`,
is the relation `fun s a s' ↦ f s a = .ok s'`; a run "all of whose steps meet a
condition" is a run of the conjunction of the two, and `Run.forall_prefix_iff`
says when such a condition is exact.

`Run step s as s'` is the run that performs the labels `as` in order.  Two rules
are all the developments above need: an invariant that every step preserves
holds at the end of every run (`Run.invariant`), and a relation that every step
preserves gives a matching run of the other system (`Run.simulate`).

The last section is the corresponding rule for a loop of a function that may
fail, written as `List.foldlM` in `Except`.
-/

universe u v w

namespace Mh.Lib

/-- `Run step s as s'`: performing the labels `as` in order leads from `s` to
`s'`. -/
inductive Run {S : Type u} {A : Type v} (step : S → A → S → Prop) : S → List A → S → Prop
  | /-- The empty run stays where it is. -/
    nil (s : S) : Run step s [] s
  | /-- One more step at the front. -/
    cons {s t r : S} {a : A} {as : List A} : step s a t → Run step t as r →
      Run step s (a :: as) r

namespace Run

variable {S : Type u} {A : Type v} {step : S → A → S → Prop} {s t r : S} {a : A}
  {as bs : List A}

/-- Runs compose. -/
theorem append (h : Run step s as t) (h' : Run step t bs r) : Run step s (as ++ bs) r := by
  induction h with
  | nil _ => exact h'
  | cons hs _ ih => exact .cons hs (ih h')

/-- A run of two lists of labels passes through a state between them. -/
theorem split (h : Run step s (as ++ bs) r) : ∃ t, Run step s as t ∧ Run step t bs r := by
  induction as generalizing s with
  | nil => exact ⟨s, .nil s, h⟩
  | cons a as ih =>
      cases h with
      | cons h₁ h₂ =>
          obtain ⟨t, ht, hr⟩ := ih h₂
          exact ⟨t, .cons h₁ ht, hr⟩

/-- One more step at the end. -/
theorem snoc (h : Run step s as t) (h' : step t a r) : Run step s (as ++ [a]) r :=
  h.append (.cons h' (.nil r))

/-- A run of a stronger step relation is a run of a weaker one. -/
theorem mono {step' : S → A → S → Prop} (hle : ∀ s a t, step s a t → step' s a t)
    (h : Run step s as t) : Run step' s as t := by
  induction h with
  | nil s => exact .nil s
  | cons hs _ ih => exact .cons (hle _ _ _ hs) ih

/-- What every step preserves holds at the end of every run. -/
theorem invariant {I : S → Prop} (hstep : ∀ s a t, I s → step s a t → I t)
    (h : Run step s as t) (hs : I s) : I t := by
  induction h with
  | nil _ => exact hs
  | cons h₁ _ ih => exact ih (hstep _ _ _ hs h₁)

/-- Forward simulation: a relation that every step preserves gives, for every
run, a run of the other system with the same labels. -/
theorem simulate {T : Type w} {step' : T → A → T → Prop} {R : S → T → Prop}
    (hsim : ∀ s a s' t, R s t → step s a s' → ∃ t', step' t a t' ∧ R s' t')
    (h : Run step s as r) {t : T} (hR : R s t) : ∃ t', Run step' t as t' ∧ R r t' := by
  induction h generalizing t with
  | nil _ => exact ⟨t, .nil t, hR⟩
  | cons h₁ _ ih =>
      obtain ⟨t₁, hs, hR₁⟩ := hsim _ _ _ _ hR h₁
      obtain ⟨t₂, hr, hR₂⟩ := ih hR₁
      exact ⟨t₂, .cons hs hr, hR₂⟩

/-! ## Runs that meet a condition -/

/-- The system is deterministic: the state and the label give the next state. -/
def Deterministic (step : S → A → S → Prop) : Prop :=
  ∀ ⦃s a t t'⦄, step s a t → step s a t' → t = t'

/-- `P` holds in every state that a run passes, just when all the steps of the run meet the
condition `C`: it holds where the steps before have met it, and a step that does not meet it
leads out of `P`.  The invariant `I` is what the steps that meet it preserve. -/
theorem forall_prefix_iff {I P : S → Prop} {C : S → A → Prop} (hdet : Deterministic step)
    (hI : ∀ s a t, I s → step s a t → C s a → I t) (hP : ∀ s, I s → P s)
    (hC : ∀ s a t, I s → step s a t → P t → C s a) (h : Run step s as r) (hs : I s) :
    (∀ bs t, bs <+: as → Run step s bs t → P t) ↔
      Run (fun s a t ↦ step s a t ∧ C s a) s as r := by
  constructor
  · intro hall
    induction h with
    | nil s => exact .nil s
    | @cons s u r a as h₁ h₂ ih =>
        have hc : C s a := by
          refine hC s a u hs h₁ (hall [a] u ?_ (.cons h₁ (.nil u)))
          exact List.cons_prefix_cons.2 ⟨rfl, List.nil_prefix⟩
        refine .cons ⟨h₁, hc⟩ (ih (hI s a u hs h₁ hc) fun bs t hbs ht ↦ ?_)
        exact hall (a :: bs) t (List.cons_prefix_cons.2 ⟨rfl, hbs⟩) (.cons h₁ ht)
  · intro hrun
    clear h
    induction hrun with
    | nil s =>
        intro bs t hbs ht
        obtain rfl := List.prefix_nil.1 hbs
        cases ht
        exact hP s hs
    | @cons s u r a as h₁ _ ih =>
        intro bs t hbs ht
        cases ht with
        | nil _ => exact hP s hs
        | @cons _ u' _ b bs h' ht' =>
            obtain ⟨rfl, hprefix⟩ := List.cons_prefix_cons.1 hbs
            obtain rfl := hdet h₁.1 h'
            exact ih (hI s b u hs h₁.1 h₁.2) bs t hprefix ht'

end Run

/-! ## Folds that meet a condition -/

section Fold

variable {S : Type u} {A : Type v} {f : S → A → S} {I P : S → Prop} {C : S → A → Prop}

/-- The same for a function that always gives a next state: `P` holds after every prefix of the
labels just when every label meets the condition where it is taken. -/
theorem foldl_prefix_iff {as : List A} (hI : ∀ s, ∀ a ∈ as, I s → C s a → I (f s a))
    (hP : ∀ s, I s → P s) (hC : ∀ s, ∀ a ∈ as, I s → P (f s a) → C s a) {s : S} (hs : I s) :
    (∀ bs, bs <+: as → P (bs.foldl f s)) ↔
      ∀ bs a, bs ++ [a] <+: as → C (bs.foldl f s) a := by
  induction as generalizing s with
  | nil =>
      refine iff_of_true (fun bs hbs ↦ ?_) fun bs a h ↦ ?_
      · rw [List.prefix_nil.1 hbs]
        exact hP s hs
      · exact absurd (List.prefix_nil.1 h) (List.append_ne_nil_of_right_ne_nil _ (by simp))
  | cons b as ih =>
      have hIt : ∀ s, ∀ a ∈ as, I s → C s a → I (f s a) := fun s a ha ↦
        hI s a (List.mem_cons_of_mem b ha)
      have hCt : ∀ s, ∀ a ∈ as, I s → P (f s a) → C s a := fun s a ha ↦
        hC s a (List.mem_cons_of_mem b ha)
      constructor
      · intro hall
        have hc : C s b := by
          refine hC s b List.mem_cons_self hs (hall [b] ?_)
          exact List.cons_prefix_cons.2 ⟨rfl, List.nil_prefix⟩
        have hrest := (ih hIt hCt (hI s b List.mem_cons_self hs hc)).1 fun bs hbs ↦
          hall (b :: bs) (List.cons_prefix_cons.2 ⟨rfl, hbs⟩)
        intro bs a hbs
        cases bs with
        | nil =>
            obtain ⟨rfl, -⟩ := List.cons_prefix_cons.1 hbs
            exact hc
        | cons c bs =>
            obtain ⟨rfl, hp⟩ := List.cons_prefix_cons.1 hbs
            exact hrest bs a hp
      · intro hall bs hbs
        cases bs with
        | nil => exact hP s hs
        | cons c bs =>
            obtain ⟨rfl, hp⟩ := List.cons_prefix_cons.1 hbs
            have hc : C s c := hall [] c (List.cons_prefix_cons.2 ⟨rfl, List.nil_prefix⟩)
            refine (ih hIt hCt (hI s c List.mem_cons_self hs hc)).2 (fun bs a hp ↦ ?_) bs hp
            exact hall (c :: bs) a (List.cons_prefix_cons.2 ⟨rfl, hp⟩)

end Fold

/-! ## Computations that may fail -/

section Except

variable {ε : Type u} {α β : Type v}

/-- A bind that succeeds has a first half that succeeds. -/
theorem bind_eq_ok {x : Except ε α} {f : α → Except ε β} {b : β} :
    x >>= f = .ok b ↔ ∃ a, x = .ok a ∧ f a = .ok b := by
  cases x with
  | error e =>
      refine ⟨fun h ↦ ?_, fun ⟨_, h, _⟩ ↦ ?_⟩
      · exact absurd h (by simp [Bind.bind, Except.bind])
      · cases h
  | ok a =>
      refine ⟨fun h ↦ ⟨a, rfl, h⟩, fun ⟨a', h, h'⟩ ↦ ?_⟩
      cases h
      exact h'

/-- A computation whose result evaluates as far as `g` can see succeeds. -/
theorem exists_eq_ok {B : Type w} {x : Except ε α} {g : α → B} {b : B}
    (h : x.toOption.map g = some b) : ∃ a, x = .ok a ∧ g a = b := by
  cases x with
  | error e => cases h
  | ok a => exact ⟨a, rfl, Option.some.inj h⟩

end Except

section Loop

variable {ε : Type u} {S A : Type v} {f : S → A → Except ε S}

/-- The loop rule: what every iteration preserves holds when the loop returns. -/
theorem foldlM_invariant {I : S → Prop} {l : List A} {s t : S}
    (hstep : ∀ s a t, a ∈ l → I s → f s a = .ok t → I t)
    (h : l.foldlM f s = .ok t) (hs : I s) : I t := by
  induction l generalizing s with
  | nil => cases h; exact hs
  | cons a l ih =>
      rw [List.foldlM_cons, bind_eq_ok] at h
      obtain ⟨s₁, h₁, h₂⟩ := h
      exact ih (fun s b t hb ↦ hstep s b t (List.mem_cons_of_mem a hb)) h₂
        (hstep s a s₁ List.mem_cons_self hs h₁)

/-- What the iteration for `a` establishes, and the other iterations keep, holds of
every `a` when the loop returns. -/
theorem foldlM_forall {D : A → S → Prop} {l : List A} {s t : S}
    (hset : ∀ s a t, f s a = .ok t → D a t)
    (hkeep : ∀ s a t b, f s a = .ok t → D b s → D b t)
    (h : l.foldlM f s = .ok t) : ∀ a ∈ l, D a t := by
  induction l generalizing s with
  | nil => exact fun a ha ↦ absurd ha List.not_mem_nil
  | cons a l ih =>
      rw [List.foldlM_cons, bind_eq_ok] at h
      obtain ⟨s₁, h₁, h₂⟩ := h
      rintro b (_ | ⟨_, hb⟩)
      · exact foldlM_invariant (fun s c t _ hD hc ↦ hkeep s c t a hc hD) h₂ (hset s a s₁ h₁)
      · exact ih h₂ b hb

/-- A loop that returns is a run of the function.  What it computes in the end can be
evaluated: `g` tells what is of interest. -/
theorem Run.of_foldlM {B : Type w} {g : S → B} {b : B} {as : List A} {s : S}
    (h : (as.foldlM f s).toOption.map g = some b) :
    ∃ t, Run (fun s a t ↦ f s a = .ok t) s as t ∧ g t = b := by
  induction as generalizing s with
  | nil => exact ⟨s, .nil s, Option.some.inj h⟩
  | cons a as ih =>
      rw [List.foldlM_cons] at h
      cases hf : f s a with
      | error e =>
          rw [hf] at h
          cases h
      | ok u =>
          rw [hf] at h
          obtain ⟨t, hr, ht⟩ := ih h
          exact ⟨t, .cons hf hr, ht⟩

end Loop

end Mh.Lib
