import Mh.Lib.Run

/-!
# Computations that note what they look at

`Traced ι ε α` is a computation that may fail with an `ε` and that notes, in order, the `ι` that it
looks at, those too that it looked at before it failed.  Leaving the notes out is a morphism to
`Except ε` (`res_bind`), so that a function with notes and the same function without them are
compared one line at a time.

`Within P m` says that `m` looks only at what has `P`, whether it fails or not.  It has a rule for
every way to put computations together; what comes later may count on what was returned before.
-/

universe u v w

namespace Mh.Lib

/-- What was looked at, and the result. -/
structure Traced (ι : Type u) (ε : Type v) (α : Type w) where
  log : List ι
  res : Except ε α

namespace Traced

variable {ι : Type u} {ε : Type v} {α β S A : Type w} {P : ι → Prop} {m : Traced ι ε α}
  {f : α → Traced ι ε β} {i : ι} {a : α}

instance : Monad (Traced ι ε) where
  pure a := ⟨[], .ok a⟩
  bind m f :=
    match m.res with
    | .ok a => ⟨m.log ++ (f a).log, (f a).res⟩
    | .error e => ⟨m.log, .error e⟩

/-- Look at something. -/
def note (l : List ι) : Traced ι ε PUnit := ⟨l, .ok ⟨⟩⟩

/-- A computation that looks at nothing. -/
def lift (x : Except ε α) : Traced ι ε α := ⟨[], x⟩

/-! ## The notes and the result of a composition -/

@[simp] theorem res_pure : (pure a : Traced ι ε α).res = .ok a := rfl

@[simp] theorem res_note (l : List ι) : (note l : Traced ι ε PUnit).res = .ok ⟨⟩ := rfl

@[simp] theorem res_lift (x : Except ε α) : (lift x : Traced ι ε α).res = x := rfl

/-- Without the notes, a composition is that of `Except`. -/
@[simp] theorem res_bind : (m >>= f).res = m.res >>= fun a ↦ (f a).res := by
  show (match m.res with | .ok a => _ | .error e => _ : Traced ι ε β).res = _
  cases m.res <;> rfl

/-- A note leaves the result alone. -/
@[simp] theorem res_note_bind (l : List ι) (f : PUnit → Traced ι ε β) :
    (note l >>= f).res = (f ⟨⟩).res := rfl

/-- What follows a value. -/
theorem ok_bind (a : α) (f : α → Except ε β) : Except.ok a >>= f = f a := rfl

/-- What a composition looks at, when the first half returns. -/
theorem log_bind (h : m.res = .ok a) : (m >>= f).log = m.log ++ (f a).log := by
  show (match m.res with | .ok a => _ | .error e => _ : Traced ι ε β).log = _
  rw [h]

/-- What a composition looks at, when it does not. -/
theorem log_bind_error {e : ε} (h : m.res = .error e) : (m >>= f).log = m.log := by
  show (match m.res with | .ok a => _ | .error e => _ : Traced ι ε β).log = _
  rw [h]

/-- What the first half looks at. -/
theorem mem_log_left (h : i ∈ m.log) : i ∈ (m >>= f).log := by
  show i ∈ (match m.res with | .ok a => _ | .error e => _ : Traced ι ε β).log
  cases m.res with
  | error e => exact h
  | ok a => exact List.mem_append_left _ h

/-- What the second half looks at, once the first one has returned. -/
theorem mem_log_right (hm : m.res = .ok a) (h : i ∈ (f a).log) : i ∈ (m >>= f).log := by
  show i ∈ (match m.res with | .ok a => _ | .error e => _ : Traced ι ε β).log
  rw [hm]
  exact List.mem_append_right _ h

/-- All that a composition looks at. -/
theorem mem_log_bind : i ∈ (m >>= f).log ↔ i ∈ m.log ∨ ∃ a, m.res = .ok a ∧ i ∈ (f a).log := by
  constructor
  · intro h
    change i ∈ (match m.res with | .ok a => _ | .error e => _ : Traced ι ε β).log at h
    cases hm : m.res with
    | error e =>
        rw [hm] at h
        exact .inl h
    | ok a =>
        rw [hm] at h
        exact (List.mem_append.1 h).imp id fun h ↦ ⟨a, rfl, h⟩
  · rintro (h | ⟨a, hm, h⟩)
    · exact mem_log_left h
    · exact mem_log_right hm h

/-- Without the notes, a loop is that of `Except`. -/
theorem res_foldlM {g : S → A → Traced ι ε S} {g' : S → A → Except ε S}
    (hg : ∀ s a, (g s a).res = g' s a) (l : List A) (s : S) :
    (l.foldlM g s).res = l.foldlM g' s := by
  induction l generalizing s with
  | nil => rfl
  | cons a l ih =>
      rw [List.foldlM_cons, List.foldlM_cons, res_bind, hg]
      exact congrArg (g' s a >>= ·) (funext ih)

/-! ## What is looked at -/

/-- The computation looks only at what has `P`. -/
def Within (P : ι → Prop) (m : Traced ι ε α) : Prop := ∀ i ∈ m.log, P i

theorem Within.pure : Within P (Pure.pure a : Traced ι ε α) :=
  fun _ hi ↦ absurd hi List.not_mem_nil

theorem Within.lift {x : Except ε α} : Within P (Traced.lift x : Traced ι ε α) :=
  fun _ hi ↦ absurd hi List.not_mem_nil

theorem Within.note {l : List ι} (h : ∀ i ∈ l, P i) :
    Within P (Traced.note l : Traced ι ε PUnit) := h

/-- What follows may count on what has been returned. -/
theorem Within.bind (hm : Within P m) (hf : ∀ a, m.res = .ok a → Within P (f a)) :
    Within P (m >>= f) := by
  intro i hi
  obtain hi | ⟨a, ha, hi⟩ := mem_log_bind.1 hi
  · exact hm i hi
  · exact hf a ha i hi

/-- All of a composition is within bounds if both halves are. -/
theorem within_bind_iff :
    Within P (m >>= f) ↔ Within P m ∧ ∀ a, m.res = .ok a → Within P (f a) := by
  constructor
  · exact fun h ↦ ⟨fun i hi ↦ h i (mem_log_left hi), fun a ha i hi ↦ h i (mem_log_right ha hi)⟩
  · exact fun h ↦ h.1.bind h.2

/-- What follows a note. -/
theorem Within.note_bind {l : List ι} {f : PUnit → Traced ι ε β} (h : ∀ i ∈ l, P i)
    (hf : Within P (f ⟨⟩)) : Within P (Traced.note l >>= f) :=
  (Within.note h).bind fun _ _ ↦ hf

/-- The loop rule: what every iteration keeps. -/
theorem Within.foldlM {I : S → Prop} {g : S → A → Traced ι ε S} {l : List A} {s : S} (hs : I s)
    (hg : ∀ s, ∀ a ∈ l, I s → Within P (g s a) ∧ ∀ t, (g s a).res = .ok t → I t) :
    Within P (l.foldlM g s) := by
  induction l generalizing s with
  | nil => exact Within.pure
  | cons a l ih =>
      rw [List.foldlM_cons]
      obtain ⟨hw, hI⟩ := hg s a List.mem_cons_self hs
      exact hw.bind fun t ht ↦ ih (hI t ht) fun s b hb ↦ hg s b (List.mem_cons_of_mem a hb)

end Traced

end Mh.Lib
