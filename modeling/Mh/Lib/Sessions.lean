import Mathlib.Computability.Language

/-!
# Sessions

A resource that is started, used any number of times and stopped, and only then started
again, leaves a history of marks that is a prefix of a word of the language
`(start use∗ stop)∗`.  `Sessions.run` reads such a history with one bit of memory, whether a
session is open, and fails where the history leaves the language; what it has accepted can
be completed to a word of the language (`run_prefix`).
-/

namespace Mh.Lib

/-- What an event is to a resource. -/
inductive Mark
  | start
  | use
  | stop
deriving DecidableEq, Repr

namespace Sessions

open scoped Computability

/-- Read one mark: whether a session is open after it, if the mark is in its place. -/
def next : Bool → Mark → Option Bool
  | false, .start => some true
  | true, .use => some true
  | true, .stop => some false
  | _, _ => none

/-- Read a history. -/
def run (b : Bool) (l : List Mark) : Option Bool := l.foldlM next b

/-- One session that has not been stopped. -/
def begun : Language Mark := {[Mark.start]} * {[Mark.use]}∗

/-- The histories whose sessions have all been stopped. -/
def sessions : Language Mark := (begun * {[Mark.stop]})∗

variable {b b' : Bool} {l m : List Mark}

@[simp] theorem run_nil : run b [] = some b := rfl

/-- A history is read piece by piece. -/
theorem run_append : run b (l ++ m) = (run b l).bind fun b' ↦ run b' m :=
  List.foldlM_append

/-- A history that is read can be read up to any point. -/
theorem exists_run_of_append (h : run b (l ++ m) = some b') : ∃ c, run b l = some c := by
  rw [run_append, Option.bind_eq_some_iff] at h
  obtain ⟨c, hc, -⟩ := h
  exact ⟨c, hc⟩

/-- The star of a language is closed under one more word at the end. -/
theorem append_mem_kstar {α : Type*} {L : Language α} {x y : List α} (hx : x ∈ L∗)
    (hy : y ∈ L) : x ++ y ∈ L∗ := by
  obtain ⟨ws, rfl, hws⟩ := Language.mem_kstar.1 hx
  refine Language.mem_kstar.2 ⟨ws ++ [y], by simp, fun w hw ↦ ?_⟩
  rcases List.mem_append.1 hw with hw | hw
  · exact hws w hw
  · rwa [List.mem_singleton.1 hw]

/-- The first mark of a session. -/
theorem start_mem_begun : [Mark.start] ∈ begun :=
  Language.mem_mul.2 ⟨_, rfl, [], Language.nil_mem_kstar _, rfl⟩

/-- A session that goes on. -/
theorem use_mem_begun (h : l ∈ begun) : l ++ [Mark.use] ∈ begun := by
  obtain ⟨x, hx, y, hy, rfl⟩ := Language.mem_mul.1 h
  rw [List.append_assoc]
  exact Language.append_mem_mul hx (append_mem_kstar hy rfl)

/-- A history that is read consists of sessions, and of one that has begun if a session is
open after it. -/
theorem mem_of_run (h : run false l = some b) :
    if b then ∃ x ∈ sessions, ∃ y ∈ begun, l = x ++ y else l ∈ sessions := by
  induction l using List.reverseRecOn generalizing b with
  | nil =>
      obtain rfl : false = b := Option.some.inj h
      exact Language.nil_mem_kstar _
  | append_singleton l a ih =>
      rw [run_append, Option.bind_eq_some_iff] at h
      obtain ⟨c, hc, ha⟩ := h
      have ih := ih hc
      cases c <;> cases a <;> cases ha
      · exact ⟨l, ih, _, start_mem_begun, rfl⟩
      · obtain ⟨x, hx, y, hy, rfl⟩ := ih
        exact ⟨x, hx, _, use_mem_begun hy, List.append_assoc ..⟩
      · obtain ⟨x, hx, y, hy, rfl⟩ := ih
        change x ++ y ++ [Mark.stop] ∈ sessions
        rw [List.append_assoc]
        exact append_mem_kstar hx (Language.append_mem_mul hy rfl)

/-- A history that is read is a prefix of a sequence of sessions. -/
theorem run_prefix (h : run false l = some b) : ∃ t, l ++ t ∈ sessions := by
  have hl := mem_of_run h
  cases b with
  | false => exact ⟨[], by rwa [List.append_nil]⟩
  | true =>
      obtain ⟨x, hx, y, hy, rfl⟩ := hl
      refine ⟨[Mark.stop], ?_⟩
      rw [List.append_assoc]
      exact append_mem_kstar hx (Language.append_mem_mul hy rfl)

end Sessions

end Mh.Lib
