import Mathlib.Data.List.Basic
import Mh.Rump.Effects

/-!
# Who holds what

A mutex counts how often its owner holds it, and a read/write lock counts its readers, or names
its writer.  In a run from the start this agrees in every state with what the threads believe just
when every step keeps to a rule (`mutex_exact_iff`, `rw_exact_iff`): whatever the threads do in the
rump kernel while they leave it and come back, and in whatever order they run.

For a mutex the rule is that only who holds it leaves it, and that `rumpuser_mutex_enter_nowrap`,
which goes on whether it gets the mutex or not, finds it free or its own.

For a read/write lock it is that only who holds it leaves it, that nobody downgrades, and that a
writer enters when there are no readers: `rumpuser_rw_tryenter` does not ask for this.
-/

namespace Mh.Rump

open Mh.Lib (Run)

theorem step_deterministic : Run.Deterministic Step := fun _ _ _ _ h h' ↦
  Except.ok.inj (h.symm.trans h')

/-! ## Mutexes -/

namespace State

variable (s : State)

/-- The mutex is held by its owner, `v` times, and by nobody else. -/
structure Exact (m : Nat) : Prop where
  nonneg : 0 ≤ (s.mtx m).v
  free : (s.mtx m).v = 0 ↔ (s.mtx m).o = none
  held : ∀ t, (s.held t m : Int) = if (s.mtx m).o = some t then (s.mtx m).v else 0

/-- Only who holds a mutex leaves it, and who takes it without a wait finds it free or its own. -/
def Owned : Op → Prop
  | .exec =>
    match s.todo s.current with
    | .mutexExit m :: _ => 0 < s.held s.current m
    | .mutexEnterNowrap m :: _ => (s.mtx m).v = 0 ∨ (s.mtx m).o = some s.current
    | _ => True
  | _ => True

variable {s}

/-- Nobody holds a mutex together with another. -/
theorem Exact.exclusive {m t t' : Nat} (h : s.Exact m) (ht : 0 < s.held t m)
    (ht' : 0 < s.held t' m) : t = t' := by
  have owner : ∀ {t}, 0 < s.held t m → (s.mtx m).o = some t := by
    intro t ht
    have he := h.held t
    split at he
    · assumption
    · omega
  exact Option.some.inj ((owner ht).symm.trans (owner ht'))

/-- `rumpuser_mutex_owner` tells who holds the mutex. -/
theorem Exact.mutexOwner {m t : Nat} (h : s.Exact m) (ht : 0 < s.held t m) :
    s.mutexOwner m = s.lwp t := by
  have he := h.held t
  split at he
  · rename_i ho
    rw [State.mutexOwner, ho]
    rfl
  · omega

/-- The mutex, and what the threads believe of it, is all that counts. -/
theorem Exact.congr {u : State} {m : Nat} (h : s.Exact m) (hx : u.mtx m = s.mtx m)
    (hh : ∀ t, u.held t m = s.held t m) : u.Exact m := by
  refine ⟨?_, ?_, fun t ↦ ?_⟩
  · rw [hx]
    exact h.nonneg
  · rw [hx]
    exact h.free
  · rw [hx, hh]
    exact h.held t

theorem hold_held (t m t' m' : Nat) : (s.hold t m).held t' m' =
    if t' = t ∧ m' = m then s.held t m + 1 else s.held t' m' := by
  by_cases ht : t' = t
  · subst ht
    by_cases hm : m' = m
    · subst hm
      simp [hold]
    · simp [hold, hm]
  · simp [hold, ht]

theorem unhold_held (t m t' m' : Nat) : (s.unhold t m).held t' m' =
    if t' = t ∧ m' = m then s.held t m - 1 else s.held t' m' := by
  by_cases ht : t' = t
  · subst ht
    by_cases hm : m' = m
    · subst hm
      simp [unhold]
    · simp [unhold, hm]
  · simp [unhold, ht]

end State

theorem Mtx.tryenter_eq_none {x : Mtx} {t : Nat} :
    x.tryenter t = none ↔ ¬ (x.v = 0 ∨ x.o = some t) := by
  unfold Mtx.tryenter
  split <;> simp_all

theorem Mtx.tryenter_eq_some {x y : Mtx} {t : Nat} (h : x.tryenter t = some y) :
    (x.v = 0 ∨ x.o = some t) ∧ y = { x with v := x.v + 1, o := some t } := by
  unfold Mtx.tryenter at h
  split at h
  · cases h
  · rename_i hx
    refine ⟨?_, (Option.some.inj h).symm⟩
    by_cases hv : x.v = 0
    · exact .inl hv
    · exact .inr (not_not.1 fun ho ↦ hx ⟨hv, ho⟩)

/-- What an instruction of the current thread does to the mutexes. -/
inductive MutexStep (s : State) (i : Instr) (u : State) : Prop
  | same (hx : u.mtx = s.mtx) (hh : u.held = s.held)
  | enter (m : Nat) (y : Mtx) (hy : (s.mtx m).tryenter s.current = some y)
      (hx : u.mtx = Function.update s.mtx m y) (hh : u.held = (s.hold s.current m).held)
  | intrude (m : Nat) (hi : i = .mutexEnterNowrap m)
      (hy : (s.mtx m).tryenter s.current = none) (hh : u.held = (s.hold s.current m).held)
  | leave (m : Nat) (hi : i = .mutexExit m) (hv : 0 < (s.mtx m).v)
      (hx : u.mtx = Function.update s.mtx m (s.mtx m).exit)
      (hh : u.held = (s.unhold s.current m).held)

section Mutexes

variable {s u s' : State} {i : Instr} {new : List Instr} {m : Nat} {op : Op}

/-- Only the functions of the mutexes touch them. -/
theorem Exec.mutexStep (h : Exec s i u new) : MutexStep s i u := by
  cases h with
  | enter hi hy => exact .enter _ _ hy rfl rfl
  | intrude hm => exact .intrude _ rfl hm rfl
  | leave hv _ => exact .leave _ rfl hv rfl rfl
  | leaveWake hv _ => exact .leave _ rfl (by omega) rfl rfl
  | _ => exact .same rfl rfl

/-- Who leaves a mutex leaves it, and nothing else. -/
theorem Exec.leave_inv (h : Exec s (.mutexExit m) u new) : 0 < (s.mtx m).v ∧
    u.mtx = Function.update s.mtx m (s.mtx m).exit ∧ u.held = (s.unhold s.current m).held := by
  cases h with
  | leave hv _ => exact ⟨hv, rfl, rfl⟩
  | leaveWake hv _ => exact ⟨by omega, rfl, rfl⟩
  | idle hi => cases hi
  | wait hi => cases hi
  | pop hi _ => cases hi
  | enter hi _ => cases hi
  | rwEnterWriter hi _ => cases hi
  | rwEnterReader hi _ _ => cases hi
  | count hi => cases hi

/-- Another mutex is not touched. -/
theorem State.Exact.of_ne {m' : Nat} (h : s.Exact m') (hm : m' ≠ m) {y : Mtx}
    (hx : u.mtx = Function.update s.mtx m y)
    (hh : u.held = (s.hold s.current m).held ∨ u.held = (s.unhold s.current m).held) :
    u.Exact m' := by
  refine h.congr (by rw [hx, Function.update_of_ne hm]) fun t ↦ ?_
  rcases hh with hh | hh
  · rw [hh, State.hold_held, if_neg fun hc ↦ hm hc.2]
  · rw [hh, State.unhold_held, if_neg fun hc ↦ hm hc.2]

/-- Who is let in holds the mutex once more. -/
theorem State.Exact.enter (h : s.Exact m) {y : Mtx}
    (hy : (s.mtx m).tryenter s.current = some y) (hx : u.mtx = Function.update s.mtx m y)
    (hh : u.held = (s.hold s.current m).held) : u.Exact m := by
  obtain ⟨ho, rfl⟩ := Mtx.tryenter_eq_some hy
  have hv := h.nonneg
  have hum : u.mtx m = { s.mtx m with v := (s.mtx m).v + 1, o := some s.current } := by
    rw [hx, Function.update_self]
  refine ⟨?_, ?_, fun t ↦ ?_⟩
  · rw [hum]
    exact Int.le_add_one hv
  · rw [hum]
    refine iff_of_false ?_ (Option.some_ne_none _)
    show (s.mtx m).v + 1 ≠ 0
    omega
  · have ht := h.held t
    rw [hum, hh, State.hold_held]
    by_cases hc : t = s.current
    · subst hc
      simp only [and_self, if_true]
      rcases ho with ho | ho
      · rw [h.free.1 ho, if_neg (Option.some_ne_none _).symm] at ht
        omega
      · rw [ho, if_pos rfl] at ht
        omega
    · rw [if_neg fun hcc ↦ hc hcc.1, if_neg fun hcc ↦ hc (Option.some.inj hcc).symm, ht]
      rcases ho with ho | ho
      · rw [h.free.1 ho, if_neg (Option.some_ne_none _).symm]
      · rw [ho, if_neg fun hcc ↦ hc (Option.some.inj hcc).symm]

/-- Who holds a mutex and leaves it holds it once less. -/
theorem State.Exact.leave (h : s.Exact m) (hheld : 0 < s.held s.current m)
    (hx : u.mtx = Function.update s.mtx m (s.mtx m).exit)
    (hh : u.held = (s.unhold s.current m).held) : u.Exact m := by
  have ho : (s.mtx m).o = some s.current := by
    have ht := h.held s.current
    split at ht
    · assumption
    · omega
  have hc := h.held s.current
  rw [if_pos ho] at hc
  have hother : ∀ t, t ≠ s.current → s.held t m = 0 := by
    intro t ht
    have he := h.held t
    rw [ho, if_neg fun hcc ↦ ht (Option.some.inj hcc).symm] at he
    omega
  have hum : u.mtx m = (s.mtx m).exit := by rw [hx, Function.update_self]
  have hheldu : ∀ t, u.held t m = if t = s.current then s.held t m - 1 else 0 := by
    intro t
    rw [hh, State.unhold_held]
    by_cases ht : t = s.current
    · subst ht
      simp
    · rw [if_neg fun hcc ↦ ht hcc.1, if_neg ht, hother t ht]
  by_cases h1 : (s.mtx m).v - 1 = 0
  · have hum' : u.mtx m = ⟨0, none, (s.mtx m).kspin⟩ := by rw [hum, Mtx.exit, if_pos h1]
    refine ⟨?_, ?_, fun t ↦ ?_⟩
    · simp [hum']
    · rw [hum']
      exact iff_of_true rfl rfl
    rw [hum', hheldu]
    split
    · rename_i ht
      subst ht
      simp only [reduceCtorEq, if_false]
      omega
    · simp
  · have hum' : u.mtx m = ⟨(s.mtx m).v - 1, (s.mtx m).o, (s.mtx m).kspin⟩ := by
      rw [hum, Mtx.exit, if_neg h1]
    have hv := h.nonneg
    refine ⟨?_, ?_, fun t ↦ ?_⟩
    · rw [hum']
      show 0 ≤ (s.mtx m).v - 1
      omega
    · rw [hum']
      exact iff_of_false h1 (by rw [ho]; exact Option.some_ne_none _)
    · rw [hum', hheldu]
      simp only [ho, Option.some.injEq]
      by_cases ht : t = s.current
      · subst ht
        simp only [if_true]
        omega
      · rw [if_neg ht, if_neg fun hcc ↦ ht hcc.symm]
        rfl

/-- A step by the rule keeps the mutexes as they should be. -/
theorem State.Exact.step (h : ∀ m, s.Exact m) (hs : Step s op s') (ho : s.Owned op) :
    ∀ m, s'.Exact m := by
  cases hs.stepped with
  | exec ha htodo hi =>
      rename_i i is new u
      have hrest : ∀ m, u.Exact m → (u.setTodo (new ++ is)).Exact m := fun m hm ↦
        hm.congr rfl fun _ ↦ rfl
      intro m'
      refine hrest m' ?_
      rcases (Exec.of_exec hi).mutexStep with ⟨hx, hh⟩ | ⟨m, y, hy, hx, hh⟩ | ⟨m, rfl, hy, hh⟩ |
        ⟨m, rfl, hv, hx, hh⟩
      · exact (h m').congr (by rw [hx]) fun t ↦ by rw [hh]
      · by_cases hm : m' = m
        · subst hm
          exact (h m').enter hy hx hh
        · exact (h m').of_ne hm hx (.inl hh)
      · simp only [State.Owned, htodo] at ho
        exact absurd ho (Mtx.tryenter_eq_none.1 hy)
      · simp only [State.Owned, htodo] at ho
        by_cases hm : m' = m
        · subst hm
          exact (h m').leave ho hx hh
        · exact (h m').of_ne hm hx (.inr hh)
  | exit ha htodo => exact fun m ↦ (h m).congr rfl fun _ ↦ rfl
  | ret ha htodo hi => exact fun m ↦ (h m).congr rfl fun _ ↦ rfl
  | call ha ho hi => exact fun m ↦ (h m).congr rfl fun _ ↦ rfl
  | doze ha ho => exact fun m ↦ (h m).congr rfl fun _ ↦ rfl
  | switch ht hg => exact fun m ↦ (h m).congr rfl fun _ ↦ rfl
  | kick ht => exact fun m ↦ (h m).congr rfl fun _ ↦ rfl

/-- Who takes a mutex of another holds it together with him. -/
theorem State.Exact.of_nowrap (hu : (s.mutexEnterNowrap m).Exact m) :
    (s.mtx m).v = 0 ∨ (s.mtx m).o = some s.current := by
  by_contra ho
  have ht : s.mutexTryenter m = none :=
    Option.map_eq_none_iff.2 (Mtx.tryenter_eq_none.2 ho)
  have hc := hu.held s.current
  rw [State.mutexEnterNowrap, ht, Option.getD_none, State.hold_held, if_pos ⟨rfl, rfl⟩] at hc
  have hne : ((s.hold s.current m).mtx m).o ≠ some s.current := fun hcc ↦ ho (.inr hcc)
  rw [if_neg hne] at hc
  omega

/-- Who leaves a mutex of another takes it from him. -/
theorem State.Exact.of_leave (h : s.Exact m) (hv : 0 < (s.mtx m).v)
    (hx : u.mtx = Function.update s.mtx m (s.mtx m).exit)
    (hh : u.held = (s.unhold s.current m).held) (hu : u.Exact m) : 0 < s.held s.current m := by
  by_contra hc
  have hn : (s.mtx m).o ≠ none := fun hn ↦ absurd (h.free.2 hn) (by omega)
  obtain ⟨t, ho⟩ := Option.ne_none_iff_exists'.1 hn
  have ht := h.held t
  rw [ho, if_pos rfl] at ht
  have hne : t ≠ s.current := by
    rintro rfl
    omega
  have hut := hu.held t
  rw [hh, State.unhold_held, if_neg fun hcc ↦ hne hcc.1, hx, Function.update_self, ht] at hut
  unfold Mtx.exit at hut
  split at hut
  · simp only [reduceCtorEq, if_false] at hut
    omega
  · dsimp only at hut
    omega

/-- A step against the rule does not. -/
theorem State.Owned.of_exact (h : ∀ m, s.Exact m) (hs : Step s op s') (h' : ∀ m, s'.Exact m) :
    s.Owned op := by
  cases hs.stepped with
  | exec ha htodo hi =>
      rename_i i is new u
      have hu : ∀ m, u.Exact m := fun m ↦ (h' m).congr rfl fun _ ↦ rfl
      simp only [State.Owned, htodo]
      cases i with
      | mutexEnterNowrap m =>
          cases hi
          exact (hu m).of_nowrap
      | mutexExit m =>
          obtain ⟨hv, hx, hh⟩ := (Exec.of_exec hi).leave_inv
          exact (h m).of_leave hv hx hh (hu m)
      | _ => trivial
  | exit ha htodo => simp only [State.Owned, htodo]
  | _ => trivial

/-- At the start nobody holds a mutex. -/
theorem State.Exact.init (kspin : Nat → Bool) (m : Nat) : (State.init kspin).Exact m :=
  ⟨Int.le_refl _, iff_of_true rfl rfl, fun t ↦ by simp [State.init]⟩

end Mutexes

/-- In every state of a run from the start each mutex is held by its owner, as often as the owner
believes, and by nobody else, just when all the steps of the run keep to the rule. -/
theorem mutex_exact_iff {kspin : Nat → Bool} {ops : List Op} {s : State}
    (h : Run Step (State.init kspin) ops s) :
    (∀ ops' s', ops' <+: ops → Run Step (State.init kspin) ops' s' → ∀ m, s'.Exact m) ↔
      Run (fun s op s' ↦ Step s op s' ∧ s.Owned op) (State.init kspin) ops s :=
  Run.forall_prefix_iff (I := fun s ↦ ∀ m, s.Exact m) step_deterministic
    (fun _ _ _ hI hs ho ↦ State.Exact.step hI hs ho) (fun _ hI ↦ hI)
    (fun _ _ _ hI hs hP ↦ State.Owned.of_exact hI hs hP) h (State.Exact.init kspin)

/-- A thread waits for a mutex that the first thread holds, and is woken when the first thread
leaves it. -/
theorem mutex_exact_iff_contended : ∃ s, Run Step (State.init fun _ ↦ false)
      [.call (.threadCreate false), .exec, .kick 1, .call (.mutexEnter 0), .exec, .switch 1,
        .call (.mutexEnter 0), .exec, .exec, .ret, .exec, .switch 0, .call (.mutexExit 0),
        .exec] s ∧
    s.Exact 0 := by
  have h : Run (fun s op s' ↦ Step s op s' ∧ s.Owned op) (State.init fun _ ↦ false)
      [.call (.threadCreate false), .exec, .kick 1, .call (.mutexEnter 0), .exec, .switch 1,
        .call (.mutexEnter 0), .exec, .exec, .ret, .exec, .switch 0, .call (.mutexExit 0),
        .exec] _ :=
    .cons ⟨rfl, trivial⟩ <| .cons ⟨rfl, trivial⟩ <| .cons ⟨rfl, trivial⟩ <|
      .cons ⟨rfl, trivial⟩ <| .cons ⟨rfl, trivial⟩ <| .cons ⟨rfl, trivial⟩ <|
      .cons ⟨rfl, trivial⟩ <| .cons ⟨rfl, trivial⟩ <| .cons ⟨rfl, trivial⟩ <|
      .cons ⟨rfl, trivial⟩ <| .cons ⟨rfl, trivial⟩ <| .cons ⟨rfl, trivial⟩ <|
      .cons ⟨rfl, trivial⟩ <| .cons ⟨rfl, Nat.one_pos⟩ (.nil _)
  have h' := h.mono fun _ _ _ hs ↦ hs.1
  exact ⟨_, h', (mutex_exact_iff h').2 h _ _ (List.prefix_refl _) h' 0⟩

/-! ## Read/write locks -/

namespace State

variable (s : State)

/-- The lock counts its readers, and has no writer; or it has one, which it names by the lwp with
which the writer entered, and no readers. -/
def RwExact (r : Nat) : Prop :=
  (s.rw r).v = (s.readers r).length ∧
    (s.writers r = [] ∧ (s.rw r).o = none ∨
      ∃ t l, s.writers r = [t] ∧ s.entered r t = some l ∧ (s.rw r).o = some l ∧
        s.readers r = [])

/-- A thread that would write enters as somebody, when there is nobody reading. -/
def Alone (r : Nat) : Prop := (s.rw r).o = none → (s.rw r).v = 0 ∧ s.curlwp ≠ none

/-- Only who holds a read/write lock leaves it; nobody downgrades; a writer enters alone. -/
def RwOwned : Op → Prop
  | .exec =>
    match s.todo s.current with
    | .rwEnter .writer r :: _ | .rwLoop .writer r :: _ | .rwTryenter .writer r :: _ => s.Alone r
    | .rwExit r :: _ => s.current ∈ s.writers r ∨ s.current ∈ s.readers r
    | .rwDowngrade _ :: _ => False
    | _ => True
  | _ => True

variable {s}

/-- There is one writer, and nobody reads meanwhile. -/
theorem RwExact.exclusive {r t : Nat} (h : s.RwExact r) (ht : t ∈ s.writers r) :
    s.writers r = [t] ∧ s.readers r = [] := by
  obtain ⟨-, ⟨hw, -⟩ | ⟨t', l, hw, -, -, hr⟩⟩ := h
  · rw [hw] at ht
    exact absurd ht List.not_mem_nil
  · rw [hw, List.mem_singleton] at ht
    subst ht
    exact ⟨hw, hr⟩

/-- `rumpuser_rw_held` tells whether there are readers. -/
theorem RwExact.rwHeld_reader {r : Nat} (h : s.RwExact r) :
    s.rwHeld r .reader = true ↔ s.readers r ≠ [] := by
  rw [State.rwHeld, h.1, decide_eq_true_eq, ← List.length_pos_iff]
  omega

theorem rwWrite_writers_self (r : Nat) :
    (s.rwWrite r).writers r = s.current :: s.writers r := Function.update_self ..

theorem rwWrite_entered_self (r : Nat) : (s.rwWrite r).entered r s.current = s.curlwp := by
  simp [rwWrite]

theorem rwWrite_of_ne {r r' : Nat} (hr : r' ≠ r) :
    (s.rwWrite r).writers r' = s.writers r' ∧ (s.rwWrite r).entered r' = s.entered r' :=
  ⟨Function.update_of_ne hr .., Function.update_of_ne hr ..⟩

/-- The lock, and what the threads believe of it, is all that counts. -/
theorem RwExact.congr {u : State} {r : Nat} (h : s.RwExact r) (hx : u.rw r = s.rw r)
    (hr : u.readers r = s.readers r) (hw : u.writers r = s.writers r)
    (he : u.entered r = s.entered r) : u.RwExact r := by
  unfold RwExact at h ⊢
  rw [hx, hr, hw, he]
  exact h

end State

/-- What an instruction of the current thread does to the read/write locks. -/
inductive RwStep (s : State) (i : Instr) (u : State) : Prop
  | same (hx : u.rw = s.rw) (hr : u.readers = s.readers) (hw : u.writers = s.writers)
      (he : u.entered = s.entered)
  | write (r : Nat) (hi : RwEnters i .writer r) (ho : (s.rw r).o = none)
      (hx : u.rw = Function.update s.rw r ⟨(s.rw r).v, s.curlwp⟩) (hr : u.readers = s.readers)
      (hw : u.writers = (s.rwWrite r).writers) (he : u.entered = (s.rwWrite r).entered)
  | read (r : Nat) (ho : (s.rw r).o = none)
      (hx : u.rw = Function.update s.rw r ⟨(s.rw r).v + 1, (s.rw r).o⟩)
      (hr : u.readers = Function.update s.readers r (s.current :: s.readers r))
      (hw : u.writers = s.writers) (he : u.entered = s.entered)
  | leave (r : Nat) (hi : i = .rwExit r) (hx : u.rw = Function.update s.rw r (s.rw r).exit)
      (hr : u.readers = (s.rwDrop r).readers) (hw : u.writers = (s.rwDrop r).writers)
      (he : u.entered = s.entered)
  | downgrade (r : Nat) (hi : i = .rwDowngrade r)
      (hx : u.rw = Function.update s.rw r ⟨-1, (s.rw r).o⟩) (hr : u.readers = s.readers)
  | upgrade (r : Nat) (hv : (s.rw r).v = -1)

section Locks

variable {s u s' : State} {i : Instr} {new : List Instr} {r : Nat} {op : Op}

/-- Only the functions of the read/write locks touch them. -/
theorem Exec.rwStep (h : Exec s i u new) : RwStep s i u := by
  cases h with
  | rwEnterWriter hi ho => exact .write _ hi ho rfl rfl rfl rfl
  | rwEnterReader hi ho hw => exact .read _ ho rfl rfl rfl rfl
  | rwLeave _ _ => exact .leave _ rfl rfl rfl rfl rfl
  | rwLeaveOne _ => exact .leave _ rfl rfl rfl rfl rfl
  | rwLeaveAll _ _ => exact .leave _ rfl rfl rfl rfl rfl
  | rwDowngrade ho => exact .downgrade _ rfl rfl rfl
  | rwTryupgrade hv => exact .upgrade _ hv
  | _ => exact .same rfl rfl rfl rfl

theorem RwEnters.alone {is : List Instr} (hi : RwEnters i .writer r)
    (htodo : s.todo s.current = i :: is) : s.RwOwned .exec ↔ s.Alone r := by
  cases hi with
  | rwEnter => simp only [State.RwOwned, htodo]
  | rwLoop => simp only [State.RwOwned, htodo]
  | rwTryenter => simp only [State.RwOwned, htodo]

theorem State.RwExact.write {r' : Nat} (h : s.RwExact r') (ho : (s.rw r).o = none)
    (ha : s.Alone r) (hx : u.rw = Function.update s.rw r ⟨(s.rw r).v, s.curlwp⟩)
    (hr : u.readers = s.readers) (hw : u.writers = (s.rwWrite r).writers)
    (he : u.entered = (s.rwWrite r).entered) : u.RwExact r' := by
  by_cases hrr : r' = r
  · subst hrr
    obtain ⟨hv, hl⟩ := ha ho
    obtain ⟨l, hl⟩ := Option.ne_none_iff_exists'.1 hl
    have hread : s.readers r' = [] := by
      have h1 := h.1
      rw [hv] at h1
      exact List.length_eq_zero_iff.1 (by omega)
    have hwrite : s.writers r' = [] := by
      rcases h.2 with ⟨hn, -⟩ | ⟨t, l', -, -, hn, -⟩
      · exact hn
      · rw [ho] at hn
        cases hn
    refine ⟨?_, .inr ⟨s.current, l, ?_, ?_, ?_, ?_⟩⟩
    · rw [hx, Function.update_self, hr]
      exact h.1
    · rw [hw, State.rwWrite_writers_self, hwrite]
    · rw [he, State.rwWrite_entered_self, hl]
    · rw [hx, Function.update_self]
      exact hl
    · rw [hr, hread]
  · refine h.congr (by rw [hx, Function.update_of_ne hrr]) (by rw [hr]) ?_ ?_
    · rw [hw, (State.rwWrite_of_ne hrr).1]
    · rw [he, (State.rwWrite_of_ne hrr).2]

theorem State.RwExact.read {r' : Nat} (h : s.RwExact r') (ho : (s.rw r).o = none)
    (hx : u.rw = Function.update s.rw r ⟨(s.rw r).v + 1, (s.rw r).o⟩)
    (hr : u.readers = Function.update s.readers r (s.current :: s.readers r))
    (hw : u.writers = s.writers) (he : u.entered = s.entered) : u.RwExact r' := by
  by_cases hrr : r' = r
  · subst hrr
    have hwrite : s.writers r' = [] := by
      rcases h.2 with ⟨hn, -⟩ | ⟨t, l', -, -, hn, -⟩
      · exact hn
      · rw [ho] at hn
        cases hn
    refine ⟨?_, .inl ⟨by rw [hw, hwrite], ?_⟩⟩
    · rw [hx, Function.update_self, hr, Function.update_self, List.length_cons]
      have h1 := h.1
      show (s.rw r').v + 1 = _
      omega
    · rw [hx, Function.update_self]
      exact ho
  · refine h.congr (by rw [hx, Function.update_of_ne hrr]) ?_ (by rw [hw]) (by rw [he])
    rw [hr, Function.update_of_ne hrr]

/-- Who leaves the lock is its writer, or one of its readers. -/
theorem State.RwExact.leave {r' : Nat} (h : s.RwExact r')
    (hc : s.current ∈ s.writers r ∨ s.current ∈ s.readers r)
    (hx : u.rw = Function.update s.rw r (s.rw r).exit)
    (hr : u.readers = (s.rwDrop r).readers) (hw : u.writers = (s.rwDrop r).writers)
    (he : u.entered = s.entered) : u.RwExact r' := by
  by_cases hm : s.current ∈ s.writers r
  · simp only [State.rwDrop, if_pos hm] at hr hw
    by_cases hrr : r' = r
    · subst hrr
      have hone := h.exclusive hm
      obtain ⟨h1, ⟨hn, -⟩ | ⟨t, l, -, -, ho, -⟩⟩ := h
      · rw [hn] at hm
        exact absurd hm List.not_mem_nil
      · have hxr : u.rw r' = ⟨(s.rw r').v, none⟩ := by
          rw [hx, Function.update_self, Rw.exit, if_neg (by rw [ho]; exact Option.some_ne_none _)]
        refine ⟨?_, .inl ⟨?_, ?_⟩⟩
        · rw [hxr, hr]
          exact h1
        · rw [hw]
          show Function.update s.writers r' ((s.writers r').erase s.current) r' = []
          rw [Function.update_self, hone.1, List.erase_cons_head]
        · rw [hxr]
    · refine h.congr (by rw [hx, Function.update_of_ne hrr]) (by rw [hr]) ?_ (by rw [he])
      rw [hw]
      exact Function.update_of_ne hrr _ _
  · simp only [State.rwDrop, if_neg hm] at hr hw
    have hm' : s.current ∈ s.readers r := hc.resolve_left hm
    by_cases hrr : r' = r
    · subst hrr
      obtain ⟨h1, ⟨hn, ho⟩ | ⟨t, l, -, -, -, hn⟩⟩ := h
      · have hxr : u.rw r' = ⟨(s.rw r').v - 1, (s.rw r').o⟩ := by
          rw [hx, Function.update_self, Rw.exit, if_pos ho]
        have hl := List.length_pos_of_mem hm'
        refine ⟨?_, .inl ⟨by rw [hw]; exact hn, by rw [hxr]; exact ho⟩⟩
        rw [hxr, hr]
        show (s.rw r').v - 1 =
          (Function.update s.readers r' ((s.readers r').erase s.current) r').length
        rw [Function.update_self, List.length_erase_of_mem hm']
        omega
      · rw [hn] at hm'
        exact absurd hm' List.not_mem_nil
    · refine h.congr (by rw [hx, Function.update_of_ne hrr]) ?_ (by rw [hw]) (by rw [he])
      rw [hr]
      exact Function.update_of_ne hrr _ _

/-- A step by the rule keeps the read/write locks as they should be. -/
theorem State.RwExact.step (h : ∀ r, s.RwExact r) (hs : Step s op s') (ho : s.RwOwned op) :
    ∀ r, s'.RwExact r := by
  cases hs.stepped with
  | exec ha htodo hi =>
      rename_i i is new u
      intro r'
      refine State.RwExact.congr (s := u) ?_ rfl rfl rfl rfl
      rcases (Exec.of_exec hi).rwStep with ⟨hx, hr, hw, he⟩ | ⟨r, hi, hn, hx, hr, hw, he⟩ |
        ⟨r, hn, hx, hr, hw, he⟩ | ⟨r, rfl, hx, hr, hw, he⟩ | ⟨r, rfl, hx, hr⟩ | ⟨r, hv⟩
      · exact (h r').congr (by rw [hx]) (by rw [hr]) (by rw [hw]) (by rw [he])
      · exact (h r').write hn ((hi.alone htodo).1 ho) hx hr hw he
      · exact (h r').read hn hx hr hw he
      · simp only [State.RwOwned, htodo] at ho
        exact (h r').leave ho hx hr hw he
      · simp only [State.RwOwned, htodo] at ho
      · have h1 := (h r).1
        omega
  | exit ha htodo => exact fun r ↦ (h r).congr rfl rfl rfl rfl
  | ret ha htodo hi => exact fun r ↦ (h r).congr rfl rfl rfl rfl
  | call ha ho hi => exact fun r ↦ (h r).congr rfl rfl rfl rfl
  | doze ha ho => exact fun r ↦ (h r).congr rfl rfl rfl rfl
  | switch ht hg => exact fun r ↦ (h r).congr rfl rfl rfl rfl
  | kick ht => exact fun r ↦ (h r).congr rfl rfl rfl rfl

/-- A writer that finds the lock without an owner enters. -/
theorem RwEnters.exec_eq (hi : RwEnters i .writer r) (ho : (s.rw r).o = none)
    (h : s.exec i = .ok (u, new)) : u =
      { s.rwWrite r with rw := Function.update s.rw r { s.rw r with o := s.curlwp } } := by
  have ht : s.rwTryenter r .writer = some
      { s.rwWrite r with rw := Function.update s.rw r { s.rw r with o := s.curlwp } } := by
    rw [State.rwTryenter, if_pos ho]
  cases hi with
  | rwEnter =>
      rw [State.exec, ht] at h
      exact (congrArg Prod.fst (Except.ok.inj h)).symm
  | rwLoop =>
      rw [State.exec, ht] at h
      exact (congrArg Prod.fst (Except.ok.inj h)).symm
  | rwTryenter =>
      rw [State.exec, ht] at h
      exact (congrArg Prod.fst (Except.ok.inj h)).symm

/-- Who enters as a writer against the rule writes while others read, or as nobody. -/
theorem State.RwExact.of_write (hi : RwEnters i .writer r) (h : s.exec i = .ok (u, new))
    (hu : u.RwExact r) : s.Alone r := by
  intro ho
  rw [hi.exec_eq ho h] at hu
  obtain ⟨h1, ⟨hn, -⟩ | ⟨t, l, -, -, hl, hr⟩⟩ := hu
  · simp only [State.rwWrite_writers_self] at hn
    cases hn
  · simp only [Function.update_self] at h1 hl
    have hr' : (s.rwWrite r).readers r = [] := hr
    rw [hr'] at h1
    refine ⟨h1, ?_⟩
    rw [hl]
    exact Option.some_ne_none l

/-- Who leaves a read/write lock leaves it, and nothing else. -/
theorem Exec.rwExit_inv (h : Exec s (.rwExit r) u new) :
    u.rw = Function.update s.rw r (s.rw r).exit ∧ u.readers = (s.rwDrop r).readers ∧
      u.writers = (s.rwDrop r).writers := by
  cases h with
  | rwLeave _ _ => exact ⟨rfl, rfl, rfl⟩
  | rwLeaveOne _ => exact ⟨rfl, rfl, rfl⟩
  | rwLeaveAll _ _ => exact ⟨rfl, rfl, rfl⟩
  | idle hi => cases hi
  | wait hi => cases hi
  | pop hi _ => cases hi
  | enter hi _ => cases hi
  | rwEnterWriter hi _ => cases hi
  | rwEnterReader hi _ _ => cases hi
  | count hi => cases hi

/-- Who downgrades leaves the lock with one reader too few to count. -/
theorem Exec.rwDowngrade_inv (h : Exec s (.rwDowngrade r) u new) :
    u.rw = Function.update s.rw r ⟨-1, (s.rw r).o⟩ := by
  cases h with
  | rwDowngrade _ => rfl
  | idle hi => cases hi
  | wait hi => cases hi
  | pop hi _ => cases hi
  | enter hi _ => cases hi
  | rwEnterWriter hi _ => cases hi
  | rwEnterReader hi _ _ => cases hi
  | count hi => cases hi

/-- Who leaves the lock of others takes it from them. -/
theorem State.RwExact.of_leave (h : s.RwExact r)
    (hx : u.rw = Function.update s.rw r (s.rw r).exit)
    (hr : u.readers = (s.rwDrop r).readers) (hw : u.writers = (s.rwDrop r).writers)
    (hu : u.RwExact r) : s.current ∈ s.writers r ∨ s.current ∈ s.readers r := by
  by_contra hc
  rw [not_or] at hc
  have hreaders : u.readers r = s.readers r := by
    simp only [hr, State.rwDrop, if_neg hc.1]
    rw [Function.update_self, List.erase_of_not_mem hc.2]
  have hwriters : u.writers r = s.writers r := by
    simp only [hw, State.rwDrop, if_neg hc.1]
  have hxr : u.rw r = (s.rw r).exit := by rw [hx, Function.update_self]
  have h1 := hu.1
  rw [hxr, hreaders, Rw.exit] at h1
  obtain ⟨hv, ⟨-, ho⟩ | ⟨t, l, hwr, -, ho, -⟩⟩ := h
  · rw [if_pos ho] at h1
    have h2 : (s.rw r).v - 1 = (s.readers r).length := h1
    omega
  · rcases hu.2 with ⟨hn, -⟩ | ⟨-, l', -, -, hl', -⟩
    · rw [hwriters, hwr] at hn
      cases hn
    · rw [hxr, Rw.exit_o] at hl'
      cases hl'

/-- A step against the rule does not. -/
theorem State.RwOwned.of_exact (h : ∀ r, s.RwExact r) (hs : Step s op s')
    (h' : ∀ r, s'.RwExact r) : s.RwOwned op := by
  cases hs.stepped with
  | exec ha htodo hi =>
      rename_i i is new u
      have hu : ∀ r, u.RwExact r := fun r ↦ (h' r).congr rfl rfl rfl rfl
      have hwrite : ∀ {r}, RwEnters i .writer r → s.RwOwned .exec := fun {r} hw ↦
        (hw.alone htodo).2 (State.RwExact.of_write hw hi (hu r))
      cases i with
      | rwEnter lk r =>
          cases lk with
          | writer => exact hwrite (.rwEnter .writer r)
          | reader => simp only [State.RwOwned, htodo]
      | rwLoop lk r =>
          cases lk with
          | writer => exact hwrite (.rwLoop .writer r)
          | reader => simp only [State.RwOwned, htodo]
      | rwTryenter lk r =>
          cases lk with
          | writer => exact hwrite (.rwTryenter .writer r)
          | reader => simp only [State.RwOwned, htodo]
      | rwExit r =>
          obtain ⟨hx, hr, hw⟩ := (Exec.of_exec hi).rwExit_inv
          simp only [State.RwOwned, htodo]
          exact (h r).of_leave hx hr hw (hu r)
      | rwDowngrade r =>
          have h1 := (hu r).1
          rw [(Exec.of_exec hi).rwDowngrade_inv, Function.update_self] at h1
          have h2 : (-1 : Int) = (u.readers r).length := h1
          omega
      | _ => simp only [State.RwOwned, htodo]
  | exit ha htodo => simp only [State.RwOwned, htodo]
  | _ => trivial

/-- At the start nobody holds a read/write lock. -/
theorem State.RwExact.init (kspin : Nat → Bool) (r : Nat) : (State.init kspin).RwExact r :=
  ⟨rfl, .inl ⟨rfl, rfl⟩⟩

end Locks

/-- In every state of a run from the start each read/write lock has one writer, which it names by
the lwp with which the writer entered, and no readers, or no writer, and counts its readers, just
when all the steps of the run keep to the rule. -/
theorem rw_exact_iff {kspin : Nat → Bool} {ops : List Op} {s : State}
    (h : Run Step (State.init kspin) ops s) :
    (∀ ops' s', ops' <+: ops → Run Step (State.init kspin) ops' s' → ∀ r, s'.RwExact r) ↔
      Run (fun s op s' ↦ Step s op s' ∧ s.RwOwned op) (State.init kspin) ops s :=
  Run.forall_prefix_iff (I := fun s ↦ ∀ r, s.RwExact r) step_deterministic
    (fun _ _ _ hI hs ho ↦ State.RwExact.step hI hs ho) (fun _ hI ↦ hI)
    (fun _ _ _ hI hs hP ↦ State.RwOwned.of_exact hI hs hP) h (State.RwExact.init kspin)

/-- The first thread, which is somebody, writes and leaves, and reads. -/
theorem rw_exact_iff_write : ∃ s, Run Step (State.init fun _ ↦ false)
      [.call (.curlwpSet 7), .exec, .call (.rwEnter .writer 0), .exec, .call (.rwExit 0), .exec,
        .call (.rwEnter .reader 0), .exec] s ∧
    s.RwExact 0 := by
  have h : Run (fun s op s' ↦ Step s op s' ∧ s.RwOwned op) (State.init fun _ ↦ false)
      [.call (.curlwpSet 7), .exec, .call (.rwEnter .writer 0), .exec, .call (.rwExit 0), .exec,
        .call (.rwEnter .reader 0), .exec] _ :=
    .cons ⟨rfl, trivial⟩ <| .cons ⟨rfl, trivial⟩ <| .cons ⟨rfl, trivial⟩ <|
      .cons ⟨rfl, fun _ ↦ ⟨rfl, Option.some_ne_none 7⟩⟩ <| .cons ⟨rfl, trivial⟩ <|
      .cons ⟨rfl, .inl List.mem_cons_self⟩ <| .cons ⟨rfl, trivial⟩ <|
      .cons ⟨rfl, trivial⟩ (.nil _)
  have h' := h.mono fun _ _ _ hs ↦ hs.1
  exact ⟨_, h', (rw_exact_iff h').2 h _ _ (List.prefix_refl _) h' 0⟩

end Mh.Rump
