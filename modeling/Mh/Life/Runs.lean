import Mh.Life.Steps

/-!
# The runs of buses and devices

In every run in which no device is freed while a thread has got it from the tree or from its own bus
without the lock, and no entry that a loop of `dev_detach` is at gets a device, no step touches a
device that is freed and no entry refers to one.  Without either condition a freed device is used.
-/

namespace Mh.Life

open Mh.Lib Mh.Bus

/-- The step does not free a device that a thread has in `bus_plug` between the lookup and the locks
or in `bus_copy` between the locks of the two buses, and does not give a device to an entry at which
a loop of `dev_detach` has yet to read the link to the next. -/
def Timely (s : State) (t : Nat) : Act → Prop
  | .free => ∀ d, s.pc t = .detached d → ∀ t', (s.pc t').holds ≠ some d
  | .plug ok => ∀ d i, s.pc t = .plug d → s.plugSlot t = some i → (s.devs d).offline = false →
      ok = true → ∀ t' d', s.pc t' ≠ .detachNext d' (t, i)
  | _ => True

variable {s s' : State} {t d c i : Nat} {ok : Bool} {acc : List Nat}

namespace Inv

theorem lookup (h : Inv s) (hpc : s.pc t = .idle) {did : Nat} (hd : s.treeFind did = some d) :
    Inv (s.setPc t (.plug d)) := by
  refine h.move (by rw [hpc]; rfl) (h.not_forked (by rw [hpc]; exact fun hc ↦ by cases hc)) rfl
    (fun hc ↦ by cases hc) ?_ (fun _ _ hc ↦ by cases hc)
  rintro d' ⟨⟩
  exact (h.tree d (List.mem_of_find?_eq_some hd)).1

theorem toIdle (h : Inv s) (hcol : (s.pc t).collected = none) (hch : s.pc t ≠ .child) :
    Inv (s.setPc t .idle) :=
  h.move hcol (h.not_forked hch) rfl (fun hc ↦ by cases hc) (fun _ hc ↦ by cases hc)
    (fun _ _ hc ↦ by cases hc)

theorem plug (h : Inv s) (hpc : s.pc t = .plug d) (hok : Timely s t (.plug ok)) :
    Inv (s.plug t d ok).1 := by
  have hch : s.pc t ≠ .child := by rw [hpc]; exact fun hc ↦ by cases hc
  have hidle := h.toIdle (t := t) (by rw [hpc]; rfl) hch
  rw [State.plug]
  cases hi : s.plugSlot t with
  | none => exact hidle
  | some i =>
    cases hoff : (s.devs d).offline with
    | true => exact hidle
    | false =>
      cases ok with
      | false => exact hidle
      | true =>
        have hfree := List.find?_some hi
        rw [Bool.and_eq_true, Option.isNone_iff_eq_none] at hfree
        have hins : Inv (s.insert (t, i) d) :=
          h.insert hfree.2 (hok d i hpc hi hoff rfl) (by rw [hpc]; exact fun hc ↦ by cases hc)
            (fun t' c j hf he ↦ by subst he; exact absurd hf (h.not_forked hch t' j))
            (h.holds t d (by rw [hpc]; rfl)) hoff
        have hpi : (s.insert (t, i) d).pc t = .plug d := hpc
        exact hins.toIdle (by rw [hpi]; rfl) (by rw [hpi]; exact fun hc ↦ by cases hc)

theorem unplugSlot (h : Inv s) {k : Slot} (hs : s.unplug k = some (s', acc)) : Inv s' := by
  rw [State.unplug] at hs
  split at hs
  · cases hs
    exact h
  · split at hs
    · split at hs
      · cases hs
      · next d hd =>
        split at hs
        · cases hs
          exact h.setSlot rfl
        · next hon =>
          cases hs
          exact h.unplug hd (Bool.eq_false_iff.2 hon)
    · cases hs
      exact h.setSlot rfl

theorem fork (h : Inv s) (hpc : s.pc t = .idle) (hc : s.pc c = .unborn) : Inv (s.fork t c) := by
  have hct : c ≠ t := by
    rintro rfl
    rw [hc] at hpc
    cases hpc
  have hchild : ∀ t' j, (s.pc t').forks ≠ some (c, j) :=
    h.not_forked (by rw [hc]; exact fun he ↦ by cases he)
  have hself : (s.setPc c .child).pc c = .child := Function.update_self ..
  have hne : ∀ t', t' ≠ c → (s.setPc c .child).pc t' = s.pc t' := fun t' ht ↦
    Function.update_of_ne ht ..
  have h₁ : Inv (s.setPc c .child) :=
    h.move (by rw [hc]; rfl) hchild rfl (fun he ↦ by cases he) (fun _ he ↦ by cases he)
      (fun _ _ he ↦ by cases he)
  have h₂ : Inv ((s.setPc c .child).setPc t (.fork c 0)) := by
    refine h₁.move ?_ (h₁.not_forked ?_) rfl (fun he ↦ by cases he) (fun _ he ↦ by cases he) ?_
    · rw [hne t hct.symm, hpc]
      rfl
    · rw [hne t hct.symm, hpc]
      exact fun he ↦ by cases he
    · rintro c' i ⟨⟩
      refine ⟨hct, hself, fun j _ ↦ ⟨(h.unborn c hc j).1, fun t' d' hd' ↦ ?_⟩, fun t' j hj ↦ ?_⟩
      · by_cases ht : t' = c
        · rw [ht, hself] at hd'
          cases hd'
        · rw [hne t' ht] at hd'
          exact (h.unborn c hc j).2 t' d' hd'
      · by_cases ht : t' = c
        · rw [ht, hself] at hj
          cases hj
        · rw [hne t' ht] at hj
          exact absurd hj (hchild t' j)
  refine h₂.setSlots fun k ↦ ?_
  split
  · next hk =>
    obtain ⟨a, j⟩ := k
    obtain rfl : a = c := hk
    exact (h.unborn a hc j).1.symm
  · rfl

/-- The forking thread goes on to a later descriptor. -/
theorem forkOn (h : Inv s) (hf : (s.pc t).forks = some (c, i)) {p : Pc} {j : Nat} (hij : i ≤ j)
    (hp : p.forks = some (c, j)) (hl : ∀ d, p.holds = some d → s.Live d) : Inv (s.setPc t p) := by
  refine h.move (Pc.destroys_of_forks hf).2 (h.not_forked (Pc.ne_of_forks hf).1)
    (Pc.destroys_of_forks hp).1 (Pc.ne_of_forks hp).2 hl ?_
  intro c' j' hj'
  rw [hp] at hj'
  cases hj'
  exact h.mayFork hf hij

theorem copyFail (h : Inv s) (hf : (s.pc t).forks = some (c, i)) : Inv (s.copyFail t c i) :=
  (h.setSlot (k := (c, i)) (b := { s.slots (c, i) with plg := false }) rfl).forkOn
    (p := .fork c (i + 1)) hf (Nat.le_succ i) rfl fun _ he ↦ by cases he

theorem mark (h : Inv s) (hf : (s.pc t).forks = some (c, i)) : Inv (s.mark t c i) := by
  rw [State.mark]
  split
  · exact h.forkOn (p := .fork c (i + 1)) hf (Nat.le_succ i) rfl fun _ he ↦ by cases he
  · exact (h.setSlot (k := (c, i)) (b := { s.slots (c, i) with plg := true }) rfl).forkOn
      (p := .marked c i) hf (Nat.le_refl i) rfl fun _ he ↦ by cases he

theorem copyFrom (h : Inv s) (hf : (s.pc t).forks = some (c, i))
    (hs : s.copyFrom t c i ok = some (s', acc)) : Inv s' := by
  have hfail := h.copyFail hf
  rw [State.copyFrom] at hs
  split at hs
  · split at hs
    · cases hs
    · next d hd =>
      split at hs
      · cases hs
        exact hfail
      · split at hs
        · cases hs
          exact hfail
        · split at hs
          · cases hs
            refine h.forkOn (p := .copied c i d) hf (Nat.le_refl i) rfl ?_
            rintro d' ⟨⟩
            exact h.dev _ d hd
          · cases hs
            exact hfail
  · cases hs
    exact hfail

theorem copyTo (h : Inv s) (hpc : s.pc t = .copied c i d) : Inv (s.copyTo t c i d) := by
  have hf : (s.pc t).forks = some (c, i) := by rw [hpc]; rfl
  rw [State.copyTo]
  split
  · exact h.copyFail hf
  · next hon =>
    obtain ⟨hc, hfr, huniq⟩ := h.forks t c i hf
    obtain ⟨hdev, hcur⟩ := hfr i (Nat.le_refl i)
    have h₁ := h.forkOn hf (p := .fork c (i + 1)) (Nat.le_succ i) rfl fun _ he ↦ by cases he
    have hpt : (s.setPc t (.fork c (i + 1))).pc t = .fork c (i + 1) := Function.update_self ..
    have hpn : ∀ t', t' ≠ t → (s.setPc t (.fork c (i + 1))).pc t' = s.pc t' := fun t' ht ↦
      Function.update_of_ne ht ..
    have hct := (h.mayFork hf (Nat.le_refl i)).1
    refine h₁.insert (k := (c, i)) hdev ?_ ?_ ?_ (h.holds t d (by rw [hpc]; rfl))
      (Bool.eq_false_iff.2 hon)
    · intro t' d' hd'
      by_cases ht : t' = t
      · rw [ht, hpt] at hd'
        cases hd'
      · rw [hpn t' ht] at hd'
        exact hcur t' d' hd'
    · rw [hpn c hct, hc]
      exact fun he ↦ by cases he
    · intro t' c' j hj he
      obtain rfl : c = c' := he
      by_cases ht : t' = t
      · rw [ht, hpt] at hj
        cases hj
        exact Nat.lt_succ_self i
      · rw [hpn t' ht] at hj
        exact absurd (huniq t' j hj) ht

theorem endFork (h : Inv s) (hpc : s.pc t = .fork c i) :
    Inv ((s.setPc t .idle).setPc c .idle) := by
  have hf : (s.pc t).forks = some (c, i) := by rw [hpc]; rfl
  obtain ⟨hct, hc, -, huniq⟩ := h.mayFork hf (Nat.le_refl i)
  have h₁ := h.toIdle (t := t) (by rw [hpc]; rfl) (by rw [hpc]; exact fun he ↦ by cases he)
  have hpc₁ : (s.setPc t .idle).pc c = .child := (Function.update_of_ne hct ..).trans hc
  refine h₁.move (by rw [hpc₁]; rfl) ?_ rfl (fun he ↦ by cases he) (fun _ he ↦ by cases he)
    (fun _ _ he ↦ by cases he)
  intro t' j hj
  by_cases ht : t' = t
  · rw [ht] at hj
    rw [show (s.setPc t .idle).pc t = .idle from Function.update_self ..] at hj
    cases hj
  · rw [show (s.setPc t .idle).pc t' = s.pc t' from Function.update_of_ne ht ..] at hj
    exact ht (huniq t' j hj)

end Inv

theorem opCall_eq {k : Slot} (hs : s.opCall k = some (s', acc)) : s' = s := by
  rw [State.opCall] at hs
  split at hs
  · cases hs
    rfl
  · split at hs
    · split at hs
      · cases hs
      · cases hs
        rfl
    · cases hs
      rfl

/-- A timely step keeps the invariant. -/
theorem Inv.step (h : Inv s) {a : Act} (hs : step s t a = some (s', acc)) (ha : Timely s t a) :
    Inv s' := by
  unfold Life.step at hs
  split at hs
  · cases hs
    exact h.creat _ _
  · next did hpc =>
    cases hs
    cases hd : s.treeFind did with
    | none => exact h
    | some d => exact h.lookup hpc hd
  · next d ok hpc =>
    have hp := h.plug hpc ha
    rw [Option.some.inj hs] at hp
    exact hp
  · exact h.unplugSlot hs
  · rw [opCall_eq hs]
    exact h
  · next c hpc =>
    split at hs
    · next hc =>
      cases hs
      exact h.fork hpc hc
    · cases hs
  · next c i hpc =>
    split at hs
    · cases hs
      exact h.mark (by rw [hpc]; rfl)
    · cases hs
  · next c i ok hpc => exact h.copyFrom (by rw [hpc]; rfl) hs
  · next c i d hpc =>
    cases hs
    exact h.copyTo hpc
  · next c i hpc =>
    split at hs
    · cases hs
    · cases hs
      exact h.endFork hpc
  · next d hpc =>
    split at hs
    · next ho =>
      cases hs
      exact h.destroy hpc ho
    · cases hs
  · next d hpc =>
    cases hs
    exact h.untree hpc
  · next d n hpc =>
    obtain ⟨s₁, hs₁, he⟩ := Option.map_eq_some_iff.1 hs
    cases he
    exact h.collect hpc hs₁
  · next d k hpc =>
    cases hs
    exact h.detachFrom hpc
  · next d k hpc =>
    cases hs
    exact h.advance hpc
  · next d hpc =>
    cases hs
    exact h.endReqs hpc
  · next d hpc =>
    cases hs
    exact h.free hpc (ha d hpc)
  · cases hs

/-! ## What a step touches -/

theorem plug_touches : ∀ d' ∈ (s.plug t d ok).2, d' = d := by
  rw [State.plug]
  split
  · exact fun _ hd ↦ absurd hd List.not_mem_nil
  · split
    · exact fun _ ↦ List.mem_singleton.1
    · split <;> exact fun _ ↦ List.mem_singleton.1

theorem unplug_touches {k : Slot} (hs : s.unplug k = some (s', acc)) :
    ∀ d ∈ acc, s.dev k = some d := by
  rw [State.unplug] at hs
  split at hs
  · cases hs
    exact fun _ hd ↦ absurd hd List.not_mem_nil
  · split at hs
    · split at hs
      · cases hs
      · next d hd =>
        split at hs <;>
        · cases hs
          exact fun _ hd' ↦ List.mem_singleton.1 hd' ▸ hd
    · cases hs
      exact fun _ hd ↦ absurd hd List.not_mem_nil

theorem opCall_touches {k : Slot} (hs : s.opCall k = some (s', acc)) :
    ∀ d ∈ acc, s.dev k = some d := by
  rw [State.opCall] at hs
  split at hs
  · cases hs
    exact fun _ hd ↦ absurd hd List.not_mem_nil
  · split at hs
    · split at hs
      · cases hs
      · next d hd =>
        cases hs
        exact fun _ hd' ↦ List.mem_singleton.1 hd' ▸ hd
    · cases hs
      exact fun _ hd ↦ absurd hd List.not_mem_nil

theorem copyFrom_touches (hs : s.copyFrom t c i ok = some (s', acc)) :
    ∀ d ∈ acc, s.dev (t, i) = some d := by
  rw [State.copyFrom] at hs
  split at hs
  · split at hs
    · cases hs
    · next d hd =>
      have hmem : ∀ d' ∈ [d], s.dev (t, i) = some d' := fun _ hd' ↦ List.mem_singleton.1 hd' ▸ hd
      split at hs
      · cases hs
        exact hmem
      · split at hs
        · cases hs
          exact hmem
        · split at hs <;>
          · cases hs
            exact hmem
  · cases hs
    exact fun _ hd ↦ absurd hd List.not_mem_nil

/-- A step touches devices that are not freed only. -/
theorem Inv.touched (h : Inv s) {a : Act} (hs : Life.step s t a = some (s', acc)) :
    ∀ d ∈ acc, s.Live d := by
  have htree : ∀ d ∈ s.tree, s.Live d := fun d hd ↦ (h.tree d hd).1
  have hnil : ∀ d ∈ ([] : List Nat), s.Live d := fun _ hd ↦ absurd hd List.not_mem_nil
  have hdes : ∀ d, (s.pc t).destroys = some d → ∀ d' ∈ [d], s.Live d' := fun d hd d' hd' ↦
    List.mem_singleton.1 hd' ▸ h.live_of_destroys hd
  unfold Life.step at hs
  split at hs
  · cases hs
    exact htree
  · cases hs
    exact htree
  · next d ok hpc =>
    have hp : ∀ d' ∈ (s.plug t d ok).2, d' = d := plug_touches
    rw [Option.some.inj hs] at hp
    exact fun d' hd' ↦ hp d' hd' ▸ h.holds t d (by rw [hpc]; rfl)
  · exact fun d hd ↦ h.dev _ d (unplug_touches hs d hd)
  · exact fun d hd ↦ h.dev _ d (opCall_touches hs d hd)
  · split at hs
    · cases hs
      exact hnil
    · cases hs
  · split at hs
    · cases hs
      exact hnil
    · cases hs
  · exact fun d hd ↦ h.dev _ d (copyFrom_touches hs d hd)
  · next c i d hpc =>
    cases hs
    exact fun d' hd' ↦ List.mem_singleton.1 hd' ▸ h.holds t d (by rw [hpc]; rfl)
  · split at hs
    · cases hs
    · cases hs
      exact hnil
  · next d hpc =>
    split at hs
    · next ho =>
      cases hs
      exact fun d' hd' ↦ List.mem_singleton.1 hd' ▸ h.owner d t ho
    · cases hs
  · next d hpc =>
    cases hs
    intro d' hd'
    rcases List.mem_cons.1 hd' with rfl | hd'
    · exact h.live_of_destroys (by rw [hpc]; rfl)
    · exact htree d' hd'
  · next d n hpc =>
    obtain ⟨s₁, -, he⟩ := Option.map_eq_some_iff.1 hs
    cases he
    exact hdes d (by rw [hpc]; rfl)
  · next d k hpc =>
    cases hs
    exact hdes d (by rw [hpc]; rfl)
  · cases hs
    exact hnil
  · next d hpc =>
    cases hs
    exact hdes d (by rw [hpc]; rfl)
  · next d hpc =>
    cases hs
    exact hdes d (by rw [hpc]; rfl)
  · cases hs

/-! ## Runs -/

/-- A step of a thread. -/
def Step (s : State) (x : Nat × Act) (s' : State) : Prop := ∃ acc, step s x.1 x.2 = some (s', acc)

/-- No entry refers to a device that is freed, and no step touches one. -/
def Safe (s : State) : Prop :=
  (∀ k d, (s.slots k).dev = some d → (s.devs d).freed = false) ∧
  ∀ t a s' acc, step s t a = some (s', acc) → ∀ d ∈ acc, (s.devs d).freed = false

theorem Inv.safe (h : Inv s) : Safe s :=
  ⟨fun k d hd ↦ (h.dev k d hd).2, fun _ _ _ _ hs d hd ↦ (h.touched hs d hd).2⟩

/-- In every run of timely steps no step touches a device that is freed, and no entry refers to a
device once `usrdev_destroy` of it has returned. -/
theorem devices_outlive_uses (run : Nat → Bool) (xs : List (Nat × Act)) (s : State)
    (h : Run (fun s x s' ↦ Step s x s' ∧ Timely s x.1 x.2) (State.boot run) xs s) : Safe s := by
  refine Inv.safe (h.invariant (fun s x s' hs hx ↦ ?_) (Inv.boot run))
  obtain ⟨⟨acc, hstep⟩, ht⟩ := hx
  exact hs.step hstep ht

/-- A step that neither begins nor ends a fork leaves the other threads where they are. -/
theorem step_pc {a : Act} (hs : step s t a = some (s', acc)) (hf : ∀ c, a ≠ .fork c)
    (he : a ≠ .endFork) {t' : Nat} (ht : t' ≠ t) : s'.pc t' = s.pc t' := by
  have hup : ∀ (s₀ : State) p, (s₀.setPc t p).pc t' = s₀.pc t' := fun _ _ ↦
    Function.update_of_ne ht ..
  unfold step at hs
  split at hs
  · cases hs
    rw [State.creat]
    split <;> rfl
  · cases hs
    split
    · rfl
    · exact hup _ _
  · next d ok _ =>
    have hp : (s.plug t d ok).1.pc t' = s.pc t' := by
      rw [State.plug]
      split
      · exact hup _ _
      · split
        · exact hup _ _
        · split <;> exact hup _ _
    rwa [Option.some.inj hs] at hp
  · rw [State.unplug] at hs
    split at hs
    · cases hs
      rfl
    · split at hs
      · split at hs
        · cases hs
        · split at hs <;>
          · cases hs
            rfl
      · cases hs
        rfl
  · rw [opCall_eq hs]
  · next c _ => exact absurd rfl (hf c)
  · next c i _ =>
    split at hs
    · cases hs
      rw [State.mark]
      split <;> exact hup _ _
    · cases hs
  · next c i ok _ =>
    rw [State.copyFrom] at hs
    split at hs
    · split at hs
      · cases hs
      · split at hs
        · cases hs
          exact hup _ _
        · split at hs
          · cases hs
            exact hup _ _
          · split at hs <;>
            · cases hs
              exact hup _ _
    · cases hs
      exact hup _ _
  · next c i d _ =>
    cases hs
    rw [State.copyTo]
    split <;> exact hup _ _
  · exact absurd rfl he
  · split at hs
    · cases hs
      exact hup _ _
    · cases hs
  · cases hs
    exact hup _ _
  · next d n _ =>
    obtain ⟨s₁, hs₁, he⟩ := Option.map_eq_some_iff.1 hs
    cases he
    rw [State.collect] at hs₁
    split at hs₁
    · cases hs₁
    · cases hs₁
      exact hup _ _
  · cases hs
    exact hup _ _
  · cases hs
    exact hup _ _
  · cases hs
    exact hup _ _
  · cases hs
    exact hup _ _
  · cases hs

/-! ### Fixed runs -/

/-- The state after a step. -/
def after (s : State) (x : Nat × Act) : Except Unit State :=
  match step s x.1 x.2 with
  | some (s', _) => .ok s'
  | none => .error ()

theorem step_of_after {x : Nat × Act} (h : after s x = .ok s') : Step s x s' := by
  rw [after] at h
  split at h
  · next s₁ acc hs =>
    cases h
    exact ⟨acc, hs⟩
  · cases h

/-- Freeing and plugging in a state of `n` threads of which none is in the way. -/
def clear (n : Nat) (s : State) : Act → Bool
  | .fork _ => false
  | .endFork => false
  | .free => (List.range n).all fun t ↦ (s.pc t).holds = none
  | .plug _ => (List.range n).all fun t ↦ (s.pc t).collected = none
  | _ => true

/-- The state after a step of one of `n` threads. -/
def afterTimely (n : Nat) (s : State) (x : Nat × Act) : Except Unit State :=
  if x.1 < n ∧ clear n s x.2 then after s x else .error ()

theorem timely_of_clear {n : Nat} {a : Act} (hn : ∀ t, n ≤ t → s.pc t = .unborn)
    (h : clear n s a = true) : Timely s t a := by
  have hall : ∀ {f : Pc → Option Nat}, ((List.range n).all fun t ↦ f (s.pc t) = none) = true →
      f .unborn = none → ∀ t', f (s.pc t') = none := by
    intro f hf hu t'
    by_cases ht : t' < n
    · exact of_decide_eq_true (List.all_eq_true.1 hf t' (List.mem_range.2 ht))
    · rw [hn t' (Nat.le_of_not_lt ht), hu]
  cases a with
  | free =>
      intro d _ t' hd
      rw [hall h rfl t'] at hd
      cases hd
  | plug ok =>
      intro d i _ _ _ _ t' d' hd'
      have hc := hall (f := Pc.collected) h rfl t'
      rw [hd'] at hc
      cases hc
  | _ => trivial

/-- A run of timely steps of `n` threads that do not fork. -/
theorem timelyRun {n : Nat} {B : Type} {g : State → B} {b : B} {xs : List (Nat × Act)}
    (h : (xs.foldlM (afterTimely n) (State.boot (· < n))).toOption.map g = some b) :
    ∃ s, Run (fun s x s' ↦ Step s x s' ∧ Timely s x.1 x.2) (State.boot (· < n)) xs s ∧
      g s = b := by
  obtain ⟨s, hr, hg⟩ := Run.of_foldlM h
  have hsim : ∀ (s : State) (x : Nat × Act) (s' u : State),
      (s = u ∧ ∀ t, n ≤ t → s.pc t = .unborn) → afterTimely n s x = .ok s' →
      ∃ u', (Step u x u' ∧ Timely u x.1 x.2) ∧ s' = u' ∧ ∀ t, n ≤ t → s'.pc t = .unborn := by
    rintro s x s' _ ⟨rfl, hn⟩ hx
    rw [afterTimely] at hx
    split at hx
    · next hc =>
      obtain ⟨acc, hs⟩ := step_of_after hx
      refine ⟨s', ⟨⟨acc, hs⟩, timely_of_clear hn hc.2⟩, rfl, fun t ht ↦ ?_⟩
      rw [step_pc hs]
      · exact hn t ht
      · rintro c he
        rw [he] at hc
        exact Bool.false_ne_true hc.2
      · intro he
        rw [he] at hc
        exact Bool.false_ne_true hc.2
      · exact fun he ↦ Nat.not_lt.2 ht (he ▸ hc.1)
    · cases hx
  have hboot : ∀ t, n ≤ t → (State.boot (· < n)).pc t = .unborn := fun t ht ↦
    if_neg (by simpa using ht)
  obtain ⟨s', hr', rfl, -⟩ := hr.simulate hsim ⟨rfl, hboot⟩
  exact ⟨s, hr', hg⟩

/-- A device is plugged by a thread, and destroyed by its owner. -/
def destroyed : List (Nat × Act) :=
  [(0, .creat true 7), (1, .lookup 7), (1, .plug true), (1, .opCall 0), (0, .destroy 0),
    (0, .untree), (0, .collect 1), (1, .opCall 0), (0, .detachFrom), (1, .unplug 0), (0, .advance),
    (0, .endReqs), (0, .free)]

/-- The device is freed, and the entry that had it has not got it any more. -/
theorem devices_outlive_uses_two : ∃ s, Run Step (State.boot (· < 2)) destroyed s ∧ Safe s ∧
    (s.devs 0).freed = true := by
  have hrun : (destroyed.foldlM (afterTimely 2) (State.boot (· < 2))).toOption.map
      (fun s ↦ (s.devs 0).freed) = some true := by decide +kernel
  obtain ⟨s, hr, hf⟩ := timelyRun hrun
  exact ⟨s, hr.mono fun _ _ _ h ↦ h.1, devices_outlive_uses (· < 2) destroyed s hr, hf⟩

/-! ### Devices that are used after they are freed -/

/-- `bus_plug` has looked the device up when it is destroyed. -/
def stalePlug : List (Nat × Act) :=
  [(0, .creat true 7), (1, .lookup 7), (0, .destroy 0), (0, .untree), (0, .collect 0),
    (0, .endReqs), (0, .free)]

/-- `bus_copy` is between its locks when the device is destroyed. -/
def staleCopy : List (Nat × Act) :=
  [(0, .creat true 7), (1, .lookup 7), (1, .plug true), (1, .fork 3), (1, .mark),
    (1, .copyFrom true), (0, .destroy 0), (0, .untree), (0, .collect 1), (0, .detachFrom),
    (0, .advance), (0, .endReqs), (0, .free)]

/-- An entry is plugged again before `dev_detach` reads its link, which then leads to the end of
another list: the entry of thread 2 keeps the device. -/
def strayLoop : List (Nat × Act) :=
  [(0, .creat true 7), (0, .creat true 8), (1, .lookup 7), (1, .plug true), (2, .lookup 7),
    (2, .plug true), (0, .destroy 0), (0, .untree), (0, .collect 2), (0, .detachFrom),
    (1, .unplug 0), (1, .lookup 8), (1, .plug true), (0, .advance), (0, .endReqs), (0, .free)]

/-- A step touches a device that is freed. -/
def uses (t : Nat) (a : Act) (s : State) : Bool :=
  match step s t a with
  | some (_, acc) => acc.any fun d ↦ (s.devs d).freed
  | none => false

theorem not_safe_of_uses {a : Act} (h : uses t a s = true) : ¬ Safe s := by
  intro hsafe
  rw [uses] at h
  split at h
  · next s' acc hs =>
    obtain ⟨d, hd, hf⟩ := List.any_eq_true.1 h
    exact Bool.false_ne_true ((hsafe.2 t a s' acc hs d hd).symm.trans hf)
  · cases h

theorem run_uses {xs : List (Nat × Act)} {a : Act}
    (h : (xs.foldlM after (State.boot (· < 3))).toOption.map (uses t a) = some true) :
    ∃ s, Run Step (State.boot (· < 3)) xs s ∧ ¬ Safe s := by
  obtain ⟨s, hr, hu⟩ := Run.of_foldlM h
  exact ⟨s, hr.mono fun _ _ _ ↦ step_of_after, not_safe_of_uses hu⟩

/-- `bus_plug` locks, `bus_copy` locks, and an operation calls through a device that is freed. -/
theorem devices_used_after_free :
    (∃ s, Run Step (State.boot (· < 3)) stalePlug s ∧ ¬ Safe s) ∧
    (∃ s, Run Step (State.boot (· < 3)) staleCopy s ∧ ¬ Safe s) ∧
    ∃ s, Run Step (State.boot (· < 3)) strayLoop s ∧ ¬ Safe s := by
  refine ⟨?_, ?_, ?_⟩
  · exact run_uses (t := 1) (a := .plug true) (by decide +kernel)
  · exact run_uses (t := 1) (a := .copyTo) (by decide +kernel)
  · exact run_uses (t := 2) (a := .opCall 0) (by decide +kernel)

end Mh.Life
