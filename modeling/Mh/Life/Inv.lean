import Mh.Life.Model

/-!
# What holds of buses and devices

`Inv` is the invariant of the runs in which no thread has a device that is freed: an entry, the tree
and a thread that is in `bus_plug` or `bus_copy` have devices that are not freed; the entries of a
device that is on line are those of its list; and from where a thread is in the loop of `dev_detach`
the links lead through the entries that still refer to its device.
-/

namespace Mh.Life

open Mh.Lib Mh.Bus

namespace Pc

/-- The device of a thread that is in `bus_plug` or `bus_copy` between two parts. -/
def holds : Pc → Option Nat
  | plug d => some d
  | copied _ _ d => some d
  | _ => none

/-- The device that a thread destroys. -/
def destroys : Pc → Option Nat
  | detach d => some d
  | untreed d => some d
  | detachAt d _ => some d
  | detachNext d _ => some d
  | detached d => some d
  | _ => none

/-- The device that a thread has taken from the tree. -/
def gone : Pc → Option Nat
  | detach _ => none
  | p => p.destroys

/-- The device that a thread has taken off line. -/
def collected : Pc → Option Nat
  | untreed _ => none
  | p => p.gone

/-- The thread that is being created, and the first descriptor that may still be copied. -/
def forks : Pc → Option (Nat × Nat)
  | fork c i => some (c, i)
  | marked c i => some (c, i)
  | copied c i _ => some (c, i)
  | _ => none

variable {p : Pc} {d : Nat}

theorem destroys_of_gone (h : p.gone = some d) : p.destroys = some d := by
  cases p <;> first | exact h | cases h

theorem gone_of_collected (h : p.collected = some d) : p.gone = some d := by
  cases p <;> first | exact h | cases h

theorem destroys_of_collected (h : p.collected = some d) : p.destroys = some d :=
  destroys_of_gone (gone_of_collected h)

/-- A thread that forks does nothing else. -/
theorem destroys_of_forks {x : Nat × Nat} (h : p.forks = some x) :
    p.destroys = none ∧ p.collected = none := by
  cases p <;> first | exact ⟨rfl, rfl⟩ | cases h

theorem ne_of_forks {x : Nat × Nat} (h : p.forks = some x) : p ≠ child ∧ p ≠ unborn := by
  constructor
  · rintro rfl
    cases h
  · rintro rfl
    cases h

end Pc

/-- `xs` are the entries of `d`, and the links lead through them from `o`. -/
structure Listed (l : Links Node) (dev : Slot → Option Nat) (o : Node) (d : Nat)
    (xs : List Slot) : Prop where
  nodup : xs.Nodup
  linked : l.Linked (some o) (xs.map .entry)
  mem_iff : ∀ k, k ∈ xs ↔ dev k = some d

/-- What the loop of `dev_detach` has before it. -/
def Left (l : Links Node) (dev : Slot → Option Nat) : Pc → Prop
  | .detachAt d none => ∀ k, dev k ≠ some d
  | .detachAt d (some (.entry k)) => ∃ xs, (k :: xs).Nodup ∧
      l.Linked (some (.entry k)) (xs.map .entry) ∧ ∀ k', k' ∈ k :: xs ↔ dev k' = some d
  | .detachAt _ (some _) => False
  | .detachNext d k => dev k = none ∧ ∃ xs, Listed l dev (.entry k) d xs
  | .detached d => ∀ k, dev k ≠ some d
  | _ => True

/-- What is left stays when the entries of the device and the links at them stay. -/
theorem Left.congr {l l' : Links Node} {dev dev' : Slot → Option Nat} {p : Pc}
    (h : Left l dev p)
    (hdev : ∀ d, p.collected = some d → ∀ k, dev' k = some d ↔ dev k = some d)
    (hk : ∀ d k, p = .detachNext d k → dev k = none → dev' k = none)
    (hl : ∀ d, p.collected = some d → ∀ (k : Slot) (xs : List Slot),
      dev k = some d ∨ p = .detachNext d k ∧ dev k = none →
      (∀ k' ∈ xs, dev k' = some d) → l.Linked (some (.entry k)) (xs.map .entry) →
      l'.Linked (some (.entry k)) (xs.map .entry)) : Left l' dev' p := by
  cases p with
  | detachAt d bd =>
      cases bd with
      | none => exact fun k ↦ (hdev d rfl k).not.2 (h k)
      | some n =>
          cases n with
          | entry k =>
              obtain ⟨xs, hn, hx, hm⟩ := h
              refine ⟨xs, hn, hl d rfl k xs (.inl ((hm k).1 List.mem_cons_self))
                (fun k' hk' ↦ (hm k').1 (List.mem_cons_of_mem _ hk')) hx, fun k' ↦ ?_⟩
              rw [hm, hdev d rfl]
          | busdevs e => exact h
          | destroy t => exact h
  | detachNext d k =>
      obtain ⟨hnone, xs, hx⟩ := h
      refine ⟨hk d k rfl hnone, xs, hx.nodup, hl d rfl k xs (.inr ⟨rfl, hnone⟩)
        (fun k' ↦ (hx.mem_iff k').1) hx.linked, fun k' ↦ ?_⟩
      rw [hx.mem_iff, hdev d rfl]
  | detached d => exact fun k ↦ (hdev d rfl k).not.2 (h k)
  | _ => trivial

/-- A step that is about the device `d` leaves the loop of a thread that destroys another one. -/
theorem Left.frame {l l' : Links Node} {dev dev' : Slot → Option Nat} {p : Pc} {d : Nat}
    (h : Left l dev p) (hp : p.collected ≠ some d)
    (hdev : ∀ d', d' ≠ d → ∀ k, dev' k = some d' ↔ dev k = some d')
    (hnone : ∀ d' k, p = .detachNext d' k → dev k = none → dev' k = none)
    (hl : ∀ (k : Slot) (xs : List Slot), dev k ≠ some d →
      (dev k = none → ∃ d', p = .detachNext d' k) →
      (∀ k' ∈ xs, dev k' ≠ none ∧ dev k' ≠ some d) →
      l.Linked (some (.entry k)) (xs.map .entry) →
      l'.Linked (some (.entry k)) (xs.map .entry)) : Left l' dev' p := by
  have hne : ∀ d', p.collected = some d' → d' ≠ d := by
    rintro d' hd' rfl
    exact hp hd'
  refine h.congr (fun d' hd' ↦ hdev d' (hne d' hd')) hnone fun d' hd' k xs hk hxs ↦ ?_
  refine hl k xs ?_ (fun hkn ↦ ?_) fun k' hk' ↦ ?_
  · rcases hk with hk | ⟨-, hk⟩
    · rw [hk]
      exact fun ho ↦ hne d' hd' (Option.some.inj ho)
    · rw [hk]
      exact (Option.some_ne_none d).symm
  · rcases hk with hk | ⟨hpk, -⟩
    · rw [hk] at hkn
      cases hkn
    · exact ⟨d', hpk⟩
  · rw [hxs k' hk']
    exact ⟨Option.some_ne_none d', fun ho ↦ hne d' hd' (Option.some.inj ho)⟩

/-- A thread that is not in the loop has nothing left. -/
theorem Left.of_collected {l : Links Node} {dev : Slot → Option Nat} {p : Pc}
    (h : p.collected = none) : Left l dev p := by
  cases p <;> trivial

namespace State

variable (s : State)

/-- The device of an entry. -/
def dev (k : Slot) : Option Nat := (s.slots k).dev

/-- An entry without a device, that no loop of `dev_detach` is at. -/
def Fresh (k : Slot) : Prop := s.dev k = none ∧ ∀ t d, s.pc t ≠ .detachNext d k

/-- A device that has been allocated and is not freed. -/
def Live (d : Nat) : Prop := d < s.next ∧ (s.devs d).freed = false

/-- A thread may fork `c`, from descriptor `i` on. -/
def MayFork (t c i : Nat) : Prop :=
  c ≠ t ∧ s.pc c = .child ∧ (∀ j, i ≤ j → s.Fresh (c, j)) ∧
    ∀ t' j, (s.pc t').forks = some (c, j) → t' = t

end State

/-- The invariant. -/
structure Inv (s : State) : Prop where
  tree : ∀ d ∈ s.tree, s.Live d ∧ ∀ t, (s.pc t).gone ≠ some d
  dev : ∀ k d, s.dev k = some d → s.Live d
  holds : ∀ t d, (s.pc t).holds = some d → s.Live d
  destroys : ∀ t d, (s.pc t).destroys = some d → (s.devs d).owner = some t
  owner : ∀ d t, (s.devs d).owner = some t → s.Live d
  offline : ∀ d, (s.devs d).offline = true →
    (s.devs d).freed = true ∨ ∃ t, (s.pc t).collected = some d
  collected : ∀ t d, (s.pc t).collected = some d → (s.devs d).offline = true
  unborn : ∀ c, s.pc c = .unborn → ∀ i, s.Fresh (c, i)
  forks : ∀ t c i, (s.pc t).forks = some (c, i) → s.pc c = .child ∧ (∀ j, i ≤ j → s.Fresh (c, j)) ∧
    ∀ t' j, (s.pc t').forks = some (c, j) → t' = t
  listed : ∀ d, d < s.next → (s.devs d).offline = false →
    ∃ xs, Listed s.links s.dev (.busdevs d) d xs
  left : ∀ t, Left s.links s.dev (s.pc t)

variable {s : State} {t d : Nat} {k : Slot}

namespace Inv

/-- A device that is being destroyed is not freed. -/
theorem live_of_destroys (h : Inv s) (hd : (s.pc t).destroys = some d) : s.Live d :=
  h.owner d t (h.destroys t d hd)

/-- One thread destroys a device. -/
theorem destroys_inj (h : Inv s) {t' : Nat} (hd : (s.pc t).destroys = some d)
    (hd' : (s.pc t').destroys = some d) : t' = t := by
  have ho := h.destroys t d hd
  rw [h.destroys t' d hd'] at ho
  exact Option.some.inj ho

theorem boot (run : Nat → Bool) : Inv (State.boot run) := by
  have hpc : ∀ t, (State.boot run).pc t = .idle ∨ (State.boot run).pc t = .unborn := by
    intro t
    show (if run t then Pc.idle else .unborn) = _ ∨ (if run t then Pc.idle else .unborn) = _
    cases run t <;> simp
  have hnone : ∀ {α : Type} (f : Pc → Option α), f .idle = none → f .unborn = none →
      ∀ t a, f ((State.boot run).pc t) ≠ some a := by
    intro α f hi hu t a he
    rcases hpc t with hp | hp
    · rw [hp, hi] at he
      cases he
    · rw [hp, hu] at he
      cases he
  constructor
  · exact fun d hd ↦ absurd hd List.not_mem_nil
  · exact fun k d hd ↦ by cases hd
  · exact fun t d hd ↦ absurd hd (hnone _ rfl rfl t d)
  · exact fun t d hd ↦ absurd hd (hnone _ rfl rfl t d)
  · exact fun d t hd ↦ by cases hd
  · exact fun d hd ↦ by cases hd
  · exact fun t d hd ↦ absurd hd (hnone _ rfl rfl t d)
  · refine fun c _ i ↦ ⟨rfl, fun t d hd ↦ ?_⟩
    rcases hpc t with hp | hp
    · rw [hp] at hd
      cases hd
    · rw [hp] at hd
      cases hd
  · exact fun t c i hd ↦ absurd hd (hnone _ rfl rfl t _)
  · exact fun d hd ↦ absurd hd (Nat.not_lt_zero _)
  · intro t
    rcases hpc t with hp | hp
    · rw [hp]
      trivial
    · rw [hp]
      trivial

/-! ## Steps of a thread alone -/

theorem mayFork (h : Inv s) {c i j : Nat} (hf : (s.pc t).forks = some (c, i)) (hij : i ≤ j) :
    s.MayFork t c j := by
  obtain ⟨hc, hfr, huniq⟩ := h.forks t c i hf
  refine ⟨?_, hc, fun j' hj ↦ hfr j' (Nat.le_trans hij hj), huniq⟩
  rintro rfl
  rw [hc] at hf
  cases hf

/-- A thread that runs is not being forked. -/
theorem not_forked (h : Inv s) (hch : s.pc t ≠ .child) (t' i : Nat) :
    (s.pc t').forks ≠ some (t, i) := fun hf ↦ hch (h.forks t' t i hf).1

/-- A thread goes on: what holds of its place holds of all of them. -/
theorem same_of_update {α : Type} {s' : State} {p : Pc} (hpc : s'.pc = Function.update s.pc t p)
    (f : Pc → Option α) (hf : f p = f (s.pc t)) (t' : Nat) : f (s'.pc t') = f (s.pc t') := by
  rw [hpc]
  by_cases ht : t' = t
  · rw [ht, Function.update_self, hf]
  · rw [Function.update_of_ne ht]

/-- A thread goes on, not to an entry that has no device. -/
theorem fresh_of_update {s' : State} {p : Pc} (hpc : s'.pc = Function.update s.pc t p)
    (hp : ∀ d k, p = .detachNext d k → s.dev k ≠ none)
    (hdev : ∀ k, s.dev k = none → s'.dev k = none) (k : Slot) (hk : s.Fresh k) : s'.Fresh k := by
  refine ⟨hdev k hk.1, fun t' d hd ↦ ?_⟩
  rw [hpc] at hd
  by_cases ht : t' = t
  · rw [ht, Function.update_self] at hd
    exact hp d k hd hk.1
  · rw [Function.update_of_ne ht] at hd
    exact hk.2 t' d hd

/-- The threads stay where they are. -/
theorem forks_of_eq (h : Inv s) (s' : State) (hpc : s'.pc = s.pc)
    (hfresh : ∀ k, s.Fresh k → s'.Fresh k) :
    (∀ c, s'.pc c = .unborn → ∀ i, s'.Fresh (c, i)) ∧
    ∀ t c i, (s'.pc t).forks = some (c, i) → s'.pc c = .child ∧
      (∀ j, i ≤ j → s'.Fresh (c, j)) ∧ ∀ t' j, (s'.pc t').forks = some (c, j) → t' = t := by
  rw [hpc]
  refine ⟨fun c hc i ↦ hfresh _ (h.unborn c hc i), fun t c i hi ↦ ?_⟩
  obtain ⟨hc, hfr, huniq⟩ := h.forks t c i hi
  exact ⟨hc, fun j hj ↦ hfresh _ (hfr j hj), huniq⟩

/-- What a thread that goes on does to those that fork. -/
theorem forks_of_update (h : Inv s) (s' : State) {p : Pc} (hpc : s'.pc = Function.update s.pc t p)
    (hch : ∀ t' i, (s.pc t').forks ≠ some (t, i)) (hu : p ≠ .unborn)
    (hf : ∀ c i, p.forks = some (c, i) → s.MayFork t c i)
    (hfresh : ∀ k, s.Fresh k → s'.Fresh k) :
    (∀ c, s'.pc c = .unborn → ∀ i, s'.Fresh (c, i)) ∧
    ∀ t c i, (s'.pc t).forks = some (c, i) → s'.pc c = .child ∧
      (∀ j, i ≤ j → s'.Fresh (c, j)) ∧ ∀ t' j, (s'.pc t').forks = some (c, j) → t' = t := by
  have hself : s'.pc t = p := by rw [hpc, Function.update_self]
  have hne : ∀ t', t' ≠ t → s'.pc t' = s.pc t' := fun t' ht ↦ by
    rw [hpc, Function.update_of_ne ht]
  have hforks : ∀ t' c i, (s'.pc t').forks = some (c, i) → s.MayFork t' c i ∧ c ≠ t := by
    intro t' c i hi
    by_cases ht : t' = t
    · rw [ht, hself] at hi
      exact ⟨ht ▸ hf c i hi, (hf c i hi).1⟩
    · rw [hne t' ht] at hi
      refine ⟨h.mayFork hi (Nat.le_refl _), ?_⟩
      rintro rfl
      exact hch t' i hi
  constructor
  · intro c hc i
    by_cases ht : c = t
    · rw [ht, hself] at hc
      exact absurd hc hu
    · rw [hne c ht] at hc
      exact hfresh _ (h.unborn c hc i)
  · intro t' c i hi
    obtain ⟨⟨-, hc, hfr, huniq⟩, hct⟩ := hforks t' c i hi
    refine ⟨by rw [hne c hct, hc], fun j hj ↦ hfresh _ (hfr j hj), fun t'' j hj ↦ ?_⟩
    obtain ⟨⟨-, -, -, huniq'⟩, -⟩ := hforks t'' c j hj
    by_cases ht : t' = t
    · by_cases ht' : t'' = t
      · rw [ht, ht']
      · rw [hne t'' ht'] at hj
        exact huniq t'' j hj
    · rw [hne t' ht] at hi
      exact (huniq' t' i hi).symm

/-- A thread goes on. -/
theorem setPc (h : Inv s) {p : Pc} (hch : ∀ t' i, (s.pc t').forks ≠ some (t, i))
    (hu : p ≠ .unborn) (hl : ∀ d, p.holds = some d → s.Live d)
    (hf : ∀ c i, p.forks = some (c, i) → s.MayFork t c i)
    (hd : ∀ d, p.destroys = some d → (s.devs d).owner = some t)
    (hg : ∀ d, p.gone = some d → d ∉ s.tree) (hc : p.collected = (s.pc t).collected)
    (hcur : ∀ d k, p ≠ .detachNext d k) (hleft : Left s.links s.dev p) : Inv (s.setPc t p) := by
  have hself : (s.setPc t p).pc t = p := Function.update_self ..
  have hne : ∀ t', t' ≠ t → (s.setPc t p).pc t' = s.pc t' := fun t' ht ↦
    Function.update_of_ne ht ..
  have hcol : ∀ t', ((s.setPc t p).pc t').collected = (s.pc t').collected :=
    same_of_update rfl Pc.collected hc
  obtain ⟨hunborn, hforks⟩ := h.forks_of_update (s.setPc t p) rfl hch hu hf
    (fresh_of_update rfl (fun d k hp ↦ absurd hp (hcur d k)) fun _ hk ↦ hk)
  refine ⟨?_, h.dev, ?_, ?_, h.owner, ?_, ?_, hunborn, hforks, h.listed, ?_⟩
  · refine fun d hd ↦ ⟨(h.tree d hd).1, fun t' hgone ↦ ?_⟩
    by_cases ht : t' = t
    · rw [ht, hself] at hgone
      exact hg d hgone hd
    · rw [hne t' ht] at hgone
      exact (h.tree d hd).2 t' hgone
  · intro t' d hd
    by_cases ht : t' = t
    · rw [ht, hself] at hd
      exact hl d hd
    · rw [hne t' ht] at hd
      exact h.holds t' d hd
  · intro t' d hd'
    by_cases ht : t' = t
    · rw [ht, hself] at hd'
      exact ht ▸ hd d hd'
    · rw [hne t' ht] at hd'
      exact h.destroys t' d hd'
  · simp only [hcol]
    exact h.offline
  · simp only [hcol]
    exact h.collected
  · intro t'
    by_cases ht : t' = t
    · rw [ht, hself]
      exact hleft
    · rw [hne t' ht]
      exact h.left t'

/-- A thread goes on, destroying no device. -/
theorem move (h : Inv s) {p : Pc} (hcol : (s.pc t).collected = none)
    (hch : ∀ t' i, (s.pc t').forks ≠ some (t, i)) (hp : p.destroys = none) (hu : p ≠ .unborn)
    (hl : ∀ d, p.holds = some d → s.Live d)
    (hf : ∀ c i, p.forks = some (c, i) → s.MayFork t c i) :
    Inv (s.setPc t p) := by
  have hpc : p.collected = none := by
    cases hc : p.collected with
    | none => rfl
    | some d =>
        rw [Pc.destroys_of_collected hc] at hp
        cases hp
  refine h.setPc hch hu hl hf (fun d hd ↦ ?_) (fun d hd ↦ ?_) (hpc.trans hcol.symm) ?_
    (.of_collected hpc)
  · rw [hp] at hd
    cases hd
  · rw [Pc.destroys_of_gone hd] at hp
    cases hp
  · rintro d k rfl
    cases hp

/-- The entries keep their devices. -/
theorem setSlots (h : Inv s) {f : Slot → Bdeve} (hf : ∀ k, (f k).dev = s.dev k) :
    Inv { s with slots := f } := by
  have hdev : ({ s with slots := f } : State).dev = s.dev := funext hf
  obtain ⟨hunborn, hforks⟩ := h.forks_of_eq { s with slots := f } rfl
    fun k hk ↦ ⟨by rw [hdev]; exact hk.1, hk.2⟩
  constructor
  · exact h.tree
  · rw [hdev]
    exact h.dev
  · exact h.holds
  · exact h.destroys
  · exact h.owner
  · exact h.offline
  · exact h.collected
  · exact hunborn
  · exact hforks
  · rw [hdev]
    exact h.listed
  · rw [hdev]
    exact h.left

theorem setSlot (h : Inv s) {b : Bdeve} (hb : b.dev = s.dev k) : Inv (s.setSlot k b) := by
  refine h.setSlots fun k' ↦ ?_
  by_cases hk : k' = k
  · rw [hk, Function.update_self, hb]
  · rw [Function.update_of_ne hk]
    rfl

/-! ## Entries get and lose a device -/

end Inv

theorem entry_injective : Function.Injective Node.entry := fun _ _ ↦ Node.entry.inj

theorem notMem_entries {o : Node} (ho : ∀ k, o ≠ .entry k) (xs : List Slot) :
    o ∉ xs.map Node.entry := by
  intro hm
  obtain ⟨k, -, hk⟩ := List.mem_map.1 hm
  exact ho k hk.symm

/-- The head of another list is written. -/
theorem linked_setLink {l : Links Node} {o q : Node} {xs : List Slot}
    (hl : l.Linked (some o) (xs.map .entry)) (hq : q ≠ o) (he : ∀ k, q ≠ .entry k)
    (v : Option Node) : (l.setLink (some q) v).Linked (some o) (xs.map .entry) := by
  refine hl.setLink (fun hm ↦ ?_) v
  rcases List.mem_cons.1 hm with ho | hm
  · exact hq (Option.some.inj ho)
  · rw [List.mem_map_of_injective (Option.some_injective _)] at hm
    exact notMem_entries he xs hm

/-- Two lists that have nothing in common. -/
theorem disjoint_nodes {o o' : Node} {xs ys : List Slot} (ho : o ≠ o') (hxy : ∀ k ∈ xs, k ∉ ys)
    (hx : ∀ k, o' = .entry k → k ∉ xs) (hy : ∀ k, o = .entry k → k ∉ ys) :
    (o :: xs.map .entry).Disjoint (o' :: ys.map .entry) := by
  intro n hn hn'
  rcases List.mem_cons.1 hn with rfl | hn
  · rcases List.mem_cons.1 hn' with he | hn'
    · exact ho he
    · obtain ⟨k, hk, rfl⟩ := List.mem_map.1 hn'
      exact hy k rfl hk
  · obtain ⟨k, hk, rfl⟩ := List.mem_map.1 hn
    rcases List.mem_cons.1 hn' with he | hn'
    · exact hx k he.symm hk
    · rw [List.mem_map_of_injective entry_injective] at hn'
      exact hxy k hk hn'

namespace Listed

variable {l : Links Node} {dev : Slot → Option Nat} {xs : List Slot} {o : Node}

theorem nodup_nodes (h : Listed l dev (.busdevs d) d xs) :
    (Node.busdevs d :: xs.map Node.entry).Nodup :=
  List.nodup_cons.2 ⟨notMem_entries (fun _ hc ↦ by cases hc) xs, h.nodup.map entry_injective⟩

/-- The entries of other devices are not in the list. -/
theorem disjoint_of_dev (h : Listed l dev (.busdevs d) d xs) (ho : o ≠ .busdevs d)
    (hok : ∀ k, o = .entry k → dev k ≠ some d) {ys : List Slot}
    (hys : ∀ k ∈ ys, dev k ≠ some d) :
    (Node.busdevs d :: xs.map Node.entry).Disjoint (o :: ys.map Node.entry) :=
  disjoint_nodes ho.symm (fun k hk hk' ↦ hys k hk' ((h.mem_iff k).1 hk))
    (fun k he hk ↦ hok k he ((h.mem_iff k).1 hk)) (fun k he ↦ by cases he)

/-- A step that is about another device leaves the list. -/
theorem frame {l' : Links Node} {dev' : Slot → Option Nat} {d' : Nat}
    (h : Listed l dev (.busdevs d') d' xs) (hd : d' ≠ d)
    (hdev : ∀ d', d' ≠ d → ∀ k, dev' k = some d' ↔ dev k = some d')
    (hl : Node.busdevs d' ≠ .busdevs d → (∀ k ∈ xs, dev k ≠ none ∧ dev k ≠ some d) →
      l.Linked (some (.busdevs d')) (xs.map .entry) →
      l'.Linked (some (.busdevs d')) (xs.map .entry)) : Listed l' dev' (.busdevs d') d' xs where
  nodup := h.nodup
  linked := by
    refine hl (fun hb ↦ hd (Node.busdevs.inj hb)) (fun k hk ↦ ?_) h.linked
    rw [(h.mem_iff k).1 hk]
    exact ⟨Option.some_ne_none d', fun ho ↦ hd (Option.some.inj ho)⟩
  mem_iff k := by rw [h.mem_iff, hdev d' hd]

end Listed

/-! ### An entry gets a device -/

section Insert

variable {k' : Slot} {xs : List Slot}

theorem State.insert_dev_self : (s.insert k d).dev k = some d := by
  show (Function.update s.slots k _ k).dev = _
  rw [Function.update_self]

theorem State.insert_dev_of_ne (hk : k' ≠ k) : (s.insert k d).dev k' = s.dev k' := by
  show (Function.update s.slots k _ k').dev = _
  rw [Function.update_of_ne hk]
  rfl

theorem State.insert_dev_iff (hk : s.dev k = none) (d' : Nat) (hd : d' ≠ d) (k' : Slot) :
    (s.insert k d).dev k' = some d' ↔ s.dev k' = some d' := by
  by_cases he : k' = k
  · rw [he, insert_dev_self, hk]
    constructor
    · rintro ⟨⟩
      exact absurd rfl hd
    · rintro ⟨⟩
  · rw [insert_dev_of_ne he]

theorem State.fresh_insert (hk : k' ≠ k) (hf : s.Fresh k') : (s.insert k d).Fresh k' :=
  ⟨by rw [insert_dev_of_ne hk]; exact hf.1, hf.2⟩

/-- The entry becomes the first one of its device. -/
theorem Listed.insert (h : Listed s.links s.dev (.busdevs d) d xs) (hk : s.dev k = none) :
    Listed (s.insert k d).links (s.insert k d).dev (.busdevs d) d (k :: xs) := by
  have hkx : k ∉ xs := fun hm ↦ by
    rw [h.mem_iff, hk] at hm
    cases hm
  have hnode : Node.entry k ∉ Node.busdevs d :: xs.map Node.entry := by
    intro hm
    rcases List.mem_cons.1 hm with he | hm
    · cases he
    · exact hkx ((List.mem_map_of_injective entry_injective).1 hm)
  refine ⟨List.nodup_cons.2 ⟨hkx, h.nodup⟩, h.linked.insertAfter h.nodup_nodes hnode, fun k' ↦ ?_⟩
  rw [List.mem_cons, h.mem_iff]
  by_cases hk' : k' = k
  · rw [hk', State.insert_dev_self]
    exact ⟨fun _ ↦ rfl, fun _ ↦ .inl rfl⟩
  · rw [State.insert_dev_of_ne hk']
    exact ⟨fun ho ↦ ho.resolve_left hk', .inr⟩

/-- The lists of other devices. -/
theorem Listed.linked_insert (h : Listed s.links s.dev (.busdevs d) d xs) (hk : s.dev k = none)
    {o : Node} {ys : List Slot} (ho : o ≠ .busdevs d) (hok : o ≠ .entry k)
    (hod : ∀ k', o = .entry k' → s.dev k' ≠ some d)
    (hys : ∀ k' ∈ ys, s.dev k' ≠ none ∧ s.dev k' ≠ some d)
    (hl : s.links.Linked (some o) (ys.map .entry)) :
    (s.insert k d).links.Linked (some o) (ys.map .entry) := by
  refine h.linked.insertAfter_of_disjoint hl ?_
    (h.disjoint_of_dev ho hod fun k' hk' ↦ (hys k' hk').2)
  intro hm
  rcases List.mem_cons.1 hm with he | hm
  · exact hok he.symm
  · rw [List.mem_map_of_injective entry_injective] at hm
    exact (hys k hm).1 hk

end Insert

namespace Inv

/-- A device that is on line is no thread's that is in the loop. -/
theorem collected_ne (h : Inv s) (hon : (s.devs d).offline = false) (t : Nat) :
    (s.pc t).collected ≠ some d := by
  intro hd
  rw [h.collected t d hd] at hon
  cases hon

theorem insert (h : Inv s) (hk : s.dev k = none) (hcur : ∀ t d', s.pc t ≠ .detachNext d' k)
    (hbus : s.pc k.1 ≠ .unborn)
    (hfork : ∀ t c i, (s.pc t).forks = some (c, i) → k.1 = c → k.2 < i)
    (hd : s.Live d) (hon : (s.devs d).offline = false) : Inv (s.insert k d) := by
  obtain ⟨xs, hxs⟩ := h.listed d hd.1 hon
  constructor
  · exact h.tree
  · intro k' d' hk'
    by_cases he : k' = k
    · rw [he, State.insert_dev_self] at hk'
      cases hk'
      exact hd
    · rw [State.insert_dev_of_ne he] at hk'
      exact h.dev k' d' hk'
  · exact h.holds
  · exact h.destroys
  · exact h.owner
  · exact h.offline
  · exact h.collected
  · refine fun c hc i ↦ State.fresh_insert ?_ (h.unborn c hc i)
    rintro rfl
    exact hbus hc
  · intro t c i hi
    obtain ⟨hc, hfr, huniq⟩ := h.forks t c i hi
    refine ⟨hc, fun j hj ↦ State.fresh_insert ?_ (hfr j hj), huniq⟩
    rintro rfl
    exact Nat.not_lt.2 hj (hfork t c i hi rfl)
  · intro d' hd' hon'
    by_cases he : d' = d
    · subst he
      exact ⟨k :: xs, hxs.insert hk⟩
    · obtain ⟨ys, hys⟩ := h.listed d' hd' hon'
      exact ⟨ys, hys.frame he (State.insert_dev_iff hk) fun ho hys' ↦
        hxs.linked_insert hk ho (fun hb ↦ by cases hb) (fun _ hb ↦ by cases hb) hys'⟩
  · intro t
    refine (h.left t).frame (h.collected_ne hon t) (State.insert_dev_iff hk) ?_ ?_
    · intro d' k' hp hk'
      have he : k' ≠ k := fun he ↦ hcur t d' (he ▸ hp)
      rw [State.insert_dev_of_ne he]
      exact hk'
    · intro k' ys hk' hat hys
      refine hxs.linked_insert hk (fun hb ↦ by cases hb) ?_ (fun _ hb ↦ Node.entry.inj hb ▸ hk') hys
      rintro ⟨⟩
      obtain ⟨d', hp⟩ := hat hk
      exact hcur t d' hp

end Inv

end Mh.Life
