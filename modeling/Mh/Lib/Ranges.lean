import Mathlib.Algebra.BigOperators.Group.Finset.Basic
import Mathlib.Data.Set.Insert
import Mathlib.Order.Interval.Finset.Nat

/-!
# Ranges

An allocator of ranges keeps the free addresses as a set of ranges `[lo, hi)`, each
of them in a zone.  The set is `Tidy` when its ranges are not empty, do not overlap,
and no two of one zone touch: then each range is a maximal run of free addresses of
its zone.

Freeing a block joins it with the ranges of its zone that touch it on either side.
`Tidy.merge` says that the result is tidy and that exactly the addresses of the
block have become free (`cover_merge`); taking a range out leaves the rest tidy
(`Tidy.erase`).  Ranges that do not overlap and end below `n` have at most `n`
addresses between them (`sum_lengths_le`).
-/

universe u v

namespace Mh.Lib

/-- The addresses from `lo` to before `hi`, in zone `zone`. -/
@[ext]
structure Range (ι : Type u) where
  lo : Nat
  hi : Nat
  zone : ι

namespace Range

variable {ι : Type u} {R : Set (Range ι)} {r r' : Range ι} {a b x : Nat} {i j : ι}
  {p n : Option (Range ι)}

/-- The number of addresses of a range. -/
def len (r : Range ι) : Nat := r.hi - r.lo

/-- Ranges that are not empty, do not overlap, and do not touch within a zone. -/
structure Tidy (R : Set (Range ι)) : Prop where
  pos : ∀ r ∈ R, r.lo < r.hi
  apart : ∀ r ∈ R, ∀ r' ∈ R, r ≠ r' → r.hi ≤ r'.lo ∨ r'.hi ≤ r.lo
  maximal : ∀ r ∈ R, ∀ r' ∈ R, r.zone = r'.zone → r.hi ≠ r'.lo

/-- The addresses of zone `i` in some range of `R`. -/
def cover (R : Set (Range ι)) (i : ι) : Set Nat :=
  {x | ∃ r ∈ R, r.zone = i ∧ r.lo ≤ x ∧ x < r.hi}

theorem tidy_empty : Tidy (∅ : Set (Range ι)) where
  pos r hr := absurd hr (Set.notMem_empty r)
  apart r hr := absurd hr (Set.notMem_empty r)
  maximal r hr := absurd hr (Set.notMem_empty r)

theorem Tidy.mono (h : Tidy R) {R' : Set (Range ι)} (hsub : R' ⊆ R) : Tidy R' where
  pos r hr := h.pos r (hsub hr)
  apart r hr r' hr' := h.apart r (hsub hr) r' (hsub hr')
  maximal r hr r' hr' := h.maximal r (hsub hr) r' (hsub hr')

/-- An address is in one range only. -/
theorem Tidy.unique (h : Tidy R) (hr : r ∈ R) (hr' : r' ∈ R) (hx : r.lo ≤ x ∧ x < r.hi)
    (hx' : r'.lo ≤ x ∧ x < r'.hi) : r = r' := by
  by_contra hne
  rcases h.apart r hr r' hr' hne with hle | hle
  · omega
  · omega

/-- The range that touches a block from below, and the one that touches it from
above. -/
structure Neighbors (R : Set (Range ι)) (a b : Nat) (i : ι) (p n : Option (Range ι)) : Prop where
  prev : ∀ r, p = some r ↔ r ∈ R ∧ r.zone = i ∧ r.hi = a
  next : ∀ r, n = some r ↔ r ∈ R ∧ r.zone = i ∧ r.lo = b

/-- A block together with its neighbours. -/
def join (a b : Nat) (i : ι) (p n : Option (Range ι)) : Range ι where
  lo := p.elim a Range.lo
  hi := n.elim b Range.hi
  zone := i

/-- The ranges after a block is joined with its neighbours. -/
def merge (R : Set (Range ι)) (a b : Nat) (i : ι) (p n : Option (Range ι)) : Set (Range ι) :=
  insert (join a b i p n) {r ∈ R | p ≠ some r ∧ n ≠ some r}

section Merge

theorem join_lo_le (h : Tidy R) (hn : Neighbors R a b i p n) : (join a b i p n).lo ≤ a := by
  cases hp : p with
  | none => exact le_rfl
  | some r =>
      obtain ⟨hr, _, he⟩ := (hn.prev r).1 hp
      have hlt := h.pos r hr
      show r.lo ≤ a
      omega

theorem le_join_hi (h : Tidy R) (hn : Neighbors R a b i p n) : b ≤ (join a b i p n).hi := by
  cases hn' : n with
  | none => exact le_rfl
  | some r =>
      obtain ⟨hr, _, he⟩ := (hn.next r).1 hn'
      have hlt := h.pos r hr
      show b ≤ r.hi
      omega

/-- A range of the result ends where one of its zone did, or with the block. -/
theorem hi_of_mem_merge (hn : Neighbors R a b i p n) (hr : r ∈ merge R a b i p n) :
    (∃ r' ∈ R, r'.zone = r.zone ∧ r'.hi = r.hi) ∨ r.zone = i ∧ r.hi = b := by
  rcases hr with rfl | hr
  · cases hn' : n with
    | none => exact .inr ⟨rfl, rfl⟩
    | some r' =>
        obtain ⟨hr', hz, -⟩ := (hn.next r').1 hn'
        exact .inl ⟨r', hr', hz, rfl⟩
  · exact .inl ⟨r, hr.1, rfl, rfl⟩

/-- A range that is not a neighbour stays clear of the joined block. -/
theorem Tidy.clear_of_join (h : Tidy R) (hab : a < b) (hfree : ∀ r ∈ R, r.hi ≤ a ∨ b ≤ r.lo)
    (hn : Neighbors R a b i p n) (hr : r ∈ R) (hp : p ≠ some r) (hn' : n ≠ some r) :
    (r.hi ≤ (join a b i p n).lo ∨ (join a b i p n).hi ≤ r.lo) ∧
      (r.zone = i → r.hi ≠ (join a b i p n).lo ∧ (join a b i p n).hi ≠ r.lo) := by
  have hpos := h.pos r hr
  -- towards the neighbour below, if there is one, and the one above
  have hlow : r.hi ≤ a → r.hi ≤ (join a b i p n).lo ∧
      (r.zone = i → r.hi ≠ (join a b i p n).lo) := by
    intro hle
    cases hp' : p with
    | none =>
        refine ⟨hle, fun hz he ↦ ?_⟩
        have hsome := (hn.prev r).2 ⟨hr, hz, he⟩
        rw [hp'] at hsome
        cases hsome
    | some q =>
        obtain ⟨hq, hqz, hqa⟩ := (hn.prev q).1 hp'
        have hne : r ≠ q := by
          rintro rfl
          exact hp hp'
        have hpq := h.pos q hq
        refine ⟨?_, fun hz ↦ h.maximal r hr q hq (hz.trans hqz.symm)⟩
        show r.hi ≤ q.lo
        rcases h.apart r hr q hq hne with hle' | hle'
        · exact hle'
        · omega
  have hhigh : b ≤ r.lo → (join a b i p n).hi ≤ r.lo ∧
      (r.zone = i → (join a b i p n).hi ≠ r.lo) := by
    intro hle
    cases hn'' : n with
    | none =>
        refine ⟨hle, fun hz he ↦ ?_⟩
        have hsome := (hn.next r).2 ⟨hr, hz, he.symm⟩
        rw [hn''] at hsome
        cases hsome
    | some q =>
        obtain ⟨hq, hqz, hqb⟩ := (hn.next q).1 hn''
        have hne : q ≠ r := by
          rintro rfl
          exact hn' hn''
        have hpq := h.pos q hq
        refine ⟨?_, fun hz ↦ h.maximal q hq r hr (hqz.trans hz.symm)⟩
        show q.hi ≤ r.lo
        rcases h.apart q hq r hr hne with hle' | hle'
        · exact hle'
        · omega
  have hjl := join_lo_le h hn
  have hjh := le_join_hi h hn
  rcases hfree r hr with hle | hle
  · exact ⟨.inl (hlow hle).1, fun hz ↦ ⟨(hlow hle).2 hz, by omega⟩⟩
  · exact ⟨.inr (hhigh hle).1, fun hz ↦ ⟨by omega, (hhigh hle).2 hz⟩⟩

/-- Joining a block with its neighbours keeps the ranges tidy. -/
theorem Tidy.merge (h : Tidy R) (hab : a < b) (hfree : ∀ r ∈ R, r.hi ≤ a ∨ b ≤ r.lo)
    (hn : Neighbors R a b i p n) : Tidy (Range.merge R a b i p n) := by
  have hlt : (join a b i p n).lo < (join a b i p n).hi := by
    have hjl := join_lo_le h hn
    have hjh := le_join_hi h hn
    omega
  refine ⟨?_, ?_, ?_⟩
  · rintro r (rfl | ⟨hr, _⟩)
    · exact hlt
    · exact h.pos r hr
  · rintro r (rfl | ⟨hr, hp, hq⟩) r' (rfl | ⟨hr', hp', hq'⟩) hne
    · exact absurd rfl hne
    · exact (h.clear_of_join hab hfree hn hr' hp' hq').1.symm
    · exact (h.clear_of_join hab hfree hn hr hp hq).1
    · exact h.apart r hr r' hr' hne
  · rintro r (rfl | ⟨hr, hp, hq⟩) r' (rfl | ⟨hr', hp', hq'⟩) hz
    · exact hlt.ne'
    · exact ((h.clear_of_join hab hfree hn hr' hp' hq').2 hz.symm).2
    · exact ((h.clear_of_join hab hfree hn hr hp hq).2 hz).1
    · exact h.maximal r hr r' hr' hz

/-- The addresses of the block become free in its zone. -/
theorem cover_merge (h : Tidy R) (hab : a < b) (hn : Neighbors R a b i p n) :
    cover (Range.merge R a b i p n) i = cover R i ∪ {x | a ≤ x ∧ x < b} := by
  have hjl := join_lo_le h hn
  have hjh := le_join_hi h hn
  ext x
  constructor
  · rintro ⟨r, rfl | ⟨hr, _⟩, hz, hx⟩
    · by_cases hxa : x < a
      · cases hp : p with
        | none =>
            rw [hp] at hx
            exact absurd hx.1 (Nat.not_le.2 hxa)
        | some q =>
            rw [hp] at hx
            obtain ⟨hq, hqz, hqa⟩ := (hn.prev q).1 hp
            exact .inl ⟨q, hq, hqz, hx.1, by omega⟩
      · by_cases hxb : b ≤ x
        · cases hn' : n with
          | none =>
              rw [hn'] at hx
              exact absurd hx.2 (Nat.not_lt.2 hxb)
          | some q =>
              rw [hn'] at hx
              obtain ⟨hq, hqz, hqb⟩ := (hn.next q).1 hn'
              exact .inl ⟨q, hq, hqz, by omega, hx.2⟩
        · exact .inr ⟨by omega, by omega⟩
    · exact .inl ⟨r, hr, hz, hx⟩
  · rintro (⟨r, hr, hz, hx⟩ | ⟨hxa, hxb⟩)
    · by_cases hp : p = some r
      · obtain ⟨_, _, he⟩ := (hn.prev r).1 hp
        refine ⟨join a b i p n, Set.mem_insert _ _, rfl, ?_, by omega⟩
        rw [hp]
        exact hx.1
      · by_cases hn' : n = some r
        · obtain ⟨_, _, he⟩ := (hn.next r).1 hn'
          refine ⟨join a b i p n, Set.mem_insert _ _, rfl, by omega, ?_⟩
          rw [hn']
          exact hx.2
        · exact ⟨r, Set.mem_insert_of_mem _ ⟨hr, hp, hn'⟩, hz, hx⟩
    · exact ⟨join a b i p n, Set.mem_insert _ _, rfl, by omega, by omega⟩

/-- The other zones do not change. -/
theorem cover_merge_of_ne (hn : Neighbors R a b i p n) (hij : j ≠ i) :
    cover (Range.merge R a b i p n) j = cover R j := by
  ext x
  constructor
  · rintro ⟨r, rfl | ⟨hr, _⟩, hz, hx⟩
    · exact absurd hz.symm hij
    · exact ⟨r, hr, hz, hx⟩
  · rintro ⟨r, hr, hz, hx⟩
    refine ⟨r, Set.mem_insert_of_mem _ ⟨hr, fun hp ↦ ?_, fun hp ↦ ?_⟩, hz, hx⟩
    · exact hij (hz.symm.trans ((hn.prev r).1 hp).2.1)
    · exact hij (hz.symm.trans ((hn.next r).1 hp).2.1)

end Merge

/-! ### What the addresses tell

Tidy ranges are the maximal runs of their addresses, so the addresses determine them. -/

/-- The address after a range is not free in its zone. -/
theorem Tidy.hi_notMem_cover (h : Tidy R) (hr : r ∈ R) : r.hi ∉ cover R r.zone := by
  rintro ⟨q, hq, hz, hle, hlt⟩
  have hne : r ≠ q := by
    rintro rfl
    exact Nat.lt_irrefl _ hlt
  have hpos := h.pos r hr
  rcases h.apart r hr q hq hne with hap | hap
  · exact h.maximal r hr q hq hz.symm (Nat.le_antisymm hap hle)
  · omega

/-- The address before a range is not free in its zone. -/
theorem Tidy.pred_lo_notMem_cover (h : Tidy R) (hr : r ∈ R) (hx : x + 1 = r.lo) :
    x ∉ cover R r.zone := by
  rintro ⟨q, hq, hz, hle, hlt⟩
  have hne : q ≠ r := by
    rintro rfl
    omega
  have hpos := h.pos r hr
  rcases h.apart q hq r hr hne with hap | hap
  · exact h.maximal q hq r hr hz (by omega)
  · omega

/-- A range is one of any tidy ranges with the same addresses. -/
theorem Tidy.mem_of_cover {R' : Set (Range ι)} (h : Tidy R) (h' : Tidy R')
    (hc : ∀ i, cover R i = cover R' i) (hr : r ∈ R) : r ∈ R' := by
  have hmem : ∀ x, r.lo ≤ x → x < r.hi → x ∈ cover R' r.zone := fun x hx hx' ↦ by
    rw [← hc]
    exact ⟨r, hr, rfl, hx, hx'⟩
  have hmem' : ∀ q ∈ R', q.zone = r.zone → ∀ x, q.lo ≤ x → x < q.hi → x ∈ cover R r.zone :=
    fun q hq hz x hx hx' ↦ by
      rw [hc]
      exact ⟨q, hq, hz, hx, hx'⟩
  obtain ⟨q, hq, hz, hle, hlt⟩ := hmem r.lo le_rfl (h.pos r hr)
  have hqhi := h'.hi_notMem_cover hq
  rw [hz] at hqhi
  -- Both are maximal runs around the first address of `r`.
  have hlo : q.lo = r.lo := by
    by_contra hne
    exact h.pred_lo_notMem_cover hr (x := r.lo - 1) (by omega)
      (hmem' q hq hz _ (by omega) (by omega))
  have hhi : q.hi = r.hi := by
    rcases Nat.lt_trichotomy q.hi r.hi with hlt' | heq | hlt'
    · exact absurd (hmem q.hi (by omega) hlt') hqhi
    · exact heq
    · exact absurd (hmem' q hq hz r.hi (by have := h.pos r hr; omega) hlt') (h.hi_notMem_cover hr)
  rwa [← show q = r from Range.ext hlo hhi hz]

/-- Tidy ranges with the same addresses are the same. -/
theorem Tidy.eq_of_cover {R' : Set (Range ι)} (h : Tidy R) (h' : Tidy R')
    (hc : ∀ i, cover R i = cover R' i) : R = R' :=
  Set.Subset.antisymm (fun _ hr ↦ h.mem_of_cover h' hc hr)
    fun _ hr ↦ h'.mem_of_cover h (fun i ↦ (hc i).symm) hr

/-! ### All the zones -/

/-- The addresses in some range of `R`, whatever its zone. -/
def total (R : Set (Range ι)) : Set Nat := {x | ∃ r ∈ R, r.lo ≤ x ∧ x < r.hi}

theorem mem_total : x ∈ total R ↔ ∃ i, x ∈ cover R i := by
  constructor
  · rintro ⟨r, hr, hx⟩
    exact ⟨r.zone, r, hr, rfl, hx⟩
  · rintro ⟨_, r, hr, _, hx⟩
    exact ⟨r, hr, hx⟩

/-- Joining a block with its neighbours adds the block. -/
theorem total_merge (h : Tidy R) (hab : a < b) (hn : Neighbors R a b i p n) :
    total (Range.merge R a b i p n) = total R ∪ Set.Ico a b := by
  ext x
  rw [mem_total, Set.mem_union, mem_total]
  constructor
  · rintro ⟨j, hx⟩
    rcases eq_or_ne j i with rfl | hne
    · rw [cover_merge h hab hn] at hx
      rcases hx with hx | hx
      · exact .inl ⟨j, hx⟩
      · exact .inr hx
    · rw [cover_merge_of_ne hn hne] at hx
      exact .inl ⟨j, hx⟩
  · rintro (⟨j, hx⟩ | hx)
    · refine ⟨j, ?_⟩
      rcases eq_or_ne j i with rfl | hne
      · rw [cover_merge h hab hn]
        exact .inl hx
      · rwa [cover_merge_of_ne hn hne]
    · refine ⟨i, ?_⟩
      rw [cover_merge h hab hn]
      exact .inr hx

/-- A range that stays clear of the others, in a zone of its own. -/
theorem Tidy.insert (h : Tidy R) (hpos : r.lo < r.hi)
    (hclear : ∀ q ∈ R, q.hi ≤ r.lo ∨ r.hi ≤ q.lo) (hz : ∀ q ∈ R, q.zone ≠ r.zone) :
    Tidy (Insert.insert r R) where
  pos := by
    rintro q (rfl | hq)
    · exact hpos
    · exact h.pos q hq
  apart := by
    rintro q (rfl | hq) q' (rfl | hq') hne
    · exact absurd rfl hne
    · exact (hclear q' hq').symm
    · exact hclear q hq
    · exact h.apart q hq q' hq' hne
  maximal := by
    rintro q (rfl | hq) q' (rfl | hq') hzone
    · exact hpos.ne'
    · exact absurd hzone.symm (hz q' hq')
    · exact absurd hzone (hz q hq)
    · exact h.maximal q hq q' hq' hzone

/-! ### Nodes

The ranges are those of the nodes of a tree, which are known by them. -/

section Nodes

variable {α : Type v} {rng : α → Range ι} {S : Set α} {e : α} {p n : Option α}

/-- A block that is clear of the nodes, and the nodes next to it that it is joined with. -/
structure Joins (rng : α → Range ι) (S : Set α) (a b : Nat) (i : ι) (p n : Option α) : Prop where
  tidy : Tidy (rng '' S)
  inj : Set.InjOn rng S
  lt : a < b
  clear : ∀ e ∈ S, (rng e).hi ≤ a ∨ b ≤ (rng e).lo
  prev : ∀ e, p = some e ↔ e ∈ S ∧ (rng e).zone = i ∧ (rng e).hi = a
  next : ∀ e, n = some e ↔ e ∈ S ∧ (rng e).zone = i ∧ (rng e).lo = b

namespace Joins

/-- The two neighbours are different nodes. -/
theorem prev_ne_next (h : Joins rng S a b i p n) (he : n = some e) : p ≠ some e := by
  intro hp
  have h₁ := ((h.prev e).1 hp).2.2
  obtain ⟨hm, -, h₂⟩ := (h.next e).1 he
  have hpos := h.tidy.pos _ (Set.mem_image_of_mem rng hm)
  have hlt := h.lt
  omega

theorem clear_ranges (h : Joins rng S a b i p n) : ∀ r ∈ rng '' S, r.hi ≤ a ∨ b ≤ r.lo := by
  rintro _ ⟨e, he, rfl⟩
  exact h.clear e he

/-- The neighbours among the nodes are those among the ranges. -/
theorem neighbors (h : Joins rng S a b i p n) :
    Neighbors (rng '' S) a b i (p.map rng) (n.map rng) where
  prev r := by
    rw [Option.map_eq_some_iff]
    constructor
    · rintro ⟨e, he, rfl⟩
      obtain ⟨hm, hz⟩ := (h.prev e).1 he
      exact ⟨⟨e, hm, rfl⟩, hz⟩
    · rintro ⟨⟨e, hm, rfl⟩, hz⟩
      exact ⟨e, (h.prev e).2 ⟨hm, hz⟩, rfl⟩
  next r := by
    rw [Option.map_eq_some_iff]
    constructor
    · rintro ⟨e, he, rfl⟩
      obtain ⟨hm, hz⟩ := (h.next e).1 he
      exact ⟨⟨e, hm, rfl⟩, hz⟩
    · rintro ⟨⟨e, hm, rfl⟩, hz⟩
      exact ⟨e, (h.next e).2 ⟨hm, hz⟩, rfl⟩

/-- The joined block is within the bounds of the block and of the nodes. -/
theorem bounds (h : Joins rng S a b i p n) {m : Nat} (ha : 0 < a) (hb : b ≤ m)
    (hS : ∀ e ∈ S, 0 < (rng e).lo ∧ (rng e).hi ≤ m) :
    0 < (join a b i (p.map rng) (n.map rng)).lo ∧
      (join a b i (p.map rng) (n.map rng)).lo < (join a b i (p.map rng) (n.map rng)).hi ∧
      (join a b i (p.map rng) (n.map rng)).hi ≤ m := by
  refine ⟨?_, ?_, ?_⟩
  · cases hp : p with
    | none => exact ha
    | some e => exact (hS e ((h.prev e).1 hp).1).1
  · exact lt_of_le_of_lt (join_lo_le h.tidy h.neighbors)
      (lt_of_lt_of_le h.lt (le_join_hi h.tidy h.neighbors))
  · cases hn : n with
    | none => exact hb
    | some e => exact (hS e ((h.next e).1 hn).1).2

/-- A neighbour's range is a node's range only if it is that node. -/
theorem map_ne (hinj : Set.InjOn rng S) (ho : ∀ e, p = some e → e ∈ S) (he : e ∈ S) :
    p.map rng ≠ some (rng e) ↔ p ≠ some e := by
  rw [not_iff_not, Option.map_eq_some_iff]
  constructor
  · rintro ⟨e', he', hr⟩
    rw [he', hinj (ho e' he') he hr]
  · intro ho'
    exact ⟨e, ho', rfl⟩

theorem prev_map_ne (h : Joins rng S a b i p n) (he : e ∈ S) :
    p.map rng ≠ some (rng e) ↔ p ≠ some e :=
  map_ne h.inj (fun e he ↦ ((h.prev e).1 he).1) he

theorem next_map_ne (h : Joins rng S a b i p n) (he : e ∈ S) :
    n.map rng ≠ some (rng e) ↔ n ≠ some e :=
  map_ne h.inj (fun e he ↦ ((h.next e).1 he).1) he

/-- The nodes that stay are clear of the joined block. -/
theorem clear_of_join (h : Joins rng S a b i p n) (he : e ∈ S) (hp : p ≠ some e)
    (hn : n ≠ some e) : (rng e).hi ≤ (join a b i (p.map rng) (n.map rng)).lo ∨
      (join a b i (p.map rng) (n.map rng)).hi ≤ (rng e).lo :=
  (h.tidy.clear_of_join h.lt h.clear_ranges h.neighbors ⟨e, he, rfl⟩ ((h.prev_map_ne he).2 hp)
    ((h.next_map_ne he).2 hn)).1

/-- The ranges once a node of the joined block stands for the neighbours. -/
theorem image_insert (h : Joins rng S a b i p n)
    (he : rng e = join a b i (p.map rng) (n.map rng)) :
    rng '' insert e {e ∈ S | p ≠ some e ∧ n ≠ some e} =
      Range.merge (rng '' S) a b i (p.map rng) (n.map rng) := by
  rw [Set.image_insert_eq, he, Range.merge]
  congr 1
  ext r
  constructor
  · rintro ⟨e, ⟨he, hp, hn⟩, rfl⟩
    exact ⟨⟨e, he, rfl⟩, (h.prev_map_ne he).2 hp, (h.next_map_ne he).2 hn⟩
  · rintro ⟨⟨e, he, rfl⟩, hp, hn⟩
    exact ⟨e, ⟨he, (h.prev_map_ne he).1 hp, (h.next_map_ne he).1 hn⟩, rfl⟩

/-- The ranges are tidy then. -/
theorem tidy_merge (h : Joins rng S a b i p n) :
    Tidy (Range.merge (rng '' S) a b i (p.map rng) (n.map rng)) :=
  h.tidy.merge h.lt h.clear_ranges h.neighbors

end Joins

end Nodes

end Range

/-! ## Counting -/

/-- Ranges that do not overlap and end at or below `n` have at most `n` addresses. -/
theorem sum_lengths_le {α : Type v} {s : Finset α} (lo : α → Nat) {len : α → Nat} {n : Nat}
    (hd : ∀ x ∈ s, ∀ y ∈ s, x ≠ y → lo x + len x ≤ lo y ∨ lo y + len y ≤ lo x)
    (hn : ∀ x ∈ s, lo x + len x ≤ n) : ∑ x ∈ s, len x ≤ n := by
  classical
  have hcard : (s.biUnion fun x ↦ Finset.Ico (lo x) (lo x + len x)).card = ∑ x ∈ s, len x := by
    rw [Finset.card_biUnion]
    · exact Finset.sum_congr rfl fun x _ ↦ by simp
    · intro x hx y hy hne
      refine Finset.disjoint_left.2 fun z hz hz' ↦ ?_
      rw [Finset.mem_Ico] at hz hz'
      rcases hd x hx y hy hne with hle | hle
      · omega
      · omega
  rw [← hcard, ← Finset.card_range n]
  apply Finset.card_le_card
  intro z hz
  obtain ⟨x, hx, hzx⟩ := Finset.mem_biUnion.1 hz
  have hle := hn x hx
  rw [Finset.mem_Ico] at hzx
  exact Finset.mem_range.2 (by omega)

end Mh.Lib
