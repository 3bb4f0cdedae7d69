import Mh.Zone.Alloc
import Mh.Lib.Ranges
import Mh.Lib.Run
import Mathlib.Algebra.BigOperators.Group.Finset.Piecewise
import Mathlib.Algebra.BigOperators.Group.List.Lemmas
import Mathlib.Algebra.GroupWithZero.Nat

/-!
# The lists of a zone

`ZInv s S rng` says what `alloc.c` keeps by itself, whatever it is compiled against:
the lists hold the entries of `S`, each of them in the list for its zone and size,
the bitmap tells the lists that are not empty, and `nfree` counts what is free.
`rng` is the range that an entry stands for.

Entries are detached and attached one at a time.  `ZInv.create` puts the steps of
`zone_create` together, for a backend whose functions do what they should on the
entries at hand.
-/

namespace Mh.Zone

open Mh.Lib

variable {ι B E : Type} {s t : Zones ι B E} {S : Set E}
  {rng rng' : E → Range ι} {z i : ι} {k n : Nat} {e : E}

/-! ## Sizes -/

theorem msbit_lt (h : n < 2 ^ 32) : msbit n < ordmax := by
  rcases Nat.eq_zero_or_pos n with rfl | hpos
  · decide
  · exact (Nat.log2_lt hpos.ne').2 h

theorem msbit_le (h : 0 < n) : 2 ^ msbit n ≤ n := Nat.log2_self_le h.ne'

theorem lt_msbit (n : Nat) : n < 2 ^ (msbit n + 1) := Nat.lt_log2_self

theorem le_minbit (n : Nat) : n ≤ 2 ^ minbit n := by
  rw [minbit]
  split
  · exact (lt_msbit n).le
  · rename_i hne
    exact (not_not.1 hne).le

/-- `zone_findfree` takes an entry from a list of entries that are large enough. -/
theorem findfree_mem (hf : findfree s z n = some e) : ∃ k, e ∈ s.zlist (z, k) ∧ n ≤ 2 ^ k := by
  rw [findfree] at hf
  split at hf
  · cases hf
  · split at hf
    · cases hf
    · rename_i tmp _
      refine ⟨minbit n + tmp, List.mem_of_head? hf, ?_⟩
      calc n ≤ 2 ^ minbit n := le_minbit n
        _ ≤ 2 ^ (minbit n + tmp) := Nat.pow_le_pow_right Nat.two_pos (Nat.le_add_right _ _)

theorem entryOk_of_pos (hpos : 0 < n) (hlt : n < 2 ^ 32) : entryOk n = true := by
  simp [entryOk, hpos.ne', msbit_lt hlt]

/-! ## The invariant -/

/-- The sum of the sizes of the entries on the lists of a zone. -/
def total (zl : ι × Nat → List E) (rng : E → Range ι) (z : ι) : Nat :=
  ∑ k ∈ Finset.range ordmax, ((zl (z, k)).map fun e ↦ (rng e).len).sum

/-- Where an entry is filed. -/
def bin (r : Range ι) : ι × Nat := (r.zone, msbit r.len)

/-- The lists hold the entries of `S`, each where its range says; the bitmap tells
the lists that are not empty; `nfree` is the sum of the sizes. -/
structure ZInv (s : Zones ι B E) (S : Set E) (rng : E → Range ι) : Prop where
  filed : Bins.Filed s.zlist S
  cls : ∀ {b e}, e ∈ s.zlist b → 0 < (rng e).len ∧ (rng e).len < 2 ^ 32 ∧ b = bin (rng e)
  bmap : ∀ z, ∀ k < ordmax, (s.bmap z).getLsbD k = true ↔ s.zlist (z, k) ≠ []
  nfree : ∀ z, s.nfree z = w32 (total s.zlist rng z)

theorem ZInv.init (db : B) : ZInv (Zone.init db : Zones ι B E) ∅ rng where
  filed := Bins.filed_nil
  cls h := absurd h List.not_mem_nil
  bmap z k hk := by simp [Zone.init]
  nfree z := by simp [Zone.init, total, w32]

namespace ZInv

/-- The ranges of the entries are all that matters. -/
theorem congr (h : ZInv s S rng) (he : ∀ e ∈ S, rng' e = rng e) : ZInv s S rng' where
  filed := h.filed
  cls hm := by
    rw [he _ (h.filed.mem hm)]
    exact h.cls hm
  bmap := h.bmap
  nfree z := by
    have htot : total s.zlist rng' z = total s.zlist rng z :=
      Finset.sum_congr rfl fun k _ ↦ congrArg List.sum (List.map_congr_left fun e hm ↦ by
        rw [he e (h.filed.mem hm)])
    rw [h.nfree z, htot]

/-- The database does not. -/
theorem setDb (h : ZInv s S rng) (db : B) : ZInv { s with db := db } S rng :=
  ⟨h.filed, h.cls, h.bmap, h.nfree⟩

/-- Every entry is on the list it belongs to. -/
theorem mem_bin (h : ZInv s S rng) (he : e ∈ S) : e ∈ s.zlist (bin (rng e)) := by
  obtain ⟨b, hm⟩ := h.filed.mem_iff.1 he
  rwa [← (h.cls hm).2.2]

theorem len_pos (h : ZInv s S rng) (he : e ∈ S) : 0 < (rng e).len := (h.cls (h.mem_bin he)).1

theorem len_lt (h : ZInv s S rng) (he : e ∈ S) : (rng e).len < 2 ^ 32 :=
  (h.cls (h.mem_bin he)).2.1

/-- What `zone_findfree` returns is an entry of the zone that is large enough. -/
theorem findfree (h : ZInv s S rng) (hf : Zone.findfree s z n = some e) :
    e ∈ S ∧ (rng e).zone = z ∧ n ≤ (rng e).len := by
  obtain ⟨k, hm, hle⟩ := findfree_mem hf
  obtain ⟨hpos, _, hb⟩ := h.cls hm
  obtain ⟨hz, rfl⟩ := Prod.mk.inj hb
  exact ⟨h.filed.mem hm, hz.symm, hle.trans (msbit_le hpos)⟩

/-- The sum of a zone, over any listing of its entries. -/
theorem total_eq [DecidableEq E] (h : ZInv s S rng) {F : Finset E}
    (hF : ∀ e, e ∈ F ↔ e ∈ S ∧ (rng e).zone = z) :
    total s.zlist rng z = ∑ e ∈ F, (rng e).len := by
  have hU : F = (Finset.range ordmax).biUnion fun k ↦ (s.zlist (z, k)).toFinset := by
    ext e
    rw [hF, Finset.mem_biUnion]
    constructor
    · rintro ⟨he, rfl⟩
      exact ⟨_, Finset.mem_range.2 (msbit_lt (h.len_lt he)), List.mem_toFinset.2 (h.mem_bin he)⟩
    · rintro ⟨k, _, hm⟩
      have hm' := List.mem_toFinset.1 hm
      exact ⟨h.filed.mem hm', (Prod.mk.inj (h.cls hm').2.2).1.symm⟩
  rw [hU, Finset.sum_biUnion]
  · exact Finset.sum_congr rfl fun k _ ↦ (List.sum_toFinset _ (h.filed.nodup _)).symm
  · intro k _ k' _ hne
    refine Finset.disjoint_left.2 fun e hm hm' ↦ hne ?_
    exact (Prod.mk.inj (h.filed.inj (List.mem_toFinset.1 hm) (List.mem_toFinset.1 hm'))).2

variable [DecidableEq ι]

/-! ## Attaching an entry -/

/-- The sum with one more entry. -/
theorem total_insert (hk : k < ordmax) (e : E) (i : ι) :
    total (Bins.insert s.zlist (z, k) e) rng i =
      total s.zlist rng i + if i = z then (rng e).len else 0 := by
  have hterm : ∀ k', ((Bins.insert s.zlist (z, k) e (i, k')).map fun e ↦ (rng e).len).sum =
      ((s.zlist (i, k')).map fun e ↦ (rng e).len).sum +
        if k' = k then if i = z then (rng e).len else 0 else 0 := by
    intro k'
    by_cases heq : (i, k') = (z, k)
    · obtain ⟨rfl, rfl⟩ := Prod.mk.inj heq
      rw [if_pos rfl, if_pos rfl, Bins.insert, Function.update_self, List.map_cons,
        List.sum_cons, Nat.add_comm]
    · rw [Bins.insert, Function.update_of_ne heq]
      by_cases hkk : k' = k
      · rw [if_pos hkk, if_neg fun hi ↦ heq (by rw [hi, hkk]), Nat.add_zero]
      · rw [if_neg hkk, Nat.add_zero]
  simp only [total]
  rw [Finset.sum_congr rfl fun k' _ ↦ hterm k', Finset.sum_add_distrib, Finset.sum_ite_eq',
    if_pos (Finset.mem_range.2 hk)]

/-- Attaching a new entry. -/
theorem attach (h : ZInv s S rng) (hn : e ∉ S) (hpos : 0 < (rng e).len)
    (hlt : (rng e).len < 2 ^ 32) :
    ZInv (s.attach (rng e).zone e (rng e).len) (insert e S) rng := by
  have hk := msbit_lt hlt
  refine ⟨h.filed.insert hn _, ?_, ?_, ?_⟩
  · intro b e' hm'
    rcases Bins.mem_insert.1 hm' with ⟨rfl, rfl⟩ | hm'
    · exact ⟨hpos, hlt, rfl⟩
    · exact h.cls hm'
  · intro z' k' hk'
    show (Function.update s.bmap (rng e).zone _ z').getLsbD k' = true ↔
      Bins.insert s.zlist (bin (rng e)) e (z', k') ≠ []
    by_cases hz : z' = (rng e).zone
    · subst hz
      rw [Function.update_self]
      by_cases hkk : k' = msbit (rng e).len
      · subst hkk
        have hk₃₂ : msbit (rng e).len < 32 := hk
        simp [Bins.insert, bin, hk₃₂]
      · have hne : ((rng e).zone, k') ≠ bin (rng e) := fun heq ↦ hkk (Prod.mk.inj heq).2
        rw [Bins.insert, Function.update_of_ne hne, ← h.bmap _ k' hk']
        simp [BitVec.getLsbD_twoPow, Ne.symm hkk]
    · have hne : (z', k') ≠ bin (rng e) := fun heq ↦ hz (Prod.mk.inj heq).1
      rw [Function.update_of_ne hz, Bins.insert, Function.update_of_ne hne]
      exact h.bmap z' k' hk'
  · intro z'
    show Function.update s.nfree (rng e).zone _ z' =
      w32 (total (Bins.insert s.zlist (bin (rng e)) e) rng z')
    rw [bin, total_insert hk e z']
    by_cases hz : z' = (rng e).zone
    · subst hz
      rw [Function.update_self, if_pos rfl, h.nfree, w32, w32, w32, Nat.mod_add_mod]
    · rw [Function.update_of_ne hz, if_neg hz, Nat.add_zero]
      exact h.nfree z'

variable [DecidableEq E]

/-! ## Detaching an entry -/

/-- The sum without an entry. -/
theorem total_remove (h : ZInv s S rng) (he : e ∈ S) (i : ι) :
    total (Bins.remove s.zlist e) rng i + (if i = (rng e).zone then (rng e).len else 0) =
      total s.zlist rng i := by
  have hm := h.mem_bin he
  have hterm : ∀ k', ((Bins.remove s.zlist e (i, k')).map fun e ↦ (rng e).len).sum +
      (if k' = msbit (rng e).len then if i = (rng e).zone then (rng e).len else 0 else 0) =
        ((s.zlist (i, k')).map fun e ↦ (rng e).len).sum := by
    intro k'
    by_cases heq : (i, k') = bin (rng e)
    · obtain ⟨rfl, rfl⟩ := Prod.mk.inj heq
      rw [if_pos rfl, if_pos rfl, Bins.remove, Nat.add_comm]
      exact List.sum_map_erase (fun e ↦ (rng e).len) hm
    · have hn : e ∉ s.zlist (i, k') := fun hm' ↦ heq (h.filed.inj hm' hm)
      rw [Bins.remove, List.erase_of_not_mem hn]
      by_cases hkk : k' = msbit (rng e).len
      · rw [if_pos hkk, if_neg fun hi ↦ heq (by rw [hi, hkk, bin]), Nat.add_zero]
      · rw [if_neg hkk, Nat.add_zero]
  have hmem : msbit (rng e).len ∈ Finset.range ordmax :=
    Finset.mem_range.2 (msbit_lt (h.len_lt he))
  simp only [total]
  rw [← Finset.sum_congr rfl fun k' _ ↦ hterm k', Finset.sum_add_distrib, Finset.sum_ite_eq',
    if_pos hmem]

/-- Detaching an entry from its zone. -/
theorem detach (h : ZInv s S rng) (he : e ∈ S) :
    ZInv (s.detach (rng e).zone e (rng e).len) (S \ {e}) rng := by
  have hm := h.mem_bin he
  have hsame : ∀ b, b ≠ bin (rng e) → Bins.remove s.zlist e b = s.zlist b :=
    fun b hne ↦ List.erase_of_not_mem fun hm' ↦ hne (h.filed.inj hm' hm)
  refine ⟨h.filed.remove e, fun hm' ↦ h.cls (Bins.mem_of_mem_remove hm'), ?_, ?_⟩
  · intro z' k' hk'
    show (Function.update s.bmap (rng e).zone _ z').getLsbD k' = true ↔
      Bins.remove s.zlist e (z', k') ≠ []
    by_cases hz : z' = (rng e).zone
    · subst hz
      rw [Function.update_self]
      by_cases hkk : k' = msbit (rng e).len
      · subst hkk
        split
        · rename_i hnil
          simp [hnil]
        · rename_i hnil
          rw [h.bmap _ _ hk']
          exact iff_of_true (List.ne_nil_of_mem hm) hnil
      · rw [hsame _ fun heq ↦ hkk (Prod.mk.inj heq).2, ← h.bmap _ k' hk']
        split
        · have hk₃₂ : k' < 32 := hk'
          simp [hk₃₂, hkk]
        · rfl
    · rw [Function.update_of_ne hz, hsame _ fun heq ↦ hz (Prod.mk.inj heq).1]
      exact h.bmap z' k' hk'
  · intro z'
    have htot := h.total_remove he z'
    show Function.update s.nfree (rng e).zone _ z' = w32 (total (Bins.remove s.zlist e) rng z')
    by_cases hz : z' = (rng e).zone
    · subst hz
      have hlt := h.len_lt he
      rw [if_pos rfl] at htot
      rw [Function.update_self, h.nfree, w32, w32, w32, ← htot]
      omega
    · rw [if_neg hz, Nat.add_zero] at htot
      rw [Function.update_of_ne hz, h.nfree z', ← htot]

/-- `zone_remove` of an entry of the zone. -/
theorem remove (be : Backend B E) (h : ZInv s S rng) (he : e ∈ S)
    (hsz : be.size s.db e = (rng e).len) :
    Zone.remove be s (rng e).zone e =
      .ok { s.detach (rng e).zone e (rng e).len with db := be.freeptr s.db e } := by
  rw [Zone.remove, detachentry, hsz, if_pos (entryOk_of_pos (h.len_pos he) (h.len_lt he))]
  rfl

/-- `zone_remove` of a neighbour, if there is one. -/
theorem removeOpt (be : Backend B E) (h : ZInv s S rng) {o : Option E}
    (ho : ∀ e, o = some e → e ∈ S ∧ (rng e).zone = z ∧ be.size s.db e = (rng e).len) :
    ∃ t, Zone.removeOpt be s z o = .ok t ∧ ZInv t {e ∈ S | o ≠ some e} rng ∧
      t.db = o.elim s.db (be.freeptr s.db) := by
  cases o with
  | none =>
      refine ⟨s, rfl, ?_, rfl⟩
      simpa using h
  | some e =>
      obtain ⟨he, rfl, hsz⟩ := ho e rfl
      have hS : {e' ∈ S | some e ≠ some e'} = S \ {e} := by
        ext e'
        simp [eq_comm]
      refine ⟨_, h.remove be he hsz, ?_, rfl⟩
      rw [hS]
      exact (h.detach he).setDb _

/-- `zone_create`, where the neighbours are entries of the zone and `___mkptr` makes
the entry it is asked for. -/
theorem create (be : Backend B E) (h : ZInv s S rng) {a n : Nat} {p q : Option E} {db' : B}
    (hN : be.getNeighbors s.db a n = .ok (p, q))
    (hp : ∀ e, p = some e → e ∈ S ∧ (rng e).zone = z ∧ be.size s.db e = (rng e).len)
    (hq : ∀ e, q = some e → e ∈ S ∧ (rng e).zone = z ∧ p ≠ some e ∧
      be.size (p.elim s.db (be.freeptr s.db)) e = (rng e).len)
    (hmk : be.mkptr (q.elim (p.elim s.db (be.freeptr s.db))
        (be.freeptr (p.elim s.db (be.freeptr s.db)))) (p.elim a (be.addr s.db))
        (w32 ((q.elim (w32 (a + n)) fun e ↦ w32 (be.addr (p.elim s.db (be.freeptr s.db)) e +
          be.size (p.elim s.db (be.freeptr s.db)) e)) + (2 ^ 32 - p.elim a (be.addr s.db)))) =
      .ok (e, db'))
    (hne : ∀ e' ∈ S, p ≠ some e' → q ≠ some e' → e' ≠ e)
    (hrng : ∀ e' ∈ S, p ≠ some e' → q ≠ some e' → rng' e' = rng e')
    (hz : (rng' e).zone = z) (hsz : be.size db' e = (rng' e).len)
    (hpos : 0 < (rng' e).len) (hlt : (rng' e).len < 2 ^ 32) :
    ∃ t, Zone.create be s z a n = .ok t ∧
      ZInv t (insert e {e' ∈ S | p ≠ some e' ∧ q ≠ some e'}) rng' ∧ t.db = db' := by
  obtain ⟨s₁, h₁, hi₁, hdb₁⟩ := h.removeOpt be hp
  obtain ⟨s₂, h₂, hi₂, hdb₂⟩ := hi₁.removeOpt be (o := q) (z := z) fun e' he' ↦ by
    obtain ⟨he, hz, hpe, hsz⟩ := hq e' he'
    rw [hdb₁]
    exact ⟨⟨he, hpe⟩, hz, hsz⟩
  rw [← hdb₁] at hmk
  rw [← hdb₂] at hmk
  have hS : {e' ∈ {e' ∈ S | p ≠ some e'} | q ≠ some e'} = {e' ∈ S | p ≠ some e' ∧ q ≠ some e'} := by
    ext e'
    simp [and_assoc]
  rw [hS] at hi₂
  have hi₃ : ZInv ({ s₂ with db := db' } : Zones ι B E) _ rng' :=
    (hi₂.congr fun e' he' ↦ hrng e' he'.1 he'.2.1 he'.2.2).setDb db'
  have hnew : e ∉ {e' ∈ S | p ≠ some e' ∧ q ≠ some e'} :=
    fun he' ↦ hne e he'.1 he'.2.1 he'.2.2 rfl
  refine ⟨_, ?_, hi₃.attach hnew hpos hlt, rfl⟩
  simp only [Zone.create, hN, h₁, h₂, hmk, bind, Except.bind, attachentry, hsz,
    entryOk_of_pos hpos hlt, if_true, hz]

end ZInv

end Mh.Zone
