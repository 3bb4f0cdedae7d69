import Mh.Zone.Lists
import Mh.Lib.Outcome
import Mathlib.Data.Nat.Log

/-!
# Which block an allocation takes

`zone_findfree` rounds the size up to a power of two and takes the first entry of the lowest
non-empty list from there on.  The bitmap tells exactly which lists are empty, so it finds an entry
when some entry of the zone is at least as large as the rounded size (`ZInv.findfree_eq_some`,
`ZInv.findfree_eq_none`).

`AllocExact` puts together what an allocation should do, for any of the users of `alloc.c`.
-/

namespace Mh.Zone

open Mh.Lib

variable {ι B E : Type} {s t : Zones ι B E} {S : Set E} {rng : E → Range ι} {z : ι} {n c : Nat}
  {e : E}

/-! ## What should be found -/

/-- The entry is on a list of the zone. -/
def Listed (s : Zones ι B E) (z : ι) (e : E) : Prop := ∃ k < ordmax, e ∈ s.zlist (z, k)

/-- The entry is the first of the lowest list that is not empty, from list `c` on. -/
def Lowest (s : Zones ι B E) (z : ι) (c : Nat) (e : E) : Prop :=
  ∃ k < ordmax, c ≤ k ∧ (s.zlist (z, k)).head? = some e ∧
    ∀ j, c ≤ j → j < k → s.zlist (z, j) = []

/-- The free addresses of a zone. -/
def freeSet (be : Backend B E) (s : Zones ι B E) (z : ι) : Set Nat :=
  {x | ∃ e, Listed s z e ∧ be.addr s.db e ≤ x ∧ x < be.addr s.db e + be.size s.db e}

/-- A successful allocation: the block begins the first entry of the lowest list of entries that
are large enough, it was free, and it is what the free addresses of the zone lose. -/
structure Allocated (be : Backend B E) (s : Zones ι B E) (z : ι) (n addr : Nat)
    (t : Zones ι B E) : Prop where
  lowest : ∃ e, Lowest s z (Nat.clog 2 n) e ∧ addr = be.addr s.db e
  free : Set.Ico addr (addr + n) ⊆ freeSet be s z
  removed : freeSet be t z = freeSet be s z \ Set.Ico addr (addr + n)
  others : ∀ i, i ≠ z → freeSet be t i = freeSet be s i

/-- What `alloc` should do: it returns a block exactly when an entry has the rounded size, and
otherwise zero, with the zones as they were. -/
def AllocExact [DecidableEq ι] [DecidableEq E] (be : Backend B E) (s : Zones ι B E) (z : ι)
    (n : Nat) : Prop :=
  ∃ addr t, Zone.alloc be s z n = .ok (addr, t) ∧
    (addr ≠ 0 ↔ ∃ e, Listed s z e ∧ 2 ^ Nat.clog 2 n ≤ be.size s.db e) ∧
    (addr ≠ 0 → Allocated be s z n addr t) ∧ (addr = 0 → t = s)

/-! ## Rounding -/

/-- The list that the search starts from is the base-two logarithm, rounded up. -/
theorem minbit_eq_clog (hn : 0 < n) : minbit n = Nat.clog 2 n := by
  have hle := msbit_le hn
  have hlt := lt_msbit n
  rw [minbit]
  refine le_antisymm ?_ (Nat.clog_le_of_le_pow ?_)
  · split
    · rename_i hne
      exact (Nat.lt_clog_iff_pow_lt Nat.one_lt_two).2 (lt_of_le_of_ne hle (Ne.symm hne))
    · rename_i heq
      rw [not_not] at heq
      rw [heq, Nat.clog_pow 2 _ Nat.one_lt_two, ← heq]
  · split
    · exact hlt.le
    · rename_i heq
      exact (not_not.1 heq).le

/-- Sizes up to the half of the address space round to a list. -/
theorem clog_lt_ordmax (hn : n ≤ 2 ^ 31) : Nat.clog 2 n < ordmax :=
  Nat.lt_succ_of_le (Nat.clog_le_of_le_pow hn)

/-- `lsbit` is the lowest bit that is set. -/
theorem lsbit_eq_some {x : BitVec 32} {i : Nat} :
    lsbit x = some i ↔ x.getLsbD i = true ∧ ∀ j < i, x.getLsbD j = false := by
  rw [lsbit, List.find?_range_eq_some]
  constructor
  · rintro ⟨hi, _, hj⟩
    exact ⟨hi, fun j hlt ↦ by simpa using hj j hlt⟩
  · rintro ⟨hi, hj⟩
    refine ⟨hi, List.mem_range.2 ?_, fun j hlt ↦ by simpa using hj j hlt⟩
    exact BitVec.lt_of_getLsbD hi

/-- No bit is set. -/
theorem lsbit_eq_none {x : BitVec 32} : lsbit x = none ↔ ∀ j < 32, x.getLsbD j = false := by
  rw [lsbit, List.find?_eq_none]
  simp

/-! ## The search -/

namespace ZInv

/-- The entries on the lists of a zone are those of its ranges. -/
theorem listed_iff (h : ZInv s S rng) : Listed s z e ↔ e ∈ S ∧ (rng e).zone = z := by
  constructor
  · rintro ⟨k, _, hm⟩
    exact ⟨h.filed.mem hm, (Prod.mk.inj (h.cls hm).2.2).1.symm⟩
  · rintro ⟨he, rfl⟩
    exact ⟨_, msbit_lt (h.len_lt he), h.mem_bin he⟩

/-- What the shifted bitmap tells of the lists. -/
theorem shift_getLsbD (h : ZInv s S rng) (z : ι) {m j : Nat} (hj : m + j < ordmax) :
    (s.bmap z >>> m).getLsbD j = true ↔ s.zlist (z, m + j) ≠ [] := by
  rw [BitVec.getLsbD_ushiftRight]
  exact h.bmap z (m + j) hj

/-- `zone_findfree` finds the first entry of the lowest list that is not empty. -/
theorem findfree_eq_some (h : ZInv s S rng) (hpos : 0 < n) (hn : n ≤ 2 ^ 31) :
    Zone.findfree s z n = some e ↔ Lowest s z (Nat.clog 2 n) e := by
  have hlt := clog_lt_ordmax hn
  rw [Zone.findfree, minbit_eq_clog hpos, if_neg (Nat.not_le.2 hlt)]
  generalize Nat.clog 2 n = c at hlt
  have hbit : ∀ j, (s.bmap z >>> c).getLsbD j = true → c + j < ordmax := fun j hj ↦ by
    rw [BitVec.getLsbD_ushiftRight] at hj
    exact BitVec.lt_of_getLsbD hj
  constructor
  · intro hf
    split at hf
    · cases hf
    · rename_i tmp htmp
      obtain ⟨hset, hlow⟩ := lsbit_eq_some.1 htmp
      refine ⟨c + tmp, hbit tmp hset, Nat.le_add_right _ _, hf, fun j hle hj ↦ ?_⟩
      obtain ⟨i, rfl⟩ := Nat.exists_eq_add_of_le hle
      have hi : i < tmp := Nat.lt_of_add_lt_add_left hj
      have hne := mt (h.shift_getLsbD z (hj.trans (hbit tmp hset))).2 (by rw [hlow i hi]; decide)
      exact not_not.1 hne
  · rintro ⟨k, hk, hle, hhead, hlow⟩
    obtain ⟨tmp, rfl⟩ := Nat.exists_eq_add_of_le hle
    have hset : (s.bmap z >>> c).getLsbD tmp = true := by
      refine (h.shift_getLsbD z hk).2 fun hnil ↦ ?_
      rw [hnil] at hhead
      cases hhead
    have hlsb : lsbit (s.bmap z >>> c) = some tmp := by
      refine lsbit_eq_some.2 ⟨hset, fun j hj ↦ ?_⟩
      refine Bool.eq_false_iff.2 fun hj' ↦ (h.shift_getLsbD z (hbit j hj')).1 hj' ?_
      exact hlow _ (Nat.le_add_right _ _) (Nat.add_lt_add_left hj c)
    rw [hlsb]
    exact hhead

/-- It finds nothing exactly when no entry is large enough. -/
theorem findfree_eq_none (h : ZInv s S rng) (hpos : 0 < n) (hn : n ≤ 2 ^ 31) :
    Zone.findfree s z n = none ↔ ¬∃ e, Listed s z e ∧ 2 ^ Nat.clog 2 n ≤ (rng e).len := by
  have hlt := clog_lt_ordmax hn
  constructor
  · rintro hf ⟨e, ⟨k, hk, hm⟩, hsz⟩
    have hck : Nat.clog 2 n ≤ k := by
      rw [(Prod.mk.inj (h.cls hm).2.2).2]
      exact (Nat.le_log2 (h.cls hm).1.ne').2 hsz
    rw [Zone.findfree, minbit_eq_clog hpos, if_neg (Nat.not_le.2 hlt)] at hf
    obtain ⟨tmp, rfl⟩ := Nat.exists_eq_add_of_le hck
    have hset := (h.shift_getLsbD z hk).2 (List.ne_nil_of_mem hm)
    split at hf
    · rename_i hnone
      have htmp : tmp < 32 := by
        rw [ordmax] at hk
        omega
      rw [lsbit_eq_none.1 hnone tmp htmp] at hset
      cases hset
    · -- The list of a bit that is set is not empty.
      rename_i tmp' htmp
      have hset' := (lsbit_eq_some.1 htmp).1
      have hk' := BitVec.lt_of_getLsbD (BitVec.getLsbD_ushiftRight .. ▸ hset')
      exact (h.shift_getLsbD z hk').1 hset' (List.head?_eq_none_iff.1 hf)
  · intro hno
    cases hf : Zone.findfree s z n with
    | none => rfl
    | some e =>
        refine absurd ?_ hno
        obtain ⟨k, hk, hle, hhead, -⟩ := (h.findfree_eq_some hpos hn).1 hf
        have hm := List.mem_of_head? hhead
        refine ⟨e, ⟨k, hk, hm⟩, ?_⟩
        rw [(Prod.mk.inj (h.cls hm).2.2).2] at hle
        exact (Nat.le_log2 (h.cls hm).1.ne').1 hle

/-- An entry that is found is large enough. -/
theorem lowest_mem (h : ZInv s S rng) (hn : n ≤ 2 ^ c) (hl : Lowest s z c e) :
    e ∈ S ∧ (rng e).zone = z ∧ n ≤ (rng e).len := by
  obtain ⟨k, hk, hle, hhead, -⟩ := hl
  have hm := List.mem_of_head? hhead
  obtain ⟨hpos, _, hb⟩ := h.cls hm
  obtain ⟨hz, hk'⟩ := Prod.mk.inj hb
  refine ⟨h.filed.mem hm, hz.symm, ?_⟩
  calc n ≤ 2 ^ c := hn
    _ ≤ 2 ^ k := Nat.pow_le_pow_right Nat.two_pos hle
    _ = 2 ^ msbit (rng e).len := by rw [hk']
    _ ≤ (rng e).len := msbit_le hpos

variable [DecidableEq ι] [DecidableEq E]

/-- An allocation is exact if it is from the entry that is found: that is what the users of
`alloc.c` have to show. -/
theorem allocExact (be : Backend B E) (h : ZInv s S rng) (hpos : 0 < n) (hn : n ≤ 2 ^ 31)
    (hsz : ∀ e ∈ S, be.size s.db e = (rng e).len)
    (hfrom : ∀ e, Lowest s z (Nat.clog 2 n) e →
      ∃ t, Zone.allocFrom be s z e n = .ok (be.addr s.db e, t) ∧ be.addr s.db e ≠ 0 ∧
        Allocated be s z n (be.addr s.db e) t) : AllocExact be s z n := by
  have hlarge : (∃ e, Listed s z e ∧ 2 ^ Nat.clog 2 n ≤ be.size s.db e) ↔
      ∃ e, Listed s z e ∧ 2 ^ Nat.clog 2 n ≤ (rng e).len := by
    refine exists_congr fun e ↦ and_congr_right fun hl ↦ ?_
    rw [hsz e (h.listed_iff.1 hl).1]
  rw [AllocExact, hlarge, Zone.alloc, if_neg hpos.ne']
  cases hf : Zone.findfree s z n with
  | none =>
      have hno := (h.findfree_eq_none hpos hn).1 hf
      exact ⟨0, s, rfl, iff_of_false (fun h ↦ h rfl) hno, fun h ↦ absurd rfl h, fun _ ↦ rfl⟩
  | some e =>
      have hsome := mt (h.findfree_eq_none (z := z) hpos hn).2 (by rw [hf]; nofun)
      obtain ⟨t, hal, hne, ha⟩ := hfrom e ((h.findfree_eq_some hpos hn).1 hf)
      exact ⟨_, t, hal, iff_of_true hne (not_not.1 hsome), fun _ ↦ ha, fun h0 ↦ absurd h0 hne⟩

end ZInv

/-! ## The assertion on the difference -/

section Diff

variable [DecidableEq ι] [DecidableEq E] {be : Backend B E}

/-- `___get_neighbors` and `___mkptr` do not stop the kernel on behalf of `alloc`. -/
structure NoDiff (be : Backend B E) : Prop where
  getNeighbors : ∀ db a n, Ends (fun _ ↦ True) (· ≠ Panic.diff) (be.getNeighbors db a n)
  mkptr : ∀ db a n, Ends (fun _ ↦ True) (· ≠ Panic.diff) (be.mkptr db a n)

theorem remove_noDiff (be : Backend B E) (s : Zones ι B E) (z : ι) (e : E) :
    Ends (fun _ ↦ True) (· ≠ Panic.diff) (Zone.remove be s z e) := by
  rw [Zone.remove, detachentry]
  split
  · exact trivial
  · exact fun hne ↦ Panic.noConfusion hne

theorem removeOpt_noDiff (be : Backend B E) (s : Zones ι B E) (z : ι) (o : Option E) :
    Ends (fun _ ↦ True) (· ≠ Panic.diff) (Zone.removeOpt be s z o) := by
  cases o with
  | none => exact trivial
  | some e => exact remove_noDiff be s z e

omit [DecidableEq E] in
theorem attachentry_noDiff (be : Backend B E) (s : Zones ι B E) (z : ι) (e : E) :
    Ends (fun _ ↦ True) (· ≠ Panic.diff) (attachentry be s z e) := by
  rw [attachentry]
  split
  · exact trivial
  · exact fun hne ↦ Panic.noConfusion hne

theorem create_noDiff (hbe : NoDiff be) (s : Zones ι B E) (z : ι) (a n : Nat) :
    Ends (fun _ ↦ True) (· ≠ Panic.diff) (Zone.create be s z a n) := by
  refine (hbe.getNeighbors s.db a n).bind fun r _ ↦ ?_
  refine (removeOpt_noDiff be s z r.1).bind fun s₁ _ ↦ ?_
  refine (removeOpt_noDiff be s₁ z r.2).bind fun s₂ _ ↦ ?_
  exact (hbe.mkptr _ _ _).bind fun r _ ↦ attachentry_noDiff be _ z r.1

/-- `assert(diff >= 0)` only fires for an entry that is larger than the size by `2 ^ 31`. -/
theorem diff_of_allocFrom (hbe : NoDiff be) (h : Zone.allocFrom be s z e n = .error .diff) :
    2 ^ 31 ≤ w32 (be.size s.db e + (2 ^ 32 - n)) := by
  by_contra hlt
  rw [Zone.allocFrom, if_neg hlt] at h
  refine Ends.of_error (P := fun _ ↦ True) (E := (· ≠ Panic.diff)) ?_ h rfl
  refine (remove_noDiff be s z e).bind fun s₁ _ ↦ ?_
  split
  · exact (create_noDiff hbe s₁ z _ _).map fun _ _ ↦ trivial
  · exact trivial

end Diff

end Mh.Zone
