import Mh.Pg.Blocks

/-!
# Allocating and freeing blocks

What the calls do to the blocks, whatever the zones: `pgalloc` takes a block off its list, gives
what it does not need back to the zone and sets the type of the pages it returns; until then their
tags are out of date.
-/

namespace Mh.Pg

open Mh.Lib Mh.Zone

variable {s t : PgZones} {X : Set Nat} {p q e x a n flags : Nat} {z : PfnZone} {ty : PfnType}

/-- The pages of the blocks when the rest of a block is put back. -/
theorem freeAll_rest (he : e ∈ starts s X) (hle : n ≤ (s.db.pfn e).size) :
    freeAll s X \ pages e (s.db.pfn e).size ∪ pages (e + n) ((s.db.pfn e).size - n) =
      freeAll s X \ pages e n := by
  have hsub : pages e (s.db.pfn e).size ⊆ freeAll s X := fun x hx ↦ ⟨e, he, hx⟩
  ext x
  have hx : x ∈ pages e (s.db.pfn e).size → x ∈ freeAll s X := fun hx ↦ hsub hx
  simp only [pages, Set.mem_union, Set.mem_sdiff, Set.mem_ofPred_eq] at hx ⊢
  by_cases hf : x ∈ freeAll s X
  · simp only [hf, true_and]
    omega
  · simp only [hf, false_and, false_or, iff_false]
    intro hpg
    exact hf (hx (by omega))

/-! ## Taking a block off its list -/

namespace BInv

/-- What `zone_findfree` returns is a block that is large enough. -/
theorem findfree (h : BInv s X) (hf : Zone.findfree s z n = some e) :
    e ∈ starts s X ∧ n ≤ (s.db.pfn e).size := by
  obtain ⟨k, hm, hle⟩ := findfree_mem hf
  have he := h.filed.mem hm
  obtain rfl : k = _ := h.order hm
  exact ⟨he, hle.trans (msbit_le (h.entry e he).size_pos)⟩

/-- `zone_remove` of a block: its tags stay behind. -/
theorem remove (h : BInv s X) (he : e ∈ starts s X) (z : PfnZone) :
    ∃ t, Zone.remove backend s z e = .ok t ∧ BInv t (X ∪ pages e (s.db.pfn e).size) ∧
      t.db = s.db ∧ starts t (X ∪ pages e (s.db.pfn e).size) = starts s X \ {e} := by
  have hok := h.entry e he
  obtain ⟨t, ht, hf, hsub, hdb⟩ := h.removeOpt h.filed rfl z (o := some e)
    fun e' he' ↦ Option.some.inj he' ▸ he
  have hS : {e' ∈ starts s X | some e ≠ some e'} = starts s X \ {e} := by
    ext e'
    simp [eq_comm]
  have hst : starts t (X ∪ pages e (s.db.pfn e).size) = starts s X \ {e} := by
    ext p
    show p < t.db.max ∧ p ∉ X ∪ pages e (s.db.pfn e).size ∧ (t.db.type p).isPgzstart = true ↔
      (p < s.db.max ∧ p ∉ X ∧ (s.db.type p).isPgzstart = true) ∧ p ≠ e
    rw [hdb]
    constructor
    · rintro ⟨hmax, hpg, hs⟩
      refine ⟨⟨hmax, fun hX ↦ hpg (.inl hX), hs⟩, ?_⟩
      rintro rfl
      exact hpg (.inr ⟨le_rfl, Nat.lt_add_of_pos_right hok.size_pos⟩)
    · rintro ⟨hp, hne⟩
      refine ⟨hp.1, ?_, hp.2.2⟩
      rintro (hX | hpg)
      · exact hp.2.1 hX
      · have hs := (h.entry p hp).size_pos
        exact hne (h.unique hp he le_rfl (Nat.lt_add_of_pos_right hs) hpg.1 hpg.2)
  rw [hS] at hf
  refine ⟨t, ht, ⟨?_, ?_, ?_, ?_, ?_, ?_, ?_⟩, hdb, hst⟩
  · rw [hdb]
    exact h.max_lt
  · rw [hst]
    exact hf
  · intro b e' he'
    rw [hdb]
    exact h.order (hsub b e' he')
  · rw [hst, hdb]
    exact fun p hp ↦ h.entry p hp.1
  · rw [hst, hdb]
    exact fun p hp q hq hne ↦ h.apart p hp.1 q hq.1 hne
  · rw [hst, hdb]
    intro x hx hpg hterm
    obtain ⟨p, hp, hend⟩ := h.term x hx (fun hX ↦ hpg (.inl hX)) hterm
    have hs := (h.entry p hp).size_pos
    refine ⟨p, ⟨hp, ?_⟩, hend⟩
    rintro rfl
    exact hpg (.inr ⟨by omega, by omega⟩)
  · rw [hst, hdb]
    rintro p ⟨hp, hne⟩ x hx hx' (hX | hpg)
    · exact h.clean p hp x hx hx' hX
    · exact hne (h.unique hp he hx hx' hpg.1 hpg.2)

/-- A page inside a block is not the last of one. -/
theorem not_term (h : BInv s X) (he : e ∈ starts s X) (hx : e ≤ x)
    (hlt : x + 1 < e + (s.db.pfn e).size) : ¬(s.db.type x).isPgzterm = true := by
  intro hterm
  have hbd := (h.entry e he).bound
  obtain ⟨p, hp, hend⟩ := h.term x (by omega) (h.clean e he x hx (by omega)) hterm
  have hs := (h.entry p hp).size_pos
  obtain rfl := h.unique hp he (x := x) (by omega) (by omega) hx (by omega)
  omega

/-- What the removed block had beyond its first `n` pages may be freed again. -/
theorem span_of_remove (h : BInv s X) (he : e ∈ starts s X) (hdb : t.db = s.db)
    (hst : starts t (X ∪ pages e (s.db.pfn e).size) = starts s X \ {e}) (hn : 0 < n)
    (hlt : n < (s.db.pfn e).size)
    (hahead : e + (s.db.pfn e).size ∈ X ∨ e + (s.db.pfn e).size = s.db.max →
      next s.db (e + n) ((s.db.pfn e).size - n) = none) :
    Span t (X ∪ pages e (s.db.pfn e).size) (e + n) ((s.db.pfn e).size - n) := by
  have hok := h.entry e he
  have hend : e + n + ((s.db.pfn e).size - n) = e + (s.db.pfn e).size := by omega
  refine ⟨Nat.add_pos_right _ hn, by omega, ?_, ?_, ?_, ?_⟩
  · rw [hend, hdb]
    exact hok.bound
  · rw [hst, hend, hdb]
    rintro p ⟨hp, hne⟩
    have hap := h.apart p hp e he hne
    omega
  · intro _
    rw [hdb, prev]
    split
    · rfl
    · rw [if_neg (h.not_term he (by omega) (by omega))]
  · rw [hend, hdb]
    rintro ((hX | hpg) | hmax)
    · exact hahead (.inl hX)
    · exact absurd hpg.2 (Nat.lt_irrefl _)
    · exact hahead (.inr hmax)

/-- The pages of the rest of a block are free again, and no others are. -/
theorem stale_rest (h : BInv s X) (he : e ∈ starts s X) (hle : n ≤ (s.db.pfn e).size) :
    (X ∪ pages e (s.db.pfn e).size) \ pages (e + n) ((s.db.pfn e).size - n) =
      X ∪ pages e n := by
  ext x
  have hcl : x ∈ X → ¬(e ≤ x ∧ x < e + (s.db.pfn e).size) :=
    fun hx hin ↦ h.clean e he x hin.1 hin.2 hx
  simp only [pages, Set.mem_sdiff, Set.mem_union, Set.mem_ofPred_eq]
  constructor
  · rintro ⟨hx | hx, hout⟩
    · exact .inl hx
    · exact .inr (by omega)
  · rintro (hx | hx)
    · exact ⟨.inl hx, fun hin ↦ hcl hx (by omega)⟩
    · exact ⟨.inr (by omega), by omega⟩

/-- The pages of the blocks without those of the removed one. -/
theorem freeAll_of_remove (h : BInv s X) (he : e ∈ starts s X) (hdb : t.db = s.db)
    (hst : starts t (X ∪ pages e (s.db.pfn e).size) = starts s X \ {e}) :
    freeAll t (X ∪ pages e (s.db.pfn e).size) = freeAll s X \ pages e (s.db.pfn e).size := by
  ext x
  show (∃ p ∈ starts t (X ∪ pages e (s.db.pfn e).size), _) ↔ _
  rw [hst, hdb]
  constructor
  · rintro ⟨p, ⟨hp, hne⟩, hx, hx'⟩
    exact ⟨⟨p, hp, hx, hx'⟩, fun hpg ↦ hne (h.unique hp he hx hx' hpg.1 hpg.2)⟩
  · rintro ⟨⟨p, hp, hx, hx'⟩, hpg⟩
    refine ⟨p, ⟨hp, ?_⟩, hx, hx'⟩
    rintro rfl
    exact hpg ⟨hx, hx'⟩

/-- What is left of the size of a block. -/
theorem diff_eq (h : BInv s X) (he : e ∈ starts s X) (hle : n ≤ (s.db.pfn e).size) :
    w32 (backend.size s.db e + (2 ^ 32 - n)) = (s.db.pfn e).size - n := by
  have hbd := (h.entry e he).bound
  have hmax := h.max_lt
  show ((s.db.pfn e).size + (2 ^ 32 - n)) % 2 ^ 32 = (s.db.pfn e).size - n
  omega

/-- `alloc` from a block that is large enough, with a rest that does not end where a tag is taken
that is out of date. -/
theorem allocFrom (h : BInv s X) (he : e ∈ starts s X) (hn : 0 < n) (hle : n ≤ (s.db.pfn e).size)
    (hahead : n < (s.db.pfn e).size →
      e + (s.db.pfn e).size ∈ X ∨ e + (s.db.pfn e).size = s.db.max →
        next s.db (e + n) ((s.db.pfn e).size - n) = none) (z : PfnZone) :
    (∃ t, Zone.allocFrom backend s z e n = .ok (e, t) ∧ BInv t (X ∪ pages e n) ∧
      t.db.max = s.db.max ∧ freeAll t (X ∪ pages e n) = freeAll s X \ pages e n) ∨
    Zone.allocFrom backend s z e n = .error .diff := by
  have hok := h.entry e he
  have hbd := hok.bound
  have hmax := h.max_lt
  have haddr : backend.addr s.db e = e := hok.addr
  have hdiff := h.diff_eq he hle
  by_cases hbig : 2 ^ 31 ≤ (s.db.pfn e).size - n
  · right
    simp only [Zone.allocFrom, hdiff, if_pos hbig]
  · left
    obtain ⟨s₁, hrem, h₁, hdb₁, hst₁⟩ := h.remove he z
    have hfree₁ := h.freeAll_of_remove he hdb₁ hst₁
    by_cases heq : n = (s.db.pfn e).size
    · rw [← heq] at h₁ hfree₁
      refine ⟨s₁, ?_, h₁, by rw [hdb₁], hfree₁⟩
      rw [Zone.allocFrom]
      simp only [hdiff, haddr, hrem, bind, Except.bind, ← heq, Nat.sub_self, Nat.lt_irrefl,
        if_false, pure, Except.pure]
      rfl
    · have hlt : n < (s.db.pfn e).size := lt_of_le_of_ne hle heq
      have hsp := h.span_of_remove he hdb₁ hst₁ hn hlt (hahead hlt)
      obtain ⟨t, hcr, ht, hdb⟩ := hsp.create h₁ z
      have hfree := hsp.freeAll_eq h₁ hdb
      have hw : w32 (e + n) = e + n := Nat.mod_eq_of_lt (by omega)
      rw [h.stale_rest he hle] at ht hfree
      rw [hfree₁, freeAll_rest he hle] at hfree
      refine ⟨t, ?_, ht, ?_, hfree⟩
      · rw [Zone.allocFrom]
        simp only [hdiff, haddr, if_neg hbig, hrem, bind, Except.bind, hw,
          if_pos (Nat.sub_pos_of_lt hlt), hcr, pure, Except.pure]
      · rw [hdb, Block.db'_max, hdb₁]

end BInv

/-! ## Setting the type of the pages returned -/

section Settypes

variable (s a n ty)

theorem settypes_max : (s.db.settypes a n ty).max = s.db.max := rfl

theorem settypes_zone : (s.db.settypes a n ty).zone = s.db.zone := rfl

variable {s a n ty}

theorem settypes_size (p : Nat) : ((s.db.settypes a n ty).pfn p).size = (s.db.pfn p).size :=
  (settypes_entry _ _ _ _ _).2

theorem settypes_addr (p : Nat) : ((s.db.settypes a n ty).pfn p).addr = (s.db.pfn p).addr :=
  (settypes_entry _ _ _ _ _).1

theorem settypes_of_mem (hp : p ∈ pages a n) : (s.db.settypes a n ty).type p = ty := by
  rw [settypes_type]
  exact if_pos hp

theorem settypes_of_not_mem (hp : p ∉ pages a n) :
    (s.db.settypes a n ty).type p = s.db.type p := by
  rw [settypes_type]
  exact if_neg hp

/-- No block begins in the pages, and none did. -/
theorem starts_settypes (hs : ty.isPgzstart = false) (hsub : pages a n ⊆ X) :
    starts { s with db := s.db.settypes a n ty } (X \ pages a n) = starts s X := by
  ext p
  show p < s.db.max ∧ p ∉ X \ pages a n ∧ ((s.db.settypes a n ty).type p).isPgzstart = true ↔
    p < s.db.max ∧ p ∉ X ∧ (s.db.type p).isPgzstart = true
  constructor
  · rintro ⟨hlt, hX, hstart⟩
    have hp : p ∉ pages a n := by
      intro hp
      rw [settypes_of_mem hp, hs] at hstart
      cases hstart
    rw [settypes_of_not_mem hp] at hstart
    exact ⟨hlt, fun hx ↦ hX ⟨hx, hp⟩, hstart⟩
  · rintro ⟨hlt, hX, hstart⟩
    rw [settypes_of_not_mem fun hp ↦ hX (hsub hp)]
    exact ⟨hlt, fun hx ↦ hX hx.1, hstart⟩

end Settypes

/-- Pages whose tags are out of date get another type. -/
theorem BInv.settypes (h : BInv s X) (hs : ty.isPgzstart = false) (ht : ty.isPgzterm = false)
    (hsub : pages a n ⊆ X) :
    BInv { s with db := s.db.settypes a n ty } (X \ pages a n) := by
  have hst := starts_settypes (s := s) hs hsub
  have hsize : ∀ q, ((s.db.settypes a n ty).pfn q).size = (s.db.pfn q).size := settypes_size
  refine ⟨h.max_lt, ?_, ?_, ?_, ?_, ?_, ?_⟩
  · rw [hst]
    exact h.filed
  · intro b e he
    show b.2 = msbit ((s.db.settypes a n ty).pfn e).size
    rw [hsize]
    exact h.order he
  · rw [hst]
    intro p hp
    have hok := h.entry p hp
    have hpos := hok.size_pos
    -- the last page of a block is not one of those
    have hl : p + (s.db.pfn p).size - 1 ∉ pages a n := fun hpg ↦
      h.clean p hp _ (by omega) (by omega) (hsub hpg)
    refine ⟨hok.pos, ?_, ?_, (settypes_addr p).trans hok.addr, ?_, ?_, ?_⟩
    · rw [hsize]
      exact hpos
    · rw [hsize, settypes_max]
      exact hok.bound
    · rw [hsize, settypes_of_not_mem hl]
      exact hok.term
    · rw [hsize, settypes_addr]
      exact hok.lastAddr
    · rw [hsize, hsize]
      exact hok.lastSize
  · rw [hst]
    intro p hp q hq hne
    show p + ((s.db.settypes a n ty).pfn p).size ≤ q ∨ q + ((s.db.settypes a n ty).pfn q).size ≤ p
    rw [hsize, hsize]
    exact h.apart p hp q hq hne
  · rw [hst]
    intro x hx hX hterm
    have hterm : ((s.db.settypes a n ty).type x).isPgzterm = true := hterm
    have hp : x ∉ pages a n := by
      intro hp
      rw [settypes_of_mem hp, ht] at hterm
      cases hterm
    rw [settypes_of_not_mem hp] at hterm
    obtain ⟨p, hm, hend⟩ := h.term x hx (fun hx ↦ hX ⟨hx, hp⟩) hterm
    exact ⟨p, hm, hend.trans (congrArg (p + ·) (hsize p).symm)⟩
  · rw [hst]
    intro p hp x hx hx' hX
    rw [show ((s.db.settypes a n ty).pfn p).size = _ from hsize p] at hx'
    exact h.clean p hp x hx hx' hX.1

/-- The pages of the blocks stay the same. -/
theorem freeAll_settypes (hs : ty.isPgzstart = false) (hsub : pages a n ⊆ X) :
    freeAll { s with db := s.db.settypes a n ty } (X \ pages a n) = freeAll s X := by
  ext x
  show (∃ p ∈ starts { s with db := s.db.settypes a n ty } (X \ pages a n), p ≤ x ∧
    x < p + ((s.db.settypes a n ty).pfn p).size) ↔ _
  simp only [starts_settypes hs hsub, settypes_size]
  rfl

/-! ## `pgalloc` -/

/-- The zone and the block that `pgalloc` allocates from: of the zones that the flags
allow, in the order of the code, the first with a block that is large enough. -/
def chosenIn (s : PgZones) (n flags : Nat) (zs : List (Nat × PfnZone)) : Option (PfnZone × Nat) :=
  zs.findSome? fun z ↦
    if flags &&& z.1 ≠ 0 then (findfree s z.2 n).map fun e ↦ (z.2, e) else none

@[inherit_doc chosenIn]
def chosen (s : PgZones) (n flags : Nat) : Option (PfnZone × Nat) :=
  chosenIn s n (gfpFlags flags) gfpZones

theorem chosenIn_eq_some {zs : List (Nat × PfnZone)} (h : chosenIn s n flags zs = some (z, e)) :
    ∃ bit, (bit, z) ∈ zs ∧ flags &&& bit ≠ 0 ∧ findfree s z n = some e := by
  obtain ⟨⟨bit, z'⟩, hm, hf⟩ := List.exists_of_findSome?_eq_some h
  simp only at hf
  split at hf
  · rename_i hbit
    obtain ⟨e', he, heq⟩ := Option.map_eq_some_iff.1 hf
    obtain ⟨rfl, rfl⟩ := Prod.mk.inj heq
    exact ⟨bit, hm, hbit, he⟩
  · cases hf

/-- Once an allocation has succeeded the other zones are left alone. -/
theorem foldlM_tryZone_done {r : Nat × PgZones} (hr : r.1 ≠ 0) (zs : List (Nat × PfnZone)) :
    zs.foldlM (tryZone n flags) r = .ok r := by
  induction zs with
  | nil => rfl
  | cons z zs ih =>
      have hz : tryZone n flags r z = .ok r := by
        rw [tryZone, if_neg fun h ↦ hr h.1]
      rw [List.foldlM_cons, hz]
      exact ih

theorem allocFrom_addr {r : Nat × PgZones} (h : Zone.allocFrom backend s z e n = .ok r) :
    r.1 = backend.addr s.db e := by
  rw [Zone.allocFrom] at h
  simp only at h
  split at h
  · cases h
  · obtain ⟨_, _, h⟩ := bind_eq_ok.1 h
    split at h
    · obtain ⟨_, _, h⟩ := bind_eq_ok.1 h
      rw [← Except.ok.inj h]
    · obtain ⟨_, _, h⟩ := bind_eq_ok.1 h
      rw [← Except.ok.inj h]

/-- The loop of `pgalloc` over the zones allocates from the chosen block. -/
theorem foldlM_tryZone (h : BInv s ∅) (hn : 0 < n) (zs : List (Nat × PfnZone)) :
    zs.foldlM (tryZone n flags) (0, s) =
      match chosenIn s n flags zs with
      | none => .ok (0, s)
      | some (z, e) => Zone.allocFrom backend s z e n := by
  induction zs with
  | nil => rfl
  | cons z zs ih =>
      rw [List.foldlM_cons, tryZone, chosenIn, List.findSome?_cons]
      by_cases hbit : flags &&& z.1 ≠ 0
      · rw [if_pos ⟨rfl, hbit⟩, if_pos hbit, Zone.alloc, if_neg hn.ne']
        cases hf : findfree s z.2 n with
        | none => exact ih
        | some e =>
            have hm := (h.findfree hf).1
            show Zone.allocFrom backend s z.2 e n >>= _ = Zone.allocFrom backend s z.2 e n
            cases ha : Zone.allocFrom backend s z.2 e n with
            | error err => rfl
            | ok r =>
                refine foldlM_tryZone_done ?_ zs
                rw [allocFrom_addr ha]
                show (s.db.pfn e).addr ≠ 0
                rw [(h.entry e hm).addr]
                exact (h.entry e hm).pos.ne'
      · rw [if_neg fun hb ↦ hbit hb.2, if_neg hbit]
        exact ih

/-- `pgalloc`: pages of blocks, which are in none then; or it stops the kernel. -/
theorem BInv.pgalloc (h : BInv s ∅) (hs : ty.isPgzstart = false) (ht : ty.isPgzterm = false)
    (hrest : ∀ z e, chosen s n flags = some (z, e) → n < (s.db.pfn e).size →
      e + (s.db.pfn e).size = s.db.max → next s.db (e + n) ((s.db.pfn e).size - n) = none) :
    (∃ a t, Pg.pgalloc s n ty flags = .ok (a, t) ∧ BInv t ∅ ∧ t.db.max = s.db.max ∧ 0 < n ∧
      pages a n ⊆ freeAll s ∅ ∧ freeAll t ∅ = freeAll s ∅ \ pages a n) ∨
    ∃ e, Pg.pgalloc s n ty flags = .error e := by
  rw [Pg.pgalloc]
  by_cases hn : n = 0
  · rw [if_pos hn]
    exact .inr ⟨_, rfl⟩
  · have hpos : 0 < n := Nat.pos_of_ne_zero hn
    rw [if_neg hn, foldlM_tryZone h hpos]
    cases hc : chosen s n flags with
    | none =>
        rw [show chosenIn s n (gfpFlags flags) gfpZones = none from hc]
        exact .inr ⟨_, rfl⟩
    | some r =>
        obtain ⟨z, e⟩ := r
        obtain ⟨_, _, _, hf⟩ := chosenIn_eq_some hc
        obtain ⟨he, hle⟩ := h.findfree hf
        rw [show chosenIn s n (gfpFlags flags) gfpZones = some (z, e) from hc]
        rcases h.allocFrom he hpos hle (fun hlt hend ↦ hrest z e hc hlt
            (hend.resolve_left (Set.notMem_empty _))) z with ⟨t, hal, hi, hmax, hfree⟩ | herr
        · left
          have hok := h.entry e he
          rw [Set.empty_union] at hi hfree
          have hi' := hi.settypes hs ht (Set.Subset.refl _)
          have hfree' := freeAll_settypes (s := t) hs (Set.Subset.refl (pages e n))
          rw [Set.sdiff_self] at hi' hfree'
          refine ⟨e, _, ?_, hi', hmax, hpos, ?_, hfree'.trans hfree⟩
          · simp only [hal, bind, Except.bind, if_neg hok.pos.ne']
            rfl
          · exact fun x hx ↦ ⟨e, he, hx.1, hx.2.trans_le (Nat.add_le_add_left hle e)⟩
        · right
          refine ⟨.diff, ?_⟩
          simp only [herr, bind, Except.bind]

end Mh.Pg
