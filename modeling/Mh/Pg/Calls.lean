import Mh.Pg.BlockCalls
import Mh.Pg.Create

/-!
# Allocating and freeing pages

`pgalloc` takes a block off its list, gives what it does not need back to the zone
and sets the type of the pages it returns; until then their tags are out of date.
`pgfree` is `zone_create`.

A call keeps the invariant when the block it joins to its neighbours, which is the
block that is freed or the rest of the block that is allocated from, is safe to join
(`OpSafe`).
-/

namespace Mh.Pg

open Mh.Lib Mh.Zone

variable {s t : PgZones} {X : Set Nat} {p q e x a n flags : Nat} {z : PfnZone} {ty : PfnType}

theorem mem_freePfns : x ∈ freePfns s X z ↔
    ∃ p ∈ starts s X, s.db.zone p = z ∧ p ≤ x ∧ x < p + (s.db.pfn p).size := by
  constructor
  · rintro ⟨_, ⟨p, hp, rfl⟩, hz, hx⟩
    exact ⟨p, hp, hz, hx⟩
  · rintro ⟨p, hp, hz, hx⟩
    exact ⟨_, mem_ranges hp, hz, hx⟩

/-! ## Taking a block off its list -/

namespace PInv

/-- `zone_remove` of a block: its tags stay behind. -/
theorem remove (h : PInv s X) (he : e ∈ starts s X) :
    ∃ t, Zone.remove backend s (s.db.zone e) e = .ok t ∧
      PInv t (X ∪ pages e (s.db.pfn e).size) ∧ t.db = s.db ∧
      starts t (X ∪ pages e (s.db.pfn e).size) = starts s X \ {e} := by
  have hrem := h.zinv.remove backend he (range_len s.db e).symm
  obtain ⟨t, ht, hi, hdb, hst⟩ := h.binv.remove he (s.db.zone e)
  refine ⟨t, ht, ⟨hi.max_lt, ?_, ?_, ?_, hi.term, hi.clean, ?_⟩, hdb, hst⟩
  · rw [hst, hdb]
    obtain rfl := Except.ok.inj (hrem.symm.trans ht)
    exact (h.zinv.detach he).setDb _
  · refine h.tidy.mono ?_
    rw [ranges, hst, hdb]
    exact Set.image_mono Set.sdiff_subset
  · rw [hst, hdb]
    exact fun p hp ↦ h.entry p hp.1
  · rw [hdb]
    exact h.top

/-- What the removed block had beyond its first `n` pages may be freed again. -/
theorem block_of_remove (h : PInv s X) (he : e ∈ starts s X) (hdb : t.db = s.db)
    (hst : starts t (X ∪ pages e (s.db.pfn e).size) = starts s X \ {e}) (hn : 0 < n)
    (hlt : n < (s.db.pfn e).size) (hsafe : MergeSafe s.db (e + n) ((s.db.pfn e).size - n))
    (hahead : e + (s.db.pfn e).size ∈ X → next s.db (e + n) ((s.db.pfn e).size - n) = none) :
    Block t (X ∪ pages e (s.db.pfn e).size) (e + n) ((s.db.pfn e).size - n) := by
  have hok := h.entry e he
  have hend : e + n + ((s.db.pfn e).size - n) = e + (s.db.pfn e).size := by omega
  have hsp := h.binv.span_of_remove he hdb hst hn hlt fun hX ↦ hX.elim hahead fun hmax ↦
    h.next_top (by rw [hend, hmax])
  refine ⟨hsp.addr_pos, hsp.size_pos, hsp.bound, ?_, hsp.clear, hsp.stale,
    fun hX ↦ hsp.ahead (.inl hX), ?_⟩
  · rw [hend, hdb]
    intro x hx hx'
    rw [hok.zone x (by omega) hx', hok.zone (e + n) (by omega) (by omega)]
  · rw [hdb]
    exact hsafe

/-- The free pages without those of the removed block. -/
theorem freePfns_of_remove (h : PInv s X) (he : e ∈ starts s X) (hdb : t.db = s.db)
    (hst : starts t (X ∪ pages e (s.db.pfn e).size) = starts s X \ {e}) (z : PfnZone) :
    freePfns t (X ∪ pages e (s.db.pfn e).size) z =
      freePfns s X z \ pages e (s.db.pfn e).size := by
  ext x
  rw [Set.mem_sdiff, mem_freePfns, mem_freePfns, hst, hdb]
  constructor
  · rintro ⟨p, ⟨hp, hne⟩, hz, hx, hx'⟩
    exact ⟨⟨p, hp, hz, hx, hx'⟩, fun hpg ↦ hne (h.unique hp he hx hx' hpg.1 hpg.2)⟩
  · rintro ⟨⟨p, hp, hz, hx, hx'⟩, hpg⟩
    refine ⟨p, ⟨hp, ?_⟩, hz, hx, hx'⟩
    rintro rfl
    exact hpg ⟨hx, hx'⟩

/-- The free pages of a zone when the rest of a block is put back. -/
theorem freePfns_rest (h : PInv s X) (he : e ∈ starts s X) (hle : n ≤ (s.db.pfn e).size)
    (z : PfnZone) :
    (freePfns s X z \ pages e (s.db.pfn e).size) ∪
        {x | z = s.db.zone e ∧ x ∈ pages (e + n) ((s.db.pfn e).size - n)} =
      freePfns s X z \ pages e n := by
  ext x
  simp only [Set.mem_union, Set.mem_sdiff, Set.mem_ofPred_eq]
  by_cases hf : x ∈ freePfns s X z
  · -- a free page of the block is in the zone of the block
    have hzx : x ∈ pages e (s.db.pfn e).size → z = s.db.zone e := by
      intro hpg
      obtain ⟨p, hp, hz, hx, hx'⟩ := mem_freePfns.1 hf
      rw [← hz, h.unique hp he hx hx' hpg.1 hpg.2]
    simp only [pages, Set.mem_ofPred_eq] at hzx ⊢
    constructor
    · rintro (⟨_, hpg⟩ | ⟨_, hpg⟩)
      · exact ⟨hf, by omega⟩
      · exact ⟨hf, by omega⟩
    · rintro ⟨_, hpg⟩
      by_cases hin : e ≤ x ∧ x < e + (s.db.pfn e).size
      · exact .inr ⟨hzx hin, by omega⟩
      · exact .inl ⟨hf, hin⟩
  · have hnx : z = s.db.zone e → x ∉ pages e (s.db.pfn e).size :=
      fun hz hpg ↦ hf (mem_freePfns.2 ⟨e, he, hz.symm, hpg.1, hpg.2⟩)
    simp only [pages, Set.mem_ofPred_eq] at hnx ⊢
    constructor
    · rintro (⟨hf', _⟩ | ⟨hz, hpg⟩)
      · exact absurd hf' hf
      · exact absurd ⟨by omega, by omega⟩ (hnx hz)
    · rintro ⟨hf', _⟩
      exact absurd hf' hf

/-- `alloc` from a block that is large enough, with a rest that is safe to join. -/
theorem allocFrom (h : PInv s X) (he : e ∈ starts s X) (hn : 0 < n) (hle : n ≤ (s.db.pfn e).size)
    (hsafe : n < (s.db.pfn e).size → MergeSafe s.db (e + n) ((s.db.pfn e).size - n))
    (hahead : n < (s.db.pfn e).size → e + (s.db.pfn e).size ∈ X →
      next s.db (e + n) ((s.db.pfn e).size - n) = none) :
    (∃ t, Zone.allocFrom backend s (s.db.zone e) e n = .ok (e, t) ∧ PInv t (X ∪ pages e n) ∧
      t.db.max = s.db.max ∧ (∀ x ∈ X ∪ pages e n, t.db.pfn x = s.db.pfn x) ∧
      (∀ r ∈ ranges t (X ∪ pages e n), ∃ r' ∈ ranges s X, r'.zone = r.zone ∧ r'.hi = r.hi) ∧
      ∀ z, freePfns t (X ∪ pages e n) z = freePfns s X z \ pages e n) ∨
    Zone.allocFrom backend s (s.db.zone e) e n = .error .diff := by
  have hok := h.entry e he
  have hbd := hok.bound
  have hmax := h.max_lt
  have haddr : backend.addr s.db e = e := hok.addr
  have hdiff := h.binv.diff_eq he hle
  by_cases hbig : 2 ^ 31 ≤ (s.db.pfn e).size - n
  · right
    simp only [Zone.allocFrom, hdiff, if_pos hbig]
  · left
    obtain ⟨s₁, hrem, h₁, hdb₁, hst₁⟩ := h.remove he
    have hfree₁ := h.freePfns_of_remove he hdb₁ hst₁
    have hsub : ranges s₁ (X ∪ pages e (s.db.pfn e).size) ⊆ ranges s X := by
      rw [ranges, hst₁, hdb₁]
      exact Set.image_mono Set.sdiff_subset
    by_cases heq : n = (s.db.pfn e).size
    · rw [← heq] at h₁ hfree₁ hsub
      refine ⟨s₁, ?_, h₁, by rw [hdb₁], fun x _ ↦ by rw [hdb₁], fun r hr ↦ ?_, hfree₁⟩
      · rw [Zone.allocFrom]
        simp only [hdiff, haddr, hrem, bind, Except.bind, ← heq, Nat.sub_self, Nat.lt_irrefl,
          if_false, pure, Except.pure]
        rfl
      · exact ⟨r, hsub hr, rfl, rfl⟩
    · have hlt : n < (s.db.pfn e).size := lt_of_le_of_ne hle heq
      have hblk := h.block_of_remove he hdb₁ hst₁ hn hlt (hsafe hlt) (hahead hlt)
      obtain ⟨t, hcr, ht, hdb, hfree⟩ := hblk.create h₁
      have hzone : s₁.db.zone (e + n) = s.db.zone e := by
        rw [hdb₁]
        exact hok.zone (e + n) (by omega) (by omega)
      have hX := h.binv.stale_rest he hle
      have hw : w32 (e + n) = e + n := Nat.mod_eq_of_lt (by omega)
      rw [hzone] at hcr hfree
      rw [hX] at ht hfree
      refine ⟨t, ?_, ht, ?_, fun x hx ↦ ?_, fun r hr ↦ ?_, fun z ↦ ?_⟩
      · rw [Zone.allocFrom]
        simp only [hdiff, haddr, if_neg hbig, hrem, bind, Except.bind, hw,
          if_pos (Nat.sub_pos_of_lt hlt), hcr, pure, Except.pure]
      · rw [hdb, Block.db'_max, hdb₁]
      · rw [← hX] at hx
        rw [hdb, (hblk.span h₁).db'_stale h₁.binv hx, hdb₁]
      · rw [← hX, hblk.ranges_eq h₁ hdb] at hr
        rcases Range.hi_of_mem_merge (hblk.neighbors h₁) hr with ⟨r', hr', hz, hhi⟩ | ⟨hz, hhi⟩
        · exact ⟨r', hsub hr', hz, hhi⟩
        · refine ⟨s.db.range e, mem_ranges he, ?_, ?_⟩
          · rw [hz, hzone, range_zone]
          · rw [hhi, range_hi]
            omega
      · rw [hfree, hfree₁]
        exact h.freePfns_rest he hle z

/-! ## Setting the type of the pages returned -/

theorem settypes_range : (s.db.settypes a n ty).range = s.db.range := by
  funext p
  rw [Db.range, Db.range, settypes_size, settypes_zone]

theorem ranges_settypes (hs : ty.isPgzstart = false) (hsub : pages a n ⊆ X) :
    ranges { s with db := s.db.settypes a n ty } (X \ pages a n) = ranges s X := by
  show (s.db.settypes a n ty).range '' starts { s with db := s.db.settypes a n ty }
    (X \ pages a n) = _
  rw [starts_settypes hs hsub, settypes_range]
  rfl

/-- Pages whose tags are out of date get another type. -/
theorem settypes (h : PInv s X) (hs : ty.isPgzstart = false) (ht : ty.isPgzterm = false)
    (hsub : pages a n ⊆ X) (hb : a + n ≤ s.db.max) :
    PInv { s with db := s.db.settypes a n ty } (X \ pages a n) ∧
      ranges { s with db := s.db.settypes a n ty } (X \ pages a n) = ranges s X := by
  have hst := starts_settypes (s := s) hs hsub
  have hr := ranges_settypes (s := s) hs hsub
  have hi := h.binv.settypes hs ht hsub
  refine ⟨⟨hi.max_lt, ?_, ?_, ?_, hi.term, hi.clean, ?_⟩, hr⟩
  · rw [hst]
    show ZInv { s with db := s.db.settypes a n ty } _ (s.db.settypes a n ty).range
    rw [settypes_range]
    exact h.zinv.setDb _
  · rw [hr]
    exact h.tidy
  · intro p hp
    have hok := hi.entry p hp
    refine ⟨hok.pos, hok.bound, ?_, hok.addr, hok.term, hok.lastAddr, hok.lastSize⟩
    rw [hst] at hp
    show ∀ x, p ≤ x → x < p + ((s.db.settypes a n ty).pfn p).size → s.db.zone x = s.db.zone p
    rw [settypes_size]
    exact (h.entry p hp).zone
  · show ((s.db.settypes a n ty).type s.db.max).isPgzstart = false
    rw [settypes_of_not_mem fun hp ↦ absurd hp.2 (Nat.not_lt.2 hb)]
    exact h.top

end PInv

/-! ## `pgalloc` -/

/-- The rest of the chosen block is safe to join. -/
def AllocSafe (s : PgZones) (n flags : Nat) : Prop :=
  ∀ z e, chosen s n flags = some (z, e) → n < (s.db.pfn e).size →
    MergeSafe s.db (e + n) ((s.db.pfn e).size - n)

/-- `pgalloc`: pages of a zone that the flags allow, all of them free before and none
after; or it stops the kernel. -/
theorem PInv.pgalloc (h : PInv s ∅) (hs : ty.isPgzstart = false) (ht : ty.isPgzterm = false)
    (hsafe : AllocSafe s n flags) :
    (∃ a t, Pg.pgalloc s n ty flags = .ok (a, t) ∧ PInv t ∅ ∧ t.db.max = s.db.max ∧ 0 < n ∧
      (∃ bit, (bit, s.db.zone a) ∈ gfpZones ∧ gfpFlags flags &&& bit ≠ 0) ∧
      pages a n ⊆ freePfns s ∅ (s.db.zone a) ∧
      ∀ z, freePfns t ∅ z = freePfns s ∅ z \ pages a n) ∨
    ∃ e, Pg.pgalloc s n ty flags = .error e := by
  rw [Pg.pgalloc]
  by_cases hn : n = 0
  · rw [if_pos hn]
    exact .inr ⟨_, rfl⟩
  · have hpos : 0 < n := Nat.pos_of_ne_zero hn
    rw [if_neg hn, foldlM_tryZone h.binv hpos]
    cases hc : chosen s n flags with
    | none =>
        rw [show chosenIn s n (gfpFlags flags) gfpZones = none from hc]
        exact .inr ⟨_, rfl⟩
    | some r =>
        obtain ⟨z, e⟩ := r
        obtain ⟨bit, hbit, hfl, hf⟩ := chosenIn_eq_some hc
        obtain ⟨he, hz, hle⟩ := h.zinv.findfree hf
        rw [range_len] at hle
        rw [range_zone] at hz
        subst hz
        rw [show chosenIn s n (gfpFlags flags) gfpZones = some (s.db.zone e, e) from hc]
        rcases h.allocFrom he hpos hle (hsafe _ _ hc)
            (fun _ hX ↦ absurd hX (Set.notMem_empty _)) with ⟨t, hal, hi, hmax, -, -, hfree⟩ | herr
        · left
          have hok := h.entry e he
          have hb : e + n ≤ t.db.max := by
            rw [hmax]
            exact (Nat.add_le_add_left hle e).trans hok.bound
          rw [Set.empty_union] at hi
          simp only [Set.empty_union] at hfree
          obtain ⟨hi', hr⟩ := hi.settypes hs ht (Set.Subset.refl _) hb
          rw [Set.sdiff_self] at hi' hr
          refine ⟨e, _, ?_, hi', hmax, hpos, ⟨bit, hbit, hfl⟩, ?_, fun z ↦ ?_⟩
          · simp only [hal, bind, Except.bind, if_neg hok.pos.ne']
            rfl
          · intro x hx
            exact mem_freePfns.2 ⟨e, he, rfl, hx.1, hx.2.trans_le (Nat.add_le_add_left hle e)⟩
          · rw [← hfree, freePfns, hr, freePfns]
        · right
          refine ⟨.diff, ?_⟩
          simp only [herr, bind, Except.bind]

end Mh.Pg
