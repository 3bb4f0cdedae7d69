import Mh.Pg.Blocks

/-!
# Free pages and their zones

`PInv s X` adds the zones to what `BInv` says of the blocks: the ranges of the blocks are tidy, and
every block is in the zone of its pages.

A block that is freed is joined with the blocks of its zone next to it
(`Block.create`), provided that `___get_neighbors` does not take a block of the next
zone for a neighbour: it asks for the zone of the page after the first one of the
block, where it is the page after the last one that matters (`Block.safe`).
-/

namespace Mh.Pg

open Mh.Lib Mh.Zone

variable {s t : PgZones} {db : Db} {X : Set Nat} {p q x a n : Nat}

/-- The free ranges. -/
def ranges (s : PgZones) (X : Set Nat) : Set (Range PfnZone) := s.db.range '' starts s X

/-- The free pages of a zone. -/
def freePfns (s : PgZones) (X : Set Nat) (z : PfnZone) : Set Nat := Range.cover (ranges s X) z

/-- The block that begins at `p`: its pages are of one zone, and its first and last
page say where it begins and ends. -/
structure EntryOk (db : Db) (p : Nat) : Prop where
  pos : 0 < p
  bound : p + (db.pfn p).size ≤ db.max
  zone : ∀ x, p ≤ x → x < p + (db.pfn p).size → db.zone x = db.zone p
  addr : (db.pfn p).addr = p
  term : (db.type (p + (db.pfn p).size - 1)).isPgzterm = true
  lastAddr : (db.pfn (p + (db.pfn p).size - 1)).addr = p
  lastSize : (db.pfn (p + (db.pfn p).size - 1)).size = (db.pfn p).size

/-- The invariant. -/
structure PInv (s : PgZones) (X : Set Nat) : Prop where
  max_lt : s.db.max < 2 ^ 32
  zinv : ZInv s (starts s X) s.db.range
  tidy : Range.Tidy (ranges s X)
  entry : ∀ p ∈ starts s X, EntryOk s.db p
  term : ∀ x < s.db.max, x ∉ X → (s.db.type x).isPgzterm = true →
    ∃ p ∈ starts s X, x + 1 = p + (s.db.pfn p).size
  clean : ∀ p ∈ starts s X, ∀ x, p ≤ x → x < p + (s.db.pfn p).size → x ∉ X
  top : (s.db.type s.db.max).isPgzstart = false

theorem mem_ranges (h : p ∈ starts s X) : s.db.range p ∈ ranges s X := ⟨p, h, rfl⟩

namespace PInv

theorem size_pos (h : PInv s X) (hp : p ∈ starts s X) : 0 < (s.db.pfn p).size := by
  have hpos := h.zinv.len_pos hp
  rwa [range_len] at hpos

/-- What `PInv` says of the blocks. -/
theorem binv (h : PInv s X) : BInv s X where
  max_lt := h.max_lt
  filed := h.zinv.filed
  order he := by
    rw [(h.zinv.cls he).2.2, bin, range_len]
  entry p hp :=
    have hok := h.entry p hp
    ⟨hok.pos, h.size_pos hp, hok.bound, hok.addr, hok.term, hok.lastAddr, hok.lastSize⟩
  apart p hp q hq hne :=
    h.tidy.apart _ (mem_ranges hp) _ (mem_ranges hq) fun he ↦ hne (range_inj s.db he)
  term := h.term
  clean := h.clean

/-- No block begins after the last page. -/
theorem next_top (h : PInv s X) (hmax : a + n = s.db.max) : next s.db a n = none := by
  rw [next, hmax]
  split
  · rfl
  · rw [if_neg]
    rw [h.top]
    exact Bool.false_ne_true

/-- Two blocks do not overlap. -/
theorem apart (h : PInv s X) (hp : p ∈ starts s X) (hq : q ∈ starts s X) (hne : p ≠ q) :
    p + (s.db.pfn p).size ≤ q ∨ q + (s.db.pfn q).size ≤ p :=
  h.binv.apart p hp q hq hne

/-- A page is in one block only. -/
theorem unique (h : PInv s X) (hp : p ∈ starts s X) (hq : q ∈ starts s X) (hx : p ≤ x)
    (hx' : x < p + (s.db.pfn p).size) (hy : q ≤ x) (hy' : x < q + (s.db.pfn q).size) : p = q :=
  h.binv.unique hp hq hx hx' hy hy'

end PInv

/-! ## Freeing -/

/-- Joining a block of `n` pages from `a` stays in its zone: the page that follows it
does not begin a block of another zone. -/
def MergeSafe (db : Db) (a n : Nat) : Prop :=
  2 ≤ n → (db.type (a + n)).isPgzstart = true → db.zone (a + n) = db.zone a

/-- A block of pages of one zone, none of them free, next to which no tag is taken that is out of
date. -/
structure Block (s : PgZones) (X : Set Nat) (a n : Nat) : Prop where
  addr_pos : 0 < a
  size_pos : 0 < n
  bound : a + n ≤ s.db.max
  zone : ∀ x, a ≤ x → x < a + n → s.db.zone x = s.db.zone a
  clear : ∀ p ∈ starts s X, p + (s.db.pfn p).size ≤ a ∨ a + n ≤ p
  stale : a - 1 ∈ X → prev s.db a = none
  ahead : a + n ∈ X → next s.db a n = none
  safe : MergeSafe s.db a n

namespace Block

theorem lt (hb : Block s X a n) : a < a + n := Nat.lt_add_of_pos_right hb.size_pos

theorem clear_ranges (hb : Block s X a n) : ∀ r ∈ ranges s X, r.hi ≤ a ∨ a + n ≤ r.lo := by
  rintro _ ⟨p, hp, rfl⟩
  exact hb.clear p hp

/-- The tags next to the block are those of blocks. -/
theorem span (hb : Block s X a n) (h : PInv s X) : Span s X a n where
  addr_pos := hb.addr_pos
  size_pos := hb.size_pos
  bound := hb.bound
  clear := hb.clear
  stale := hb.stale
  ahead := by
    rintro (hX | hmax)
    · exact hb.ahead hX
    · exact h.next_top hmax

/-- The block below is the one of the same zone that ends where the block begins. -/
theorem prev_eq_some (hb : Block s X a n) (h : PInv s X) :
    prev s.db a = some p ↔
      p ∈ starts s X ∧ s.db.zone p = s.db.zone a ∧ p + (s.db.pfn p).size = a := by
  have ha := hb.addr_pos
  constructor
  · intro hp
    obtain ⟨hm, he⟩ := (hb.span h).prev_mem h.binv hp
    have hs := h.size_pos hm
    refine ⟨hm, ?_, he⟩
    rw [prev] at hp
    split at hp
    · cases hp
    · rename_i hz
      rw [← (h.entry p hm).zone (a - 1) (by omega) (by omega)]
      exact (not_not.1 fun hne ↦ hz (.inr hne)).symm
  · rintro ⟨hp, hz, he⟩
    have hok := h.entry p hp
    have hs := h.size_pos hp
    have hl : p + (s.db.pfn p).size - 1 = a - 1 := by omega
    have hzone : s.db.zone (a - 1) = s.db.zone a :=
      (hok.zone (a - 1) (by omega) (by omega)).trans hz
    have ht := hok.term
    have hls := hok.lastSize
    rw [hl] at ht hls
    rw [prev, if_neg (by rintro (h₀ | hne); exacts [ha.ne' h₀, hne hzone.symm]), if_pos ht, hls]
    congr 1
    omega

/-- The block above is the one of the same zone that begins where the block ends. -/
theorem next_eq_some (hb : Block s X a n) (h : PInv s X) :
    next s.db a n = some p ↔ p ∈ starts s X ∧ s.db.zone p = s.db.zone a ∧ p = a + n := by
  have hn := hb.size_pos
  -- the page after the first is the page after the last, or is in the block
  have hone : n = 1 ∨ s.db.zone (a + 1) = s.db.zone a := by
    by_cases h₁ : n = 1
    · exact .inl h₁
    · exact .inr (hb.zone (a + 1) (by omega) (by omega))
  constructor
  · intro hp
    obtain ⟨hm, rfl⟩ := (hb.span h).next_mem hp
    refine ⟨hm, ?_, rfl⟩
    rw [next] at hp
    split at hp
    · cases hp
    · rename_i hz
      rcases hone with rfl | _
      · exact (not_not.1 hz).symm
      · by_cases h₂ : 2 ≤ n
        · exact hb.safe h₂ hm.2.2
        · obtain rfl : n = 1 := by omega
          exact (not_not.1 hz).symm
  · rintro ⟨hp, hz, rfl⟩
    have hzone : s.db.zone a = s.db.zone (a + 1) := by
      rcases hone with rfl | he
      · exact hz.symm
      · exact he.symm
    rw [next, if_neg (not_not.2 hzone), if_pos hp.2.2]

end Block

end Mh.Pg

/-!
## Joining free blocks of pages

`zone_create` of a block of pages that is safe to join keeps the invariant, and makes
free exactly the pages of the block.
-/

namespace Mh.Pg

open Mh.Lib Mh.Zone

variable {s t : PgZones} {X : Set Nat} {p q x a n : Nat}

theorem map_range_ne (db : Db) {o : Option Nat} :
    o.map db.range ≠ some (db.range p) ↔ o ≠ some p := by
  rw [not_iff_not, Option.map_eq_some_iff]
  constructor
  · rintro ⟨p', rfl, hr⟩
    rw [range_inj db hr]
  · intro ho
    exact ⟨p, ho, rfl⟩

namespace Block

/-- The neighbours that the tags show are the neighbours among the ranges. -/
theorem neighbors (hb : Block s X a n) (h : PInv s X) :
    Range.Neighbors (ranges s X) a (a + n) (s.db.zone a) ((prev s.db a).map s.db.range)
      ((next s.db a n).map s.db.range) where
  prev r := by
    rw [Option.map_eq_some_iff]
    constructor
    · rintro ⟨p, hp, rfl⟩
      obtain ⟨hm, hz, he⟩ := (hb.prev_eq_some h).1 hp
      exact ⟨mem_ranges hm, hz, he⟩
    · rintro ⟨⟨p, hm, rfl⟩, hz, he⟩
      exact ⟨p, (hb.prev_eq_some h).2 ⟨hm, hz, he⟩, rfl⟩
  next r := by
    rw [Option.map_eq_some_iff]
    constructor
    · rintro ⟨p, hp, rfl⟩
      obtain ⟨hm, hz, he⟩ := (hb.next_eq_some h).1 hp
      exact ⟨mem_ranges hm, hz, he⟩
    · rintro ⟨⟨p, hm, rfl⟩, hz, he⟩
      exact ⟨p, (hb.next_eq_some h).2 ⟨hm, hz, he⟩, rfl⟩

/-- The joined block is in the zone of the block. -/
theorem joined_zone (hb : Block s X a n) (h : PInv s X) (hx : (joined s.db a n).lo ≤ x)
    (hx' : x < (joined s.db a n).hi) : s.db.zone x = s.db.zone a := by
  obtain hpg | ⟨p, hp | hp, hpx, hpx'⟩ := ((hb.span h).mem_joined h.binv).1 ⟨hx, hx'⟩
  · exact hb.zone x hpg.1 hpg.2
  · obtain ⟨hm, hz, _⟩ := (hb.prev_eq_some h).1 hp
    exact ((h.entry p hm).zone x hpx hpx').trans hz
  · obtain ⟨hm, hz, _⟩ := (hb.next_eq_some h).1 hp
    exact ((h.entry p hm).zone x hpx hpx').trans hz

/-! ## The database after the join -/

/-- The range of the joined block. -/
theorem db'_range_joined (hb : Block s X a n) (h : PInv s X) :
    (db' s a n).range (joined s.db a n).lo = joined s.db a n := by
  have hlt := (hb.span h).joined_lo_lt_hi h.binv
  ext
  · rfl
  · rw [range_hi, ((hb.span h).db'_entry h.binv (.inl rfl)).2]
    omega
  · rw [range_zone, db'_zone]
    exact hb.joined_zone h le_rfl hlt

theorem db'_range_others (hb : Block s X a n) (h : PInv s X) (hp : p ∈ others s X a n) :
    (db' s a n).range p = s.db.range p := by
  rw [Db.range, Db.range, ((hb.span h).db'_others h.binv hp).1, db'_zone]

/-- The ranges after the join. -/
theorem ranges_eq (hb : Block s X a n) (h : PInv s X) (ht : t.db = db' s a n) :
    ranges t (X \ pages a n) = Range.merge (ranges s X) a (a + n) (s.db.zone a)
      ((prev s.db a).map s.db.range) ((next s.db a n).map s.db.range) := by
  rw [ranges, (hb.span h).starts_eq h.binv ht, ht, Set.image_insert_eq, hb.db'_range_joined h,
    Range.merge, joined]
  congr 1
  ext r
  constructor
  · rintro ⟨p, hp, rfl⟩
    rw [hb.db'_range_others h hp]
    exact ⟨mem_ranges hp.1, (map_range_ne _).2 hp.2.1, (map_range_ne _).2 hp.2.2⟩
  · rintro ⟨⟨p, hp, rfl⟩, hpp, hpn⟩
    have hm : p ∈ others s X a n := ⟨hp, (map_range_ne _).1 hpp, (map_range_ne _).1 hpn⟩
    exact ⟨p, hm, hb.db'_range_others h hm⟩

/-! ## The zones after the join -/

theorem elim_const {α β : Type} (o : Option α) (b : β) : (o.elim b fun _ ↦ b) = b := by
  cases o <;> rfl

/-- The zones after `zone_create`. -/
theorem zone_create (hb : Block s X a n) (h : PInv s X) :
    ∃ t, Zone.create backend s (s.db.zone a) a n = .ok t ∧
      ZInv t (insert (joined s.db a n).lo (others s X a n)) (db' s a n).range ∧
      t.db = db' s a n := by
  have hsp := hb.span h
  have hlt := hsp.joined_lo_lt_hi h.binv
  have hmax := hsp.joined_hi_le h.binv
  have hm := h.max_lt
  have hfree : backend.freeptr s.db = fun _ ↦ s.db := rfl
  have hsz : ((db' s a n).range (joined s.db a n).lo).len =
      (joined s.db a n).hi - (joined s.db a n).lo := by rw [hb.db'_range_joined h, Range.len]
  refine h.zinv.create backend (p := prev s.db a) (q := next s.db a n)
    (hsp.getNeighbors_eq h.binv) ?_ ?_ ?_ ?_ ?_ ?_ ?_ ?_ ?_
  · intro p hp
    obtain ⟨hm, hz, _⟩ := (hb.prev_eq_some h).1 hp
    exact ⟨hm, hz, (range_len _ _).symm⟩
  · intro p hp
    obtain ⟨hm, hz, _⟩ := (hb.next_eq_some h).1 hp
    rw [hfree, elim_const]
    exact ⟨hm, hz, hsp.prev_ne_next h.binv hp, (range_len _ _).symm⟩
  · simp only [hfree, elim_const]
    rw [hsp.fprev_eq h.binv, hsp.lnext_eq h.binv, hsp.len_eq h.binv]
    exact hsp.mkptr_joined h.binv
  · rintro p hp hpp hpn rfl
    have hc := hsp.clear_of_joined h.binv ⟨hp, hpp, hpn⟩
    have hs := h.size_pos hp
    omega
  · intro p hp hpp hpn
    exact hb.db'_range_others h ⟨hp, hpp, hpn⟩
  · rw [hb.db'_range_joined h]
    rfl
  · exact (range_len _ _).symm
  · rw [hsz]
    omega
  · rw [hsz]
    omega

/-- `zone_create` of a block that is safe to join: its pages become free, and no
others do. -/
theorem create (hb : Block s X a n) (h : PInv s X) :
    ∃ t, Zone.create backend s (s.db.zone a) a n = .ok t ∧ PInv t (X \ pages a n) ∧
      t.db = db' s a n ∧ ∀ z, freePfns t (X \ pages a n) z =
        freePfns s X z ∪ {x | z = s.db.zone a ∧ x ∈ pages a n} := by
  have hsp := hb.span h
  obtain ⟨t, ht, hi, hdb⟩ := hsp.create h.binv (s.db.zone a)
  have hst := hsp.starts_eq h.binv hdb
  have hlt := hsp.joined_lo_lt_hi h.binv
  refine ⟨t, ht, ⟨hi.max_lt, ?_, ?_, ?_, hi.term, hi.clean, ?_⟩, hdb, ?_⟩
  · obtain ⟨u, hu, hz, _⟩ := hb.zone_create h
    obtain rfl := Except.ok.inj (hu.symm.trans ht)
    rw [hst, hdb]
    exact hz
  · rw [hb.ranges_eq h hdb]
    exact h.tidy.merge hb.lt hb.clear_ranges (hb.neighbors h)
  · intro p hp
    have hok := hi.entry p hp
    refine ⟨hok.pos, hok.bound, ?_, hok.addr, hok.term, hok.lastAddr, hok.lastSize⟩
    rw [hst] at hp
    rw [hdb, db'_zone]
    rcases hp with rfl | hp
    · intro x hx hx'
      rw [(hsp.db'_entry h.binv (.inl rfl)).2] at hx'
      rw [hb.joined_zone h hx (by omega), hb.joined_zone h le_rfl hlt]
    · rw [(hsp.db'_others h.binv hp).1]
      exact (h.entry p hp.1).zone
  · rw [hdb, db'_max, Db.type, hsp.db'_outside h.binv (.inr (hsp.joined_hi_le h.binv))]
    exact h.top
  · intro z
    have hr := hb.ranges_eq h hdb
    rw [freePfns, hr, freePfns]
    by_cases hz' : z = s.db.zone a
    · subst hz'
      rw [Range.cover_merge h.tidy hb.lt (hb.neighbors h)]
      simp [pages]
    · rw [Range.cover_merge_of_ne (hb.neighbors h) hz']
      simp [hz']

end Block

end Mh.Pg
