import Mh.Pg.Calls
import Mh.Pg.Scan

/-!
# Building the zones

`pginit` scans the page database and frees every run of free pages of one zone into
that zone.  `ScanInv i sc` is the invariant of its loop before page `i`: the zones
hold the free pages that come before the run being scanned, the run is of free pages
of one zone, and the database has not been written from the run on.

The scan never joins blocks across zones: when a block is closed, the page that
follows it has not been tagged yet.

Nor does it join blocks with pages that had a tag of the allocator before it ran
(`tagged`), as long as `___get_neighbors` takes none of them for a neighbour of a free
run (`Scannable`).
-/

namespace Mh.Pg

open Mh.Lib Mh.Zone

variable {db : Db} {sc : Scan} {i : Nat}

/-- The free pages of a zone before page `n`, as the database has them at first. -/
def freeBefore (db : Db) (n : Nat) (z : PfnZone) : Set Nat :=
  {p | p < n ∧ db.type p = .free ∧ db.zone p = z}

/-- The pages that have a tag of the allocator already. -/
def tagged (db : Db) : Set Nat :=
  {p | p < db.max ∧ ((db.type p).isPgzstart = true ∨ (db.type p).isPgzterm = true)}

/-- A page database in which no tag is taken for one of a neighbour: none that ends a block is
followed by a free page of its zone, and none that begins one follows a run of free pages of its
zone, or of another zone if the run has two pages or more. -/
structure Scannable (db : Db) : Prop where
  max_lt : db.max < 2 ^ 32
  zero : db.type 0 ≠ .free
  top : (db.type db.max).isPgzstart = false
  before : ∀ p, p + 1 < db.max → db.type (p + 1) = .free → db.zone (p + 1) = db.zone p →
    (db.type p).isPgzterm = false
  after : ∀ p, p + 2 < db.max → db.type (p + 1) = .free → (db.type (p + 2)).isPgzstart = true →
    db.zone (p + 2) ≠ db.zone (p + 1) ∧ ¬(db.type p = .free ∧ db.zone p = db.zone (p + 1))

/-- Where nothing is tagged nothing is taken for a neighbour. -/
theorem Boot.scannable (hb : Boot db) : Scannable db where
  max_lt := hb.max_lt
  zero := hb.zero
  top := hb.start db.max le_rfl
  before p hp _ _ := hb.term p (by omega)
  after p hp _ hs := by
    rw [hb.start (p + 2) hp.le] at hs
    cases hs

theorem Boot.tagged_eq (hb : Boot db) : tagged db = ∅ := by
  ext p
  refine iff_of_false ?_ (Set.notMem_empty p)
  rintro ⟨hp, hs | ht⟩
  · rw [hb.start p hp.le] at hs
    cases hs
  · rw [hb.term p hp.le] at ht
    cases ht

/-! ## The tags of a block -/

/-- The type that `___mkptr` gives to page `x` of a block of `n` pages from `p`. -/
def blockType (p n x : Nat) : PfnType :=
  if n = 1 then .freePzLone
  else if x = p then .freePzStrt
  else if x = p + n - 1 then .freePzTerm
  else .free

/-- Every page of every block has its tag. -/
def TagsOk (s : PgZones) (X : Set Nat) : Prop :=
  ∀ p ∈ starts s X, ∀ x, p ≤ x → x < p + (s.db.pfn p).size →
    s.db.type x = blockType p (s.db.pfn p).size x

/-- `zone_create` of a block that is safe to join keeps the tags. -/
theorem Block.create_tags {s t : PgZones} {X : Set Nat} {a n : Nat} (hb : Block s X a n)
    (h : PInv s X) (hdb : t.db = db' s a n) (htags : TagsOk s X) : TagsOk t (X \ pages a n) := by
  have hsp := hb.span h
  have hlt := hsp.joined_lo_lt_hi h.binv
  rw [TagsOk, hsp.starts_eq h.binv hdb, hdb]
  rintro p (rfl | hp) x hx hx'
  · rw [(hsp.db'_entry h.binv (.inl rfl)).2] at hx' ⊢
    exact mkptr_type hx hx'
  · rw [(hsp.db'_others h.binv hp).1] at hx' ⊢
    have hc := hsp.clear_of_joined h.binv hp
    rw [Db.type, hsp.db'_outside h.binv (by omega)]
    exact htags p hp.1 x hx hx'

/-! ## The scan -/

/-- The invariant of the scan. -/
structure ScanInv (db : Db) (i : Nat) (sc : Scan) : Prop where
  inv : PInv sc.zones (tagged db)
  tags : TagsOk sc.zones (tagged db)
  max : sc.zones.db.max = db.max
  same : ∀ p, sc.frontier i ≤ p → sc.zones.db.pfn p = db.pfn p
  kept : ∀ p ∈ tagged db, sc.zones.db.pfn p = db.pfn p
  run : sc.status = true → 0 < sc.start ∧ sc.start < i ∧
    ∀ p, sc.start ≤ p → p < i → db.type p = .free ∧ db.zone p = db.zone sc.start
  free : ∀ z, freePfns sc.zones (tagged db) z = freeBefore db (sc.frontier i) z

theorem starts_init (db : Db) : starts (Zone.init db) (tagged db) = ∅ := by
  ext p
  refine iff_of_false ?_ (Set.notMem_empty p)
  rintro ⟨hp, hX, hs⟩
  exact hX ⟨hp, .inl hs⟩

theorem pinv_init (hb : Scannable db) : PInv (Zone.init db) (tagged db) := by
  have hst := starts_init db
  refine ⟨hb.max_lt, ?_, ?_, ?_, ?_, ?_, hb.top⟩
  · rw [hst]
    exact ZInv.init db
  · rw [ranges, hst, Set.image_empty]
    exact Range.tidy_empty
  · rw [hst]
    exact fun p hp ↦ absurd hp (Set.notMem_empty p)
  · exact fun x hx hX ht ↦ absurd ⟨hx, .inr ht⟩ hX
  · rw [hst]
    exact fun p hp ↦ absurd hp (Set.notMem_empty p)

theorem scanInv_init (hb : Scannable db) : ScanInv db 0 ⟨false, 0, Zone.init db⟩ where
  inv := pinv_init hb
  tags := by
    rw [TagsOk, starts_init]
    exact fun p hp ↦ absurd hp (Set.notMem_empty p)
  max := rfl
  same _ _ := rfl
  kept _ _ := rfl
  run h := absurd h Bool.false_ne_true
  free z := by
    ext x
    constructor
    · intro hx
      obtain ⟨p, hp, _⟩ := mem_freePfns.1 hx
      rw [starts_init] at hp
      exact absurd hp (Set.notMem_empty p)
    · rintro ⟨hx, _⟩
      exact absurd hx (Nat.not_lt_zero x)

namespace ScanInv

theorem zone_eq (h : ScanInv db i sc) : sc.zones.db.zone = db.zone := by
  funext p
  rw [Db.zone, Db.zone, h.max]

theorem frontier_of_status (h : sc.status = true) : sc.frontier i = sc.start := if_pos h

/-- The page after the run being scanned is not the first of a block, unless `___get_neighbors`
does not look at it. -/
theorem not_start (h : ScanInv db i sc) (hb : Scannable db) (hst : sc.status = true)
    (hi : i ≤ db.max) (hs : (db.type i).isPgzstart = true) :
    db.zone i ≠ db.zone sc.start ∧ i = sc.start + 1 := by
  obtain ⟨hpos, hlt, hrun⟩ := h.run hst
  have hmax : i ≠ db.max := by
    rintro rfl
    rw [hb.top] at hs
    cases hs
  obtain ⟨p, rfl⟩ := Nat.exists_eq_add_of_le (show 2 ≤ i by omega)
  rw [Nat.add_comm] at *
  have hlast := hrun (p + 1) (by omega) (by omega)
  obtain ⟨hne, hprev⟩ := hb.after p (by omega) hlast.1 hs
  rw [hlast.2] at hne hprev
  refine ⟨hne, ?_⟩
  by_contra hlong
  exact hprev (hrun p (by omega) (by omega))

/-- The run being scanned may be freed. -/
theorem block (h : ScanInv db i sc) (hb : Scannable db) (hst : sc.status = true)
    (hi : i ≤ db.max) : Block sc.zones (tagged db) sc.start (i - sc.start) := by
  obtain ⟨hpos, hlt, hrun⟩ := h.run hst
  have hend : sc.start + (i - sc.start) = i := by omega
  have hf : sc.frontier i = sc.start := frontier_of_status hst
  have htype : sc.zones.db.type i = db.type i := by
    rw [Db.type, Db.type, h.same i (by omega)]
  refine ⟨hpos, by omega, ?_, ?_, ?_, ?_, ?_, ?_⟩
  · rw [hend, h.max]
    exact hi
  · rw [hend, h.zone_eq]
    exact fun x hx hx' ↦ (hrun x hx hx').2
  · -- a block is made of pages before the run
    intro p hp
    left
    have hs := h.inv.size_pos hp
    have hm : p + (sc.zones.db.pfn p).size - 1 ∈
        freePfns sc.zones (tagged db) (sc.zones.db.zone p) :=
      mem_freePfns.2 ⟨p, hp, rfl, by omega, by omega⟩
    rw [h.free, hf] at hm
    have hlt := hm.1
    omega
  · -- the page before the run kept its type
    intro hX
    obtain ⟨p, hp⟩ : ∃ p, sc.start = p + 1 := Nat.exists_eq_add_one.2 hpos
    have hfree := (hrun sc.start le_rfl hlt).1
    rw [hp] at hX hfree
    rw [hp, prev, h.zone_eq]
    split
    · rfl
    · rename_i hz
      rw [not_or, not_not] at hz
      have hterm := hb.before p (by omega) hfree hz.2
      rw [if_neg]
      rw [Db.type, h.kept _ hX]
      exact Bool.eq_false_iff.1 hterm
  · -- the page after the run has not been written
    intro _
    rw [next, h.zone_eq, hend, htype]
    split
    · rfl
    · rename_i hz
      rw [if_neg]
      intro hs
      obtain ⟨hne, hone⟩ := h.not_start hb hst hi hs
      rw [hone] at hne
      exact hz fun he ↦ hne he.symm
  · intro htwo hs
    rw [hend, htype] at hs
    have hone := (h.not_start hb hst hi hs).2
    omega

/-- Closing the run. -/
theorem close (h : ScanInv db i sc) (hb : Scannable db) (hst : sc.status = true)
    (hi : i ≤ db.max) :
    ∃ t, sc.close i = .ok t ∧ PInv t (tagged db) ∧ TagsOk t (tagged db) ∧ t.db.max = db.max ∧
      (∀ p, i ≤ p → t.db.pfn p = db.pfn p) ∧ (∀ p ∈ tagged db, t.db.pfn p = db.pfn p) ∧
      ∀ z, freePfns t (tagged db) z = freeBefore db i z := by
  obtain ⟨hpos, hlt, hrun⟩ := h.run hst
  have hend : sc.start + (i - sc.start) = i := by omega
  have hf : sc.frontier i = sc.start := frontier_of_status hst
  have hblk := h.block hb hst hi
  obtain ⟨t, ht, hinv, hdb, hfree⟩ := hblk.create h.inv
  have htags := hblk.create_tags h.inv hdb h.tags
  -- A free page has no tag of the allocator.
  have hout : ∀ p ∈ tagged db, p ∉ pages sc.start (i - sc.start) := by
    rintro p ⟨_, htag⟩ ⟨hp, hp'⟩
    rw [(hrun p hp (hend ▸ hp')).1] at htag
    exact htag.elim Bool.false_ne_true Bool.false_ne_true
  have hX : tagged db \ pages sc.start (i - sc.start) = tagged db :=
    sdiff_eq_left.2 (Set.disjoint_left.2 hout)
  rw [hX] at hinv hfree htags
  have hnext : next sc.zones.db sc.start (i - sc.start) = none := by
    rw [next, h.zone_eq, hend]
    split
    · rfl
    · rename_i hz
      rw [if_neg]
      rw [Db.type, h.same i (by omega)]
      intro hs
      obtain ⟨hne, hone⟩ := h.not_start hb hst hi hs
      rw [hone] at hne
      exact hz fun he ↦ hne he.symm
  have hhi : (joined sc.zones.db sc.start (i - sc.start)).hi = i := by
    rw [joined, hnext]
    exact hend
  refine ⟨t, ?_, hinv, htags, ?_, ?_, ?_, ?_⟩
  · rw [Scan.close, Zone.free, if_neg hblk.size_pos.ne']
    exact ht
  · rw [hdb, Block.db'_max, h.max]
  · intro p hp
    rw [hdb, (hblk.span h.inv).db'_outside h.inv.binv (.inr (by omega))]
    exact h.same p (by omega)
  · intro p hp
    rw [hdb, (hblk.span h.inv).db'_stale h.inv.binv ⟨hp, hout p hp⟩]
    exact h.kept p hp
  · intro z
    rw [hfree, h.free, hf, h.zone_eq]
    ext x
    constructor
    · rintro (⟨hx, hx'⟩ | ⟨rfl, hx⟩)
      · exact ⟨hx.trans hlt, hx'⟩
      · have hxi : x < i := hend ▸ hx.2
        exact ⟨hxi, hrun x hx.1 hxi⟩
    · rintro ⟨hx, hfr, hz⟩
      by_cases hxs : x < sc.start
      · exact .inl ⟨hxs, hfr, hz⟩
      · refine .inr ⟨?_, Nat.not_lt.1 hxs, hend.symm ▸ hx⟩
        rw [← hz]
        exact (hrun x (Nat.not_lt.1 hxs) hx).2

/-- A page that is not free adds nothing. -/
theorem freeBefore_succ (hfr : db.type i ≠ .free) (z : PfnZone) :
    freeBefore db (i + 1) z = freeBefore db i z := by
  ext x
  constructor
  · rintro ⟨hx, hx'⟩
    refine ⟨lt_of_le_of_ne (Nat.le_of_lt_succ hx) ?_, hx'⟩
    rintro rfl
    exact hfr hx'.1
  · rintro ⟨hx, hx'⟩
    exact ⟨Nat.lt_succ_of_lt hx, hx'⟩

/-- Between two runs the zones account for all the pages before. -/
theorem mk_page {zs : PgZones} (hinv : PInv zs (tagged db)) (htags : TagsOk zs (tagged db))
    (hmax : zs.db.max = db.max) (hsame : ∀ p, i ≤ p → zs.db.pfn p = db.pfn p)
    (hkept : ∀ p ∈ tagged db, zs.db.pfn p = db.pfn p)
    (hfree : ∀ z, freePfns zs (tagged db) z = freeBefore db i z) :
    ScanInv db i ⟨false, i, zs⟩ :=
  ⟨hinv, htags, hmax, hsame, hkept, fun h ↦ absurd h Bool.false_ne_true, hfree⟩

/-- A run begins. -/
theorem of_run {zs : PgZones} {start : Nat} (h : ScanInv db start ⟨false, start, zs⟩)
    (hr : FreeRun db start i) : ScanInv db i ⟨true, start, zs⟩ :=
  ⟨h.inv, h.tags, h.max, h.same, h.kept, fun _ ↦ ⟨hr.pos, hr.lt, hr.page⟩, h.free⟩

/-- Closing the runs one after the other. -/
theorem scans (hb : Scannable db) :
    Scans db (fun _ ↦ True) fun n zs ↦ ScanInv db n ⟨false, n, zs⟩ where
  page _ _ := trivial
  init := scanInv_init hb
  max h := h.max
  same h := h.same
  skip h hfr := mk_page h.inv h.tags h.max (fun p hp ↦ h.same p (Nat.le_of_succ_le hp)) h.kept
    fun z ↦ (h.free z).trans (freeBefore_succ hfr z).symm
  close hr hi h := by
    obtain ⟨t, ht, hinv, htags, hmax, hsame, hkept, hfree⟩ := (h.of_run hr).close hb rfl hi.le
    exact ⟨fun _ _ ↦ trivial, t, ht, mk_page hinv htags hmax hsame hkept hfree⟩

end ScanInv

/-- `pginit` returns: the zones hold exactly the free pages, every block has its tags, and the pages
that were tagged before are left alone. -/
theorem pginit_scan (hb : Scannable db) :
    ∃ s, pginit db = .ok s ∧ PInv s (tagged db) ∧ TagsOk s (tagged db) ∧ s.db.max = db.max ∧
      ∀ z, freePfns s (tagged db) z = freeBefore db db.max z := by
  obtain ⟨-, sc, hsc, h⟩ := (ScanInv.scans hb).foldlM hb.zero
  cases hst : sc.status with
  | false =>
      have hinv := h.page_kept hst
      refine ⟨sc.zones, ?_, hinv.inv, hinv.tags, hinv.max, hinv.free⟩
      simp only [pginit, hsc, bind, Except.bind, hst]
      rfl
  | true =>
      have hrun := (h.start_kept hst).of_run (h.run hst)
      obtain ⟨t, ht, htinv, htags, hmax, _, _, hfree⟩ := hrun.close hb rfl le_rfl
      refine ⟨t, ?_, htinv, htags, hmax, hfree⟩
      simp only [pginit, hsc, bind, Except.bind, hst, if_true]
      exact ht

/-- `pginit` returns, and the zones then hold exactly the free pages. -/
theorem pginit_ok (hb : Boot db) :
    ∃ s, pginit db = .ok s ∧ PInv s ∅ ∧ s.db.max = db.max ∧
      ∀ z, freePfns s ∅ z = freeBefore db db.max z := by
  obtain ⟨s, hs, hinv, -, hmax, hfree⟩ := pginit_scan hb.scannable
  rw [hb.tagged_eq] at hinv hfree
  exact ⟨s, hs, hinv, hmax, hfree⟩

end Mh.Pg
