import Mh.Pg.Init

/-!
# Runs of the page allocator

From `pginit`, as long as no call joins a block to one of another zone (`OpSafe`), the
lists of every zone hold pages of that zone only, each block in the list for its size,
and the bitmap and the counter agree with the lists; an allocation returns pages of a
pool that its flags allow.

Without the condition this fails: `___get_neighbors` asks for the zone of the page
after the first one of a block, so that a block of two pages or more at the end of a
zone is joined to a block at the beginning of the next (`pgalloc_crosses_zones`).
-/

namespace Mh.Pg

open Mh.Lib Mh.Zone

variable {db : Db} {s s' : State} {zs : PgZones} {op : Op} {a n : Nat} {r : Nat × Nat}
  {X : Set Nat}

/-- The block that a call gives to the lists, the one that is freed or the rest of the
one that is allocated from, does not end where a block of another zone begins. -/
def OpSafe (s : State) : Op → Prop
  | .alloc size _ flags => AllocSafe s.zones size flags
  | .free pfn size => MergeSafe s.zones.db pfn size

/-- A safe call that returns. -/
def SafeStep (s : State) (op : Op) (s' : State) : Prop := OpSafe s op ∧ Step s op s'

/-! ## The invariant -/

/-- A range that is handed out: pages of one zone, none of them free. -/
structure OutOk (zs : PgZones) (X : Set Nat) (r : Nat × Nat) : Prop where
  addr_pos : 0 < r.1
  size_pos : 0 < r.2
  bound : r.1 + r.2 ≤ zs.db.max
  zone : ∀ x, r.1 ≤ x → x < r.1 + r.2 → zs.db.zone x = zs.db.zone r.1
  busy : ∀ z, Disjoint (pages r.1 r.2) (freePfns zs X z)

/-- The invariant of a run: the ranges handed out are apart from the free pages and
from each other. -/
structure SInv (s : State) : Prop where
  pinv : PInv s.zones ∅
  out : ∀ r ∈ s.out, OutOk s.zones ∅ r
  apart : s.out.Pairwise fun r r' ↦ Disjoint (pages r.1 r.2) (pages r'.1 r'.2)

theorem sinv_init (h : PInv zs ∅) : SInv ⟨zs, []⟩ where
  pinv := h
  out _ hr := absurd hr List.not_mem_nil
  apart := .nil

/-- A range that is handed out may be freed, when no tag next to it is out of date. -/
theorem OutOk.block (h : PInv zs X) (ho : OutOk zs X (a, n)) (hsafe : MergeSafe zs.db a n)
    (hstale : a - 1 ∈ X → prev zs.db a = none) (hahead : a + n ∈ X → next zs.db a n = none) :
    Block zs X a n where
  addr_pos := ho.addr_pos
  size_pos := ho.size_pos
  bound := ho.bound
  zone := ho.zone
  clear p hp := by
    have hs := h.size_pos hp
    have hn : 0 < n := ho.size_pos
    by_contra hc
    -- the larger of the two first pages is in both
    have hx : max a p ∈ pages a n := ⟨le_max_left _ _, by omega⟩
    have hx' : max a p ∈ freePfns zs X (zs.db.zone p) :=
      mem_freePfns.2 ⟨p, hp, rfl, le_max_right _ _, by omega⟩
    exact Set.disjoint_left.1 (ho.busy _) hx hx'
  stale := hstale
  ahead := hahead
  safe := hsafe

/-- A range stays handed out when the pages that become free are others. -/
theorem OutOk.mono {zs' : PgZones} {X' : Set Nat} (ho : OutOk zs X r)
    (hmax : zs'.db.max = zs.db.max)
    (hfree : ∀ z, Disjoint (pages r.1 r.2) (freePfns zs' X' z)) : OutOk zs' X' r where
  addr_pos := ho.addr_pos
  size_pos := ho.size_pos
  bound := hmax.symm ▸ ho.bound
  zone := by
    rw [zone_congr hmax]
    exact ho.zone
  busy := hfree

/-- `pgfree` of a range that is handed out. -/
theorem SInv.pgfree (h : SInv s) (hm : (a, n) ∈ s.out) (hsafe : MergeSafe s.zones.db a n) :
    ∃ t, Pg.pgfree s.zones a n = .ok t ∧ SInv ⟨t, s.out.erase (a, n)⟩ := by
  have ho := h.out _ hm
  have hblk := ho.block h.pinv hsafe (fun hx ↦ absurd hx (Set.notMem_empty _))
    fun hx ↦ absurd hx (Set.notMem_empty _)
  obtain ⟨t, ht, hinv, hdb, hfree⟩ := hblk.create h.pinv
  rw [Set.empty_sdiff] at hinv hfree
  have hmax : t.db.max = s.zones.db.max := by rw [hdb, Block.db'_max]
  -- the range that is freed is apart from the ones that stay
  have hperm := List.perm_cons_erase hm
  obtain ⟨hap, hrest⟩ := List.pairwise_cons.1
    ((hperm.pairwise_iff fun hd ↦ Disjoint.symm hd).1 h.apart)
  refine ⟨t, ?_, hinv, fun r hr ↦ ?_, hrest⟩
  · rw [Pg.pgfree, if_neg (by rintro (h₀ | h₀); exacts [ho.addr_pos.ne' h₀, ho.size_pos.ne' h₀]),
      Zone.free, if_neg hblk.size_pos.ne']
    exact ht
  · have hor := h.out r (List.mem_of_mem_erase hr)
    refine hor.mono hmax fun z ↦ ?_
    rw [hfree, Set.disjoint_union_right]
    exact ⟨hor.busy z, (hap r hr).symm.mono_right fun x hx ↦ hx.2⟩

/-- `pgalloc` that returns: the pages are of a zone that the flags allow, they were
free, and they are handed out. -/
theorem SInv.pgalloc (h : SInv s) {ty : PfnType} {flags : Nat} {t : PgZones}
    (hs : ty.isPgzstart = false) (ht : ty.isPgzterm = false)
    (hsafe : AllocSafe s.zones n flags) (hex : Pg.pgalloc s.zones n ty flags = .ok (a, t)) :
    SInv ⟨t, (a, n) :: s.out⟩ ∧ ∀ x ∈ pages a n,
      ∃ bit, (bit, s.zones.db.zone x) ∈ gfpZones ∧ gfpFlags flags &&& bit ≠ 0 := by
  rcases h.pinv.pgalloc hs ht hsafe with
    ⟨a', t', hok, hinv, hmax, hn, ⟨bit, hbit, hfl⟩, hsub, hfree⟩ | ⟨e, he⟩
  · obtain ⟨rfl, rfl⟩ := Prod.mk.inj (Except.ok.inj (hok.symm.trans hex))
    have hzone : ∀ x ∈ pages a' n, s.zones.db.zone x = s.zones.db.zone a' := by
      intro x hx
      obtain ⟨p, hp, hz, hpx, hpx'⟩ := mem_freePfns.1 (hsub hx)
      rw [(h.pinv.entry p hp).zone x hpx hpx', hz]
    refine ⟨⟨hinv, ?_, ?_⟩, fun x hx ↦ ⟨bit, ?_, hfl⟩⟩
    · intro r hr
      rcases List.mem_cons.1 hr with rfl | hr
      · have hfirst := mem_freePfns.1 (hsub ⟨le_rfl, Nat.lt_add_of_pos_right hn⟩)
        have hlast := mem_freePfns.1 (hsub (show a' + n - 1 ∈ pages a' n from ⟨by omega, by omega⟩))
        obtain ⟨p, hp, _, hpa, _⟩ := hfirst
        obtain ⟨q, hq, _, _, hqn⟩ := hlast
        have hpos := (h.pinv.entry p hp).pos
        have hbd := (h.pinv.entry q hq).bound
        refine ⟨hpos.trans_le hpa, hn, ?_, ?_, fun z ↦ ?_⟩
        · show a' + n ≤ t'.db.max
          omega
        · rw [zone_congr hmax]
          exact fun x hx hx' ↦ hzone x ⟨hx, hx'⟩
        · rw [hfree]
          exact Set.disjoint_sdiff_right
      · have hor := h.out r hr
        refine hor.mono hmax fun z ↦ ?_
        rw [hfree]
        exact (hor.busy z).mono_right Set.sdiff_subset
    · refine List.pairwise_cons.2 ⟨fun r hr ↦ ?_, h.apart⟩
      exact ((h.out r hr).busy _).symm.mono_left hsub
    · rw [hzone x hx]
      exact hbit
  · rw [he] at hex
    cases hex

/-- A safe call that returns keeps the invariant. -/
theorem SInv.step (h : SInv s) (hsafe : OpSafe s op) (hst : Step s op s') : SInv s' := by
  obtain ⟨ha, hex⟩ := hst
  cases op with
  | alloc size type flags =>
      rw [exec] at hex
      cases hp : Pg.pgalloc s.zones size type flags with
      | error e =>
          rw [hp] at hex
          cases hex
      | ok r =>
          rw [hp] at hex
          rw [← Except.ok.inj hex]
          exact (h.pgalloc ha.2.1 ha.2.2 hsafe hp).1
  | free pfn size =>
      obtain ⟨t, ht, hinv⟩ := h.pgfree ha hsafe
      rw [exec, ht] at hex
      rw [← Except.ok.inj hex]
      exact hinv

theorem SInv.run (h : SInv s) {ops : List Op} (hr : Run SafeStep s ops s') : SInv s' :=
  hr.invariant (I := SInv) (fun _ _ _ hs hst ↦ hs.step hst.1 hst.2) h

/-! ## What holds at every point -/

/-- The lists of every zone hold pages of the zone, each block in the list for its
size, and the bitmap and the counter agree with the lists. -/
structure PgOk (zs : PgZones) : Prop where
  zone : ∀ z k, ∀ e ∈ zs.zlist (z, k), ∀ x, (zs.db.pfn e).addr ≤ x →
    x < (zs.db.pfn e).addr + (zs.db.pfn e).size → zs.db.zone x = z
  list : ∀ z k e, (∃ k', e ∈ zs.zlist (z, k')) →
    (e ∈ zs.zlist (z, k) ↔ 2 ^ k ≤ (zs.db.pfn e).size ∧ (zs.db.pfn e).size < 2 ^ (k + 1))
  bmap : ∀ z, ∀ k < ordmax, (zs.bmap z).getLsbD k = true ↔ zs.zlist (z, k) ≠ []
  nfree : ∀ z, zs.nfree z =
    ∑ k ∈ Finset.range ordmax, ((zs.zlist (z, k)).map fun e ↦ (zs.db.pfn e).size).sum

/-- The free pages of a zone are fewer than `2 ^ 32`. -/
theorem PInv.total_lt (h : PInv zs ∅) (z : PfnZone) : total zs.zlist zs.db.range z < 2 ^ 32 := by
  classical
  have htot := h.zinv.total_eq (z := z)
    (F := (Finset.range zs.db.max).filter fun e ↦ e ∈ starts zs ∅ ∧ zs.db.zone e = z) fun e ↦ by
      rw [Finset.mem_filter, Finset.mem_range]
      exact ⟨fun he ↦ he.2, fun he ↦ ⟨he.1.1, he⟩⟩
  simp only [range_len] at htot
  rw [htot]
  refine lt_of_le_of_lt (sum_lengths_le id (fun x hx y hy hne ↦ ?_) fun x hx ↦ ?_) h.max_lt
  · exact h.apart (Finset.mem_filter.1 hx).2.1 (Finset.mem_filter.1 hy).2.1 hne
  · exact (h.entry x (Finset.mem_filter.1 hx).2.1).bound

theorem PInv.pgOk (h : PInv zs ∅) : PgOk zs where
  zone z k e he x hx hx' := by
    have hm := h.zinv.filed.mem he
    have hz := (Prod.mk.inj (h.zinv.cls he).2.2).1
    rw [(h.entry e hm).addr] at hx hx'
    rw [(h.entry e hm).zone x hx hx']
    exact hz.symm
  list z k e he := by
    obtain ⟨k', he⟩ := he
    obtain ⟨hpos, _, hb⟩ := h.zinv.cls he
    obtain ⟨rfl, rfl⟩ := Prod.mk.inj hb
    rw [range_len] at hpos he
    constructor
    · intro hk
      obtain rfl := (Prod.mk.inj (h.zinv.filed.inj hk he)).2
      exact ⟨msbit_le hpos, lt_msbit _⟩
    · rintro ⟨hle, hlt⟩
      obtain rfl : k = msbit (zs.db.pfn e).size :=
        ((Nat.log2_eq_iff hpos.ne').2 ⟨hle, hlt⟩).symm
      exact he
  bmap := h.zinv.bmap
  nfree z := by
    rw [h.zinv.nfree z, w32, Nat.mod_eq_of_lt (h.total_lt z), total]
    simp only [range_len]

/-- What a safe call does: a block that is freed is taken back, and the pages that are
handed out belong to a pool of the flags. -/
structure CallOk (s : State) (op : Op) : Prop where
  free : ∀ pfn size, op = .free pfn size → ∃ t, pgfree s.zones pfn size = .ok t
  alloc : ∀ size type flags a t, op = .alloc size type flags →
    Pg.pgalloc s.zones size type flags = .ok (a, t) → ∀ x ∈ pages a size,
      ∃ bit, (bit, s.zones.db.zone x) ∈ gfpZones ∧ gfpFlags flags &&& bit ≠ 0
  kern : ∀ size type flags a t, op = .alloc size type flags → flags = 0 ∨ flags = gfpKern →
    Pg.pgalloc s.zones size type flags = .ok (a, t) → ∀ x ∈ pages a size,
      s.zones.db.zone x = .kern32 ∨ s.zones.db.zone x = .kern

/-- The zones that `GFP_KERN` allows. -/
theorem zone_of_gfpKern {flags bit : Nat} {z : PfnZone} (hf : flags = 0 ∨ flags = gfpKern)
    (hm : (bit, z) ∈ gfpZones) (hbit : gfpFlags flags &&& bit ≠ 0) : z = .kern32 ∨ z = .kern := by
  have hk : gfpFlags flags = gfpKern := by
    rcases hf with rfl | rfl
    · rfl
    · rfl
  rw [hk] at hbit
  simp only [gfpZones, List.mem_cons, List.not_mem_nil, or_false, Prod.mk.injEq] at hm
  rcases hm with ⟨rfl, rfl⟩ | ⟨rfl, rfl⟩ | ⟨rfl, rfl⟩ | ⟨rfl, rfl⟩
  · exact absurd rfl hbit
  · exact absurd rfl hbit
  · exact .inr rfl
  · exact .inl rfl

theorem SInv.callOk (h : SInv s) (ha : Allowed s op) (hsafe : OpSafe s op) : CallOk s op where
  free pfn size hop := by
    subst hop
    obtain ⟨t, ht, _⟩ := h.pgfree ha hsafe
    exact ⟨t, ht⟩
  alloc size type flags a t hop hex := by
    subst hop
    exact (h.pgalloc ha.2.1 ha.2.2 hsafe hex).2
  kern size type flags a t hop hf hex x hx := by
    subst hop
    obtain ⟨bit, hm, hbit⟩ := (h.pgalloc ha.2.1 ha.2.2 hsafe hex).2 x hx
    exact zone_of_gfpKern hf hm hbit

/-- From `pginit`, in every run of safe calls: the zones stay separate, their lists,
bitmaps and counters agree, and what is handed out belongs to the pools asked for. -/
theorem pgzones_ok (hb : Boot db) : ∃ zs, pginit db = .ok zs ∧
    ∀ ops s, Run SafeStep ⟨zs, []⟩ ops s →
      PgOk s.zones ∧ ∀ op, Allowed s op → OpSafe s op → CallOk s op := by
  obtain ⟨zs, hzs, hinv, _⟩ := pginit_ok hb
  refine ⟨zs, hzs, fun ops s hr ↦ ?_⟩
  have h := (sinv_init hinv).run hr
  exact ⟨h.pinv.pgOk, fun op ha hsafe ↦ h.callOk ha hsafe⟩

/-- Pages 1, 2 and 3 are free. -/
def threePages : Db := ⟨fun p ↦ ⟨if p = 0 then .system else .free, 0, 0⟩, 4⟩

/-- Of three pages in one zone one is taken. -/
theorem pgzones_ok_three : ∃ zs s, pginit threePages = .ok zs ∧
    Run SafeStep ⟨zs, []⟩ [.alloc 1 .user 0] s ∧
    s.out = [(1, 1)] ∧ PgOk s.zones := by
  have hb : Boot threePages := by
    refine ⟨by decide, fun p _ ↦ ?_, fun p _ ↦ ?_, by decide⟩
    · show (if p = 0 then PfnType.system else .free).isPgzstart = false
      split <;> rfl
    · show (if p = 0 then PfnType.system else .free).isPgzterm = false
      split <;> rfl
  obtain ⟨zs, hzs, hok⟩ := pgzones_ok hb
  obtain ⟨zs', hzs', hinv, hmax, _⟩ := pginit_ok hb
  obtain rfl := Except.ok.inj (hzs.symm.trans hzs')
  have hret : ((pginit threePages).bind fun zs ↦
      (pgalloc zs 1 .user 0).map Prod.fst).toOption = some 1 := by decide +kernel
  have hsafe : AllocSafe zs 1 0 := by
    intro z e hc hlt h₂ hst
    obtain ⟨_, _, _, hf⟩ := chosenIn_eq_some hc
    have hok := hinv.entry e (hinv.zinv.findfree hf).1
    have hend : e + 1 + ((zs.db.pfn e).size - 1) = e + (zs.db.pfn e).size := by omega
    have hpos := hok.pos
    have hbd := hok.bound
    have hm : zs.db.max = 4 := hmax
    rw [hend] at hst ⊢
    -- the block ends at the end of the database, where no block begins
    have hlast : e + (zs.db.pfn e).size = zs.db.max := by omega
    rw [hlast, hinv.top] at hst
    cases hst
  cases hex : pgalloc zs 1 .user 0 with
  | error err =>
      rw [hzs] at hret
      simp only [Except.bind, hex] at hret
      cases hret
  | ok r =>
      rw [hzs] at hret
      simp only [Except.bind, hex, Except.map, Except.toOption, Option.some.injEq] at hret
      have hstep : SafeStep ⟨zs, []⟩ (.alloc 1 .user 0) ⟨r.2, [(r.1, 1)]⟩ := by
        refine ⟨hsafe, ⟨by decide, rfl, rfl⟩, ?_⟩
        rw [exec, hex]
        rfl
      have hrun := Run.cons hstep (.nil _)
      exact ⟨zs, _, hzs, hrun, by rw [hret], (hok _ _ hrun).1⟩

/-! ## Across a zone border -/

/-- The last three pages of the kernel's pool and the first of the other one are
free. -/
def border : Db := ⟨fun p ↦ ⟨if 381 ≤ p ∧ p ≤ 384 then .free else .system, 0, 0⟩, 386⟩

/-- Allocations for `GFP_KERN`: of one page, and then of two pages and of one. -/
def kernAllocs : Except Panic (PgZones × State × State) := do
  let zs ← pginit border
  let s ← exec ⟨zs, []⟩ (.alloc 1 .user 3)
  let s' ← [Op.alloc 2 .user 3, .alloc 1 .user 3].foldlM exec s
  return (zs, s, s')

/-- The first allocation puts a block over the border on a list of `kern32`, and the
last one gets the page beyond it. -/
def crosses (s s' : State) : Bool :=
  382 ∈ s.zones.zlist (.kern32, 1) ∧ (s.zones.db.pfn 382).addr = 382 ∧
    (s.zones.db.pfn 382).size = 3 ∧ s.zones.db.zone 384 = .high32 ∧
    s'.out.head? = some (384, 1) ∧ s'.zones.db.zone 384 = .high32

theorem kernAllocs_crosses : (kernAllocs.map fun r ↦ crosses r.2.1 r.2.2) = .ok true := by
  decide +kernel

theorem boot_border : Boot border := by
  refine ⟨by decide, fun p _ ↦ ?_, fun p _ ↦ ?_, by decide⟩
  · show (if 381 ≤ p ∧ p ≤ 384 then PfnType.free else .system).isPgzstart = false
    split <;> rfl
  · show (if 381 ≤ p ∧ p ≤ 384 then PfnType.free else .system).isPgzterm = false
    split <;> rfl

/-- From a page database that `pginit` accepts: an allocation from the pages that the
kernel maps joins what it leaves to a page of the other pool, and that page is then
handed out for `GFP_KERN`. -/
theorem pgalloc_crosses_zones : ∃ zs s s', Boot border ∧ pginit border = .ok zs ∧
    Run Step ⟨zs, []⟩ [.alloc 1 .user gfpKern] s ∧ ¬ PgOk s.zones ∧
    Run Step s [.alloc 2 .user gfpKern, .alloc 1 .user gfpKern] s' ∧
    s'.out.head? = some (384, 1) ∧ s'.zones.db.zone 384 = .high32 := by
  have hc := kernAllocs_crosses
  cases hk : kernAllocs with
  | error e =>
      rw [hk] at hc
      cases hc
  | ok r =>
      rw [hk] at hc
      rw [kernAllocs, bind_eq_ok] at hk
      obtain ⟨zs, hzs, hk⟩ := hk
      obtain ⟨s, hs, hk⟩ := bind_eq_ok.1 hk
      obtain ⟨s', hs', hk⟩ := bind_eq_ok.1 hk
      obtain rfl := Except.ok.inj hk
      obtain ⟨hm, ha, hn, hz, hout, hz'⟩ := of_decide_eq_true (Except.ok.inj hc)
      rw [List.foldlM_cons, bind_eq_ok] at hs'
      obtain ⟨s₂, hs₂, hs'⟩ := hs'
      rw [List.foldlM_cons, bind_eq_ok] at hs'
      obtain ⟨s₃, hs₃, hs'⟩ := hs'
      obtain rfl := Except.ok.inj hs'
      have hal : ∀ s n, n < 2 ^ 32 → Allowed s (.alloc n .user 3) := fun _ _ h ↦ ⟨h, rfl, rfl⟩
      refine ⟨zs, s, s₃, boot_border, hzs, .cons ⟨hal _ _ (by decide), hs⟩ (.nil s), fun hok ↦ ?_,
        .cons ⟨hal _ _ (by decide), hs₂⟩ (.cons ⟨hal _ _ (by decide), hs₃⟩ (.nil s₃)), hout, hz'⟩
      have hzone := hok.zone _ _ _ hm 384 (by rw [ha]; decide) (by rw [ha, hn]; decide)
      rw [hz] at hzone
      cases hzone

end Mh.Pg
