import Mh.Pg.Touch
import Mh.Pg.BlockCalls

/-!
# What the allocator looks at is in the database

`pfndb[pfndb_max]` is not in the database, although the assertions let it pass, and
`___get_neighbors` looks at it after a block that ends there, unless the zone changes after the
first page of the block (`AsksAt`).  All that the allocator looks at otherwise is in the database:
the records of the blocks, by `BInv`, and the pages of the block itself.

So it depends on which pages the allocator was given whether a call looks too far
(`Kept.exec_inside`).  This needs nothing of the zones, and holds of joined blocks of two zones too.
-/

namespace Mh.Pg

open Mh.Lib Mh.Zone

variable {s t : PgZones} {db : Db} {X : Set Nat} {p q e a n m : Nat} {z : PfnZone}

/-- Where the page after the last one is not asked for its type, there is no block above. -/
theorem next_eq_none (h : ¬AsksAt db a n db.max) (hend : a + n = db.max) :
    next db a n = none := by
  rw [next]
  split
  · rfl
  · rename_i hz
    exact absurd ⟨not_not.1 hz, hend⟩ h

namespace Touch

/-! ## The lists -/

theorem mem_of_mem_around {l : List Nat} (h : p ∈ around e l) : p ∈ l := by
  fun_induction around e l with
  | case1 => exact h
  | case2 => exact h
  | case3 => exact absurd h List.not_mem_nil
  | case4 b l =>
      rcases List.mem_pair.1 h with rfl | rfl
      · exact List.mem_cons_self
      · exact List.mem_cons_of_mem _ List.mem_cons_self
  | case5 a l _ =>
      rcases List.mem_cons.1 h with rfl | h
      · exact List.mem_cons_self
      · refine List.mem_cons_of_mem a ?_
        rcases List.mem_cons.1 h with rfl | h
        · exact List.mem_cons_self
        · exact List.mem_cons_of_mem e (List.mem_of_mem_head? (Option.mem_toList.1 h))
  | case6 a b l _ _ ih => exact List.mem_cons_of_mem a (ih h)

/-- What `LIST_REMOVE` writes is on a list. -/
theorem exists_of_mem_linked (h : p ∈ linked s e) : ∃ b, p ∈ s.zlist b := by
  obtain ⟨b, -, hb⟩ := List.mem_flatMap.1 h
  exact ⟨b, mem_of_mem_around hb⟩

/-- What is on the lists is below `m`. -/
def Listed (s : PgZones) (m : Nat) : Prop := ∀ b, ∀ e ∈ s.zlist b, e < m

theorem listed_of_binv (h : BInv s X) : Listed s s.db.max := fun _ _ he ↦ (h.filed.mem he).1

/-- `zone_remove` leaves the database alone and adds nothing to the lists. -/
theorem removeOpt_spec {o : Option Nat} (h : Zone.removeOpt backend s z o = .ok t) :
    t.db = s.db ∧ ∀ b, ∀ e ∈ t.zlist b, e ∈ s.zlist b := by
  cases o with
  | none =>
      cases h
      exact ⟨rfl, fun _ _ he ↦ he⟩
  | some e =>
      rw [Zone.removeOpt, Zone.remove, detachentry] at h
      split at h
      · cases h
        exact ⟨rfl, fun _ _ he ↦ List.mem_of_mem_erase he⟩
      · cases h

theorem Listed.removeOpt {o : Option Nat} (hl : Listed s m)
    (h : Zone.removeOpt backend s z o = .ok t) : Listed t m :=
  fun b e he ↦ hl b e ((removeOpt_spec h).2 b e he)

/-! ## The functions, one by one -/

theorem entry_inside (h : p < m) : Traced.Within (· < m) (entry db p) := by
  rw [entry]
  split
  · intro i hi
    rwa [List.mem_singleton.1 hi]
  · exact fun i hi ↦ absurd hi List.not_mem_nil

theorem settypes_inside (h : p + n ≤ m) : Traced.Within (· < m) (settypes db p n) := by
  refine Traced.Within.note fun i hi ↦ ?_
  have hr := List.mem_range'_1.1 (List.mem_filter.1 hi).1
  exact hr.2.trans_le h

theorem remove_inside (hl : Listed s m) (he : e < m) : Traced.Within (· < m) (remove s z e) := by
  refine Traced.Within.note_bind (fun i hi ↦ (List.mem_singleton.1 hi).symm ▸ he) ?_
  refine Traced.Within.lift.bind fun t ht ↦ ?_
  refine Traced.Within.note_bind (fun i hi ↦ ?_) Traced.Within.pure
  obtain ⟨b, hb⟩ := exists_of_mem_linked hi
  exact hl b i hb

theorem removeOpt_inside {o : Option Nat} (hl : Listed s m) (ho : ∀ e, o = some e → e < m) :
    Traced.Within (· < m) (removeOpt s z o) := by
  cases o with
  | none => exact Traced.Within.pure
  | some e => exact remove_inside hl (ho e rfl)

theorem attachentry_inside (hl : Listed s m) (he : e < m) :
    Traced.Within (· < m) (attachentry s z e) := by
  refine Traced.Within.note_bind (fun i hi ↦ (List.mem_singleton.1 hi).symm ▸ he) ?_
  refine Traced.Within.lift.bind fun t ht ↦ ?_
  refine Traced.Within.note_bind (fun i hi ↦ ?_) Traced.Within.pure
  exact hl _ i (List.mem_of_mem_head? (Option.mem_toList.1 hi))

theorem mkptr_inside (hn : 0 < n) (hb : a + n ≤ m) (hm : m < 2 ^ 32) :
    Traced.Within (· < m) (mkptr db a n) := by
  have hw : w32 (a + n + (2 ^ 32 - 1)) = a + n - 1 := by
    rw [w32]
    omega
  rw [mkptr, hw]
  refine (entry_inside (by omega)).bind fun _ _ ↦ ?_
  refine (entry_inside (by omega)).bind fun _ _ ↦ ?_
  exact (settypes_inside hb).bind fun _ _ ↦ Traced.Within.pure

/-! ## The neighbours -/

/-- The page before a block is in the database, and so is the block that ends there. -/
theorem prevNeighbor_inside (h : BInv s X) (ha : a ≤ s.db.max)
    (hst : a - 1 ∈ X → prev s.db a = none) :
    Traced.Within (· < s.db.max) (prevNeighbor s.db a) := by
  rw [prevNeighbor]
  split
  · exact Traced.Within.pure
  · rename_i hz
    refine (entry_inside (by omega)).bind fun _ _ ↦ ?_
    split
    · rename_i ht
      have hsome : prev s.db a = some (a - (s.db.pfn (a - 1)).size) := by
        rw [prev, if_neg hz, if_pos ht]
      have hp := (h.prev_mem ha hst hsome).1
      simp only [h.prev_word ha hst hsome]
      exact (entry_inside hp.1).bind fun _ _ ↦ Traced.Within.pure
    · exact Traced.Within.pure

/-- The page after a block is looked at. -/
theorem nextNeighbor_eq (hn : 0 < n) (hb : a + n ≤ db.max) (hm : db.max < 2 ^ 32) :
    nextNeighbor db a n = if db.zone a ≠ db.zone (a + 1) then pure none
      else entry db (a + n) >>= fun _ ↦
        pure (if (db.type (a + n)).isPgzstart then some (a + n) else none) := by
  have hw₁ : w32 (a + 1) = a + 1 := Nat.mod_eq_of_lt (by omega)
  have hw : w32 (a + n) = a + n := Nat.mod_eq_of_lt (by omega)
  rw [nextNeighbor, hw₁, hw]

theorem nextNeighbor_inside (hn : 0 < n) (hb : a + n ≤ db.max) (hm : db.max < 2 ^ 32)
    (hask : ¬AsksAt db a n db.max) : Traced.Within (· < db.max) (nextNeighbor db a n) := by
  rw [nextNeighbor_eq hn hb hm]
  split
  · exact Traced.Within.pure
  · rename_i hz
    have hlt : a + n < db.max := lt_of_le_of_ne hb fun hend ↦ hask ⟨not_not.1 hz, hend⟩
    exact (entry_inside hlt).bind fun _ _ ↦ Traced.Within.pure

/-- Where the entry after the last one is asked for its type, it is looked at. -/
theorem max_mem_getNeighbors (h : BInv s X) (hn : 0 < n) (hst : a - 1 ∈ X → prev s.db a = none)
    (hask : AsksAt s.db a n s.db.max) : s.db.max ∈ (getNeighbors s.db a n).log := by
  obtain ⟨hz, hend⟩ := hask
  have hp := h.prevNeighbor_eq (a := a) (by omega) hst
  rw [← res_prevNeighbor] at hp
  refine Traced.mem_log_right hp (Traced.mem_log_left ?_)
  rw [nextNeighbor_eq hn hend.le h.max_lt, if_neg (not_not.2 hz)]
  refine Traced.mem_log_left ?_
  rw [entry, if_pos hend.le]
  exact List.mem_singleton.2 hend.symm

/-! ## `zone_create` and `pgzone_alloc` -/

/-- `zone_create` looks only at the database, unless the entry after the last one is asked for its
type. -/
theorem create_inside (hb : Span s X a n) (h : BInv s X) (hask : ¬AsksAt s.db a n s.db.max)
    (z : PfnZone) : Traced.Within (· < s.db.max) (create s z a n) := by
  have hlo := hb.joined_lo_lt_hi h
  have hhi := hb.joined_hi_le h
  have hm := h.max_lt
  have hnb : Traced.Within (· < s.db.max) (getNeighbors s.db a n) := by
    refine (prevNeighbor_inside h ((Nat.le_add_right a n).trans hb.bound) hb.stale).bind ?_
    refine fun _ _ ↦ (nextNeighbor_inside hb.size_pos hb.bound hm hask).bind ?_
    exact fun _ _ ↦ Traced.Within.pure
  rw [create]
  refine hnb.bind ?_
  rintro ⟨pze, nze⟩ hN
  rw [res_getNeighbors, hb.getNeighbors_eq h] at hN
  obtain ⟨rfl, rfl⟩ := Prod.mk.inj (Except.ok.inj hN)
  have hp : ∀ e, prev s.db a = some e → e < s.db.max := fun e he ↦ (hb.prev_mem h he).1.1
  have hq : ∀ e, next s.db a n = some e → e < s.db.max := fun e he ↦ (hb.next_mem he).1.1
  dsimp only
  refine Traced.Within.note_bind (fun i hi ↦ hp i (Option.mem_toList.1 hi)) ?_
  refine (removeOpt_inside (listed_of_binv h) hp).bind fun t ht ↦ ?_
  rw [res_removeOpt] at ht
  have hl := (listed_of_binv h).removeOpt ht
  refine Traced.Within.note_bind (fun i hi ↦ hq i (Option.mem_toList.1 hi)) ?_
  refine (removeOpt_inside hl hq).bind fun u hu ↦ ?_
  rw [res_removeOpt] at hu
  have hl' := hl.removeOpt hu
  rw [(removeOpt_spec ht).1, hb.fprev_eq h, hb.lnext_eq h, hb.len_eq h]
  refine (mkptr_inside (by omega) (by omega) hm).bind ?_
  rintro ⟨e, db⟩ hmk
  rw [res_mkptr, (removeOpt_spec hu).1, (removeOpt_spec ht).1, hb.mkptr_joined h] at hmk
  obtain ⟨rfl, rfl⟩ := Prod.mk.inj (Except.ok.inj hmk)
  exact attachentry_inside hl' (by omega)

/-- `zone_create` looks at the entry after the last one if that is asked for its type. -/
theorem max_mem_create (h : BInv s X) (hn : 0 < n) (hst : a - 1 ∈ X → prev s.db a = none)
    (hask : AsksAt s.db a n s.db.max) (z : PfnZone) : s.db.max ∈ (create s z a n).log :=
  Traced.mem_log_left (max_mem_getNeighbors h hn hst hask)

/-- `pgzone_alloc` once an entry is found. -/
theorem allocFrom_inside (h : BInv s ∅) (he : e ∈ starts s ∅) (hn : 0 < n)
    (hle : n ≤ (s.db.pfn e).size)
    (hask : n < (s.db.pfn e).size → ¬AsksAt s.db (e + n) ((s.db.pfn e).size - n) s.db.max)
    (z : PfnZone) : Traced.Within (· < s.db.max) (allocFrom s z e n) := by
  have hok := h.entry e he
  have hbd := hok.bound
  have hmax := h.max_lt
  have haddr : backend.addr s.db e = e := hok.addr
  have hdiff := h.diff_eq he hle
  rw [allocFrom, hdiff, haddr]
  refine Traced.Within.note_bind (fun i hi ↦ (List.mem_singleton.1 hi).symm ▸ he.1) ?_
  dsimp only
  split
  · exact Traced.Within.lift
  · refine (remove_inside (listed_of_binv h) he.1).bind fun t ht ↦ ?_
    obtain ⟨t', ht', hinv, hdb, hst⟩ := h.remove he z
    obtain rfl : t' = t := Except.ok.inj (ht'.symm.trans ((res_remove s z e).symm.trans ht))
    split
    · rename_i hpos
      have hlt : n < (s.db.pfn e).size := Nat.lt_of_sub_pos hpos
      have hend : e + n + ((s.db.pfn e).size - n) = e + (s.db.pfn e).size := by omega
      have hw : w32 (e + n) = e + n := Nat.mod_eq_of_lt (by omega)
      have hsp := h.span_of_remove he hdb hst hn hlt fun hX ↦
        next_eq_none (hask hlt) (hend.trans (hX.resolve_left (Set.notMem_empty _)))
      have hin := create_inside hsp hinv (hdb.symm ▸ hask hlt) z
      rw [hdb] at hin
      rw [hw]
      exact hin.bind fun _ _ ↦ Traced.Within.pure
    · exact Traced.Within.pure.bind fun _ _ ↦ Traced.Within.pure

/-! ## `pgalloc` -/

/-- No rest of a block from which `n` pages are allocated has the entry after the last one asked for
its type. -/
def RestsInside (s : PgZones) (n : Nat) : Prop :=
  ∀ e ∈ starts s ∅, n < (s.db.pfn e).size →
    ¬AsksAt s.db (e + n) ((s.db.pfn e).size - n) s.db.max

/-- One iteration of the loop over the zones. -/
theorem tryZone_inside (h : BInv s ∅) (hn : 0 < n) (hask : RestsInside s n) {flags : Nat}
    {r : Nat × PgZones} (hr : r.1 = 0 → r.2 = s) (z : Nat × PfnZone) :
    Traced.Within (· < s.db.max) (tryZone n flags r z) ∧
      ∀ r', (tryZone n flags r z).res = .ok r' → r'.1 = 0 → r'.2 = s := by
  rw [res_tryZone, tryZone, Pg.tryZone]
  split
  · rename_i hz
    rw [hr hz.1, alloc, Zone.alloc, if_neg hn.ne', if_neg hn.ne']
    cases hf : findfree s z.2 n with
    | none =>
        refine ⟨Traced.Within.pure, fun r' hr' _ ↦ ?_⟩
        rw [← Except.ok.inj hr']
    | some e =>
        obtain ⟨he, hle⟩ := h.findfree hf
        refine ⟨allocFrom_inside h he hn hle (hask e he) z.2, fun r' hr' h0 ↦ ?_⟩
        -- the address is that of the block
        have haddr : r'.1 = e := (allocFrom_addr hr').trans (h.entry e he).addr
        exact absurd (haddr.symm.trans h0) (h.entry e he).pos.ne'
  · refine ⟨Traced.Within.pure, fun r' hr' ↦ ?_⟩
    rw [← Except.ok.inj hr']
    exact hr

/-- `pgalloc` looks only at the database. -/
theorem pgalloc_inside (h : BInv s ∅) (hask : RestsInside s n) (ty : PfnType) (flags : Nat) :
    Traced.Within (· < s.db.max) (pgalloc s n ty flags) := by
  rw [pgalloc]
  split
  · exact Traced.Within.lift
  · rename_i hn
    have hpos : 0 < n := Nat.pos_of_ne_zero hn
    have hloop : Traced.Within (· < s.db.max)
        (gfpZones.foldlM (tryZone n (gfpFlags flags)) (0, s)) :=
      Traced.Within.foldlM (I := fun r ↦ r.1 = 0 → r.2 = s) (fun _ ↦ rfl)
        fun r z _ hr ↦ tryZone_inside h hpos hask hr z
    refine hloop.bind ?_
    rintro ⟨addr, t⟩ hr
    dsimp only
    split
    · exact Traced.Within.lift
    · rename_i haddr
      rw [Traced.res_foldlM (res_tryZone n (gfpFlags flags)), foldlM_tryZone h hpos] at hr
      refine Traced.Within.bind (settypes_inside ?_) fun _ _ ↦ Traced.Within.pure
      split at hr
      · exact absurd (Prod.mk.inj (Except.ok.inj hr)).1.symm haddr
      · rename_i z e hc
        obtain ⟨_, _, _, hf⟩ := chosenIn_eq_some hc
        obtain ⟨he, hle⟩ := h.findfree hf
        have hok := h.entry e he
        have ha : addr = e := (allocFrom_addr hr).trans hok.addr
        have hbd := hok.bound
        omega

end Touch

/-! ## Runs -/

/-- The pages that are free at first. -/
def Db.free (db : Db) : Set Nat := {p | p < db.max ∧ db.type p = .free}

/-- No block of pages that were free at first has the entry after the last one asked for its
type. -/
def NeverAsks (db : Db) : Prop :=
  ∀ a n, 0 < n → pages a n ⊆ db.free → ¬AsksAt db a n db.max

/-- The invariant of a run: the blocks and the ranges handed out are of pages that were free at
first, and no page is in two of them. -/
structure Kept (db : Db) (s : State) : Prop where
  binv : BInv s.zones ∅
  max : s.zones.db.max = db.max
  free : freeAll s.zones ∅ ⊆ db.free
  out : ∀ r ∈ s.out, 0 < r.1 ∧ 0 < r.2 ∧ pages r.1 r.2 ⊆ db.free ∧
    Disjoint (pages r.1 r.2) (freeAll s.zones ∅)
  apart : s.out.Pairwise fun r r' ↦ Disjoint (pages r.1 r.2) (pages r'.1 r'.2)

namespace Kept

variable {s s' : State} {zs : PgZones} {op : Op} {ty : PfnType} {flags : Nat}

theorem not_asksAt (h : Kept db s) (hask : NeverAsks db) (hn : 0 < n) (hp : pages a n ⊆ db.free) :
    ¬AsksAt s.zones.db a n s.zones.db.max := by
  rw [AsksAt, zone_congr h.max, h.max]
  exact hask a n hn hp

/-- No rest of a block ends where too much is looked at. -/
theorem restsInside (h : Kept db s) (hask : NeverAsks db) (n : Nat) :
    Touch.RestsInside s.zones n := by
  intro e he hlt
  refine h.not_asksAt hask (Nat.sub_pos_of_lt hlt) fun x hx ↦ h.free ⟨e, he, ?_, ?_⟩
  · exact (Nat.le_add_right e n).trans hx.1
  · have hx' : x < e + n + ((s.zones.db.pfn e).size - n) := hx.2
    omega

/-- A range that is handed out may be freed. -/
theorem span (h : Kept db s) (hask : NeverAsks db) (hm : (a, n) ∈ s.out) :
    Span s.zones ∅ a n ∧ ¬AsksAt s.zones.db a n s.zones.db.max := by
  obtain ⟨hpos, hn, hsub, hdis⟩ := h.out _ hm
  dsimp only at hpos hn hsub hdis
  have hno := h.not_asksAt hask hn hsub
  have hlast : a + n - 1 < db.max := (hsub ⟨by omega, by omega⟩).1
  refine ⟨⟨hpos, hn, ?_, ?_, fun hx ↦ absurd hx (Set.notMem_empty _), ?_⟩, hno⟩
  · rw [h.max]
    omega
  · intro p hp
    have hs := (h.binv.entry p hp).size_pos
    by_contra hc
    -- the larger of the two first pages is in both
    have hx : Max.max a p ∈ pages a n := ⟨le_max_left _ _, by omega⟩
    exact Set.disjoint_left.1 hdis hx ⟨p, hp, le_max_right _ _, by omega⟩
  · exact fun hend ↦ next_eq_none hno (hend.resolve_left (Set.notMem_empty _))

/-- `pgfree` of a range that is handed out. -/
theorem pgfree (h : Kept db s) (hask : NeverAsks db) (hm : (a, n) ∈ s.out) :
    Traced.Within (· < s.zones.db.max) (Touch.pgfree s.zones a n) ∧
      ∀ t, Pg.pgfree s.zones a n = .ok t → Kept db ⟨t, s.out.erase (a, n)⟩ := by
  obtain ⟨hsp, hno⟩ := h.span hask hm
  have hne : ¬(a = 0 ∨ n = 0) := not_or.2 ⟨hsp.addr_pos.ne', hsp.size_pos.ne'⟩
  rw [Touch.pgfree, Pg.pgfree, if_neg hne, if_neg hne, Touch.free, Zone.free,
    if_neg hsp.size_pos.ne', if_neg hsp.size_pos.ne']
  refine ⟨Touch.create_inside hsp h.binv hno _, fun t ht ↦ ?_⟩
  obtain ⟨t', ht', hinv, hdb⟩ := hsp.create h.binv (s.zones.db.zone a)
  obtain rfl : t' = t := Except.ok.inj (ht'.symm.trans ht)
  have hfree := hsp.freeAll_eq h.binv hdb
  rw [Set.empty_sdiff] at hinv hfree
  -- the range that is freed is apart from the ones that stay
  have hperm := List.perm_cons_erase hm
  obtain ⟨hap, hrest⟩ := List.pairwise_cons.1
    ((hperm.pairwise_iff fun hd ↦ Disjoint.symm hd).1 h.apart)
  refine ⟨hinv, ?_, ?_, fun r hr ↦ ?_, hrest⟩
  · rw [hdb, Block.db'_max]
    exact h.max
  · rw [hfree]
    exact Set.union_subset h.free (h.out _ hm).2.2.1
  · obtain ⟨hpos, hn, hsub, hdis⟩ := h.out r (List.mem_of_mem_erase hr)
    refine ⟨hpos, hn, hsub, ?_⟩
    rw [hfree, Set.disjoint_union_right]
    exact ⟨hdis, (hap r hr).symm⟩

/-- `pgalloc`. -/
theorem pgalloc (h : Kept db s) (hask : NeverAsks db) (hs : ty.isPgzstart = false)
    (ht : ty.isPgzterm = false) (hok : Pg.pgalloc s.zones n ty flags = .ok (a, zs)) :
    Kept db ⟨zs, (a, n) :: s.out⟩ := by
  have hrest := h.restsInside hask n
  have hnext : ∀ z e, chosen s.zones n flags = some (z, e) → n < (s.zones.db.pfn e).size →
      e + (s.zones.db.pfn e).size = s.zones.db.max →
        next s.zones.db (e + n) ((s.zones.db.pfn e).size - n) = none := by
    intro z e hc hlt hend
    obtain ⟨_, _, _, hf⟩ := chosenIn_eq_some hc
    exact next_eq_none (hrest e (h.binv.findfree hf).1 hlt) (by omega)
  rcases h.binv.pgalloc hs ht hnext with ⟨a', t', hok', hinv, hmax, hn, hsub, hfree⟩ | ⟨e, he⟩
  · obtain ⟨rfl, rfl⟩ := Prod.mk.inj (Except.ok.inj (hok'.symm.trans hok))
    obtain ⟨p, hp, hpa, -⟩ := hsub ⟨le_rfl, Nat.lt_add_of_pos_right hn⟩
    refine ⟨hinv, hmax.trans h.max, ?_, fun r hr ↦ ?_, List.pairwise_cons.2 ⟨fun r hr ↦ ?_, h.apart⟩⟩
    · rw [hfree]
      exact Set.sdiff_subset.trans h.free
    · rw [hfree]
      rcases List.mem_cons.1 hr with rfl | hr
      · refine ⟨(h.binv.entry p hp).pos.trans_le hpa, hn, hsub.trans h.free, ?_⟩
        exact Set.disjoint_sdiff_right
      · obtain ⟨hpos, hn, hsub', hdis⟩ := h.out r hr
        exact ⟨hpos, hn, hsub', hdis.mono_right Set.sdiff_subset⟩
    · exact (h.out r hr).2.2.2.symm.mono_left hsub
  · rw [he] at hok
    cases hok

/-- One call: it looks only at the database, and keeps the invariant if it returns. -/
theorem exec (h : Kept db s) (hask : NeverAsks db) (ha : Allowed s op) :
    Traced.Within (· < db.max) (Touch.exec s op) ∧
      ∀ s', Pg.exec s op = .ok s' → Kept db s' := by
  rw [← h.max]
  cases op with
  | alloc size type flags =>
      obtain ⟨-, hs, ht⟩ := ha
      refine ⟨(Touch.pgalloc_inside h.binv (h.restsInside hask size) type flags).bind
        fun _ _ ↦ Traced.Within.pure, fun s' hs' ↦ ?_⟩
      rw [Pg.exec] at hs'
      cases hp : Pg.pgalloc s.zones size type flags with
      | error e =>
          rw [hp] at hs'
          cases hs'
      | ok r =>
          rw [hp] at hs'
          cases hs'
          exact h.pgalloc hask hs ht hp
  | free pfn size =>
      obtain ⟨hin, hkeep⟩ := h.pgfree hask ha
      refine ⟨hin.bind fun _ _ ↦ Traced.Within.pure, fun s' hs' ↦ ?_⟩
      rw [Pg.exec] at hs'
      cases hp : Pg.pgfree s.zones pfn size with
      | error e =>
          rw [hp] at hs'
          cases hs'
      | ok zs =>
          rw [hp] at hs'
          cases hs'
          exact hkeep zs hp

/-- A run. -/
theorem run (h : Kept db s) (hask : NeverAsks db) {ops : List Op} (hr : Run Step s ops s') :
    Kept db s' :=
  hr.invariant (fun _ _ t hk hst ↦ (hk.exec hask hst.1).2 t hst.2) h

end Kept

end Mh.Pg
