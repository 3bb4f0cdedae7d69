import Mh.Zone.Fit
import Mh.Vmap.Calls
import Mh.Mrg.Calls
import Mh.Pg.Runs

/-!
# Allocations are exact

`alloc.c` is compiled into the kernel's `vmap.c` and `pgalloc.c` and into the library's `vmap.c`.
In the two maps of virtual ranges every allocation is exact (`AllocExact`): it succeeds when an
entry is large enough, and takes exactly the block it returns.

In the zones of pages it is not always.  `___get_neighbors` asks for the zone of the page after the
first one of the rest that an allocation gives back, not of the page after the last one; so a rest
of two pages or more that ends where a block of the next zone begins is joined with that block, and
the zone gains pages of another one.  Everything else is exact (`alloc_exact_iff`).
-/

namespace Mh.Zone

open Mh.Lib

variable {n : Nat}

/-! ## Virtual ranges of the kernel -/

section Vmap

variable {rb : Vmap.Rb} {z : Vmap.VZone} {e : Vmap.Vme}

theorem vmap_freeSet (h : Vmap.VInv z) : freeSet (Vmap.backend rb) z () = Vmap.freeAddrs z := by
  ext x
  constructor
  · rintro ⟨e, hl, hx⟩
    exact ⟨e, (h.zinv.listed_iff.1 hl).1, hx⟩
  · rintro ⟨e, he, hx⟩
    exact ⟨e, h.zinv.listed_iff.2 ⟨he, rfl⟩, hx⟩

/-- Allocations of the kernel's virtual ranges are exact. -/
theorem vmap_allocExact (h : Vmap.VInv z) (hshort : ∀ e, Listed z () e → e.size < 2 ^ 31)
    (hpos : 0 < n) (hn : n ≤ 2 ^ 31) : AllocExact (Vmap.backend rb) z () n := by
  refine h.zinv.allocExact _ hpos hn (fun e _ ↦ (Vmap.Vme.range_len e).symm) fun e hl ↦ ?_
  obtain ⟨he, -, hle⟩ := h.zinv.lowest_mem (Nat.le_pow_clog Nat.one_lt_two n) hl
  rw [Vmap.Vme.range_len] at hle
  have hsmall := hshort e (h.zinv.listed_iff.2 ⟨he, rfl⟩)
  obtain ⟨t, ht, hi, hf⟩ := (h.allocFrom rb he hpos hle).resolve_right fun hbad ↦
    Nat.lt_irrefl _ (hbad.2.trans hsmall)
  refine ⟨t, ht, (h.node e he).pos.ne', ⟨e, hl, rfl⟩, ?_, ?_, fun i hi ↦ absurd rfl hi⟩
  · rw [vmap_freeSet h]
    intro x hx
    exact ⟨e, he, hx.1, hx.2.trans_le (Nat.add_le_add_left hle _)⟩
  · rw [vmap_freeSet h, vmap_freeSet hi]
    exact hf

end Vmap

/-! ## Virtual ranges of a process -/

section Mrg

variable {rb : Mrg.Rb} {z t : Mrg.VZone} {e : Mrg.Vme} {x : Nat}

/-- An address is free if some node holds it, and none that has been handed out. -/
theorem mem_mrg_freeSet (h : Mrg.VInv z) : x ∈ freeSet (Mrg.backend rb) z () ↔
    x ∈ Mrg.covered z ∧
      ∀ e ∈ z.db.tree, e.type ≠ Mrg.vfntFree → ¬(e.addr ≤ x ∧ x < e.addr + e.size) := by
  rw [Mrg.mem_covered]
  constructor
  · rintro ⟨e, hl, hx⟩
    have he := (h.zinv.listed_iff.1 hl).1
    refine ⟨⟨e, he.1, hx⟩, fun e' he' hty hx' ↦ hty ?_⟩
    rw [h.unique he' he.1 hx' hx]
    exact he.2
  · rintro ⟨⟨e, he, hx⟩, hno⟩
    have hty : e.type = Mrg.vfntFree := by
      by_contra hty
      exact hno e he hty hx
    exact ⟨e, h.zinv.listed_iff.2 ⟨⟨he, hty⟩, rfl⟩, hx⟩

/-- Allocations of a process's virtual ranges are exact. -/
theorem mrg_allocExact (h : Mrg.VInv z) (hshort : ∀ e, Listed z () e → e.size < 2 ^ 31)
    (hpos : 0 < n) (hn : n ≤ 2 ^ 31) : AllocExact (Mrg.backend rb) z () n := by
  refine h.zinv.allocExact _ hpos hn (fun e _ ↦ (Mrg.Vme.block_len e).symm) fun e hl ↦ ?_
  obtain ⟨he, -, hle⟩ := h.zinv.lowest_mem (Nat.le_pow_clog Nat.one_lt_two n) hl
  rw [Mrg.Vme.block_len] at hle
  obtain ⟨t, ht, htook⟩ := h.allocFrom rb he hpos hle (hshort e (h.zinv.listed_iff.2 ⟨he, rfl⟩))
  refine ⟨t, ht, (h.node e he.1).pos.ne', ⟨e, hl, rfl⟩, ?_, ?_, fun i hi ↦ absurd rfl hi⟩
  · intro x hx
    exact ⟨e, h.zinv.listed_iff.2 ⟨he, rfl⟩, hx.1, hx.2.trans_le (Nat.add_le_add_left hle _)⟩
  · ext x
    rw [Set.mem_sdiff, mem_mrg_freeSet h, mem_mrg_freeSet htook.vinv, htook.covered, Set.mem_sdiff]
    have hsame : (∀ e ∈ t.db.tree, e.type ≠ Mrg.vfntFree → ¬(e.addr ≤ x ∧ x < e.addr + e.size)) ↔
        ∀ e ∈ z.db.tree, e.type ≠ Mrg.vfntFree → ¬(e.addr ≤ x ∧ x < e.addr + e.size) := by
      refine forall_congr' fun e' ↦ ⟨fun hno hm hty ↦ ?_, fun hno hm hty ↦ ?_⟩
      · exact hno ((htook.taken e' hty).2 hm) hty
      · exact hno ((htook.taken e' hty).1 hm) hty
    rw [hsame]
    exact and_right_comm

end Mrg

/-! ## Pages -/

section Pg

open Pg

variable {s t : PgZones} {X : Set Nat} {z : PfnZone} {e : Nat}

theorem pg_freeSet (h : PInv s X) (z : PfnZone) : freeSet Pg.backend s z = freePfns s X z := by
  ext x
  rw [mem_freePfns]
  constructor
  · rintro ⟨p, hl, hx⟩
    obtain ⟨hp, hz⟩ := h.zinv.listed_iff.1 hl
    have haddr : Pg.backend.addr s.db p = p := (h.entry p hp).addr
    rw [haddr] at hx
    exact ⟨p, hp, hz, hx⟩
  · rintro ⟨p, hp, hz, hx⟩
    refine ⟨p, h.zinv.listed_iff.2 ⟨hp, hz⟩, ?_⟩
    have haddr : Pg.backend.addr s.db p = p := (h.entry p hp).addr
    rw [haddr]
    exact hx

theorem check_noDiff (db : Db) (p : Nat) :
    Ends (fun _ ↦ True) (· ≠ Panic.diff) (db.check p) := by
  rw [Db.check]
  split
  · exact trivial
  · exact fun hne ↦ Panic.noConfusion hne

theorem prevNeighbor_noDiff (db : Db) (a : Nat) :
    Ends (fun _ ↦ True) (· ≠ Panic.diff) (prevNeighbor db a) := by
  rw [prevNeighbor]
  split
  · exact trivial
  · refine (check_noDiff db _).bind fun _ _ ↦ ?_
    split
    · exact (check_noDiff db _).bind fun _ _ ↦ trivial
    · exact trivial

theorem nextNeighbor_noDiff (db : Db) (a n : Nat) :
    Ends (fun _ ↦ True) (· ≠ Panic.diff) (nextNeighbor db a n) := by
  rw [nextNeighbor]
  split
  · exact trivial
  · exact (check_noDiff db _).bind fun _ _ ↦ trivial

theorem getNeighbors_noDiff (db : Db) (a n : Nat) :
    Ends (fun _ ↦ True) (· ≠ Panic.diff) (Pg.getNeighbors db a n) :=
  (prevNeighbor_noDiff db a).bind fun _ _ ↦ (nextNeighbor_noDiff db a n).bind fun _ _ ↦ trivial

theorem mkptr_noDiff (db : Db) (a n : Nat) :
    Ends (fun _ ↦ True) (· ≠ Panic.diff) (Pg.mkptr db a n) := by
  rw [Pg.mkptr]
  generalize w32 (a + n + (2 ^ 32 - 1)) = b
  exact (check_noDiff db _).bind fun _ _ ↦ (check_noDiff db _).bind fun _ _ ↦ trivial

theorem pg_noDiff : NoDiff Pg.backend := ⟨getNeighbors_noDiff, mkptr_noDiff⟩

/-- The rest of the block that is taken does not end where a block of the next zone begins, or is
a single page. -/
def RestSafe (s : PgZones) (z : PfnZone) (n : Nat) : Prop :=
  ∀ e, Lowest s z (Nat.clog 2 n) e → n < (s.db.pfn e).size →
    MergeSafe s.db (e + n) ((s.db.pfn e).size - n)

/-- With a rest that is safe to join, an allocation of pages is exact. -/
theorem pg_allocExact (h : PInv s ∅) (hshort : ∀ e, Listed s z e → (s.db.pfn e).size < 2 ^ 31)
    (hpos : 0 < n) (hn : n ≤ 2 ^ 31) (hsafe : RestSafe s z n) :
    AllocExact Pg.backend s z n := by
  refine h.zinv.allocExact _ hpos hn (fun e _ ↦ (range_len s.db e).symm) fun e hl ↦ ?_
  obtain ⟨he, hz, hle⟩ := h.zinv.lowest_mem (Nat.le_pow_clog Nat.one_lt_two n) hl
  rw [range_len] at hle
  rw [range_zone] at hz
  subst hz
  have hsmall := hshort e (h.zinv.listed_iff.2 ⟨he, rfl⟩)
  have haddr : Pg.backend.addr s.db e = e := (h.entry e he).addr
  have hfrom := h.allocFrom he hpos hle (hsafe e hl) fun _ hX ↦ absurd hX (Set.notMem_empty _)
  simp only [Set.empty_union] at hfrom
  obtain ⟨t, ht, hi, -, -, -, hfree⟩ := hfrom.resolve_right fun hbad ↦ by
    have hdiff : w32 ((s.db.pfn e).size + (2 ^ 32 - n)) = (s.db.pfn e).size - n := by
      show ((s.db.pfn e).size + (2 ^ 32 - n)) % 2 ^ 32 = (s.db.pfn e).size - n
      omega
    have hge : 2 ^ 31 ≤ (s.db.pfn e).size - n := hdiff ▸ diff_of_allocFrom pg_noDiff hbad
    omega
  have hin : Set.Ico e (e + n) ⊆ freePfns s ∅ (s.db.zone e) := fun x hx ↦
    mem_freePfns.2 ⟨e, he, rfl, hx.1, hx.2.trans_le (Nat.add_le_add_left hle e)⟩
  rw [haddr]
  refine ⟨t, ht, (h.entry e he).pos.ne', ⟨e, hl, haddr.symm⟩, ?_, ?_, fun i hne ↦ ?_⟩
  · rw [pg_freeSet h]
    exact hin
  · rw [pg_freeSet h, pg_freeSet hi]
    exact hfree _
  · rw [pg_freeSet h, pg_freeSet hi, hfree i]
    refine sdiff_eq_left.2 (Set.disjoint_left.2 fun x hx hx' ↦ ?_)
    obtain ⟨p, hp, hpz, hpx⟩ := mem_freePfns.1 hx
    obtain ⟨q, hq, hqz, hqx⟩ := mem_freePfns.1 (hin hx')
    rw [h.unique hp hq hpx.1 hpx.2 hqx.1 hqx.2, hqz] at hpz
    exact hne hpz.symm

/-- `___get_neighbors` takes the block that begins after the rest for a neighbour, whatever its
zone. -/
theorem getNeighbors_crosses (h : PInv s ∅) (he : e ∈ starts s ∅) (hpos : 0 < n)
    (hlt : n + 2 ≤ (s.db.pfn e).size)
    (hst : (s.db.type (e + (s.db.pfn e).size)).isPgzstart = true) :
    Pg.getNeighbors s.db (e + n) ((s.db.pfn e).size - n) =
      .ok (none, some (e + (s.db.pfn e).size)) := by
  have hok := h.entry e he
  have hbd := hok.bound
  have hmax := h.max_lt
  have hzone : ∀ x, e ≤ x → x < e + (s.db.pfn e).size → s.db.zone x = s.db.zone e := hok.zone
  have hprev : prevNeighbor s.db (e + n) = .ok none := by
    -- The page before the rest is not the last one of its block.
    have hterm : ¬(s.db.type (e + n - 1)).isPgzterm = true := by
      intro hterm
      obtain ⟨p, hp, hend⟩ := h.term (e + n - 1) (by omega) (Set.notMem_empty _) hterm
      have hps := h.size_pos hp
      have hpe : p = e :=
        h.unique hp he (x := e + n - 1) (by omega) (by omega) (by omega) (by omega)
      rw [hpe] at hend
      omega
    have hz : s.db.zone (e + n) = s.db.zone (e + n - 1) :=
      (hzone _ (by omega) (by omega)).trans (hzone _ (by omega) (by omega)).symm
    have hc : s.db.check (e + n - 1) = .ok () := if_pos (by omega)
    rw [prevNeighbor, if_neg (by rintro (h0 | hne); exacts [by omega, hne hz]), hc]
    simp only [bind, Except.bind, if_neg hterm]
    rfl
  have hnext : nextNeighbor s.db (e + n) ((s.db.pfn e).size - n) =
      .ok (some (e + (s.db.pfn e).size)) := by
    have hw₁ : w32 (e + n + 1) = e + n + 1 := Nat.mod_eq_of_lt (by omega)
    have hw : w32 (e + n + ((s.db.pfn e).size - n)) = e + (s.db.pfn e).size := by
      rw [w32, Nat.mod_eq_of_lt (by omega)]
      omega
    have hz : s.db.zone (e + n) = s.db.zone (e + n + 1) :=
      (hzone _ (by omega) (by omega)).trans (hzone _ (by omega) (by omega)).symm
    have hc : s.db.check (e + (s.db.pfn e).size) = .ok () := if_pos hbd
    rw [nextNeighbor, hw₁, hw, if_neg (not_not.2 hz)]
    simp only [hc, bind, Except.bind, if_pos hst]
    rfl
  rw [Pg.getNeighbors, hprev, hnext]
  rfl

/-- An allocation whose rest is joined with the block that begins after it: the zone gains that
block. -/
theorem allocFrom_crosses (h : PInv s ∅) (he : e ∈ starts s ∅) (hpos : 0 < n)
    (hlt : n + 2 ≤ (s.db.pfn e).size) (hshort : (s.db.pfn e).size < 2 ^ 31)
    (hst : (s.db.type (e + (s.db.pfn e).size)).isPgzstart = true) :
    ∃ t, Zone.allocFrom Pg.backend s (s.db.zone e) e n = .ok (e, t) ∧
      e + (s.db.pfn e).size ∈ freeSet Pg.backend t (s.db.zone e) := by
  have hok := h.entry e he
  have hbd := hok.bound
  have hmax := h.max_lt
  have hN := getNeighbors_crosses h he hpos hlt hst
  obtain ⟨q, hq⟩ : ∃ q, q = e + (s.db.pfn e).size := ⟨_, rfl⟩
  rw [← hq] at hN hst ⊢
  have hqs : q ∈ starts s ∅ := by
    have hne : q ≠ s.db.max := by
      rintro rfl
      rw [h.top] at hst
      cases hst
    exact ⟨by omega, Set.notMem_empty _, hst⟩
  have hqpos := h.size_pos hqs
  have hqbd := (h.entry q hqs).bound
  have hqaddr : Pg.backend.addr s.db q = q := (h.entry q hqs).addr
  obtain ⟨s₁, hrem, -, hdb₁, -⟩ := h.remove he
  have hremq : Zone.remove Pg.backend s₁ (s.db.zone e) q =
      .ok { s₁.detach (s.db.zone e) q (s.db.pfn q).size with db := s₁.db } := by
    have hsz : Pg.backend.size s₁.db q = (s.db.pfn q).size := by rw [hdb₁]; rfl
    rw [Zone.remove, detachentry, hsz, if_pos (entryOk_of_pos hqpos (by omega))]
    rfl
  -- The joined block runs from the rest to the end of the block after it.
  obtain ⟨L, hL⟩ : ∃ L, L = q + (s.db.pfn q).size - (e + n) := ⟨_, rfl⟩
  have hlen : w32 (w32 (q + (s.db.pfn q).size) + (2 ^ 32 - (e + n))) = L := by
    rw [w32, w32]
    omega
  have hmk : Pg.mkptr s.db (e + n) L = .ok (e + n, s.db.mkptr (e + n) L) :=
    Block.mkptr_eq (by omega) (by omega) hmax
  obtain ⟨haddr, hsize⟩ : ((s.db.mkptr (e + n) L).pfn (e + n)).addr = e + n ∧
      ((s.db.mkptr (e + n) L).pfn (e + n)).size = L := mkptr_entry (.inl rfl)
  obtain ⟨s₂, hs₂⟩ : ∃ s₂ : PgZones, s₂ = { s₁.detach (s.db.zone e) q (s.db.pfn q).size with
    db := s.db.mkptr (e + n) L } := ⟨_, rfl⟩
  have hdb₂ : s₂.db = s.db.mkptr (e + n) L := by rw [hs₂]
  have hcreate : Zone.create Pg.backend s₁ (s.db.zone e) (e + n) ((s.db.pfn e).size - n) =
      .ok (s₂.attach (s.db.zone e) (e + n) L) := by
    have hN₁ : Pg.backend.getNeighbors s₁.db (e + n) ((s.db.pfn e).size - n) =
        .ok (none, some q) := by
      rw [hdb₁]
      exact hN
    have hnext : w32 (Pg.backend.addr s₁.db q + Pg.backend.size s₁.db q) =
        w32 (q + (s.db.pfn q).size) := by
      rw [hdb₁, hqaddr]
      rfl
    have hmk₁ : Pg.backend.mkptr s₁.db (e + n) L = .ok (e + n, s.db.mkptr (e + n) L) := by
      rw [hdb₁]
      exact hmk
    have hsz : Pg.backend.size (s.db.mkptr (e + n) L) (e + n) = L := hsize
    simp only [Zone.create, hN₁, removeOpt, hremq, bind, Except.bind, Option.elim, hnext, hlen,
      hmk₁, ← hs₂, attachentry, hsz, entryOk_of_pos (n := L) (by omega) (by omega), if_true]
  refine ⟨s₂.attach (s.db.zone e) (e + n) L, ?_, ?_⟩
  · have hdiff : w32 (Pg.backend.size s.db e + (2 ^ 32 - n)) = (s.db.pfn e).size - n := by
      show ((s.db.pfn e).size + (2 ^ 32 - n)) % 2 ^ 32 = (s.db.pfn e).size - n
      omega
    have hea : Pg.backend.addr s.db e = e := hok.addr
    have hw : w32 (e + n) = e + n := Nat.mod_eq_of_lt (by omega)
    have hpos' : 0 < (s.db.pfn e).size - n := by omega
    have hnd : ¬2 ^ 31 ≤ (s.db.pfn e).size - n := by omega
    simp only [Zone.allocFrom, hdiff, hea, if_neg hnd, hrem, bind, Except.bind, hw, if_pos hpos',
      hcreate, pure, Except.pure]
  · refine ⟨e + n, ⟨msbit L, msbit_lt (by omega), Bins.mem_insert_self⟩, ?_, ?_⟩
    · show (s₂.db.pfn (e + n)).addr ≤ q
      rw [hdb₂, haddr]
      omega
    · show q < (s₂.db.pfn (e + n)).addr + (s₂.db.pfn (e + n)).size
      rw [hdb₂, haddr, hsize]
      omega

/-- Where an allocation of pages is exact, its rest was safe to join. -/
theorem restSafe_of_allocExact (h : PInv s ∅)
    (hshort : ∀ e, Listed s z e → (s.db.pfn e).size < 2 ^ 31) (hpos : 0 < n) (hn : n ≤ 2 ^ 31)
    (hx : AllocExact Pg.backend s z n) : RestSafe s z n := by
  intro e hl hlt h₂ hst
  obtain ⟨he, hz, -⟩ := h.zinv.lowest_mem (Nat.le_pow_clog Nat.one_lt_two n) hl
  rw [range_zone] at hz
  subst hz
  have hok := h.entry e he
  have hend : e + n + ((s.db.pfn e).size - n) = e + (s.db.pfn e).size := by omega
  rw [hend] at hst ⊢
  obtain ⟨t, hfrom, hq⟩ := allocFrom_crosses h he hpos (by omega)
    (hshort e (h.zinv.listed_iff.2 ⟨he, rfl⟩)) hst
  have hal : Zone.alloc Pg.backend s (s.db.zone e) n = .ok (e, t) := by
    rw [Zone.alloc, if_neg hpos.ne', (h.zinv.findfree_eq_some hpos hn).2 hl]
    exact hfrom
  obtain ⟨addr, t', hcall, -, halloc, -⟩ := hx
  rw [hal] at hcall
  obtain ⟨rfl, rfl⟩ := Prod.mk.inj (Except.ok.inj hcall)
  -- The first page after the rest is now free in the zone, so it was before.
  rw [(halloc hok.pos.ne').removed, pg_freeSet h] at hq
  obtain ⟨p, hp, hpz, hpx⟩ := mem_freePfns.1 hq.1
  have hne : e + (s.db.pfn e).size ≠ s.db.max := fun heq ↦ by
    rw [heq, h.top] at hst
    cases hst
  have hqs : e + (s.db.pfn e).size ∈ starts s ∅ :=
    ⟨lt_of_le_of_ne hok.bound hne, Set.notMem_empty _, hst⟩
  have hpe := h.unique hp hqs hpx.1 hpx.2 le_rfl (Nat.lt_add_of_pos_right (h.size_pos hqs))
  rw [← hpe, hpz, hok.zone (e + n) (Nat.le_add_right _ _) (by omega)]

end Pg

/-! ## Every zone of `alloc.c` -/

/-- The zones that `alloc.c` is compiled for, each in some state. -/
inductive User
  /-- `vmap_zone` of the kernel -/
  | vmap (rb : Vmap.Rb) (z : Vmap.VZone)
  /-- `vmap_zone` of a process -/
  | mrg (rb : Mrg.Rb) (z : Mrg.VZone)
  /-- one of `pgzones` -/
  | pg (s : Pg.PgZones) (z : Pg.PfnZone)

namespace User

/-- The lists, the bitmap and the user's database agree; no entry is at address zero. -/
def Inv : User → Prop
  | vmap _ z => Vmap.VInv z
  | mrg _ z => Mrg.VInv z
  | pg s _ => Pg.PInv s ∅

/-- The entries of the zone are below `2 ^ 31` in size. -/
def Short : User → Prop
  | vmap _ z => ∀ e, Listed z () e → e.size < 2 ^ 31
  | mrg _ z => ∀ e, Listed z () e → e.size < 2 ^ 31
  | pg s z => ∀ e, Listed s z e → (s.db.pfn e).size < 2 ^ 31

/-- An allocation from the zone is exact. -/
def Exact (n : Nat) : User → Prop
  | vmap rb z => AllocExact (Vmap.backend rb) z () n
  | mrg rb z => AllocExact (Mrg.backend rb) z () n
  | pg s z => AllocExact Pg.backend s z n

/-- What an allocation gives back is not joined with a block of another zone. -/
def Safe (n : Nat) : User → Prop
  | vmap _ _ => True
  | mrg _ _ => True
  | pg s z => RestSafe s z n

end User

/-- The zones after `pginit` of a machine whose free pages lie on both sides of the border. -/
theorem border_zones : ((Pg.pginit Pg.border).map fun zs ↦
    (zs.zlist (.kern32, 0), zs.zlist (.kern32, 1), (zs.db.pfn 381).size,
      (zs.db.type 384).isPgzstart, zs.db.zone 384 == zs.db.zone 382)) =
    .ok ([], [381], 3, true, false) := by
  decide +kernel

/-- Its zone of pages that the kernel maps has one block, of three pages. -/
theorem border_ok : ∃ zs, Pg.pginit Pg.border = .ok zs ∧ Pg.PInv zs ∅ ∧
    (User.pg zs .kern32).Short ∧ (∀ n, n ≤ 2 → Lowest zs .kern32 (Nat.clog 2 n) 381) ∧
    (zs.db.pfn 381).size = 3 ∧ (zs.db.type 384).isPgzstart = true ∧
    zs.db.zone 384 ≠ zs.db.zone 382 := by
  obtain ⟨zs, hzs, hinv, hmax, -⟩ := Pg.pginit_ok Pg.boot_border
  have hfacts := border_zones
  rw [hzs] at hfacts
  simp only [Except.map, Except.ok.injEq, Prod.mk.injEq, beq_eq_false_iff_ne] at hfacts
  obtain ⟨hnil, hone, hsize, hst, hne⟩ := hfacts
  refine ⟨zs, hzs, hinv, fun e hl ↦ ?_, fun n hn ↦ ?_, hsize, hst, hne⟩
  · have hbd := (hinv.entry e (hinv.zinv.listed_iff.1 hl).1).bound
    have hm : zs.db.max = 386 := hmax
    omega
  · refine ⟨1, by decide, Nat.clog_le_of_le_pow hn, by rw [hone]; rfl, fun j _ hj ↦ ?_⟩
    obtain rfl : j = 0 := Nat.lt_one_iff.1 hj
    exact hnil

/-- Allocations are exact, in every zone and for every size, but for pages given back at the border
to another zone. -/
theorem alloc_exact_iff (u : User) (n : Nat) (hinv : u.Inv) (hshort : u.Short) (hpos : 1 ≤ n)
    (hn : n ≤ 2 ^ 31) : u.Exact n ↔ u.Safe n := by
  cases u with
  | vmap rb z => exact iff_of_true (vmap_allocExact hinv hshort hpos hn) trivial
  | mrg rb z => exact iff_of_true (mrg_allocExact hinv hshort hpos hn) trivial
  | pg s z =>
      exact ⟨restSafe_of_allocExact hinv hshort hpos hn, pg_allocExact hinv hshort hpos hn⟩

/-- Two pages of the three: what is left is a single page. -/
theorem alloc_exact_two : ∃ zs, Pg.pginit Pg.border = .ok zs ∧ (User.pg zs .kern32).Exact 2 := by
  obtain ⟨zs, hzs, hinv, hshort, hlow, hsize, -⟩ := border_ok
  refine ⟨zs, hzs, (alloc_exact_iff (.pg zs .kern32) 2 hinv hshort (by decide) (by decide)).2 ?_⟩
  intro e hl _ htwo
  have he : some e = some 381 :=
    ((hinv.zinv.findfree_eq_some Nat.two_pos (by decide)).2 hl).symm.trans
      ((hinv.zinv.findfree_eq_some Nat.two_pos (by decide)).2 (hlow 2 le_rfl))
  rw [Option.some.inj he, hsize] at htwo
  exact absurd htwo (by decide)

/-- One page of the three: the two that are left are joined with the page of the next pool. -/
theorem alloc_gains_pages : ¬∀ (u : User) (n : Nat), u.Inv → u.Short → 1 ≤ n → n ≤ 2 ^ 31 →
    u.Exact n := by
  intro hall
  obtain ⟨zs, -, hinv, hshort, hlow, hsize, hst, hne⟩ := border_ok
  have hx := hall (.pg zs .kern32) 1 hinv hshort le_rfl Nat.one_le_two_pow
  have hsafe := restSafe_of_allocExact hinv hshort Nat.one_pos Nat.one_le_two_pow hx 381
    (hlow 1 (by decide))
  rw [hsize] at hsafe
  exact hne (hsafe (by decide) (by decide) hst)

end Mh.Zone
