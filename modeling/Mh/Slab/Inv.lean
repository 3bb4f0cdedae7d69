import Mh.Slab.Model
import Mh.Lib.Run

/-!
# The slab allocator's invariant

`HdrInv` is about one slab: its free list holds objects of the slab, each once,
`freecnt` counts them, and the objects that are not on it are the live ones.
`CacheInv` is about one cache: its queues hold exactly its slabs, the counters
count them, and the number of free objects of a slab fits the queue it is on.

What fits is `Level`.  It is stated without assuming that `grow` and `free` agree
on the number of objects of a slab: `emptyq` holds the slabs that `free` counted
up to `max_objs`, and only where the two agree are these the slabs without a
live object.
-/

namespace Mh.Slab

open Mh.Lib Mh.Lib.Bins

variable {v : Variant} {s t : Mem} {c k ptr n : Nat} {sc : Cache} {S : Set Nat}
  {f g sz : Nat → Nat}

/-! ## Numbers -/

theorem inc_eq (h : n + 1 < 2 ^ 32) : inc n = n + 1 := Nat.mod_eq_of_lt h

theorem dec_eq (h₀ : 0 < n) (h : n < 2 ^ 32) : dec n = n - 1 := by
  have hn : n + (2 ^ 32 - 1) = (n - 1) + 2 ^ 32 := by omega
  rw [dec, w32, hn, Nat.add_mod_right, Nat.mod_eq_of_lt (by omega)]

theorem slabsize_pos : 0 < slabsize v := by cases v <;> decide

theorem slabsize_bound : 16 * 1024 ≤ slabsize v ∧ slabsize v ≤ 2 ^ 21 := by cases v <;> decide

/-- The objects of a slab fit behind the place of the first one. -/
theorem slabobjs_fit (v : Variant) (size : Nat) :
    firstObj v + slabobjs v size * size ≤ slabsize v := by
  cases v with
  | fixmem =>
      rw [firstObj, Nat.zero_add]
      exact Nat.div_mul_le_self _ _
  | structs =>
      have h := Nat.div_mul_le_self (slabsize .structs - slabhdrSize) size
      have h' : slabhdrSize + (slabsize .structs - slabhdrSize) = slabsize .structs := rfl
      rw [firstObj, slabobjs]
      omega

theorem slabobjs_le (v : Variant) {size : Nat} (h : 0 < size) : slabobjs v size ≤ 2 ^ 21 :=
  calc slabobjs v size ≤ slabobjs v size * size := Nat.le_mul_of_pos_right _ h
    _ ≤ firstObj v + slabobjs v size * size := Nat.le_add_left _ _
    _ ≤ slabsize v := slabobjs_fit v size
    _ ≤ 2 ^ 21 := slabsize_bound.2

theorem maxObjs_le (v : Variant) (size : Nat) : maxObjs v size ≤ slabobjs v size := by
  cases v with
  | fixmem => exact Nat.div_le_div_right (Nat.sub_le _ _)
  | structs => exact le_rfl

theorem size_pos {size : Nat} (h : 2 ≤ slabobjs v size) : 0 < size := by
  refine Nat.pos_of_ne_zero ?_
  rintro rfl
  cases v <;> simp [slabobjs] at h

/-! ## The objects of a slab -/

section Objects

variable {size i x : Nat}

theorem objAddr_lt (hi : i < slabobjs v size) :
    k * slabsize v + firstObj v ≤ objAddr v size k i ∧
      objAddr v size k i + size ≤ (k + 1) * slabsize v := by
  have hfit := slabobjs_fit v size
  have hmul : (i + 1) * size ≤ slabobjs v size * size := Nat.mul_le_mul_right size hi
  rw [objAddr, Nat.succ_mul]
  rw [Nat.succ_mul] at hmul
  omega

theorem mem_objects : x ∈ objects v size k ↔ ∃ i < slabobjs v size, objAddr v size k i = x := by
  simp [objects]

theorem objAddr_inj (h : 0 < size) : Function.Injective (objAddr v size k) := by
  intro i j hij
  have hmul : i * size = j * size := by
    simp only [objAddr] at hij
    omega
  exact Nat.eq_of_mul_eq_mul_right h hmul

theorem card_objects (h : 0 < size) : (objects v size k).card = slabobjs v size := by
  rw [objects, Finset.card_image_of_injective _ (objAddr_inj h), Finset.card_range]

/-- An object's address says which slab it is in. -/
theorem div_of_mem_objects (h : 0 < size) (hx : x ∈ objects v size k) : x / slabsize v = k := by
  obtain ⟨i, hi, rfl⟩ := mem_objects.1 hx
  have hlt := objAddr_lt (k := k) hi
  rw [Nat.div_eq_of_lt_le]
  · omega
  · rw [Nat.succ_mul] at hlt ⊢
    omega

/-- An object is inside its slab, behind the place of the first one. -/
theorem bound_of_mem_objects (hx : x ∈ objects v size k) :
    k * slabsize v + firstObj v ≤ x ∧ x + size ≤ (k + 1) * slabsize v := by
  obtain ⟨i, hi, rfl⟩ := mem_objects.1 hx
  exact objAddr_lt hi

/-- Of two objects of a slab the one that begins first ends before the other. -/
theorem objects_apart {y : Nat} (hx : x ∈ objects v size k) (hy : y ∈ objects v size k)
    (hlt : x < y) : x + size ≤ y := by
  obtain ⟨i, _, rfl⟩ := mem_objects.1 hx
  obtain ⟨j, _, rfl⟩ := mem_objects.1 hy
  have hij : i < j := by
    by_contra hn
    have hle : j * size ≤ i * size := Nat.mul_le_mul_right size (Nat.le_of_not_lt hn)
    simp only [objAddr] at hlt
    omega
  have hle : (i + 1) * size ≤ j * size := Nat.mul_le_mul_right size hij
  rw [Nat.succ_mul] at hle
  simp only [objAddr]
  omega

/-- So does one of an earlier slab. -/
theorem objects_apart_of_ne {y k' size' : Nat} (hx : x ∈ objects v size k)
    (hy : y ∈ objects v size' k') (hk : k' ≠ k) (hlt : x < y) : x + size ≤ y := by
  have hx' := bound_of_mem_objects hx
  have hy' := bound_of_mem_objects hy
  have hlt' : k < k' := by
    refine lt_of_le_of_ne ?_ (Ne.symm hk)
    by_contra hn
    have hle : (k' + 1) * slabsize v ≤ k * slabsize v := Nat.mul_le_mul_right _ (by omega)
    omega
  have hle : (k + 1) * slabsize v ≤ k' * slabsize v := Nat.mul_le_mul_right _ hlt'
  omega

theorem mem_linkObjs (size n : Nat) (ptr : Nat) (q : List Nat) :
    x ∈ linkObjs size n ptr q ↔ x ∈ q ∨ ∃ i < n, ptr + i * size = x := by
  induction n generalizing ptr q with
  | zero => simp [linkObjs]
  | succ n ih =>
      rw [linkObjs, ih, List.mem_cons]
      constructor
      · rintro ((rfl | hx) | ⟨i, hi, rfl⟩)
        · exact .inr ⟨0, Nat.succ_pos n, by simp⟩
        · exact .inl hx
        · exact .inr ⟨i + 1, Nat.succ_lt_succ hi, by rw [Nat.succ_mul]; omega⟩
      · rintro (hx | ⟨i, hi, rfl⟩)
        · exact .inl (.inr hx)
        · cases i with
          | zero => exact .inl (.inl (by simp))
          | succ i => exact .inr ⟨i, Nat.lt_of_succ_lt_succ hi, by rw [Nat.succ_mul]; omega⟩

theorem length_linkObjs (size n ptr : Nat) (q : List Nat) :
    (linkObjs size n ptr q).length = q.length + n := by
  induction n generalizing ptr q with
  | zero => rfl
  | succ n ih =>
      rw [linkObjs, ih, List.length_cons]
      omega

theorem nodup_linkObjs (h : 0 < size) (n ptr : Nat) {q : List Nat} (hq : q.Nodup)
    (hlt : ∀ x ∈ q, x < ptr) : (linkObjs size n ptr q).Nodup := by
  induction n generalizing ptr q with
  | zero => exact hq
  | succ n ih =>
      refine ih (ptr + size) (List.nodup_cons.2 ⟨fun hm ↦ ?_, hq⟩) ?_
      · exact absurd (hlt ptr hm) (Nat.lt_irrefl ptr)
      · rintro x (_ | ⟨_, hx⟩)
        · exact Nat.lt_add_of_pos_right h
        · exact Nat.lt_add_right size (hlt x hx)

end Objects

/-! ## One slab -/

/-- The header of slab `k` of a cache of objects of the given size. -/
structure HdrInv (v : Variant) (size : Nat) (live : Finset Nat) (k : Nat) (h : Hdr) : Prop where
  magic : h.magic = magic
  nodup : h.freeq.Nodup
  cnt : h.freecnt = h.freeq.length
  sub : ∀ x ∈ h.freeq, x ∈ objects v size k
  live : ∀ x ∈ objects v size k, x ∈ live ↔ x ∉ h.freeq

namespace HdrInv

variable {size : Nat} {live : Finset Nat} {h : Hdr}

theorem freecnt_le (hh : HdrInv v size live k h) (hs : 0 < size) :
    h.freecnt ≤ slabobjs v size := by
  rw [hh.cnt, ← List.toFinset_card_of_nodup hh.nodup, ← card_objects (k := k) hs]
  exact Finset.card_le_card fun x hx ↦ hh.sub x (List.mem_toFinset.1 hx)

/-- No object is free: all are live. -/
theorem all_live (hh : HdrInv v size live k h) :
    h.freecnt = 0 ↔ ∀ x ∈ objects v size k, x ∈ live := by
  rw [hh.cnt, List.length_eq_zero_iff]
  constructor
  · intro he x hx
    rw [hh.live x hx, he]
    exact List.not_mem_nil
  · intro hall
    rw [List.eq_nil_iff_forall_not_mem]
    intro x hx
    exact (hh.live x (hh.sub x hx)).1 (hall x (hh.sub x hx)) hx

/-- Every object is free: none is live. -/
theorem none_live (hh : HdrInv v size live k h) (hs : 0 < size) :
    h.freecnt = slabobjs v size ↔ ∀ x ∈ objects v size k, x ∉ live := by
  have hsub : h.freeq.toFinset ⊆ objects v size k := fun x hx ↦ hh.sub x (List.mem_toFinset.1 hx)
  rw [hh.cnt, ← List.toFinset_card_of_nodup hh.nodup, ← card_objects (k := k) hs]
  constructor
  · intro he x hx hlive
    have heq := Finset.eq_of_subset_of_card_le hsub he.ge
    rw [← heq, List.mem_toFinset] at hx
    exact (hh.live x (hh.sub x hx)).1 hlive hx
  · intro hnone
    congr 1
    refine hsub.antisymm fun x hx ↦ List.mem_toFinset.2 ?_
    by_contra hn
    exact hnone x hx ((hh.live x hx).2 hn)

/-- A slab just grown has all its objects on the free list. -/
theorem grow (hs : 0 < size) (hlive : ∀ x ∈ objects v size k, x ∉ live) (c : Nat) :
    HdrInv v size live k (growHdr v c size k) where
  magic := rfl
  nodup := nodup_linkObjs hs _ _ List.nodup_nil (by simp)
  cnt := by simp [growHdr, length_linkObjs]
  sub x hx := by
    obtain hx | ⟨i, hi, rfl⟩ := (mem_linkObjs _ _ _ _).1 hx
    · exact absurd hx List.not_mem_nil
    · exact mem_objects.2 ⟨i, hi, rfl⟩
  live x hx := by
    refine iff_of_false (hlive x hx) (not_not.2 ?_)
    obtain ⟨i, hi, rfl⟩ := mem_objects.1 hx
    exact (mem_linkObjs _ _ _ _).2 (.inr ⟨i, hi, rfl⟩)

/-- Taking the first free object. -/
theorem take (hh : HdrInv v size live k h) (hs : 0 < size) {oh : Nat} {q : List Nat}
    (hq : h.freeq = oh :: q) :
    HdrInv v size (insert oh live) k { h with freeq := q, freecnt := dec h.freecnt } := by
  have hnd := List.nodup_cons.1 (hq ▸ hh.nodup)
  have hle := hh.freecnt_le hs
  have hcnt := hh.cnt
  rw [hq, List.length_cons] at hcnt
  refine ⟨hh.magic, hnd.2, ?_, ?_, ?_⟩
  · rw [dec_eq (by omega) (by have := slabobjs_le v hs; omega)]
    exact Nat.sub_eq_of_eq_add hcnt
  · intro x hx
    exact hh.sub x (hq ▸ List.mem_cons_of_mem oh hx)
  · intro x hx
    rw [Finset.mem_insert, hh.live x hx, hq, List.mem_cons, not_or]
    constructor
    · rintro (rfl | ⟨_, hn⟩)
      · exact hnd.1
      · exact hn
    · intro hn
      by_cases hxo : x = oh
      · exact .inl hxo
      · exact .inr ⟨hxo, hn⟩

/-- Giving a live object back. -/
theorem give (hh : HdrInv v size live k h) (hs : 0 < size) (hobj : ptr ∈ objects v size k)
    (hlive : ptr ∈ live) :
    h.freecnt < slabobjs v size ∧ HdrInv v size (live.erase ptr) k
      { h with freeq := ptr :: h.freeq, freecnt := inc h.freecnt } := by
  have hlt : h.freecnt < slabobjs v size := by
    refine lt_of_le_of_ne (hh.freecnt_le hs) fun he ↦ ?_
    exact (hh.none_live hs).1 he ptr hobj hlive
  refine ⟨hlt, hh.magic, ?_, ?_, ?_, ?_⟩
  · exact List.nodup_cons.2 ⟨(hh.live ptr hobj).1 hlive, hh.nodup⟩
  · rw [inc_eq (by have := slabobjs_le v hs; omega), List.length_cons, ← hh.cnt]
  · rintro x (_ | ⟨_, hx⟩)
    · exact hobj
    · exact hh.sub x hx
  · intro x hx
    rw [Finset.mem_erase, hh.live x hx, List.mem_cons, not_or]

/-- What other slabs' objects do is no matter. -/
theorem congr (hh : HdrInv v size live k h) {live' : Finset Nat}
    (he : ∀ x ∈ objects v size k, x ∈ live' ↔ x ∈ live) : HdrInv v size live' k h where
  magic := hh.magic
  nodup := hh.nodup
  cnt := hh.cnt
  sub := hh.sub
  live x hx := (he x hx).trans (hh.live x hx)

end HdrInv

/-! ## One cache -/

/-- The number of free objects that goes with a queue.  Every `emptyq` slab has two
objects to give, so that it can pass to `freeq` as the first is taken. -/
def Level (v : Variant) (size : Nat) : Queue → Nat → Prop
  | .emptyq, n => 2 ≤ n ∧ maxObjs v size ≤ n
  | .freeq, n => 1 ≤ n ∧ (maxObjs v size = slabobjs v size → n < slabobjs v size)
  | .fullq, n => n = 0

/-- The queues of a cache, given its slabs and their numbers of free objects. -/
structure CacheInv (v : Variant) (sc : Cache) (S : Set Nat) (f : Nat → Nat) : Prop where
  filed : Filed sc.q S
  cnt : ∀ i, sc.cnt i = (sc.q i).length
  level : ∀ i, ∀ k ∈ sc.q i, Level v sc.objsize i (f k)

namespace CacheInv

variable {i j : Queue}

/-- A slab whose free objects change within its level stays where it is. -/
theorem stay (h : CacheInv v sc S f) (hfg : ∀ k' ∈ S, k' ≠ k → g k' = f k')
    (hl : ∀ i, k ∈ sc.q i → Level v sc.objsize i (g k)) : CacheInv v sc S g where
  filed := h.filed
  cnt := h.cnt
  level i k' hk' := by
    by_cases hkk : k' = k
    · subst hkk
      exact hl i hk'
    · rw [hfg k' (h.filed.mem hk') hkk]
      exact h.level i k' hk'

/-- A slab passes from one queue to another. -/
theorem move (h : CacheInv v sc S f) (hS : ∀ k ∈ S, k < 2 ^ 31) (hk : k ∈ sc.q i)
    (hne : i ≠ j) (hfg : ∀ k' ∈ S, k' ≠ k → g k' = f k')
    (hl : Level v sc.objsize j (g k)) : CacheInv v (sc.move k i j) S g := by
  have hq : (sc.move k i j).q = Bins.insert (Bins.remove sc.q k) j k := rfl
  have hfiled : Filed (sc.move k i j).q S := h.filed.move (h.filed.mem hk) j
  refine ⟨hfiled, fun l ↦ ?_, fun l k' hk' ↦ ?_⟩
  · have hlen : ((sc.move k i j).q l).length =
        (sc.q l).length - (if l = i then 1 else 0) + if l = j then 1 else 0 := by
      rw [hq, length_insert, h.filed.length_remove hk]
    have hle := hfiled.length_le hS l
    have hle' := h.filed.length_le hS l
    have hpos : 0 < (sc.q i).length := List.length_pos_of_mem hk
    rw [hlen] at hle ⊢
    simp only [Cache.move, Cache.incr, Cache.decr, Cache.insert, Cache.remove]
    by_cases hlj : l = j
    · subst hlj
      have hli : ¬ l = i := fun he ↦ hne he.symm
      rw [Function.update_self, Function.update_of_ne hli, if_neg hli, if_pos rfl, h.cnt]
      rw [if_neg hli, if_pos rfl] at hle
      exact inc_eq (by omega)
    · rw [Function.update_of_ne hlj, if_neg hlj]
      by_cases hli : l = i
      · subst hli
        rw [Function.update_self, if_pos rfl, h.cnt]
        exact dec_eq hpos (by omega)
      · rw [Function.update_of_ne hli, if_neg hli, h.cnt]
        rfl
  · rw [hq, mem_insert, h.filed.mem_remove] at hk'
    obtain ⟨rfl, rfl⟩ | ⟨hkk, hk'⟩ := hk'
    · exact hl
    · rw [hfg k' (h.filed.mem hk') hkk]
      exact h.level l k' hk'

/-- A new slab joins `emptyq`. -/
theorem grow (h : CacheInv v sc S f) (hS : ∀ k ∈ S, k < 2 ^ 31) (hk : k ∉ S) (hb : k < 2 ^ 31)
    (hfg : ∀ k' ∈ S, g k' = f k') (hl : Level v sc.objsize .emptyq (g k)) :
    CacheInv v ((sc.insert .emptyq k).incr .emptyq) (insert k S) g := by
  have hq : ((sc.insert .emptyq k).incr .emptyq).q = Bins.insert sc.q .emptyq k := rfl
  have hfiled := h.filed.insert hk .emptyq
  refine ⟨hfiled, fun l ↦ ?_, fun l k' hk' ↦ ?_⟩
  · have hS' : ∀ k' ∈ insert k S, k' < 2 ^ 31 := by
      rintro k' (rfl | hk')
      · exact hb
      · exact hS k' hk'
    have hle := hfiled.length_le hS' l
    rw [hq]
    rw [length_insert] at hle ⊢
    simp only [Cache.incr, Cache.insert]
    by_cases hl : l = .emptyq
    · subst hl
      rw [Function.update_self, if_pos rfl, h.cnt]
      rw [if_pos rfl] at hle
      exact inc_eq (by omega)
    · rw [Function.update_of_ne hl, if_neg hl, h.cnt]
      rfl
  · rw [hq, mem_insert] at hk'
    obtain ⟨rfl, rfl⟩ | hk' := hk'
    · exact hl
    · rw [hfg k' (h.filed.mem hk')]
      exact h.level l k' hk'

/-- A slab of `emptyq` leaves the cache. -/
theorem shrink (h : CacheInv v sc S f) (hS : ∀ k ∈ S, k < 2 ^ 31) (hk : k ∈ sc.q .emptyq) :
    CacheInv v ((sc.remove k).decr .emptyq) (S \ {k}) f := by
  have hq : ((sc.remove k).decr .emptyq).q = Bins.remove sc.q k := rfl
  refine ⟨h.filed.remove k, fun l ↦ ?_, fun l k' hk' ↦ ?_⟩
  · have hle := h.filed.length_le hS l
    rw [hq, h.filed.length_remove hk]
    simp only [Cache.decr, Cache.remove]
    by_cases hl : l = .emptyq
    · subst hl
      rw [Function.update_self, if_pos rfl, h.cnt]
      exact dec_eq (List.length_pos_of_mem hk) (by omega)
    · rw [Function.update_of_ne hl, if_neg hl, h.cnt]
      rfl
  · rw [hq] at hk'
    exact h.level l k' (mem_of_mem_remove hk')

/-- Two descriptions of the same slabs. -/
theorem congr (h : CacheInv v sc S f) (hfg : ∀ k ∈ S, g k = f k) : CacheInv v sc S g where
  filed := h.filed
  cnt := h.cnt
  level i k hk := by
    rw [hfg k (h.filed.mem hk)]
    exact h.level i k hk

end CacheInv

/-! ## All caches -/

/-- The slabs of a cache. -/
def Mem.slabsOf {φ : Type} (s : Mem φ) (c : Nat) : Set Nat :=
  {k | k ∈ s.slabs ∧ (s.hdr k).cache = c}

/-- The size of the objects of a slab. -/
def Mem.size {φ : Type} (s : Mem φ) (k : Nat) : Nat := (s.cache (s.hdr k).cache).objsize

/-- The numbers of free objects of the slabs. -/
def Mem.freecnt {φ : Type} (s : Mem φ) (k : Nat) : Nat := (s.hdr k).freecnt

/-- The state after a call that changes the header of one slab, its cache's queues and the liveness
of its objects. -/
def Mem.put (s : Mem) (k : Nat) (sh : Hdr) (sc : Cache) (live : Finset Nat) : Mem where
  cache := Function.update s.cache (s.hdr k).cache sc
  hdr := Function.update s.hdr k sh
  slabs := s.slabs
  live := live

/-- Such a call changes neither the sizes of objects nor whose the slabs are. -/
theorem Mem.put_same (s : Mem) {sh : Hdr} (hc : sh.cache = (s.hdr k).cache)
    (hsz : sc.objsize = s.size k) (live : Finset Nat) :
    (∀ c, ((s.put k sh sc live).cache c).objsize = (s.cache c).objsize) ∧
    (∀ k', (s.put k sh sc live).size k' = s.size k') ∧
    (∀ c, (s.put k sh sc live).slabsOf c = s.slabsOf c) ∧
    (s.put k sh sc live).freecnt = Function.update s.freecnt k sh.freecnt := by
  have hobjsize : ∀ c, ((s.put k sh sc live).cache c).objsize = (s.cache c).objsize := by
    intro c
    by_cases hcc : c = (s.hdr k).cache
    · subst hcc
      simpa [Mem.put, Mem.size] using hsz
    · simp [Mem.put, hcc]
  have hcache : ∀ k', ((s.put k sh sc live).hdr k').cache = (s.hdr k').cache := by
    intro k'
    by_cases hkk : k' = k
    · subst hkk
      simpa [Mem.put] using hc
    · simp [Mem.put, hkk]
  refine ⟨hobjsize, fun k' ↦ ?_, fun c ↦ ?_, ?_⟩
  · rw [Mem.size, Mem.size, hcache, hobjsize]
  · ext k'
    show k' ∈ s.slabs ∧ ((s.put k sh sc live).hdr k').cache = c ↔
      k' ∈ s.slabs ∧ (s.hdr k').cache = c
    rw [hcache]
  · funext k'
    by_cases hkk : k' = k
    · subst hkk
      simp [Mem.freecnt, Mem.put]
    · simp [Mem.freecnt, Mem.put, hkk]

/-- What `grow` does with the block `k`: its header is new, and it is the first slab of `emptyq`. -/
structure Grown (v : Variant) (s : Mem) (c k : Nat) (t : Mem) : Prop where
  slabs : t.slabs = Insert.insert k s.slabs
  live : t.live = s.live
  new : t.hdr k = growHdr v c (s.cache c).objsize k
  old : ∀ k' ∈ s.slabs, t.hdr k' = s.hdr k'
  cache : t.cache c = ((s.cache c).insert .emptyq k).incr .emptyq
  other : ∀ c' ≠ c, t.cache c' = s.cache c'

theorem grown (hk : k ∉ s.slabs) (hg : Slab.grow v s c (some k) = .ok t) : Grown v s c k t := by
  rw [← Except.ok.inj hg]
  refine ⟨rfl, rfl, ?_, fun k' hk' ↦ ?_, ?_, fun c' hcc ↦ ?_⟩
  · exact Function.update_self ..
  · refine Function.update_of_ne ?_ ..
    rintro rfl
    exact hk hk'
  · exact Function.update_self ..
  · exact Function.update_of_ne hcc ..

namespace Grown

variable {c' k' : Nat}

theorem mem (h : Grown v s c k t) : k' ∈ t.slabs ↔ k' = k ∨ k' ∈ s.slabs := by
  rw [h.slabs]
  exact Finset.mem_insert

theorem objsize (h : Grown v s c k t) (c' : Nat) : (t.cache c').objsize = (s.cache c').objsize := by
  by_cases hcc : c' = c
  · rw [hcc, h.cache]
    rfl
  · rw [h.other c' hcc]

theorem size_new (h : Grown v s c k t) : t.size k = (s.cache c).objsize := by
  rw [Mem.size, h.new]
  exact h.objsize c

theorem size_old (h : Grown v s c k t) (hk' : k' ∈ s.slabs) : t.size k' = s.size k' := by
  rw [Mem.size, Mem.size, h.old k' hk', h.objsize]

theorem freecnt_new (h : Grown v s c k t) : t.freecnt k = slabobjs v (s.cache c).objsize := by
  rw [Mem.freecnt, h.new]
  rfl

theorem freecnt_old (h : Grown v s c k t) (hk' : k' ∈ s.slabs) : t.freecnt k' = s.freecnt k' := by
  rw [Mem.freecnt, Mem.freecnt, h.old k' hk']

/-- The slab is one of its cache. -/
theorem slabsOf_self (h : Grown v s c k t) : t.slabsOf c = Insert.insert k (s.slabsOf c) := by
  ext k'
  constructor
  · rintro ⟨hm, hc⟩
    rcases h.mem.1 hm with rfl | hm
    · exact .inl rfl
    · exact .inr ⟨hm, by rwa [← h.old k' hm]⟩
  · rintro (rfl | ⟨hm, hc⟩)
    · exact ⟨h.mem.2 (.inl rfl), by rw [h.new]; rfl⟩
    · exact ⟨h.mem.2 (.inr hm), by rwa [h.old k' hm]⟩

/-- It is not one of the others. -/
theorem slabsOf_of_ne (h : Grown v s c k t) (hcc : c' ≠ c) : t.slabsOf c' = s.slabsOf c' := by
  ext k'
  constructor
  · rintro ⟨hm, hc⟩
    rcases h.mem.1 hm with rfl | hm
    · rw [h.new] at hc
      exact absurd hc.symm hcc
    · exact ⟨hm, by rwa [← h.old k' hm]⟩
  · rintro ⟨hm, hc⟩
    exact ⟨h.mem.2 (.inr hm), by rwa [h.old k' hm]⟩

end Grown

/-- The invariant, for caches registered with object sizes `sz`. -/
structure Inv (v : Variant) (sz : Nat → Nat) (s : Mem) : Prop where
  size : ∀ c, (s.cache c).objsize = sz c
  objs : ∀ c, 2 ≤ slabobjs v (s.cache c).objsize
  slab : ∀ k ∈ s.slabs, k ≠ 0 ∧ (k + 1) * slabsize v ≤ 2 ^ 32
  cache : ∀ c, CacheInv v (s.cache c) (s.slabsOf c) s.freecnt
  hdr : ∀ k ∈ s.slabs, HdrInv v (s.size k) s.live k (s.hdr k)
  live : ∀ x ∈ s.live, ∃ k ∈ s.slabs, x ∈ objects v (s.size k) k

/-- Freshly registered caches. -/
theorem Inv.init {reg : Nat → Reg} (h : ∀ c, 2 ≤ slabobjs v (reg c).size) :
    Inv v (fun c ↦ (reg c).size) (Mem.init reg) where
  size _ := rfl
  objs := h
  slab k hk := absurd hk (Finset.notMem_empty k)
  cache c := by
    have hS : (Mem.init reg : Mem).slabsOf c = ∅ := by simp [Mem.slabsOf, Mem.init]
    rw [hS]
    exact ⟨filed_nil, fun _ ↦ rfl, fun i k hk ↦ absurd hk List.not_mem_nil⟩
  hdr k hk := absurd hk (Finset.notMem_empty k)
  live x hx := absurd hx (Finset.notMem_empty x)

namespace Inv

theorem size_pos (h : Inv v sz s) (k : Nat) : 0 < s.size k := Slab.size_pos (h.objs _)

theorem slab_lt (h : Inv v sz s) (hk : k ∈ s.slabs) : k < 2 ^ 31 := by
  have hb := (h.slab k hk).2
  have hm : (k + 1) * (16 * 1024) ≤ (k + 1) * slabsize v :=
    Nat.mul_le_mul_left _ slabsize_bound.1
  omega

theorem slabsOf_lt (h : Inv v sz s) (c : Nat) : ∀ k ∈ s.slabsOf c, k < 2 ^ 31 :=
  fun _ hk ↦ h.slab_lt hk.1

/-- A live object is an object of the slab its address lies in. -/
theorem mem_of_live (h : Inv v sz s) (hx : ptr ∈ s.live) :
    ptr / slabsize v ∈ s.slabs ∧
      ptr ∈ objects v (s.size (ptr / slabsize v)) (ptr / slabsize v) := by
  obtain ⟨k, hk, hobj⟩ := h.live ptr hx
  rw [div_of_mem_objects (h.size_pos k) hobj]
  exact ⟨hk, hobj⟩

end Inv

/-- The objects of the slabs do not overlap. -/
theorem Mem.objects_apart {φ : Type} (s : Mem φ) {x y k' : Nat} (hx : x ∈ objects v (s.size k) k)
    (hy : y ∈ objects v (s.size k') k') (hlt : x < y) : x + s.size k ≤ y := by
  by_cases hk : k' = k
  · subst hk
    exact Slab.objects_apart hx hy hlt
  · exact objects_apart_of_ne hx hy hk hlt

namespace Inv

/-- A call that changes the header of one slab, its cache's queues and the liveness
of its objects only. -/
theorem update (h : Inv v sz s) (hk : k ∈ s.slabs) {sh : Hdr} {sc : Cache} {live : Finset Nat}
    (hc : sh.cache = (s.hdr k).cache) (hsz : sc.objsize = s.size k)
    (hci : CacheInv v sc (s.slabsOf (s.hdr k).cache) (Function.update s.freecnt k sh.freecnt))
    (hh : HdrInv v (s.size k) live k sh)
    (hl : ∀ x ∉ objects v (s.size k) k, x ∈ live ↔ x ∈ s.live) :
    Inv v sz (s.put k sh sc live) := by
  obtain ⟨hobjsize, hsize, hslabs, hfree⟩ := s.put_same hc hsz live
  refine ⟨fun c ↦ (hobjsize c).trans (h.size c), fun c ↦ ?_, h.slab, fun c ↦ ?_,
    fun k' hk' ↦ ?_, fun x hx ↦ ?_⟩
  · rw [hobjsize]
    exact h.objs c
  · rw [hslabs, hfree]
    by_cases hcc : c = (s.hdr k).cache
    · subst hcc
      simpa [Mem.put] using hci
    · have he : (s.put k sh sc live).cache c = s.cache c := by simp [Mem.put, hcc]
      rw [he]
      refine (h.cache c).congr fun k' hk' ↦ Function.update_of_ne ?_ _ _
      rintro rfl
      exact hcc hk'.2.symm
  · rw [hsize]
    by_cases hkk : k' = k
    · subst hkk
      simpa [Mem.put] using hh
    · have he : (s.put k sh sc live).hdr k' = s.hdr k' := by simp [Mem.put, hkk]
      rw [he]
      refine (h.hdr k' hk').congr fun x hx ↦ hl x fun hx' ↦ hkk ?_
      rw [← div_of_mem_objects (h.size_pos k') hx, ← div_of_mem_objects (h.size_pos k) hx']
  · by_cases hx' : x ∈ objects v (s.size k) k
    · refine ⟨k, hk, ?_⟩
      rwa [hsize]
    · obtain ⟨k', hk', ho⟩ := h.live x ((hl x hx').1 hx)
      refine ⟨k', hk', ?_⟩
      rwa [hsize]

/-! ## The calls keep the invariant -/

/-- Every object of a slab that is not in use is not live. -/
theorem not_live_of_fresh (h : Inv v sz s) (hk : k ∉ s.slabs) {size x : Nat} (hs : 0 < size)
    (hx : x ∈ objects v size k) : x ∉ s.live := by
  intro hlive
  have hm := (h.mem_of_live hlive).1
  rw [div_of_mem_objects hs hx] at hm
  exact hk hm

/-- `grow` with a fresh block. -/
theorem grow (h : Inv v sz s) (c : Nat) (hf : Fresh v s [k])
    (hg : Slab.grow v s c (some k) = .ok t) : Inv v sz t := by
  have hk : k ∉ s.slabs := hf.unused k (List.mem_singleton_self k)
  have hb := hf.bound k (List.mem_singleton_self k)
  have hg := grown hk hg
  refine ⟨fun c' ↦ (hg.objsize c').trans (h.size c'), fun c' ↦ ?_, fun k' hk' ↦ ?_, fun c' ↦ ?_,
    fun k' hk' ↦ ?_, fun x hx ↦ ?_⟩
  · rw [hg.objsize]
    exact h.objs c'
  · rcases hg.mem.1 hk' with rfl | hk'
    · exact ⟨hf.ne_zero k' (List.mem_singleton_self k'), hb⟩
    · exact h.slab k' hk'
  · by_cases hcc : c' = c
    · subst hcc
      rw [hg.slabsOf_self, hg.cache]
      refine (h.cache c').grow (h.slabsOf_lt c') (fun hm ↦ hk hm.1) ?_
        (fun k' hm ↦ hg.freecnt_old hm.1) ?_
      · have hm : (k + 1) * (16 * 1024) ≤ (k + 1) * slabsize v :=
          Nat.mul_le_mul_left _ slabsize_bound.1
        omega
      · rw [hg.freecnt_new]
        exact ⟨h.objs c', maxObjs_le v _⟩
    · rw [hg.slabsOf_of_ne hcc, hg.other c' hcc]
      exact (h.cache c').congr fun k' hk' ↦ hg.freecnt_old hk'.1
  · rw [hg.live]
    by_cases hkk : k' = k
    · subst hkk
      have hs := Slab.size_pos (h.objs c)
      rw [hg.size_new, hg.new]
      exact HdrInv.grow hs (fun x hx ↦ h.not_live_of_fresh hk hs hx) c
    · have hm := (hg.mem.1 hk').resolve_left hkk
      rw [hg.size_old hm, hg.old k' hm]
      exact h.hdr k' hm
  · rw [hg.live] at hx
    obtain ⟨k', hk', ho⟩ := h.live x hx
    refine ⟨k', hg.mem.2 (.inr hk'), ?_⟩
    rwa [hg.size_old hk']

end Inv

end Mh.Slab
