import Mh.Slab.Calls
import Mh.Sysboot.Model

/-!
# What the slab allocator gives back

`shrink` and `deregister` take slabs off their queues and pass each header to `___slabfree`.  Here
the blocks of memory that this gives back are kept, as the numbers of slabs of the right size at
their addresses.

The header of a structure slab is at the start of its block, and the block is given back.  The
header of a slab of fixed memory is in the page database, so `___slabfree` gives back a page of the
database (`Granted.slabfree_ne`).  The blocks are the right ones exactly when slabs are structures
or none is taken off (`slab_release_iff`).

Nothing is asked of the number of objects in a slab, so the invariant is less than `Inv`: it leaves
the counters out.
-/

namespace Mh.Slab

open Mh.Lib Mh.Lib.Bins

/-! ## Headers and blocks -/

/-- `pfndb` and `pfndb_max`: where the page database is and how many entries it has. -/
structure Pfndb where
  addr : Nat
  max : Nat

/-- The number of the slab at `ptova(0)`. -/
def kernSlab : Nat := Sysboot.ukernBase / pageSize

/-- `pfndb_getptr`: an entry is its type, in one byte, and the rest. -/
def pfndbGetptr (d : Pfndb) (pfn : Nat) : Nat := d.addr + pfn * Sysboot.ipfnSize + 1

/-- The address of the header of slab `k`, as `___slaballoc` returns it. -/
def hdrAddr (d : Pfndb) : Variant → Nat → Nat
  | .fixmem, k => pfndbGetptr d (k - kernSlab)
  | .structs, k => k * slabsize .structs

/-- `___slabfree`: the page, or the block of 16K, at the address. -/
def slabfree (v : Variant) (addr : Nat) : Nat := addr / slabsize v

/-- An iteration of the loops of `shrink` and `deregister`: a slab leaves its queue, `shrink` counts
it, and its header is passed to `___slabfree`. -/
def releaseOne (v : Variant) (d : Pfndb) (dec : Bool) (c k : Nat) (s : Mem) : Mem :=
  let sc := (s.cache c).remove k
  { s.setCache c (if dec then sc.decr .emptyq else sc) with
    slabs := s.slabs.erase (slabfree v (hdrAddr d v k)) }

theorem releaseOne_q (v : Variant) (d : Pfndb) (dec : Bool) (c k : Nat) (s : Mem) :
    ((releaseOne v d dec c k s).cache c).q = Bins.remove (s.cache c).q k := by
  cases dec with
  | false => simp [releaseOne, Mem.setCache, Cache.remove]
  | true => simp [releaseOne, Mem.setCache, Cache.remove, Cache.decr]

/-- A loop over the slabs of a queue, with the blocks that are given back. -/
def drain (v : Variant) (d : Pfndb) (dec : Bool) (c : Nat) (i : Queue) (s : Mem) :
    List Nat × Mem :=
  match _h : (s.cache c).q i with
  | [] => ([], s)
  | k :: _ =>
      let r := drain v d dec c i (releaseOne v d dec c k s)
      (slabfree v (hdrAddr d v k) :: r.1, r.2)
termination_by ((s.cache c).q i).length
decreasing_by
  rw [releaseOne_q]
  simp [Bins.remove, _h]

/-- `shrink`. -/
def shrink (v : Variant) (d : Pfndb) (s : Mem) (c : Nat) : List Nat × Mem :=
  drain v d true c .emptyq s

/-- `deregister`.  The objects of its slabs are no longer anybody's. -/
def deregister (v : Variant) (d : Pfndb) (s : Mem) (c : Nat) : List Nat × Mem :=
  let r₁ := drain v d false c .emptyq s
  let r₂ := drain v d false c .freeq r₁.2
  let r₃ := drain v d false c .fullq r₂.2
  (r₁.1 ++ r₂.1 ++ r₃.1, { r₃.2 with live := s.live.filter fun x ↦ x / slabsize v ∈ r₃.2.slabs })

/-! ## Runs -/

/-- The calls.  A `struct slab` that has been deregistered is not used before it is registered
again, so the two are one step. -/
inductive RelOp
  | alloc (c : Nat) (ks : List Nat)
  | free (ptr : Nat)
  | grow (c : Nat) (k : Option Nat)
  | shrink (c : Nat)
  | deregister (c : Nat) (r : Reg)

/-- What the page allocator promises: its pages have an entry in the database and hold none of
it. -/
def Granted (v : Variant) (d : Pfndb) (k : Nat) : Prop :=
  v = .fixmem → kernSlab ≤ k ∧ k - kernSlab < d.max ∧
    ¬(d.addr / pageSize ≤ k ∧ k ≤ (d.addr + d.max * Sysboot.ipfnSize) / pageSize)

/-- What a client frees is live, and `___slaballoc` answers with memory that is not in use.  The
objects of a cache that is registered again have room for the link of their free list. -/
def RelAllowed (v : Variant) (d : Pfndb) (s : Mem) : RelOp → Prop
  | .alloc _ ks => Fresh v s ks ∧ ∀ k ∈ ks, Granted v d k
  | .free ptr => ptr ∈ s.live
  | .grow _ k => Fresh v s k.toList ∧ ∀ k' ∈ k.toList, Granted v d k'
  | .shrink _ => True
  | .deregister _ r => r.LinkFits

/-- One call. -/
def relExec (v : Variant) (d : Pfndb) (s : Mem) : RelOp → Except Panic Mem
  | .alloc c ks => (allocOpq v s c ks).map Prod.snd
  | .free ptr => free v s ptr
  | .grow c k => grow v s c k
  | .shrink c => .ok (shrink v d s c).2
  | .deregister c r => .ok ((deregister v d s c).2.setCache c (.register r))

/-- What should be given back when slabs are taken off the queues of a cache: these slabs, each
once, and nothing that was not obtained. -/
structure Returned (s t : Mem) (c : Nat) (blocks : List Nat) : Prop where
  nodup : blocks.Nodup
  removed : ∀ k, k ∈ blocks ↔
    (∃ i, k ∈ (s.cache c).q i) ∧ ∀ i, k ∉ (t.cache c).q i
  obtained : ∀ k ∈ blocks, k ∈ s.slabs

/-- A call gives back what it should. -/
def ReleaseOk (v : Variant) (d : Pfndb) (s : Mem) : RelOp → Prop
  | .shrink c => Returned s (shrink v d s c).2 c (shrink v d s c).1
  | .deregister c _ => Returned s (deregister v d s c).2 c (deregister v d s c).1
  | _ => True

/-- The slabs are structures, or the call finds none to give back. -/
def ReleaseSafe (v : Variant) (s : Mem) : RelOp → Prop
  | .shrink c => v = .structs ∨ (s.cache c).q .emptyq = []
  | .deregister c _ => v = .structs ∨ ∀ i, (s.cache c).q i = []
  | _ => True

/-- A call that returns, and that gives slabs back only if they are structures. -/
def RelStep (v : Variant) (d : Pfndb) (s : Mem) (op : RelOp) (s' : Mem) : Prop :=
  RelAllowed v d s op ∧ ReleaseSafe v s op ∧ relExec v d s op = .ok s'

/-! ## Draining a queue -/

section Drain

variable {v : Variant} {d : Pfndb} {dec : Bool} {c k : Nat} {i : Queue} {s : Mem} {S : Set Nat}

theorem drain_nil (h : (s.cache c).q i = []) : drain v d dec c i s = ([], s) := by
  rw [drain.eq_def]
  split
  · rfl
  · rename_i hq
    rw [h] at hq
    cases hq

theorem drain_cons {l : List Nat} (h : (s.cache c).q i = k :: l) :
    drain v d dec c i s =
      (slabfree v (hdrAddr d v k) :: (drain v d dec c i (releaseOne v d dec c k s)).1,
        (drain v d dec c i (releaseOne v d dec c k s)).2) := by
  rw [drain.eq_def]
  split
  · rename_i hq
    rw [h] at hq
    cases hq
  · rename_i hq
    rw [h] at hq
    cases hq
    rfl

/-- The blocks are those of the slabs of the queue, in order. -/
theorem drain_fst (v : Variant) (d : Pfndb) (dec : Bool) (c : Nat) (i : Queue) (s : Mem) :
    (drain v d dec c i s).1 = ((s.cache c).q i).map fun k ↦ slabfree v (hdrAddr d v k) := by
  generalize hq : (s.cache c).q i = l
  induction l generalizing s with
  | nil =>
      rw [drain_nil hq]
      rfl
  | cons k l ih =>
      rw [drain_cons hq, List.map_cons, ih]
      rw [releaseOne_q, Bins.remove, hq, List.erase_cons_head]

/-- The queue is empty afterwards, and the others are as before. -/
theorem drain_q (hf : Filed (s.cache c).q S) :
    ((drain v d dec c i s).2.cache c).q = Function.update (s.cache c).q i [] := by
  generalize hq : (s.cache c).q i = l
  induction l generalizing s S with
  | nil => rw [drain_nil hq, ← hq, Function.update_eq_self]
  | cons k l ih =>
      have hk : k ∈ (s.cache c).q i := hq ▸ List.mem_cons_self
      have hf' : Filed ((releaseOne v d dec c k s).cache c).q (S \ {k}) := by
        rw [releaseOne_q]
        exact hf.remove k
      have hq' : ((releaseOne v d dec c k s).cache c).q i = l := by
        rw [releaseOne_q, Bins.remove, hq, List.erase_cons_head]
      rw [drain_cons hq]
      dsimp only
      rw [ih hf' hq', releaseOne_q]
      funext j
      by_cases hj : j = i
      · subst hj
        rw [Function.update_self, Function.update_self]
      · rw [Function.update_of_ne hj, Function.update_of_ne hj]
        exact List.erase_of_not_mem fun hm ↦ hj (hf.inj hm hk)

/-- What draining a queue leaves alone. -/
theorem drain_frame (v : Variant) (d : Pfndb) (dec : Bool) (c : Nat) (i : Queue) (s : Mem) :
    (drain v d dec c i s).2.hdr = s.hdr ∧ (drain v d dec c i s).2.live = s.live ∧
      ((drain v d dec c i s).2.cache c).objsize = (s.cache c).objsize ∧
      ∀ c' ≠ c, (drain v d dec c i s).2.cache c' = s.cache c' := by
  generalize hq : (s.cache c).q i = l
  induction l generalizing s with
  | nil =>
      rw [drain_nil hq]
      exact ⟨rfl, rfl, rfl, fun _ _ ↦ rfl⟩
  | cons k l ih =>
      have hq' : ((releaseOne v d dec c k s).cache c).q i = l := by
        rw [releaseOne_q, Bins.remove, hq, List.erase_cons_head]
      obtain ⟨h₁, h₂, h₃, h₄⟩ := ih _ hq'
      rw [drain_cons hq]
      refine ⟨h₁, h₂, h₃.trans ?_, fun c' hc ↦ (h₄ c' hc).trans ?_⟩
      · cases dec with
        | false => simp [releaseOne, Mem.setCache, Cache.remove]
        | true => simp [releaseOne, Mem.setCache, Cache.remove, Cache.decr]
      · simp [releaseOne, Mem.setCache, hc]

/-- Where each slab's own block is given back, the slabs of the queue are no longer held. -/
theorem drain_slabs (hback : ∀ k ∈ (s.cache c).q i, slabfree v (hdrAddr d v k) = k) :
    (drain v d dec c i s).2.slabs = s.slabs \ ((s.cache c).q i).toFinset := by
  generalize hq : (s.cache c).q i = l at hback
  induction l generalizing s with
  | nil =>
      rw [drain_nil hq]
      exact (Finset.sdiff_empty).symm
  | cons k l ih =>
      have hq' : ((releaseOne v d dec c k s).cache c).q i = l := by
        rw [releaseOne_q, Bins.remove, hq, List.erase_cons_head]
      rw [drain_cons hq]
      dsimp only
      rw [ih hq' fun k' hk' ↦ hback k' (List.mem_cons_of_mem k hk')]
      show s.slabs.erase (slabfree v (hdrAddr d v k)) \ l.toFinset = _
      rw [hback k List.mem_cons_self, List.toFinset_cons]
      ext x
      simp only [Finset.mem_sdiff, Finset.mem_erase, Finset.mem_insert, not_or]
      tauto

/-- Draining a queue, where each slab's own block is given back. -/
theorem drained (dec : Bool) (hf : Filed (s.cache c).q S)
    (hback : ∀ k ∈ (s.cache c).q i, slabfree v (hdrAddr d v k) = k) :
    (drain v d dec c i s).1 = (s.cache c).q i ∧
      ((drain v d dec c i s).2.cache c).q = Function.update (s.cache c).q i [] ∧
      (drain v d dec c i s).2.slabs = s.slabs \ ((s.cache c).q i).toFinset ∧
      (drain v d dec c i s).2.hdr = s.hdr ∧
      ∀ c' ≠ c, (drain v d dec c i s).2.cache c' = s.cache c' := by
  obtain ⟨hh, -, -, ho⟩ := drain_frame v d dec c i s
  refine ⟨?_, drain_q hf, drain_slabs hback, hh, ho⟩
  rw [drain_fst, List.map_congr_left hback, List.map_id']

end Drain

/-- The header of a structure slab is its block. -/
theorem slabfree_structs (d : Pfndb) (k : Nat) : slabfree .structs (hdrAddr d .structs k) = k :=
  Nat.mul_div_cancel k slabsize_pos

/-- The page that `___slabfree` gives back for a slab of fixed memory holds some of the database. -/
theorem Granted.slabfree_ne {d : Pfndb} {k j : Nat} (h : Granted .fixmem d k)
    (hj : Granted .fixmem d j) : slabfree .fixmem (hdrAddr d .fixmem j) ≠ k := by
  obtain ⟨-, -, hout⟩ := h rfl
  obtain ⟨-, hlt, -⟩ := hj rfl
  have hmul : (j - kernSlab + 1) * Sysboot.ipfnSize ≤ d.max * Sysboot.ipfnSize :=
    Nat.mul_le_mul_right _ hlt
  rw [Nat.succ_mul] at hmul
  intro he
  refine hout ⟨?_, ?_⟩
  · rw [← he]
    exact Nat.div_le_div_right (by rw [hdrAddr, pfndbGetptr]; omega)
  · rw [← he]
    refine Nat.div_le_div_right ?_
    rw [hdrAddr, pfndbGetptr]
    have h1 : 1 ≤ Sysboot.ipfnSize := by decide
    omega

/-! ## The invariant -/

/-- What is always so: the queues of a cache hold exactly its slabs, free lists and live objects
fit, and the structure slabs of `emptyq` have no live object. -/
structure Held (v : Variant) (d : Pfndb) (s : Mem) : Prop where
  pos : ∀ c, 0 < (s.cache c).objsize
  granted : ∀ k ∈ s.slabs, Granted v d k
  filed : ∀ c, Filed (s.cache c).q (s.slabsOf c)
  hdr : ∀ k ∈ s.slabs, HdrInv v (s.size k) s.live k (s.hdr k)
  live : ∀ x ∈ s.live, ∃ k ∈ s.slabs, x ∈ objects v (s.size k) k
  unused : v = .structs → ∀ c, ∀ k ∈ (s.cache c).q .emptyq,
    s.freecnt k = slabobjs v (s.cache c).objsize

section Held

variable {v : Variant} {d : Pfndb} {s t : Mem} {c k ptr : Nat} {r : Reg}

theorem Reg.LinkFits.size_pos {r : Reg} (h : r.LinkFits) : 0 < r.size :=
  Nat.lt_of_lt_of_le (by decide) h

theorem Held.init (v : Variant) (d : Pfndb) {reg : Nat → Reg} (hreg : ∀ c, (reg c).LinkFits) :
    Held v d (Mem.init reg) where
  pos c := (hreg c).size_pos
  granted k hk := absurd hk (Finset.notMem_empty k)
  filed c := by
    have hS : (Mem.init reg : Mem).slabsOf c = ∅ := by simp [Mem.slabsOf, Mem.init]
    rw [hS]
    exact filed_nil
  hdr k hk := absurd hk (Finset.notMem_empty k)
  live x hx := absurd hx (Finset.notMem_empty x)
  unused _ c k hk := absurd hk List.not_mem_nil

namespace Held

/-- A live object is an object of the slab its address lies in. -/
theorem mem_of_live (h : Held v d s) (hx : ptr ∈ s.live) :
    ptr / slabsize v ∈ s.slabs ∧
      ptr ∈ objects v (s.size (ptr / slabsize v)) (ptr / slabsize v) := by
  obtain ⟨k, hk, hobj⟩ := h.live ptr hx
  rw [div_of_mem_objects (h.pos _) hobj]
  exact ⟨hk, hobj⟩

/-- Slabs leave a cache, and so do their objects. -/
theorem drop (h : Held v d s) {R : Finset Nat} (hR : ∀ k ∈ R, k ∈ s.slabsOf c)
    (hhdr : t.hdr = s.hdr) (hslabs : t.slabs = s.slabs \ R)
    (hlive : ∀ x, x ∈ t.live ↔ x ∈ s.live ∧ x / slabsize v ∉ R)
    (hother : ∀ c' ≠ c, t.cache c' = s.cache c') (hpos : 0 < (t.cache c).objsize)
    (hfiled : Filed (t.cache c).q (s.slabsOf c \ R))
    (hsize : (∃ k ∈ s.slabsOf c, k ∉ R) → (t.cache c).objsize = (s.cache c).objsize)
    (hunused : v = .structs → ∀ k ∈ (t.cache c).q .emptyq,
      s.freecnt k = slabobjs v (t.cache c).objsize) : Held v d t := by
  have hmem : ∀ k, k ∈ t.slabs ↔ k ∈ s.slabs ∧ k ∉ R := fun k ↦ by
    rw [hslabs, Finset.mem_sdiff]
  have hof : ∀ c', t.slabsOf c' = s.slabsOf c' \ R := by
    intro c'
    ext k
    show k ∈ t.slabs ∧ (t.hdr k).cache = c' ↔ (k ∈ s.slabs ∧ (s.hdr k).cache = c') ∧ k ∉ R
    rw [hmem, hhdr]
    tauto
  have hsz : ∀ k ∈ t.slabs, t.size k = s.size k := by
    intro k hk
    obtain ⟨hks, hkR⟩ := (hmem k).1 hk
    rw [Mem.size, Mem.size, hhdr]
    by_cases hc : (s.hdr k).cache = c
    · rw [hc]
      exact hsize ⟨k, ⟨hks, hc⟩, hkR⟩
    · rw [hother _ hc]
  refine ⟨fun c' ↦ ?_, fun k hk ↦ h.granted k ((hmem k).1 hk).1, fun c' ↦ ?_, fun k hk ↦ ?_,
    fun x hx ↦ ?_, fun hv c' k hk ↦ ?_⟩
  · by_cases hc : c' = c
    · rw [hc]
      exact hpos
    · rw [hother c' hc]
      exact h.pos c'
  · rw [hof]
    by_cases hc : c' = c
    · rw [hc]
      exact hfiled
    · have hno : s.slabsOf c' \ (R : Set Nat) = s.slabsOf c' := by
        refine sdiff_eq_left.2 (Set.disjoint_left.2 fun k hk hkR ↦ hc ?_)
        rw [← hk.2, (hR k hkR).2]
      rw [hno, hother c' hc]
      exact h.filed c'
  · obtain ⟨hks, hkR⟩ := (hmem k).1 hk
    rw [hsz k hk, hhdr]
    refine (h.hdr k hks).congr fun x hx ↦ ?_
    rw [hlive, div_of_mem_objects (h.pos _) hx]
    exact and_iff_left hkR
  · obtain ⟨hxs, hxR⟩ := (hlive x).1 hx
    obtain ⟨hk, hobj⟩ := h.mem_of_live hxs
    have hkt := (hmem _).2 ⟨hk, hxR⟩
    exact ⟨_, hkt, by rwa [hsz _ hkt]⟩
  · have hf : t.freecnt k = s.freecnt k := by rw [Mem.freecnt, hhdr]; rfl
    rw [hf]
    by_cases hc : c' = c
    · subst hc
      exact hunused hv k hk
    · rw [hother c' hc] at hk ⊢
      exact h.unused hv c' k hk

/-- A call that changes the header of one slab, its cache's queues and the liveness of its objects
only. -/
theorem update (h : Held v d s) (hk : k ∈ s.slabs) {sh : Hdr} {sc : Cache} {live : Finset Nat}
    (hc : sh.cache = (s.hdr k).cache) (hsz : sc.objsize = s.size k)
    (hf : Filed sc.q (s.slabsOf (s.hdr k).cache)) (hh : HdrInv v (s.size k) live k sh)
    (hl : ∀ x ∉ objects v (s.size k) k, x ∈ live ↔ x ∈ s.live)
    (hu : v = .structs → ∀ k' ∈ sc.q .emptyq,
      Function.update s.freecnt k sh.freecnt k' = slabobjs v sc.objsize) :
    Held v d (s.put k sh sc live) := by
  obtain ⟨hobjsize, hsize, hslabs, hfree⟩ := s.put_same hc hsz live
  have hsame : ∀ c ≠ (s.hdr k).cache, (s.put k sh sc live).cache c = s.cache c := fun c hcc ↦ by
    simp [Mem.put, hcc]
  have hown : (s.put k sh sc live).cache (s.hdr k).cache = sc := by simp [Mem.put]
  refine ⟨fun c ↦ ?_, h.granted, fun c ↦ ?_, fun k' hk' ↦ ?_, fun x hx ↦ ?_, fun hv c k' hk' ↦ ?_⟩
  · rw [hobjsize]
    exact h.pos c
  · rw [hslabs]
    by_cases hcc : c = (s.hdr k).cache
    · rw [hcc, hown]
      exact hf
    · rw [hsame c hcc]
      exact h.filed c
  · rw [hsize]
    by_cases hkk : k' = k
    · subst hkk
      simpa [Mem.put] using hh
    · have he : (s.put k sh sc live).hdr k' = s.hdr k' := by simp [Mem.put, hkk]
      rw [he]
      refine (h.hdr k' hk').congr fun x hx ↦ hl x fun hx' ↦ hkk ?_
      rw [← div_of_mem_objects (h.pos _) hx, ← div_of_mem_objects (h.pos _) hx']
  · by_cases hx' : x ∈ objects v (s.size k) k
    · refine ⟨k, hk, ?_⟩
      rwa [hsize]
    · obtain ⟨k', hk', ho⟩ := h.live x ((hl x hx').1 hx)
      refine ⟨k', hk', ?_⟩
      rwa [hsize]
  · rw [hfree]
    by_cases hcc : c = (s.hdr k).cache
    · rw [hcc, hown] at hk' ⊢
      exact hu hv k' hk'
    · rw [hsame c hcc] at hk' ⊢
      have hkk : k' ≠ k := by
        rintro rfl
        exact hcc ((h.filed c).mem hk').2.symm
      rw [Function.update_of_ne hkk]
      exact h.unused hv c k' hk'

/-- `grow` with a fresh block. -/
theorem grow (h : Held v d s) (hk : k ∉ s.slabs) (hg : Granted v d k)
    (ht : Slab.grow v s c (some k) = .ok t) : Held v d t := by
  have hs := h.pos c
  have ht := grown hk ht
  have hq : (t.cache c).q = Bins.insert (s.cache c).q .emptyq k := by
    rw [ht.cache]
    rfl
  have hnl : ∀ x ∈ objects v (s.cache c).objsize k, x ∉ s.live := fun x hx hxl ↦ by
    have hm := (h.mem_of_live hxl).1
    rw [div_of_mem_objects hs hx] at hm
    exact hk hm
  refine ⟨fun c' ↦ ?_, fun k' hk' ↦ ?_, fun c' ↦ ?_, fun k' hk' ↦ ?_, fun x hx ↦ ?_,
    fun hv c' k' hk' ↦ ?_⟩
  · rw [ht.objsize]
    exact h.pos c'
  · rcases ht.mem.1 hk' with rfl | hk'
    · exact hg
    · exact h.granted k' hk'
  · by_cases hcc : c' = c
    · subst hcc
      rw [ht.slabsOf_self, hq]
      exact (h.filed c').insert (fun hm ↦ hk hm.1) .emptyq
    · rw [ht.slabsOf_of_ne hcc, ht.other c' hcc]
      exact h.filed c'
  · rw [ht.live]
    by_cases hkk : k' = k
    · subst hkk
      rw [ht.size_new, ht.new]
      exact HdrInv.grow hs hnl c
    · have hm := (ht.mem.1 hk').resolve_left hkk
      rw [ht.size_old hm, ht.old k' hm]
      exact h.hdr k' hm
  · rw [ht.live] at hx
    obtain ⟨k', hk', ho⟩ := h.live x hx
    refine ⟨k', ht.mem.2 (.inr hk'), ?_⟩
    rwa [ht.size_old hk']
  · rw [ht.objsize]
    by_cases hcc : c' = c
    · subst hcc
      rw [hq, mem_insert] at hk'
      rcases hk' with ⟨-, rfl⟩ | hk'
      · exact ht.freecnt_new
      · rw [ht.freecnt_old ((h.filed c').mem hk').1]
        exact h.unused hv c' k' hk'
    · rw [ht.other c' hcc] at hk'
      rw [ht.freecnt_old ((h.filed c').mem hk').1]
      exact h.unused hv c' k' hk'

theorem mem_move {sc : Cache} {S : Set Nat} (hf : Filed sc.q S) {i j l : Queue} {k' : Nat} :
    k' ∈ (sc.move k i j).q l ↔ l = j ∧ k' = k ∨ k' ≠ k ∧ k' ∈ sc.q l := by
  have hq : (sc.move k i j).q = Bins.insert (Bins.remove sc.q k) j k := rfl
  rw [hq, mem_insert, hf.mem_remove]

/-- A chosen slab is one of the cache's, and is not on `emptyq` afterwards. -/
theorem picked (h : Held v d s) {sc : Cache} (hp : Picked s c k sc) :
    k ∈ s.slabsOf c ∧ sc.objsize = (s.cache c).objsize ∧ Filed sc.q (s.slabsOf c) ∧
      ∀ k' ∈ sc.q .emptyq, k' ≠ k ∧ k' ∈ (s.cache c).q .emptyq := by
  have hf := h.filed c
  cases hp with
  | last hk _ =>
      refine ⟨hf.mem hk, rfl, hf.move (hf.mem hk) .fullq, fun k' hk' ↦ ?_⟩
      rcases (mem_move hf).1 hk' with ⟨hq, -⟩ | hk'
      · exact Queue.noConfusion hq
      · exact hk'
  | some hk _ =>
      refine ⟨hf.mem hk, rfl, hf, fun k' hk' ↦ ⟨?_, hk'⟩⟩
      rintro rfl
      exact Queue.noConfusion (hf.inj hk' hk)
  | first hk =>
      refine ⟨hf.mem hk, rfl, hf.move (hf.mem hk) .freeq, fun k' hk' ↦ ?_⟩
      rcases (mem_move hf).1 hk' with ⟨hq, -⟩ | hk'
      · exact Queue.noConfusion hq
      · exact hk'

/-- Taking an object of the chosen slab. -/
theorem take (h : Held v d s) {sc : Cache} {p : Nat} (hp : Picked s c k sc)
    (ht : Slab.take (s.setCache c sc) k = .ok (p, t)) : Held v d t := by
  obtain ⟨⟨hk, rfl⟩, hsz, hf, hne⟩ := h.picked hp
  have hh := h.hdr k hk
  cases hq : (s.hdr k).freeq with
  | nil =>
      have hq' : ((s.setCache (s.hdr k).cache sc).hdr k).freeq = [] := hq
      rw [Slab.take, hq'] at ht
      cases ht
  | cons oh q =>
      have hobj := hh.sub oh (hq ▸ List.mem_cons_self)
      rw [take_eq (s := s.setCache (s.hdr k).cache sc) hq] at ht
      cases ht
      refine h.update hk rfl hsz hf (hh.take (h.pos _) hq) (fun x hx ↦ ?_) fun hv k' hk' ↦ ?_
      · show x ∈ insert p s.live ↔ x ∈ s.live
        rw [Finset.mem_insert, or_iff_right]
        rintro rfl
        exact hx hobj
      · obtain ⟨hkk, hk'⟩ := hne k' hk'
        rw [Function.update_of_ne hkk, hsz]
        exact h.unused hv _ k' hk'

/-- The `retry` loop. -/
theorem allocTries (n : Nat) {ks : List Nat} {p : Nat} (h : Held v d s) (hnd : ks.Nodup)
    (hks : ∀ k ∈ ks, k ∉ s.slabs ∧ Granted v d k)
    (ht : Slab.allocTries v c n ks s = .ok (p, t)) : Held v d t := by
  induction n generalizing s ks with
  | zero =>
      unfold Slab.allocTries at ht
      cases hp : pick s c with
      | some r =>
          rw [hp] at ht
          exact h.take (pick_some hp) ht
      | none =>
          rw [hp] at ht
          cases ht
          exact h
  | succ n ih =>
      unfold Slab.allocTries at ht
      cases hp : pick s c with
      | some r =>
          rw [hp] at ht
          exact h.take (pick_some hp) ht
      | none =>
          rw [hp] at ht
          cases ks with
          | nil => cases ht
          | cons k ks =>
              obtain ⟨s₁, hg⟩ : ∃ s₁, Slab.grow v s c (some k) = .ok s₁ := ⟨_, rfl⟩
              simp only [List.head?_cons, hg, List.tail_cons] at ht
              obtain ⟨hk, hgr⟩ := hks k List.mem_cons_self
              obtain ⟨hkn, hnd⟩ := List.nodup_cons.1 hnd
              refine ih (h.grow hk hgr hg) hnd (fun k' hk' ↦ ?_) ht
              obtain ⟨hm, hgr'⟩ := hks k' (List.mem_cons_of_mem k hk')
              refine ⟨fun hm' ↦ ?_, hgr'⟩
              have hs₁ : s₁.slabs = insert k s.slabs := by rw [← Except.ok.inj hg]; rfl
              rw [hs₁, Finset.mem_insert] at hm'
              rcases hm' with rfl | hm'
              · exact hkn hk'
              · exact hm hm'

/-- `free` of a live object. -/
theorem free (h : Held v d s) (hx : ptr ∈ s.live) (ht : Slab.free v s ptr = .ok t) :
    Held v d t := by
  obtain ⟨hk, hobj⟩ := h.mem_of_live hx
  have hhdr : Slab.slabgethdr v s ptr = .ok (some (ptr / slabsize v)) := by
    cases v with
    | fixmem => simp only [Slab.slabgethdr, hk, if_true]
    | structs => simp only [Slab.slabgethdr, (h.hdr _ hk).magic, if_true]
  rw [Slab.free, hhdr] at ht
  cases ht
  generalize ptr / slabsize v = k at hk hobj
  have hsp := h.pos (s.hdr k).cache
  obtain ⟨hlt, hh'⟩ := (h.hdr k hk).give hsp hobj hx
  have hf := h.filed (s.hdr k).cache
  have hmem : k ∈ s.slabsOf (s.hdr k).cache := ⟨hk, rfl⟩
  refine h.update hk rfl (refile_objsize _ _ _ _) ?_ hh' (fun x hn ↦ ?_) fun hv k' hk' ↦ ?_
  · unfold refile
    split
    · exact hf.move hmem .freeq
    · split
      · exact hf.move hmem .emptyq
      · exact hf
  · rw [Finset.mem_erase, and_iff_right]
    rintro rfl
    exact hn hobj
  · -- with a live object the slab was not on `emptyq`, and it gets there when its last one is freed
    rw [refile_objsize]
    have hne : k ∉ (s.cache (s.hdr k).cache).q .emptyq := fun he ↦
      absurd (h.unused hv _ k he) (Nat.ne_of_lt hlt)
    have hold : ∀ {k'}, k' ∈ (s.cache (s.hdr k).cache).q .emptyq →
        Function.update s.freecnt k (inc (s.hdr k).freecnt) k' =
          slabobjs v (s.cache (s.hdr k).cache).objsize := fun {k'} hk' ↦ by
      have hkk : k' ≠ k := fun he ↦ hne (he ▸ hk')
      rw [Function.update_of_ne hkk]
      exact h.unused hv _ k' hk'
    unfold refile at hk'
    split at hk'
    · rcases (mem_move hf).1 hk' with ⟨hq, -⟩ | hk'
      · exact Queue.noConfusion hq
      · exact hold hk'.2
    · split at hk'
      · rename_i hmax
        rcases (mem_move hf).1 hk' with ⟨-, rfl⟩ | hk'
        · rw [Function.update_self]
          subst hv
          exact hmax
        · exact hold hk'.2
      · exact hold hk'

/-! ## What is given back -/

/-- `shrink` gives back what it should, where each slab's own block is given back. -/
theorem returned_shrink (h : Held v d s)
    (hback : ∀ k ∈ (s.cache c).q .emptyq, slabfree v (hdrAddr d v k) = k) :
    Returned s (Slab.shrink v d s c).2 c (Slab.shrink v d s c).1 := by
  have hf := h.filed c
  have hblocks : (Slab.shrink v d s c).1 = (s.cache c).q .emptyq := by
    rw [Slab.shrink, drain_fst, List.map_congr_left hback, List.map_id']
  have hq : ((Slab.shrink v d s c).2.cache c).q =
      Function.update (s.cache c).q .emptyq [] := drain_q hf
  rw [hblocks]
  refine ⟨hf.nodup _, fun k ↦ ⟨fun hk ↦ ⟨⟨_, hk⟩, fun i hi ↦ ?_⟩, ?_⟩, fun k hk ↦ (hf.mem hk).1⟩
  · rw [hq] at hi
    by_cases hie : i = .emptyq
    · rw [hie, Function.update_self] at hi
      exact absurd hi List.not_mem_nil
    · rw [Function.update_of_ne hie] at hi
      exact hie (hf.inj hi hk)
  · rintro ⟨⟨i, hi⟩, hno⟩
    by_cases hie : i = .emptyq
    · rwa [hie] at hi
    · refine absurd ?_ (hno i)
      rwa [hq, Function.update_of_ne hie]

/-- What `deregister` does, where each slab's own block is given back. -/
theorem deregister_eq (h : Held v d s)
    (hback : ∀ i, ∀ k ∈ (s.cache c).q i, slabfree v (hdrAddr d v k) = k) :
    let blocks := (s.cache c).q .emptyq ++ (s.cache c).q .freeq ++ (s.cache c).q .fullq
    (Slab.deregister v d s c).1 = blocks ∧
      (∀ i, ((Slab.deregister v d s c).2.cache c).q i = []) ∧
      (Slab.deregister v d s c).2.slabs = s.slabs \ blocks.toFinset ∧
      (Slab.deregister v d s c).2.hdr = s.hdr ∧
      ∀ c' ≠ c, (Slab.deregister v d s c).2.cache c' = s.cache c' := by
  dsimp only
  rw [Slab.deregister]
  obtain ⟨hb₁, hq₁, hs₁, hh₁, ho₁⟩ := drained false (h.filed c) (hback .emptyq)
  generalize drain v d false c .emptyq s = r₁ at *
  have hf₁ := (h.filed c).clear .emptyq
  rw [← hq₁] at hf₁
  have hfree : (r₁.2.cache c).q .freeq = (s.cache c).q .freeq := by
    rw [hq₁, Function.update_of_ne Queue.noConfusion]
  obtain ⟨hb₂, hq₂, hs₂, hh₂, ho₂⟩ := drained false hf₁ (by
    rw [hfree]
    exact hback .freeq)
  generalize drain v d false c .freeq r₁.2 = r₂ at *
  have hf₂ := hf₁.clear .freeq
  rw [← hq₂] at hf₂
  have hfull : (r₂.2.cache c).q .fullq = (s.cache c).q .fullq := by
    rw [hq₂, Function.update_of_ne Queue.noConfusion, hq₁, Function.update_of_ne Queue.noConfusion]
  obtain ⟨hb₃, hq₃, hs₃, hh₃, ho₃⟩ := drained false hf₂ (by
    rw [hfull]
    exact hback .fullq)
  generalize drain v d false c .fullq r₂.2 = r₃ at *
  refine ⟨?_, fun i ↦ ?_, ?_, ?_, fun c' hc ↦ ?_⟩
  · rw [hb₁, hb₂, hb₃, hfree, hfull]
  · show (r₃.2.cache c).q i = []
    rw [hq₃, hq₂, hq₁]
    cases i <;> rfl
  · show r₃.2.slabs = _
    rw [hs₃, hs₂, hs₁, hfree, hfull, List.toFinset_append, List.toFinset_append, sdiff_sdiff_left,
      sdiff_sdiff_left, ← sup_assoc]
    rfl
  · exact hh₃.trans (hh₂.trans hh₁)
  · exact (ho₃ c' hc).trans ((ho₂ c' hc).trans (ho₁ c' hc))

/-- The slabs on the queues of a cache. -/
theorem mem_blocks {sc : Cache} :
    k ∈ sc.q .emptyq ++ sc.q .freeq ++ sc.q .fullq ↔ ∃ i, k ∈ sc.q i := by
  rw [List.mem_append, List.mem_append]
  constructor
  · rintro ((hk | hk) | hk)
    · exact ⟨_, hk⟩
    · exact ⟨_, hk⟩
    · exact ⟨_, hk⟩
  · rintro ⟨i, hk⟩
    cases i with
    | emptyq => exact .inl (.inl hk)
    | freeq => exact .inl (.inr hk)
    | fullq => exact .inr hk

/-- `deregister` gives back what it should, where each slab's own block is given back. -/
theorem returned_deregister (h : Held v d s)
    (hback : ∀ i, ∀ k ∈ (s.cache c).q i, slabfree v (hdrAddr d v k) = k) :
    Returned s (Slab.deregister v d s c).2 c (Slab.deregister v d s c).1 := by
  have hf := h.filed c
  obtain ⟨hb, hq, -⟩ := h.deregister_eq hback
  rw [hb]
  refine ⟨?_, fun k ↦ ?_, fun k hk ↦ ?_⟩
  · have hdisj : ∀ {i j : Queue}, i ≠ j → List.Disjoint ((s.cache c).q i) ((s.cache c).q j) :=
      fun hne k hk hk' ↦ hne (hf.inj hk hk')
    refine ((hf.nodup _).append (hf.nodup _) (hdisj Queue.noConfusion)).append (hf.nodup _) ?_
    exact List.disjoint_append_left.2 ⟨hdisj Queue.noConfusion, hdisj Queue.noConfusion⟩
  · rw [mem_blocks]
    refine (and_iff_left fun i hi ↦ ?_).symm
    rw [hq] at hi
    exact List.not_mem_nil hi
  · obtain ⟨i, hi⟩ := mem_blocks.1 hk
    exact (hf.mem hi).1

/-- `shrink`. -/
theorem shrink (h : Held v d s) (hs : ReleaseSafe v s (.shrink c)) :
    Held v d (Slab.shrink v d s c).2 := by
  rcases hs with rfl | hnil
  · obtain ⟨-, hq, hslabs, hhdr, hother⟩ := drained (d := d) true (h.filed c)
      fun k (_ : k ∈ (s.cache c).q .emptyq) ↦ slabfree_structs d k
    obtain ⟨-, hlive, hsize, -⟩ := drain_frame .structs d true c .emptyq s
    have hf := h.filed c
    refine h.drop (R := ((s.cache c).q .emptyq).toFinset) (c := c) (fun k hk ↦ ?_) hhdr hslabs
      (fun x ↦ ?_) hother ?_ ?_ (fun _ ↦ hsize) fun _ k hk ↦ ?_
    · exact hf.mem (List.mem_toFinset.1 hk)
    · rw [Slab.shrink, hlive]
      refine (and_iff_left_of_imp fun hx hxR ↦ ?_).symm
      -- the slabs of `emptyq` have no live object
      rw [List.mem_toFinset] at hxR
      obtain ⟨hk, hobj⟩ := h.mem_of_live hx
      have hc := (hf.mem hxR).2
      have hcnt := h.unused rfl c _ hxR
      rw [← hc] at hcnt
      exact ((h.hdr _ hk).none_live (h.pos _)).1 hcnt x hobj hx
    · rw [Slab.shrink, hsize]
      exact h.pos c
    · rw [Slab.shrink, hq, List.coe_toFinset]
      exact hf.clear .emptyq
    · rw [Slab.shrink, hq, Function.update_self] at hk
      exact absurd hk List.not_mem_nil
  · rw [Slab.shrink, drain_nil hnil]
    exact h

/-- `deregister`, and the next `register`. -/
theorem deregister (h : Held v d s) (hr : r.LinkFits) (hs : ReleaseSafe v s (.deregister c r)) :
    Held v d ((Slab.deregister v d s c).2.setCache c (.register r)) := by
  have hf := h.filed c
  have hback : ∀ i, ∀ k ∈ (s.cache c).q i, slabfree v (hdrAddr d v k) = k := by
    intro i k hk
    rcases hs with rfl | hnil
    · exact slabfree_structs d k
    · rw [hnil i] at hk
      exact absurd hk List.not_mem_nil
  obtain ⟨-, hq, hslabs, hhdr, hother⟩ := h.deregister_eq hback
  have hmem : ∀ k, k ∈ ((s.cache c).q .emptyq ++ (s.cache c).q .freeq ++
      (s.cache c).q .fullq).toFinset ↔ k ∈ s.slabsOf c := fun k ↦ by
    rw [List.mem_toFinset, mem_blocks]
    exact hf.mem_iff.symm
  refine h.drop (c := c) (fun k hk ↦ (hmem k).1 hk) hhdr hslabs (fun x ↦ ?_) (fun c' hc ↦ ?_) ?_ ?_
    (fun ⟨k, hk, hk'⟩ ↦ absurd ((hmem k).2 hk) hk') fun _ k hk ↦ ?_
  · show x ∈ s.live.filter (fun x ↦ x / slabsize v ∈ (Slab.deregister v d s c).2.slabs) ↔ _
    rw [Finset.mem_filter, hslabs, Finset.mem_sdiff]
    exact and_congr_right fun hx ↦ and_iff_right (h.mem_of_live hx).1
  · exact (Function.update_of_ne hc _ _).trans (hother c' hc)
  · simp only [Mem.setCache, Function.update_self]
    exact hr.size_pos
  · have hnone : s.slabsOf c \ (((s.cache c).q .emptyq ++ (s.cache c).q .freeq ++
        (s.cache c).q .fullq).toFinset : Set Nat) = ∅ :=
      Set.sdiff_eq_empty.2 fun k hk ↦ (hmem k).2 hk
    simp only [Mem.setCache, Function.update_self]
    rw [hnone]
    exact filed_nil
  · simp only [Mem.setCache, Function.update_self] at hk
    exact absurd hk List.not_mem_nil

/-- The blocks that `deregister` gives back. -/
theorem deregister_fst (h : Held v d s) (c : Nat) : (Slab.deregister v d s c).1 =
    ((s.cache c).q .emptyq ++ (s.cache c).q .freeq ++ (s.cache c).q .fullq).map
      fun k ↦ slabfree v (hdrAddr d v k) := by
  have hq₁ : ((drain v d false c .emptyq s).2.cache c).q = _ := drain_q (h.filed c)
  have hf₁ := (h.filed c).clear .emptyq
  rw [← hq₁] at hf₁
  have hq₂ : ((drain v d false c .freeq (drain v d false c .emptyq s).2).2.cache c).q = _ :=
    drain_q hf₁
  rw [Slab.deregister, List.map_append, List.map_append]
  dsimp only
  rw [drain_fst, drain_fst, drain_fst, hq₂, hq₁, Function.update_of_ne Queue.noConfusion,
    Function.update_of_ne Queue.noConfusion, Function.update_of_ne Queue.noConfusion]

/-- A slab of fixed memory is not given back, but a page that was not obtained. -/
theorem not_obtained (h : Held .fixmem d s) (hk : k ∈ s.slabsOf c) :
    slabfree .fixmem (hdrAddr d .fixmem k) ∉ s.slabs :=
  fun hm ↦ (h.granted _ hm).slabfree_ne (h.granted k hk.1) rfl

/-- When a call gives back what it should. -/
theorem releaseOk_iff (h : Held v d s) (op : RelOp) : ReleaseOk v d s op ↔ ReleaseSafe v s op := by
  cases op with
  | alloc => exact Iff.rfl
  | free => exact Iff.rfl
  | grow => exact Iff.rfl
  | shrink c =>
      constructor
      · intro hr
        cases v with
        | structs => exact .inl rfl
        | fixmem =>
            refine .inr (List.eq_nil_iff_forall_not_mem.2 fun k hk ↦ ?_)
            refine h.not_obtained ((h.filed c).mem hk) (hr.obtained _ ?_)
            rw [Slab.shrink, drain_fst]
            exact List.mem_map_of_mem hk
      · rintro (rfl | hnil)
        · exact h.returned_shrink fun k _ ↦ slabfree_structs d k
        · exact h.returned_shrink fun k hk ↦ absurd (hnil ▸ hk) List.not_mem_nil
  | deregister c r =>
      constructor
      · intro hr
        cases v with
        | structs => exact .inl rfl
        | fixmem =>
            refine .inr fun i ↦ List.eq_nil_iff_forall_not_mem.2 fun k hk ↦ ?_
            refine h.not_obtained ((h.filed c).mem hk) (hr.obtained _ ?_)
            rw [h.deregister_fst]
            exact List.mem_map_of_mem (mem_blocks.2 ⟨i, hk⟩)
      · rintro (rfl | hnil)
        · exact h.returned_deregister fun _ k _ ↦ slabfree_structs d k
        · exact h.returned_deregister fun i k hk ↦ absurd (hnil i ▸ hk) List.not_mem_nil

/-- A call keeps the invariant. -/
theorem step {op : RelOp} (h : Held v d s) (hst : RelStep v d s op t) : Held v d t := by
  obtain ⟨ha, hs, ht⟩ := hst
  cases op with
  | alloc c ks =>
      obtain ⟨hf, hg⟩ := ha
      cases hal : allocOpq v s c ks with
      | error e =>
          rw [relExec, hal] at ht
          cases ht
      | ok r =>
          rw [relExec, hal] at ht
          cases ht
          exact h.allocTries 4 hf.nodup (fun k hk ↦ ⟨hf.unused k hk, hg k hk⟩) hal
  | free ptr => exact h.free ha ht
  | grow c k =>
      cases k with
      | none => cases ht
      | some k =>
          obtain ⟨hf, hg⟩ := ha
          have hk : k ∈ (some k).toList := List.mem_singleton_self k
          exact h.grow (hf.unused k hk) (hg k hk) ht
  | shrink c =>
      cases ht
      exact h.shrink hs
  | deregister c r =>
      cases ht
      exact h.deregister ha hs

end Held

end Held

/-- In every run whose calls give slabs back only if they are structures, of caches whose objects
have room for a link, a call gives back what it should exactly if its slabs are structures or it
finds none to give back. -/
theorem slab_release_iff (v : Variant) (d : Pfndb) (reg : Nat → Reg)
    (hreg : ∀ c, (reg c).LinkFits) (ops : List RelOp) (s : Mem)
    (hr : Run (RelStep v d) (Mem.init reg) ops s) (op : RelOp) :
    ReleaseOk v d s op ↔ ReleaseSafe v s op := by
  have h : Held v d s := Run.invariant (fun _ _ _ h hst ↦ h.step hst) hr (.init v d hreg)
  exact h.releaseOk_iff op

/-- A cache of structures of 64 bytes, in the state after its first `grow`. -/
theorem slab_release_structs : ∃ s, Run (RelStep .structs ⟨0xc0400000, 2047⟩)
      (Mem.init fun _ ↦ ⟨64, true⟩) [.grow 0 (some 1)] s ∧
    (ReleaseOk .structs ⟨0xc0400000, 2047⟩ s (.shrink 0) ↔ ReleaseSafe .structs s (.shrink 0)) := by
  have hrun : Run (RelStep .structs ⟨0xc0400000, 2047⟩) (Mem.init fun _ ↦ ⟨64, true⟩)
      [.grow 0 (some 1)] _ := .cons ⟨⟨⟨by decide, by decide, by decide, by decide⟩,
        fun _ _ ↦ nofun⟩, trivial, rfl⟩ (.nil _)
  exact ⟨_, hrun, slab_release_iff .structs _ _ (fun _ ↦ by decide) _ _ hrun (.shrink 0)⟩

/-- The cache of 4K blocks: `fixmem_grow` obtains a page, and `fixmem_shrink` gives back a page of
the page database for it. -/
theorem fixmem_shrink_misses : ¬∀ (v : Variant) (d : Pfndb) (reg : Nat → Reg) (ops : List RelOp)
    (s : Mem), Run (RelStep v d) (Mem.init reg) ops s → ∀ op, ReleaseOk v d s op := by
  intro hall
  have hrun : Run (RelStep .fixmem ⟨0xc0400000, 2047⟩) (Mem.init fun _ ↦ ⟨4096, false⟩)
      [.grow 0 (some 1600)] _ := .cons ⟨⟨⟨by decide, by decide, by decide, by decide⟩,
        fun k hk _ ↦ by
          obtain rfl := List.mem_singleton.1 hk
          decide⟩, trivial, rfl⟩ (.nil _)
  have h : Held .fixmem ⟨0xc0400000, 2047⟩ _ :=
    Run.invariant (fun _ _ _ h hst ↦ h.step hst) hrun (.init _ _ fun _ ↦ by decide)
  rcases (h.releaseOk_iff (.shrink 0)).1 (hall _ _ _ _ _ hrun _) with hv | hnil
  · exact Variant.noConfusion hv
  · exact absurd hnil (by simp [Mem.setCache, Cache.incr, Cache.insert, Bins.insert])

end Mh.Slab
