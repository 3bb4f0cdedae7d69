import Mh.Lib.Slist
import Mh.Slab.Calls

/-!
# Free lists in memory

The free list of a slab is linked through its free objects.  `Linked` has the links in memory, and
in the header of a slab the address of its first free object; its calls are those of `Mem` but for
what they do with a free list.  Between the calls anything is written where there is no free object:
by the clients, into their live objects, and by others outside of the slabs.

Where every object has room for a link, a call does the same to both (`Rep.exec`), so a run with
links in memory is a run with lists (`Linked.simulates`).
-/

namespace Mh.Slab

open Mh.Lib Mh.Lib.Slist

/-- The caches and the slab headers, with the first object of each free list, and the memory. -/
structure Linked where
  mem : Mem Nat
  bytes : Bytes.Mem

namespace Linked

/-- The caches as registered; the memory is as it is. -/
def init (reg : Nat → Reg) (bytes : Bytes.Mem) : Linked := ⟨.init reg, bytes⟩

/-! ## The calls -/

/-- The loop of `grow` over the objects of the slab. -/
def linkObjs (objsize : Nat) : Nat → Nat → Nat × Bytes.Mem → Nat × Bytes.Mem
  | 0, _, q => q
  | n + 1, ptr, q => linkObjs objsize n (ptr + objsize) (insertHead objhdrSize q ptr)

/-- The free list that `grow` makes of slab `k`. -/
def growList (v : Variant) (objsize k : Nat) (m : Bytes.Mem) : Nat × Bytes.Mem :=
  linkObjs objsize (slabobjs v objsize) (k * slabsize v + firstObj v) (0, m)

/-- `grow`, given what `___slaballoc` returns. -/
def grow (v : Variant) (l : Linked) (c : Nat) : Option Nat → Except Panic Linked
  | none => .error .oom
  | some k =>
      let sc := l.mem.cache c
      let q := growList v sc.objsize k l.bytes
      let s := l.mem.setHdr k ⟨magic, c, slabobjs v sc.objsize, q.1⟩
      let s := s.setCache c ((sc.insert .emptyq k).incr .emptyq)
      .ok ⟨{ s with slabs := Insert.insert k s.slabs }, q.2⟩

/-- `alloc_opq` once a slab is chosen: the first object of its free list, whose link is cleared. -/
def take (l : Linked) (k : Nat) : Except Panic (Nat × Linked) :=
  let sh := l.mem.hdr k
  let oh := sh.freeq
  if oh = 0 then .error .emptyPop
  else
    let sh' := { sh with
      freeq := removeHead objhdrSize (oh, l.bytes), freecnt := dec sh.freecnt }
    .ok (oh, { mem := { l.mem.setHdr k sh' with live := Insert.insert oh l.mem.live }
               bytes := Bytes.storeNat l.bytes oh objhdrSize 0 })

/-- The `retry` loop of `alloc_opq`. -/
def allocTries (v : Variant) (c : Nat) :
    Nat → List Nat → Linked → Except Panic (Nat × Linked)
  | n, ks, l =>
      match pick l.mem c, n with
      | some (k, sc), _ => take { l with mem := l.mem.setCache c sc } k
      | none, 0 => .ok (0, l)
      | none, n + 1 =>
          match grow v l c ks.head? with
          | .error e => .error e
          | .ok l => allocTries v c n ks.tail l

/-- `alloc_opq`. -/
def allocOpq (v : Variant) (l : Linked) (c : Nat) (ks : List Nat) :
    Except Panic (Nat × Linked) :=
  allocTries v c 4 ks l

/-- `free` once the header is found. -/
def release (v : Variant) (l : Linked) (k ptr : Nat) : Linked :=
  let sh := l.mem.hdr k
  let q := insertHead objhdrSize (sh.freeq, l.bytes) ptr
  let sh' := { sh with freeq := q.1, freecnt := inc sh.freecnt }
  let s := (l.mem.setHdr k sh').setCache sh.cache
    (refile v (l.mem.cache sh.cache) k sh'.freecnt)
  ⟨{ s with live := l.mem.live.erase ptr }, q.2⟩

/-- `free`. -/
def free (v : Variant) (l : Linked) (ptr : Nat) : Except Panic Linked :=
  match slabgethdr v l.mem ptr with
  | .error e => .error e
  | .ok none => .ok { l with mem := { l.mem with live := l.mem.live.erase ptr } }
  | .ok (some k) => .ok (l.release v k ptr)

/-- One call and what it returns. -/
def exec (v : Variant) (l : Linked) : Op → Except Panic (Nat × Linked)
  | .alloc c ks => allocOpq v l c ks
  | .free ptr => (free v l ptr).map fun l ↦ (0, l)
  | .grow c k => (grow v l c k).map fun l ↦ (1, l)
  | .shrink c =>
      let r := structsShrink l.mem c
      .ok (r.1, { l with mem := r.2 })

/-- A call, or a byte that is written by other code. -/
inductive Act
  | call (op : Op)
  | write (a : Nat) (b : BitVec 8)

/-- The call, if it is one. -/
def Act.op : Act → Option Op
  | call op => some op
  | write _ _ => none

/-- No object of a slab that is not live has the byte at `a`. -/
def Unused (v : Variant) (s : Mem Nat) (a : Nat) : Prop :=
  ∀ k ∈ s.slabs, ∀ x ∈ objects v (s.size k) k, x ∉ s.live → a < x ∨ x + s.size k ≤ a

instance (v : Variant) (s : Mem Nat) (a : Nat) : Decidable (Unused v s a) :=
  inferInstanceAs (Decidable (∀ k ∈ s.slabs, ∀ x ∈ objects v (s.size k) k, _ → _))

/-- A call that a client may make and that returns, or a write where there is no free object. -/
def Step (v : Variant) (l : Linked) : Act → Linked → Prop
  | .call op, l' => Allowed v l.mem op ∧ ∃ r, exec v l op = .ok (r, l')
  | .write a b, l' => Unused v l.mem a ∧ l' = { l with bytes := Function.update l.bytes a b }

end Linked

/-! ## Representation -/

/-- The headers with other free lists. -/
def Mem.relink (s : Mem) (first : Nat → Nat) : Mem Nat :=
  { s with hdr := fun k ↦ { s.hdr k with freeq := first k } }

/-- The links of the free lists lead through their objects. -/
inductive Rep : Linked → Mem → Prop
  | intro (s : Mem) (first : Nat → Nat) (m : Bytes.Mem) :
    (∀ k ∈ s.slabs, Leads objhdrSize m (first k) (s.hdr k).freeq) → Rep ⟨s.relink first, m⟩ s

/-- Two results that are the same but for the representation. -/
inductive Agree : Except Panic (Nat × Linked) → Except Panic (Nat × Mem) → Prop
  | error (e : Panic) : Agree (.error e) (.error e)
  | ok {l : Linked} {s : Mem} (r : Nat) : Rep l s → Agree (.ok (r, l)) (.ok (r, s))

section

variable {v : Variant} {s t : Mem} {l : Linked} {c k k' n p size x y a ptr : Nat} {ks q : List Nat}
  {m : Bytes.Mem} {sz first : Nat → Nat}

theorem Mem.relink_setHdr (s : Mem) (first : Nat → Nat) (k : Nat) (h : Hdr) (p : Nat) :
    (s.relink first).setHdr k ⟨h.magic, h.cache, h.freecnt, p⟩ =
      (s.setHdr k h).relink (Function.update first k p) := by
  refine congrArg (fun f ↦ ({ s.relink first with hdr := f } : Mem Nat)) (funext fun k' ↦ ?_)
  by_cases hk : k' = k
  · subst hk
    simp [Mem.setHdr]
  · simp [Mem.relink, Mem.setHdr, hk]

/-- A state that differs in the header of one slab, and has no other new slab. -/
theorem Rep.of_update {u : Mem Nat} {h : Hdr} (hu : u = t.relink (Function.update first k p))
    (ht : t.hdr = Function.update s.hdr k h) (hslabs : ∀ k' ∈ t.slabs, k' ≠ k → k' ∈ s.slabs)
    (hnew : Leads objhdrSize m p h.freeq)
    (hold : ∀ k' ∈ s.slabs, k' ≠ k → Leads objhdrSize m (first k') (s.hdr k').freeq) :
    Rep ⟨u, m⟩ t := by
  subst hu
  refine .intro t _ m fun k' hk' ↦ ?_
  rw [ht]
  by_cases hk : k' = k
  · rw [hk, Function.update_self, Function.update_self]
    exact hnew
  · rw [Function.update_of_ne hk, Function.update_of_ne hk]
    exact hold k' (hslabs k' hk' hk) hk

/-- The slabs are chosen and found by what the two have in common. -/
theorem Rep.pick_eq (h : Rep l s) (c : Nat) : pick l.mem c = pick s c := by
  cases h
  rfl

theorem Rep.slabgethdr_eq (h : Rep l s) (v : Variant) (ptr : Nat) :
    slabgethdr v l.mem ptr = slabgethdr v s ptr := by
  cases h
  rfl

theorem Rep.allowed_iff (h : Rep l s) {op : Op} : Allowed v l.mem op ↔ Allowed v s op := by
  cases h with
  | intro _ first m _ =>
  have hfresh : ∀ ks, Fresh v (s.relink first) ks ↔ Fresh v s ks := fun ks ↦
    ⟨fun hf ↦ ⟨hf.nodup, hf.unused, hf.ne_zero, hf.bound⟩,
      fun hf ↦ ⟨hf.nodup, hf.unused, hf.ne_zero, hf.bound⟩⟩
  cases op with
  | alloc c ks => exact hfresh ks
  | free ptr => exact Iff.rfl
  | grow c k => exact hfresh _
  | shrink c => exact Iff.rfl

/-- `structs_shrink` does not look at the free lists, and leaves the headers alone. -/
theorem structsShrink_relink (s : Mem) (first : Nat → Nat) (c : Nat) :
    structsShrink (s.relink first) c = ((structsShrink s c).1, (structsShrink s c).2.relink first) ∧
      (structsShrink s c).2.hdr = s.hdr ∧ (structsShrink s c).2.slabs ⊆ s.slabs := by
  induction s using structsShrink.induct (c := c) with
  | case1 s hq =>
      rw [structsShrink_nil hq]
      exact ⟨structsShrink_nil (s := s.relink first) hq, rfl, Finset.Subset.refl _⟩
  | case2 s k q hq ih =>
      obtain ⟨ih, hhdr, hslabs⟩ := ih
      have hcons := structsShrink_cons (s := s.relink first) hq
      have hone : shrinkOne (s.relink first) c k = (shrinkOne s c k).relink first := rfl
      rw [hone, ih] at hcons
      rw [structsShrink_cons hq]
      exact ⟨hcons, hhdr, hslabs.trans (Finset.erase_subset k s.slabs)⟩

/-! ## Links that are apart -/

/-- The links of two objects of slabs, where objects have room for them. -/
theorem Inv.apart (h : Inv v sz s) (hlink : ∀ c, objhdrSize ≤ sz c)
    (hx : x ∈ objects v (s.size k) k) (hy : y ∈ objects v (s.size k') k') (hne : x ≠ y) :
    Apart objhdrSize x y := by
  have hfit : ∀ k, objhdrSize ≤ s.size k := fun k ↦ (hlink _).trans (h.size _).ge
  rcases lt_or_gt_of_ne hne with hlt | hlt
  · exact .inl ((Nat.add_le_add_left (hfit k) x).trans (s.objects_apart hx hy hlt))
  · exact .inr ((Nat.add_le_add_left (hfit k') y).trans (s.objects_apart hy hx hlt))

/-- An object is an address. -/
theorem Inv.object_bound (h : Inv v sz s) (hk : k ∈ s.slabs) (hx : x ∈ objects v (s.size k) k) :
    x ≠ 0 ∧ x < 2 ^ (8 * objhdrSize) := by
  obtain ⟨hk₀, hb⟩ := h.slab k hk
  obtain ⟨hlo, hhi⟩ := bound_of_mem_objects hx
  have hpos : 1 * slabsize v ≤ k * slabsize v :=
    Nat.mul_le_mul_right _ (Nat.pos_of_ne_zero hk₀)
  have hs := slabsize_pos (v := v)
  have hsize := h.size_pos k
  have hpow : 2 ^ (8 * objhdrSize) = 2 ^ 32 := rfl
  omega

/-- What is free in a slab. -/
theorem Inv.mem_freeq (h : Inv v sz s) (hk : k ∈ s.slabs) (hx : x ∈ (s.hdr k).freeq) :
    x ∈ objects v (s.size k) k ∧ x ∉ s.live :=
  ⟨(h.hdr k hk).sub x hx, fun hl ↦ ((h.hdr k hk).live x ((h.hdr k hk).sub x hx)).1 hl hx⟩

/-- The first object of a free list is an address, if there is one. -/
theorem Inv.first_lt (h : Inv v sz s) (hk : k ∈ s.slabs)
    (hl : Leads objhdrSize m p (s.hdr k).freeq) : p < 2 ^ (8 * objhdrSize) := by
  by_cases hp : p = 0
  · rw [hp]
    exact Nat.two_pow_pos _
  · exact (h.object_bound hk (h.mem_freeq hk (hl.head_mem hp)).1).2

/-! ## The loop of `grow` -/

theorem linkObjs_outside (hsize : objhdrSize ≤ size) {r : Nat × Bytes.Mem}
    (ha : a < ptr ∨ ptr + n * size ≤ a) : (Linked.linkObjs size n ptr r).2 a = r.2 a := by
  induction n generalizing ptr r with
  | zero => rfl
  | succ n ih =>
      rw [Nat.succ_mul] at ha
      rw [Linked.linkObjs, ih (by omega)]
      exact Bytes.storeNat_outside (by omega) _

/-- The objects are linked, the last one first. -/
theorem leads_linkObjs (hsize : objhdrSize ≤ size) (hptr : 0 < ptr)
    (hb : ptr + n * size ≤ 2 ^ (8 * objhdrSize)) (hp : p < 2 ^ (8 * objhdrSize))
    (h : Leads objhdrSize m p q) (hq : ∀ y ∈ q, y + objhdrSize ≤ ptr) :
    Leads objhdrSize (Linked.linkObjs size n ptr (p, m)).2
      (Linked.linkObjs size n ptr (p, m)).1 (linkObjs size n ptr q) := by
  induction n generalizing ptr p q m with
  | zero => exact h
  | succ n ih =>
      rw [Nat.succ_mul] at hb
      have hlink : 0 < objhdrSize := by decide
      refine ih (by omega) (by omega) (by omega) ?_ fun y hy ↦ ?_
      · exact h.insertHead (Nat.ne_of_gt hptr) hp fun y hy ↦ .inr (hq y hy)
      · rcases List.mem_cons.1 hy with rfl | hy
        · exact Nat.add_le_add_left hsize y
        · exact (hq y hy).trans (Nat.le_add_right ptr size)

/-- What `grow` writes is in the block. -/
theorem growList_outside (hsize : objhdrSize ≤ size)
    (ha : a < k * slabsize v ∨ (k + 1) * slabsize v ≤ a) :
    (Linked.growList v size k m).2 a = m a := by
  have hfit := slabobjs_fit v size
  rw [Nat.succ_mul] at ha
  exact linkObjs_outside hsize (by omega)

/-- A new slab has all its objects on the free list. -/
theorem leads_growList (hsize : objhdrSize ≤ size) (hk : k ≠ 0)
    (hb : (k + 1) * slabsize v ≤ 2 ^ (8 * objhdrSize)) (m : Bytes.Mem) (c : Nat) :
    Leads objhdrSize (Linked.growList v size k m).2 (Linked.growList v size k m).1
      (growHdr v c size k).freeq := by
  have hfit := slabobjs_fit v size
  have hpos := Nat.mul_pos (Nat.pos_of_ne_zero hk) (slabsize_pos (v := v))
  rw [Nat.succ_mul] at hb
  exact leads_linkObjs hsize (by omega) (by omega) (Nat.two_pow_pos _) rfl
    fun _ hy ↦ absurd hy List.not_mem_nil

/-! ## The calls do the same -/

/-- The free lists of the other slabs, when a link is written into an object. -/
theorem Inv.leads_store (h : Inv v sz s) (hlink : ∀ c, objhdrSize ≤ sz c)
    (hx : x ∈ objects v (s.size k) k) (hk' : k' ∈ s.slabs) (hne : k' ≠ k)
    (hl : Leads objhdrSize m p (s.hdr k').freeq) (n : Nat) :
    Leads objhdrSize (Bytes.storeNat m x objhdrSize n) p (s.hdr k').freeq := by
  refine hl.storeNat (fun y hy ↦ ?_) n
  have hy' := (h.mem_freeq hk' hy).1
  refine h.apart hlink hx hy' ?_
  rintro rfl
  refine hne ?_
  rw [← div_of_mem_objects (h.size_pos k') hy', ← div_of_mem_objects (h.size_pos k) hx]

namespace Rep

/-- `grow` with a fresh block. -/
theorem grow (hr : Rep l s) (h : Inv v sz s) (hlink : ∀ c, objhdrSize ≤ sz c)
    (hf : Fresh v s [k]) (hg : Slab.grow v s c (some k) = .ok t) :
    ∃ l', Linked.grow v l c (some k) = .ok l' ∧ Rep l' t := by
  have hmem := List.mem_singleton_self k
  have hfit : objhdrSize ≤ (s.cache c).objsize := (hlink c).trans (h.size c).ge
  cases hr with
  | intro _ first m hleads =>
  obtain rfl := Except.ok.inj hg
  have hu := congrArg (fun u : Mem Nat ↦ ({ u.setCache c (((s.cache c).insert .emptyq k).incr
    .emptyq) with slabs := insert k s.slabs } : Mem Nat)) (s.relink_setHdr first k
      (growHdr v c (s.cache c).objsize k) (Linked.growList v (s.cache c).objsize k m).1)
  refine ⟨_, rfl, of_update hu rfl (fun k' hk' hkk ↦ ?_) ?_ fun k' hk' hkk ↦ ?_⟩
  · exact (Finset.mem_insert.1 hk').resolve_left hkk
  · exact leads_growList hfit (hf.ne_zero k hmem) (hf.bound k hmem) m c
  · refine (hleads k' hk').congr fun x hx a hle hlt ↦ growList_outside hfit ?_
    -- the links of another slab are in its block
    have hx' := bound_of_mem_objects (h.mem_freeq hk' hx).1
    have hsize : objhdrSize ≤ s.size k' := (hlink _).trans (h.size _).ge
    rcases lt_or_gt_of_ne hkk with hlt' | hlt'
    · have hle' : (k' + 1) * slabsize v ≤ k * slabsize v := Nat.mul_le_mul_right _ hlt'
      exact .inl (by omega)
    · have hle' : (k + 1) * slabsize v ≤ k' * slabsize v := Nat.mul_le_mul_right _ hlt'
      exact .inr (by omega)

/-- The first object of a chosen slab. -/
theorem take (hr : Rep l s) (h : Inv v sz s) (hlink : ∀ c, objhdrSize ≤ sz c) (hk : k ∈ s.slabs)
    (c : Nat) (sc : Cache) :
    Agree (Linked.take { l with mem := l.mem.setCache c sc } k)
      (Slab.take (s.setCache c sc) k) := by
  cases hr with
  | intro _ first m hleads =>
  have hl := hleads k hk
  cases hq : (s.hdr k).freeq with
  | nil =>
      rw [hq] at hl
      have htake : Slab.take (s.setCache c sc) k = .error .emptyPop := by
        rw [Slab.take, show ((s.setCache c sc).hdr k).freeq = [] from hq]
      have htake' : Linked.take ⟨(s.relink first).setCache c sc, m⟩ k = .error .emptyPop :=
        if_pos hl
      rw [htake, htake']
      exact .error _
  | cons oh q =>
      rw [hq] at hl
      obtain rfl := hl.1
      have hmem : ∀ {y}, y ∈ first k :: q → y ∈ (s.hdr k).freeq := fun hy ↦ hq ▸ hy
      have hobj := (h.mem_freeq hk (hmem List.mem_cons_self)).1
      have hnd := (List.nodup_cons.1 (hq ▸ (h.hdr k hk).nodup)).1
      have htake' : Linked.take ⟨(s.relink first).setCache c sc, m⟩ k = .ok (first k, _) :=
        if_neg hl.2.1
      rw [take_eq (s := s.setCache c sc) hq, htake']
      have hu := congrArg (fun u : Mem Nat ↦ ({ u with live := insert (first k) s.live } : Mem Nat))
        ((s.setCache c sc).relink_setHdr first k { s.hdr k with
          freeq := q, freecnt := dec (s.hdr k).freecnt } (removeHead objhdrSize (first k, m)))
      refine .ok _ (of_update hu rfl (fun _ hk' _ ↦ hk') ?_ fun k' hk' hkk ↦ ?_)
      · refine hl.removeHead.storeNat (fun y hy ↦ ?_) 0
        refine h.apart hlink hobj (h.mem_freeq hk (hmem (List.mem_cons_of_mem _ hy))).1 ?_
        rintro rfl
        exact hnd hy
      · exact h.leads_store hlink hobj hk' hkk (hleads k' hk') 0

/-- `free` once the header is found. -/
theorem release (hr : Rep l s) (h : Inv v sz s) (hlink : ∀ c, objhdrSize ≤ sz c) (hk : k ∈ s.slabs)
    (hobj : ptr ∈ objects v (s.size k) k) (hlive : ptr ∈ s.live) :
    Rep (l.release v k ptr) (Slab.release v s k ptr) := by
  cases hr with
  | intro _ first m hleads =>
  have hu := congrArg (fun u : Mem Nat ↦ ({ u.setCache (s.hdr k).cache (refile v
    (s.cache (s.hdr k).cache) k (inc (s.hdr k).freecnt)) with live := s.live.erase ptr } : Mem Nat))
      (s.relink_setHdr first k { s.hdr k with
        freeq := ptr :: (s.hdr k).freeq, freecnt := inc (s.hdr k).freecnt } ptr)
  refine of_update hu rfl (fun _ hk' _ ↦ hk') ?_ fun k' hk' hkk ↦ ?_
  · refine (hleads k hk).insertHead (h.object_bound hk hobj).1 (h.first_lt hk (hleads k hk))
      fun y hy ↦ ?_
    obtain ⟨hy', hnl⟩ := h.mem_freeq hk hy
    refine h.apart hlink hobj hy' ?_
    rintro rfl
    exact hnl hlive
  · exact h.leads_store hlink hobj hk' hkk (hleads k' hk') _

/-- The `retry` loop. -/
theorem allocTries (hr : Rep l s) (h : Inv v sz s) (hlink : ∀ c, objhdrSize ≤ sz c)
    (hf : Fresh v s ks) (c n : Nat) :
    Agree (Linked.allocTries v c n ks l) (Slab.allocTries v c n ks s) := by
  induction n generalizing ks l s with
  | zero =>
      unfold Linked.allocTries Slab.allocTries
      rw [hr.pick_eq]
      cases hp : pick s c with
      | none => exact .ok 0 hr
      | some r => exact hr.take h hlink (h.picked_mem (pick_some hp)).1.1 c r.2
  | succ n ih =>
      unfold Linked.allocTries Slab.allocTries
      rw [hr.pick_eq]
      cases hp : pick s c with
      | some r => exact hr.take h hlink (h.picked_mem (pick_some hp)).1.1 c r.2
      | none =>
          cases ks with
          | nil => exact .error .oom
          | cons k ks =>
              obtain ⟨t, hg⟩ : ∃ t, Slab.grow v s c (some k) = .ok t := ⟨_, rfl⟩
              obtain ⟨l', hg', hr'⟩ := hr.grow h hlink hf.head hg
              simp only [List.head?_cons, hg, hg', List.tail_cons]
              exact ih hr' (h.grow c hf.head hg) (hf.tail hg)

/-- `free` of a live object. -/
theorem free (hr : Rep l s) (h : Inv v sz s) (hlink : ∀ c, objhdrSize ≤ sz c)
    (hlive : ptr ∈ s.live) : ∃ l' t, Linked.free v l ptr = .ok l' ∧ Slab.free v s ptr = .ok t ∧
      Rep l' t := by
  obtain ⟨hk, hobj⟩ := h.mem_of_live hlive
  have hhdr := h.slabgethdr hlive
  refine ⟨l.release v (ptr / slabsize v) ptr, Slab.release v s (ptr / slabsize v) ptr, ?_, ?_,
    hr.release h hlink hk hobj hlive⟩
  · rw [Linked.free, hr.slabgethdr_eq, hhdr]
  · rw [Slab.free, hhdr]

/-- `structs_shrink`. -/
theorem shrink (hr : Rep l s) (c : Nat) :
    Agree (Linked.exec v l (.shrink c)) (Slab.exec v s (.shrink c)) := by
  cases hr with
  | intro _ first m hleads =>
  obtain ⟨hshrink, hhdr, hslabs⟩ := structsShrink_relink s first c
  rw [Linked.exec, Slab.exec, hshrink]
  refine .ok _ (.intro _ first m fun k hk ↦ ?_)
  rw [hhdr]
  exact hleads k (hslabs hk)

/-- Where objects have room for a link, a call does the same with links in memory. -/
theorem exec (hr : Rep l s) (h : Inv v sz s) (hlink : ∀ c, objhdrSize ≤ sz c) {op : Op}
    (ha : Allowed v s op) : Agree (Linked.exec v l op) (Slab.exec v s op) := by
  cases op with
  | alloc c ks => exact hr.allocTries h hlink ha c 4
  | free ptr =>
      obtain ⟨l', t, hl, ht, hr'⟩ := hr.free h hlink ha
      rw [Linked.exec, Slab.exec, hl, ht]
      exact .ok 0 hr'
  | grow c k =>
      cases k with
      | none => exact .error .oom
      | some k =>
          obtain ⟨t, hg⟩ : ∃ t, Slab.grow v s c (some k) = .ok t := ⟨_, rfl⟩
          obtain ⟨l', hg', hr'⟩ := hr.grow h hlink ha hg
          rw [Linked.exec, Slab.exec, hg, hg']
          exact .ok 1 hr'
  | shrink c => exact hr.shrink c

/-- A byte of no free object is written. -/
theorem write (hr : Rep l s) (h : Inv v sz s) (hlink : ∀ c, objhdrSize ≤ sz c)
    (ha : Linked.Unused v l.mem a) (b : BitVec 8) :
    Rep { l with bytes := Function.update l.bytes a b } s := by
  cases hr with
  | intro _ first m hleads =>
  refine .intro s first _ fun k hk ↦ (hleads k hk).congr fun x hx a' hle hlt ↦ ?_
  obtain ⟨hobj, hnl⟩ := h.mem_freeq hk hx
  have hsize : objhdrSize ≤ s.size k := (hlink _).trans (h.size _).ge
  have hxa : a < x ∨ x + s.size k ≤ a := ha k hk x hobj hnl
  have hne : a' ≠ a := by omega
  exact Function.update_of_ne hne ..

end Rep

/-- Where objects have room for a link, a run with links in memory is one with lists. -/
theorem Linked.simulates {as : List Linked.Act} {l' : Linked} (h : Inv v sz s)
    (hlink : ∀ c, objhdrSize ≤ sz c) (hr : Rep l s) (hrun : Run (Linked.Step v) l as l') :
    ∃ t, Run (Slab.Step v) s (as.filterMap Act.op) t ∧ Rep l' t := by
  induction hrun generalizing s with
  | nil => exact ⟨s, .nil s, hr⟩
  | @cons l l₁ l' act as hst _ ih =>
      cases act with
      | call op =>
          obtain ⟨ha, r, hex⟩ := hst
          rw [hr.allowed_iff] at ha
          have hagree := hr.exec h hlink ha
          rw [hex] at hagree
          generalize hs : Slab.exec v s op = res at hagree
          cases hagree with
          | @ok _ s₁ _ hr₁ =>
              have hst₁ : Slab.Step v s op s₁ := ⟨ha, r, hs⟩
              obtain ⟨t, ht, hr'⟩ := ih (h.run (.cons hst₁ (.nil s₁))) hr₁
              exact ⟨t, .cons hst₁ ht, hr'⟩
      | write a b =>
          obtain ⟨ha, rfl⟩ := hst
          exact ih h (hr.write h hlink ha b)

/-- The caches as registered. -/
theorem Rep.init (reg : Nat → Reg) (m : Bytes.Mem) : Rep (Linked.init reg m) (Mem.init reg) :=
  .intro (.init reg) (fun _ ↦ 0) m fun k hk ↦ absurd hk (Finset.notMem_empty k)

/-- In every run, where objects have room for a link, the memory represents free lists for which the
invariant holds. -/
theorem Linked.run {reg : Nat → Reg} {as : List Linked.Act}
    (hreg : ∀ c, 2 ≤ slabobjs v (reg c).size) (hlink : ∀ c, (reg c).LinkFits)
    (hr : Run (Linked.Step v) (Linked.init reg m) as l) :
    ∃ s, Rep l s ∧ Inv v (fun c ↦ (reg c).size) s := by
  obtain ⟨s, hs, hrep⟩ := Linked.simulates (.init hreg) hlink (.init reg m) hr
  exact ⟨s, hrep, (Inv.init hreg).run hs⟩

/-! ## A new slab, whatever the size -/

/-- What `grow` does with the block `k`. -/
structure Linked.Grown (v : Variant) (l : Linked) (c k size : Nat) (l' : Linked) : Prop where
  cache : l'.mem.cache c = ((l.mem.cache c).insert .emptyq k).incr .emptyq
  hdr : l'.mem.hdr k = ⟨magic, c, slabobjs v size, (Linked.growList v size k l.bytes).1⟩
  slabs : l'.mem.slabs = insert k l.mem.slabs
  live : l'.mem.live = l.mem.live
  bytes : l'.bytes = (Linked.growList v size k l.bytes).2

theorem Linked.exists_grown (v : Variant) (l : Linked) (c k : Nat) :
    ∃ l', Linked.grow v l c (some k) = .ok l' ∧ Linked.Grown v l c k (l.mem.cache c).objsize l' :=
  ⟨_, rfl, Function.update_self .., Function.update_self .., rfl, rfl, rfl⟩

theorem linkObjs_add (size n n' ptr : Nat) (q : Nat × Bytes.Mem) :
    Linked.linkObjs size (n + n') ptr q =
      Linked.linkObjs size n' (ptr + n * size) (Linked.linkObjs size n ptr q) := by
  induction n generalizing ptr q with
  | zero => rw [Nat.zero_add, Nat.zero_mul, Nat.add_zero, Linked.linkObjs]
  | succ n ih =>
      rw [Nat.succ_add, Linked.linkObjs, ih, Linked.linkObjs, Nat.succ_mul, Nat.add_assoc,
        Nat.add_comm size]

/-- The last object is first. -/
theorem linkObjs_fst (size n ptr : Nat) (q : Nat × Bytes.Mem) :
    (Linked.linkObjs size (n + 1) ptr q).1 = ptr + n * size := by
  rw [linkObjs_add]
  rfl

/-- What is before the first object is not written, whatever the size. -/
theorem linkObjs_below {r : Nat × Bytes.Mem} (ha : a < ptr) :
    (Linked.linkObjs size n ptr r).2 a = r.2 a := by
  induction n generalizing ptr r with
  | zero => rfl
  | succ n ih =>
      rw [Linked.linkObjs, ih (Nat.lt_add_right size ha)]
      exact Bytes.storeNat_outside (.inl ha) _

end

end Mh.Slab
