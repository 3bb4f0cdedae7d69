import Mh.Slab.Inv

/-!
# The slab allocator's calls

`alloc`, `free`, `grow` and `shrink` keep the invariant and do what they say: an
allocation returns an object that was not live, a free of a live object is never
refused, and the only way to fail is that there is no memory for a slab.

`shrink` keeps the invariant where `grow` and `free` agree on the number of
objects of a slab, as they do for structures: the slabs it releases have no live
object.
-/

namespace Mh.Slab

open Mh.Lib Mh.Lib.Bins

variable {v : Variant} {s s₁ t : Mem} {c k ptr : Nat} {ks : List Nat} {sz : Nat → Nat}

/-! ## Allocation -/

theorem Fresh.head (h : Fresh v s (k :: ks)) : Fresh v s [k] where
  nodup := List.nodup_singleton k
  unused := List.forall_mem_singleton.2 (h.unused k List.mem_cons_self)
  ne_zero := List.forall_mem_singleton.2 (h.ne_zero k List.mem_cons_self)
  bound := List.forall_mem_singleton.2 (h.bound k List.mem_cons_self)

/-- Once the first block is in use the others are fresh. -/
theorem Fresh.tail (h : Fresh v s (k :: ks)) (hg : Slab.grow v s c (some k) = .ok t) :
    Fresh v t ks where
  nodup := (List.nodup_cons.1 h.nodup).2
  unused k' hk' := by
    rw [← Except.ok.inj hg]
    refine fun hm ↦ (Finset.mem_insert.1 hm).elim ?_ (h.unused k' (List.mem_cons_of_mem k hk'))
    rintro rfl
    exact (List.nodup_cons.1 h.nodup).1 hk'
  ne_zero k' hk' := h.ne_zero k' (List.mem_cons_of_mem k hk')
  bound k' hk' := h.bound k' (List.mem_cons_of_mem k hk')

/-- What `alloc_opq` does to the queues when it has chosen slab `k`. -/
inductive Picked (s : Mem) (c k : Nat) : Cache → Prop
  | /-- The last free object of a partly used slab. -/
    last : k ∈ (s.cache c).q .freeq → s.freecnt k = 1 →
      Picked s c k ((s.cache c).move k .freeq .fullq)
  | /-- One of several free objects of a partly used slab. -/
    some : k ∈ (s.cache c).q .freeq → s.freecnt k ≠ 1 → Picked s c k (s.cache c)
  | /-- The first object of an unused slab. -/
    first : k ∈ (s.cache c).q .emptyq → Picked s c k ((s.cache c).move k .emptyq .freeq)

theorem pick_some {sc : Cache} (h : pick s c = some (k, sc)) : Picked s c k sc := by
  unfold pick at h
  split at h
  · rename_i k' l hq
    have hk' : k' ∈ (s.cache c).q .freeq := by rw [hq]; exact List.mem_cons_self
    split at h
    · rename_i h₁
      cases h
      exact .last hk' h₁
    · rename_i h₁
      cases h
      exact .some hk' h₁
  · split at h
    · rename_i k' l hq
      cases h
      exact .first (by rw [hq]; exact List.mem_cons_self)
    · cases h

theorem take_eq {oh : Nat} {q : List Nat} (hq : (s.hdr k).freeq = oh :: q) :
    take s k = .ok (oh,
      { s.setHdr k { s.hdr k with freeq := q, freecnt := dec (s.hdr k).freecnt } with
        live := insert oh s.live }) := by
  rw [take, hq]

namespace Inv

/-- A chosen slab is one of the cache's, and has a free object. -/
theorem picked_mem (h : Inv v sz s) {sc : Cache} (hp : Picked s c k sc) :
    k ∈ s.slabsOf c ∧ 0 < s.freecnt k ∧ sc.objsize = (s.cache c).objsize := by
  cases hp with
  | last hk h₁ => exact ⟨(h.cache c).filed.mem hk, by omega, rfl⟩
  | some hk _ => exact ⟨(h.cache c).filed.mem hk, ((h.cache c).level _ k hk).1, rfl⟩
  | first hk =>
      have h₂ : 2 ≤ s.freecnt k := ((h.cache c).level _ k hk).1
      exact ⟨(h.cache c).filed.mem hk, by omega, rfl⟩

/-- The queues, once the object is taken. -/
theorem picked_cache (h : Inv v sz s) {sc : Cache} (hp : Picked s c k sc) :
    CacheInv v sc (s.slabsOf c) (Function.update s.freecnt k (s.freecnt k - 1)) := by
  have hS := h.slabsOf_lt c
  have hne : ∀ k' ∈ s.slabsOf c, k' ≠ k →
      Function.update s.freecnt k (s.freecnt k - 1) k' = s.freecnt k' :=
    fun k' _ hkk ↦ Function.update_of_ne hkk _ _
  cases hp with
  | last hk h₁ =>
      refine (h.cache c).move hS hk (fun he ↦ Queue.noConfusion he) hne ?_
      rw [Function.update_self, h₁]
      rfl
  | some hk h₁ =>
      have hl := (h.cache c).level _ k hk
      refine (h.cache c).stay hne fun i hi ↦ ?_
      obtain rfl := (h.cache c).filed.inj hk hi
      rw [Function.update_self]
      exact ⟨by have := hl.1; omega, fun he ↦ lt_of_le_of_lt (Nat.sub_le _ _) (hl.2 he)⟩
  | first hk =>
      have hl := (h.cache c).level _ k hk
      have hm := (h.cache c).filed.mem hk
      have hle := (h.hdr k hm.1).freecnt_le (h.size_pos k)
      refine (h.cache c).move hS hk (fun he ↦ Queue.noConfusion he) hne ?_
      rw [Function.update_self]
      refine ⟨by have := hl.1; omega, fun _ ↦ ?_⟩
      rw [Mem.size, hm.2] at hle
      have h₂ : 2 ≤ s.freecnt k := hl.1
      exact lt_of_lt_of_le (Nat.sub_lt (by omega) Nat.one_pos) hle

/-- Taking an object of the chosen slab. -/
theorem take (h : Inv v sz s) {sc : Cache} (hp : Picked s c k sc) :
    ∃ p t, Slab.take (s.setCache c sc) k = .ok (p, t) ∧ Inv v sz t ∧ p ∉ s.live ∧
      t.live = insert p s.live := by
  obtain ⟨⟨hk, rfl⟩, hpos, hsz⟩ := h.picked_mem hp
  have hh := h.hdr k hk
  have hsp := h.size_pos k
  have hlt : s.freecnt k < 2 ^ 32 :=
    lt_of_le_of_lt ((hh.freecnt_le hsp).trans (slabobjs_le v hsp)) (by decide)
  cases hq : (s.hdr k).freeq with
  | nil =>
      have hcnt := hh.cnt
      rw [hq] at hcnt
      exact absurd hcnt (Nat.ne_of_gt hpos)
  | cons oh q =>
      have hoh : oh ∈ (s.hdr k).freeq := by rw [hq]; exact List.mem_cons_self
      have hobj := hh.sub oh hoh
      have hnl : oh ∉ s.live := fun hl ↦ (hh.live oh hobj).1 hl hoh
      refine ⟨oh, _, take_eq (s := s.setCache (s.hdr k).cache sc) hq, ?_, hnl, rfl⟩
      refine h.update hk rfl hsz ?_ (hh.take hsp hq) fun x hx ↦ ?_
      · have hd : dec (s.hdr k).freecnt = s.freecnt k - 1 := dec_eq hpos hlt
        have hci := h.picked_cache hp
        rwa [← hd] at hci
      · show x ∈ insert oh s.live ↔ x ∈ s.live
        rw [Finset.mem_insert, or_iff_right]
        rintro rfl
        exact hx hobj

/-- A slab that was just grown is there to be chosen. -/
theorem pick_grow (hg : Slab.grow v s c (some k) = .ok t) : pick t c ≠ none := by
  have he : (t.cache c).q .emptyq = k :: (s.cache c).q .emptyq := by
    rw [← Except.ok.inj hg]
    simp [Mem.setCache, Mem.setHdr, Cache.incr, Cache.insert, Bins.insert]
  unfold pick
  split
  · split <;> exact Option.some_ne_none _
  · rw [he]
    exact Option.some_ne_none _

/-- `alloc_opq` returns an object that was not live, unless the caches have no free
object and there is no memory for a slab. -/
theorem alloc (h : Inv v sz s) (hf : Fresh v s ks) :
    (∃ p t, allocOpq v s c ks = .ok (p, t) ∧ Inv v sz t ∧ p ∉ s.live ∧ t.live = insert p s.live) ∨
      ks = [] ∧ allocOpq v s c ks = .error .oom := by
  rw [allocOpq]
  unfold allocTries
  cases hp : pick s c with
  | some r =>
      obtain ⟨k, sc⟩ := r
      exact .inl (h.take (pick_some hp))
  | none =>
      cases ks with
      | nil => exact .inr ⟨rfl, rfl⟩
      | cons k ks =>
          obtain ⟨s₁, hg⟩ : ∃ s₁, Slab.grow v s c (some k) = .ok s₁ := ⟨_, rfl⟩
          have hlive : s₁.live = s.live := by rw [← Except.ok.inj hg]; rfl
          have h₁ : Inv v sz s₁ := h.grow c hf.head hg
          simp only [List.head?_cons, hg, List.tail_cons]
          unfold allocTries
          -- the block just obtained is on `emptyq`
          cases hp₁ : pick s₁ c with
          | none => exact absurd hp₁ (pick_grow hg)
          | some r =>
              obtain ⟨k₁, sc⟩ := r
              rw [← hlive]
              exact .inl (h₁.take (pick_some hp₁))

end Inv

/-! ## Freeing -/

theorem refile_objsize (v : Variant) (sc : Cache) (k n : Nat) :
    (refile v sc k n).objsize = sc.objsize := by
  unfold refile
  split
  · rfl
  · split <;> rfl

/-- A slab with one more free object is on the queue it belongs to. -/
theorem CacheInv.refile {sc : Cache} {S : Set Nat} {f : Nat → Nat} (h : CacheInv v sc S f)
    (hS : ∀ k ∈ S, k < 2 ^ 31) (h₂ : 2 ≤ slabobjs v sc.objsize) (hk : k ∈ S)
    (hlt : f k < slabobjs v sc.objsize) :
    CacheInv v (refile v sc k (f k + 1)) S (Function.update f k (f k + 1)) := by
  have hne : ∀ k' ∈ S, k' ≠ k → Function.update f k (f k + 1) k' = f k' :=
    fun k' _ hkk ↦ Function.update_of_ne hkk _ _
  obtain ⟨i, hi⟩ := h.filed.mem_iff.1 hk
  have hl := h.level i k hi
  unfold Slab.refile
  split
  · -- the slab was full
    rename_i h₁
    have hi' : i = .fullq := by
      cases i with
      | emptyq => exact absurd hl.1 (by omega)
      | freeq => exact absurd hl.1 (by omega)
      | fullq => rfl
    subst hi'
    refine h.move hS hi (fun he ↦ Queue.noConfusion he) hne ?_
    rw [Function.update_self, h₁]
    exact ⟨le_rfl, fun _ ↦ h₂⟩
  · rename_i h₁
    have h₀ : f k ≠ 0 := fun he ↦ h₁ (by rw [he])
    split
    · -- the slab has `max_objs` free objects
      rename_i hm
      have hi' : i = .freeq := by
        cases i with
        | emptyq => exact absurd hl.2 (by omega)
        | freeq => rfl
        | fullq => exact absurd hl h₀
      subst hi'
      refine h.move hS hi (fun he ↦ Queue.noConfusion he) hne ?_
      rw [Function.update_self]
      exact ⟨by omega, hm.ge⟩
    · rename_i hm
      refine h.stay hne fun j hj ↦ ?_
      obtain rfl := h.filed.inj hi hj
      rw [Function.update_self]
      cases i with
      | emptyq => exact ⟨hl.1.trans (Nat.le_succ _), hl.2.trans (Nat.le_succ _)⟩
      | freeq =>
          refine ⟨Nat.le_add_left 1 _, fun he ↦ lt_of_le_of_ne hlt fun he' ↦ hm ?_⟩
          exact he'.trans he.symm
      | fullq => exact absurd hl h₀

namespace Inv

/-- The header found for a live object is its slab's. -/
theorem slabgethdr (h : Inv v sz s) (hx : ptr ∈ s.live) :
    Slab.slabgethdr v s ptr = .ok (some (ptr / slabsize v)) := by
  obtain ⟨hk, _⟩ := h.mem_of_live hx
  cases v with
  | fixmem => simp only [Slab.slabgethdr, hk, if_true]
  | structs => simp only [Slab.slabgethdr, (h.hdr _ hk).magic, if_true]

/-- `free` of a live object. -/
theorem free (h : Inv v sz s) (hx : ptr ∈ s.live) :
    ∃ t, Slab.free v s ptr = .ok t ∧ Inv v sz t ∧ t.live = s.live.erase ptr := by
  obtain ⟨hk, hobj⟩ := h.mem_of_live hx
  refine ⟨release v s (ptr / slabsize v) ptr, by rw [Slab.free, h.slabgethdr hx], ?_, rfl⟩
  generalize ptr / slabsize v = k at hk hobj
  have hsp := h.size_pos k
  obtain ⟨hlt, hh'⟩ := (h.hdr k hk).give hsp hobj hx
  have hinc : inc (s.hdr k).freecnt = s.freecnt k + 1 :=
    inc_eq (lt_of_le_of_lt (hlt.trans_le (slabobjs_le v hsp)) (by decide))
  refine h.update hk rfl (refile_objsize _ _ _ _) ?_ hh' fun x hn ↦ ?_
  · have hci := (h.cache (s.hdr k).cache).refile (h.slabsOf_lt _) (h.objs _) ⟨hk, rfl⟩ hlt
    rwa [← hinc] at hci
  · rw [Finset.mem_erase, and_iff_right]
    rintro rfl
    exact hn hobj

end Inv

/-! ## Shrinking -/

theorem structsShrink_nil {φ : Type} {s : Mem φ} (h : (s.cache c).q .emptyq = []) :
    structsShrink s c = (0, s) := by
  rw [structsShrink.eq_def]
  split
  · rfl
  · rename_i hq
    rw [h] at hq
    cases hq

theorem structsShrink_cons {φ : Type} {s : Mem φ} {l : List Nat}
    (h : (s.cache c).q .emptyq = k :: l) :
    structsShrink s c =
      ((structsShrink (shrinkOne s c k) c).1 + 1, (structsShrink (shrinkOne s c k) c).2) := by
  rw [structsShrink.eq_def]
  split
  · rename_i hq
    rw [h] at hq
    cases hq
  · rename_i hq
    rw [h] at hq
    cases hq
    rfl

namespace Inv

/-- Where `grow` and `free` agree, the slabs of `emptyq` have no live object. -/
theorem not_live_of_emptyq (h : Inv v sz s)
    (he : maxObjs v (s.cache c).objsize = slabobjs v (s.cache c).objsize)
    (hk : k ∈ (s.cache c).q .emptyq) : ∀ x ∈ objects v (s.size k) k, x ∉ s.live := by
  obtain ⟨hm, rfl⟩ := (h.cache c).filed.mem hk
  have hl := ((h.cache _).level _ k hk).2
  have hh := h.hdr k hm
  apply (hh.none_live (h.size_pos k)).1
  exact le_antisymm (hh.freecnt_le (h.size_pos k)) (he.symm.le.trans hl)

/-- One iteration of `shrink`. -/
theorem shrinkOne (h : Inv v sz s)
    (he : maxObjs v (s.cache c).objsize = slabobjs v (s.cache c).objsize)
    (hk : k ∈ (s.cache c).q .emptyq) : Inv v sz (Slab.shrinkOne s c k) := by
  have hnl := h.not_live_of_emptyq he hk
  obtain ⟨hm, hc⟩ := (h.cache c).filed.mem hk
  have hobjsize : ∀ c', ((Slab.shrinkOne s c k).cache c').objsize = (s.cache c').objsize := by
    intro c'
    by_cases hcc : c' = c
    · subst hcc
      simp [Slab.shrinkOne, Mem.setCache, Cache.remove, Cache.decr]
    · simp [Slab.shrinkOne, Mem.setCache, hcc]
  have hsize : ∀ k', (Slab.shrinkOne s c k).size k' = s.size k' := fun k' ↦ hobjsize _
  have hslab : ∀ k', k' ∈ (Slab.shrinkOne s c k).slabs ↔ k' ≠ k ∧ k' ∈ s.slabs :=
    fun k' ↦ Finset.mem_erase
  refine ⟨fun c' ↦ (hobjsize c').trans (h.size c'), fun c' ↦ ?_, fun k' hk' ↦ ?_, fun c' ↦ ?_,
    fun k' hk' ↦ ?_, fun x hx ↦ ?_⟩
  · rw [hobjsize]
    exact h.objs c'
  · exact h.slab k' ((hslab k').1 hk').2
  · have hS : (Slab.shrinkOne s c k).slabsOf c' = s.slabsOf c' \ {k} := by
      ext k'
      constructor
      · rintro ⟨hm', hc'⟩
        obtain ⟨hne, hm'⟩ := (hslab k').1 hm'
        exact ⟨⟨hm', hc'⟩, hne⟩
      · rintro ⟨⟨hm', hc'⟩, hne⟩
        exact ⟨(hslab k').2 ⟨hne, hm'⟩, hc'⟩
    rw [hS]
    by_cases hcc : c' = c
    · subst hcc
      have hcache : (Slab.shrinkOne s c' k).cache c' = ((s.cache c').remove k).decr .emptyq := by
        simp [Slab.shrinkOne, Mem.setCache]
      rw [hcache]
      exact (h.cache c').shrink (h.slabsOf_lt c') hk
    · have hcache : (Slab.shrinkOne s c k).cache c' = s.cache c' := by
        simp [Slab.shrinkOne, Mem.setCache, hcc]
      have hk' : k ∉ s.slabsOf c' := fun hkc ↦ hcc (hkc.2.symm.trans hc)
      rw [hcache, Set.sdiff_singleton_eq_self hk']
      exact h.cache c'
  · rw [hsize]
    exact h.hdr k' ((hslab k').1 hk').2
  · obtain ⟨k', hk', ho⟩ := h.live x hx
    refine ⟨k', (hslab k').2 ⟨?_, hk'⟩, ?_⟩
    · rintro rfl
      exact hnl x ho hx
    · rwa [hsize]

/-- `structs_shrink` releases slabs and leaves the live objects alone. -/
theorem shrink (h : Inv .structs sz s) (c : Nat) :
    Inv .structs sz (structsShrink s c).2 ∧ (structsShrink s c).2.live = s.live := by
  induction s using structsShrink.induct (c := c) with
  | case1 s hq =>
      rw [structsShrink_nil hq]
      exact ⟨h, rfl⟩
  | case2 s k l hq ih =>
      rw [structsShrink_cons hq]
      have hk : k ∈ (s.cache c).q .emptyq := by rw [hq]; exact List.mem_cons_self
      exact ih (h.shrinkOne rfl hk)

/-! ## Every call -/

/-- A call returns, unless it needs memory for a slab and there is none, and keeps
the invariant. -/
theorem exec (h : Inv v sz s) {op : Op} (ha : Allowed v s op) :
    (∃ r t, Slab.exec v s op = .ok (r, t) ∧ Inv v sz t) ∨
      Slab.exec v s op = .error .oom ∧ ∃ c, op = .alloc c [] ∨ op = .grow c none := by
  cases op with
  | alloc c ks =>
      rcases h.alloc (c := c) ha with ⟨p, t, ht, hi, _⟩ | ⟨rfl, he⟩
      · exact .inl ⟨p, t, ht, hi⟩
      · exact .inr ⟨he, c, .inl rfl⟩
  | free ptr =>
      obtain ⟨t, ht, hi, _⟩ := h.free ha
      exact .inl ⟨0, t, by rw [Slab.exec, ht]; rfl, hi⟩
  | grow c k =>
      cases k with
      | none => exact .inr ⟨rfl, c, .inr rfl⟩
      | some k => exact .inl ⟨1, _, rfl, h.grow c ha rfl⟩
  | shrink c =>
      obtain rfl : v = .structs := ha
      exact .inl ⟨_, _, rfl, (h.shrink c).1⟩

/-- Every run keeps the invariant. -/
theorem run (h : Inv v sz s) {as : List Op} (hr : Run (Step v) s as t) : Inv v sz t := by
  refine hr.invariant (I := Inv v sz) (fun s op t hs hst ↦ ?_) h
  obtain ⟨ha, r, hr⟩ := hst
  rcases hs.exec ha with ⟨r', t', ht, hi⟩ | ⟨he, _⟩
  · rw [ht] at hr
    cases hr
    exact hi
  · rw [he] at hr
    cases hr

end Inv

end Mh.Slab
