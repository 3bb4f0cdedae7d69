import Mh.Slab.Linked

/-!
# Classification of slabs

A cache is classified when its queues say how much of each slab is in use: the
slabs of `emptyq` have no live object, those of `fullq` no free one, those of
`freeq` both, and the counters are the lengths of the queues.  It is what makes
`shrink` safe, which gives back the slabs of `emptyq` without looking.

The free lists are those in memory (`Linked`), so the objects have to have room for
a link: where they have none, the list of a new slab is not what its header counts
(`structs_small`).

For structures that have, it always holds.  For fixed memory it depends on the size of the
objects: `grow` puts `PAGE_SIZE / size` objects in a page, but `free` takes a page
for empty when `(PAGE_SIZE - 64) / size` of them are free, as if the page began
with its header.  The two agree when at least 64 bytes of a page are left over.
-/

namespace Mh.Slab

open Mh.Lib Mh.Lib.Bins Mh.Lib.Slist

variable {v : Variant} {s : Mem} {l : Linked} {c k : Nat} {reg : Nat → Reg} {sz : Nat → Nat}
  {m : Bytes.Mem} {as : List Linked.Act}

/-- The queues of cache `c` tell the use of its slabs. -/
structure Classified {φ : Type} (v : Variant) (s : Mem φ) (c : Nat) : Prop where
  mem : ∀ k, (∃ i, k ∈ (s.cache c).q i) ↔ k ∈ s.slabsOf c
  empty : ∀ k ∈ s.slabsOf c, k ∈ (s.cache c).q .emptyq ↔
    ∀ x ∈ objects v (s.cache c).objsize k, x ∉ s.live
  full : ∀ k ∈ s.slabsOf c, k ∈ (s.cache c).q .fullq ↔
    ∀ x ∈ objects v (s.cache c).objsize k, x ∈ s.live
  free : ∀ k ∈ s.slabsOf c, k ∈ (s.cache c).q .freeq ↔
    (∃ x ∈ objects v (s.cache c).objsize k, x ∈ s.live) ∧
      ∃ x ∈ objects v (s.cache c).objsize k, x ∉ s.live
  cnt : ∀ i, (s.cache c).cnt i = ((s.cache c).q i).length

/-- The invariant classifies the caches for which `grow` and `free` agree. -/
theorem Inv.classified (h : Inv v sz s)
    (he : maxObjs v (s.cache c).objsize = slabobjs v (s.cache c).objsize) :
    Classified v s c := by
  have hc := h.cache c
  -- the queue of a slab, from its number of free objects
  have hempty : ∀ k ∈ s.slabsOf c,
      k ∈ (s.cache c).q .emptyq ↔ s.freecnt k = slabobjs v (s.cache c).objsize := by
    rintro k ⟨hk, rfl⟩
    have hle := (h.hdr k hk).freecnt_le (h.size_pos k)
    obtain ⟨i, hi⟩ := hc.filed.mem_iff.1 ⟨hk, rfl⟩
    have hl := hc.level i k hi
    constructor
    · intro hm
      exact le_antisymm hle (he.symm.le.trans (hc.level _ k hm).2)
    · intro hf
      cases i with
      | emptyq => exact hi
      | freeq => exact absurd hf (hl.2 he).ne
      | fullq =>
          have h₂ := h.objs (s.hdr k).cache
          rw [← hf, show s.freecnt k = 0 from hl] at h₂
          exact absurd h₂ (by decide)
  have hfull : ∀ k ∈ s.slabsOf c, k ∈ (s.cache c).q .fullq ↔ s.freecnt k = 0 := by
    rintro k ⟨hk, rfl⟩
    obtain ⟨i, hi⟩ := hc.filed.mem_iff.1 ⟨hk, rfl⟩
    have hl := hc.level i k hi
    constructor
    · intro hm
      exact hc.level _ k hm
    · intro hf
      cases i with
      | emptyq => exact absurd hl.1 (by omega)
      | freeq => exact absurd hl.1 (by omega)
      | fullq => exact hi
  have hfree : ∀ k ∈ s.slabsOf c, k ∈ (s.cache c).q .freeq ↔
      k ∉ (s.cache c).q .fullq ∧ k ∉ (s.cache c).q .emptyq := by
    intro k hk
    constructor
    · intro hm
      refine ⟨fun hm' ↦ ?_, fun hm' ↦ ?_⟩
      · exact Queue.noConfusion (hc.filed.inj hm hm')
      · exact Queue.noConfusion (hc.filed.inj hm hm')
    · rintro ⟨hn, hn'⟩
      obtain ⟨i, hi⟩ := hc.filed.mem_iff.1 hk
      cases i with
      | emptyq => exact absurd hi hn'
      | freeq => exact hi
      | fullq => exact absurd hi hn
  have hempty' : ∀ k ∈ s.slabsOf c, k ∈ (s.cache c).q .emptyq ↔
      ∀ x ∈ objects v (s.cache c).objsize k, x ∉ s.live := by
    intro k hk
    rw [hempty k hk]
    obtain ⟨hk, rfl⟩ := hk
    exact (h.hdr k hk).none_live (h.size_pos k)
  have hfull' : ∀ k ∈ s.slabsOf c, k ∈ (s.cache c).q .fullq ↔
      ∀ x ∈ objects v (s.cache c).objsize k, x ∈ s.live := by
    intro k hk
    rw [hfull k hk]
    obtain ⟨hk, rfl⟩ := hk
    exact (h.hdr k hk).all_live
  refine ⟨fun k ↦ hc.filed.mem_iff.symm, hempty', hfull', fun k hk ↦ ?_, hc.cnt⟩
  rw [hfree k hk, hfull' k hk, hempty' k hk, and_comm]
  push Not
  rfl

/-- The representation does not matter. -/
theorem Rep.classified (hr : Rep l s) (h : Classified v s c) : Classified v l.mem c := by
  cases hr
  exact ⟨h.mem, h.empty, h.full, h.free, h.cnt⟩

/-! ## Structures -/

/-- The size of the object at an address. -/
def Mem.sizeAt {φ : Type} (v : Variant) (s : Mem φ) (x : Nat) : Nat := s.size (x / slabsize v)

/-- What the users of the structure caches rely on: the live objects are inside
slabs, behind the header, and do not overlap; the slabs are counted and filed by
their use. -/
structure StructsSafe (l : Linked) : Prop where
  ne_null : ∀ x ∈ l.mem.live, x ≠ 0
  inside : ∀ x ∈ l.mem.live, x / slabsize .structs ∈ l.mem.slabs ∧
    slabhdrSize ≤ x % slabsize .structs ∧
    x % slabsize .structs + l.mem.sizeAt .structs x ≤ slabsize .structs
  disjoint : ∀ x ∈ l.mem.live, ∀ y ∈ l.mem.live, x ≠ y →
    x + l.mem.sizeAt .structs x ≤ y ∨ y + l.mem.sizeAt .structs y ≤ x
  freecnt : ∀ k ∈ l.mem.slabs, ∃ q, Leads objhdrSize l.bytes (l.mem.hdr k).freeq q ∧
    (l.mem.hdr k).freecnt = q.length
  classified : ∀ c, Classified .structs l.mem c

theorem Rep.structsSafe (hr : Rep l s) (h : Inv .structs sz s) : StructsSafe l := by
  refine ⟨?_, ?_, ?_, ?_, fun c ↦ hr.classified (h.classified rfl)⟩
  all_goals cases hr with | intro _ first m hleads
  · intro x hx
    obtain ⟨k, _, ho⟩ := h.live x hx
    have hle := (bound_of_mem_objects ho).1
    have h₆₄ : firstObj .structs = 64 := rfl
    omega
  · intro x hx
    obtain ⟨hk, ho⟩ := h.mem_of_live hx
    have hlt := bound_of_mem_objects ho
    rw [Nat.succ_mul] at hlt
    have hdm := Nat.div_add_mod' x (slabsize .structs)
    have h₆₄ : firstObj .structs = slabhdrSize := rfl
    have hsize : (s.relink first).sizeAt .structs x = s.size (x / slabsize .structs) := rfl
    exact ⟨hk, by omega, by rw [hsize]; omega⟩
  · intro x hx y hy hne
    have hox := (h.mem_of_live hx).2
    have hoy := (h.mem_of_live hy).2
    rcases lt_or_gt_of_ne hne with hlt | hlt
    · exact .inl (s.objects_apart hox hoy hlt)
    · exact .inr (s.objects_apart hoy hox hlt)
  · exact fun k hk ↦ ⟨_, hleads k hk, (h.hdr k hk).cnt⟩

/-- What a call on the structure caches does.  It fails only where it asks for a
slab and there is no memory: it never takes an object from an empty free list.  An
allocation returns a new object. -/
structure CallSafe (l : Linked) (op : Op) : Prop where
  error : ∀ e, Linked.exec .structs l op = .error e →
    e = .oom ∧ ∃ c, op = .alloc c [] ∨ op = .grow c none
  alloc : ∀ c ks p l', op = .alloc c ks → Linked.exec .structs l op = .ok (p, l') →
    p ≠ 0 ∧ p ∉ l.mem.live ∧ l'.mem.live = insert p l.mem.live ∧ StructsSafe l'
  shrink : ∀ c n l', op = .shrink c → Linked.exec .structs l op = .ok (n, l') →
    l'.mem.live = l.mem.live ∧
      ∀ k ∈ l.mem.slabs, k ∉ l'.mem.slabs → ∀ x ∈ l.mem.live, x / slabsize .structs ≠ k

theorem Rep.live (hr : Rep l s) : l.mem.live = s.live := by
  cases hr
  rfl

theorem Rep.slabs (hr : Rep l s) : l.mem.slabs = s.slabs := by
  cases hr
  rfl

theorem Rep.callSafe (hr : Rep l s) (h : Inv .structs sz s) (hlink : ∀ c, objhdrSize ≤ sz c)
    {op : Op} (ha : Allowed .structs s op) : CallSafe l op := by
  have hagree := hr.exec h hlink ha
  refine ⟨fun e he ↦ ?_, ?_, ?_⟩
  · rcases h.exec ha with ⟨r, t, ht, _⟩ | ⟨he', hop⟩
    · rw [ht, he] at hagree
      cases hagree
    · rw [he', he] at hagree
      cases hagree
      exact ⟨rfl, hop⟩
  · rintro c ks p l' rfl hex
    rcases h.alloc (c := c) ha with ⟨p', t', ht, hi, hn, hl⟩ | ⟨_, he⟩
    · rw [Slab.exec, ht, hex] at hagree
      cases hagree with
      | ok _ hr' =>
          have hsafe := hr'.structsSafe hi
          rw [hr.live, hr'.live]
          refine ⟨hsafe.ne_null p ?_, hn, hl, hsafe⟩
          rw [hr'.live, hl]
          exact Finset.mem_insert_self p s.live
    · rw [Slab.exec, he, hex] at hagree
      cases hagree
  · rintro c n l' rfl hex
    obtain ⟨hi, hl⟩ := h.shrink c
    rw [Slab.exec, hex] at hagree
    generalize structsShrink s c = r at hagree hi hl
    cases hagree with
    | ok _ hr' =>
        rw [hr.live, hr.slabs, hr'.live, hr'.slabs]
        refine ⟨hl, fun k _ hn x hx hxk ↦ hn ?_⟩
        rw [← hl] at hx
        exact hxk ▸ (hi.mem_of_live hx).1

/-- For caches of objects that have room for a link and two or more of which fit in a
slab, in every run: the live objects are inside their slabs and apart, the slabs are
classified, every allocation returns a new object, and `shrink` keeps the slabs that
hold live objects. -/
theorem structs_safe (hreg : ∀ c, 2 ≤ slabobjs .structs (reg c).size)
    (hlink : ∀ c, (reg c).LinkFits) (hr : Run (Linked.Step .structs) (Linked.init reg m) as l) :
    StructsSafe l ∧ ∀ op, Allowed .structs l.mem op → CallSafe l op := by
  obtain ⟨s, hrep, hinv⟩ := Linked.run hreg hlink hr
  exact ⟨hrep.structsSafe hinv, fun op ha ↦ hrep.callSafe hinv hlink (hrep.allowed_iff.1 ha)⟩

/-- Caches of structures of 8000 bytes, two of which fit in a slab. -/
def pairs (_ : Nat) : Reg := ⟨8000, true⟩

theorem pairs_fit : 2 ≤ slabobjs .structs (pairs 0).size := by decide

/-- Both objects of a slab are allocated, the second is written to where its link was,
and the first is freed. -/
theorem structs_safe_demo : ∃ l,
    Run (Linked.Step .structs) (Linked.init pairs fun _ ↦ 0)
      [.call (.alloc 0 [1]), .call (.alloc 0 []), .write 16448 255, .call (.free 24448)] l ∧
      l.mem.live = {16448} ∧ StructsSafe l := by
  have hnil : ∀ s : Mem Nat, Fresh .structs s [] := fun s ↦
    ⟨List.nodup_nil, by simp, by simp, by simp⟩
  have hrun : Run (Linked.Step .structs) (Linked.init pairs fun _ ↦ 0)
      [.call (.alloc 0 [1]), .call (.alloc 0 []), .write 16448 255, .call (.free 24448)] _ :=
    .cons ⟨⟨List.nodup_singleton 1, by simp [Linked.init, Mem.init], by simp, by simp [slabsize]⟩,
        24448, rfl⟩
      (.cons ⟨hnil _, 16448, rfl⟩
        (.cons ⟨by decide, rfl⟩
          (.cons ⟨Finset.mem_insert_of_mem (Finset.mem_insert_self _ _), 0, rfl⟩ (.nil _))))
  exact ⟨_, hrun, by decide, (structs_safe (fun _ ↦ pairs_fit) (fun _ ↦ by decide) hrun).1⟩

/-- Caches of structures of one byte. -/
def bytesOnly (_ : Nat) : Reg := ⟨1, false⟩

/-- The links of such objects overlap: the free list of the block at 0xc8000000 leads to its last
two objects, and out of the block. -/
theorem leads_bytesOnly : Leads objhdrSize (Linked.growList .structs 1 204800 fun _ ↦ 0).2
    (Linked.growList .structs 1 204800 fun _ ↦ 0).1 [0xc8003fff, 0xc8003ffe, 0x3ffefd] := by
  have hgrow : Linked.growList .structs 1 204800 (fun _ ↦ 0) =
      Linked.linkObjs 1 2 0xc8003ffe (Linked.linkObjs 1 16318 0xc8000040 (0, fun _ ↦ 0)) :=
    linkObjs_add 1 16318 2 0xc8000040 (0, fun _ ↦ 0)
  have hfst : (Linked.linkObjs 1 16318 0xc8000040 (0, fun _ ↦ 0)).1 = 0xc8003ffd :=
    linkObjs_fst 1 16317 0xc8000040 _
  have hbelow : ∀ a < 0xc8000040,
      (Linked.linkObjs 1 16318 0xc8000040 (0, fun _ ↦ 0)).2 a = 0 := fun a ha ↦
    linkObjs_below ha
  rw [hgrow]
  generalize Linked.linkObjs 1 16318 0xc8000040 (0, fun _ ↦ 0) = r at hfst hbelow
  obtain ⟨p, m⟩ := r
  obtain rfl : p = 0xc8003ffd := hfst
  replace hbelow : ∀ a < 0xc8000040, m a = 0 := hbelow
  have hbytes : (Linked.linkObjs 1 2 0xc8003ffe (0xc8003ffd, m)).2 =
      Bytes.storeNat (Bytes.storeNat m 0xc8003ffe 4 0xc8003ffd) 0xc8003fff 4 0xc8003ffe := rfl
  have hlast : Bytes.loadNat (Linked.linkObjs 1 2 0xc8003ffe (0xc8003ffd, m)).2 0xc8003fff 4 =
      0xc8003ffe := by
    rw [hbytes, Bytes.loadNat_storeNat]
    decide
  -- the three upper bytes of this link are those of the last one
  have hbroken : Bytes.loadNat (Linked.linkObjs 1 2 0xc8003ffe (0xc8003ffd, m)).2 0xc8003ffe 4 =
      0x3ffefd := by
    simp [hbytes, Bytes.loadNat, Bytes.storeNat, Function.update]
  have hout : Bytes.loadNat (Linked.linkObjs 1 2 0xc8003ffe (0xc8003ffd, m)).2 0x3ffefd 4 = 0 := by
    simp [hbytes, Bytes.loadNat, Bytes.storeNat, Function.update, hbelow]
  refine ⟨rfl, by decide, ?_⟩
  rw [objhdrSize, hlast]
  refine ⟨rfl, by decide, ?_⟩
  rw [hbroken]
  exact ⟨rfl, by decide, hout⟩

/-- Of objects that have no room for a link the free list is not what the header counts as soon as
a slab is grown. -/
theorem structs_small : ¬ ∀ (reg : Nat → Reg) (m : Bytes.Mem) (as : List Linked.Act) (l : Linked),
    (∀ c, 2 ≤ slabobjs .structs (reg c).size) →
    Run (Linked.Step .structs) (Linked.init reg m) as l →
    StructsSafe l ∧ ∀ op, Allowed .structs l.mem op → CallSafe l op := by
  intro hall
  have hfit : ∀ c, 2 ≤ slabobjs .structs (bytesOnly c).size := fun _ ↦
    (by decide : 2 ≤ slabobjs .structs 1)
  obtain ⟨l, hl, hgrown⟩ := Linked.exists_grown .structs (Linked.init bytesOnly fun _ ↦ 0) 0 204800
  have hsize : ((Linked.init bytesOnly fun _ ↦ 0).mem.cache 0).objsize = 1 := rfl
  rw [hsize] at hgrown
  have hrun : Run (Linked.Step .structs) (Linked.init bytesOnly fun _ ↦ 0)
      [.call (.grow 0 (some 204800))] l :=
    .cons ⟨⟨by decide, by decide, by decide, by decide⟩, 1, by rw [Linked.exec, hl]; rfl⟩ (.nil l)
  have hk : 204800 ∈ l.mem.slabs := by
    rw [hgrown.slabs]
    exact Finset.mem_insert_self _ _
  obtain ⟨q, hq, hcnt⟩ := (hall _ _ _ _ hfit hrun).1.freecnt 204800 hk
  rw [hgrown.hdr, hgrown.bytes] at hq
  dsimp only [Linked.init] at hq
  rw [hgrown.hdr, hq.eq leads_bytesOnly] at hcnt
  exact absurd hcnt (by decide)

/-! ## Fixed memory -/

/-- `grow` and `free` agree when at least 64 bytes of a page are left over. -/
theorem maxObjs_eq_iff {size : Nat} (h : 2 ≤ slabobjs .fixmem size) :
    maxObjs .fixmem size = slabobjs .fixmem size ↔ 64 ≤ pageSize % size := by
  have hs := size_pos h
  have hdm := Nat.div_add_mod' pageSize size
  have hlt := Nat.mod_lt pageSize hs
  show (pageSize - 64) / size = pageSize / size ↔ 64 ≤ pageSize % size
  constructor
  · intro he
    by_contra hn
    have hd : (pageSize - 64) / size < pageSize / size := by
      rw [Nat.div_lt_iff_lt_mul hs]
      have hp : 64 < pageSize := by decide
      omega
    exact absurd he hd.ne
  · intro hr
    apply Nat.div_eq_of_lt_le
    · omega
    · rw [Nat.succ_mul]
      omega

/-- The first allocation from a cache, of whatever size. -/
theorem alloc_first (hreg : 2 ≤ slabobjs v (reg c).size) (hk : k ≠ 0) (m : Bytes.Mem) :
    ∃ p l, Linked.allocOpq v (Linked.init reg m) c [k] = .ok (p, l) ∧
      p ∈ objects v (reg c).size k ∧ l.mem.live = {p} ∧ l.mem.slabs = {k} ∧
      (l.mem.hdr k).cache = c ∧ l.mem.freecnt k = slabobjs v (reg c).size - 1 ∧
      (l.mem.cache c).q .freeq = [k] ∧ (l.mem.cache c).objsize = (reg c).size := by
  have hs := size_pos hreg
  obtain ⟨l₁, hl₁, hg⟩ := Linked.exists_grown v (Linked.init reg m) c k
  change Linked.Grown v _ c k (reg c).size l₁ at hg
  have hcache : l₁.mem.cache c = ((Cache.register (reg c)).insert .emptyq k).incr .emptyq :=
    hg.cache
  have hpick : pick l₁.mem c = some (k, (l₁.mem.cache c).move k .emptyq .freeq) := by
    have h₁ : (l₁.mem.cache c).q .freeq = [] := by rw [hcache]; rfl
    have h₂ : (l₁.mem.cache c).q .emptyq = [k] := by rw [hcache]; rfl
    rw [pick, h₁, h₂]
  -- the first free object is the last one of the slab
  obtain ⟨n, hn⟩ : ∃ n, slabobjs v (reg c).size = n + 1 := ⟨_, (Nat.succ_pred (by omega)).symm⟩
  have hfirst : (l₁.mem.hdr k).freeq = objAddr v (reg c).size k n := by
    rw [hg.hdr]
    dsimp only
    rw [Linked.growList, hn, linkObjs_fst]
    rfl
  have hobj : objAddr v (reg c).size k n ∈ objects v (reg c).size k :=
    mem_objects.2 ⟨n, by omega, rfl⟩
  have hne : objAddr v (reg c).size k n ≠ 0 := by
    have hlo := (bound_of_mem_objects hobj).1
    have hpos := Nat.mul_pos (Nat.pos_of_ne_zero hk) (slabsize_pos (v := v))
    omega
  have halloc : Linked.allocOpq v (Linked.init reg m) c [k] =
      Linked.take { l₁ with mem := l₁.mem.setCache c ((l₁.mem.cache c).move k .emptyq .freeq) }
        k := by
    rw [Linked.allocOpq]
    unfold Linked.allocTries
    rw [show pick (Linked.init reg m).mem c = none from rfl]
    simp only [List.head?_cons, hl₁, List.tail_cons]
    unfold Linked.allocTries
    rw [hpick]
  have htake : Linked.take { l₁ with
      mem := l₁.mem.setCache c ((l₁.mem.cache c).move k .emptyq .freeq) } k =
        .ok ((l₁.mem.hdr k).freeq, _) := if_neg (by rw [← hfirst] at hne; exact hne)
  rw [hfirst] at htake
  refine ⟨_, _, halloc.trans htake, hobj, ?_, ?_, ?_, ?_, ?_, ?_⟩
  · show Insert.insert (l₁.mem.hdr k).freeq l₁.mem.live = _
    rw [hfirst, hg.live]
    rfl
  · show l₁.mem.slabs = _
    rw [hg.slabs]
    rfl
  · simp [Mem.setHdr, Mem.setCache, hg.hdr]
  · have hd : dec (slabobjs v (reg c).size) = slabobjs v (reg c).size - 1 :=
      dec_eq (by omega) (lt_of_le_of_lt (slabobjs_le v hs) (by decide))
    simp [Mem.freecnt, Mem.setHdr, Mem.setCache, hg.hdr, hd]
  · simp [Mem.setHdr, Mem.setCache, hcache, Cache.move, Cache.incr, Cache.decr, Cache.insert,
      Cache.remove, Cache.register, Bins.insert, Bins.remove]
  · simp [Mem.setHdr, Mem.setCache, hcache, Cache.move, Cache.incr, Cache.decr, Cache.insert,
      Cache.remove, Cache.register]

/-- Where `grow` and `free` disagree, a page whose only live object is freed stays on
`freeq`. -/
theorem exists_unclassified (hreg : 2 ≤ slabobjs .fixmem (reg c).size)
    (hne : maxObjs .fixmem (reg c).size ≠ slabobjs .fixmem (reg c).size) (m : Bytes.Mem) :
    ∃ as l, Run (Linked.Step .fixmem) (Linked.init reg m) as l ∧ ¬ Classified .fixmem l.mem c := by
  obtain ⟨p, l, hl, hobj, hlive, hslabs, hhdr, hcnt, hq, hsz⟩ := alloc_first hreg Nat.one_ne_zero m
  have hf : Fresh .fixmem (Linked.init reg m).mem [1] :=
    ⟨List.nodup_singleton 1, List.forall_mem_singleton.2 (Finset.notMem_empty 1), by decide,
      by decide⟩
  have hp : p ∈ l.mem.live := by rw [hlive]; exact Finset.mem_singleton_self p
  have h₁ : Linked.Step .fixmem (Linked.init reg m) (.call (.alloc c [1])) l := ⟨hf, p, hl⟩
  have hk : p / slabsize .fixmem = 1 := div_of_mem_objects (size_pos hreg) hobj
  have hfree : Linked.free .fixmem l p = .ok (l.release .fixmem 1 p) := by
    rw [Linked.free, slabgethdr, hk]
    simp only [hslabs, Finset.mem_singleton, if_true]
  refine ⟨[.call (.alloc c [1]), .call (.free p)], l.release .fixmem 1 p,
    .cons h₁ (.cons ⟨hp, 0, by rw [Linked.exec, hfree]; rfl⟩ (.nil _)), fun hcl ↦ ?_⟩
  -- all objects are free again, but their number is not `max_objs`
  have hinc : inc (l.mem.hdr 1).freecnt = slabobjs .fixmem (reg c).size := by
    have hle := slabobjs_le .fixmem (size_pos hreg)
    rw [show (l.mem.hdr 1).freecnt = slabobjs .fixmem (reg c).size - 1 from hcnt,
      inc_eq (by omega)]
    omega
  have hcache : (l.release .fixmem 1 p).mem.cache c = l.mem.cache c := by
    simp only [Linked.release, Mem.setCache, hhdr, Function.update_self, refile, hinc, hsz]
    rw [if_neg (by omega), if_neg (Ne.symm hne)]
  have hmem : 1 ∈ (l.release .fixmem 1 p).mem.slabsOf c := by
    refine ⟨?_, ?_⟩
    · show 1 ∈ l.mem.slabs
      rw [hslabs]
      exact Finset.mem_singleton_self 1
    · simp [Linked.release, Mem.setCache, Mem.setHdr, hhdr]
  have hnone : (l.release .fixmem 1 p).mem.live = ∅ := by
    show l.mem.live.erase p = ∅
    rw [hlive, Finset.erase_singleton]
  obtain ⟨x, _, hx⟩ := ((hcl.free 1 hmem).1 (by rw [hcache, hq]; exact List.mem_cons_self)).1
  rw [hnone] at hx
  exact Finset.notMem_empty x hx

/-- A fixed memory cache is classified in every run exactly if at least 64 bytes of a page are left
over by its objects.  The objects of the other caches have room for a link. -/
theorem fixmem_classified_iff (hreg : ∀ c, 2 ≤ slabobjs .fixmem (reg c).size) (c : Nat)
    (hlink : ∀ c' ≠ c, (reg c').LinkFits) :
    (∀ m as l, Run (Linked.Step .fixmem) (Linked.init reg m) as l → Classified .fixmem l.mem c) ↔
      64 ≤ pageSize % (reg c).size := by
  have hsz := maxObjs_eq_iff (hreg c)
  constructor
  · intro hall
    by_contra hne
    obtain ⟨as, l, hr, hn⟩ := exists_unclassified (hreg c) (mt hsz.1 hne) fun _ ↦ 0
    exact hn (hall _ as l hr)
  · intro he m as l hr
    have hfit : ∀ c, (reg c).LinkFits := by
      intro c'
      by_cases hc : c' = c
      · rw [hc]
        have hlt := Nat.mod_lt pageSize (size_pos (hreg c))
        exact le_trans (by decide) (he.trans hlt.le)
      · exact hlink c' hc
    obtain ⟨s, hrep, hinv⟩ := Linked.run hreg hfit hr
    apply hrep.classified
    apply hinv.classified
    rw [hinv.size c]
    exact hsz.2 he

/-- The caches of `fixmems_init`: `m4k`, `m12k` and `m16k`. -/
def fixmems : Nat → Reg
  | 0 => ⟨4096, false⟩
  | 1 => ⟨12 * 1024, false⟩
  | _ => ⟨16 * 1024, false⟩

theorem fixmems_fit (c : Nat) : 2 ≤ slabobjs .fixmem (fixmems c).size ∧ (fixmems c).LinkFits := by
  match c with
  | 0 => decide
  | 1 => decide
  | c + 2 => exact (by decide : 2 ≤ slabobjs .fixmem (16 * 1024) ∧ objhdrSize ≤ 16 * 1024)

/-- The 12K blocks leave 8K of a page over. -/
theorem fixmem_classified_m12k : 64 ≤ pageSize % (fixmems 1).size ∧
    ∀ m as l, Run (Linked.Step .fixmem) (Linked.init fixmems m) as l →
      Classified .fixmem l.mem 1 :=
  ⟨by decide, (fixmem_classified_iff (fun c ↦ (fixmems_fit c).1) 1
    fun c _ ↦ (fixmems_fit c).2).2 (by decide)⟩

/-- The 4K blocks fill a page, so that the free of its last live object goes
unnoticed. -/
theorem fixmem_m4k_unclassified :
    ¬ ∀ m as l, Run (Linked.Step .fixmem) (Linked.init fixmems m) as l →
      Classified .fixmem l.mem 0 := by
  intro hall
  have hne : maxObjs .fixmem (fixmems 0).size ≠ slabobjs .fixmem (fixmems 0).size := by decide
  obtain ⟨as, l, hr, hn⟩ := exists_unclassified (fixmems_fit 0).1 hne fun _ ↦ 0
  exact hn (hall _ as l hr)

end Mh.Slab
