import Mh.Pg.Model
import Mh.Zone.Lists

/-!
# Free blocks and their tags

`BInv s X`: the lists hold the blocks whose first page is tagged as one, each of them once and in
the list for its size, no two of them overlap, and the tags and records of the first and the last
page of a block say where it begins and ends.  `X` are pages whose tags are out of date: the pages
an allocation has taken off the lists and not yet given their new type.

Nothing is said of the zones: `zone_create` keeps this for a block of any pages that are not free,
whatever zone it is told to put it in (`Span.create`).
-/

namespace Mh.Pg

open Mh.Lib Mh.Zone

variable {s t : PgZones} {db : Db} {X : Set Nat} {p q x a n : Nat} {z : PfnZone}

/-! ## The database -/

section Mkptr

theorem mkptr_max (db : Db) (a n : Nat) : (db.mkptr a n).max = db.max := by
  unfold Db.mkptr
  simp only
  split <;> rfl

/-- The zones depend on the size of the database only. -/
theorem zone_congr {db' : Db} (h : db'.max = db.max) : db'.zone = db.zone := by
  funext p
  rw [Db.zone, Db.zone, h]

theorem mkptr_zone (db : Db) (a n : Nat) : (db.mkptr a n).zone = db.zone :=
  zone_congr (mkptr_max db a n)

/-- Pages outside the block keep their records. -/
theorem mkptr_outside (h : x < a ∨ a + n ≤ x) (hn : 0 < n) :
    (db.mkptr a n).pfn x = db.pfn x := by
  unfold Db.mkptr
  simp only
  split
  · simp only [Db.settypes, Db.setEntry]
    rw [if_neg (by omega), Function.update_of_ne (by omega), Function.update_of_ne (by omega)]
  · simp only [Db.settypes, Db.setEntry]
    rw [if_neg (by omega), if_neg (by omega), if_neg (by omega), Function.update_of_ne (by omega),
      Function.update_of_ne (by omega)]

theorem settypes_type (db : Db) (p n : Nat) (ty : PfnType) (x : Nat) :
    (db.settypes p n ty).type x = if p ≤ x ∧ x < p + n then ty else db.type x := by
  simp only [Db.type, Db.settypes]
  split <;> rfl

/-- The types of the pages of the block. -/
theorem mkptr_type (h : a ≤ x) (h' : x < a + n) :
    (db.mkptr a n).type x =
      if n = 1 then .freePzLone
      else if x = a then .freePzStrt
      else if x = a + n - 1 then .freePzTerm
      else .free := by
  unfold Db.mkptr
  simp only
  split
  · rw [settypes_type, if_pos (by omega)]
  · rw [settypes_type, settypes_type, settypes_type]
    by_cases hf : x = a
    · rw [if_pos hf, if_neg (by omega), if_neg (by omega), if_pos (by omega)]
    · rw [if_neg hf]
      by_cases hl : x = a + n - 1
      · rw [if_pos hl, if_pos (by omega)]
      · rw [if_neg hl, if_neg (by omega), if_pos (by omega)]

/-- The first page is the only one tagged as a start. -/
theorem mkptr_start (h : a ≤ x) (h' : x < a + n) :
    ((db.mkptr a n).type x).isPgzstart = true ↔ x = a := by
  rw [mkptr_type h h']
  split
  · exact iff_of_true rfl (by omega)
  · split
    · exact iff_of_true rfl ‹_›
    · split
      · exact iff_of_false Bool.false_ne_true ‹_›
      · exact iff_of_false Bool.false_ne_true ‹_›

/-- The last page is the only one tagged as an end. -/
theorem mkptr_term (h : a ≤ x) (h' : x < a + n) :
    ((db.mkptr a n).type x).isPgzterm = true ↔ x = a + n - 1 := by
  rw [mkptr_type h h']
  split
  · exact iff_of_true rfl (by omega)
  · split
    · exact iff_of_false Bool.false_ne_true (by omega)
    · split
      · exact iff_of_true rfl ‹_›
      · exact iff_of_false Bool.false_ne_true ‹_›

theorem settypes_entry (db : Db) (p n : Nat) (ty : PfnType) (x : Nat) :
    ((db.settypes p n ty).pfn x).addr = (db.pfn x).addr ∧
      ((db.settypes p n ty).pfn x).size = (db.pfn x).size := by
  simp only [Db.settypes]
  split <;> exact ⟨rfl, rfl⟩

/-- The record of the block is in its first and its last page. -/
theorem mkptr_entry (h : x = a ∨ x = a + n - 1) :
    ((db.mkptr a n).pfn x).addr = a ∧ ((db.mkptr a n).pfn x).size = n := by
  have hset : (((db.setEntry a a n).setEntry (a + n - 1) a n).pfn x).addr = a ∧
      (((db.setEntry a a n).setEntry (a + n - 1) a n).pfn x).size = n := by
    simp only [Db.setEntry]
    by_cases hl : x = a + n - 1
    · subst hl
      rw [Function.update_self]
      exact ⟨rfl, rfl⟩
    · obtain rfl := h.resolve_right hl
      rw [Function.update_of_ne hl, Function.update_self]
      exact ⟨rfl, rfl⟩
  unfold Db.mkptr
  simp only
  split
  · simp only [settypes_entry, hset, and_self]
  · simp only [settypes_entry, hset, and_self]

end Mkptr

/-! ## The blocks -/

/-- The pages that begin a free block. -/
def starts (s : PgZones) (X : Set Nat) : Set Nat :=
  {p | p < s.db.max ∧ p ∉ X ∧ (s.db.type p).isPgzstart = true}

/-- The range of the block that begins at a page. -/
def Db.range (db : Db) (p : Nat) : Range PfnZone := ⟨p, p + (db.pfn p).size, db.zone p⟩

@[simp] theorem range_hi (db : Db) (p : Nat) : (db.range p).hi = p + (db.pfn p).size := rfl

@[simp] theorem range_zone (db : Db) (p : Nat) : (db.range p).zone = db.zone p := rfl

@[simp] theorem range_len (db : Db) (p : Nat) : (db.range p).len = (db.pfn p).size :=
  Nat.add_sub_cancel_left _ _

theorem range_inj (db : Db) (h : db.range p = db.range q) : p = q := congrArg Range.lo h

/-- The block that begins at `p`: its first and last page say where it begins and ends. -/
structure BlockOk (db : Db) (p : Nat) : Prop where
  pos : 0 < p
  size_pos : 0 < (db.pfn p).size
  bound : p + (db.pfn p).size ≤ db.max
  addr : (db.pfn p).addr = p
  term : (db.type (p + (db.pfn p).size - 1)).isPgzterm = true
  lastAddr : (db.pfn (p + (db.pfn p).size - 1)).addr = p
  lastSize : (db.pfn (p + (db.pfn p).size - 1)).size = (db.pfn p).size

/-- The invariant. -/
structure BInv (s : PgZones) (X : Set Nat) : Prop where
  max_lt : s.db.max < 2 ^ 32
  filed : Bins.Filed s.zlist (starts s X)
  order : ∀ {b e}, e ∈ s.zlist b → b.2 = msbit (s.db.pfn e).size
  entry : ∀ p ∈ starts s X, BlockOk s.db p
  apart : ∀ p ∈ starts s X, ∀ q ∈ starts s X, p ≠ q →
    p + (s.db.pfn p).size ≤ q ∨ q + (s.db.pfn q).size ≤ p
  term : ∀ x < s.db.max, x ∉ X → (s.db.type x).isPgzterm = true →
    ∃ p ∈ starts s X, x + 1 = p + (s.db.pfn p).size
  clean : ∀ p ∈ starts s X, ∀ x, p ≤ x → x < p + (s.db.pfn p).size → x ∉ X

/-- The pages of the blocks. -/
def freeAll (s : PgZones) (X : Set Nat) : Set Nat :=
  {x | ∃ p ∈ starts s X, p ≤ x ∧ x < p + (s.db.pfn p).size}

/-- A page is in one block only. -/
theorem BInv.unique (h : BInv s X) (hp : p ∈ starts s X) (hq : q ∈ starts s X) (hx : p ≤ x)
    (hx' : x < p + (s.db.pfn p).size) (hy : q ≤ x) (hy' : x < q + (s.db.pfn q).size) : p = q := by
  by_contra hne
  have := h.apart p hp q hq hne
  omega

/-! ## Freeing

A block `[a, a + n)` of pages that are not free.  `prev` and `next` are the blocks
next to it, `joined` is the block together with them. -/

/-- The block that `___get_neighbors` finds below. -/
def prev (db : Db) (a : Nat) : Option Nat :=
  if a = 0 ∨ db.zone a ≠ db.zone (a - 1) then none
  else if (db.type (a - 1)).isPgzterm then some (a - (db.pfn (a - 1)).size) else none

/-- The block that `___get_neighbors` finds above. -/
def next (db : Db) (a n : Nat) : Option Nat :=
  if db.zone a ≠ db.zone (a + 1) then none
  else if (db.type (a + n)).isPgzstart then some (a + n) else none

/-- The block and its neighbours. -/
def joined (db : Db) (a n : Nat) : Range PfnZone :=
  Range.join a (a + n) (db.zone a) ((prev db a).map db.range) ((next db a n).map db.range)

theorem joined_lo (db : Db) (a n : Nat) : (joined db a n).lo = (prev db a).elim a id := by
  rw [joined]
  cases prev db a with
  | none => rfl
  | some p => rfl

theorem joined_hi (db : Db) (a n : Nat) :
    (joined db a n).hi = (next db a n).elim (a + n) fun p ↦ p + (db.pfn p).size := by
  rw [joined]
  cases next db a n with
  | none => rfl
  | some p => rfl

/-- The blocks that are not joined. -/
def others (s : PgZones) (X : Set Nat) (a n : Nat) : Set Nat :=
  {p ∈ starts s X | prev s.db a ≠ some p ∧ next s.db a n ≠ some p}

/-- The database after `___mkptr` of the joined block. -/
def Block.db' (s : PgZones) (a n : Nat) : Db :=
  s.db.mkptr (joined s.db a n).lo ((joined s.db a n).hi - (joined s.db a n).lo)

/-- The pages of a block. -/
def pages (a n : Nat) : Set Nat := {x | a ≤ x ∧ x < a + n}

/-- The page after the block is asked for its type. -/
def AsksAt (db : Db) (a n i : Nat) : Prop := db.zone a = db.zone (a + 1) ∧ a + n = i

/-- A block of pages, none of them free, next to which no tag is taken that is out of date or of
the entry after the last one. -/
structure Span (s : PgZones) (X : Set Nat) (a n : Nat) : Prop where
  addr_pos : 0 < a
  size_pos : 0 < n
  bound : a + n ≤ s.db.max
  clear : ∀ p ∈ starts s X, p + (s.db.pfn p).size ≤ a ∨ a + n ≤ p
  stale : a - 1 ∈ X → prev s.db a = none
  ahead : a + n ∈ X ∨ a + n = s.db.max → next s.db a n = none

/-- The block below is one that ends where the block begins. -/
theorem BInv.prev_mem (h : BInv s X) (ha : a ≤ s.db.max) (hst : a - 1 ∈ X → prev s.db a = none)
    (hp : prev s.db a = some p) : p ∈ starts s X ∧ p + (s.db.pfn p).size = a := by
  have hout : a - 1 ∉ X := by
    intro hx
    rw [hst hx] at hp
    cases hp
  rw [prev] at hp
  split at hp
  · cases hp
  · rename_i hz
    split at hp
    · rename_i ht
      cases hp
      obtain ⟨p, hp, he⟩ := h.term (a - 1) (by omega) hout ht
      have hok := h.entry p hp
      have hs := hok.size_pos
      have hls := hok.lastSize
      rw [show p + (s.db.pfn p).size - 1 = a - 1 by omega] at hls
      rw [show a - (s.db.pfn (a - 1)).size = p by omega]
      exact ⟨hp, by omega⟩
    · cases hp

/-- Where the block below begins, as `___get_neighbors` finds it from the last page. -/
theorem BInv.prev_word (h : BInv s X) (ha : a ≤ s.db.max) (hst : a - 1 ∈ X → prev s.db a = none)
    (hp : prev s.db a = some p) : w32 (a + (2 ^ 32 - (s.db.pfn (a - 1)).size)) = p := by
  have hmax := h.max_lt
  obtain ⟨hm, he⟩ := h.prev_mem ha hst hp
  have hok := h.entry _ hm
  have hs := hok.size_pos
  have hls := hok.lastSize
  rw [show p + (s.db.pfn p).size - 1 = a - 1 by omega] at hls
  rw [w32, hls]
  omega

/-- `___get_neighbors` looks for the block below. -/
theorem BInv.prevNeighbor_eq (h : BInv s X) (ha : a ≤ s.db.max)
    (hst : a - 1 ∈ X → prev s.db a = none) : prevNeighbor s.db a = .ok (prev s.db a) := by
  rw [prevNeighbor, prev]
  split
  · rfl
  · rename_i hz
    have hc : s.db.check (a - 1) = .ok () := if_pos (by omega)
    rw [hc]
    by_cases ht : (s.db.type (a - 1)).isPgzterm = true
    · have hsome : prev s.db a = some (a - (s.db.pfn (a - 1)).size) := by
        rw [prev, if_neg hz, if_pos ht]
      have hw := h.prev_word ha hst hsome
      have hc' : s.db.check (a - (s.db.pfn (a - 1)).size) = .ok () := if_pos (by omega)
      simp only [bind, Except.bind, if_pos ht, hw, hc']
      rfl
    · simp only [bind, Except.bind, if_neg ht]
      rfl

theorem Block.db'_zone (s : PgZones) (a n : Nat) : (Block.db' s a n).zone = s.db.zone :=
  mkptr_zone _ _ _

theorem Block.db'_max (s : PgZones) (a n : Nat) : (Block.db' s a n).max = s.db.max :=
  mkptr_max _ _ _

theorem Block.mkptr_eq {db : Db} (hn : 0 < n) (hb : a + n ≤ db.max) (hm : db.max < 2 ^ 32) :
    mkptr db a n = .ok (a, db.mkptr a n) := by
  have hw : w32 (a + n + (2 ^ 32 - 1)) = a + n - 1 := by
    rw [w32]
    omega
  have hc : db.check a = .ok () := if_pos (by omega)
  have hc' : db.check (a + n - 1) = .ok () := if_pos (by omega)
  rw [mkptr, hw, hc, hc']
  rfl

namespace Span

theorem lt (hb : Span s X a n) : a < a + n := Nat.lt_add_of_pos_right hb.size_pos

theorem prev_mem (hb : Span s X a n) (h : BInv s X) (hp : prev s.db a = some p) :
    p ∈ starts s X ∧ p + (s.db.pfn p).size = a :=
  h.prev_mem ((Nat.le_add_right a n).trans hb.bound) hb.stale hp

/-- The block above is one that begins where the block ends. -/
theorem next_mem (hb : Span s X a n) (hp : next s.db a n = some p) :
    p ∈ starts s X ∧ p = a + n := by
  have hX : ¬(a + n ∈ X ∨ a + n = s.db.max) := by
    intro hx
    rw [hb.ahead hx] at hp
    cases hp
  rw [not_or] at hX
  have hbd := hb.bound
  rw [next] at hp
  split at hp
  · cases hp
  · split at hp
    · rename_i ht
      cases hp
      exact ⟨⟨by omega, hX.1, ht⟩, rfl⟩
    · cases hp

/-- The two neighbours are different blocks. -/
theorem prev_ne_next (hb : Span s X a n) (h : BInv s X) (hp : next s.db a n = some p) :
    prev s.db a ≠ some p := by
  intro hp'
  have h₁ := (hb.prev_mem h hp').2
  have h₂ := (hb.next_mem hp).2
  have hn := hb.size_pos
  omega

/-- `___get_neighbors` does not leave the database. -/
theorem getNeighbors_eq (hb : Span s X a n) (h : BInv s X) :
    getNeighbors s.db a n = .ok (prev s.db a, next s.db a n) := by
  have hbd := hb.bound
  have hmax := h.max_lt
  have hp : prevNeighbor s.db a = .ok (prev s.db a) :=
    h.prevNeighbor_eq ((Nat.le_add_right a n).trans hbd) hb.stale
  have hn : nextNeighbor s.db a n = .ok (next s.db a n) := by
    have hpos := hb.size_pos
    have hw₁ : w32 (a + 1) = a + 1 := Nat.mod_eq_of_lt (by omega)
    have hw : w32 (a + n) = a + n := Nat.mod_eq_of_lt (by omega)
    have hc : s.db.check (a + n) = .ok () := if_pos hbd
    rw [nextNeighbor, next, hw₁]
    split
    · rfl
    · simp only [bind, Except.bind, hw, hc]
      rfl
  rw [getNeighbors, hp, hn]
  rfl

/-! ## The joined block -/

theorem joined_lo_le (hb : Span s X a n) (h : BInv s X) : (joined s.db a n).lo ≤ a := by
  rw [joined_lo]
  cases hp : prev s.db a with
  | none => exact le_rfl
  | some p =>
      have he := (hb.prev_mem h hp).2
      show p ≤ a
      omega

theorem le_joined_hi (hb : Span s X a n) : a + n ≤ (joined s.db a n).hi := by
  rw [joined_hi]
  cases hp : next s.db a n with
  | none => exact le_rfl
  | some p =>
      have he := (hb.next_mem hp).2
      show a + n ≤ p + (s.db.pfn p).size
      omega

theorem joined_lo_lt_hi (hb : Span s X a n) (h : BInv s X) :
    (joined s.db a n).lo < (joined s.db a n).hi :=
  lt_of_le_of_lt (hb.joined_lo_le h) (lt_of_lt_of_le hb.lt hb.le_joined_hi)

theorem joined_lo_pos (hb : Span s X a n) (h : BInv s X) : 0 < (joined s.db a n).lo := by
  rw [joined_lo]
  cases hp : prev s.db a with
  | none => exact hb.addr_pos
  | some p => exact (h.entry p (hb.prev_mem h hp).1).pos

theorem joined_hi_le (hb : Span s X a n) (h : BInv s X) : (joined s.db a n).hi ≤ s.db.max := by
  rw [joined_hi]
  cases hp : next s.db a n with
  | none => exact hb.bound
  | some p => exact (h.entry p (hb.next_mem hp).1).bound

/-- A page of the joined block is one of the block or of a block next to it. -/
theorem mem_joined (hb : Span s X a n) (h : BInv s X) :
    (joined s.db a n).lo ≤ x ∧ x < (joined s.db a n).hi ↔ x ∈ pages a n ∨
      ∃ p, (prev s.db a = some p ∨ next s.db a n = some p) ∧ p ≤ x ∧
        x < p + (s.db.pfn p).size := by
  have hlo : (joined s.db a n).lo ≤ x ∧ x < a ↔ ∃ p, prev s.db a = some p ∧ p ≤ x ∧
      x < p + (s.db.pfn p).size := by
    rw [joined_lo]
    cases hp : prev s.db a with
    | none => simp
    | some p => simp [(hb.prev_mem h hp).2]
  have hhi : a + n ≤ x ∧ x < (joined s.db a n).hi ↔ ∃ p, next s.db a n = some p ∧ p ≤ x ∧
      x < p + (s.db.pfn p).size := by
    rw [joined_hi]
    cases hp : next s.db a n with
    | none => simp
    | some p => simp [(hb.next_mem hp).2]
  have hle := hb.joined_lo_le h
  have hge := hb.le_joined_hi
  have hn := hb.size_pos
  simp only [or_and_right, exists_or, ← hlo, ← hhi]
  show _ ↔ (a ≤ x ∧ x < a + n) ∨ _
  omega

/-- The tags of the joined block are up to date. -/
theorem joined_clean (hb : Span s X a n) (h : BInv s X) (hx : (joined s.db a n).lo ≤ x)
    (hx' : x < (joined s.db a n).hi) : x ∉ X \ pages a n := by
  rintro ⟨hX, hna⟩
  obtain hpg | ⟨p, hp | hp, hpx, hpx'⟩ := (hb.mem_joined h).1 ⟨hx, hx'⟩
  · exact hna hpg
  · exact h.clean p (hb.prev_mem h hp).1 x hpx hpx' hX
  · exact h.clean p (hb.next_mem hp).1 x hpx hpx' hX

/-- The other blocks are clear of the joined one. -/
theorem clear_of_joined (hb : Span s X a n) (h : BInv s X) (hp : p ∈ others s X a n) :
    p + (s.db.pfn p).size ≤ (joined s.db a n).lo ∨ (joined s.db a n).hi ≤ p := by
  obtain ⟨hm, hpp, hpn⟩ := hp
  have hs := (h.entry p hm).size_pos
  have hlt := hb.joined_lo_lt_hi h
  by_contra hc
  -- the larger of the two first pages is in both
  have hin : (joined s.db a n).lo ≤ max p (joined s.db a n).lo ∧
      max p (joined s.db a n).lo < (joined s.db a n).hi := by omega
  obtain hpg | ⟨q, hq, hqx, hqx'⟩ := (hb.mem_joined h).1 hin
  · have hcl := hb.clear p hm
    have hpg' : a ≤ max p (joined s.db a n).lo ∧ max p (joined s.db a n).lo < a + n := hpg
    omega
  · have hqm : q ∈ starts s X := hq.elim (fun hq ↦ (hb.prev_mem h hq).1) fun hq ↦ (hb.next_mem hq).1
    obtain rfl := h.unique hm hqm (by omega) (by omega) hqx hqx'
    exact hq.elim hpp hpn

/-! ## The database after the join -/

theorem db'_outside (hb : Span s X a n) (h : BInv s X)
    (hx : x < (joined s.db a n).lo ∨ (joined s.db a n).hi ≤ x) :
    (Block.db' s a n).pfn x = s.db.pfn x := by
  have hlt := hb.joined_lo_lt_hi h
  exact mkptr_outside (by omega) (by omega)

/-- A record whose tag is out of date is left alone. -/
theorem db'_stale (hb : Span s X a n) (h : BInv s X) (hx : x ∈ X \ pages a n) :
    (Block.db' s a n).pfn x = s.db.pfn x := by
  refine hb.db'_outside h ?_
  by_contra hin
  exact hb.joined_clean h (Nat.not_lt.1 fun hlt ↦ hin (.inl hlt))
    (Nat.not_le.1 fun hle ↦ hin (.inr hle)) hx

theorem db'_start (hb : Span s X a n) (h : BInv s X) (hx : (joined s.db a n).lo ≤ x)
    (hx' : x < (joined s.db a n).hi) :
    ((Block.db' s a n).type x).isPgzstart = true ↔ x = (joined s.db a n).lo := by
  have hlt := hb.joined_lo_lt_hi h
  exact mkptr_start hx (by omega)

theorem db'_term (hb : Span s X a n) (h : BInv s X) (hx : (joined s.db a n).lo ≤ x)
    (hx' : x < (joined s.db a n).hi) :
    ((Block.db' s a n).type x).isPgzterm = true ↔ x = (joined s.db a n).hi - 1 := by
  have hlt := hb.joined_lo_lt_hi h
  rw [Block.db', mkptr_term hx (by omega)]
  omega

/-- The record of the joined block. -/
theorem db'_entry (hb : Span s X a n) (h : BInv s X)
    (hx : x = (joined s.db a n).lo ∨ x = (joined s.db a n).hi - 1) :
    ((Block.db' s a n).pfn x).addr = (joined s.db a n).lo ∧
      ((Block.db' s a n).pfn x).size = (joined s.db a n).hi - (joined s.db a n).lo := by
  have hlt := hb.joined_lo_lt_hi h
  exact mkptr_entry (by omega)

/-- The records of the other blocks do not change. -/
theorem db'_others (hb : Span s X a n) (h : BInv s X) (hp : p ∈ others s X a n) :
    (Block.db' s a n).pfn p = s.db.pfn p ∧
      (Block.db' s a n).pfn (p + (s.db.pfn p).size - 1) =
        s.db.pfn (p + (s.db.pfn p).size - 1) := by
  have hc := hb.clear_of_joined h hp
  have hs := (h.entry p hp.1).size_pos
  exact ⟨hb.db'_outside h (by omega), hb.db'_outside h (by omega)⟩

/-- The blocks after the join, by their tags. -/
theorem starts_eq (hb : Span s X a n) (h : BInv s X) (ht : t.db = Block.db' s a n) :
    starts t (X \ pages a n) = insert (joined s.db a n).lo (others s X a n) := by
  have hlt := hb.joined_lo_lt_hi h
  ext p
  rw [Set.mem_insert_iff]
  show p < t.db.max ∧ p ∉ X \ pages a n ∧ (t.db.type p).isPgzstart = true ↔ _
  rw [ht, Block.db', mkptr_max]
  constructor
  · rintro ⟨hmax, hX, hst⟩
    by_cases hin : (joined s.db a n).lo ≤ p ∧ p < (joined s.db a n).hi
    · exact .inl ((hb.db'_start h hin.1 hin.2).1 hst)
    · right
      rw [← Block.db', Db.type, hb.db'_outside h (by omega)] at hst
      have hX' : p ∉ X := fun hx ↦
        hX ⟨hx, fun hpg ↦ hin ((hb.mem_joined h).2 (.inl hpg))⟩
      have hm : p ∈ starts s X := ⟨hmax, hX', hst⟩
      have hs := (h.entry p hm).size_pos
      have hout : ∀ hp : prev s.db a = some p ∨ next s.db a n = some p, False := fun hp ↦
        hin ((hb.mem_joined h).2 (.inr ⟨p, hp, le_rfl, by omega⟩))
      exact ⟨hm, fun hp ↦ hout (.inl hp), fun hp ↦ hout (.inr hp)⟩
  · rintro (rfl | hp)
    · have hmax := hb.joined_hi_le h
      exact ⟨by omega, hb.joined_clean h le_rfl hlt, (hb.db'_start h le_rfl hlt).2 rfl⟩
    · refine ⟨hp.1.1, fun hx ↦ hp.1.2.1 hx.1, ?_⟩
      rw [← Block.db', Db.type, (hb.db'_others h hp).1]
      exact hp.1.2.2

/-- `___mkptr` of the joined block does not leave the database. -/
theorem mkptr_joined (hb : Span s X a n) (h : BInv s X) :
    mkptr s.db (joined s.db a n).lo ((joined s.db a n).hi - (joined s.db a n).lo) =
      .ok ((joined s.db a n).lo, Block.db' s a n) := by
  have hlt := hb.joined_lo_lt_hi h
  have hmax := hb.joined_hi_le h
  exact Block.mkptr_eq (by omega) (by omega) h.max_lt

end Span

/-! ## The lists -/

/-- `zone_remove` of a neighbour, if there is one, whatever list it is on. -/
theorem BInv.removeOpt (h : BInv s X) {S : Set Nat} (hf : Bins.Filed t.zlist S)
    (hdb : t.db = s.db) (z : PfnZone) {o : Option Nat} (ho : ∀ e, o = some e → e ∈ starts s X) :
    ∃ u, Zone.removeOpt backend t z o = .ok u ∧ Bins.Filed u.zlist {e ∈ S | o ≠ some e} ∧
      (∀ b, ∀ e ∈ u.zlist b, e ∈ t.zlist b) ∧ u.db = s.db := by
  cases o with
  | none =>
      refine ⟨t, rfl, ?_, fun b e he ↦ he, hdb⟩
      simpa using hf
  | some e =>
      have hok := h.entry e (ho e rfl)
      have hmax := h.max_lt
      have hbd := hok.bound
      have hsz : entryOk (backend.size t.db e) = true := by
        rw [hdb]
        exact entryOk_of_pos hok.size_pos (show (s.db.pfn e).size < 2 ^ 32 by omega)
      have hS : {e' ∈ S | some e ≠ some e'} = S \ {e} := by
        ext e'
        simp [eq_comm]
      refine ⟨{ t.detach z e (backend.size t.db e) with db := backend.freeptr t.db e }, ?_, ?_,
        fun b e' he' ↦ List.mem_of_mem_erase he', hdb⟩
      · rw [Zone.removeOpt, Zone.remove, detachentry, if_pos hsz]
        rfl
      · rw [hS]
        exact hf.remove e

namespace Span

/-- Where the joined block begins, as `zone_create` finds it. -/
theorem fprev_eq (hb : Span s X a n) (h : BInv s X) :
    (prev s.db a).elim a (backend.addr s.db) = (joined s.db a n).lo := by
  rw [joined_lo]
  cases hp : prev s.db a with
  | none => rfl
  | some p => exact (h.entry p (hb.prev_mem h hp).1).addr

/-- Where it ends. -/
theorem lnext_eq (hb : Span s X a n) (h : BInv s X) :
    ((next s.db a n).elim (w32 (a + n)) fun e ↦
      w32 (backend.addr s.db e + backend.size s.db e)) = w32 (joined s.db a n).hi := by
  rw [joined_hi]
  cases hp : next s.db a n with
  | none => rfl
  | some p =>
      show w32 ((s.db.pfn p).addr + (s.db.pfn p).size) = w32 (p + (s.db.pfn p).size)
      rw [(h.entry p (hb.next_mem hp).1).addr]

/-- Its size, in words. -/
theorem len_eq (hb : Span s X a n) (h : BInv s X) :
    w32 (w32 (joined s.db a n).hi + (2 ^ 32 - (joined s.db a n).lo)) =
      (joined s.db a n).hi - (joined s.db a n).lo := by
  have hlt := hb.joined_lo_lt_hi h
  have hmax := hb.joined_hi_le h
  have hm := h.max_lt
  rw [w32, w32]
  omega

/-- The lists after `zone_create`. -/
theorem zone_create (hb : Span s X a n) (h : BInv s X) (z : PfnZone) :
    ∃ t, Zone.create backend s z a n = .ok t ∧ t.db = Block.db' s a n ∧
      Bins.Filed t.zlist (insert (joined s.db a n).lo (others s X a n)) ∧
      ∀ b, ∀ e ∈ t.zlist b, e ∈ others s X a n ∧ e ∈ s.zlist b ∨ e = (joined s.db a n).lo ∧
        b.2 = msbit ((joined s.db a n).hi - (joined s.db a n).lo) := by
  have hlt := hb.joined_lo_lt_hi h
  have hmax := hb.joined_hi_le h
  have hm := h.max_lt
  obtain ⟨s₁, h₁, hf₁, hsub₁, hdb₁⟩ :=
    h.removeOpt h.filed rfl z (fun e he ↦ (hb.prev_mem h he).1)
  obtain ⟨s₂, h₂, hf₂, hsub₂, hdb₂⟩ :=
    h.removeOpt hf₁ hdb₁ z (fun e he ↦ (hb.next_mem he).1)
  have hS : {e ∈ {e ∈ starts s X | prev s.db a ≠ some e} | next s.db a n ≠ some e} =
      others s X a n := by
    ext e
    simp [others, and_assoc]
  rw [hS] at hf₂
  have hsz : backend.size (Block.db' s a n) (joined s.db a n).lo =
      (joined s.db a n).hi - (joined s.db a n).lo := (hb.db'_entry h (.inl rfl)).2
  have hok : entryOk ((joined s.db a n).hi - (joined s.db a n).lo) = true :=
    entryOk_of_pos (by omega) (by omega)
  have hnew : (joined s.db a n).lo ∉ others s X a n := by
    intro hp
    have hc := hb.clear_of_joined h hp
    have hs := (h.entry _ hp.1).size_pos
    omega
  refine ⟨({ s₂ with db := Block.db' s a n } : PgZones).attach z (joined s.db a n).lo
    ((joined s.db a n).hi - (joined s.db a n).lo), ?_, rfl, hf₂.insert hnew _, ?_⟩
  · have hnb : backend.getNeighbors s.db a n = _ := hb.getNeighbors_eq h
    have hmk : backend.mkptr s.db _ _ = _ := hb.mkptr_joined h
    simp only [Zone.create, hnb, h₁, h₂, hdb₁, hdb₂, hb.fprev_eq h, hb.lnext_eq h, hb.len_eq h,
      hmk, attachentry, hok, hsz, bind, Except.bind, if_true]
  · intro b e he
    rcases Bins.mem_insert.1 he with ⟨rfl, rfl⟩ | he
    · exact .inr ⟨rfl, rfl⟩
    · exact .inl ⟨hf₂.mem he, hsub₁ b e (hsub₂ b e he)⟩

/-- The pages of the blocks after `zone_create`. -/
theorem freeAll_eq (hb : Span s X a n) (h : BInv s X) (ht : t.db = Block.db' s a n) :
    freeAll t (X \ pages a n) = freeAll s X ∪ pages a n := by
  have hlt := hb.joined_lo_lt_hi h
  have hsz : (joined s.db a n).lo + ((Block.db' s a n).pfn (joined s.db a n).lo).size =
      (joined s.db a n).hi := by
    rw [(hb.db'_entry h (.inl rfl)).2]
    omega
  ext x
  show (∃ p ∈ starts t (X \ pages a n), _) ↔ _
  rw [hb.starts_eq h ht, ht, Set.mem_union]
  constructor
  · rintro ⟨p, rfl | hp, hx, hx'⟩
    · rw [hsz] at hx'
      obtain hpg | ⟨p, hp | hp, hpx⟩ := (hb.mem_joined h).1 ⟨hx, hx'⟩
      · exact .inr hpg
      · exact .inl ⟨p, (hb.prev_mem h hp).1, hpx⟩
      · exact .inl ⟨p, (hb.next_mem hp).1, hpx⟩
    · rw [(hb.db'_others h hp).1] at hx'
      exact .inl ⟨p, hp.1, hx, hx'⟩
  · have hin : (joined s.db a n).lo ≤ x ∧ x < (joined s.db a n).hi →
        ∃ p ∈ insert (joined s.db a n).lo (others s X a n), p ≤ x ∧
          x < p + ((Block.db' s a n).pfn p).size := fun hx ↦
      ⟨_, Set.mem_insert _ _, hx.1, by rw [hsz]; exact hx.2⟩
    rintro (⟨p, hp, hx, hx'⟩ | hpg)
    · by_cases hj : prev s.db a = some p ∨ next s.db a n = some p
      · exact hin ((hb.mem_joined h).2 (.inr ⟨p, hj, hx, hx'⟩))
      · rw [not_or] at hj
        have hm : p ∈ others s X a n := ⟨hp, hj⟩
        exact ⟨p, Set.mem_insert_of_mem _ hm, hx, by rwa [(hb.db'_others h hm).1]⟩
    · exact hin ((hb.mem_joined h).2 (.inl hpg))

/-- `zone_create` keeps the invariant. -/
theorem create (hb : Span s X a n) (h : BInv s X) (z : PfnZone) :
    ∃ t, Zone.create backend s z a n = .ok t ∧ BInv t (X \ pages a n) ∧
      t.db = Block.db' s a n := by
  obtain ⟨t, ht, hdb, hf, hsub⟩ := hb.zone_create h z
  have hst := hb.starts_eq h hdb
  have hlt := hb.joined_lo_lt_hi h
  have hmax := hb.joined_hi_le h
  have hsz : ((Block.db' s a n).pfn (joined s.db a n).lo).size =
      (joined s.db a n).hi - (joined s.db a n).lo := (hb.db'_entry h (.inl rfl)).2
  refine ⟨t, ht, ⟨?_, ?_, ?_, ?_, ?_, ?_, ?_⟩, hdb⟩
  · rw [hdb, Block.db'_max]
    exact h.max_lt
  · rw [hst]
    exact hf
  · intro b e he
    rw [hdb]
    rcases hsub b e he with ⟨hm, he⟩ | ⟨rfl, hbin⟩
    · rw [(hb.db'_others h hm).1]
      exact h.order he
    · rw [hsz]
      exact hbin
  · rw [hst, hdb]
    rintro p (rfl | hp)
    · obtain ⟨hfa, hfs⟩ := hb.db'_entry h (.inl rfl)
      have hl : (joined s.db a n).lo + ((joined s.db a n).hi - (joined s.db a n).lo) - 1 =
          (joined s.db a n).hi - 1 := by omega
      obtain ⟨hla, hls⟩ := hb.db'_entry h (.inr rfl)
      refine ⟨hb.joined_lo_pos h, ?_, ?_, hfa, ?_, ?_, ?_⟩
      · rw [hfs]
        omega
      · rw [hfs, Block.db'_max]
        omega
      · rw [hfs, hl]
        exact (hb.db'_term h (by omega) (by omega)).2 rfl
      · rw [hfs, hl]
        exact hla
      · rw [hfs, hl]
        exact hls
    · obtain ⟨he, he'⟩ := hb.db'_others h hp
      have hok := h.entry p hp.1
      refine ⟨hok.pos, ?_, ?_, ?_, ?_, ?_, ?_⟩
      · rw [he]
        exact hok.size_pos
      · rw [he, Block.db'_max]
        exact hok.bound
      · rw [he]
        exact hok.addr
      · rw [he, Db.type, he']
        exact hok.term
      · rw [he, he']
        exact hok.lastAddr
      · rw [he, he']
        exact hok.lastSize
  · -- the other blocks are clear of the joined one
    have hclear : ∀ q ∈ others s X a n, (joined s.db a n).hi ≤ q ∨
        q + ((Block.db' s a n).pfn q).size ≤ (joined s.db a n).lo := by
      intro q hq
      rw [(hb.db'_others h hq).1]
      exact (hb.clear_of_joined h hq).symm
    have hend : (joined s.db a n).lo + ((Block.db' s a n).pfn (joined s.db a n).lo).size =
        (joined s.db a n).hi := by
      rw [hsz]
      omega
    rw [hst, hdb]
    rintro p (rfl | hp) q (rfl | hq) hne
    · exact absurd rfl hne
    · rw [hend]
      exact hclear q hq
    · rw [hend]
      exact (hclear p hp).symm
    · rw [(hb.db'_others h hp).1, (hb.db'_others h hq).1]
      exact h.apart p hp.1 q hq.1 hne
  · rw [hst, hdb, Block.db'_max]
    intro x hx hX hterm
    by_cases hin : (joined s.db a n).lo ≤ x ∧ x < (joined s.db a n).hi
    · refine ⟨_, Set.mem_insert _ _, ?_⟩
      rw [hsz]
      have hxe := (hb.db'_term h hin.1 hin.2).1 hterm
      omega
    · rw [Db.type, hb.db'_outside h (by omega)] at hterm
      have hX' : x ∉ X := fun hx ↦ hX ⟨hx, fun hpg ↦ hin ((hb.mem_joined h).2 (.inl hpg))⟩
      obtain ⟨p, hp, he⟩ := h.term x hx hX' hterm
      have hs := (h.entry p hp).size_pos
      have hout : ∀ _ : prev s.db a = some p ∨ next s.db a n = some p, False := fun hpn ↦
        hin ((hb.mem_joined h).2 (.inr ⟨p, hpn, by omega, by omega⟩))
      have hm : p ∈ others s X a n := ⟨hp, fun hpn ↦ hout (.inl hpn), fun hpn ↦ hout (.inr hpn)⟩
      refine ⟨p, Set.mem_insert_of_mem _ hm, ?_⟩
      rw [(hb.db'_others h hm).1]
      exact he
  · rw [hst, hdb]
    rintro p (rfl | hp) x hx hx'
    · rw [hsz] at hx'
      exact hb.joined_clean h hx (by omega)
    · rw [(hb.db'_others h hp).1] at hx'
      exact fun hX ↦ h.clean p hp.1 x hx hx' hX.1

end Span

end Mh.Pg
