import Mh.Blk.Life
import Mh.Lib.Outcome
import Mh.Rb.Runs

/-!
# The disks and their tree

`blk.c` keeps its disks in a tree of `rb.c`, with a node in each `struct blkdisk`.  Here its
functions work on this tree, as it is in memory, and not on a list of the disks.  No caller can tell
the difference: whatever calls are made, each returns the same or goes wrong in the same way.
-/

namespace Mh.Blk

open Lib (Alike)
open Rb (RbTree RbTreeOps)

/-- The disks of a process, with their tree. -/
structure Disks where
  /-- `initialised`. -/
  initialised : Bool
  /-- `blk_rbtree`. -/
  blkRbtree : RbTree Ptr
  /-- The blocks that have not been freed. -/
  mem : Ptr → Option Blkdisk
  /-- The next block that `malloc` hands out. -/
  next : Ptr
  /-- The calls of `free`, the last one first. -/
  freed : List Ptr

namespace Disks

/-- The state before the first call: `blk_rbtree` is all zeros, and nothing is known of the nodes in
the blocks that `malloc` hands out. -/
def init (cell : Ptr → Rb.RbNode Ptr) : Disks :=
  ⟨false, ⟨.null, fun _ ↦ .null, [], cell⟩, fun _ ↦ none, 0, []⟩

/-- The name of a disk, as an unsigned number. -/
def nameid (mem : Ptr → Option Blkdisk) (p : Ptr) : Nat :=
  ((mem p).map (·.nameid.toNat)).getD 0

/-- `blk_rbtree_ops`. -/
def blkRbtreeOps (mem : Ptr → Option Blkdisk) : RbTreeOps Ptr Nat := .byKey (nameid mem)

variable (s : Disks)

/-- Read a block. -/
def read (p : Ptr) : Except Fault Blkdisk :=
  match s.mem p with
  | some blk => .ok blk
  | none => .error .freed

/-- Write a block. -/
def write (p : Ptr) (blk : Blkdisk) : Disks := { s with mem := Function.update s.mem p (some blk) }

/-- `free`. -/
def free (p : Ptr) : Disks :=
  { s with mem := Function.update s.mem p none, freed := p :: s.freed }

/-- `rb_tree_init`, where that has not been done. -/
def initTree : Disks :=
  if s.initialised then s
  else { s with initialised := true, blkRbtree := s.blkRbtree.rbTreeInit }

/-- A call of a function of `rb.c`. -/
def rb (op : Rb.Op Ptr Nat) : Except Fault (Disks × Option Ptr) :=
  match s.blkRbtree.apply (blkRbtreeOps s.mem) op with
  | some (t, r) => .ok ({ s with blkRbtree := t }, r)
  | none => .error .freed

/-- `rb_tree_find_node`. -/
def findNode (name : BitVec 64) : Except Fault (Option Ptr) := do
  if s.initialised then return (← s.rb (.find name.toNat)).2 else throw .uninit

/-- `rb_tree_iterate`. -/
def iterate (p : Option Ptr) (d : Lib.RedBlack.Dir) : Except Fault (Option Ptr) := do
  return (← s.rb (.iterate p d)).2

/-- `blk_add`, where `malloc` succeeds. -/
def blkAdd (disk blkdev : BitVec 64) (info : Info) (ops : Ops) : Except Fault Disks := do
  let s := s.initTree
  let blkdisk := { invalid := false, ref := 0, nameid := disk, blkdevid := blkdev, info, ops }
  let p := s.next
  let s := { s.write p blkdisk with next := p + 1 }
  return (← s.rb (.insert p)).1

/-- `blk_del`. -/
def blkDel (disk : BitVec 64) : Except Fault Disks := do
  match ← s.findNode disk with
  | none => return s
  | some p =>
    let blkdisk ← s.read p
    let (s, _) ← (s.write p { blkdisk with invalid := true }).rb (.remove p)
    return if blkdisk.ref = 0 then s.free p else s

/-- `blk_iter`. -/
def blkIter (cur : BitVec 64) : Except Fault (BitVec 64) := do
  let blk ←
    if cur = 0 then s.iterate none .left
    else match ← s.findNode cur with
      | none => pure none
      | some blk => s.iterate (some blk) .right
  match blk with
  | none => return 0
  | some p => return (← s.read p).nameid

/-- `blk_open`. -/
def blkOpen (disk : BitVec 64) : Except Fault (Disks × Option Ptr) := do
  if s.initialised then
    match ← s.findNode disk with
    | none => return (s, none)
    | some p =>
      let blk ← s.read p
      if blk.invalid then throw .assertion
      return (s.write p { blk with ref := blk.ref + 1 }, some p)
  else return (s.initTree, none)

/-- `blk_close`. -/
def blkClose (p : Ptr) : Except Fault Disks := do
  let blk ← s.read p
  let blk := { blk with ref := blk.ref - 1 }
  let s := s.write p blk
  return if blk.invalid ∧ blk.ref = 0 then s.free p else s

/-- `blk_info`. -/
def blkInfo (p : Ptr) (info : Info) : Except Fault (Option Int × Info) := do
  let blk ← s.read p
  return if blk.invalid then (some Errno.ENODEV.neg, info) else (none, blk.info)

/-- `partadd`. -/
def partadd (pno : BitVec 32) (blkdev start len : BitVec 64) (blki : Info) :
    Except Fault Disks := do
  let (s, blk) ← s.blkOpen blkdev
  match blk with
  | none => return s
  | some blk =>
    let (_, blki) ← s.blkInfo blk blki
    let info := { blksz := blki.blksz, blkno := len }
    s.blkAdd (State.partName blkdev pno) blkdev info (.part { blk, start, length := len })

end Disks

/-! ## Calls -/

/-- A call of a function of `blk.c`, or of `partadd`. -/
inductive LibCall
  | add (disk blkdev : BitVec 64) (info : Info) (ops : Ops)
  | del (disk : BitVec 64)
  | iter (cur : BitVec 64)
  | opn (disk : BitVec 64)
  | close (p : Ptr)
  | info (p : Ptr) (info : Info)
  | part (pno : BitVec 32) (blkdev start len : BitVec 64) (blki : Info)

/-- What a call returns. -/
inductive Ret
  | void
  | name (id : BitVec 64)
  | handle (p : Option Ptr)
  | info (r : Option Int × Info)

/-- A call, with the disks in a list. -/
def State.call (s : State) : LibCall → Except Fault (State × Ret)
  | .add disk blkdev info ops => .ok (s.blkAdd disk blkdev info ops, .void)
  | .del disk => do return (← s.blkDel disk, .void)
  | .iter cur => do return (s, .name (← s.blkIter cur))
  | .opn disk => do
    let (s, p) ← s.blkOpen disk
    return (s, .handle p)
  | .close p => do return (← s.blkClose p, .void)
  | .info p info => do return (s, .info (← s.blkInfo p info))
  | .part pno blkdev start len blki => do return (← s.partadd pno blkdev start len blki, .void)

/-- A call, with the disks in their tree. -/
def Disks.call (s : Disks) : LibCall → Except Fault (Disks × Ret)
  | .add disk blkdev info ops => do return (← s.blkAdd disk blkdev info ops, .void)
  | .del disk => do return (← s.blkDel disk, .void)
  | .iter cur => do return (s, .name (← s.blkIter cur))
  | .opn disk => do
    let (s, p) ← s.blkOpen disk
    return (s, .handle p)
  | .close p => do return (← s.blkClose p, .void)
  | .info p info => do return (s, .info (← s.blkInfo p info))
  | .part pno blkdev start len blki => do return (← s.partadd pno blkdev start len blki, .void)

/-! ## The list and the tree -/

/-- The tree holds the disks of the list. -/
structure Represents (u : Disks) (s : State) : Prop where
  initialised : u.initialised = s.initialised
  mem : u.mem = s.mem
  next : u.next = s.next
  freed : u.freed = s.freed
  holds : u.blkRbtree.Holds (Disks.blkRbtreeOps s.mem) {p | ∃ name, (name, p) ∈ s.tree}
  sorted : s.tree.Pairwise fun e e' ↦ e.1 < e'.1
  live : ∀ e ∈ s.tree, ∃ blk, s.mem e.2 = some blk ∧ blk.nameid = e.1 ∧ blk.invalid = false
  fresh : ∀ e ∈ s.tree, e.2 < s.next
  uninit : s.initialised = false → s.tree = []

namespace Represents

variable {u : Disks} {s : State} {e e' : BitVec 64 × Ptr} {p : Ptr} {name : BitVec 64}

/-- The name of a disk in the tree. -/
theorem nameid_eq (h : Represents u s) (he : (name, p) ∈ s.tree) :
    Disks.nameid s.mem p = name.toNat := by
  obtain ⟨blk, hb, hn, -⟩ := h.live _ he
  rw [Disks.nameid, hb]
  exact congrArg BitVec.toNat hn

/-- The call of a function of `rb.c`. -/
theorem rb (h : Represents u s) (op : Rb.Op Ptr Nat)
    (hl : op.Legal {p | ∃ name, (name, p) ∈ s.tree}) :
    ∃ t r, u.rb op = .ok ({ u with blkRbtree := t }, r) ∧
      op.Answers (Disks.blkRbtreeOps s.mem) {p | ∃ name, (name, p) ∈ s.tree} r ∧
      t.Holds (Disks.blkRbtreeOps s.mem)
        (op.after (Disks.blkRbtreeOps s.mem) {p | ∃ name, (name, p) ∈ s.tree}) := by
  obtain ⟨t, r, hrun, ha, ht⟩ := h.holds.apply (RbTreeOps.byKey_lawful _) op hl
  refine ⟨t, r, ?_, ha, ht⟩
  rw [Disks.rb, h.mem, Disks.blkRbtreeOps, hrun]

theorem lt_iff (h : Represents u s) (he : e ∈ s.tree) (he' : e' ∈ s.tree) :
    (Disks.blkRbtreeOps s.mem).Lt e.2 e'.2 ↔ e.1 < e'.1 := by
  rw [Disks.blkRbtreeOps, RbTreeOps.byKey_lt, h.nameid_eq (p := e.2) he,
    h.nameid_eq (p := e'.2) he', BitVec.lt_def]

/-- The first disk of the list that has a property is the closest one in the tree. -/
theorem closest_eq (h : Represents u s) {Q : BitVec 64 × Ptr → Bool} {r : Option Ptr}
    (hr : Lib.RedBlack.Closest (Disks.blkRbtreeOps s.mem).Lt
      (fun p ↦ ∃ name, (name, p) ∈ s.tree ∧ Q (name, p) = true) r) :
    r = (s.tree.find? Q).map (·.2) := by
  cases hf : s.tree.find? Q with
  | none =>
    cases r with
    | none => rfl
    | some a =>
      obtain ⟨⟨n, hn, hq⟩, -⟩ := hr
      exact absurd hq (List.find?_eq_none.1 hf _ hn)
  | some e =>
    obtain ⟨hq, l, l', htree, hl⟩ := List.find?_eq_some_iff_append.1 hf
    have he : e ∈ s.tree := htree ▸ List.mem_append_right l List.mem_cons_self
    cases r with
    | none => exact absurd ⟨e.1, he, hq⟩ (hr e.2)
    | some a =>
      obtain ⟨⟨n, hn, hqn⟩, hfirst⟩ := hr
      by_contra hne
      have hlt := (h.lt_iff hn he).1 <|
        hfirst e.2 ⟨e.1, he, hq⟩ fun heq ↦ hne (congrArg some heq.symm)
      have hsorted := h.sorted
      rw [htree, List.pairwise_append, List.pairwise_cons] at hsorted
      rw [htree, List.mem_append, List.mem_cons] at hn
      rcases hn with hn | rfl | hn
      · have := hl _ hn
        rw [hqn] at this
        cases this
      · exact hne rfl
      · exact BitVec.lt_asymm hlt (hsorted.2.1.1 _ hn)

/-- No two disks of the list have one name. -/
theorem name_inj (h : Represents u s) (he : e ∈ s.tree) (he' : e' ∈ s.tree) (hn : e.1 = e'.1) :
    e = e' := by
  have hsorted : s.tree.Pairwise fun e e' ↦ e.1 = e'.1 → e = e' :=
    h.sorted.imp fun hlt heq ↦ absurd (heq ▸ hlt) (BitVec.lt_irrefl _)
  exact hsorted.forall_of_forall_of_flip (fun _ _ _ ↦ rfl)
    (hsorted.imp fun h hn ↦ (h hn.symm).symm) he he' hn

theorem lookup_eq (h : Represents u s) : s.lookup name = some p ↔ (name, p) ∈ s.tree := by
  refine ⟨State.mem_tree_of_lookup, fun hp ↦ ?_⟩
  cases hl : s.lookup name with
  | none => exact absurd hp (State.lookup_eq_none.1 hl p)
  | some q => exact congrArg (some ·.2) (h.name_inj (State.mem_tree_of_lookup hl) hp rfl)

/-- `rb_tree_find_node`. -/
theorem findNode (h : Represents u s) (name : BitVec 64) : u.findNode name = s.findNode name := by
  rw [Disks.findNode, State.findNode, h.initialised]
  split_ifs with hi
  · obtain ⟨t, r, hrun, ha, -⟩ := h.rb (.find name.toNat) trivial
    rw [hrun, show s.lookup name = r from ?_]
    · rfl
    · rcases ha with ⟨p, rfl, ⟨n, hp⟩, h0⟩ | ⟨rfl, hno⟩
      · rw [Disks.blkRbtreeOps, RbTreeOps.byKey_key_eq_zero, h.nameid_eq hp] at h0
        rw [h.lookup_eq, ← BitVec.eq_of_toNat_eq h0]
        exact hp
      · refine State.lookup_eq_none.2 fun p hp ↦ hno p ⟨name, hp⟩ ?_
        rw [Disks.blkRbtreeOps, RbTreeOps.byKey_key_eq_zero, h.nameid_eq hp]
  · rfl

theorem iterate_null (h : Represents u s) :
    u.iterate none .left = .ok (s.tree.head?.map (·.2)) := by
  obtain ⟨t, r, hrun, ha, -⟩ := h.rb (.iterate none .left) trivial
  have hr := h.closest_eq (Q := fun _ ↦ true) (r := r) (ha.congr fun a ↦ by simp)
  rw [Disks.iterate, hrun, hr]
  cases s.tree <;> rfl

theorem iterate_node (h : Represents u s) (hp : (name, p) ∈ s.tree) :
    u.iterate (some p) .right = .ok ((s.tree.find? fun e ↦ name < e.1).map (·.2)) := by
  obtain ⟨t, r, hrun, ha, -⟩ := h.rb (.iterate (some p) .right) ⟨name, hp⟩
  have hr := h.closest_eq (Q := fun e ↦ name < e.1) (r := r) (ha.congr fun a ↦ by
    constructor
    · rintro ⟨⟨n, ha⟩, hlt⟩
      exact ⟨n, ha, decide_eq_true ((h.lt_iff (e := (name, p)) hp ha).1 hlt)⟩
    · rintro ⟨n, ha, hlt⟩
      exact ⟨⟨n, ha⟩, (h.lt_iff (e := (name, p)) hp ha).2 (of_decide_eq_true hlt)⟩)
  rw [Disks.iterate, hrun, hr]
  rfl

/-! ### Changes -/

/-- A block that is written under its own name compares as before. -/
theorem nameid_update {mem : Ptr → Option Blkdisk} {old blk : Blkdisk} (hm : mem p = some old)
    (hn : blk.nameid = old.nameid) :
    Disks.nameid (Function.update mem p (some blk)) = Disks.nameid mem := by
  funext q
  rcases eq_or_ne q p with rfl | hq
  · rw [Disks.nameid, Disks.nameid, Function.update_self, hm, Option.map_some, Option.map_some, hn]
  · rw [Disks.nameid, Disks.nameid, Function.update_of_ne hq]

/-- Blocks that are not in the tree do not matter to it. -/
theorem holds_update {mem : Ptr → Option Blkdisk} {o : Option Blkdisk} {t : RbTree Ptr}
    {S : Set Ptr} (h : t.Holds (Disks.blkRbtreeOps mem) S) (hp : p ∉ S) :
    t.Holds (Disks.blkRbtreeOps (Function.update mem p o)) S := by
  refine h.congr fun a ha b hb hlt ↦ ?_
  have hname (q : Ptr) (hq : q ∈ S) :
      Disks.nameid (Function.update mem p o) q = Disks.nameid mem q := by
    rw [Disks.nameid, Disks.nameid, Function.update_of_ne (ne_of_mem_of_not_mem hq hp)]
  rw [Disks.blkRbtreeOps, RbTreeOps.byKey_lt] at hlt ⊢
  rwa [hname a ha, hname b hb]

/-- A block of the tree is written, or one that is not in the tree. -/
theorem write (h : Represents u s) {old blk : Blkdisk} (hm : s.mem p = some old)
    (hn : blk.nameid = old.nameid) (hi : blk.invalid = old.invalid) :
    Represents (u.write p blk) (s.write p blk) where
  initialised := h.initialised
  mem := by rw [Disks.write, State.write, h.mem]
  next := h.next
  freed := h.freed
  holds := by
    have hh := h.holds
    rw [Disks.blkRbtreeOps, ← nameid_update hm hn] at hh
    exact hh
  sorted := h.sorted
  live e he := by
    obtain ⟨b, hb, hbn, hbi⟩ := h.live e he
    rcases eq_or_ne e.2 p with hp | hp
    · rw [hp, hm] at hb
      cases hb
      exact ⟨blk, by rw [hp]; exact Function.update_self .., hn.trans hbn, hi.trans hbi⟩
    · exact ⟨b, (Function.update_of_ne hp _ _).trans hb, hbn, hbi⟩
  fresh := h.fresh
  uninit := h.uninit

/-- A block that is not in the tree is freed. -/
theorem free (h : Represents u s) (hp : ∀ name, (name, p) ∉ s.tree) :
    Represents (u.free p) (s.free p) where
  initialised := h.initialised
  mem := by rw [Disks.free, State.free, h.mem]
  next := h.next
  freed := by rw [Disks.free, State.free, h.freed]
  holds := holds_update h.holds fun ⟨name, hm⟩ ↦ hp name hm
  sorted := h.sorted
  live e he := by
    obtain ⟨b, hb, hbn⟩ := h.live e he
    have hne : e.2 ≠ p := by
      rintro rfl
      exact hp e.1 he
    exact ⟨b, (Function.update_of_ne hne _ _).trans hb, hbn⟩
  fresh := h.fresh
  uninit := h.uninit

theorem initTree (h : Represents u s) : Represents u.initTree s.initTree := by
  rw [Disks.initTree, State.initTree, h.initialised]
  split_ifs with hi
  · exact h
  · have htree := h.uninit (Bool.not_eq_true _ ▸ hi)
    refine ⟨rfl, h.mem, h.next, h.freed, ?_, List.Pairwise.nil, fun e he ↦ ?_, fun e he ↦ ?_, ?_⟩
    · have hempty : {p | ∃ name, (name, p) ∈ ([] : List (BitVec 64 × Ptr))} = (∅ : Set Ptr) := by
        ext p
        simp
      rw [hempty]
      exact RbTree.holds_init _
    · cases he
    · cases he
    · intro h
      cases h

/-- `malloc` and what `blk_add` writes into the block. -/
theorem malloc (h : Represents u s) (hi : s.initialised = true) (blk : Blkdisk) :
    Represents { u.write u.next blk with next := u.next + 1 }
      { s.write s.next blk with next := s.next + 1 } where
  initialised := h.initialised
  mem := by rw [Disks.write, State.write, h.mem, h.next]
  next := congrArg (· + 1) h.next
  freed := h.freed
  holds := holds_update h.holds fun ⟨name, hm⟩ ↦ lt_irrefl _ (h.fresh _ hm)
  sorted := h.sorted
  live e he := by
    obtain ⟨b, hb, hbn⟩ := h.live e he
    exact ⟨b, (Function.update_of_ne (h.fresh e he).ne _ _).trans hb, hbn⟩
  fresh e he := Nat.lt_succ_of_lt (h.fresh e he)
  uninit hf := absurd (hf.symm.trans hi) Bool.false_ne_true

/-- `rb_tree_insert_node`. -/
theorem insertNode (h : Represents u s) {blk : Blkdisk} (hm : s.mem p = some blk)
    (hname : blk.nameid = name) (hi : blk.invalid = false)
    (hlt : p < s.next) (hinit : s.initialised = true) :
    ∃ u' r, u.rb (.insert p) = .ok (u', r) ∧ Represents u' (s.insertNode name p) := by
  obtain ⟨t, r, hrun, -, ht⟩ := h.rb (.insert p) trivial
  refine ⟨_, r, hrun, ?_⟩
  have hp : Disks.nameid s.mem p = name.toNat := by
    rw [Disks.nameid, hm]
    exact congrArg BitVec.toNat hname
  have hclash : (∃ q ∈ {p | ∃ name, (name, p) ∈ s.tree},
      (Disks.blkRbtreeOps s.mem).compareNodes q p = 0) ↔ ∃ q, (name, q) ∈ s.tree := by
    constructor
    · rintro ⟨q, ⟨n, hq⟩, h0⟩
      rw [Disks.blkRbtreeOps, RbTreeOps.byKey_nodes_eq_zero, hp, h.nameid_eq hq] at h0
      exact ⟨q, BitVec.eq_of_toNat_eq h0 ▸ hq⟩
    · rintro ⟨q, hq⟩
      refine ⟨q, ⟨name, hq⟩, ?_⟩
      rw [Disks.blkRbtreeOps, RbTreeOps.byKey_nodes_eq_zero, hp, h.nameid_eq hq]
  rw [State.insertNode]
  cases hl : s.lookup name with
  | some q =>
    have hq : ∃ q, (name, q) ∈ s.tree := ⟨q, h.lookup_eq.1 hl⟩
    rw [Rb.Op.after, if_pos (hclash.2 hq)] at ht
    exact { h with holds := ht }
  | none =>
    have hno : ¬ ∃ q, (name, q) ∈ s.tree := not_exists.2 (State.lookup_eq_none.1 hl)
    rw [Rb.Op.after, if_neg (hclash.not.2 hno)] at ht
    refine { h with holds := ?_, sorted := ?_, live := ?_, fresh := ?_, uninit := ?_ }
    · convert ht using 1
      ext q
      simp only [Set.mem_ofPred_eq, Set.mem_insert_iff, List.mem_orderedInsert, Prod.mk.injEq,
        exists_or, exists_eq_left]
    · refine pairwise_orderedInsert h.sorted fun e he heq ↦ hno ⟨e.2, ?_⟩
      rw [show name = e.1 from heq]
      exact he
    · intro e he
      rcases (List.mem_orderedInsert _).1 he with rfl | he
      · exact ⟨blk, hm, hname, hi⟩
      · exact h.live e he
    · intro e he
      rcases (List.mem_orderedInsert _).1 he with rfl | he
      · exact hlt
      · exact h.fresh e he
    · intro hf
      exact absurd (hf.symm.trans hinit) Bool.false_ne_true

theorem read (h : Represents u s) (p : Ptr) : u.read p = s.read p := by
  cases hm : s.mem p <;> simp [Disks.read, State.read, h.mem, hm]

/-- No disk is in the list twice. -/
theorem eq_of_snd (h : Represents u s) (he : e ∈ s.tree) (he' : e' ∈ s.tree) (hp : e.2 = e'.2) :
    e = e' := by
  refine h.name_inj he he' (BitVec.eq_of_toNat_eq ?_)
  rw [← h.nameid_eq (p := e.2) he, hp, h.nameid_eq (p := e'.2) he']

/-- `rb_tree_remove_node`, of a disk that has been marked as invalid. -/
theorem removeNode (h : Represents u s) {blk : Blkdisk} (hp : (name, p) ∈ s.tree)
    (hm : s.mem p = some blk) :
    ∃ u' r, (u.write p { blk with invalid := true }).rb (.remove p) = .ok (u', r) ∧
      Represents u' ((s.write p { blk with invalid := true }).removeNode name p) ∧
      ∀ n, (n, p) ∉ s.tree.erase (name, p) := by
  obtain ⟨t, r, hrun, -, ht⟩ :=
    h.holds.apply (RbTreeOps.byKey_lawful _) (.remove p) ⟨name, hp⟩
  have hname : Disks.nameid (Function.update s.mem p (some { blk with invalid := true })) =
      Disks.nameid s.mem := nameid_update hm rfl
  have hn : s.tree.Nodup := h.sorted.imp fun {e e'} hlt ↦ by
    rintro rfl
    exact BitVec.lt_irrefl _ hlt
  have hmem {e : BitVec 64 × Ptr} : e ∈ s.tree.erase (name, p) ↔ e ≠ (name, p) ∧ e ∈ s.tree :=
    hn.mem_erase_iff
  have hne {e : BitVec 64 × Ptr} (he : e ∈ s.tree.erase (name, p)) : e.2 ≠ p := fun heq ↦
    (hmem.1 he).1 (h.eq_of_snd (hmem.1 he).2 hp heq)
  refine ⟨{ u.write p { blk with invalid := true } with blkRbtree := t }, r, ?_,
    ⟨h.initialised, ?_, h.next, h.freed, ?_, ?_, fun e he ↦ ?_, fun e he ↦ ?_, fun hf ↦ ?_⟩,
    fun n hn ↦ hne hn rfl⟩
  · have hrb : (u.write p { blk with invalid := true }).blkRbtree.apply
        (Disks.blkRbtreeOps (u.write p { blk with invalid := true }).mem) (.remove p) =
          some (t, r) := by
      rw [Disks.write, h.mem, Disks.blkRbtreeOps, hname]
      exact hrun
    rw [Disks.rb, hrb]
  · rw [Disks.write, State.removeNode, State.write, h.mem]
  · rw [State.removeNode, State.write, Disks.blkRbtreeOps, hname]
    convert ht using 1
    ext q
    constructor
    · rintro ⟨n, hq⟩
      exact ⟨⟨n, (hmem.1 hq).2⟩, hne hq⟩
    · rintro ⟨⟨n, hq⟩, hqp⟩
      exact ⟨n, hmem.2 ⟨fun heq ↦ hqp (congrArg Prod.snd heq), hq⟩⟩
  · exact h.sorted.sublist List.erase_sublist
  · obtain ⟨b, hb, hbn⟩ := h.live e (hmem.1 he).2
    exact ⟨b, (Function.update_of_ne (hne he) _ _).trans hb, hbn⟩
  · exact h.fresh e (hmem.1 he).2
  · rw [State.removeNode, State.write, h.uninit hf]
    rfl

/-! ### The functions -/

theorem blkAdd (h : Represents u s) (disk blkdev : BitVec 64) (info : Info) (ops : Ops) :
    ∃ u', u.blkAdd disk blkdev info ops = .ok u' ∧
      Represents u' (s.blkAdd disk blkdev info ops) := by
  have hi : s.initTree.initialised = true := by
    rw [State.initTree]
    split_ifs with hi
    · exact hi
    · rfl
  have hm := h.initTree.malloc hi ⟨false, 0, disk, blkdev, info, ops⟩
  obtain ⟨u', r, hrun, hr⟩ :=
    hm.insertNode (p := s.initTree.next) (Function.update_self ..) rfl rfl (Nat.lt_succ_self _) hi
  refine ⟨u', ?_, hr⟩
  rw [← h.initTree.next] at hrun
  rw [Disks.blkAdd]
  simp only [hrun]
  rfl

theorem blkDel (h : Represents u s) (disk : BitVec 64) :
    Alike Represents (u.blkDel disk) (s.blkDel disk) := by
  rw [Disks.blkDel, State.blkDel, h.findNode]
  by_cases hi : s.initialised = true
  · rw [State.findNode_eq hi]
    cases hl : s.lookup disk with
    | none => exact .ok h
    | some p =>
      have hp := h.lookup_eq.1 hl
      obtain ⟨blk, hm, -⟩ := h.live _ hp
      obtain ⟨u', r, hrun, hr, hno⟩ := h.removeNode hp hm
      simp only [h.read, State.read_eq hm, hrun, bind, Except.bind, pure, Except.pure]
      refine .ok ?_
      split_ifs
      · exact hr.free hno
      · exact hr
  · rw [State.findNode, if_neg hi]
    exact .error _

theorem blkIter (h : Represents u s) (cur : BitVec 64) : u.blkIter cur = s.blkIter cur := by
  rw [Disks.blkIter, State.blkIter]
  simp only [h.read]
  split_ifs with hc
  · rw [h.iterate_null]
    rfl
  · rw [h.findNode]
    by_cases hi : s.initialised = true
    · rw [State.findNode_eq hi]
      cases hl : s.lookup cur with
      | none => rfl
      | some p =>
        simp only [bind, Except.bind, h.iterate_node (h.lookup_eq.1 hl)]
        rfl
    · rw [State.findNode, if_neg hi]
      rfl

theorem blkOpen (h : Represents u s) (disk : BitVec 64) :
    Alike (fun x y ↦ Represents x.1 y.1 ∧ x.2 = y.2) (u.blkOpen disk) (s.blkOpen disk) := by
  rw [Disks.blkOpen, State.blkOpen, h.initialised]
  split_ifs with hi
  · rw [h.findNode, State.findNode_eq hi]
    cases hl : s.lookup disk with
    | none => exact .ok ⟨h, rfl⟩
    | some p =>
      obtain ⟨blk, hm, -, hinv⟩ := h.live _ (h.lookup_eq.1 hl)
      simp only [h.read, State.read_eq hm, hinv, bind, Except.bind, pure, Except.pure]
      exact .ok ⟨h.write hm rfl hinv.symm, rfl⟩
  · exact .ok ⟨h.initTree, rfl⟩

theorem blkClose (h : Represents u s) (p : Ptr) :
    Alike Represents (u.blkClose p) (s.blkClose p) := by
  rw [Disks.blkClose, State.blkClose, h.read]
  cases hm : s.mem p with
  | none =>
    rw [State.read, hm]
    exact .error _
  | some blk =>
    have hw : Represents (u.write p { blk with ref := blk.ref - 1 })
        (s.write p { blk with ref := blk.ref - 1 }) := h.write hm rfl rfl
    rw [State.read_eq hm]
    refine .ok ?_
    dsimp only
    split_ifs with hf
    · -- a disk in the tree is valid
      refine hw.free fun n hn ↦ ?_
      obtain ⟨b, hb, -, hinv⟩ := h.live _ hn
      rw [hm] at hb
      cases hb
      exact Bool.false_ne_true (hinv.symm.trans hf.1)
    · exact hw

theorem blkInfo (h : Represents u s) (p : Ptr) (info : Info) :
    u.blkInfo p info = s.blkInfo p info := by
  rw [Disks.blkInfo, State.blkInfo, h.read]

theorem partadd (h : Represents u s) (pno : BitVec 32) (blkdev start len : BitVec 64)
    (blki : Info) :
    Alike Represents (u.partadd pno blkdev start len blki)
      (s.partadd pno blkdev start len blki) := by
  rw [Disks.partadd, State.partadd]
  refine (h.blkOpen blkdev).bind ?_
  rintro ⟨u', o⟩ ⟨s', o'⟩ ⟨h', rfl⟩
  cases o with
  | none => exact .ok h'
  | some blk =>
    dsimp only
    rw [h'.blkInfo]
    cases s'.blkInfo blk blki with
    | error e => exact .error e
    | ok x =>
      obtain ⟨u'', hrun, h''⟩ := h'.blkAdd (State.partName blkdev pno) blkdev
        { blksz := x.2.blksz, blkno := len } (.part { blk, start, length := len })
      simp only [bind, Except.bind, hrun]
      exact .ok h''

theorem call (h : Represents u s) (c : LibCall) :
    Alike (fun x y ↦ Represents x.1 y.1 ∧ x.2 = y.2) (u.call c) (s.call c) := by
  cases c with
  | add disk blkdev info ops =>
    obtain ⟨u', hrun, h'⟩ := h.blkAdd disk blkdev info ops
    simp only [Disks.call, State.call, hrun, bind, Except.bind]
    exact .ok ⟨h', rfl⟩
  | del disk => exact (h.blkDel disk).bind fun _ _ h' ↦ .ok ⟨h', rfl⟩
  | iter cur =>
    rw [Disks.call, State.call, h.blkIter]
    cases s.blkIter cur with
    | error e => exact .error e
    | ok r => exact .ok ⟨h, rfl⟩
  | opn disk =>
    refine (h.blkOpen disk).bind ?_
    rintro ⟨u', r⟩ ⟨s', r'⟩ ⟨h', hr⟩
    exact .ok ⟨h', congrArg Ret.handle hr⟩
  | close p => exact (h.blkClose p).bind fun _ _ h' ↦ .ok ⟨h', rfl⟩
  | info p info =>
    rw [Disks.call, State.call, h.blkInfo]
    cases s.blkInfo p info with
    | error e => exact .error e
    | ok r => exact .ok ⟨h, rfl⟩
  | part pno blkdev start len blki =>
    exact (h.partadd pno blkdev start len blki).bind fun _ _ h' ↦ .ok ⟨h', rfl⟩

theorem init (cell : Ptr → Rb.RbNode Ptr) : Represents (Disks.init cell) State.init := by
  have hempty : {p | ∃ name, (name, p) ∈ State.init.tree} = (∅ : Set Ptr) := by
    ext p
    simp [State.init]
  refine ⟨rfl, rfl, rfl, rfl, ?_, List.Pairwise.nil, fun e he ↦ ?_, fun e he ↦ ?_, fun _ ↦ rfl⟩
  · rw [hempty]
    exact RbTree.holds_init (Disks.init cell).blkRbtree
  · cases he
  · cases he

end Represents

/-- Whatever calls are made, and whatever is in the memory that the nodes of the tree come to be in,
the disks in their tree return the same as the disks in a list, and go wrong in the same way. -/
theorem disks_returns_eq (cell : Ptr → Rb.RbNode Ptr) (cs : List LibCall) :
    Lib.returns Disks.call (Disks.init cell) cs = Lib.returns State.call State.init cs :=
  Lib.returns_eq (R := Represents) (fun _ _ c h ↦ h.call c) (.init cell) cs

end Mh.Blk
