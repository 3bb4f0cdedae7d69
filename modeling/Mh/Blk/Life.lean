import Mh.Blk.Model
import Mh.Lib.Run

/-!
# The life of a disk

What the calls of a process have made of each disk is one of four things: there is none yet, it is
registered, it has been deleted but has handles, or it has been freed.  Each call moves one disk
along this line and leaves the others where they are.  The count of the handles is a word of 32
bits, so this is so as long as no disk has `2 ^ 32` handles at once.
-/

namespace Mh.Blk

open Mh.Lib

/-! ## Runs -/

/-- The disks of a process, with what its calls have been for: the names and disks that have been
added, those that have been deleted, and the handles that it holds. -/
structure Sys where
  st : State
  added : List (BitVec 64 × Ptr)
  deleted : List Ptr
  held : List Ptr

/-- A call. -/
inductive Op
  | add (disk blkdev : BitVec 64) (info : Info) (ops : Ops)
  | del (disk : BitVec 64)
  | opn (disk : BitVec 64)
  | close (p : Ptr)

namespace Sys

/-- Before the first call. -/
def init : Sys := ⟨State.init, [], [], []⟩

/-- The disk has been added under the name, and not been deleted. -/
def Registered (s : Sys) (name : BitVec 64) (p : Ptr) : Prop :=
  (name, p) ∈ s.added ∧ p ∉ s.deleted

/-- A call, and what it is for. -/
def step (s : Sys) : Op → Except Fault Sys
  | .add disk blkdev info ops =>
    .ok { s with st := s.st.blkAdd disk blkdev info ops, added := (disk, s.st.next) :: s.added }
  | .del disk => do
    let st ← s.st.blkDel disk
    return { s with st, deleted := (s.added.filter fun e ↦ e.1 = disk).map (·.2) ++ s.deleted }
  | .opn disk => do
    let (st, blk) ← s.st.blkOpen disk
    return { s with st, held := blk.toList ++ s.held }
  | .close p => do
    let st ← s.st.blkClose p
    return { s with st, held := s.held.erase p }

/-- Only a name that is not registered is added, and only a handle that is held is closed. -/
def Allowed (s : Sys) : Op → Prop
  | .add disk _ _ _ => ∀ p, ¬ s.Registered disk p
  | .close p => p ∈ s.held
  | _ => True

/-- The handles on a disk can be counted. -/
def Countable (s : Sys) : Op → Prop
  | .opn disk => ∀ p, s.Registered disk p → s.held.count p + 1 < 2 ^ 32
  | _ => True

/-- An allowed call that returns. -/
def Calls (s : Sys) (op : Op) (s' : Sys) : Prop := s.Allowed op ∧ s.step op = .ok s'

/-- An allowed call that returns, of which the handles can be counted. -/
def Counted (s : Sys) (op : Op) (s' : Sys) : Prop := s.Countable op ∧ s.Calls op s'

end Sys

/-! ## The phases of a disk -/

/-- What there is about a block. -/
@[ext] structure View where
  blk : Option Blkdisk
  added : BitVec 64 → Prop
  listed : BitVec 64 → Prop
  deleted : Prop
  held : Nat
  freed : Nat

/-- There is no disk. -/
def View.absent : View := ⟨none, fun _ ↦ False, fun _ ↦ False, False, 0, 0⟩

/-- A disk in the tree. -/
def View.registered (blk : Blkdisk) : View :=
  ⟨some blk, (· = blk.nameid), (· = blk.nameid), False, blk.ref.toNat, 0⟩

/-- A disk that has been deleted and has handles. -/
def View.lingering (blk : Blkdisk) : View :=
  ⟨some blk, (· = blk.nameid), fun _ ↦ False, True, blk.ref.toNat, 0⟩

/-- A disk that has been freed. -/
def View.gone (name : BitVec 64) : View := ⟨none, (· = name), fun _ ↦ False, True, 0, 1⟩

/-- The phases. -/
inductive Phase : View → Prop
  | absent : Phase .absent
  | registered {blk : Blkdisk} (h : blk.invalid = false) : Phase (.registered blk)
  | lingering {blk : Blkdisk} (h : blk.invalid = true) (hpos : blk.ref ≠ 0) : Phase (.lingering blk)
  | gone (name : BitVec 64) : Phase (.gone name)

/-- What is freed is freed once, and has been deleted and has no handles. -/
theorem Phase.settled {v : View} (h : Phase v) :
    v.freed ≤ 1 ∧ (0 < v.freed ↔ v.deleted ∧ v.held = 0) := by
  cases h with
  | absent => exact ⟨Nat.zero_le 1, iff_of_false (Nat.lt_irrefl 0) And.left⟩
  | registered _ => exact ⟨Nat.zero_le 1, iff_of_false (Nat.lt_irrefl 0) And.left⟩
  | lingering _ hpos =>
      refine ⟨Nat.zero_le 1, iff_of_false (Nat.lt_irrefl 0) fun h ↦ hpos ?_⟩
      exact BitVec.eq_of_toNat_eq h.2
  | gone name => exact ⟨Nat.le_refl 1, iff_of_true Nat.one_pos ⟨trivial, rfl⟩⟩

/-- What there is about a block in a state. -/
def Sys.view (s : Sys) (p : Ptr) : View :=
  ⟨s.st.mem p, fun n ↦ (n, p) ∈ s.added, fun n ↦ (n, p) ∈ s.st.tree, p ∈ s.deleted, s.held.count p,
    s.st.freed.count p⟩

/-- The tree is in order, every block is in a phase, and there is nothing about the blocks that
`malloc` has not handed out. -/
structure Inv (s : Sys) : Prop where
  sorted : s.st.tree.Pairwise fun e e' ↦ e.1 < e'.1
  uninit : s.st.initialised = false → s.st.tree = []
  phase : ∀ p, Phase (s.view p)
  fresh : ∀ p, s.st.next ≤ p → s.view p = .absent

variable {s s' : Sys} {p q : Ptr} {name disk : BitVec 64} {blk : Blkdisk}

/-- What there is about a block, one by one. -/
theorem Sys.view_eq_iff {v : View} : s.view p = v ↔
    s.st.mem p = v.blk ∧ (∀ n, (n, p) ∈ s.added ↔ v.added n) ∧
      (∀ n, (n, p) ∈ s.st.tree ↔ v.listed n) ∧ (p ∈ s.deleted ↔ v.deleted) ∧
      s.held.count p = v.held ∧ s.st.freed.count p = v.freed := by
  constructor
  · rintro rfl
    exact ⟨rfl, fun _ ↦ Iff.rfl, fun _ ↦ Iff.rfl, Iff.rfl, rfl, rfl⟩
  · rintro ⟨hblk, hadd, hlisted, hdel, hheld, hfreed⟩
    ext n
    · exact iff_of_eq (congrArg (_ ∈ ·) hblk)
    · exact hadd n
    · exact hlisted n
    · exact hdel
    · exact hheld
    · exact hfreed

theorem Sys.view_init (p : Ptr) : Sys.init.view p = .absent := by
  ext <;> simp [Sys.init, State.init, Sys.view, View.absent]

theorem Inv.init : Inv Sys.init := by
  refine ⟨List.Pairwise.nil, fun _ ↦ rfl, fun p ↦ ?_, fun p _ ↦ Sys.view_init p⟩
  rw [Sys.view_init]
  exact .absent

namespace Inv

/-- The block is in one of the phases. -/
theorem cases (h : Inv s) (p : Ptr) : s.view p = .absent ∨
    (∃ blk, s.view p = .registered blk ∧ blk.invalid = false) ∨
    (∃ blk, s.view p = .lingering blk ∧ blk.invalid = true ∧ blk.ref ≠ 0) ∨
    ∃ name, s.view p = .gone name := by
  have hp := h.phase p
  generalize s.view p = v at hp
  cases hp with
  | absent => exact .inl rfl
  | registered hinv => exact .inr (.inl ⟨_, rfl, hinv⟩)
  | lingering hinv hpos => exact .inr (.inr (.inl ⟨_, rfl, hinv, hpos⟩))
  | gone name => exact .inr (.inr (.inr ⟨name, rfl⟩))

/-- The disk of a node of the tree. -/
theorem view_of_mem_tree (h : Inv s) (hmem : (name, p) ∈ s.st.tree) :
    ∃ blk, s.view p = .registered blk ∧ blk.invalid = false ∧ blk.nameid = name := by
  have hlisted : (s.view p).listed name := hmem
  obtain hv | ⟨blk, hv, hinv⟩ | ⟨blk, hv, -⟩ | ⟨n, hv⟩ := h.cases p <;> rw [hv] at hlisted
  · exact hlisted.elim
  · exact ⟨blk, hv, hinv, hlisted.symm⟩
  · exact hlisted.elim
  · exact hlisted.elim

/-- The disk of a handle has not been freed. -/
theorem exists_mem (h : Inv s) (hpos : 0 < s.held.count p) : ∃ blk, s.st.mem p = some blk := by
  obtain hv | ⟨blk, hv, -⟩ | ⟨blk, hv, -⟩ | ⟨n, hv⟩ := h.cases p
  · exact absurd (congrArg View.held hv) hpos.ne'
  · exact ⟨blk, congrArg View.blk hv⟩
  · exact ⟨blk, congrArg View.blk hv⟩
  · exact absurd (congrArg View.held hv) hpos.ne'

/-- The tree has the disks that are registered. -/
theorem registered_iff (h : Inv s) : s.Registered name p ↔ (name, p) ∈ s.st.tree := by
  constructor
  · rintro ⟨hadd, hdel⟩
    have hadd' : (s.view p).added name := hadd
    have hdel' : ¬ (s.view p).deleted := hdel
    change (s.view p).listed name
    obtain hv | ⟨blk, hv, -⟩ | ⟨blk, hv, -⟩ | ⟨n, hv⟩ := h.cases p <;> rw [hv] at hadd' hdel' ⊢
    · exact hadd'.elim
    · exact hadd'
    · exact absurd trivial hdel'
    · exact absurd trivial hdel'
  · intro hmem
    obtain ⟨blk, hv, -, hname⟩ := h.view_of_mem_tree hmem
    refine ⟨(congrFun (congrArg View.added hv) name).mpr hname.symm, ?_⟩
    exact (congrArg View.deleted hv).mp

/-- A name has one node. -/
theorem tree_unique (h : Inv s) (hp : (name, p) ∈ s.st.tree) (hq : (name, q) ∈ s.st.tree) :
    p = q := by
  have hnodup : (s.st.tree.map (·.1)).Nodup :=
    List.pairwise_map.2 (h.sorted.imp fun hlt ↦ BitVec.ne_of_lt hlt)
  exact congrArg Prod.snd (List.inj_on_of_nodup_map hnodup hp hq rfl)

end Inv

theorem State.lookup_eq_none {s : State} : s.lookup name = none ↔ ∀ p, (name, p) ∉ s.tree := by
  rw [State.lookup, Option.map_eq_none_iff, List.find?_eq_none]
  constructor
  · intro h p hp
    exact h _ hp (decide_eq_true rfl)
  · rintro h ⟨n, p⟩ he hn
    obtain rfl := of_decide_eq_true hn
    exact h p he

theorem State.mem_tree_of_lookup {s : State} (h : s.lookup name = some p) : (name, p) ∈ s.tree := by
  obtain ⟨⟨n, q⟩, hfind, rfl⟩ := Option.map_eq_some_iff.1 h
  have hmem := List.mem_of_find?_eq_some hfind
  have hn := List.find?_some hfind
  rw [decide_eq_true_eq] at hn
  rwa [← hn]

theorem Inv.lookup_eq_some (h : Inv s) : s.st.lookup name = some p ↔ (name, p) ∈ s.st.tree := by
  constructor
  · exact State.mem_tree_of_lookup
  · intro hp
    cases hl : s.st.lookup name with
    | none => exact absurd hp (State.lookup_eq_none.1 hl p)
    | some q => rw [h.tree_unique hp (State.mem_tree_of_lookup hl)]

/-! ## What a call does -/

theorem State.read_eq {s : State} (h : s.mem p = some blk) : s.read p = .ok blk := by
  rw [State.read, h]

/-- The tree that `blk_add` finds. -/
theorem Inv.initTree (h : Inv s) : s.st.initTree = { s.st with initialised := true } := by
  rw [State.initTree]
  cases hi : s.st.initialised with
  | true => rw [if_pos rfl, ← hi]
  | false => rw [if_neg Bool.false_ne_true, ← h.uninit hi]

/-- A new name gets a node. -/
theorem State.insertNode_eq {s : State} {name : BitVec 64} (h : s.lookup name = none) (p : Ptr) :
    s.insertNode name p =
      { s with tree := s.tree.orderedInsert (fun e e' ↦ e.1 ≤ e'.1) (name, p) } := by
  rw [State.insertNode, h]

/-- `blk_add` of a name that is not registered: the disk is the next block. -/
theorem Inv.blkAdd_eq (h : Inv s) (hnew : ∀ p, ¬ s.Registered disk p) (blkdev : BitVec 64)
    (info : Info) (ops : Ops) : s.st.blkAdd disk blkdev info ops =
      ⟨true, s.st.tree.orderedInsert (fun e e' ↦ e.1 ≤ e'.1) (disk, s.st.next),
        Function.update s.st.mem s.st.next (some ⟨false, 0, disk, blkdev, info, ops⟩),
        s.st.next + 1, s.st.freed⟩ := by
  have hlook : s.st.lookup disk = none :=
    State.lookup_eq_none.2 fun p hp ↦ hnew p (h.registered_iff.2 hp)
  rw [State.blkAdd, h.initTree]
  exact State.insertNode_eq (s := { s.st.write s.st.next _ with
    initialised := true, next := s.st.next + 1 }) hlook s.st.next

/-- Names are looked for in the tree once it is there. -/
theorem State.findNode_eq {s : State} (h : s.initialised = true) (name : BitVec 64) :
    s.findNode name = .ok (s.lookup name) := if_pos h

theorem Inv.initialised (h : Inv s) (hreg : s.Registered disk p) : s.st.initialised = true := by
  cases hi : s.st.initialised with
  | true => rfl
  | false =>
      have hmem := h.registered_iff.1 hreg
      rw [h.uninit hi] at hmem
      exact absurd hmem List.not_mem_nil

/-- `blk_open` of a name that is in the tree. -/
theorem State.blkOpen_eq {s : State} (hi : s.initialised = true) (hlook : s.lookup disk = some p)
    (hmem : s.mem p = some blk) (hinv : blk.invalid = false) :
    s.blkOpen disk = .ok (s.write p { blk with ref := blk.ref + 1 }, some p) := by
  rw [State.blkOpen, if_pos hi, State.findNode_eq hi, hlook]
  change (do
    let blk ← s.read p
    if blk.invalid = true then throw Fault.assertion
    return (s.write p { blk with ref := blk.ref + 1 }, some p)) = _
  rw [State.read_eq hmem]
  change (do
    if blk.invalid = true then throw Fault.assertion
    return (s.write p { blk with ref := blk.ref + 1 }, some p)) = _
  rw [if_neg (Bool.not_eq_true _ ▸ hinv)]
  rfl

/-- `blk_open` of a name that is registered. -/
theorem Inv.blkOpen_eq (h : Inv s) (hreg : s.Registered disk p)
    (hv : s.view p = .registered blk) (hinv : blk.invalid = false) :
    s.st.blkOpen disk = .ok (s.st.write p { blk with ref := blk.ref + 1 }, some p) :=
  State.blkOpen_eq (h.initialised hreg) (h.lookup_eq_some.2 (h.registered_iff.1 hreg))
    (congrArg View.blk hv) hinv

/-- `blk_del` of a name that is in the tree. -/
theorem State.blkDel_eq {s : State} (hi : s.initialised = true) (hlook : s.lookup disk = some p)
    (hmem : s.mem p = some blk) :
    s.blkDel disk =
      .ok (let st := (s.write p { blk with invalid := true }).removeNode disk p
        if blk.ref = 0 then st.free p else st) := by
  rw [State.blkDel, State.findNode_eq hi, hlook]
  change (s.read p >>= fun blk ↦ _) = _
  rw [State.read_eq hmem]
  rfl

/-- `blk_del` of a name that is registered. -/
theorem Inv.blkDel_eq (h : Inv s) (hreg : s.Registered disk p) (hv : s.view p = .registered blk) :
    s.st.blkDel disk =
      .ok (let st := (s.st.write p { blk with invalid := true }).removeNode disk p
        if blk.ref = 0 then st.free p else st) :=
  State.blkDel_eq (h.initialised hreg) (h.lookup_eq_some.2 (h.registered_iff.1 hreg))
    (congrArg View.blk hv)

/-- `blk_close` of a handle. -/
theorem State.blkClose_eq {s : State} (h : s.mem p = some blk) :
    s.blkClose p =
      .ok (let blk := { blk with ref := blk.ref - 1 }
        if blk.invalid ∧ blk.ref = 0 then (s.write p blk).free p else s.write p blk) := by
  rw [State.blkClose, State.read_eq h]
  rfl

/-! ## Every call keeps the invariant -/

/-- A call has brought the block `p` to `v` and has left the others as they were. -/
structure Moved (p : Ptr) (v : View) (s s' : Sys) : Prop where
  view : s'.view p = v
  other : ∀ q, q ≠ p → s'.view q = s.view q

/-- The invariant after a call that moves one block. -/
theorem Inv.of_moved {v : View} (h : Inv s) (hm : Moved p v s s') (hv : Phase v)
    (hsorted : s'.st.tree.Pairwise fun e e' ↦ e.1 < e'.1)
    (huninit : s'.st.initialised = false → s'.st.tree = [])
    (hp : p < s'.st.next) (hnext : s.st.next ≤ s'.st.next) : Inv s' := by
  refine ⟨hsorted, huninit, fun q ↦ ?_, fun q hq ↦ ?_⟩
  · by_cases hqp : q = p
    · rw [hqp, hm.view]
      exact hv
    · rw [hm.other q hqp]
      exact h.phase q
  · have hqp : q ≠ p := fun heq ↦ Nat.not_lt.2 hq (heq ▸ hp)
    rw [hm.other q hqp]
    exact h.fresh q (Nat.le_trans hnext hq)

/-- A block that something is known about has been handed out. -/
theorem Inv.lt_next (h : Inv s) (hv : s.view p ≠ .absent) : p < s.st.next := by
  by_contra hp
  exact hv (h.fresh p (Nat.not_lt.1 hp))

/-- A new name goes to its place. -/
theorem pairwise_orderedInsert {l : List (BitVec 64 × Ptr)} {e : BitVec 64 × Ptr}
    (h : l.Pairwise fun e e' ↦ e.1 < e'.1) (hne : ∀ e' ∈ l, e.1 ≠ e'.1) :
    (l.orderedInsert (fun e e' ↦ e.1 ≤ e'.1) e).Pairwise fun e e' ↦ e.1 < e'.1 := by
  induction l with
  | nil => exact List.pairwise_singleton _ _
  | cons a l ih =>
      obtain ⟨ha, hl⟩ := List.pairwise_cons.1 h
      have hea := hne a List.mem_cons_self
      rw [List.orderedInsert_cons]
      split
      · next hle =>
        have hlt : e.1 < a.1 := by bv_omega
        refine List.pairwise_cons.2 ⟨fun b hb ↦ ?_, h⟩
        obtain rfl | hb := List.mem_cons.1 hb
        · exact hlt
        · exact BitVec.lt_trans hlt (ha b hb)
      · next hle =>
        refine List.pairwise_cons.2 ⟨fun b hb ↦ ?_, ?_⟩
        · obtain rfl | hb := (List.mem_orderedInsert _).1 hb
          · exact BitVec.not_le.1 hle
          · exact ha b hb
        · exact ih hl fun b hb ↦ hne b (List.mem_cons_of_mem a hb)

/-- `blk_add` makes a disk of a new block. -/
theorem Inv.add (h : Inv s) (hnew : ∀ p, ¬ s.Registered disk p) {blkdev : BitVec 64} {info : Info}
    {ops : Ops} (hs : s.step (.add disk blkdev info ops) = .ok s') : Inv s' := by
  obtain rfl := Except.ok.inj hs
  rw [h.blkAdd_eq hnew]
  obtain ⟨-, hadd, hlisted, hdel, hheld, hfreed⟩ :=
    Sys.view_eq_iff.1 (h.fresh s.st.next (Nat.le_refl _))
  have hmoved : Moved s.st.next (.registered ⟨false, 0, disk, blkdev, info, ops⟩) s
      { s with
        st := ⟨true, s.st.tree.orderedInsert (fun e e' ↦ e.1 ≤ e'.1) (disk, s.st.next),
          Function.update s.st.mem s.st.next (some ⟨false, 0, disk, blkdev, info, ops⟩),
          s.st.next + 1, s.st.freed⟩
        added := (disk, s.st.next) :: s.added } := by
    constructor
    · refine Sys.view_eq_iff.2
        ⟨Function.update_self .., fun n ↦ ?_, fun n ↦ ?_, hdel, hheld, hfreed⟩
      · rw [List.mem_cons, or_iff_left (hadd n).1, Prod.mk.injEq, and_iff_left rfl]
        rfl
      · rw [List.mem_orderedInsert, or_iff_left (hlisted n).1, Prod.mk.injEq, and_iff_left rfl]
        rfl
    · intro q hq
      refine Sys.view_eq_iff.2
        ⟨Function.update_of_ne hq _ _, fun n ↦ ?_, fun n ↦ ?_, Iff.rfl, rfl, rfl⟩
      · simp [Sys.view, hq]
      · simp [Sys.view, hq]
  refine h.of_moved hmoved (.registered rfl) ?_ (fun hi ↦ by cases hi) (Nat.lt_succ_self _)
    (Nat.le_succ _)
  refine pairwise_orderedInsert h.sorted fun e he heq ↦ ?_
  exact hnew e.2 (h.registered_iff.2 (by rw [show disk = e.1 from heq]; exact he))

/-- `blk_open` of a name that is not registered. -/
theorem Inv.blkOpen_none (h : Inv s) (hnone : ∀ p, ¬ s.Registered disk p) :
    s.st.blkOpen disk = .ok ({ s.st with initialised := true }, none) := by
  rw [State.blkOpen]
  cases hi : s.st.initialised with
  | true =>
      have hlook : s.st.lookup disk = none :=
        State.lookup_eq_none.2 fun p hp ↦ hnone p (h.registered_iff.2 hp)
      rw [if_pos rfl, State.findNode_eq hi, hlook, ← hi]
      rfl
  | false =>
      rw [if_neg Bool.false_ne_true, h.initTree]
      rfl

/-- A disk that something is known about is not absent. -/
theorem View.registered_ne_absent : View.registered blk ≠ .absent := fun h ↦ by
  cases congrArg View.blk h

theorem View.lingering_ne_absent : View.lingering blk ≠ .absent := fun h ↦ by
  cases congrArg View.blk h

/-- A block is written, and the handles on it change. -/
theorem Moved.write {v w : View} (blk : Blkdisk) (held : List Ptr) (hv : s.view p = v)
    (hw : w = { v with blk := some blk, held := held.count p })
    (hother : ∀ q, q ≠ p → held.count q = s.held.count q) :
    Moved p w s { s with st := s.st.write p blk, held } := by
  subst hv hw
  constructor
  · exact Sys.view_eq_iff.2
      ⟨Function.update_self .., fun _ ↦ Iff.rfl, fun _ ↦ Iff.rfl, Iff.rfl, rfl, rfl⟩
  · intro q hq
    exact Sys.view_eq_iff.2 ⟨Function.update_of_ne hq _ _, fun _ ↦ Iff.rfl, fun _ ↦ Iff.rfl,
      Iff.rfl, hother q hq, rfl⟩

/-- A block is freed after that. -/
theorem Moved.free {v w : View} (h : Moved p v s s')
    (hw : w = { v with blk := none, freed := v.freed + 1 }) :
    Moved p w s { s' with st := s'.st.free p } := by
  subst hw
  constructor
  · obtain ⟨-, hadd, hlisted, hdel, hheld, hfreed⟩ := Sys.view_eq_iff.1 h.view
    refine Sys.view_eq_iff.2 ⟨Function.update_self .., hadd, hlisted, hdel, hheld, ?_⟩
    exact List.count_cons_self.trans (congrArg (· + 1) hfreed)
  · intro q hq
    rw [← h.other q hq]
    exact Sys.view_eq_iff.2 ⟨Function.update_of_ne hq _ _, fun _ ↦ Iff.rfl, fun _ ↦ Iff.rfl,
      Iff.rfl, rfl, List.count_cons_of_ne hq.symm⟩

/-- A count that goes up without an overflow. -/
theorem toNat_add_one {x : BitVec 32} (h : x.toNat + 1 < 2 ^ 32) : (x + 1).toNat = x.toNat + 1 := by
  bv_omega

/-- A count that goes down. -/
theorem toNat_sub_one {x : BitVec 32} (h : 0 < x.toNat) : (x - 1).toNat = x.toNat - 1 := by
  bv_omega

/-- `blk_open` of a name that is registered counts one more handle on its disk. -/
theorem Inv.opened (h : Inv s) (hv : s.view p = .registered blk) (hinv : blk.invalid = false)
    (hcount : s.held.count p + 1 < 2 ^ 32) :
    Inv { s with st := s.st.write p { blk with ref := blk.ref + 1 }, held := p :: s.held } := by
  have hheld : s.held.count p = blk.ref.toNat := congrArg View.held hv
  have hmoved := Moved.write { blk with ref := blk.ref + 1 } (p :: s.held)
    (w := .registered { blk with ref := blk.ref + 1 }) hv
    (by
      rw [List.count_cons_self, hheld, ← toNat_add_one (hheld ▸ hcount)]
      rfl)
    fun q hq ↦ List.count_cons_of_ne hq.symm
  exact h.of_moved hmoved (.registered hinv) h.sorted h.uninit
    (h.lt_next (hv ▸ View.registered_ne_absent)) (Nat.le_refl _)

/-- What a call of `blk_open` that returns has done. -/
theorem Inv.opn (h : Inv s) (hc : s.Countable (.opn disk)) (hs : s.step (.opn disk) = .ok s') :
    Inv s' := by
  by_cases hreg : ∃ p, s.Registered disk p
  · obtain ⟨p, hreg⟩ := hreg
    obtain ⟨blk, hv, hinv, -⟩ := h.view_of_mem_tree (h.registered_iff.1 hreg)
    rw [Sys.step, h.blkOpen_eq hreg hv hinv] at hs
    obtain rfl := Except.ok.inj hs
    exact h.opened hv hinv (hc p hreg)
  · rw [Sys.step, h.blkOpen_none (not_exists.1 hreg)] at hs
    obtain rfl := Except.ok.inj hs
    exact ⟨h.sorted, fun hi ↦ absurd hi.symm Bool.false_ne_true, h.phase, h.fresh⟩

/-- `blk_close` of a handle gives it back, and frees a disk that has been deleted with its last
one. -/
theorem Inv.close (h : Inv s) (hheld : p ∈ s.held) (hs : s.step (.close p) = .ok s') : Inv s' := by
  have hpos : 0 < s.held.count p := List.count_pos_iff.2 hheld
  have hother : ∀ q, q ≠ p → (s.held.erase p).count q = s.held.count q :=
    fun q hq ↦ List.count_erase_of_ne hq
  have hcount : ∀ blk : Blkdisk, s.held.count p = blk.ref.toNat →
      (s.held.erase p).count p = (blk.ref - 1).toNat := by
    intro blk hblk
    rw [List.count_erase_self, hblk, toNat_sub_one (hblk ▸ hpos)]
  obtain hv | ⟨blk, hv, hinv⟩ | ⟨blk, hv, hinv, -⟩ | ⟨n, hv⟩ := h.cases p
  · exact absurd (congrArg View.held hv) hpos.ne'
  · have hblk : s.st.mem p = some blk := congrArg View.blk hv
    have hfree : ¬ (blk.invalid = true ∧ blk.ref - 1 = 0) := by
      rw [hinv]
      exact fun hi ↦ Bool.false_ne_true hi.1
    rw [Sys.step, State.blkClose_eq hblk] at hs
    obtain rfl := Except.ok.inj hs
    rw [if_neg hfree]
    have hmoved := Moved.write { blk with ref := blk.ref - 1 } (s.held.erase p)
      (w := .registered { blk with ref := blk.ref - 1 }) hv
      (by rw [hcount blk (congrArg View.held hv)]; rfl) hother
    exact h.of_moved hmoved (.registered hinv) h.sorted h.uninit
      (h.lt_next (hv ▸ View.registered_ne_absent)) (Nat.le_refl _)
  · have hblk : s.st.mem p = some blk := congrArg View.blk hv
    have hp : p < s.st.next := h.lt_next (hv ▸ View.lingering_ne_absent)
    rw [Sys.step, State.blkClose_eq hblk] at hs
    obtain rfl := Except.ok.inj hs
    have hmoved := Moved.write { blk with ref := blk.ref - 1 } (s.held.erase p)
      (w := .lingering { blk with ref := blk.ref - 1 }) hv
      (by rw [hcount blk (congrArg View.held hv)]; rfl) hother
    by_cases hlast : blk.ref - 1 = 0
    · rw [if_pos ⟨hinv, hlast⟩]
      have hgone := hmoved.free (w := .gone blk.nameid) (by
        rw [View.lingering, hlast]
        rfl)
      exact h.of_moved hgone (.gone _) h.sorted h.uninit hp (Nat.le_refl _)
    · rw [if_neg fun hi ↦ hlast hi.2]
      exact h.of_moved hmoved (.lingering hinv hlast) h.sorted h.uninit hp (Nat.le_refl _)
  · exact absurd (congrArg View.held hv) hpos.ne'

/-- `blk_del` of a name that is not registered. -/
theorem Inv.blkDel_none (h : Inv s) (hi : s.st.initialised = true)
    (hnone : ∀ p, ¬ s.Registered disk p) : s.st.blkDel disk = .ok s.st := by
  have hlook : s.st.lookup disk = none :=
    State.lookup_eq_none.2 fun p hp ↦ hnone p (h.registered_iff.2 hp)
  rw [State.blkDel, State.findNode_eq hi, hlook]
  rfl

/-- The disks that have been deleted after `blk_del`. -/
theorem mem_deleted_iff : q ∈ (s.added.filter fun e ↦ e.1 = disk).map (·.2) ++ s.deleted ↔
    s.Registered disk q ∨ q ∈ s.deleted := by
  rw [List.mem_append, List.mem_map]
  constructor
  · rintro (⟨⟨n, q⟩, he, rfl⟩ | hq)
    · obtain ⟨hadd, hn⟩ := List.mem_filter.1 he
      obtain rfl := of_decide_eq_true hn
      by_cases hq : q ∈ s.deleted
      · exact .inr hq
      · exact .inl ⟨hadd, hq⟩
    · exact .inr hq
  · rintro (⟨hadd, -⟩ | hq)
    · exact .inl ⟨(disk, q), List.mem_filter.2 ⟨hadd, decide_eq_true rfl⟩, rfl⟩
    · exact .inr hq

/-- The disk is marked as deleted and leaves the tree. -/
theorem Inv.unlisted (h : Inv s) (hreg : s.Registered disk p) (hv : s.view p = .registered blk)
    (hname : blk.nameid = disk) : Moved p (.lingering { blk with invalid := true }) s
      { s with
        st := (s.st.write p { blk with invalid := true }).removeNode disk p
        deleted := (s.added.filter fun e ↦ e.1 = disk).map (·.2) ++ s.deleted } := by
  obtain ⟨-, hadd, hlisted, -, hheld, hfreed⟩ := Sys.view_eq_iff.1 hv
  have hnodup : s.st.tree.Nodup := h.sorted.imp fun hlt heq ↦ BitVec.ne_of_lt hlt (congrArg _ heq)
  constructor
  · refine Sys.view_eq_iff.2 ⟨Function.update_self .., hadd, fun n ↦ ?_, ?_, hheld, hfreed⟩
    · refine iff_of_false (fun hmem ↦ ?_) not_false
      obtain ⟨hne, hmem⟩ := hnodup.mem_erase_iff.1 hmem
      exact hne (congrArg (·, p) (((hlisted n).1 hmem).trans hname))
    · exact iff_of_true (mem_deleted_iff.2 (.inl hreg)) trivial
  · intro q hq
    refine Sys.view_eq_iff.2
      ⟨Function.update_of_ne hq _ _, fun _ ↦ Iff.rfl, fun n ↦ ?_, ?_, rfl, rfl⟩
    · exact List.mem_erase_of_ne fun heq ↦ hq (congrArg Prod.snd heq)
    · refine mem_deleted_iff.trans (or_iff_right fun hreg' ↦ hq ?_)
      exact h.tree_unique (h.registered_iff.1 hreg') (h.registered_iff.1 hreg)

/-- `blk_del` takes a disk out of the tree, and frees it where there is no handle on it. -/
theorem Inv.del (h : Inv s) (hs : s.step (.del disk) = .ok s') : Inv s' := by
  have hi : s.st.initialised = true := by
    by_contra hi
    rw [Sys.step, State.blkDel, State.findNode, if_neg hi] at hs
    cases hs
  by_cases hreg : ∃ p, s.Registered disk p
  · obtain ⟨p, hreg⟩ := hreg
    have hmem := h.registered_iff.1 hreg
    obtain ⟨blk, hv, hinv, hname⟩ := h.view_of_mem_tree hmem
    have hp : p < s.st.next := h.lt_next (hv ▸ View.registered_ne_absent)
    have hsorted : (s.st.tree.erase (disk, p)).Pairwise fun e e' ↦ e.1 < e'.1 :=
      h.sorted.sublist List.erase_sublist
    have hmoved := h.unlisted hreg hv hname
    rw [Sys.step, h.blkDel_eq hreg hv] at hs
    obtain rfl := Except.ok.inj hs
    by_cases href : blk.ref = 0
    · have hgone := hmoved.free (w := .gone blk.nameid) (by
        rw [View.lingering, href]
        rfl)
      simp only [if_pos href]
      exact h.of_moved hgone (.gone _) hsorted (fun hi' ↦ absurd (hi.symm.trans hi') (by decide)) hp
        (Nat.le_refl _)
    · simp only [if_neg href]
      exact h.of_moved hmoved (.lingering rfl href) hsorted
        (fun hi' ↦ absurd (hi.symm.trans hi') (by decide)) hp (Nat.le_refl _)
  · rw [Sys.step, h.blkDel_none hi (not_exists.1 hreg)] at hs
    obtain rfl := Except.ok.inj hs
    have hview : ∀ q, Sys.view { s with
        deleted := (s.added.filter fun e ↦ e.1 = disk).map (·.2) ++ s.deleted } q = s.view q := by
      intro q
      refine Sys.view_eq_iff.2 ⟨rfl, fun _ ↦ Iff.rfl, fun _ ↦ Iff.rfl, ?_, rfl, rfl⟩
      exact mem_deleted_iff.trans (or_iff_right (not_exists.1 hreg q))
    exact ⟨h.sorted, h.uninit, fun q ↦ (hview q).symm ▸ h.phase q,
      fun q hq ↦ (hview q).trans (h.fresh q hq)⟩

/-- Every call keeps the invariant. -/
theorem Inv.step {op : Op} (h : Inv s) (hs : s.Counted op s') : Inv s' := by
  obtain ⟨hcount, hallowed, hs⟩ := hs
  cases op with
  | add disk blkdev info ops => exact h.add hallowed hs
  | del disk => exact h.del hs
  | opn disk => exact h.opn hcount hs
  | close p => exact h.close hallowed hs

/-- A call that is allowed returns, unless it is `blk_del` before there is a tree. -/
theorem Inv.returns {op : Op} (h : Inv s) (hallowed : s.Allowed op) :
    (∃ s', s.step op = .ok s') ∨ s.step op = .error .uninit := by
  cases op with
  | add disk blkdev info ops => exact .inl ⟨_, rfl⟩
  | opn disk =>
      refine .inl ?_
      by_cases hreg : ∃ p, s.Registered disk p
      · obtain ⟨p, hreg⟩ := hreg
        obtain ⟨blk, hv, hinv, -⟩ := h.view_of_mem_tree (h.registered_iff.1 hreg)
        rw [Sys.step, h.blkOpen_eq hreg hv hinv]
        exact ⟨_, rfl⟩
      · rw [Sys.step, h.blkOpen_none (not_exists.1 hreg)]
        exact ⟨_, rfl⟩
  | close p =>
      have hpos : 0 < s.held.count p := List.count_pos_iff.2 hallowed
      refine .inl ?_
      obtain ⟨blk, hblk⟩ := h.exists_mem hpos
      rw [Sys.step, State.blkClose_eq hblk]
      exact ⟨_, rfl⟩
  | del disk =>
      by_cases hi : s.st.initialised = true
      · refine .inl ?_
        by_cases hreg : ∃ p, s.Registered disk p
        · obtain ⟨p, hreg⟩ := hreg
          obtain ⟨blk, hv, -⟩ := h.view_of_mem_tree (h.registered_iff.1 hreg)
          rw [Sys.step, h.blkDel_eq hreg hv]
          exact ⟨_, rfl⟩
        · rw [Sys.step, h.blkDel_none hi (not_exists.1 hreg)]
          exact ⟨_, rfl⟩
      · refine .inr ?_
        rw [Sys.step, State.blkDel, State.findNode, if_neg hi]
        rfl

/-! ## Iteration -/

/-- The loop `for (cur = blk_iter(cur); cur; cur = blk_iter(cur))`: the names that it comes to.
There are none where the rounds do not suffice. -/
def State.visit (s : State) : Nat → BitVec 64 → Except Fault (Option (List (BitVec 64)))
  | 0, _ => .ok none
  | fuel + 1, cur => do
    let next ← s.blkIter cur
    if next = 0 then return some []
    return (← s.visit fuel next).map (next :: ·)

/-- The name at the front of a list of nodes. -/
def firstName : List (BitVec 64 × Ptr) → BitVec 64
  | [] => 0
  | e :: _ => e.1

/-- What `blk_iter` returns for a node. -/
theorem Inv.read_nameid (h : Inv s) {e : BitVec 64 × Ptr} (he : e ∈ s.st.tree) :
    (do return (← s.st.read e.2).nameid : Except Fault (BitVec 64)) = .ok e.1 := by
  obtain ⟨blk, hv, -, hname⟩ := h.view_of_mem_tree he
  rw [State.read_eq (congrArg View.blk hv), ← hname]
  rfl

/-- The iteration begins with the first name. -/
theorem Inv.blkIter_zero (h : Inv s) : s.st.blkIter 0 = .ok (firstName s.st.tree) := by
  cases htree : s.st.tree with
  | nil =>
      rw [State.blkIter, if_pos rfl, htree]
      rfl
  | cons e tree =>
      rw [State.blkIter, if_pos rfl, htree]
      exact h.read_nameid (htree ▸ List.mem_cons_self)

/-- No name is behind that of a node. -/
theorem State.blkIter_last {s : State} {cur : BitVec 64} {p : Ptr} (hne : cur ≠ 0)
    (hp : s.findNode cur = .ok (some p)) (h : (s.tree.find? fun e ↦ cur < e.1) = none) :
    s.blkIter cur = .ok 0 := by
  simp only [State.blkIter, if_neg hne, hp, h, bind, Except.bind, pure, Except.pure,
    Option.map_none]

/-- There is one behind it. -/
theorem State.blkIter_succ {s : State} {cur : BitVec 64} {p : Ptr} {e : BitVec 64 × Ptr}
    (hne : cur ≠ 0) (hp : s.findNode cur = .ok (some p))
    (h : (s.tree.find? fun e ↦ cur < e.1) = some e) :
    s.blkIter cur = do return (← s.read e.2).nameid := by
  simp only [State.blkIter, if_neg hne, hp, h, bind, Except.bind, pure, Except.pure,
    Option.map_some]

/-- The iteration goes on with the next name. -/
theorem Inv.blkIter_next (h : Inv s) {l l' : List (BitVec 64 × Ptr)} {e : BitVec 64 × Ptr}
    (htree : s.st.tree = l ++ e :: l') (hne : e.1 ≠ 0) :
    s.st.blkIter e.1 = .ok (firstName l') := by
  have he : e ∈ s.st.tree := htree ▸ List.mem_append_right l List.mem_cons_self
  have hi : s.st.initialised = true := h.initialised (h.registered_iff.2 he)
  have hsorted := h.sorted
  rw [htree, List.pairwise_append, List.pairwise_cons] at hsorted
  obtain ⟨-, ⟨hafter, -⟩, hbefore⟩ := hsorted
  have hfind : s.st.tree.find? (fun e' ↦ e.1 < e'.1) = l'.head? := by
    have hl : l.find? (fun e' ↦ e.1 < e'.1) = none := by
      refine List.find?_eq_none.2 fun e' he' hlt ↦ ?_
      exact BitVec.lt_asymm (of_decide_eq_true hlt) (hbefore e' he' e List.mem_cons_self)
    have hirrefl : ¬ decide (e.1 < e.1) = true := by
      rw [decide_eq_true_eq]
      exact BitVec.lt_irrefl e.1
    rw [htree, List.find?_append, hl, Option.none_or]
    refine (List.find?_cons_of_neg (p := fun e' : BitVec 64 × Ptr ↦ decide (e.1 < e'.1))
      hirrefl).trans ?_
    cases l' with
    | nil => rfl
    | cons e' l' =>
        exact List.find?_cons_of_pos (p := fun e' : BitVec 64 × Ptr ↦ decide (e.1 < e'.1))
          (decide_eq_true (hafter e' List.mem_cons_self))
  have hnode : s.st.findNode e.1 = .ok (some e.2) := by
    rw [State.findNode_eq hi, h.lookup_eq_some.2 he]
  cases l' with
  | nil => exact State.blkIter_last hne hnode hfind
  | cons e' l' =>
      rw [State.blkIter_succ hne hnode hfind]
      refine h.read_nameid (e := e') ?_
      rw [htree]
      exact List.mem_append_right l (List.mem_cons_of_mem e List.mem_cons_self)

/-- The iteration comes to the names that are left. -/
theorem Inv.visit_eq (h : Inv s) (hzero : ∀ p, ¬ s.Registered 0 p) {l l' : List (BitVec 64 × Ptr)}
    {cur : BitVec 64} {fuel : Nat} (htree : s.st.tree = l ++ l')
    (hcur : s.st.blkIter cur = .ok (firstName l')) (hfuel : l'.length < fuel) :
    s.st.visit fuel cur = .ok (some (l'.map (·.1))) := by
  induction l' generalizing l cur fuel with
  | nil =>
      cases fuel with
      | zero => exact absurd hfuel (Nat.not_lt_zero _)
      | succ fuel =>
          rw [State.visit, hcur]
          rfl
  | cons e l' ih =>
      cases fuel with
      | zero => exact absurd hfuel (Nat.not_lt_zero _)
      | succ fuel =>
          have he : e ∈ s.st.tree := htree ▸ List.mem_append_right l List.mem_cons_self
          have hne : e.1 ≠ 0 := fun h₀ ↦ hzero e.2 (h.registered_iff.2 (h₀ ▸ he))
          have htree' : s.st.tree = (l ++ [e]) ++ l' := by rw [htree, List.append_assoc]; rfl
          rw [State.visit, hcur]
          change (if e.1 = 0 then _ else _) = _
          rw [if_neg hne]
          change (s.st.visit fuel e.1 >>= _) = _
          rw [ih htree' (h.blkIter_next htree hne) (Nat.lt_of_succ_lt_succ hfuel)]
          rfl

/-! ## The life of every disk -/

/-- What has been freed, among the blocks. -/
theorem Inv.mem_freed_iff (h : Inv s) (p : Ptr) :
    p ∈ s.st.freed ↔ p ∈ s.deleted ∧ p ∉ s.held := by
  have hsettled := (h.phase p).settled.2
  rw [← List.count_pos_iff, ← List.count_eq_zero]
  exact hsettled

/-- `blk_open` returns the disk that is registered. -/
theorem Inv.registered_of_blkOpen {st : State} (h : Inv s)
    (hopen : s.st.blkOpen disk = .ok (st, some p)) : s.Registered disk p := by
  by_cases hreg : ∃ p, s.Registered disk p
  · obtain ⟨q, hreg⟩ := hreg
    obtain ⟨blk, hv, hinv, -⟩ := h.view_of_mem_tree (h.registered_iff.1 hreg)
    rw [h.blkOpen_eq hreg hv hinv] at hopen
    have hq : some q = some p := congrArg Prod.snd (Except.ok.inj hopen)
    exact Option.some.inj hq ▸ hreg
  · rw [h.blkOpen_none (not_exists.1 hreg)] at hopen
    cases congrArg Prod.snd (Except.ok.inj hopen)

/-- In every run, a disk is freed once, when it has been deleted and there is no handle on it any
more; a handle is one on a disk that has not been freed; a name is opened as the disk that is
registered under it; no call reads a disk that has been freed; and the iteration comes to the names
that are registered, in order. -/
theorem disk_lifecycle (ops : List Op) (s : Sys) (hrun : Run Sys.Counted Sys.init ops s) :
    s.st.freed.Nodup ∧
    (∀ p, p ∈ s.st.freed ↔ p ∈ s.deleted ∧ p ∉ s.held) ∧
    (∀ p ∈ s.held, p ∉ s.st.freed ∧ ∃ blk, s.st.mem p = some blk) ∧
    (∀ disk st p, s.st.blkOpen disk = .ok (st, some p) → s.Registered disk p) ∧
    (∀ op, s.Allowed op → (∃ s', s.step op = .ok s') ∨ s.step op = .error .uninit) ∧
    ((∀ p, ¬ s.Registered 0 p) → ∃ names, names.Pairwise (· < ·) ∧
      (∀ n, n ∈ names ↔ ∃ p, s.Registered n p) ∧
      ∀ fuel, names.length < fuel → s.st.visit fuel 0 = .ok (some names)) := by
  have h : Inv s := hrun.invariant (fun _ _ _ h hs ↦ h.step hs) Inv.init
  refine ⟨?_, h.mem_freed_iff, fun p hp ↦ ?_, fun disk st p hopen ↦ ?_, fun op ↦ h.returns,
    fun hzero ↦ ?_⟩
  · exact List.nodup_iff_count_le_one.2 fun p ↦ (h.phase p).settled.1
  · exact ⟨fun hfreed ↦ ((h.mem_freed_iff p).1 hfreed).2 hp, h.exists_mem (List.count_pos_iff.2 hp)⟩
  · exact h.registered_of_blkOpen hopen
  · refine ⟨s.st.tree.map (·.1), ?_, fun n ↦ ?_, fun fuel hfuel ↦ ?_⟩
    · exact List.pairwise_map.2 h.sorted
    · rw [List.mem_map]
      constructor
      · rintro ⟨e, he, rfl⟩
        exact ⟨e.2, h.registered_iff.2 he⟩
      · rintro ⟨p, hreg⟩
        exact ⟨(n, p), h.registered_iff.1 hreg, rfl⟩
    · rw [List.length_map] at hfuel
      exact h.visit_eq hzero (List.nil_append _).symm h.blkIter_zero hfuel

/-- A disk that is deleted while it is open, and then closed. -/
theorem disk_lifecycle_closed : ∃ s, Run Sys.Counted .init
    [.add 1 0 ⟨512, 8⟩ (.driver 0), .opn 1, .del 1, .close 0] s ∧ 0 ∈ s.st.freed := by
  have hrun : Run Sys.Counted .init [.add 1 0 ⟨512, 8⟩ (.driver 0), .opn 1, .del 1, .close 0] _ :=
    .cons ⟨trivial, fun _ h ↦ absurd h.1 List.not_mem_nil, rfl⟩ <|
      .cons ⟨fun _ _ ↦ show 0 + 1 < 2 ^ 32 by decide, trivial, rfl⟩ <|
        .cons ⟨trivial, trivial, rfl⟩ <| .cons ⟨trivial, List.mem_cons_self, rfl⟩ (.nil _)
  exact ⟨_, hrun, ((disk_lifecycle _ _ hrun).2.1 0).2 ⟨List.mem_cons_self, List.not_mem_nil⟩⟩

/-! ## What the count and the name 0 do -/

/-- The disk after `k` more calls of `blk_open`. -/
def Sys.opened (s : Sys) (p : Ptr) (blk : Blkdisk) (k : Nat) : Sys :=
  { s with
    st := s.st.write p { blk with ref := blk.ref + BitVec.ofNat 32 k }
    held := List.replicate k p ++ s.held }

/-- Calls of `blk_open` go on with no regard to the count. -/
theorem run_opened (hi : s.st.initialised = true) (hlook : s.st.lookup disk = some p)
    (hinv : blk.invalid = false) (hmem : s.st.mem p = some blk) (k : Nat) :
    Run Sys.Calls s (List.replicate k (.opn disk)) (s.opened p blk k) := by
  induction k with
  | zero =>
      have hupd :
          Function.update s.st.mem p (some { blk with ref := blk.ref + 0#32 }) = s.st.mem := by
        rw [BitVec.add_zero, ← hmem]
        exact Function.update_eq_self p s.st.mem
      have heq : s.opened p blk 0 = s := by
        rw [Sys.opened, State.write, hupd]
        rfl
      rw [heq]
      exact .nil s
  | succ k ih =>
      rw [List.replicate_succ']
      refine ih.snoc ⟨trivial, ?_⟩
      have hopen := State.blkOpen_eq (s := (s.opened p blk k).st) hi hlook
        (Function.update_self p _ s.st.mem) hinv
      have href : blk.ref + BitVec.ofNat 32 k + 1 = blk.ref + BitVec.ofNat 32 (k + 1) := by
        rw [BitVec.ofNat_add, BitVec.add_assoc]
        rfl
      have hupd : ((s.opened p blk k).st.write p
          { blk with ref := blk.ref + BitVec.ofNat 32 k + 1 }) =
            (s.opened p blk (k + 1)).st := by
        rw [href]
        exact congrArg (State.mk _ _ · _ _) (Function.update_idem _ _ _)
      rw [Sys.step, hopen, hupd]
      rfl

/-- The disk 0 of the name `disk`, after it has been added. -/
def added (disk : BitVec 64) : Sys :=
  (Sys.init.step (.add disk 0 ⟨512, 8⟩ (.driver 0))).toOption.getD .init

theorem run_added (disk : BitVec 64) :
    Run Sys.Calls .init [.add disk 0 ⟨512, 8⟩ (.driver 0)] (added disk) :=
  .cons ⟨fun _ h ↦ absurd h.1 List.not_mem_nil, rfl⟩ (.nil _)

/-- A disk of the name 0 is registered, but the iteration ends at once; and the count of `2 ^ 32`
handles is 0, so `blk_del` frees the disk that they are on. -/
theorem lifecycle_exceptions :
    (∃ ops s, Run Sys.Calls .init ops s ∧ s.Registered 0 0 ∧ s.st.visit 1 0 = .ok (some [])) ∧
    ∃ ops s, Run Sys.Calls .init ops s ∧ 0 ∈ s.held ∧ 0 ∈ s.st.freed := by
  constructor
  · exact ⟨_, added 0, run_added 0, ⟨List.mem_cons_self, List.not_mem_nil⟩, rfl⟩
  · let blk : Blkdisk := ⟨false, 0, 1, 0, ⟨512, 8⟩, .driver 0⟩
    have hopened : Run Sys.Calls (added 1) (List.replicate (2 ^ 32) (.opn 1))
        ((added 1).opened 0 blk (2 ^ 32)) := run_opened rfl rfl rfl rfl _
    have hmem : ((added 1).opened 0 blk (2 ^ 32)).st.mem 0 =
        some { blk with ref := blk.ref + BitVec.ofNat 32 (2 ^ 32) } :=
      Function.update_self 0 _ (added 1).st.mem
    have hdel : ((added 1).opened 0 blk (2 ^ 32)).st.blkDel 1 = .ok _ :=
      State.blkDel_eq rfl rfl hmem
    have href : blk.ref + BitVec.ofNat 32 (2 ^ 32) = 0 := by decide
    simp only [if_pos href] at hdel
    have hstep : ∃ s', ((added 1).opened 0 blk (2 ^ 32)).step (.del 1) = .ok s' ∧ 0 ∈ s'.held ∧
        0 ∈ s'.st.freed := by
      rw [Sys.step, hdel]
      refine ⟨_, rfl, ?_, List.mem_cons_self⟩
      exact List.mem_append_left _ (List.mem_replicate.2 ⟨by decide, rfl⟩)
    obtain ⟨s', hs', hheld, hfreed⟩ := hstep
    have hcall : ((added 1).opened 0 blk (2 ^ 32)).Calls (.del 1) s' := ⟨trivial, hs'⟩
    exact ⟨_, s', ((run_added 1).append hopened).snoc hcall, hheld, hfreed⟩

end Mh.Blk
