import Mh.Lib.SearchTree
import Mh.Mrg.Model
import Mh.Vmap.Model

/-!
# What the trees catch

`vmap_insert` in `vmap.c`, of the kernel and of `libmrg`: the assertions of `vmap_compare_nodes`,
which `rb_tree_insert_node` makes of the new node and each node on its way down, are meant to fail
if and only if the new range overlaps one of the tree.

They compare an address with the size of the other node, where its end was meant.  So they fail
when the range that begins last does not begin above the *size* of the other, wherever that begins.
The exact condition is `Detectable`; at the addresses the maps are used at it fails for nearly
every overlap.

The two files have the same functions, so what follows is first shown for any entries with an
address and a size.
-/

universe u

namespace Mh.Vmap

open Mh.Lib.SearchTree Mh.Zone

/-! ## Ranges on the way down -/

section Entries

variable {α : Type u} (addr size : α → Nat)

/-- Two ranges have an address in common. -/
def Overlaps (v w : α) : Prop := ∃ x, (addr v ≤ x ∧ x < addr v + size v) ∧
  addr w ≤ x ∧ x < addr w + size w

/-- One of the assertions of `vmap_compare_nodes` fails. -/
def Trips (v w : α) : Prop :=
  ¬ ((addr v < addr w ∨ size w < addr v) ∧ (addr w < addr v ∨ size v < addr w))

/-- The ranges of the tree are not empty and do not overlap. -/
structure Apart (t : BinaryTree α) : Prop where
  ordered : Ordered addr t
  pos : ∀ e ∈ values t, 0 < size e
  apart : ∀ e ∈ values t, ∀ e' ∈ values t, e ≠ e' → ¬ Overlaps addr size e e'

/-- One range is `[0, n)`, and the other begins at `n`. -/
def TouchAtZero (v w : α) : Prop :=
  (addr v = 0 ∧ size v = addr w) ∨ (addr w = 0 ∧ size w = addr v)

/-- When the assertions do what they are meant to.  A range that overlaps is caught by an entry
that it overlaps, if the one that begins last does so at an address which is at most the size of
the other; or else by an entry `[0, start)` on the way.  A range that does not overlap passes,
unless it and an entry are `[0, n)` and a range that begins at `n`. -/
def Detectable (t : BinaryTree α) (new : α) : Prop :=
  ((∃ e ∈ values t, Overlaps addr size new e) →
    (∃ e ∈ values t, Overlaps addr size new e ∧ Trips addr size new e) ∨
      ∃ e ∈ descent addr (addr new) t, addr e = 0 ∧ size e = addr new) ∧
  ((∀ e ∈ values t, ¬ Overlaps addr size new e) →
    ∀ e ∈ values t, ¬ TouchAtZero addr size new e)

variable {addr size} {t : BinaryTree α} {v w e e' new : α}

theorem overlaps_iff (hv : 0 < size v) (hw : 0 < size w) :
    Overlaps addr size v w ↔ addr v < addr w + size w ∧ addr w < addr v + size v := by
  constructor
  · rintro ⟨x, hxv, hxw⟩
    omega
  · rintro ⟨h₁, h₂⟩
    rcases le_total (addr v) (addr w) with h | h
    · exact ⟨addr w, ⟨h, h₂⟩, le_refl _, by omega⟩
    · exact ⟨addr v, ⟨le_refl _, by omega⟩, h, h₁⟩

theorem trips_iff : Trips addr size v w ↔ (addr v < addr w ∧ addr w ≤ size v) ∨
    (addr w < addr v ∧ addr v ≤ size w) ∨
      (addr v = addr w ∧ (addr v ≤ size v ∨ addr v ≤ size w)) := by
  rw [Trips]
  omega

/-- An entry `[0, n)`, and what begins at `n`, trip the assertions. -/
theorem TouchAtZero.trips (hv : 0 < size v) (hw : 0 < size w) (h : TouchAtZero addr size v w) :
    Trips addr size v w := by
  rw [trips_iff]
  rcases h with ⟨h₁, h₂⟩ | ⟨h₁, h₂⟩
  · exact .inl (by omega)
  · exact .inr (.inl (by omega))

/-- A range that trips the assertions but does not overlap touches at zero. -/
theorem touchAtZero_of_trips (hv : 0 < size v) (hw : 0 < size w) (ht : Trips addr size v w)
    (ho : ¬ Overlaps addr size v w) : TouchAtZero addr size v w := by
  rw [overlaps_iff hv hw] at ho
  rw [trips_iff] at ht
  rw [TouchAtZero]
  omega

namespace Apart

variable (ha : Apart addr size t) (hnew : 0 < size new)
include ha

/-- Entries are in order. -/
theorem end_le (he : e ∈ values t) (he' : e' ∈ values t) (h : addr e < addr e') :
    addr e + size e ≤ addr e' := by
  have hne : e ≠ e' := fun heq ↦ h.ne (congrArg addr heq)
  have hno := ha.apart e he e' he' hne
  have hp := ha.pos e he
  have hp' := ha.pos e' he'
  rw [overlaps_iff hp hp'] at hno
  omega

include hnew

/-- Of the entries that overlap the new range, one on the way trips the assertions if any does. -/
theorem trips_of_overlaps (he : e ∈ values t) (ho : Overlaps addr size new e)
    (ht : Trips addr size new e) : ∃ d ∈ descent addr (addr new) t, Trips addr size new d := by
  rw [overlaps_iff hnew (ha.pos e he)] at ho
  rw [trips_iff] at ht
  rcases le_total (addr new) (addr e) with hle | hle
  · -- the first entry on the way that begins in the new range
    obtain ⟨d, hd, hd₁, hd₂⟩ := ha.ordered.exists_above he hle
    refine ⟨d, hd, trips_iff.2 ?_⟩
    rcases Nat.eq_or_lt_of_le hd₁ with heq | hlt
    · have hkey : addr new = addr e → d = e := fun h ↦
        ha.ordered.key_inj (mem_values_of_mem_descent hd) he (by omega)
      rcases Nat.eq_or_lt_of_le hle with hn | hn
      · rw [hkey hn]
        omega
      · omega
    · omega
  · -- the entry that the new range begins in
    obtain ⟨d, hd, hd₁, hd₂⟩ := ha.ordered.exists_below he hle
    have hdt := mem_values_of_mem_descent hd
    have hde : d = e := by
      refine ha.ordered.key_inj hdt he (Nat.le_antisymm ?_ hd₁)
      by_contra hlt
      have hend := ha.end_le he hdt (by omega)
      omega
    rw [hde] at hd
    exact ⟨e, hd, trips_iff.2 ht⟩

/-- And if none on the way that trips them overlaps, there is an entry `[0, start)` on the way or
one that overlaps trips them all the same. -/
theorem caught (hd : e ∈ descent addr (addr new) t) (ht : Trips addr size new e)
    (ho : ∃ d ∈ values t, Overlaps addr size new d) :
    (∃ d ∈ values t, Overlaps addr size new d ∧ Trips addr size new d) ∨
      ∃ d ∈ descent addr (addr new) t, addr d = 0 ∧ size d = addr new := by
  have he := mem_values_of_mem_descent hd
  by_cases hoe : Overlaps addr size new e
  · exact .inl ⟨e, he, hoe, ht⟩
  · rcases touchAtZero_of_trips hnew (ha.pos e he) ht hoe with ⟨hz, hs⟩ | hz
    · -- the new range begins at zero, so whatever it overlaps trips them
      obtain ⟨d, hdt, hod⟩ := ho
      refine .inl ⟨d, hdt, hod, trips_iff.2 ?_⟩
      rw [overlaps_iff hnew (ha.pos d hdt)] at hod
      omega
    · exact .inr ⟨e, hd, hz⟩

/-- An entry that touches the new range at zero is on the way, if nothing overlaps. -/
theorem mem_descent_of_touchAtZero (he : e ∈ values t) (hz : TouchAtZero addr size new e)
    (ho : ∀ d ∈ values t, ¬ Overlaps addr size new d) : e ∈ descent addr (addr new) t := by
  have hpe := ha.pos e he
  have hno (d : α) (hd : d ∈ values t) : ¬ (addr new < addr d + size d ∧
      addr d < addr new + size new) := by
    rw [← overlaps_iff hnew (ha.pos d hd)]
    exact ho d hd
  rcases hz with hz | hz
  · have hle : addr new ≤ addr e := by omega
    obtain ⟨d, hd, hd₁, hd₂⟩ := ha.ordered.exists_above he hle
    have hdt := mem_values_of_mem_descent hd
    have hn := hno d hdt
    have hp := ha.pos d hdt
    have hde : d = e := ha.ordered.key_inj hdt he (by omega)
    rwa [← hde]
  · have hle : addr e ≤ addr new := by omega
    obtain ⟨d, hd, hd₁, hd₂⟩ := ha.ordered.exists_below he hle
    have hdt := mem_values_of_mem_descent hd
    have hn := hno d hdt
    have hp := ha.pos d hdt
    have hde : d = e := by
      refine ha.ordered.key_inj hdt he (Nat.le_antisymm ?_ hd₁)
      by_contra hlt
      have hend := ha.end_le he hdt (by omega)
      omega
    rwa [← hde]

/-- The assertions are right about the new range if and only if it is `Detectable`. -/
theorem detects_iff :
    ((∃ e ∈ descent addr (addr new) t, Trips addr size new e) ↔
        ∃ e ∈ values t, Overlaps addr size new e) ↔ Detectable addr size t new := by
  constructor
  · intro h
    constructor
    · intro ho
      obtain ⟨e, he, ht⟩ := h.2 ho
      exact ha.caught hnew he ht ho
    · intro ho e he hz
      have hd := ha.mem_descent_of_touchAtZero hnew he hz ho
      obtain ⟨d, hd, hod⟩ := h.1 ⟨e, hd, hz.trips hnew (ha.pos e he)⟩
      exact ho d hd hod
  · rintro ⟨hover, hdisj⟩
    constructor
    · rintro ⟨e, hd, ht⟩
      by_contra hno
      have ho : ∀ d ∈ values t, ¬ Overlaps addr size new d := fun d hd h ↦ hno ⟨d, hd, h⟩
      have he := mem_values_of_mem_descent hd
      exact hdisj ho e he (touchAtZero_of_trips hnew (ha.pos e he) ht (ho e he))
    · intro ho
      rcases hover ho with ⟨e, he, hoe, ht⟩ | ⟨e, hd, hz⟩
      · exact ha.trips_of_overlaps hnew he hoe ht
      · have he := mem_values_of_mem_descent hd
        exact ⟨e, hd, TouchAtZero.trips hnew (ha.pos e he) (.inr hz)⟩

end Apart

/-- Entries that end before the next one begins. -/
theorem apart_of_pairwise (ho : Ordered addr t) (hp : ∀ e ∈ values t, 0 < size e)
    (h : (values t).Pairwise fun e e' ↦ addr e + size e ≤ addr e') : Apart addr size t where
  ordered := ho
  pos := hp
  apart := by
    have hsymm : Std.Symm fun e e' ↦ ¬ Overlaps addr size e e' := by
      refine ⟨fun e e' hno ho ↦ hno ?_⟩
      obtain ⟨x, h₁, h₂⟩ := ho
      exact ⟨x, h₂, h₁⟩
    refine List.Pairwise.forall (h.imp ?_)
    rintro e e' hle ⟨x, h₁, h₂⟩
    omega

end Entries

/-! ## The trees of the maps -/

section Maps

variable {α : Type u} (addr size : α → Nat)

/-- A map holds the entries of a search tree, and inserts a node by way of it. -/
structure Shaped (path : List α → α → List α) (tree : List α) (t : BinaryTree α) : Prop where
  mem : ∀ e, e ∈ tree ↔ e ∈ values t
  path : ∀ e, path tree e = descent addr (addr e) t

/-- The way of a new node into a search tree, as far as it is in the map. -/
def pathOf [DecidableEq α] (t : BinaryTree α) (tree : List α) (e : α) : List α :=
  (descent addr (addr e) t).filter (· ∈ tree)

theorem shaped_pathOf [DecidableEq α] (t : BinaryTree α) :
    Shaped addr (pathOf addr t) (values t) t where
  mem _ := Iff.rfl
  path e := by
    refine List.filter_eq_self.2 fun d hd ↦ ?_
    exact decide_eq_true (mem_values_of_mem_descent hd)

/-- An insertion panics on the ranges that overlap an entry, and only on those. -/
def Detects {γ : Type} (t : BinaryTree α) (new : α) (r : Except Panic γ) : Prop :=
  r = .error .overlap ↔ ∃ e ∈ values t, Overlaps addr size new e

variable {addr size} {new : α}

/-- A test of the nodes on the way fails if and only if one of them trips the assertions. -/
theorem error_iff_trips {γ : Type} {ok : α → Bool} {l : List α} {r : γ}
    (hok : ∀ e, ok e = true ↔ ¬ Trips addr size new e) :
    (if l.all ok then .ok r else .error .overlap : Except Panic γ) = .error .overlap ↔
      ∃ e ∈ l, Trips addr size new e := by
  split
  · next hall =>
    refine iff_of_false (fun he ↦ by cases he) ?_
    rintro ⟨e, he, ht⟩
    exact (hok e).1 (List.all_eq_true.1 hall e he) ht
  · next hall =>
    refine iff_of_true rfl ?_
    simp only [List.all_eq_true, not_forall] at hall
    obtain ⟨e, he, hne⟩ := hall
    exact ⟨e, he, not_not.1 fun h ↦ hne ((hok e).2 h)⟩

end Maps

/-! ## The two files -/

/-- The kernel's map, with the shape of a tree. -/
def treeRb (t : BinaryTree Vme) : Rb where
  path := pathOf Vme.addr t
  path_sub _ _ _ h := of_decide_eq_true (List.mem_filter.1 h).2

/-- The map of `libmrg`, with the shape of a tree. -/
def mrgTreeRb (t : BinaryTree Mrg.Vme) : Mrg.Rb where
  path := pathOf Mrg.Vme.addr t
  path_sub _ _ _ h := of_decide_eq_true (List.mem_filter.1 h).2

/-- `vmap_insert` of the kernel panics if and only if an assertion fails on the way. -/
theorem vmapInsert_error {rb : Rb} {db : Db} {t : BinaryTree Vme}
    (h : Shaped Vme.addr rb.path db.tree t) (start len : Nat) (type : VfnType) :
    vmapInsert rb db start len type = .error .overlap ↔
      ∃ e ∈ descent Vme.addr start t, Trips Vme.addr Vme.size ⟨start, len, type⟩ e := by
  rw [vmapInsert, h.path]
  refine error_iff_trips fun e ↦ ?_
  simp only [vmapCompareOk, Bool.and_eq_true, Bool.or_eq_true, decide_eq_true_eq]
  exact not_not.symm

/-- And so does that of `libmrg`. -/
theorem mrg_vmapInsert_error {rb : Mrg.Rb} {db : Mrg.Db} {t : BinaryTree Mrg.Vme}
    (h : Shaped Mrg.Vme.addr rb.path db.tree t) (start len : Nat) (type : UInt8) :
    Mrg.vmapInsert rb db start len type = .error .overlap ↔
      ∃ e ∈ descent Mrg.Vme.addr start t,
        Trips Mrg.Vme.addr Mrg.Vme.size ⟨type, start, len⟩ e := by
  rw [Mrg.vmapInsert, h.path]
  refine error_iff_trips fun e ↦ ?_
  simp only [Mrg.vmapCompareOk, Bool.and_eq_true, Bool.or_eq_true, decide_eq_true_eq]
  exact not_not.symm

/-- In both maps the assertions fail for a new range exactly if it overlaps an entry, if and only
if the range is `Detectable`. -/
theorem overlap_detected_iff {rb : Rb} {db : Db} {t : BinaryTree Vme}
    (h : Shaped Vme.addr rb.path db.tree t) (ha : Apart Vme.addr Vme.size t)
    {mrb : Mrg.Rb} {mdb : Mrg.Db} {u : BinaryTree Mrg.Vme}
    (hm : Shaped Mrg.Vme.addr mrb.path mdb.tree u) (hma : Apart Mrg.Vme.addr Mrg.Vme.size u)
    {start len : Nat} (hlen : 0 < len) (type : VfnType) (mtype : UInt8) :
    (Detects Vme.addr Vme.size t ⟨start, len, type⟩ (vmapInsert rb db start len type) ↔
      Detectable Vme.addr Vme.size t ⟨start, len, type⟩) ∧
    (Detects Mrg.Vme.addr Mrg.Vme.size u ⟨mtype, start, len⟩
        (Mrg.vmapInsert mrb mdb start len mtype) ↔
      Detectable Mrg.Vme.addr Mrg.Vme.size u ⟨mtype, start, len⟩) := by
  constructor
  · rw [Detects, vmapInsert_error h]
    have hnew : 0 < Vme.size ⟨start, len, type⟩ := hlen
    exact ha.detects_iff hnew
  · rw [Detects, mrg_vmapInsert_error hm]
    have hnew : 0 < Mrg.Vme.size ⟨mtype, start, len⟩ := hlen
    exact hma.detects_iff hnew

/-- Three ranges of the kernel's map. -/
def threeRanges : BinaryTree Vme :=
  .node ⟨0xc0800000, 0x400000, .free⟩ (.node ⟨0xc0000000, 0x400000, .free⟩ .nil .nil)
    (.node ⟨0xc1000000, 0x200000, .free⟩ .nil .nil)

/-- And three of a map of `libmrg`, at lower addresses. -/
def mrgThreeRanges : BinaryTree Mrg.Vme :=
  .node ⟨1, 0x200000, 0x200000⟩ (.node ⟨1, 0, 0x100000⟩ .nil .nil)
    (.node ⟨1, 0x600000, 0x800000⟩ .nil .nil)

/-- Trees of three entries: the kernel's does not catch a range that overlaps two of them, and that
of `libmrg` does. -/
theorem overlap_detected_iff_three :
    (Detects Vme.addr Vme.size threeRanges ⟨0xc0200000, 0x800000, .free⟩
        (vmapInsert (treeRb threeRanges) ⟨values threeRanges, 0xa00000⟩ 0xc0200000 0x800000 .free) ↔
      Detectable Vme.addr Vme.size threeRanges ⟨0xc0200000, 0x800000, .free⟩) ∧
    (Detects Mrg.Vme.addr Mrg.Vme.size mrgThreeRanges ⟨1, 0x300000, 0x600000⟩
        (Mrg.vmapInsert (mrgTreeRb mrgThreeRanges) ⟨values mrgThreeRanges, 0xb00000⟩ 0x300000
          0x600000 1) ↔
      Detectable Mrg.Vme.addr Mrg.Vme.size mrgThreeRanges ⟨1, 0x300000, 0x600000⟩) ∧
    vmapInsert (treeRb threeRanges) ⟨values threeRanges, 0xa00000⟩ 0xc0200000 0x800000 .free ≠
      .error .overlap ∧
    Mrg.vmapInsert (mrgTreeRb mrgThreeRanges) ⟨values mrgThreeRanges, 0xb00000⟩ 0x300000 0x600000
      1 = .error .overlap := by
  have ha : Apart Vme.addr Vme.size threeRanges := by
    refine apart_of_pairwise ?_ (by decide) (by decide)
    simp [threeRanges, Ordered, values]
  have hma : Apart Mrg.Vme.addr Mrg.Vme.size mrgThreeRanges := by
    refine apart_of_pairwise ?_ (by decide) (by decide)
    simp [mrgThreeRanges, Ordered, values]
  have hs : Shaped Vme.addr (treeRb threeRanges).path
      (Db.mk (values threeRanges) 0xa00000).tree threeRanges := shaped_pathOf ..
  have hms : Shaped Mrg.Vme.addr (mrgTreeRb mrgThreeRanges).path
      (Mrg.Db.mk (values mrgThreeRanges) 0xb00000).tree mrgThreeRanges := shaped_pathOf ..
  refine ⟨(overlap_detected_iff hs ha hms hma (by decide) _ 0).1,
    (overlap_detected_iff hs ha hms hma (by decide) .free _).2, fun h ↦ ?_, rfl⟩
  cases h

/-- The kernel adds a range that overlaps a free one to the map.  If a range is freed twice, so that
the two are the same, it does not even add it, but does not panic either; nor does `libmrg`. -/
theorem overlap_missed :
    Overlaps Vme.addr Vme.size ⟨0xc0200000, 0x400000, .free⟩ ⟨0xc0000000, 0x400000, .free⟩ ∧
    vmapInsert (treeRb (.node ⟨0xc0000000, 0x400000, .free⟩ .nil .nil))
        ⟨[⟨0xc0000000, 0x400000, .free⟩], 0x400000⟩ 0xc0200000 0x400000 .free =
      .ok (⟨0xc0200000, 0x400000, .free⟩,
        ⟨[⟨0xc0200000, 0x400000, .free⟩, ⟨0xc0000000, 0x400000, .free⟩], 0x800000⟩) ∧
    Overlaps Mrg.Vme.addr Mrg.Vme.size ⟨1, 0x60000000, 0x400000⟩ ⟨1, 0x60000000, 0x400000⟩ ∧
    Mrg.vmapInsert (mrgTreeRb (.node ⟨1, 0x60000000, 0x400000⟩ .nil .nil))
        ⟨[⟨1, 0x60000000, 0x400000⟩], 0x400000⟩ 0x60000000 0x400000 1 =
      .ok (⟨1, 0x60000000, 0x400000⟩, ⟨[⟨1, 0x60000000, 0x400000⟩], 0x800000⟩) :=
  ⟨⟨0xc0200000, by decide⟩, rfl, ⟨0x60000000, by decide⟩, rfl⟩

end Mh.Vmap
