import Mathlib.Algebra.GroupWithZero.Nat
import Mh.Param

/-!
# The resources of a device

`dgetirq` and `dgetpio` of `libmrg/dio.c` number the interrupts and the ports of a device through
its segments, runs of consecutive numbers that `dopen` has copied from `sys_info`.  Their loop is
meant to stop at the end of the array, but the comma in its condition drops that half of it: an
index that is too large walks on through whatever lies behind.
-/

namespace Mh.Dio

/-- `struct sys_info_seg`. -/
structure Seg where
  base : BitVec 16
  len : BitVec 16
deriving DecidableEq, Repr

/-- The numbers of a segment. -/
def Seg.numbers (s : Seg) : List Nat := List.range' s.base.toNat s.len.toNat

/-- An array of segments: the number of its elements, and the memory from its first one on, which
goes on behind the last. -/
structure Segs where
  num : Nat
  mem : Nat → Seg

namespace Segs

variable (a : Segs)

/-- The numbers of the segments from `i` on, `k` segments long. -/
def numbersFrom (i k : Nat) : List Nat := (List.range' i k).flatMap fun j ↦ (a.mem j).numbers

/-- The numbers of all the segments, in order. -/
def numbers : List Nat := a.numbersFrom 0 a.num

end Segs

/-! ## Opening -/

/-- `struct sys_info_cfg`, the part about segments; those of the ports follow those of the
interrupts. -/
structure InfoCfg where
  nirqsegs : BitVec 8
  npiosegs : BitVec 8
  segs : Nat → Seg

/-- `struct _DEVICE`, the part about segments. -/
structure Device where
  nirqs : Nat
  irqsegs : Segs
  nios : Nat
  iosegs : Segs

/-- The number of segments; the largest value stands for none. -/
def segCount (n : BitVec 8) : Nat := if n = 255 then 0 else n.toNat

/-- The sum of the lengths of the first `n` segments. -/
def segTotal (segs : Nat → Seg) (n : Nat) : Nat :=
  ((List.range n).map fun i ↦ (segs i).len.toNat).sum

/-- The copy of the first `n` segments into a block of the heap. -/
def copySegs (segs heap : Nat → Seg) (n : Nat) : Segs :=
  ⟨n, fun i ↦ if i < n then segs i else heap i⟩

/-- `dopen`, the part about segments, where `malloc` succeeds; the two blocks that it returns are
`heap` and `heap'`. -/
def dopen (cfg : InfoCfg) (heap heap' : Nat → Seg) : Device :=
  let iosegs i := cfg.segs (cfg.nirqsegs.toNat + i)
  { nirqs := segTotal cfg.segs (segCount cfg.nirqsegs)
    irqsegs := copySegs cfg.segs heap (segCount cfg.nirqsegs)
    nios := segTotal iosegs (segCount cfg.npiosegs)
    iosegs := copySegs iosegs heap' (segCount cfg.npiosegs) }

/-! ## Walking -/

/-- The loop of `dgetirq` and `dgetpio` from the segment `i` on: what is returned, and the segments
that are read.  Of the condition `i < d->nirqsegs, rem >= 0` only the second half counts.  There is
no result where the rounds do not suffice. -/
def getsegFrom (mem : Nat → Seg) : Nat → Nat → Int → Option (Int × List Nat)
  | 0, _, _ => none
  | fuel + 1, i, rem =>
    if 0 ≤ rem then
      let s := mem i
      if rem < s.len.toNat then some (s.base.toNat + rem, [i])
      else (getsegFrom mem fuel (i + 1) (rem - s.len.toNat)).map fun r ↦ (r.1, i :: r.2)
    else some (Errno.ENOENT.neg, [])

/-- `dgetirq`. -/
def dgetirq (d : Device) (irqno : Int) (fuel : Nat) : Option (Int × List Nat) :=
  getsegFrom d.irqsegs.mem fuel 0 irqno

/-- `dgetpio`. -/
def dgetpio (d : Device) (piono : Int) (fuel : Nat) : Option (Int × List Nat) :=
  getsegFrom d.iosegs.mem fuel 0 piono

/-- The `n`-th number, or `-ENOENT`. -/
def nth (l : List Nat) (n : Int) : Int :=
  if 0 ≤ n then
    match l[n.toNat]? with
    | some x => x
    | none => Errno.ENOENT.neg
  else Errno.ENOENT.neg

/-- The call returns the `n`-th number of the segments, and reads no other segments. -/
def Enumerates (a : Segs) (n : Int) (call : Nat → Option (Int × List Nat)) : Prop :=
  ∃ fuel reads, call fuel = some (nth a.numbers n, reads) ∧ ∀ i ∈ reads, i < a.num

/-! ## What the walk finds -/

variable {a : Segs} {mem segs heap : Nat → Seg} {fuel i k : Nat} {n rem : Int}

namespace Segs

theorem numbersFrom_succ (a : Segs) (i k : Nat) :
    a.numbersFrom i (k + 1) = (a.mem i).numbers ++ a.numbersFrom (i + 1) k := by
  rw [numbersFrom, List.range'_succ, List.flatMap_cons]
  rfl

theorem length_numbersFrom (a : Segs) (i k : Nat) : (a.numbersFrom i k).length =
    ((List.range' i k).map fun j ↦ (a.mem j).len.toNat).sum := by
  rw [numbersFrom, List.length_flatMap]
  simp only [Seg.numbers, List.length_range']

/-- The number of the numbers. -/
theorem length_numbers (a : Segs) : a.numbers.length = segTotal a.mem a.num := by
  rw [numbers, length_numbersFrom, segTotal, List.range_eq_range']

end Segs

/-- What `dopen` copies has the total that it computes. -/
theorem length_copySegs (segs heap : Nat → Seg) (n : Nat) :
    (copySegs segs heap n).numbers.length = segTotal segs n := by
  rw [Segs.length_numbers, segTotal, segTotal]
  congr 1
  apply List.map_congr_left
  intro i hi
  exact congrArg (fun s : Seg ↦ s.len.toNat) (if_pos (List.mem_range.1 hi))

/-- A number that is not negative. -/
theorem nth_natCast (l : List Nat) (m : Nat) : nth l m = match l[m]? with
    | some x => (x : Int)
    | none => Errno.ENOENT.neg :=
  if_pos (Int.natCast_nonneg m)

/-- An index below the total: the walk ends in the segment that it belongs to. -/
theorem getsegFrom_of_lt (a : Segs) {m : Nat} (h : m < (a.numbersFrom i k).length) :
    ∃ reads, getsegFrom a.mem (k + 1) i m = some (nth (a.numbersFrom i k) m, reads) ∧
      ∀ j ∈ reads, j < i + k := by
  induction k generalizing i m with
  | zero => exact absurd h (Nat.not_lt_zero m)
  | succ k ih =>
      rw [getsegFrom, if_pos (Int.natCast_nonneg m), nth_natCast, Segs.numbersFrom_succ]
      have hlen : (a.mem i).numbers.length = (a.mem i).len.toNat := List.length_range'
      by_cases hm : m < (a.mem i).len.toNat
      · refine ⟨[i], ?_, ?_⟩
        · rw [if_pos (Int.ofNat_lt.2 hm), List.getElem?_append_left (hlen ▸ hm), Seg.numbers,
            List.getElem?_range' hm, Nat.one_mul]
          rfl
        · intro j hj
          rw [List.mem_singleton.1 hj]
          exact Nat.lt_add_of_pos_right (Nat.succ_pos k)
      · have hle : (a.mem i).len.toNat ≤ m := Nat.le_of_not_lt hm
        rw [Segs.numbersFrom_succ, List.length_append, hlen] at h
        obtain ⟨reads, hrun, hreads⟩ := ih (i := i + 1) (m := m - (a.mem i).len.toNat) (by omega)
        refine ⟨i :: reads, ?_, ?_⟩
        · rw [if_neg fun hlt ↦ hm (Int.ofNat_lt.1 hlt), ← Int.ofNat_sub hle, hrun,
            List.getElem?_append_right (hlen ▸ hle), hlen, nth_natCast]
          rfl
        · intro j hj
          rcases List.mem_cons.1 hj with rfl | hj
          · exact Nat.lt_add_of_pos_right (Nat.succ_pos k)
          · exact (hreads j hj).trans_le (by omega)

/-- Any other index that is not negative: a segment behind the array is read. -/
theorem reads_of_le (a : Segs) {m : Nat} {r : Int × List Nat} (h : (a.numbersFrom i k).length ≤ m)
    (hr : getsegFrom a.mem fuel i m = some r) : i + k ∈ r.2 := by
  induction k generalizing fuel i m r with
  | zero =>
      cases fuel with
      | zero => cases hr
      | succ fuel =>
          rw [getsegFrom, if_pos (Int.natCast_nonneg m)] at hr
          by_cases hm : (m : Int) < (a.mem i).len.toNat
          · rw [if_pos hm] at hr
            cases hr
            exact List.mem_singleton.2 (Nat.add_zero i)
          · rw [if_neg hm] at hr
            obtain ⟨r', -, rfl⟩ := Option.map_eq_some_iff.1 hr
            exact List.mem_cons_self
  | succ k ih =>
      cases fuel with
      | zero => cases hr
      | succ fuel =>
          have hlen : (a.mem i).numbers.length = (a.mem i).len.toNat := List.length_range'
          rw [Segs.numbersFrom_succ, List.length_append, hlen] at h
          have hle : (a.mem i).len.toNat ≤ m := Nat.le_trans (Nat.le_add_right _ _) h
          rw [getsegFrom, if_pos (Int.natCast_nonneg m),
            if_neg fun hlt ↦ Nat.not_lt.2 hle (Int.ofNat_lt.1 hlt), ← Int.ofNat_sub hle] at hr
          obtain ⟨r', hr', rfl⟩ := Option.map_eq_some_iff.1 hr
          have hmem := ih (i := i + 1) (m := m - (a.mem i).len.toNat) (by omega) hr'
          rw [Nat.succ_add] at hmem
          exact List.mem_cons_of_mem _ hmem

/-- The walk of an array does what is asked of it just for the indices below the total. -/
theorem enumerates_iff (a : Segs) (n : Int) :
    Enumerates a n (fun fuel ↦ getsegFrom a.mem fuel 0 n) ↔ n < segTotal a.mem a.num := by
  rw [← a.length_numbers]
  constructor
  · rintro ⟨fuel, reads, hrun, hreads⟩
    by_contra hn
    rw [Int.not_lt] at hn
    obtain ⟨m, rfl⟩ := Int.eq_ofNat_of_zero_le (Int.le_trans (Int.natCast_nonneg _) hn)
    have hmem := reads_of_le a (Int.ofNat_le.1 hn) hrun
    rw [Nat.zero_add] at hmem
    exact Nat.lt_irrefl _ (hreads _ hmem)
  · intro hn
    by_cases hneg : 0 ≤ n
    · obtain ⟨m, rfl⟩ := Int.eq_ofNat_of_zero_le hneg
      obtain ⟨reads, hrun, hreads⟩ := getsegFrom_of_lt a (Int.ofNat_lt.1 hn)
      rw [Nat.zero_add] at hreads
      exact ⟨_, reads, hrun, hreads⟩
    · refine ⟨1, [], ?_, fun i hi ↦ absurd hi List.not_mem_nil⟩
      show getsegFrom a.mem 1 0 n = some (nth a.numbers n, [])
      rw [getsegFrom, if_neg hneg, nth, if_neg hneg]

/-- An interrupt, and a port, is found by its number, without a look behind the segments, just where
the number is below the total that `dopen` has computed. -/
theorem dget_enumerates_iff (cfg : InfoCfg) (heap heap' : Nat → Seg) (n : Int) :
    let d := dopen cfg heap heap'
    (Enumerates d.irqsegs n (dgetirq d n) ↔ n < d.nirqs) ∧
      (Enumerates d.iosegs n (dgetpio d n) ↔ n < d.nios) := by
  have hcopy : ∀ (segs heap : Nat → Seg) (k : Nat),
      segTotal (copySegs segs heap k).mem (copySegs segs heap k).num = segTotal segs k := by
    intro segs heap k
    rw [← Segs.length_numbers, length_copySegs]
  constructor
  · refine (enumerates_iff _ n).trans ?_
    rw [dopen, hcopy]
  · refine (enumerates_iff _ n).trans ?_
    rw [dopen, hcopy]

/-- A device with the interrupt 5: the number 1 is looked for in a second segment, of which there is
none. -/
theorem dgetirq_past_end :
    ¬ Enumerates (dopen ⟨1, 0, fun _ ↦ ⟨5, 1⟩⟩ (fun _ ↦ ⟨9, 1⟩) fun _ ↦ ⟨9, 1⟩).irqsegs 1
      (dgetirq (dopen ⟨1, 0, fun _ ↦ ⟨5, 1⟩⟩ (fun _ ↦ ⟨9, 1⟩) fun _ ↦ ⟨9, 1⟩) 1) := by
  rintro ⟨fuel, reads, hrun, hreads⟩
  have hmem : 0 + 1 ∈ reads := reads_of_le (k := 1) (m := 1) _ (by decide) hrun
  exact absurd (hreads 1 hmem) (by decide)

end Mh.Dio
