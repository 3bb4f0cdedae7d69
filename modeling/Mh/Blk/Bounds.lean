import Mh.Blk.Model

/-!
# The bounds of a partition

A partition compares the end of a request with its own end by `>=`, so it refuses a request that
reaches its last block, and the sums are those of 64-bit words.  Elsewhere a request is passed on
just where it lies in the partition, and this composes: through any number of partitions it reaches
the driver as the blocks that lie behind all the starts.
-/

namespace Mh.Blk

/-! ## One partition -/

/-- The request lies in the partition. -/
def Part.Contains (p : Part) (r : Request) : Prop := r.blkid.toNat + r.nblks.toNat ≤ p.length.toNat

/-- The request for the blocks behind `start`, with a sum that is not one of words. -/
def Request.Behind (start : Nat) (r r' : Request) : Prop :=
  r'.blkid.toNat = start + r.blkid.toNat ∧ { r' with blkid := r.blkid } = r

/-- `io` passes the request on, for the blocks behind the start of the partition, where it lies in
it, and refuses any other. -/
def Part.Bounded (io : Part → Request → Outcome) (lower : Ptr → Request → Outcome) (p : Part)
    (r : Request) : Prop :=
  (p.Contains r → ∃ r', r.Behind p.start.toNat r' ∧ io p r = lower p.blk r') ∧
    (¬ p.Contains r → io p r = ⟨some Errno.EINVAL.neg, []⟩)

/-- The request does not end where the partition does, its end does not come back into the
partition from beyond the words, and nor does its start. -/
structure Part.Exact (p : Part) (r : Request) : Prop where
  end_ne : r.blkid.toNat + r.nblks.toNat ≠ p.length.toNat
  end_le : r.blkid.toNat < p.length.toNat → 2 ^ 64 ≤ r.blkid.toNat + r.nblks.toNat →
    p.length.toNat ≤ r.blkid.toNat + r.nblks.toNat - 2 ^ 64
  start_lt : p.Contains r → p.start.toNat + r.blkid.toNat < 2 ^ 64

variable {drv : Dir → Nat → Request → Int} {mem : Ptr → Option Blkdisk} {dir : Dir}
  {lower : Ptr → Request → Outcome} {p : Part} {q : Ptr} {r : Request} {fuel : Nat}

/-- A request that reaches a disk leaves a trace. -/
theorem blkIo_calls_ne_nil (dir : Dir) (fuel : Nat) (q : Ptr) (r : Request) :
    (blkIo drv mem dir fuel q r).calls ≠ [] := by
  cases fuel with
  | zero => exact List.cons_ne_nil _ _
  | succ fuel => exact List.cons_ne_nil _ _

/-- The sum with which a partition compares. -/
theorem Request.toNat_end (r : Request) :
    (r.blkid + r.nblks).toNat = (r.blkid.toNat + r.nblks.toNat) % 2 ^ 64 := BitVec.toNat_add _ _

/-- What the test of a partition lets through. -/
theorem partIo_of_lt (h : r.blkid.toNat < p.length.toNat)
    (h' : (r.blkid.toNat + r.nblks.toNat) % 2 ^ 64 < p.length.toNat) :
    partIo lower p r = lower p.blk { r with blkid := p.start + r.blkid } := by
  apply if_neg
  rintro (hle | hle)
  · exact Nat.not_le.2 h hle
  · rw [BitVec.le_def, r.toNat_end] at hle
    exact Nat.not_le.2 h' hle

/-- What it refuses. -/
theorem partIo_of_le (h : p.length.toNat ≤ r.blkid.toNat ∨
    p.length.toNat ≤ (r.blkid.toNat + r.nblks.toNat) % 2 ^ 64) :
    partIo lower p r = ⟨some Errno.EINVAL.neg, []⟩ := by
  apply if_pos
  rw [BitVec.le_def, BitVec.le_def, r.toNat_end]
  exact h

/-- The request as the partition passes it on. -/
def Part.pass (p : Part) (r : Request) : Request := { r with blkid := p.start + r.blkid }

/-- What lies in the partition is passed on, for the blocks behind its start. -/
theorem Part.Exact.pass (lower : Ptr → Request → Outcome) (h : p.Exact r) (hc : p.Contains r) :
    partIo lower p r = lower p.blk (p.pass r) ∧ r.Behind p.start.toNat (p.pass r) := by
  have hlt : r.blkid.toNat + r.nblks.toNat < p.length.toNat := Nat.lt_of_le_of_ne hc h.end_ne
  constructor
  · apply partIo_of_lt
    · exact Nat.lt_of_le_of_lt (Nat.le_add_right _ _) hlt
    · rw [Nat.mod_eq_of_lt (Nat.lt_trans hlt p.length.isLt)]
      exact hlt
  · exact ⟨(BitVec.toNat_add _ _).trans (Nat.mod_eq_of_lt (h.start_lt hc)), rfl⟩

/-- What does not is refused. -/
theorem Part.Exact.refuse (h : p.Exact r) (hc : ¬ p.Contains r) :
    partIo lower p r = ⟨some Errno.EINVAL.neg, []⟩ := by
  have hb := r.blkid.isLt
  have hn := r.nblks.isLt
  have hle := h.end_le
  rw [Part.Contains] at hc
  apply partIo_of_le
  omega

/-- A partition over disks that leave a trace keeps its bounds just for the requests whose sums are
right. -/
theorem Part.bounded_iff (hlower : ∀ q r, (lower q r).calls ≠ []) :
    p.Bounded (partIo lower) lower r ↔ p.Exact r := by
  have hrefused : ∀ {q r'}, partIo lower p r = lower q r' →
      partIo lower p r ≠ ⟨some Errno.EINVAL.neg, []⟩ := by
    intro q r' heq hrefuse
    apply hlower q r'
    rw [← heq, hrefuse]
  constructor
  · rintro ⟨hin, hout⟩
    refine ⟨?_, ?_, ?_⟩
    · intro heq
      obtain ⟨r', -, hpass⟩ := hin heq.le
      apply hrefused hpass
      apply partIo_of_le
      rw [heq, Nat.mod_eq_of_lt p.length.isLt]
      exact Or.inr (Nat.le_refl _)
    · intro hlt hwrap
      by_contra hle
      rw [Nat.not_le] at hle
      have hmod : (r.blkid.toNat + r.nblks.toNat) % 2 ^ 64 < p.length.toNat := by
        have hb := r.blkid.isLt
        have hn := r.nblks.isLt
        omega
      exact hrefused (partIo_of_lt hlt hmod) (hout fun hc ↦ by rw [Part.Contains] at hc; omega)
    · intro hc
      obtain ⟨r', hr', -⟩ := hin hc
      rw [← hr'.1]
      exact r'.blkid.isLt
  · intro h
    refine ⟨fun hc ↦ ?_, h.refuse⟩
    obtain ⟨hpass, hbehind⟩ := h.pass lower hc
    exact ⟨p.pass r, hbehind, hpass⟩

/-! ## Partitions of partitions -/

/-- The disk `q` is the partition `ps.head` of the partition after it, and so on, down to the disk
`id` of a driver; none of the disks has been deleted. -/
def Chain (mem : Ptr → Option Blkdisk) : Ptr → List Part → Nat → Prop
  | q, [], id => ∃ blk, mem q = some blk ∧ blk.invalid = false ∧ blk.ops = .driver id
  | q, p :: ps, id =>
    (∃ blk, mem q = some blk ∧ blk.invalid = false ∧ blk.ops = .part p) ∧ Chain mem p.blk ps id

/-- The request lies in all the partitions that it comes to. -/
def Within : List Part → Request → Prop
  | [], _ => True
  | p :: ps, r => p.Contains r ∧ Within ps (p.pass r)

/-- The sums are right in all the partitions that the request comes to. -/
def Clean : List Part → Request → Prop
  | [], _ => True
  | p :: ps, r => p.Exact r ∧ (p.Contains r → Clean ps (p.pass r))

/-- The first block of a chain of partitions. -/
def offset (ps : List Part) : Nat := (ps.map fun p ↦ p.start.toNat).sum

/-- The requests that have reached a driver. -/
def Outcome.issued (o : Outcome) : List (Nat × Request) :=
  o.calls.filterMap fun
    | .blk _ _ => none
    | .driver id r => some (id, r)

/-- The request reaches the driver, for the blocks behind `start`, and what that returns is
returned. -/
def Reaches (drv : Dir → Nat → Request → Int) (dir : Dir) (id start : Nat) (r : Request)
    (o : Outcome) : Prop :=
  ∃ r', r.Behind start r' ∧ o.ret = some (drv dir id r') ∧ o.issued = [(id, r')]

/-- Nothing has been issued, and the request is invalid. -/
def Refused (o : Outcome) : Prop := o.ret = some Errno.EINVAL.neg ∧ o.issued = []

theorem Request.Behind.trans {r' r'' : Request} {start start' : Nat} (h : r.Behind start r')
    (h' : r'.Behind start' r'') : r.Behind (start + start') r'' := by
  constructor
  · rw [h'.1, h.1, Nat.add_left_comm]
    exact (Nat.add_assoc _ _ _).symm
  · calc { r'' with blkid := r.blkid } = { { r'' with blkid := r'.blkid } with blkid := r.blkid } :=
          rfl
      _ = r := by rw [h'.2, h.2]

/-- A partition that is not deleted. -/
theorem blkIo_part {blk : Blkdisk} (hmem : mem q = some blk) (hinv : blk.invalid = false)
    (hops : blk.ops = .part p) : blkIo drv mem dir (fuel + 1) q r =
      ⟨(partIo (blkIo drv mem dir fuel) p r).ret,
        .blk q r :: (partIo (blkIo drv mem dir fuel) p r).calls⟩ := by
  rw [blkIo, hmem]
  simp only [hinv, hops, Bool.false_eq_true, if_false]

/-- A chain of partitions lets through to the driver just what lies in all of them. -/
theorem blkIo_chain {ps : List Part} {id : Nat} (hchain : Chain mem q ps id) (hclean : Clean ps r)
    (hfuel : ps.length < fuel) :
    (Within ps r → Reaches drv dir id (offset ps) r (blkIo drv mem dir fuel q r)) ∧
      (¬ Within ps r → Refused (blkIo drv mem dir fuel q r)) := by
  induction ps generalizing q r fuel with
  | nil =>
      obtain ⟨fuel, rfl⟩ := Nat.exists_eq_add_of_le' hfuel
      obtain ⟨blk, hmem, hinv, hops⟩ := hchain
      refine ⟨fun _ ↦ ⟨r, ⟨(Nat.zero_add _).symm, rfl⟩, ?_⟩, fun h ↦ absurd trivial h⟩
      have hio : blkIo drv mem dir (fuel + 1) q r =
          ⟨some (drv dir id r), [.blk q r, .driver id r]⟩ := by
        rw [blkIo, hmem]
        simp only [hinv, hops, Bool.false_eq_true, if_false]
      rw [List.length_nil, hio]
      exact ⟨rfl, rfl⟩
  | cons p ps ih =>
      cases fuel with
      | zero => exact absurd hfuel (Nat.not_lt_zero _)
      | succ fuel =>
          obtain ⟨⟨blk, hmem, hinv, hops⟩, hchain⟩ := hchain
          obtain ⟨hexact, hclean⟩ := hclean
          rw [blkIo_part hmem hinv hops]
          by_cases hc : p.Contains r
          · obtain ⟨hpass, hbehind⟩ := hexact.pass (blkIo drv mem dir fuel) hc
            obtain ⟨hin, hout⟩ := ih hchain (hclean hc) (Nat.lt_of_succ_lt_succ hfuel)
            rw [hpass]
            constructor
            · rintro ⟨-, hw⟩
              obtain ⟨r', hr', hret, hissued⟩ := hin hw
              exact ⟨r', hbehind.trans hr', hret, hissued⟩
            · intro hw
              exact hout fun h ↦ hw ⟨hc, h⟩
          · rw [hexact.refuse hc]
            exact ⟨fun hw ↦ absurd hw.1 hc, fun _ ↦ ⟨rfl, rfl⟩⟩

/-- A partition passes a request on for just the blocks that it is for, and where it lies in the
partition, just where the sums are right.  Through any number of partitions, such a request reaches
the driver where it lies in all of them, for the blocks behind all the starts. -/
theorem part_bounds_iff (drv : Dir → Nat → Request → Int) (mem : Ptr → Option Blkdisk) (fuel : Nat)
    (p : Part) (r : Request) :
    (p.Bounded (partBlkrd drv mem fuel) (blkRead drv mem fuel) r ↔ p.Exact r) ∧
    (p.Bounded (partBlkwr drv mem fuel) (blkWrite drv mem fuel) r ↔ p.Exact r) ∧
    ∀ (dir : Dir) (q : Ptr) (ps : List Part) (id : Nat), Chain mem q ps id → Clean ps r →
      ps.length < fuel →
      (Within ps r → Reaches drv dir id (offset ps) r (blkIo drv mem dir fuel q r)) ∧
        (¬ Within ps r → Refused (blkIo drv mem dir fuel q r)) := by
  refine ⟨Part.bounded_iff fun q r ↦ ?_, Part.bounded_iff fun q r ↦ ?_, ?_⟩
  · exact blkIo_calls_ne_nil .rd fuel q r
  · exact blkIo_calls_ne_nil .wr fuel q r
  · intro dir q ps id hchain hclean hfuel
    exact blkIo_chain hchain hclean hfuel

/-- The second of two disks, a partition of 8 blocks from block 10 on of the first. -/
def diskAndPart : Ptr → Option Blkdisk
  | 0 => some ⟨false, 1, 5, 5, ⟨512, 100⟩, .driver 7⟩
  | 1 => some ⟨false, 1, 6, 5, ⟨512, 8⟩, .part ⟨0, 10, 8⟩⟩
  | _ => none

theorem part_bounds_iff_part : Reaches (fun _ _ _ ↦ 0) .rd 7 10 ⟨0, 1536, 2, 3, 0, 0⟩
    (blkIo (fun _ _ _ ↦ 0) diskAndPart .rd 2 1 ⟨0, 1536, 2, 3, 0, 0⟩) := by
  have hc : Part.Contains ⟨0, 10, 8⟩ ⟨0, 1536, 2, 3, 0, 0⟩ := by unfold Part.Contains; decide
  have hexact : Part.Exact ⟨0, 10, 8⟩ ⟨0, 1536, 2, 3, 0, 0⟩ :=
    ⟨by decide, by decide, fun _ ↦ by decide⟩
  obtain ⟨-, -, h⟩ := part_bounds_iff (fun _ _ _ ↦ 0) diskAndPart 2 ⟨0, 10, 8⟩
    ⟨0, 1536, 2, 3, 0, 0⟩
  exact (h .rd 1 [⟨0, 10, 8⟩] 7 ⟨⟨_, rfl, rfl, rfl⟩, _, rfl, rfl, rfl⟩
    ⟨hexact, fun _ ↦ trivial⟩ (by decide)).1 ⟨hc, trivial⟩

/-- A partition of 8 blocks does not pass a request for its last block on. -/
theorem part_last_block : ¬ Part.Bounded (partBlkrd (fun _ _ _ ↦ 0) diskAndPart 1)
    (blkRead (fun _ _ _ ↦ 0) diskAndPart 1) ⟨0, 10, 8⟩ ⟨0, 512, 7, 1, 0, 0⟩ := by
  intro h
  have hc : Part.Contains ⟨0, 10, 8⟩ ⟨0, 512, 7, 1, 0, 0⟩ := by unfold Part.Contains; decide
  obtain ⟨r', -, hpass⟩ := h.1 hc
  have hrefuse : partBlkrd (fun _ _ _ ↦ 0) diskAndPart 1 ⟨0, 10, 8⟩ ⟨0, 512, 7, 1, 0, 0⟩ =
      ⟨some Errno.EINVAL.neg, []⟩ := by decide
  rw [hrefuse] at hpass
  exact blkIo_calls_ne_nil .rd 1 0 r' (congrArg Outcome.calls hpass).symm

end Mh.Blk
