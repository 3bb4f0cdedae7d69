import Mh.Squoze.RoundTrip

/-!
# The room for an unpacked name

`unsquozelen` of the kernel and of `libsquoze`, which are the same function, with `len` as the word
that it is.  The test of the loop lowers `len` also when it is zero, so where the room ends before
the digits do, what is left of `len` for the zeros behind the name is a whole address space.

Everywhere else exactly `len` characters are written.
-/

namespace Mh.Squoze

/-! ## The loop as it runs -/

/-- `while (enc && len-- > 0)`: what is written, and `len` after the loop.  There is no result where
the rounds do not suffice. -/
def unsquozeLoop : Nat → Nat → BitVec 32 → Option (List Char × BitVec 32)
  | 0, _, _ => none
  | fuel + 1, enc, len =>
    if enc = 0 then some ([], len)
    else if len = 0 then some ([], len - 1)
    else (unsquozeLoop fuel (wrap.mul (enc % cut) 40) (len - 1)).map fun r ↦
      (chdec (enc / cut % 40) :: r.1, r.2)

/-- `unsquozelen`: what is written from `string` on, and what is returned. -/
def unsquozelenRun (fuel enc : Nat) (len : BitVec 32) : Option (List Char × Nat) :=
  (unsquozeLoop fuel enc len).map fun r ↦
    (r.1 ++ List.replicate r.2.toNat '\x00', r.1.length)

variable {fuel enc len : Nat}

/-- What is left of `len` is a word. -/
theorem snd_unsquozeChars_lt (hlen : len < 2 ^ 32) (enc : Nat) :
    (unsquozeChars wrap len enc).2 < 2 ^ 32 := by
  induction len generalizing enc with
  | zero =>
      show (if enc = 0 then 0 else 2 ^ 32 - 1) < 2 ^ 32
      split
      · exact Nat.two_pow_pos 32
      · exact Nat.sub_lt (Nat.two_pow_pos 32) Nat.one_pos
  | succ len ih =>
      by_cases h : enc = 0
      · subst h
        exact hlen
      · rw [unsquozeChars_wrap_succ len h]
        exact ih (Nat.lt_of_succ_lt hlen) _

/-- The loop ends after `len` rounds at most, as `unsquozeChars` has it. -/
theorem unsquozeLoop_eq (hfuel : len < fuel) (hlen : len < 2 ^ 32) (enc : Nat) :
    unsquozeLoop fuel enc (BitVec.ofNat 32 len) =
      some ((unsquozeChars wrap len enc).1, BitVec.ofNat 32 (unsquozeChars wrap len enc).2) := by
  induction len generalizing fuel enc with
  | zero =>
      obtain ⟨fuel, rfl⟩ := Nat.exists_eq_add_of_le' hfuel
      rw [unsquozeLoop]
      by_cases h : enc = 0
      · subst h
        rfl
      · rw [if_neg h]
        show some ([], BitVec.ofNat 32 0 - 1) =
          some ([], BitVec.ofNat 32 (if enc = 0 then 0 else 2 ^ 32 - 1))
        rw [if_neg h]
        rfl
  | succ len ih =>
      obtain ⟨fuel, rfl⟩ := Nat.exists_eq_add_of_le' (Nat.succ_le_of_lt (Nat.zero_lt_of_lt hfuel))
      rw [unsquozeLoop]
      by_cases h : enc = 0
      · subst h
        rfl
      · have hne : BitVec.ofNat 32 (len + 1) ≠ 0 := by
          intro h₀
          have := congrArg BitVec.toNat h₀
          rw [BitVec.toNat_ofNat, Nat.mod_eq_of_lt hlen] at this
          exact Nat.succ_ne_zero len this
        have hpred : BitVec.ofNat 32 (len + 1) - 1 = BitVec.ofNat 32 len := by
          rw [BitVec.ofNat_add]
          exact BitVec.add_sub_cancel _ _
        rw [if_neg h, if_neg hne, hpred,
          ih (Nat.lt_of_succ_lt_succ hfuel) (Nat.lt_of_succ_lt hlen), unsquozeChars,
          if_neg h]
        rfl

/-! ## The end of the room -/

/-- One place less to go is one digit less to come. -/
theorem pow_dvd_rest (len enc : Nat) :
    40 ^ (12 - len) ∣ enc % cut * 40 ↔ 40 ^ (12 - (len + 1)) ∣ enc := by
  rcases Nat.lt_or_ge 11 len with hlen | hlen
  · have h₁ : 12 - len = 0 := by omega
    have h₂ : 12 - (len + 1) = 0 := by omega
    rw [h₁, h₂, Nat.pow_zero]
    exact iff_of_true (one_dvd _) (one_dvd _)
  · have h₁ : 12 - len = 12 - (len + 1) + 1 := by omega
    have hcut : 40 ^ (12 - (len + 1)) ∣ cut := Nat.pow_dvd_pow 40 (by omega)
    rw [h₁, Nat.pow_succ, Nat.mul_dvd_mul_iff_right (by decide), Nat.dvd_mod_iff hcut]

/-- The digits of the word end before the room does: the last of its 12 places, those for which
there is no room, are zero.  With no room at all the word is not looked into. -/
def RoomFor (enc len : Nat) : Prop := (len = 0 → enc = 0) ∧ 40 ^ (12 - len) ∣ enc

/-- All the room is written, or 2 ^ 32 - 1 bytes after it are. -/
theorem length_unsquozeChars (enc len : Nat) :
    (RoomFor enc len →
      (unsquozeChars wrap len enc).1.length + (unsquozeChars wrap len enc).2 = len) ∧
    (¬RoomFor enc len →
      (unsquozeChars wrap len enc).1.length + (unsquozeChars wrap len enc).2 =
        len + (2 ^ 32 - 1)) := by
  induction len generalizing enc with
  | zero =>
      show (RoomFor enc 0 → 0 + (if enc = 0 then 0 else 2 ^ 32 - 1) = 0) ∧
        (¬RoomFor enc 0 → 0 + (if enc = 0 then 0 else 2 ^ 32 - 1) = 0 + (2 ^ 32 - 1))
      constructor
      · intro h
        rw [if_pos (h.1 rfl)]
      · intro h
        rw [if_neg]
        rintro rfl
        exact h ⟨fun _ ↦ rfl, Nat.dvd_zero _⟩
  | succ len ih =>
      by_cases h : enc = 0
      · subst h
        exact ⟨fun _ ↦ Nat.zero_add _, fun hn ↦ absurd ⟨fun _ ↦ rfl, Nat.dvd_zero _⟩ hn⟩
      · -- the word that is left has room in the rest
        have hrest : RoomFor (enc % cut * 40) len ↔ RoomFor enc (len + 1) := by
          rw [RoomFor, RoomFor, pow_dvd_rest]
          constructor
          · exact fun hr ↦ ⟨fun h₀ ↦ absurd h₀ (Nat.succ_ne_zero len), hr.2⟩
          · refine fun hr ↦ ⟨?_, hr.2⟩
            rintro rfl
            exact Nat.eq_zero_of_dvd_of_lt ((pow_dvd_rest 0 enc).2 hr.2) (rest_lt enc)
        obtain ⟨hyes, hno⟩ := ih (enc % cut * 40)
        rw [hrest] at hyes hno
        rw [unsquozeChars_wrap_succ len h]
        constructor
        · intro hr
          have := hyes hr
          rw [List.length_cons]
          omega
        · intro hr
          have := hno hr
          rw [List.length_cons]
          omega

/-- The loop writes one character for each place at most. -/
theorem length_fst_unsquozeChars_le (enc len : Nat) :
    (unsquozeChars wrap len enc).1.length ≤ len := by
  induction len generalizing enc with
  | zero => exact Nat.le_refl 0
  | succ len ih =>
      by_cases h : enc = 0
      · subst h
        exact Nat.zero_le _
      · rw [unsquozeChars_wrap_succ len h]
        exact Nat.succ_le_succ (ih _)

/-! ## What is written -/

/-- Decoding returns, writes nothing outside of `string[0..len)`, and what it returns is not larger
than `len`. -/
def DecodesWithin (enc : BitVec 64) (len : BitVec 32) : Prop :=
  ∃ fuel out count, unsquozelenRun fuel enc.toNat len = some (out, count) ∧
    out.length ≤ len.toNat ∧ count ≤ len.toNat

/-- A run with enough rounds. -/
theorem unsquozelenRun_eq (enc : Nat) (len : BitVec 32) (hfuel : len.toNat < fuel) :
    unsquozelenRun fuel enc len = some (unsquozelen wrap enc len.toNat) := by
  have hloop := unsquozeLoop_eq hfuel len.isLt enc
  rw [BitVec.ofNat_toNat, BitVec.setWidth_eq] at hloop
  rw [unsquozelenRun, hloop, unsquozelen_wrap]
  simp only [Option.map_some, BitVec.toNat_ofNat,
    Nat.mod_eq_of_lt (snd_unsquozeChars_lt len.isLt enc)]

/-- More rounds do not change a result. -/
theorem unsquozeLoop_mono {w : BitVec 32} {r : List Char × BitVec 32}
    (h : unsquozeLoop fuel enc w = some r) (n : Nat) : unsquozeLoop (fuel + n) enc w = some r := by
  induction fuel generalizing enc w r with
  | zero => cases h
  | succ fuel ih =>
      rw [Nat.add_right_comm]
      rw [unsquozeLoop] at h ⊢
      split
      · rename_i h₀
        rwa [if_pos h₀] at h
      · rename_i h₀
        rw [if_neg h₀] at h
        split
        · rename_i h₁
          rwa [if_pos h₁] at h
        · rename_i h₁
          rw [if_neg h₁] at h
          obtain ⟨q, hq, hr⟩ := Option.map_eq_some_iff.1 h
          rw [ih hq]
          exact congrArg some hr

/-- Every run that ends ends with the same. -/
theorem unsquozelenRun_some {len : BitVec 32} {r : List Char × Nat}
    (h : unsquozelenRun fuel enc len = some r) : r = unsquozelen wrap enc len.toNat := by
  obtain ⟨q, hq, rfl⟩ := Option.map_eq_some_iff.1 h
  have hfuel : len.toNat < fuel + (len.toNat + 1) := by omega
  have hrun := unsquozelenRun_eq enc len hfuel
  rw [unsquozelenRun, unsquozeLoop_mono hq] at hrun
  exact Option.some.inj hrun

/-- How many characters are written. -/
theorem length_unsquozelen (enc len : Nat) :
    (unsquozelen wrap enc len).1.length ≤ len ↔ RoomFor enc len := by
  have hlen : (unsquozelen wrap enc len).1.length =
      (unsquozeChars wrap len enc).1.length + (unsquozeChars wrap len enc).2 := by
    rw [unsquozelen_wrap, List.length_append, List.length_replicate]
  obtain ⟨hyes, hno⟩ := length_unsquozeChars enc len
  rw [hlen]
  constructor
  · intro hle
    by_contra hr
    have := hno hr
    omega
  · exact fun hr ↦ (hyes hr).le

/-- Decoding always returns, with a count that is not larger than `len`; it stays in
`string[0..len)` exactly where there is room for the digits of the word. -/
theorem unsquozelen_bounded_iff (enc : BitVec 64) (len : BitVec 32) :
    (∃ fuel out count, unsquozelenRun fuel enc.toNat len = some (out, count) ∧
      count ≤ len.toNat) ∧
    (DecodesWithin enc len ↔ RoomFor enc.toNat len.toNat) := by
  have hrun := unsquozelenRun_eq enc.toNat len (Nat.lt_succ_self _)
  have hcount : (unsquozelen wrap enc.toNat len.toNat).2 ≤ len.toNat :=
    length_fst_unsquozeChars_le enc.toNat len.toNat
  refine ⟨⟨_, _, _, hrun, hcount⟩, ?_⟩
  rw [← length_unsquozelen]
  constructor
  · rintro ⟨fuel, out, count, h, hout, -⟩
    rw [← unsquozelenRun_some h]
    exact hout
  · exact fun hout ↦ ⟨_, _, _, hrun, hout, hcount⟩

/-- The word 1 has its only digit that is not zero in the last of 12 places: one place gets its
first digit, and what comes after that place is overwritten with zeros. -/
theorem unsquozelen_overruns : ¬DecodesWithin 1 1 := by
  rintro ⟨fuel, out, count, h, hout, -⟩
  have hout' : (unsquozelen wrap 1 1).1.length ≤ 1 := by
    rw [← show (out, count) = unsquozelen wrap 1 1 from unsquozelenRun_some h]
    exact hout
  have hdvd : 40 ^ 11 ∣ 1 := ((length_unsquozelen 1 1).1 hout').2
  exact absurd hdvd (by decide)

end Mh.Squoze
