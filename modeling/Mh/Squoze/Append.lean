import Mh.Squoze.RoundTrip

/-!
# Names are put together

`squoze_append` goes on with a name where it ends.  To find that place it divides the word by 40 as
long as its last digit is 0, so it takes the spaces at the end of a name for free places.
-/

namespace Mh.Squoze

open Mh.Lib

/-- The loop that unpads `sqz`, to get the last character at the lower places: the places that are
free, and the word without them.  There is no result where the rounds do not suffice. -/
def unpad : Nat → Nat → Option (Nat × Nat)
  | 0, _ => none
  | fuel + 1, sqz =>
    if sqz % 40 = 0 then (unpad fuel (sqz / 40)).map fun r ↦ (r.1 + 1, r.2)
    else some (0, sqz)

/-- `squoze_append`. -/
def squozeAppend {m : Type → Type} [Monad m] (ar : Arith m) (fuel sqz : Nat) (string : List Char) :
    Option (m Nat) :=
  (if sqz = 0 then some (12, sqz) else unpad fuel sqz).map fun (places, sqz) ↦ do
    let (sqz, n) ← squozeChars ar string places sqz
    squozePad ar n sqz

/-! ## The end of a name -/

variable {fuel sqz k n : Nat} {a : List Char}

/-- A digit that is not 0 ends the loop. -/
theorem unpad_mul_pow (hsqz : sqz % 40 ≠ 0) (hk : k < fuel) :
    unpad fuel (sqz * 40 ^ k) = some (k, sqz) := by
  induction k generalizing fuel with
  | zero =>
      obtain ⟨fuel, rfl⟩ := Nat.exists_eq_add_of_lt hk
      rw [Nat.pow_zero, Nat.mul_one, unpad, if_neg hsqz]
  | succ k ih =>
      cases fuel with
      | zero => exact absurd hk (Nat.not_lt_zero _)
      | succ fuel =>
          rw [Nat.pow_succ, ← Nat.mul_assoc, unpad, if_pos (Nat.mul_mod_left _ _),
            Nat.mul_div_cancel _ (by decide), ih (Nat.lt_of_succ_lt_succ hk)]
          rfl

/-- The loop ends for every word that is not 0: it has a digit that is not 0 among its last `n`
where it is below `40 ^ n`. -/
theorem exists_unpad (hpos : 0 < sqz) (hlt : sqz < 40 ^ n) (hn : n ≤ fuel) :
    ∃ r, unpad fuel sqz = some r := by
  induction n generalizing fuel sqz with
  | zero => exact absurd hlt (Nat.not_lt.2 hpos)
  | succ n ih =>
      obtain ⟨fuel, rfl⟩ := Nat.exists_eq_add_of_le' (Nat.le_trans (Nat.succ_pos n) hn)
      rw [unpad]
      by_cases h : sqz % 40 = 0
      · have hdiv : 0 < sqz / 40 :=
          Nat.div_pos (Nat.le_of_dvd hpos (Nat.dvd_of_mod_eq_zero h)) (by decide)
        have hlt' : sqz / 40 < 40 ^ n := by
          apply Nat.div_lt_of_lt_mul
          rw [← Nat.pow_succ']
          exact hlt
        obtain ⟨r, hr⟩ := ih hdiv hlt' (Nat.le_of_succ_le_succ hn)
        rw [if_pos h, hr]
        exact ⟨_, rfl⟩
      · rw [if_neg h]
        exact ⟨_, rfl⟩

/-- Only the space has the code 0, among all the characters. -/
theorem chenc_ne_zero {c : Char} (h : c ≠ ' ') : chenc c ≠ 0 := by
  unfold chenc
  split
  · exact Nat.succ_ne_zero _
  split
  · exact Nat.succ_ne_zero _
  split
  · exact Nat.ne_of_gt (Nat.add_pos_right _ (by decide))
  -- `h` rules the space out
  split
  · decide
  split <;> decide

/-- The word of a name that has an end: its codes, and free places. -/
theorem unpad_squoze (hne : a ≠ []) (hlen : a.length ≤ 12) (hlast : a.getLast? ≠ some ' ')
    (hfuel : 12 < fuel + a.length) :
    unpad fuel (frac 40 (a.map chenc) 12) =
      some (12 - a.length, frac 40 (a.map chenc) a.length) := by
  have hsplit : frac 40 (a.map chenc) 12 =
      frac 40 (a.map chenc) a.length * 40 ^ (12 - a.length) := by
    rw [← frac_add (List.length_map chenc).le, Nat.add_sub_cancel' hlen]
  rw [hsplit]
  apply unpad_mul_pow
  · obtain rfl | ⟨l, c, rfl⟩ := a.eq_nil_or_concat
    · exact absurd rfl hne
    · rw [List.concat_eq_append] at hlast ⊢
      rw [List.getLast?_concat] at hlast
      have hmod := frac_concat_mod (l.map chenc) (chenc_lt c)
      rw [List.length_map] at hmod
      rw [List.map_append, List.map_singleton, List.length_append, List.length_singleton, hmod]
      exact chenc_ne_zero fun h ↦ hlast (congrArg some h)
  · omega

/-! ## Appending -/

/-- Both loops of `squoze`, over words. -/
theorem squozeChars_pad_wrap (cs : List Char) (hn : n ≤ 12) (hsqz : sqz < 40 ^ (12 - n)) :
    squozePad wrap (squozeChars wrap cs n sqz).2 (squozeChars wrap cs n sqz).1 =
      sqz * 40 ^ n + frac 40 (cs.map chenc) n := by
  obtain ⟨⟨v, k⟩, hv, h⟩ := Option.bind_eq_some_iff.1 (squozeChars_pad_exact cs hn hsqz)
  rw [squozeChars_wrap hv]
  exact squozePad_wrap h

/-- The word of a string is that of its first 12 characters. -/
theorem squoze_take (s : List Char) : squoze wrap (s.take 12) = squoze wrap s := by
  rw [squoze_wrap, squoze_wrap, List.map_take, frac_take]

/-- Appending to a name of at most 12 characters. -/
theorem squozeAppend_of_length_le (b : List Char) (hlen : a.length ≤ 12)
    (hlast : a.getLast? ≠ some ' ') (hfuel : 12 < fuel) :
    squozeAppend wrap fuel (squoze wrap a) b = some (squoze wrap (a ++ b)) := by
  by_cases hne : a = []
  · subst hne
    rfl
  have hcodes : frac 40 (a.map chenc) a.length < 40 ^ a.length := by
    apply frac_lt (by decide)
    intro d hd
    obtain ⟨c, -, rfl⟩ := List.mem_map.1 hd
    exact chenc_lt c
  have hpos : squoze wrap a ≠ 0 := by
    rw [squoze_wrap]
    apply (frac_pos (by decide) ((List.length_map chenc).trans_le hlen)
      (fun h ↦ hne (List.map_eq_nil_iff.1 h)) ?_).ne'
    rw [List.getLast?_map]
    intro h
    obtain ⟨c, hc, h₀⟩ := Option.map_eq_some_iff.1 h
    exact chenc_ne_zero (fun hsp ↦ hlast (hsp ▸ hc)) h₀
  rw [squozeAppend, if_neg hpos, squoze_wrap,
    unpad_squoze hne hlen hlast (Nat.lt_of_lt_of_le hfuel (Nat.le_add_right _ _))]
  apply congrArg some
  have hfree : 12 - (12 - a.length) = a.length := Nat.sub_sub_self hlen
  refine (squozeChars_pad_wrap b (Nat.sub_le 12 a.length) (hfree.symm ▸ hcodes)).trans ?_
  have happ := frac_append (b := 40) (a.map chenc) (b.map chenc) (12 - a.length)
  rw [List.length_map, Nat.add_sub_cancel' hlen] at happ
  rw [squoze_wrap, List.map_append, happ]

/-- Appending to any name whose first 12 characters do not end in a space. -/
theorem squozeAppend_eq (b : List Char) (ha : (a.take 12).getLast? ≠ some ' ') (hfuel : 12 < fuel) :
    squozeAppend wrap fuel (squoze wrap a) b = some (squoze wrap (a ++ b)) := by
  have hlen : (a.take 12).length ≤ 12 := List.length_take_le 12 a
  have htake : ((a.take 12) ++ b).take 12 = (a ++ b).take 12 := by
    rw [List.take_append, List.take_append, List.take_take, Nat.min_self, List.length_take]
    rcases Nat.le_total 12 a.length with h | h
    · rw [Nat.min_eq_left h, Nat.sub_self, Nat.sub_eq_zero_of_le h]
    · rw [Nat.min_eq_right h]
  rw [← squoze_take a, squozeAppend_of_length_le b hlen ha hfuel, ← squoze_take (_ ++ b), htake,
    squoze_take]

/-- To append to a packed name is to pack both together, of which the first 12 characters count. A
name of 12 characters stays as it is, and the search for the end of a name ends for every word but
0. -/
theorem squozeAppend_squoze (a b : List Char) (ha : (a.take 12).getLast? ≠ some ' ') (fuel : Nat)
    (hfuel : 12 < fuel) :
    squozeAppend wrap fuel (squoze wrap a) b = some (squoze wrap (a ++ b)) ∧
    squoze wrap (a ++ b) = squoze wrap ((a ++ b).take 12) ∧
    (12 ≤ a.length → squozeAppend wrap fuel (squoze wrap a) b = some (squoze wrap a)) ∧
    ∀ sqz, 0 < sqz → sqz < 2 ^ 64 → ∃ r, unpad fuel sqz = some r := by
  refine ⟨squozeAppend_eq b ha hfuel, (squoze_take (a ++ b)).symm, ?_, ?_⟩
  · intro hlen
    rw [squozeAppend_eq b ha hfuel, ← squoze_take (a ++ b), List.take_append_of_le_length hlen,
      squoze_take]
  · intro sqz hpos hlt
    have hlt' : sqz < 40 ^ 13 := Nat.lt_trans hlt (by decide)
    exact exists_unpad hpos hlt' hfuel

theorem squozeAppend_squoze_hd : squozeAppend wrap 13 (squoze wrap "hd 0".toList) "p1".toList =
    some (squoze wrap "hd 0p1".toList) :=
  (squozeAppend_squoze "hd 0".toList "p1".toList (by decide) 13 (by decide)).1

end Mh.Squoze
