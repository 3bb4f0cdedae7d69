import Mathlib.Algebra.Order.Ring.Nat
import Mathlib.Tactic.Common
import Mh.Lib.Digits

/-!
# Names as words

`libsquoze` packs the names of devices and partitions, 12 characters at most, into 64 bits, in
base 40.  A C string is the list of its characters up to the terminator.

The functions are written over the arithmetic that they use: `wrap` is that of `uint64_t`, and
`exact` has no result where that would not be the product or the sum.
-/

namespace Mh.Squoze

/-- Multiplication and addition of 64-bit words. -/
structure Arith (m : Type → Type) where
  mul : Nat → Nat → m Nat
  add : Nat → Nat → m Nat

/-- The arithmetic of `uint64_t`. -/
def wrap : Arith Id where
  mul a b := a * b % 2 ^ 64
  add a b := (a + b) % 2 ^ 64

/-- An arithmetic that stops at an overflow. -/
def exact : Arith Option where
  mul a b := if a * b < 2 ^ 64 then some (a * b) else none
  add a b := if a + b < 2 ^ 64 then some (a + b) else none

/-! ## Characters -/

/-- `chenc`. -/
def chenc (c : Char) : Nat :=
  if 'A' ≤ c ∧ c ≤ 'Z' then c.toNat - 'A'.toNat + 1
  else if 'a' ≤ c ∧ c ≤ 'z' then c.toNat - 'a'.toNat + 1
  else if '0' ≤ c ∧ c ≤ '9' then c.toNat - '0'.toNat + 0o36
  else if c = ' ' then 0
  else if c = '$' then 0o33
  else if c = '.' then 0o34
  else 0o35

/-- `chdec`. -/
def chdec (s40 : Nat) : Char :=
  if s40 = 0 then ' '
  else if s40 ≤ 0o32 then .ofNat ('A'.toNat + s40 - 1)
  else if 0o36 ≤ s40 then .ofNat ('0'.toNat + s40 - 0o36)
  else if s40 = 0o33 then '$'
  else if s40 = 0o34 then '.'
  else '_'

section Functions

variable {m : Type → Type} [Monad m] (ar : Arith m)

/-! ## Packing -/

/-- The first loop of `squoze`, with `n` places left; it returns the places that are left when the
string ends. -/
def squozeChars : List Char → Nat → Nat → m (Nat × Nat)
  | c :: cs, n + 1, sqz => do squozeChars cs n (← ar.add (← ar.mul sqz 40) (chenc c))
  | _, n, sqz => pure (sqz, n)

/-- The second loop: pad, to get the first character at the top. -/
def squozePad : Nat → Nat → m Nat
  | 0, sqz => pure sqz
  | n + 1, sqz => do squozePad n (← ar.mul sqz 40)

/-- `squoze`. -/
def squoze (string : List Char) : m Nat := do
  let (sqz, n) ← squozeChars ar string 12 0
  squozePad ar n sqz

/-! ## Unpacking -/

/-- `cut`: the weight of the first character. -/
def cut : Nat := 40 ^ 11

/-- The loop of `unsquozelen`: what it writes, and what is left of `len`.  Without room for the
next character `len` is lowered once more, below zero. -/
def unsquozeChars : Nat → Nat → m (List Char × Nat)
  | 0, enc => pure ([], if enc = 0 then 0 else 2 ^ 32 - 1)
  | len + 1, enc =>
    if enc = 0 then pure ([], len + 1)
    else do
      let (cs, n) ← unsquozeChars len (← ar.mul (enc % cut) 40)
      pure (chdec (enc / cut % 40) :: cs, n)

/-- `unsquozelen`: what it writes at `string`, and what it returns. -/
def unsquozelen (enc len : Nat) : m (List Char × Nat) := do
  let (cs, n) ← unsquozeChars ar len enc
  pure (cs ++ List.replicate n '\x00', cs.length)

/-- `unsquoze_inline`, `unsquoze_fixed` and `unsquoze`, where `malloc` succeeds: the 13 characters
of the result. -/
def unsquozeInline (enc : Nat) : m (List Char) := do
  let (str, _) ← unsquozelen ar enc 13
  pure (str.set 12 '\x00')

end Functions

/-- The string in a buffer, up to the terminator. -/
def cstr (buf : List Char) : List Char := buf.takeWhile (· ≠ '\x00')

end Mh.Squoze

/-!
## Names are packed without loss

A packed name is the field of 12 digits that begins with the codes of its characters.  The loops
of both directions keep that, so each undoes the other, and the field stays below `40 ^ 12`, which
is below `2 ^ 64`.
-/

namespace Mh.Squoze

open Mh.Lib

/-! ## Characters -/

/-- The characters of names. -/
def nameChar (c : Char) : Bool :=
  ('A' ≤ c && c ≤ 'Z') || ('a' ≤ c && c ≤ 'z') || ('0' ≤ c && c ≤ '9') ||
    c == '$' || c == '.' || c == '_' || c == ' '

/-- A name: at most 12 of these characters, the last of which is not a space. -/
structure Name (s : List Char) : Prop where
  length : s.length ≤ 12
  chars : ∀ c ∈ s, nameChar c
  last : s.getLast? ≠ some ' '

theorem chenc_lt (c : Char) : chenc c < 40 := by
  unfold chenc
  split
  · next h =>
    have h₁ : c.toNat ≤ 'Z'.toNat := h.2
    have h₂ : 'Z'.toNat = 90 := rfl
    have h₃ : 'A'.toNat = 65 := rfl
    omega
  split
  · next h =>
    have h₁ : c.toNat ≤ 'z'.toNat := h.2
    have h₂ : 'z'.toNat = 122 := rfl
    have h₃ : 'a'.toNat = 97 := rfl
    omega
  split
  · next h =>
    have h₁ : c.toNat ≤ '9'.toNat := h.2
    have h₂ : '9'.toNat = 57 := rfl
    have h₃ : '0'.toNat = 48 := rfl
    omega
  split
  · decide
  split
  · decide
  split <;> decide

/-- A character of a name is one of the first 123. -/
theorem toNat_lt_of_nameChar {c : Char} (h : nameChar c) : c.toNat < 123 := by
  simp only [nameChar, Bool.or_eq_true, Bool.and_eq_true, decide_eq_true_eq, beq_iff_eq] at h
  obtain (((((⟨_, h⟩ | ⟨_, h⟩) | ⟨_, h⟩) | rfl) | rfl) | rfl) | rfl := h
  · exact Nat.lt_of_le_of_lt (show c.toNat ≤ 'Z'.toNat from h) (by decide)
  · exact Nat.lt_of_le_of_lt (show c.toNat ≤ 'z'.toNat from h) (by decide)
  · exact Nat.lt_of_le_of_lt (show c.toNat ≤ '9'.toNat from h) (by decide)
  all_goals decide

/-- A character comes back, as an upper-case letter. -/
theorem chdec_chenc {c : Char} (h : nameChar c) : chdec (chenc c) = c.toUpper := by
  have hall :
      ∀ n < 123, nameChar (.ofNat n) → chdec (chenc (.ofNat n)) = (Char.ofNat n).toUpper := by
    decide
  have hc := hall c.toNat (toNat_lt_of_nameChar h)
  rw [Char.ofNat_toNat] at hc
  exact hc h

/-- A code comes back. -/
theorem chenc_chdec : ∀ d < 40, chenc (chdec d) = d := by
  decide

/-- No code is the terminator. -/
theorem chdec_ne_nul : ∀ d < 40, chdec d ≠ '\x00' := by
  decide

/-- Only the space has the code 0. -/
theorem chenc_eq_zero {c : Char} (h : nameChar c) (h₀ : chenc c = 0) : c = ' ' := by
  have hall : ∀ n < 123, nameChar (.ofNat n) → chenc (.ofNat n) = 0 → Char.ofNat n = ' ' := by
    decide
  have hc := hall c.toNat (toNat_lt_of_nameChar h)
  rw [Char.ofNat_toNat] at hc
  exact hc h h₀

/-! ## Packing -/

theorem pow_lt : 40 ^ 12 < 2 ^ 64 := by decide

theorem exact_mul {a b : Nat} (h : a * b < 2 ^ 64) : exact.mul a b = some (a * b) := if_pos h

theorem exact_add {a b : Nat} (h : a + b < 2 ^ 64) : exact.add a b = some (a + b) := if_pos h

theorem squozePad_exact {n sqz : Nat} (h : sqz * 40 ^ n < 2 ^ 64) :
    squozePad exact n sqz = some (sqz * 40 ^ n) := by
  induction n generalizing sqz with
  | zero => simp [squozePad]
  | succ n ih =>
      have heq : sqz * 40 ^ (n + 1) = sqz * 40 * 40 ^ n := by rw [Nat.pow_succ', Nat.mul_assoc]
      have hmul : sqz * 40 < 2 ^ 64 := by
        refine Nat.lt_of_le_of_lt ?_ h
        rw [heq]
        exact Nat.le_mul_of_pos_right _ (Nat.pow_pos (by decide))
      rw [squozePad, exact_mul hmul]
      change squozePad exact n (sqz * 40) = _
      rw [ih (heq ▸ h), heq]

/-- One round of the first loop. -/
theorem squozeChars_exact_cons {c : Char} {cs : List Char} {n sqz : Nat}
    (h : sqz * 40 + chenc c < 2 ^ 64) :
    squozeChars exact (c :: cs) (n + 1) sqz = squozeChars exact cs n (sqz * 40 + chenc c) := by
  rw [squozeChars, exact_mul (Nat.lt_of_le_of_lt (Nat.le_add_right _ _) h)]
  change (exact.add (sqz * 40) (chenc c) >>= fun x ↦ squozeChars exact cs n x) = _
  rw [exact_add h]
  rfl

/-- Both loops, with `n` of the 12 places left: the codes go to the lower places. -/
theorem squozeChars_pad_exact (cs : List Char) {n sqz : Nat} (hn : n ≤ 12)
    (hsqz : sqz < 40 ^ (12 - n)) :
    (do let (v, k) ← squozeChars exact cs n sqz; squozePad exact k v) =
      some (sqz * 40 ^ n + frac 40 (cs.map chenc) n) := by
  have hbound : sqz * 40 ^ n < 2 ^ 64 := by
    refine Nat.lt_trans ?_ pow_lt
    calc sqz * 40 ^ n < 40 ^ (12 - n) * 40 ^ n :=
          Nat.mul_lt_mul_of_pos_right hsqz (Nat.pow_pos (by decide))
      _ = 40 ^ 12 := by rw [← Nat.pow_add, Nat.sub_add_cancel hn]
  induction cs generalizing n sqz with
  | nil => exact squozePad_exact hbound
  | cons c cs ih =>
      cases n with
      | zero =>
          refine (squozePad_exact hbound).trans ?_
          rw [List.map_cons]
          rfl
      | succ n =>
          have hc := chenc_lt c
          have hnext : sqz * 40 + chenc c < 40 ^ (12 - n) := by
            have heq : 12 - n = 12 - (n + 1) + 1 := by omega
            rw [heq, Nat.pow_succ]
            omega
          have hle : 40 ^ (12 - n) ≤ 40 ^ 12 := Nat.pow_le_pow_right (by decide) (Nat.sub_le 12 n)
          have hlt := pow_lt
          have hadd : sqz * 40 + chenc c < 2 ^ 64 := by omega
          rw [squozeChars_exact_cons hadd]
          have hb : (sqz * 40 + chenc c) * 40 ^ n < 2 ^ 64 := by
            refine Nat.lt_trans ?_ pow_lt
            calc (sqz * 40 + chenc c) * 40 ^ n < 40 ^ (12 - n) * 40 ^ n :=
                  Nat.mul_lt_mul_of_pos_right hnext (Nat.pow_pos (by decide))
              _ = 40 ^ 12 := by rw [← Nat.pow_add, Nat.sub_add_cancel (by omega)]
          rw [ih (by omega) hnext hb, List.map_cons, frac_cons, Nat.add_mul, Nat.mul_assoc sqz,
            ← Nat.pow_succ', Nat.add_assoc]

/-- A name is packed as the field that begins with its codes. -/
theorem squoze_exact (s : List Char) : squoze exact s = some (frac 40 (s.map chenc) 12) := by
  have hpos : 0 < 40 ^ (12 - 12) := by decide
  have h := squozeChars_pad_exact s (Nat.le_refl 12) hpos
  rw [Nat.zero_mul, Nat.zero_add] at h
  exact h

/-- Where nothing overflows, the arithmetic of words is exact. -/
theorem wrap_mul {a b r : Nat} (h : exact.mul a b = some r) : wrap.mul a b = r := by
  change (if a * b < 2 ^ 64 then some (a * b) else none) = some r at h
  split at h
  · next hlt => exact (Nat.mod_eq_of_lt hlt).trans (Option.some.inj h)
  · cases h

@[inherit_doc wrap_mul]
theorem wrap_add {a b r : Nat} (h : exact.add a b = some r) : wrap.add a b = r := by
  change (if a + b < 2 ^ 64 then some (a + b) else none) = some r at h
  split at h
  · next hlt => exact (Nat.mod_eq_of_lt hlt).trans (Option.some.inj h)
  · cases h

theorem squozeChars_wrap {cs : List Char} {n sqz : Nat} {r : Nat × Nat}
    (h : squozeChars exact cs n sqz = some r) : squozeChars wrap cs n sqz = r := by
  induction cs generalizing n sqz with
  | nil => exact Option.some.inj h
  | cons c cs ih =>
      cases n with
      | zero => exact Option.some.inj h
      | succ n =>
          rw [squozeChars] at h
          obtain ⟨x, hx, h⟩ := Option.bind_eq_some_iff.1 h
          obtain ⟨y, hy, h⟩ := Option.bind_eq_some_iff.1 h
          rw [← ih h, ← wrap_add hy, ← wrap_mul hx]
          rfl

theorem squozePad_wrap {n sqz r : Nat} (h : squozePad exact n sqz = some r) :
    squozePad wrap n sqz = r := by
  induction n generalizing sqz with
  | zero => exact Option.some.inj h
  | succ n ih =>
      rw [squozePad] at h
      obtain ⟨x, hx, h⟩ := Option.bind_eq_some_iff.1 h
      rw [← ih h, ← wrap_mul hx]
      rfl

/-- The word that `squoze` returns. -/
theorem squoze_wrap (s : List Char) : squoze wrap s = frac 40 (s.map chenc) 12 := by
  obtain ⟨⟨v, k⟩, hv, h⟩ := Option.bind_eq_some_iff.1 (squoze_exact s)
  rw [← squozePad_wrap h]
  change (squozePad wrap (squozeChars wrap s 12 0).2 (squozeChars wrap s 12 0).1) = _
  rw [squozeChars_wrap hv]

/-! ## Unpacking -/

theorem cut_pos : 0 < cut := by decide

/-- The remainder is shifted up without an overflow. -/
theorem rest_lt (enc : Nat) : enc % cut * 40 < 40 ^ 12 := by
  have h := Nat.mod_lt enc cut_pos
  rw [Nat.pow_succ]
  exact Nat.mul_lt_mul_of_pos_right h (by decide)

/-- One round of the loop. -/
theorem unsquozeChars_wrap_succ {enc : Nat} (len : Nat) (h : enc ≠ 0) :
    unsquozeChars wrap (len + 1) enc =
      (chdec (enc / cut % 40) :: (unsquozeChars wrap len (enc % cut * 40)).1,
        (unsquozeChars wrap len (enc % cut * 40)).2) := by
  have hmul : wrap.mul (enc % cut) 40 = enc % cut * 40 :=
    Nat.mod_eq_of_lt (Nat.lt_trans (rest_lt enc) pow_lt)
  rw [unsquozeChars, if_neg h]
  change (chdec (enc / cut % 40) :: (unsquozeChars wrap len (wrap.mul (enc % cut) 40)).1,
    (unsquozeChars wrap len (wrap.mul (enc % cut) 40)).2) = _
  rw [hmul]

/-- Nothing overflows. -/
theorem unsquozeChars_exact (len enc : Nat) :
    unsquozeChars exact len enc = some (unsquozeChars wrap len enc) := by
  induction len generalizing enc with
  | zero => rfl
  | succ len ih =>
      by_cases h : enc = 0
      · subst h
        rfl
      · rw [unsquozeChars_wrap_succ len h, unsquozeChars, if_neg h,
          exact_mul (Nat.lt_trans (rest_lt enc) pow_lt)]
        change (unsquozeChars exact len (enc % cut * 40) >>= fun r ↦
          pure (chdec (enc / cut % 40) :: r.1, r.2)) = _
        rw [ih]
        rfl

/-- Unpacking the field of the codes `ds` gives their characters back. -/
theorem unsquozeChars_frac {ds : List Nat} {len : Nat} (h : ds.length ≤ 12) (hlen : ds.length ≤ len)
    (hds : ∀ d ∈ ds, d < 40) (hlast : ds.getLast? ≠ some 0) :
    unsquozeChars wrap len (frac 40 ds 12) = (ds.map chdec, len - ds.length) := by
  induction ds generalizing len with
  | nil => cases len <;> rfl
  | cons d ds ih =>
      cases len with
      | zero => exact absurd hlen (Nat.not_succ_le_zero _)
      | succ len =>
          have hpos := frac_pos (b := 40) (by decide) h (List.cons_ne_nil _ _) hlast
          have hds' : ∀ d ∈ ds, d < 40 := fun d hd ↦ hds d (List.mem_cons_of_mem _ hd)
          have hd : d % 40 = d := Nat.mod_eq_of_lt (hds d List.mem_cons_self)
          have hlast' : ds.getLast? ≠ some 0 := by
            cases ds with
            | nil => exact nofun
            | cons d' ds => rwa [List.getLast?_cons_cons] at hlast
          have hlen' : ds.length ≤ 11 := Nat.le_of_succ_le_succ h
          rw [unsquozeChars_wrap_succ len hpos.ne', cut, frac_div (by decide) hds', hd,
            frac_mod (by decide) hds', ← frac_succ hlen',
            ih (Nat.le_succ_of_le hlen') (Nat.le_of_succ_le_succ hlen) hds' hlast',
            List.map_cons, List.length_cons, Nat.add_sub_add_right]

/-- What a word is unpacked to, with room for `k` characters, `k` of which it has at most. -/
theorem exists_unsquozeChars {enc k len : Nat} (hk : k ≤ 12) (hlen : k ≤ len)
    (henc : enc < 40 ^ 12) (hdvd : 40 ^ (12 - k) ∣ enc) :
    ∃ ds : List Nat, (unsquozeChars wrap len enc).1 = ds.map chdec ∧ (∀ d ∈ ds, d < 40) ∧
      ds.length ≤ k ∧ frac 40 ds 12 = enc := by
  induction k generalizing enc len with
  | zero =>
      have h₀ : enc = 0 := Nat.eq_zero_of_dvd_of_lt hdvd henc
      subst h₀
      refine ⟨[], ?_, fun _ h ↦ absurd h List.not_mem_nil, Nat.le_refl 0, rfl⟩
      cases len <;> rfl
  | succ k ih =>
      obtain ⟨len, rfl⟩ :=
        Nat.exists_eq_add_of_le' (Nat.le_trans (Nat.succ_le_succ (Nat.zero_le k)) hlen)
      by_cases h₀ : enc = 0
      · subst h₀
        exact ⟨[], rfl, fun _ h ↦ absurd h List.not_mem_nil, Nat.zero_le _, rfl⟩
      have hdiv : enc / cut < 40 := by
        rw [Nat.div_lt_iff_lt_mul cut_pos, cut, ← Nat.pow_succ']
        exact henc
      have hdvd' : 40 ^ (12 - k) ∣ enc % cut * 40 := by
        have heq : 12 - k = 12 - (k + 1) + 1 := by omega
        rw [heq, Nat.pow_succ]
        refine Nat.mul_dvd_mul_right ((Nat.dvd_mod_iff ?_).2 hdvd) 40
        exact Nat.pow_dvd_pow 40 (by omega)
      obtain ⟨ds, hcs, hlt, hlen', hfrac⟩ :=
        ih (Nat.le_of_succ_le hk) (Nat.le_of_succ_le_succ hlen) (rest_lt enc) hdvd'
      refine ⟨enc / cut :: ds, ?_, ?_, Nat.succ_le_succ hlen', ?_⟩
      · rw [unsquozeChars_wrap_succ len h₀, Nat.mod_eq_of_lt hdiv, List.map_cons, hcs]
      · intro d hd
        obtain rfl | hd := List.mem_cons.1 hd
        · exact hdiv
        · exact hlt d hd
      · rw [frac_succ (Nat.le_trans hlen' (Nat.le_of_succ_le_succ hk))] at hfrac
        rw [frac_cons, Nat.eq_of_mul_eq_mul_right (by decide) hfrac]
        exact Nat.div_add_mod' enc cut

/-! ## Both directions -/

/-- The codes of a name. -/
theorem Name.codes {s : List Char} (h : Name s) : (s.map chenc).length ≤ 12 ∧
    (∀ d ∈ s.map chenc, d < 40) ∧ (s.map chenc).getLast? ≠ some 0 := by
  refine ⟨by rw [List.length_map]; exact h.length, fun d hd ↦ ?_, fun hlast ↦ ?_⟩
  · obtain ⟨c, _, rfl⟩ := List.mem_map.1 hd
    exact chenc_lt c
  · rw [List.getLast?_map, Option.map_eq_some_iff] at hlast
    obtain ⟨c, hc, h₀⟩ := hlast
    have hname := h.chars c (List.mem_of_getLast? hc)
    exact h.last (by rw [hc, chenc_eq_zero hname h₀])

/-- The buffer after `unsquozelen`, and its result. -/
theorem unsquozelen_wrap (enc len : Nat) : unsquozelen wrap enc len =
    ((unsquozeChars wrap len enc).1 ++ List.replicate (unsquozeChars wrap len enc).2 '\x00',
      (unsquozeChars wrap len enc).1.length) := rfl

/-- A name comes back in upper case, followed by zeros. -/
theorem unsquozelen_squoze {s : List Char} (h : Name s) : unsquozelen wrap (squoze wrap s) 13 =
    (s.map Char.toUpper ++ List.replicate (13 - s.length) '\x00', s.length) := by
  obtain ⟨hlen, hlt, hlast⟩ := h.codes
  have hlen' : (s.map chenc).length ≤ 13 := Nat.le_succ_of_le hlen
  have hchars := unsquozeChars_frac hlen hlen' hlt hlast
  have hmap : (s.map chenc).map chdec = s.map Char.toUpper := by
    rw [List.map_map]
    exact List.map_congr_left fun c hc ↦ chdec_chenc (h.chars c hc)
  rw [hmap, List.length_map] at hchars
  rw [squoze_wrap, unsquozelen_wrap, hchars, List.length_map]

/-- A word below `40 ^ 12` comes back. -/
theorem squoze_unsquozelen {enc : Nat} (h : enc < 40 ^ 12) :
    squoze wrap (cstr (unsquozelen wrap enc 13).1) = enc := by
  obtain ⟨ds, hcs, hlt, hlen, hfrac⟩ :=
    exists_unsquozeChars (Nat.le_refl 12) (Nat.le_succ 12) h (one_dvd enc)
  have hstr : cstr (unsquozelen wrap enc 13).1 = ds.map chdec := by
    rw [unsquozelen_wrap, hcs, cstr, List.takeWhile_append_of_pos]
    · cases (unsquozeChars wrap 13 enc).2 <;> simp [List.replicate_succ]
    · intro c hc
      obtain ⟨d, hd, rfl⟩ := List.mem_map.1 hc
      exact decide_eq_true (chdec_ne_nul d (hlt d hd))
  have hcodes : (ds.map chdec).map chenc = ds := by
    rw [List.map_map]
    exact (List.map_congr_left fun d hd ↦ chenc_chdec d (hlt d hd)).trans (List.map_id ds)
  rw [hstr, squoze_wrap, hcodes, hfrac]

/-- Names and words below `40 ^ 12` come back, and no string and no word makes the arithmetic of
either direction overflow. -/
theorem squoze_round_trip (s : List Char) (enc : Nat) (hs : Name s) (henc : enc < 40 ^ 12)
    (t : List Char) (e len : Nat) :
    unsquozelen wrap (squoze wrap s) 13 =
      (s.map Char.toUpper ++ List.replicate (13 - s.length) '\x00', s.length) ∧
    squoze wrap (cstr (unsquozelen wrap enc 13).1) = enc ∧
    squoze exact t = some (squoze wrap t) ∧
    unsquozelen exact e len = some (unsquozelen wrap e len) := by
  refine ⟨unsquozelen_squoze hs, squoze_unsquozelen henc, ?_, ?_⟩
  · rw [squoze_exact, squoze_wrap]
  · rw [unsquozelen, unsquozeChars_exact]
    rfl

theorem squoze_round_trip_hd0 : Name "hd0 $.x_".toList ∧
    unsquozelen wrap (squoze wrap "hd0 $.x_".toList) 13 =
      ("HD0 $.X_".toList ++ List.replicate 5 '\x00', 8) := by
  have hs : Name "hd0 $.x_".toList := ⟨by decide, List.all_eq_true.1 (by decide), by decide⟩
  exact ⟨hs, (squoze_round_trip _ 0 hs (by decide) [] 0 0).1⟩

/-- The string that `unsquoze_inline` returns for a packed name. -/
theorem unsquozeInline_squoze {s : List Char} (h : Name s) :
    unsquozeInline wrap (squoze wrap s) =
      s.map Char.toUpper ++ List.replicate (13 - s.length) '\x00' := by
  change (unsquozelen wrap (squoze wrap s) 13).1.set 12 '\x00' = _
  rw [unsquozelen_squoze h]
  refine List.ext_getElem (by rw [List.length_set]) fun i hi hi' ↦ ?_
  rw [List.getElem_set]
  split
  · next hi =>
    subst hi
    rw [List.getElem_append_right (by rw [List.length_map]; exact h.length),
      List.getElem_replicate]
  · rfl

end Mh.Squoze
