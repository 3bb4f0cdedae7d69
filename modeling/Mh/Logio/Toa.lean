import Mh.Logio.Printf
import Mathlib.Data.Nat.Digits.Lemmas

/-!
# The numbers that `__toa` writes

`__toa` fills a buffer from its end.  `toaBuf` is the function with the buffer: where `ptr` is, what
the bytes are, and which of them have been written; `toa` is the string that it leaves there
(`holds_toaBuf`).

The digits are those of the value in the base, the last one first (`toaDigits_eq`), which is to say
that reading them back gives the value.  The longest are the 64 digits of base 2: with the zero
byte they fill the buffer.
-/

namespace Mh.Logio

instance : LawfulBEq Byte := inferInstance

/-! ## The buffer -/

/-- `buf`, by the offsets of its bytes, `ptr` as an offset, and the offsets that have been written,
the last one first. -/
structure Buf where
  ptr : Int
  byte : Int → Byte
  written : List Int

namespace Buf

/-- `*ptr = c`. -/
def store (b : Buf) (ptr : Int) (c : Byte) : Buf :=
  ⟨ptr, Function.update b.byte ptr c, ptr :: b.written⟩

/-- `ptr = buf + _BUFSZ - 1` and `*ptr = '\0'`, in a buffer with any bytes. -/
def start (byte : Int → Byte) : Buf := store ⟨0, byte, []⟩ (bufsz - 1) 0

/-- `if ((ptr - 1) >= buf) *--ptr = c`. -/
def putBack (c : Byte) (b : Buf) : Buf := if 0 ≤ b.ptr - 1 then b.store (b.ptr - 1) c else b

/-- The loop over the digits. -/
def digits (m : Mode) (val : Nat) (b : Buf) : Buf :=
  let b := b.putBack (m.digit (val % m.base))
  if val / m.base = 0 then b else digits m (val / m.base) b
termination_by val
decreasing_by
  have := m.two_le
  exact Nat.div_lt_self (Nat.pos_of_ne_zero fun h0 ↦ by simp_all) this

/-- The sign, or what stands in its place. -/
def sign (neg : Bool) (opt : List Byte) (b : Buf) : Buf :=
  if 0 ≤ b.ptr - 1 then
    if neg then b.store (b.ptr - 1) (chr '-')
    else if chr ' ' ∈ opt then b.store (b.ptr - 1) (chr ' ')
    else if chr '+' ∈ opt then b.store (b.ptr - 1) (chr '+')
    else b
  else b

/-- The string at `ptr`. -/
def HasString (b : Buf) (text : List Byte) : Prop :=
  (∀ i (h : i < text.length), b.byte (b.ptr + i) = text.get ⟨i, h⟩) ∧
    b.byte (b.ptr + text.length) = 0 ∧ ∀ c ∈ text, c ≠ 0

end Buf

/-- `__toa`, where it knows the mode. -/
def toaBuf (byte : Int → Byte) (val : BitVec 64) (pmode : Byte) (opt : List Byte) : Option Buf :=
  (Mode.ofChar pmode).map fun m ↦
    let neg : Bool := m.sgnd && val.msb
    ((Buf.start byte).digits m (if neg then -val else val).toNat).sign neg opt

/-- The buffer ends with `text`, and all that has been written is inside of it. -/
structure Holds (b : Buf) (text : List Byte) : Prop where
  ptr : b.ptr + text.length = bufsz - 1
  room : 0 ≤ b.ptr
  byte : ∀ i (h : i < text.length), b.byte (b.ptr + i) = text.get ⟨i, h⟩
  zero : b.byte (bufsz - 1) = 0
  written : ∀ i ∈ b.written, 0 ≤ i ∧ i < bufsz

namespace Holds

variable {b : Buf} {text opt : List Byte} {c : Byte}

theorem start (byte : Int → Byte) : Holds (Buf.start byte) [] where
  ptr := Int.add_zero _
  room := show (0 : Int) ≤ bufsz - 1 by decide
  byte i h := absurd h (Nat.not_lt_zero i)
  zero := by
    show Function.update byte (bufsz - 1) 0 (bufsz - 1) = 0
    rw [Function.update_self]
  written i hi := by
    rw [List.mem_singleton.1 hi]
    decide

/-- A byte in front of the text. -/
theorem store (h : Holds b text) (hroom : 0 ≤ b.ptr - 1) (c : Byte) :
    Holds (b.store (b.ptr - 1) c) (c :: text) := by
  have hptr := h.ptr
  refine ⟨?_, hroom, ?_, ?_, ?_⟩
  · show b.ptr - 1 + ((text.length + 1 : Nat) : Int) = _
    omega
  · intro i hi
    show Function.update b.byte (b.ptr - 1) c (b.ptr - 1 + i) = _
    cases i with
    | zero => exact (congrArg _ (Int.add_zero _)).trans (Function.update_self _ _ _)
    | succ i =>
        rw [Function.update_of_ne (by omega)]
        refine Eq.trans ?_ (h.byte i (Nat.lt_of_succ_lt_succ hi))
        congr 1
        omega
  · show Function.update b.byte (b.ptr - 1) c _ = 0
    rw [Function.update_of_ne (by omega)]
    exact h.zero
  · intro i hi
    rcases List.mem_cons.1 hi with rfl | hi
    · have hlt : (0 : Int) < bufsz := by decide
      omega
    · exact h.written i hi

/-- There is room at `ptr` when the text is short enough. -/
theorem room_iff (h : Holds b text) : 0 ≤ b.ptr - 1 ↔ text.length < bufsz - 1 := by
  have hptr := h.ptr
  have hbuf : bufsz = 65 := rfl
  rw [hbuf] at hptr ⊢
  omega

theorem putBack (h : Holds b text) (c : Byte) : Holds (b.putBack c) (Logio.putBack c text) := by
  rw [Buf.putBack, Logio.putBack]
  by_cases hroom : 0 ≤ b.ptr - 1
  · rw [if_pos hroom, if_pos (h.room_iff.1 hroom)]
    exact h.store hroom c
  · rw [if_neg hroom, if_neg fun hlt ↦ hroom (h.room_iff.2 hlt)]
    exact h

theorem digits (m : Mode) (val : Nat) (h : Holds b text) :
    Holds (b.digits m val) (toaDigits m val text) := by
  induction val using Nat.strong_induction_on generalizing b text with
  | h val ih =>
    rw [Buf.digits, toaDigits]
    have hnext := h.putBack (m.digit (val % m.base))
    split
    · exact hnext
    · rename_i hne
      refine ih _ (Nat.div_lt_self (Nat.pos_of_ne_zero fun h0 ↦ hne ?_) m.two_le) hnext
      rw [h0, Nat.zero_div]

theorem sign (h : Holds b text) (neg : Bool) (opt : List Byte) :
    Holds (b.sign neg opt) (putSign neg opt text) := by
  rw [Buf.sign, putSign, Logio.putBack, Logio.putBack, Logio.putBack]
  by_cases hroom : 0 ≤ b.ptr - 1
  · rw [if_pos hroom]
    simp only [if_pos (h.room_iff.1 hroom)]
    split
    · exact h.store hroom _
    · split
      · exact h.store hroom _
      · split
        · exact h.store hroom _
        · exact h
  · rw [if_neg hroom]
    simp only [if_neg fun hlt ↦ hroom (h.room_iff.2 hlt), ite_self]
    exact h

end Holds

/-- What `__toa` leaves in the buffer. -/
theorem holds_toaBuf (byte : Int → Byte) (val : BitVec 64) {pmode : Byte} (opt : List Byte)
    {m : Mode} (hm : Mode.ofChar pmode = some m) :
    ∃ b, toaBuf byte val pmode opt = some b ∧ Holds b (toa val pmode opt) := by
  rw [toaBuf, toa, hm]
  exact ⟨_, rfl, ((Holds.start byte).digits m _).sign _ opt⟩

/-- The string that `__toa` returns. -/
theorem Holds.hasString {b : Buf} {text : List Byte} (h : Holds b text)
    (hne : ∀ c ∈ text, c ≠ 0) : b.HasString text := by
  refine ⟨h.byte, ?_, hne⟩
  rw [h.ptr]
  exact h.zero

/-! ## Reading a number back -/

/-- The value of a digit. -/
def digitValue (c : Byte) : Option Nat :=
  if chr '0' ≤ c ∧ c ≤ chr '9' then some (c - chr '0').toNat
  else if chr 'a' ≤ c ∧ c ≤ chr 'f' then some ((c - chr 'a').toNat + 10)
  else if chr 'A' ≤ c ∧ c ≤ chr 'F' then some ((c - chr 'A').toNat + 10)
  else none

/-- One more digit of a number in base `base`. -/
def readDigit (base n : Nat) (c : Byte) : Option Nat := do
  let d ← digitValue c
  if d < base then some (n * base + d) else none

/-- The number that a string of digits denotes. -/
def readDigits (base : Nat) (text : List Byte) : Option Nat :=
  if text = [] then none else text.foldlM (readDigit base) 0

/-- The number that a string denotes, with a sign or without. -/
def readNumber (base : Nat) (text : List Byte) : Option Int :=
  if text.head? = some (chr '-') then (readDigits base text.tail).map fun n ↦ -(n : Int)
  else (readDigits base text).map Int.ofNat

/-- The digits after the sign. -/
def magnitude (text : List Byte) : List Byte :=
  if text.head? = some (chr '-') then text.tail else text

/-- The base of a mode. -/
def radix (pmode : Byte) : Nat :=
  if pmode = chr 'b' then 2
  else if pmode = chr 'o' then 8
  else if pmode ∈ ['d', 'i', 'u'].map chr then 10
  else 16

/-- The modes that take the value for a signed one. -/
def signed (pmode : Byte) : Bool := pmode ∈ ['d', 'i'].map chr

/-- The modes. -/
def modes : List Byte := ['d', 'i', 'u', 'x', 'X', 'p', 'o', 'b'].map chr

/-- The number that a word stands for in a mode. -/
def denoted (pmode : Byte) (val : BitVec 64) : Int :=
  if signed pmode then val.toInt else val.toNat

/-- What `__toa` makes of a mode. -/
theorem ofChar_mode {pmode : Byte} (h : pmode ∈ modes) : ∃ m, Mode.ofChar pmode = some m ∧
    m.base = radix pmode ∧ m.sgnd = signed pmode ∧ (m.sgnd → m.base = 10) ∧
    ∀ r < m.base, digitValue (m.digit r) = some r := by
  simp only [modes, List.map_cons, List.map_nil, List.mem_cons, List.not_mem_nil, or_false] at h
  rcases h with rfl | rfl | rfl | rfl | rfl | rfl | rfl | rfl <;>
    exact ⟨_, rfl, rfl, rfl, by decide, by decide⟩

/-! ## The digits -/

section Digits

variable {m : Mode} {val : Nat} {text : List Byte}

/-- The digits of a value, the first one first; zero has one digit. -/
def digitsOf (m : Mode) (val : Nat) : List Nat := if val = 0 then [0] else m.base.digits val

/-- The loop puts the digits in front of what is in the buffer, when there is room for them. -/
theorem toaDigits_eq (h : (digitsOf m val).length + text.length ≤ bufsz - 1) :
    toaDigits m val text = (digitsOf m val).reverse.map m.digit ++ text := by
  induction val using Nat.strong_induction_on generalizing text with
  | h val ih =>
    have hbase : 1 < m.base := m.two_le
    have hpos : 0 < (digitsOf m val).length := by
      rw [digitsOf]
      split
      · exact Nat.one_pos
      · rename_i h₀
        exact List.length_pos_iff.2 (Nat.digits_ne_nil_iff_ne_zero.2 h₀)
    have hroom : text.length < bufsz - 1 := by omega
    rw [toaDigits, putBack, if_pos hroom]
    by_cases hq : val / m.base = 0
    · have hlt : val < m.base := (Nat.div_eq_zero_iff_lt (by omega)).1 hq
      have hds : digitsOf m val = [val % m.base] := by
        rw [Nat.mod_eq_of_lt hlt, digitsOf]
        split
        · rename_i h₀
          rw [h₀]
        · rename_i h₀
          exact Nat.digits_of_lt m.base val h₀ hlt
      rw [if_pos hq, hds]
      rfl
    · have h₀ : val ≠ 0 := fun h₀ ↦ hq (by rw [h₀, Nat.zero_div])
      have hds : digitsOf m val = val % m.base :: digitsOf m (val / m.base) := by
        rw [digitsOf, if_neg h₀, digitsOf, if_neg hq,
          Nat.digits_def' hbase (Nat.pos_of_ne_zero h₀)]
      rw [hds, List.length_cons] at h
      rw [if_neg hq, ih _ (Nat.div_lt_self (Nat.pos_of_ne_zero h₀) hbase)
        (by rw [List.length_cons]; omega), hds, List.reverse_cons, List.map_append,
        List.append_assoc]
      rfl

/-- How many digits there are. -/
theorem length_digitsOf_le {k : Nat} (hk : 0 < k) (h : val < m.base ^ k) :
    (digitsOf m val).length ≤ k := by
  rw [digitsOf]
  split
  · exact hk
  · exact (Nat.digits_length_le_iff m.two_le val).2 h

theorem digitsOf_lt (m : Mode) (val : Nat) : ∀ d ∈ digitsOf m val, d < m.base := by
  intro d hd
  rw [digitsOf] at hd
  split at hd
  · rw [List.mem_singleton.1 hd]
    exact Nat.zero_lt_of_lt m.two_le
  · exact Nat.digits_lt_base m.two_le hd

theorem ofDigits_digitsOf (m : Mode) (val : Nat) : Nat.ofDigits m.base (digitsOf m val) = val := by
  rw [digitsOf]
  split
  · rename_i h₀
    rw [h₀]
    exact Nat.ofDigits_singleton
  · exact Nat.ofDigits_digits m.base val

/-- Reading digits back, the first one first. -/
theorem foldlM_readDigit {base : Nat} {digit : Nat → Byte}
    (hdigit : ∀ r < base, digitValue (digit r) = some r) {ds : List Nat}
    (hds : ∀ d ∈ ds, d < base) :
    (ds.reverse.map digit).foldlM (readDigit base) 0 = some (Nat.ofDigits base ds) := by
  induction ds with
  | nil => rfl
  | cons d ds ih =>
      have hd := hds d List.mem_cons_self
      have hlast (n : Nat) : readDigit base n (digit d) = some (n * base + d) := by
        rw [readDigit, hdigit d hd]
        exact if_pos hd
      rw [List.reverse_cons, List.map_append, List.foldlM_append,
        ih fun d hd ↦ hds d (List.mem_cons_of_mem _ hd), Nat.ofDigits_cons]
      show (readDigit base (Nat.ofDigits base ds) (digit d) >>= fun n ↦ some n) = _
      rw [hlast, Nat.mul_comm base, Nat.add_comm]
      rfl

/-- A number that begins with a zero is zero. -/
theorem head_digitsOf (h : (digitsOf m val).reverse.head? = some 0) : val = 0 := by
  by_contra h₀
  rw [digitsOf, if_neg h₀, List.head?_reverse] at h
  have hne := Nat.digits_ne_nil_iff_ne_zero (b := m.base) |>.2 h₀
  rw [List.getLast?_eq_some_getLast hne] at h
  exact Nat.getLast_digit_ne_zero m.base h₀ (Option.some.inj h)

end Digits

/-! ## Numbers and their strings -/

/-- `text` is how `v` is written in base `base`. -/
structure IsNumeral (base : Nat) (text : List Byte) (v : Int) : Prop where
  value : readNumber base text = some v
  first : (magnitude text).head? = some (chr '0') → text = [chr '0']

section Numeral

variable {m : Mode} {n : Nat} (hdigit : ∀ r < m.base, digitValue (m.digit r) = some r)
include hdigit

/-- A digit is not a sign. -/
theorem head_digits_ne (n : Nat) : ((digitsOf m n).reverse.map m.digit).head? ≠ some (chr '-') := by
  intro h
  obtain ⟨d, hd, hdash⟩ := List.mem_map.1 (List.mem_of_head? h)
  have hval := hdigit d (digitsOf_lt m n d (List.mem_reverse.1 hd))
  rw [hdash] at hval
  cases hval

/-- A zero digit is the digit of zero. -/
theorem digits_of_head (h : ((digitsOf m n).reverse.map m.digit).head? = some (chr '0')) :
    n = 0 := by
  rw [List.head?_map, Option.map_eq_some_iff] at h
  obtain ⟨d, hd, hzero⟩ := h
  have hlt := digitsOf_lt m n d (List.mem_reverse.1 (List.mem_of_head? hd))
  have hval := hdigit d hlt
  rw [hzero] at hval
  obtain rfl : 0 = d := Option.some.inj hval
  exact head_digitsOf hd

/-- The digits of a value are read back. -/
theorem readDigits_digitsOf (n : Nat) :
    readDigits m.base ((digitsOf m n).reverse.map m.digit) = some n := by
  have hne : (digitsOf m n).reverse.map m.digit ≠ [] := by
    rw [Ne, List.map_eq_nil_iff, List.reverse_eq_nil_iff, digitsOf]
    split
    · exact List.cons_ne_nil 0 []
    · rename_i h₀
      exact Nat.digits_ne_nil_iff_ne_zero.2 h₀
  rw [readDigits, if_neg hne, foldlM_readDigit hdigit (digitsOf_lt m n), ofDigits_digitsOf]

/-- The digits of a value, with no sign. -/
theorem isNumeral_digits (n : Nat) :
    IsNumeral m.base ((digitsOf m n).reverse.map m.digit) n := by
  have hhead := head_digits_ne hdigit n
  constructor
  · rw [readNumber, if_neg hhead, readDigits_digitsOf hdigit]
    rfl
  · rw [magnitude, if_neg hhead]
    intro h
    obtain rfl := digits_of_head hdigit h
    have hzero : (digitsOf m 0).reverse.map m.digit = [m.digit 0] := by
      rw [digitsOf, if_pos rfl]
      rfl
    rw [hzero] at h ⊢
    rw [Option.some.inj h]

/-- The digits of a value that is not zero, after a sign. -/
theorem isNumeral_neg (hpos : n ≠ 0) :
    IsNumeral m.base (chr '-' :: (digitsOf m n).reverse.map m.digit) (-(n : Int)) := by
  constructor
  · rw [readNumber, if_pos List.head?_cons, List.tail_cons, readDigits_digitsOf hdigit]
    rfl
  · rw [magnitude, if_pos List.head?_cons, List.tail_cons]
    exact fun h ↦ absurd (digits_of_head hdigit h) hpos

end Numeral

/-- The absolute value of a negative word. -/
theorem toNat_neg_of_msb {val : BitVec 64} (h : val.msb = true) :
    (-val).toNat ≠ 0 ∧ (-val).toNat ≤ 2 ^ 63 ∧ val.toInt = -((-val).toNat : Int) := by
  have hge : 2 ^ 63 ≤ val.toNat := by
    have := BitVec.msb_eq_decide val ▸ h
    simpa using this
  have hlt := val.isLt
  have hneg : (-val).toNat = 2 ^ 64 - val.toNat := by
    rw [BitVec.toNat_neg, Nat.mod_eq_of_lt (by omega)]
  rw [BitVec.toInt_eq_msb_cond, if_pos h, hneg]
  omega

/-- What `__toa` returns without the flags. -/
theorem isNumeral_toa {val : BitVec 64} {pmode : Byte} {opt : List Byte} (hmode : pmode ∈ modes)
    (hspace : chr ' ' ∉ opt) (hplus : chr '+' ∉ opt) :
    IsNumeral (radix pmode) (toa val pmode opt) (denoted pmode val) := by
  obtain ⟨m, hm, hbase, hsgnd, hten, hdigit⟩ := ofChar_mode hmode
  have hone : 1 < m.base := m.two_le
  rw [toa, hm, ← hbase, denoted, ← hsgnd]
  dsimp only
  by_cases hneg : (m.sgnd && val.msb) = true
  · obtain ⟨hs, hmsb⟩ := Bool.and_eq_true_iff.1 hneg
    obtain ⟨hne, hle, hint⟩ := toNat_neg_of_msb hmsb
    have hlen : (digitsOf m (-val).toNat).length ≤ 19 := by
      refine length_digitsOf_le (by decide) (hle.trans_lt ?_)
      rw [hten hs]
      decide
    have hdigits : toaDigits m (-val).toNat [] =
        (digitsOf m (-val).toNat).reverse.map m.digit ++ [] :=
      toaDigits_eq (hlen.trans (by decide))
    rw [hneg, if_pos rfl, hdigits, List.append_nil, putSign, if_pos rfl, putBack, if_pos, hs,
      if_pos rfl, hint]
    · exact isNumeral_neg hdigit hne
    · rw [List.length_map, List.length_reverse]
      exact hlen.trans_lt (by decide)
  · have hlen : (digitsOf m val.toNat).length ≤ 64 := by
      refine length_digitsOf_le (by decide) (val.isLt.trans_le ?_)
      exact Nat.pow_le_pow_left hone 64
    have hdigits : toaDigits m val.toNat [] = (digitsOf m val.toNat).reverse.map m.digit ++ [] :=
      toaDigits_eq hlen
    have hint : (if m.sgnd = true then val.toInt else (val.toNat : Int)) = val.toNat := by
      split
      · rename_i hs
        have hmsb : val.msb = false := by
          rw [hs, Bool.true_and] at hneg
          exact Bool.eq_false_iff.2 hneg
        rw [BitVec.toInt_eq_msb_cond, hmsb, if_neg Bool.false_ne_true]
      · rfl
    rw [Bool.eq_false_iff.2 hneg, if_neg Bool.false_ne_true, hdigits, List.append_nil, putSign,
      if_neg Bool.false_ne_true, if_neg hspace, if_neg hplus, hint]
    exact isNumeral_digits hdigit _

/-- A number comes back from the string that `__toa` returns, which has no leading zeros, and
nothing is written outside of the buffer. -/
theorem toa_round_trip (byte : Int → Byte) (val : BitVec 64) (pmode : Byte) (opt : List Byte)
    (hmode : pmode ∈ modes) (hspace : chr ' ' ∉ opt) (hplus : chr '+' ∉ opt) :
    ∃ b text, toaBuf byte val pmode opt = some b ∧ b.HasString text ∧
      IsNumeral (radix pmode) text (denoted pmode val) ∧ ∀ i ∈ b.written, 0 ≤ i ∧ i < bufsz := by
  obtain ⟨m, hm, -⟩ := ofChar_mode hmode
  obtain ⟨b, hb, h⟩ := holds_toaBuf byte val opt hm
  exact ⟨b, toa val pmode opt, hb, h.hasString (CString.ofNumber val pmode opt).nonzero,
    isNumeral_toa hmode hspace hplus, h.written⟩

/-- The least of the signed numbers. -/
theorem toa_round_trip_min : ∃ b text,
    toaBuf (fun _ ↦ 0) 0x8000000000000000 (chr 'd') [] = some b ∧ b.HasString text ∧
      IsNumeral 10 text (-0x8000000000000000) ∧ ∀ i ∈ b.written, 0 ≤ i ∧ i < bufsz := by
  have hmode : chr 'd' ∈ modes := by decide
  have hradix : radix (chr 'd') = 10 := by decide
  have hmin : denoted (chr 'd') 0x8000000000000000 = -0x8000000000000000 := by decide
  rw [← hradix, ← hmin]
  exact toa_round_trip (fun _ ↦ 0) 0x8000000000000000 (chr 'd') [] hmode List.not_mem_nil
    List.not_mem_nil

end Mh.Logio
