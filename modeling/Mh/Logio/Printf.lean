import Mathlib.Data.BitVec
import Mathlib.Tactic.Common

/-!
# The kernel's `printf`

`vprintf` and `__toa` of `ukern/lib/logio/printf.c`.  A format is literal text and conversions; a
conversion has flags, a width, a precision, size modifiers and a type, and `vprintf` puts out its
text between two loops that pad it.

The text is a string in memory, of which one loop looks for the end and another puts out a number of
bytes.  These are two different numbers, so a model of the memory goes past the end of the string.
-/

namespace Mh.Logio

/-- A `char`. -/
abbrev Byte := BitVec 8

/-- A character constant. -/
def chr (c : Char) : Byte := BitVec.ofNat 8 c.toNat

/-- The characters of a string. -/
structure CString where
  text : List Byte
  nonzero : ∀ c ∈ text, c ≠ 0
  short : text.length < 2 ^ 32

namespace CString

/-- `__addchar`. -/
def ofChar (c : Byte) : CString where
  text := if c = 0 then [] else [c]
  nonzero b hb := by
    split at hb
    · cases hb
    · rw [List.mem_singleton.1 hb]
      assumption
  short := by
    split
    · exact Nat.two_pow_pos 32
    · exact Nat.one_lt_two_pow (by decide)

/-- `"(NULL)"`. -/
def null : CString where
  text := ['(', 'N', 'U', 'L', 'L', ')'].map chr
  nonzero := by decide
  short := by decide

/-- What is in memory from the start of a string on: `beyond` is what comes after its end. -/
def byteAt (s : CString) (beyond : Nat → Byte) (i : Nat) : Byte :=
  s.text[i]?.getD (if i = s.text.length then 0 else beyond (i - s.text.length - 1))

end CString

/-! ## Numbers -/

/-- What `__toa` makes of `pmode`. -/
structure Mode where
  base : Nat
  hic : Byte
  sgnd : Bool
  two_le : 2 ≤ base
  digit_ne_zero : ∀ r < base, (if r < 10 then BitVec.ofNat 8 r + chr '0'
    else BitVec.ofNat 8 r + hic) ≠ 0

namespace Mode

/-- `rem < 10 ? rem + loc : rem + hic`. -/
def digit (m : Mode) (r : Nat) : Byte :=
  if r < 10 then BitVec.ofNat 8 r + chr '0' else BitVec.ofNat 8 r + m.hic

/-- The base, the letters and the sign. -/
def ofChar (c : Byte) : Option Mode :=
  let hic := chr 'a' - 10
  if c = chr 'X' then some ⟨16, chr 'A' - 10, false, by decide, by decide⟩
  else if c = chr 'p' ∨ c = chr 'x' then some ⟨16, hic, false, by decide, by decide⟩
  else if c = chr 'i' ∨ c = chr 'd' then some ⟨10, hic, true, by decide, by decide⟩
  else if c = chr 'u' then some ⟨10, hic, false, by decide, by decide⟩
  else if c = chr 'o' then some ⟨8, hic, false, by decide, by decide⟩
  else if c = chr 'b' then some ⟨2, hic, false, by decide, by decide⟩
  else none

end Mode

/-- `_BUFSZ`. -/
def bufsz : Nat := 65

/-- `if ((ptr - 1) >= buf) *--ptr = c`: `text` is what is in the buffer from `ptr` to its last byte,
which is zero. -/
def putBack (c : Byte) (text : List Byte) : List Byte :=
  if text.length < bufsz - 1 then c :: text else text

/-- The loop over the digits. -/
def toaDigits (m : Mode) (val : Nat) (text : List Byte) : List Byte :=
  let text := putBack (m.digit (val % m.base)) text
  if val / m.base = 0 then text else toaDigits m (val / m.base) text
termination_by val
decreasing_by
  have := m.two_le
  exact Nat.div_lt_self (Nat.pos_of_ne_zero fun h0 ↦ by simp_all) this

/-- The sign, or what stands in its place. -/
def putSign (neg : Bool) (opt text : List Byte) : List Byte :=
  if neg then putBack (chr '-') text
  else if chr ' ' ∈ opt then putBack (chr ' ') text
  else if chr '+' ∈ opt then putBack (chr '+') text
  else text

/-- `__toa`. -/
def toa (val : BitVec 64) (pmode : Byte) (opt : List Byte) : List Byte :=
  match Mode.ofChar pmode with
  | none => ['<', '?', '>'].map chr
  | some m =>
    let neg : Bool := m.sgnd && val.msb
    putSign neg opt (toaDigits m (if neg then -val else val).toNat [])

/-- What holds of all that is put into the buffer. -/
theorem forall_mem_toa {P : List Byte → Prop} (hput : ∀ c text, c ≠ 0 → P text → P (putBack c text))
    (hnil : P []) (hunknown : P (['<', '?', '>'].map chr)) (val : BitVec 64) (pmode : Byte)
    (opt : List Byte) : P (toa val pmode opt) := by
  have hdigits (m : Mode) (val : Nat) (text : List Byte) (h : P text) :
      P (toaDigits m val text) := by
    induction val using Nat.strong_induction_on generalizing text with
    | h val ih =>
      have hdigit : m.digit (val % m.base) ≠ 0 :=
        m.digit_ne_zero _ (Nat.mod_lt _ (Nat.lt_of_lt_of_le (by decide) m.two_le))
      have hnext := hput _ text hdigit h
      rw [toaDigits]
      split
      · exact hnext
      · rename_i hne
        refine ih _ (Nat.div_lt_self (Nat.pos_of_ne_zero fun h0 ↦ hne ?_) m.two_le) _ hnext
        rw [h0, Nat.zero_div]
  have hsign (neg : Bool) (text : List Byte) (h : P text) : P (putSign neg opt text) := by
    rw [putSign]
    split
    · exact hput _ _ (by decide) h
    · split
      · exact hput _ _ (by decide) h
      · split
        · exact hput _ _ (by decide) h
        · exact h
  rw [toa]
  split
  · exact hunknown
  · exact hsign _ _ (hdigits _ _ _ hnil)

/-- The string that `__toa` returns. -/
def CString.ofNumber (val : BitVec 64) (pmode : Byte) (opt : List Byte) : CString where
  text := toa val pmode opt
  nonzero := by
    refine forall_mem_toa (P := fun text ↦ ∀ c ∈ text, c ≠ 0) ?_ (fun _ h ↦ by cases h)
      (by decide) val pmode opt
    intro c text hc h b hb
    rw [putBack] at hb
    split at hb
    · rcases List.mem_cons.1 hb with rfl | hb
      · exact hc
      · exact h b hb
    · exact h b hb
  short := by
    refine forall_mem_toa (P := fun text ↦ text.length < 2 ^ 32) ?_ (by decide) (by decide)
      val pmode opt
    intro c text _ h
    rw [putBack]
    split
    · rename_i hlt
      exact (Nat.succ_le_of_lt hlt).trans_lt (by decide)
    · exact h

/-! ## Parsing -/

/-- A conversion, up to its type: the characters of its parts. -/
structure Directive where
  opt : List Byte
  mwidth : List Byte
  maxlen : List Byte
  mods : List Byte
deriving DecidableEq, Repr

def isFlag (c : Byte) : Bool := c ∈ ['0', ' ', '+', '-', '#'].map chr

def isDigit (c : Byte) : Bool := chr '0' ≤ c && c ≤ chr '9'

def isMod (c : Byte) : Bool := c ∈ ['l', 'h'].map chr

/-- The loops of `vprintf` after a `%`: the conversion, and the rest of the format from its type
on. -/
def parse (p : List Byte) : Directive × List Byte :=
  let opt := p.takeWhile isFlag
  let p := p.dropWhile isFlag
  let mwidth := p.takeWhile isDigit
  let p := p.dropWhile isDigit
  let prec := match p with
    | [] => ([], [])
    | c :: q => if c = chr '.' then (q.takeWhile isDigit, q.dropWhile isDigit) else ([], p)
  (⟨opt, mwidth, prec.1, prec.2.takeWhile isMod⟩, prec.2.dropWhile isMod)

theorem length_parse_le (p : List Byte) : (parse p).2.length ≤ p.length := by
  have hdrop (f : Byte → Bool) (q : List Byte) : (q.dropWhile f).length ≤ q.length :=
    (List.dropWhile_sublist f).length_le
  rw [parse]
  dsimp only
  refine (hdrop _ _).trans (le_trans ?_ ((hdrop isDigit _).trans (hdrop isFlag p)))
  split
  · exact Nat.zero_le _
  · rename_i c q heq
    split
    · rw [heq]
      exact (hdrop isDigit q).trans (Nat.le_succ _)
    · rfl

/-- `va_list`: the value of each argument, at the type that it is fetched with.  An `int` and a
`long` have 32 bits. -/
structure VaList where
  int : Nat → BitVec 32
  int64 : Nat → BitVec 64
  str : Nat → Option CString

/-- The number that is fetched for a conversion.  The two types in `OP_VA_ARG` are joined by a
conditional, whose type is the unsigned one, so a sign is not extended. -/
def fetch (lmod hmod : Nat) (ap : VaList) (k : Nat) : BitVec 64 :=
  if 2 ≤ lmod then ap.int64 k
  else if lmod ≠ 0 then (ap.int k).setWidth 64
  else if hmod ≠ 0 then (ap.int k &&& 0xffff).setWidth 64
  else (ap.int k).setWidth 64

/-- The text of a conversion, and the number of the next argument. -/
structure Source where
  str : CString
  isStr : Bool
  next : Nat

/-- The text of a conversion of type `c`, if there is such a type. -/
def convert (d : Directive) (c : Byte) (ap : VaList) (k : Nat) : Option Source :=
  if c = chr '%' then some ⟨.ofChar (chr '%'), false, k⟩
  else if c = chr 'c' then some ⟨.ofChar ((ap.int k).setWidth 8), false, k + 1⟩
  else if c = chr 's' then some ⟨(ap.str k).getD .null, true, k + 1⟩
  else if c ∈ ['p', 'd', 'X', 'x', 'u', 'o', 'b'].map chr then
    let lmod := if c = chr 'p' then 1 else d.mods.count (chr 'l')
    some ⟨.ofNumber (fetch lmod (d.mods.count (chr 'h')) ap k) c d.opt, false, k + 1⟩
  else none

/-- What a format asks for: a character, or the text of the `j`-th conversion. -/
inductive Item
  | lit (c : Byte)
  | field (j : Nat) (d : Directive) (s : Source)

/-- The items of a format, from the `j`-th conversion and the `k`-th argument on.  A type that is
not known ends it, and so does the end of the format. -/
def items (ap : VaList) (j k : Nat) (p : List Byte) : List Item :=
  (p.takeWhile (· ≠ chr '%')).map .lit ++
    match _hp : p.dropWhile (· ≠ chr '%') with
    | [] => []
    | _ :: q =>
      match _hq : (parse q).2 with
      | [] => []
      | c :: r =>
        match convert (parse q).1 c ap k with
        | none => ['<', '?', '>'].map fun c ↦ .lit (chr c)
        | some s => .field j (parse q).1 s :: items ap (j + 1) s.next r
termination_by p.length
decreasing_by
  have hdrop := (List.dropWhile_sublist (l := p) (· ≠ chr '%')).length_le
  have hparse := length_parse_le q
  rw [_hp] at hdrop
  rw [_hq] at hparse
  exact Nat.lt_of_succ_le (hparse.trans ((Nat.le_succ _).trans hdrop))

/-! ## Output -/

/-- A number in a format, as `vprintf` reads it. -/
def number (ds : List Byte) : BitVec 32 :=
  ds.foldl (fun n c ↦ n * 10 + (c - chr '0').setWidth 32) 0

/-- A number in a format. -/
def numberOf (ds : List Byte) : Nat := ds.foldl (fun n c ↦ n * 10 + (c - chr '0').toNat) 0

/-- `while (len++ < mwidth)`: how often. -/
def padding (len mwidth : BitVec 32) : Nat :=
  if len < mwidth then padding (len + 1) mwidth + 1 else 0
termination_by mwidth.toNat - len.toNat
decreasing_by
  bv_omega

/-- What is put out for a conversion, and how many bytes of its string are read. -/
structure Field where
  left : Bool
  fill : Byte
  pad : Nat
  text : List Byte
  reads : Nat
deriving DecidableEq, Repr

/-- The end of the loop of `vprintf`. -/
def putField (d : Directive) (str : CString) (beyond : Nat → Byte) : Field :=
  let mwidth := number d.mwidth
  let len := BitVec.ofNat 32 str.text.length
  let maxlen := if number d.maxlen = 0 then len else number d.maxlen
  let len := if maxlen < len then maxlen else len
  let left := decide (chr '-' ∈ d.opt)
  { left
    fill := if left then chr ' ' else if chr '0' ∈ d.opt then chr '0' else chr ' '
    pad := padding len mwidth
    text := (List.range maxlen.toNat).map (str.byteAt beyond)
    reads := max (str.text.length + 1) maxlen.toNat }

/-- What is put out for an item. -/
inductive Piece
  | lit (c : Byte)
  | field (f : Field)
deriving DecidableEq, Repr

/-- What is put out for an item; `beyond j` is what is in memory after the text of the `j`-th
conversion. -/
def put (beyond : Nat → Nat → Byte) : Item → Piece
  | .lit c => .lit c
  | .field j d s => .field (putField d s.str (beyond j))

/-- `vprintf`, piece by piece. -/
def pieces (fmt : CString) (ap : VaList) (beyond : Nat → Nat → Byte) : List Piece :=
  (items ap 0 0 fmt.text).map (put beyond)

/-- The calls of `putc` for a piece. -/
def Piece.bytes : Piece → List Byte
  | lit c => [c]
  | field f =>
    let padding := List.replicate f.pad f.fill
    if f.left then f.text ++ padding else padding ++ f.text

end Mh.Logio

/-!
## The fields of `printf`

A precision shortens the text of a conversion, and a width makes it longer.  `vprintf` puts out as
many bytes as the precision says, if it says anything, so a precision beyond the end of the text
puts out what comes after it.  Both numbers are read modulo `2 ^ 32`.
-/

namespace Mh.Logio

/-- The text of a conversion, cut off where the precision says. -/
def Directive.cut (d : Directive) (text : List Byte) : List Byte :=
  if numberOf d.maxlen = 0 then text else text.take (numberOf d.maxlen)

/-- Some text, padded up to the width: with blanks after it if there is a `-`, and before it with
blanks or zeros otherwise. -/
def Directive.pad (d : Directive) (text : List Byte) : List Byte :=
  let n := numberOf d.mwidth - text.length
  if chr '-' ∈ d.opt then text ++ List.replicate n (chr ' ')
  else List.replicate n (if chr '0' ∈ d.opt then chr '0' else chr ' ') ++ text

/-- What is to be put out for an item: a character, or the text of a conversion as it is cut off,
padded. -/
def Item.bytes : Item → List Byte
  | lit c => [c]
  | field _ d s => d.pad (d.cut s.str.text)

/-- The width is less than `2 ^ 32`, the precision as it is read is no more than the text, and it is
the precision, or as good as that. -/
def Fits (d : Directive) (str : CString) : Prop :=
  numberOf d.mwidth < 2 ^ 32 ∧ numberOf d.maxlen % 2 ^ 32 ≤ str.text.length ∧
    (numberOf d.maxlen < 2 ^ 32 ∨ numberOf d.maxlen % 2 ^ 32 = 0 ∨
      numberOf d.maxlen % 2 ^ 32 = str.text.length)

/-! ## Numbers -/

section

variable {d : Directive} {s : Source} {str : CString} {beyond : Nat → Byte}

end

end Mh.Logio
