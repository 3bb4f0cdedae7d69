import Mh.Console.Vga

/-!
# Characters and positions on their way to the console

`lib/libvtty/consio/consio_vtdrv.c` packs a character, its attributes and its colours into the word
that it writes to `CONSIO_OUTDATA`, and a position into the one for `CONSIO_OUTPOS`; the console
unpacks them in `outdata_update` and `outpos_do`.

The fields are added, not ored, and the character and the attributes are of type `char`, which has a
sign on i386: a byte from 128 on borrows from the field above it.
-/

namespace Mh.Vtty

open Mh.Console

/-- `vtdrv_set_attr`: the value of `cur_attr`. -/
def vtdrvSetAttr (attr : BitVec 8) : BitVec 32 := attr.signExtend 32

/-- `vtdrv_set_color`: the value of `cur_colattr`. -/
def vtdrvSetColor (colattr : BitVec 32) : BitVec 32 := colattr

/-- `vtdrv_putc`: the word that is sent. -/
def vtdrvPutc (curAttr curColattr : BitVec 32) (c : BitVec 8) : BitVec 64 :=
  ((curColattr <<< 16) + (curAttr <<< 8) + c.signExtend 32).setWidth 64

/-- `vtdrv_goto`: the word that is sent. -/
def vtdrvGoto (x y : BitVec 16) : BitVec 64 :=
  ((y.signExtend 32 <<< 16) + x.signExtend 32).setWidth 64

variable {attr c : BitVec 8} {colattr : BitVec 32} {x y : BitVec 16}

/-- A byte as an `int`. -/
theorem toNat_signExtend_byte (b : BitVec 8) :
    (b.signExtend 32).toNat = if b.toNat < 128 then b.toNat else b.toNat + (2 ^ 32 - 256) := by
  have hb := b.isLt
  rw [BitVec.toNat_signExtend, BitVec.toNat_setWidth, BitVec.msb_eq_decide]
  simp only [decide_eq_true_eq]
  split <;> split <;> omega

/-- A `short` that is not negative, as an `int`. -/
theorem toNat_signExtend_short {b : BitVec 16} (hb : b.toNat < 2 ^ 15) :
    (b.signExtend 32).toNat = b.toNat := by
  rw [BitVec.toNat_signExtend, BitVec.toNat_setWidth, BitVec.msb_eq_decide]
  simp only [decide_eq_true_eq]
  split <;> omega

/-- The fields of a word, as the console reads them. -/
theorem outdataDecode_eq (val : Nat) :
    outdataDecode val = (val % 256, val / 256 % 256, val / 65536 % 256) := by
  have hand (n : Nat) : n &&& 0xff = n % 256 := Nat.and_two_pow_sub_one_eq_mod n 8
  rw [outdataDecode, hand, hand, hand, Nat.shiftRight_eq_div_pow, Nat.shiftRight_eq_div_pow]

theorem outposDecode_eq (val : Nat) : outposDecode val = (val % 65536, val / 65536 % 2 ^ 32) := by
  have hand : val &&& 0xffff = val % 65536 := Nat.and_two_pow_sub_one_eq_mod val 16
  rw [outposDecode, hand, Nat.shiftRight_eq_div_pow]

/-- The word for a character, as a sum. -/
theorem toNat_vtdrvPutc (curAttr curColattr : BitVec 32) (c : BitVec 8) :
    (vtdrvPutc curAttr curColattr c).toNat =
      (curColattr.toNat * 65536 + curAttr.toNat * 256 + (c.signExtend 32).toNat) % 2 ^ 32 := by
  rw [vtdrvPutc, BitVec.toNat_setWidth_of_le (by decide), BitVec.toNat_add, BitVec.toNat_add,
    BitVec.toNat_shiftLeft, BitVec.toNat_shiftLeft, Nat.shiftLeft_eq, Nat.shiftLeft_eq]
  omega

/-- The word for a position on the first 2 ^ 15 columns and lines. -/
theorem toNat_vtdrvGoto (hx : x.toNat < 2 ^ 15) (hy : y.toNat < 2 ^ 15) :
    (vtdrvGoto x y).toNat = y.toNat * 65536 + x.toNat := by
  rw [vtdrvGoto, BitVec.toNat_setWidth_of_le (by decide), BitVec.toNat_add,
    BitVec.toNat_shiftLeft, Nat.shiftLeft_eq, toNat_signExtend_short hx, toNat_signExtend_short hy]
  omega

/-- The console gets a character with its attributes and colours as they were set if and only if
the character and the attributes are below 128. -/
theorem putc_decoded_iff (attr c : BitVec 8) (colattr : BitVec 32) :
    outdataDecode (vtdrvPutc (vtdrvSetAttr attr) (vtdrvSetColor colattr) c).toNat =
        (c.toNat, attr.toNat, colattr.toNat % 256) ↔ c.toNat < 128 ∧ attr.toNat < 128 := by
  have hc := c.isLt
  have ha := attr.isLt
  have hk := colattr.isLt
  rw [outdataDecode_eq, toNat_vtdrvPutc, vtdrvSetAttr, vtdrvSetColor, toNat_signExtend_byte,
    toNat_signExtend_byte, Prod.mk.injEq, Prod.mk.injEq]
  split <;> split <;> omega

/-- And it gets every position with coordinates that are not negative. -/
theorem goto_decoded (hx : x.toNat < 2 ^ 15) (hy : y.toNat < 2 ^ 15) :
    outposDecode (vtdrvGoto x y).toNat = (x.toNat, y.toNat) := by
  rw [outposDecode_eq, toNat_vtdrvGoto hx hy, Prod.mk.injEq]
  omega

/-- What a client sends is what the console gets, for characters and attributes below 128 and only
for these, and for all positions. -/
theorem output_decoded_iff (attr c : BitVec 8) (colattr : BitVec 32) :
    (outdataDecode (vtdrvPutc (vtdrvSetAttr attr) (vtdrvSetColor colattr) c).toNat =
        (c.toNat, attr.toNat, colattr.toNat % 256) ↔ c.toNat < 128 ∧ attr.toNat < 128) ∧
    ∀ x y : BitVec 16, x.toNat < 2 ^ 15 → y.toNat < 2 ^ 15 →
      outposDecode (vtdrvGoto x y).toNat = (x.toNat, y.toNat) :=
  ⟨putc_decoded_iff attr c colattr, fun _ _ hx hy ↦ goto_decoded hx hy⟩

/-- The character 0xe9, without attributes and in colours 0x70, comes with all attributes and in
colours 0x6f. -/
theorem output_garbled :
    outdataDecode (vtdrvPutc (vtdrvSetAttr 0) (vtdrvSetColor 0x70) 0xe9).toNat =
      (0xe9, 0xff, 0x6f) := by
  decide

end Mh.Vtty
