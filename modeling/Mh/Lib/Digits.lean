import Mathlib.Algebra.Order.Ring.Nat
import Mathlib.Logic.Function.Basic
import Mathlib.Tactic.Common

/-!
# Memory of bytes

A memory gives a byte at every address.  A value of `n` bytes is stored with its lowest byte
first: `store` writes it, `load` reads it back, and the bytes outside of `[a, a + n)` stay as they
are.  `storeWords` stores words of 32 bits one after another, as the fields of a structure.
-/

namespace Mh.Lib.Bytes

/-- A byte at every address. -/
abbrev Mem := Nat → BitVec 8

variable {m m' : Mem} {a b n k x : Nat}

/-- The number that `n` bytes are, the lowest byte first. -/
def loadNat (m : Mem) (a : Nat) : Nat → Nat
  | 0 => 0
  | n + 1 => (m a).toNat + 2 ^ 8 * loadNat m (a + 1) n

/-- The lowest `n` bytes of a number, the lowest byte first. -/
def storeNat (m : Mem) (a : Nat) : Nat → Nat → Mem
  | 0, _ => m
  | n + 1, v => storeNat (Function.update m a (.ofNat 8 v)) (a + 1) n (v / 2 ^ 8)

/-- Read `n` bytes. -/
def load (m : Mem) (a n : Nat) : BitVec (8 * n) := .ofNat _ (loadNat m a n)

/-- Write `n` bytes. -/
def store (m : Mem) (a : Nat) (v : BitVec (8 * n)) : Mem := storeNat m a n v.toNat

/-! ## Bytes that stay -/

theorem storeNat_outside (h : x < a ∨ a + n ≤ x) (v : Nat) : storeNat m a n v x = m x := by
  induction n generalizing m a v with
  | zero => rfl
  | succ n ih => rw [storeNat, ih (by omega), Function.update_of_ne (by omega)]

theorem store_outside (h : x < a ∨ a + n ≤ x) (v : BitVec (8 * n)) : store m a v x = m x :=
  storeNat_outside h _

/-! ## What is read back -/

theorem loadNat_congr (h : ∀ x, a ≤ x → x < a + n → m' x = m x) :
    loadNat m' a n = loadNat m a n := by
  induction n generalizing a with
  | zero => rfl
  | succ n ih =>
      rw [loadNat, loadNat, h a (Nat.le_refl a) (by omega),
        ih fun x hx hx' ↦ h x (by omega) (by omega)]

/-- A value depends on its own bytes. -/
theorem load_congr (h : ∀ x, a ≤ x → x < a + n → m' x = m x) : load m' a n = load m a n :=
  congrArg _ (loadNat_congr h)

theorem loadNat_storeNat (m : Mem) (a n v : Nat) :
    loadNat (storeNat m a n v) a n = v % 2 ^ (8 * n) := by
  induction n generalizing m a v with
  | zero => exact (Nat.mod_one v).symm
  | succ n ih =>
      rw [loadNat, storeNat, ih, storeNat_outside (by omega), Function.update_self,
        BitVec.toNat_ofNat, Nat.mul_succ, Nat.add_comm (8 * n) 8, Nat.pow_add, Nat.mod_mul]

/-- What is stored is read back. -/
@[simp] theorem load_store (m : Mem) (a : Nat) (v : BitVec (8 * n)) :
    load (store m a v) a n = v := by
  apply BitVec.eq_of_toNat_eq
  rw [load, store, loadNat_storeNat, Nat.mod_eq_of_lt v.isLt, BitVec.toNat_ofNat,
    Nat.mod_eq_of_lt v.isLt]

/-! ## Words -/

/-- Store words one after another. -/
def storeWords (m : Mem) (a : Nat) : List (BitVec 32) → Mem
  | [] => m
  | w :: ws => storeWords (store (n := 4) m a w) (a + 4) ws

theorem storeWords_outside {ws : List (BitVec 32)} (h : x < a ∨ a + 4 * ws.length ≤ x) :
    storeWords m a ws x = m x := by
  induction ws generalizing m a with
  | nil => rfl
  | cons w ws ih =>
      rw [List.length_cons] at h
      rw [storeWords, ih (by omega), store_outside (by omega)]

/-- A word that is stored is read back. -/
theorem load_storeWords {ws : List (BitVec 32)} {i : Nat} (h : i < ws.length) :
    load (storeWords m a ws) (a + 4 * i) 4 = ws[i] := by
  induction ws generalizing m a i with
  | nil => cases h
  | cons w ws ih =>
      rw [storeWords]
      cases i with
      | zero =>
          rw [load_congr (m := store (n := 4) m a w) fun x _ hx ↦ storeWords_outside (by omega)]
          exact load_store (n := 4) m a w
      | succ i =>
          have hi := ih (m := store (n := 4) m a w) (a := a + 4) (Nat.lt_of_succ_lt_succ h)
          rwa [show a + 4 + 4 * i = a + 4 * (i + 1) by omega] at hi

end Mh.Lib.Bytes

/-!
## Numerals with their first digit on top

`frac b ds n` is the number whose `n` digits in base `b` begin with `ds` and go on with zeros.
It is the value of a left-justified field, so it is compared and taken apart from the top: its
first digit is the quotient by `b ^ (n - 1)`, and the remainder times `b` is the field of the
other digits.
-/

namespace Mh.Lib

variable {b d n : Nat} {ds : List Nat}

/-- The number whose `n` digits begin with `ds`. -/
def frac (b : Nat) : List Nat → Nat → Nat
  | [], _ => 0
  | _ :: _, 0 => 0
  | d :: ds, n + 1 => d * b ^ n + frac b ds n

@[simp] theorem frac_nil (b n : Nat) : frac b [] n = 0 := rfl

theorem frac_cons (b d n : Nat) (ds : List Nat) :
    frac b (d :: ds) (n + 1) = d * b ^ n + frac b ds n := rfl

/-- A field of `n` digits is below `b ^ n`. -/
theorem frac_lt (hb : 0 < b) (hds : ∀ d ∈ ds, d < b) : frac b ds n < b ^ n := by
  induction ds generalizing n with
  | nil => exact Nat.pow_pos hb
  | cons d ds ih =>
      cases n with
      | zero => exact Nat.pow_pos hb
      | succ n =>
          have hd : d + 1 ≤ b := hds d List.mem_cons_self
          have hrest : frac b ds n < b ^ n := ih fun d hd ↦ hds d (List.mem_cons_of_mem _ hd)
          calc frac b (d :: ds) (n + 1) < d * b ^ n + b ^ n := Nat.add_lt_add_left hrest _
            _ = (d + 1) * b ^ n := (Nat.succ_mul d (b ^ n)).symm
            _ ≤ b * b ^ n := Nat.mul_le_mul_right _ hd
            _ = b ^ (n + 1) := (Nat.pow_succ').symm

/-- One more place is one more zero. -/
theorem frac_succ (hn : ds.length ≤ n) : frac b ds (n + 1) = frac b ds n * b := by
  induction ds generalizing n with
  | nil => exact (Nat.zero_mul b).symm
  | cons d ds ih =>
      cases n with
      | zero => exact absurd hn (Nat.not_succ_le_zero _)
      | succ n =>
          rw [frac_cons, frac_cons, ih (Nat.le_of_succ_le_succ hn), Nat.add_mul, Nat.mul_assoc,
            Nat.pow_succ]

/-- A field whose last digit is not zero is not zero. -/
theorem frac_pos (hb : 0 < b) (hn : ds.length ≤ n) (hne : ds ≠ [])
    (hlast : ds.getLast? ≠ some 0) : 0 < frac b ds n := by
  induction ds generalizing n with
  | nil => exact absurd rfl hne
  | cons d ds ih =>
      cases n with
      | zero => exact absurd hn (Nat.not_succ_le_zero _)
      | succ n =>
          rw [frac_cons]
          cases ds with
          | nil =>
              have hd : 0 < d := Nat.pos_of_ne_zero fun h ↦ hlast (by rw [h]; rfl)
              exact Nat.add_pos_left (Nat.mul_pos hd (Nat.pow_pos hb)) _
          | cons d' ds =>
              rw [List.getLast?_cons_cons] at hlast
              exact Nat.add_pos_right _
                (ih (Nat.le_of_succ_le_succ hn) (List.cons_ne_nil _ _) hlast)

/-- The first digit. -/
theorem frac_div (hb : 0 < b) (hds : ∀ d ∈ ds, d < b) :
    frac b (d :: ds) (n + 1) / b ^ n = d := by
  rw [frac_cons, Nat.add_comm, Nat.add_mul_div_right _ _ (Nat.pow_pos hb),
    Nat.div_eq_of_lt (frac_lt hb hds), Nat.zero_add]

/-- The other digits. -/
theorem frac_mod (hb : 0 < b) (hds : ∀ d ∈ ds, d < b) :
    frac b (d :: ds) (n + 1) % b ^ n = frac b ds n := by
  rw [frac_cons, Nat.add_comm, Nat.add_mul_mod_self_right, Nat.mod_eq_of_lt (frac_lt hb hds)]

/-- Places behind the last digit are zeros. -/
theorem frac_add (hn : ds.length ≤ n) (k : Nat) : frac b ds (n + k) = frac b ds n * b ^ k := by
  induction k with
  | zero => rw [Nat.pow_zero, Nat.mul_one, Nat.add_zero]
  | succ k ih =>
      rw [← Nat.add_assoc, frac_succ (Nat.le_trans hn (Nat.le_add_right n k)), ih, Nat.mul_assoc,
        ← Nat.pow_succ]

/-- A field that two lists of digits share. -/
theorem frac_append (ds es : List Nat) (n : Nat) :
    frac b (ds ++ es) (ds.length + n) = frac b ds ds.length * b ^ n + frac b es n := by
  induction ds with
  | nil => rw [List.nil_append, List.length_nil, frac_nil, Nat.zero_mul, Nat.zero_add, Nat.zero_add]
  | cons d ds ih =>
      rw [List.cons_append, List.length_cons, Nat.succ_add, frac_cons, ih, frac_cons, Nat.pow_add,
        Nat.add_mul, Nat.mul_assoc, Nat.add_assoc]

/-- Digits for which there is no place do not count. -/
theorem frac_take (b : Nat) (ds : List Nat) (n : Nat) : frac b (ds.take n) n = frac b ds n := by
  induction ds generalizing n with
  | nil => rw [List.take_nil]
  | cons d ds ih =>
      cases n with
      | zero => rfl
      | succ n => rw [List.take_succ_cons, frac_cons, frac_cons, ih]

/-- The last digit. -/
theorem frac_concat_mod (ds : List Nat) (hd : d < b) :
    frac b (ds ++ [d]) (ds.length + 1) % b = d := by
  rw [frac_append, Nat.pow_one, frac_cons, frac_nil, Nat.pow_zero, Nat.mul_one, Nat.add_zero,
    Nat.mul_comm, Nat.mul_add_mod, Nat.mod_eq_of_lt hd]

end Mh.Lib
