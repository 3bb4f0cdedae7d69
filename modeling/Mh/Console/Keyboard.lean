import Mathlib.Algebra.Order.Ring.Nat
import Mathlib.Data.List.Induction
import Mathlib.Tactic.Common

/-!
# Scan codes

`getkey` of `sys/bootstrap/console-kbd_.c`, which turns the bytes of the keyboard controller into
keys, one at a time.  The bits of `state` are the fields of `KbdState`; `ST_CAP` is not used, and
nothing sets `ST_NUM`.

What the bytes stand for is said without `getkey`: `Typed` reads them one by one, and keeps the keys
that have been made and broken.  `getkey` returns those keys, and has the bits of the modifiers that
are down, but for the extended keys.  A byte of 0xe0 announces one, and is not recognized: by the
time it is compared `getkey` has cleared its high bit.  So the code that follows is looked up in the
maps of the other keys (`getkey_meets_iff`).
-/

namespace Mh.Console

/-! ## Keys -/

/-- `K_BS`. -/
def kBs : Nat := 8

/-- `K_HT`. -/
def kHt : Nat := 9

/-- `K_ENT`. -/
def kEnt : Nat := 10

/-- `K_ESC`. -/
def kEsc : Nat := 27

/-- `K_F1`, and the nine keys after it. -/
def kF1 : Nat := 257

/-- `K_HOME`. -/
def kHome : Nat := 267

/-- `K_PGUP`. -/
def kPgup : Nat := 268

/-- `K_UP`. -/
def kUp : Nat := 269

/-- `K_LT`. -/
def kLt : Nat := 270

/-- `K_RT`. -/
def kRt : Nat := 271

/-- `K_DN`. -/
def kDn : Nat := 272

/-- `K_END`. -/
def kEnd : Nat := 273

/-- `K_PGDN`. -/
def kPgdn : Nat := 274

/-- `K_INS`. -/
def kIns : Nat := 275

/-- `K_DEL`. -/
def kDel : Nat := 276

/-- `K_CAP`. -/
def kCap : Nat := 279

/-- `K_NUM`. -/
def kNum : Nat := 280

/-- `K_SCL`. -/
def kScl : Nat := 281

/-- `K_CTL`. -/
def kCtl : Nat := 283

/-- `K_ALT`. -/
def kAlt : Nat := 284

/-- `K_SFT`. -/
def kSft : Nat := 285

/-- `K_PSCR`. -/
def kPscr : Nat := 286

/-- `K_BRK`. -/
def kBrk : Nat := 287

/-- `K_SYS`. -/
def kSys : Nat := 288

/-- `M_CTL`. -/
def mCtl : Nat := 512

/-- `M_ALT`. -/
def mAlt : Nat := 1024

/-- `M_SFT`. -/
def mSft : Nat := 2048

/-! ## Maps -/

/-- `MAX_SCAN_CODE`. -/
def maxScanCode : Nat := 0x55

/-- An array given by some of its entries; the others are 0. -/
def keymapOf (l : List (Nat × Nat)) (sc : Nat) : Nat := (l.lookup sc).getD 0

/-- `fix_keymap`. -/
def fixKeymap : Nat → Nat :=
  keymapOf [(0x01, kEsc), (0x0e, kBs), (0x0f, kHt), (0x1c, kEnt), (0x3a, kCap), (0x3b, kF1),
    (0x3c, kF1 + 1), (0x3d, kF1 + 2), (0x3e, kF1 + 3), (0x3f, kF1 + 4), (0x40, kF1 + 5),
    (0x41, kF1 + 6), (0x42, kF1 + 7), (0x43, kF1 + 8), (0x44, kF1 + 9), (0x45, kNum),
    (0x46, kScl), (0x54, kSys)]

/-- `mod_keymap`. -/
def modKeymap : Nat → Nat :=
  keymapOf [(0x1d, kCtl), (0x2a, kSft), (0x36, kSft), (0x38, kAlt)]

/-- `ext_keymap`. -/
def extKeymap : Nat → Nat :=
  keymapOf [(0x1c, kEnt), (0x1d, kCtl), (0x35, '/'.toNat), (0x37, kPscr), (0x38, kAlt),
    (0x46, kBrk), (0x47, kHome), (0x48, kUp), (0x49, kPgup), (0x4b, kLt), (0x4d, kRt),
    (0x4f, kEnd), (0x50, kDn), (0x51, kPgdn), (0x52, kIns), (0x53, kDel)]

/-- `pad_keymap_n`. -/
def padKeymapN : Nat → Nat :=
  keymapOf [(0x37, '*'.toNat), (0x47, '7'.toNat), (0x48, '8'.toNat), (0x49, '9'.toNat),
    (0x4a, '-'.toNat), (0x4b, '4'.toNat), (0x4c, '5'.toNat), (0x4d, '6'.toNat), (0x4e, '+'.toNat),
    (0x4f, '1'.toNat), (0x50, '2'.toNat), (0x51, '3'.toNat), (0x52, '0'.toNat), (0x53, '.'.toNat)]

/-- `pad_keymap`. -/
def padKeymap : Nat → Nat :=
  keymapOf [(0x37, '*'.toNat), (0x47, kHome), (0x48, kUp), (0x49, kPgup), (0x4a, '-'.toNat),
    (0x4b, kLt), (0x4c, 0), (0x4d, kRt), (0x4e, '+'.toNat), (0x4f, kEnd), (0x50, kDn),
    (0x51, kPgdn), (0x52, 0), (0x53, '.'.toNat)]

/-- `us_keymap`, from its first entry on.  The numbers are the quote, the backquote and the
backslash. -/
def usKeymap (sc : Nat) : Nat :=
  ([0, 0] ++ ['1', '2', '3', '4', '5', '6', '7', '8', '9', '0', '-', '='].map Char.toNat ++
    [0, 0] ++ ['q', 'w', 'e', 'r', 't', 'y', 'u', 'i', 'o', 'p', '[', ']'].map Char.toNat ++
    [0, 0] ++ ['a', 's', 'd', 'f', 'g', 'h', 'j', 'k', 'l', ';'].map Char.toNat ++ [39] ++
    [96, 0, 92] ++ ['z', 'x', 'c', 'v', 'b', 'n', 'm', ',', '.', '/'].map Char.toNat ++ [0] ++
    [0, 0, 32]).getD sc 0

/-- `us_keymap_s`; here the numbers are the double quote, the tilde, the bar and the braces.  The
row that ends in the question mark has no entry after it, so that the blank is one place early. -/
def usKeymapS (sc : Nat) : Nat :=
  ([0, 0] ++ ['!', '@', '#', '$', '%', '^', '&', '*', '(', ')', '_', '+'].map Char.toNat ++
    [0, 0] ++ ['Q', 'W', 'E', 'R', 'T', 'Y', 'U', 'I', 'O', 'P'].map Char.toNat ++ [123, 125] ++
    [0, 0] ++ ['A', 'S', 'D', 'F', 'G', 'H', 'J', 'K', 'L', ':'].map Char.toNat ++ [34] ++
    [126, 0, 124] ++ ['Z', 'X', 'C', 'V', 'B', 'N', 'M', '<', '>', '?'].map Char.toNat ++
    [0, 0, 32]).getD sc 0

/-! ## `getkey` -/

/-- `state`. -/
structure KbdState where
  sft : Bool
  ctl : Bool
  alt : Bool
  ex0 : Bool
  num : Bool
deriving DecidableEq, Repr

/-- `state` at first. -/
def KbdState.init : KbdState := ⟨false, false, false, false, false⟩

/-- `sc & SC_REL`. -/
def scRel (sc : BitVec 8) : Bool := sc &&& 0x80 ≠ 0

/-- `sc` after `sc &= ~SC_REL`; a `char` has a sign. -/
def scCode (sc : BitVec 8) : Int := ((sc.signExtend 32 &&& ~~~0x80).setWidth 8).toInt

/-- The maps of the keys that are not extended. -/
def plainKey (st : KbdState) (sc : Nat) : Nat :=
  let key := if st.sft then usKeymapS sc else usKeymap sc
  let key := if key = 0 then fixKeymap sc else key
  let key := if key = 0 then modKeymap sc else key
  if key = 0 then (if st.num then padKeymapN sc else padKeymap sc) else key

/-- A modifier key: `set` is its bit of the state. -/
def modKey (raw rel : Bool) (k : Nat) (set : KbdState → Bool → KbdState) (x : Nat × KbdState) :
    Nat × KbdState :=
  if x.1 = k then (if raw then x.1 else 0, set x.2 (!rel)) else x

/-- `getkey`, from the modifiers on. -/
def processKey (raw rel : Bool) (key : Nat) (st : KbdState) : Nat × KbdState :=
  let (key, st) := modKey raw rel kAlt (fun st b ↦ { st with alt := b })
    (modKey raw rel kSft (fun st b ↦ { st with sft := b })
      (modKey raw rel kCtl (fun st b ↦ { st with ctl := b }) (key, st)))
  if ¬ raw ∧ rel then (0, st)
  else if key = 0 then (0, st)
  else if raw then (key, st)
  else
    let key := key ||| (if st.alt then mAlt else 0) ||| (if st.sft then mSft else 0) |||
      (if st.ctl then mCtl else 0)
    (if key = kEnt ∨ key = kBs then key &&& (2 ^ 32 - 1 - (mAlt ||| mSft ||| mCtl)) else key, st)

/-- `getkey`; `raw` is `console_kbd_raw`. -/
def getkey (raw : Bool) (st : KbdState) (sc : BitVec 8) : Nat × KbdState :=
  let code := scCode sc
  if code = 0xe0 then (0, { st with ex0 := true })
  else if (maxScanCode : Int) ≤ code then (0, st)
  else if st.ex0 then processKey raw (scRel sc) (extKeymap code.toNat) { st with ex0 := false }
  else processKey raw (scRel sc) (plainKey st code.toNat) st

/-- The state after some bytes. -/
def kbdRun (raw : Bool) (bytes : List (BitVec 8)) : KbdState :=
  bytes.foldl (fun st sc ↦ (getkey raw st sc).2) .init

/-! ## What the bytes stand for -/

/-- The key of a code: that of the first map which has one, with the shifted map when shift is
down; or, of an extended code, that of the map of the extended keys. -/
def decodedKey (ext shift : Bool) (code : Nat) : Nat :=
  if ext then extKeymap code
  else
    (([if shift then usKeymapS else usKeymap, fixKeymap, modKeymap, padKeymap].map (· code)).find?
      (· ≠ 0)).getD 0

/-- A key of which only whether it is down counts. -/
def IsMod (key : Nat) : Prop := key = kSft ∨ key = kCtl ∨ key = kAlt

instance (key : Nat) : Decidable (IsMod key) := inferInstanceAs (Decidable (_ ∨ _ ∨ _))

/-- The last event of a key is a make; an event is a key, and whether it is a break. -/
def lastMake (key : Nat) (events : List (Nat × Bool)) : Bool :=
  ((events.filter (·.1 = key)).getLast?).elim false (!·.2)

/-- What has been typed: whether the last byte was 0xe0, and the events. -/
structure Typed where
  ext : Bool
  events : List (Nat × Bool)
deriving DecidableEq, Repr

namespace Typed

/-- The event of a byte, if it is a code. -/
def event (ty : Typed) (sc : BitVec 8) : Option (Nat × Bool) :=
  if sc = 0xe0 ∨ maxScanCode ≤ sc.toNat % 128 then none
  else some (decodedKey ty.ext (lastMake kSft ty.events) (sc.toNat % 128), 128 ≤ sc.toNat)

/-- One byte more. -/
def next (ty : Typed) (sc : BitVec 8) : Typed :=
  ⟨sc = 0xe0, ty.events ++ (ty.event sc).toList⟩

end Typed

/-- What the bytes stand for. -/
def typed (bytes : List (BitVec 8)) : Typed := bytes.foldl Typed.next ⟨false, []⟩

/-- The marks of the modifiers that are down. -/
def marks (events : List (Nat × Bool)) : Nat :=
  (if lastMake kAlt events then mAlt else 0) ||| (if lastMake kSft events then mSft else 0) |||
    (if lastMake kCtl events then mCtl else 0)

/-- The key to return for an event that comes after others: in raw mode the key itself; in cooked
mode none for a break or a modifier, and the marked key otherwise. -/
def returnedKey (raw : Bool) (events : List (Nat × Bool)) (e : Nat × Bool) : Nat :=
  if raw then e.1 else if e.2 ∨ e.1 = 0 ∨ IsMod e.1 then 0 else e.1 ||| marks events

/-- What `getkey` is to do with a byte that comes after others: return the key of its event, and
have the bits of the modifiers that are down. -/
structure KeyMeets (raw : Bool) (bytes : List (BitVec 8)) (sc : BitVec 8) : Prop where
  key : (getkey raw (kbdRun raw bytes) sc).1 =
    ((typed bytes).event sc).elim 0 (returnedKey raw (typed bytes).events)
  sft : (kbdRun raw (bytes ++ [sc])).sft = lastMake kSft (typed (bytes ++ [sc])).events
  ctl : (kbdRun raw (bytes ++ [sc])).ctl = lastMake kCtl (typed (bytes ++ [sc])).events
  alt : (kbdRun raw (bytes ++ [sc])).alt = lastMake kAlt (typed (bytes ++ [sc])).events

/-- An event that does nothing in cooked mode: a modifier stays as it is; another key is let go, or
there is none. -/
def Silent (events : List (Nat × Bool)) (e : Nat × Bool) : Prop :=
  if IsMod e.1 then lastMake e.1 events = !e.2 else e.2 = true ∨ e.1 = 0

/-- A code right after 0xe0 stands for the same key in the map of the extended keys and in the
others; or, in cooked mode, neither of the two keys does anything. -/
def SameKey (raw : Bool) (bytes : List (BitVec 8)) (sc : BitVec 8) : Prop :=
  (typed bytes).ext = true → sc.toNat % 128 < maxScanCode →
    let es := (typed bytes).events
    let key (ext : Bool) := decodedKey ext (lastMake kSft es) (sc.toNat % 128)
    key true = key false ∨
      raw = false ∧ Silent es (key true, 128 ≤ sc.toNat) ∧ Silent es (key false, 128 ≤ sc.toNat)

/-! ## What `getkey` does with a byte -/

variable {raw rel : Bool} {key key' k : Nat} {st : KbdState} {sc : BitVec 8}
  {bytes : List (BitVec 8)} {es : List (Nat × Bool)}

/-- The high bit is gone. -/
theorem scCode_eq (sc : BitVec 8) : scCode sc = (sc.toNat % 128 : Nat) := by
  revert sc
  decide +kernel

/-- So it is never 0xe0. -/
theorem scCode_ne (sc : BitVec 8) : scCode sc ≠ 0xe0 := by
  rw [scCode_eq]
  omega

theorem scRel_eq (sc : BitVec 8) : scRel sc = decide (128 ≤ sc.toNat) := by
  revert sc
  decide +kernel

/-- The maps are tried one after the other. -/
theorem plainKey_eq (hnum : st.num = false) (sc : Nat) :
    plainKey st sc = decodedKey false st.sft sc := by
  have hus : (if st.sft then usKeymapS sc else usKeymap sc) =
      (if st.sft then usKeymapS else usKeymap) sc := by
    split <;> rfl
  simp only [plainKey, hnum, hus, decodedKey, Bool.false_eq_true, if_false, List.map_cons,
    List.map_nil]
  generalize (if st.sft then usKeymapS else usKeymap) sc = u
  by_cases hu : u = 0
  · by_cases hf : fixKeymap sc = 0
    · by_cases hm : modKeymap sc = 0
      · by_cases hp : padKeymap sc = 0 <;> simp [hu, hf, hm, hp]
      · simp [hu, hf, hm]
    · simp [hu, hf]
  · simp [hu]

/-- A byte that is no code does nothing. -/
theorem getkey_of_ge (hsc : maxScanCode ≤ sc.toNat % 128) : getkey raw st sc = (0, st) := by
  rw [getkey, if_neg (scCode_ne sc), scCode_eq]
  exact if_pos (Int.ofNat_le.2 hsc)

/-- A code is looked up in the maps of the keys that are not extended. -/
theorem getkey_of_lt (hex : st.ex0 = false) (hnum : st.num = false)
    (hsc : sc.toNat % 128 < maxScanCode) : getkey raw st sc =
      processKey raw (128 ≤ sc.toNat) (decodedKey false st.sft (sc.toNat % 128)) st := by
  rw [getkey, if_neg (scCode_ne sc), scCode_eq, Int.toNat_natCast, hex, plainKey_eq hnum, scRel_eq,
    if_neg fun hle ↦ Nat.not_le.2 hsc (Int.ofNat_le.1 hle)]
  exact if_neg Bool.false_ne_true

/-- What the three tests for modifiers make of a key and the state. -/
def modKeys (raw rel : Bool) (x : Nat × KbdState) : Nat × KbdState :=
  modKey raw rel kAlt (fun st b ↦ { st with alt := b })
    (modKey raw rel kSft (fun st b ↦ { st with sft := b })
      (modKey raw rel kCtl (fun st b ↦ { st with ctl := b }) x))

/-- A key passes the test for another modifier, and so does the 0 that a modifier leaves. -/
theorem modKey_of_ne {set : KbdState → Bool → KbdState} {x : Nat × KbdState} (h : x.1 ≠ k) :
    modKey raw rel k set x = x := if_neg h

theorem modKey_self {set : KbdState → Bool → KbdState} :
    modKey raw rel k set (k, st) = (if raw then k else 0, set st (!rel)) := if_pos rfl

theorem ite_ne {a b : Nat} (hb : b ≠ a) (h0 : 0 ≠ a) : (if raw then b else 0) ≠ a := by
  cases raw with
  | true => exact hb
  | false => exact h0

/-- A key sets the bit of its modifier, and no other. -/
theorem modKeys_eq (raw rel : Bool) (key : Nat) (st : KbdState) : modKeys raw rel (key, st) =
    (if key = kSft ∨ key = kCtl ∨ key = kAlt then (if raw then key else 0) else key,
      { st with
        sft := if key = kSft then !rel else st.sft
        ctl := if key = kCtl then !rel else st.ctl
        alt := if key = kAlt then !rel else st.alt }) := by
  rw [modKeys]
  by_cases hctl : key = kCtl
  · subst hctl
    have hsft : (if raw then kCtl else 0) ≠ kSft := ite_ne (by decide) (by decide)
    have halt : (if raw then kCtl else 0) ≠ kAlt := ite_ne (by decide) (by decide)
    rw [modKey_self, modKey_of_ne (k := kSft) hsft, modKey_of_ne halt]
    rfl
  · rw [modKey_of_ne (x := (key, st)) hctl]
    by_cases hsft : key = kSft
    · subst hsft
      have halt : (if raw then kSft else 0) ≠ kAlt := ite_ne (by decide) (by decide)
      rw [modKey_self, modKey_of_ne halt]
      rfl
    · rw [modKey_of_ne (x := (key, st)) hsft]
      by_cases halt : key = kAlt
      · subst halt
        rw [modKey_self]
        rfl
      · rw [modKey_of_ne (x := (key, st)) halt]
        simp only [hctl, hsft, halt, or_self, if_false]

theorem processKey_snd (raw rel : Bool) (key : Nat) (st : KbdState) :
    (processKey raw rel key st).2 = (modKeys raw rel (key, st)).2 := by
  rw [processKey, ← modKeys]
  obtain ⟨key', st'⟩ := modKeys raw rel (key, st)
  dsimp only
  split_ifs <;> rfl

/-- A key fits below the marks. -/
theorem decodedKey_lt {code : Nat} (hcode : code < maxScanCode) (ext shift : Bool) :
    decodedKey ext shift code < mCtl := by
  have h : ∀ code < maxScanCode, ∀ ext shift, decodedKey ext shift code < mCtl := by
    decide +kernel
  exact h code hcode ext shift

/-! ## Events -/

/-- One more event. -/
theorem lastMake_append (k : Nat) (es : List (Nat × Bool)) (key : Nat) (rel : Bool) :
    lastMake k (es ++ [(key, rel)]) = if key = k then !rel else lastMake k es := by
  rw [lastMake, List.filter_append]
  by_cases hk : key = k
  · simp [hk]
  · simp [hk, lastMake]

/-- A marked key is the key, but for the marks. -/
theorem or_marks_mod (hk : key < mCtl) : (key ||| marks es) % mCtl = key := by
  have hm : marks es % 2 ^ 9 = 0 := by
    unfold marks
    generalize lastMake kAlt es = a, lastMake kSft es = b, lastMake kCtl es = c
    revert a b c
    decide
  rw [show mCtl = 2 ^ 9 from rfl, Nat.or_mod_two_pow, hm, Nat.or_zero]
  exact Nat.mod_eq_of_lt hk

/-- A silent event returns no key in cooked mode. -/
theorem Silent.returnedKey (h : Silent es (key, rel)) : returnedKey false es (key, rel) = 0 := by
  refine if_neg Bool.false_ne_true |>.trans (if_pos ?_)
  rw [Silent] at h
  split at h
  · next hmod => exact .inr (.inr hmod)
  · next hmod => exact h.imp_right .inl

/-- A silent event leaves the modifiers as they are. -/
theorem Silent.lastMake_append (h : Silent es (key, rel)) (hk : IsMod k) :
    lastMake k (es ++ [(key, rel)]) = lastMake k es := by
  rw [Console.lastMake_append]
  split
  · next hkey =>
    rw [Silent, if_pos (hkey ▸ hk)] at h
    rw [← hkey, h]
  · rfl

/-- A key that another does the work of, in cooked mode, is silent. -/
theorem silent_of_eq (hne : key ≠ key') (hk : key < mCtl) (hk' : key' < mCtl)
    (hret : returnedKey false es (key, rel) = returnedKey false es (key', rel))
    (hmods : ∀ k, IsMod k →
      lastMake k (es ++ [(key, rel)]) = lastMake k (es ++ [(key', rel)])) :
    Silent es (key, rel) := by
  rw [Silent]
  split
  · next hmod =>
    have hm := hmods key hmod
    rw [lastMake_append, lastMake_append, if_pos rfl, if_neg hne.symm] at hm
    exact hm.symm
  · next hmod =>
    by_contra hc
    rw [not_or] at hc
    have hrel : rel = false := Bool.eq_false_iff.2 hc.1
    simp only [returnedKey, hrel, hc.2, hmod, Bool.false_eq_true, if_false, or_self, false_or]
      at hret
    split at hret
    · exact hc.2 ((Nat.or_eq_zero_iff.1 hret).1)
    · have hkey : (key ||| marks es) % mCtl = key := or_marks_mod hk
      exact hne (by rw [← hkey, hret, or_marks_mod hk'])

/-- Two keys do the same if they are the same, or if both do nothing. -/
theorem effect_eq_iff (hk : key < mCtl) (hk' : key' < mCtl) :
    (returnedKey raw es (key, rel) = returnedKey raw es (key', rel) ∧
      ∀ k, IsMod k → lastMake k (es ++ [(key, rel)]) = lastMake k (es ++ [(key', rel)])) ↔
    key = key' ∨ raw = false ∧ Silent es (key, rel) ∧ Silent es (key', rel) := by
  constructor
  · rintro ⟨hret, hmods⟩
    by_cases hkey : key = key'
    · exact .inl hkey
    cases raw with
    | true => exact .inl hret
    | false =>
      exact .inr ⟨rfl, silent_of_eq hkey hk hk' hret hmods,
        silent_of_eq (Ne.symm hkey) hk' hk hret.symm fun k hk ↦ (hmods k hk).symm⟩
  · rintro (rfl | ⟨rfl, hs, hs'⟩)
    · exact ⟨rfl, fun _ _ ↦ rfl⟩
    · refine ⟨hs.returnedKey.trans hs'.returnedKey.symm, fun k hk ↦ ?_⟩
      rw [hs.lastMake_append hk, hs'.lastMake_append hk]

/-! ## Every byte of a run -/

theorem typed_append (bytes : List (BitVec 8)) (sc : BitVec 8) :
    typed (bytes ++ [sc]) = (typed bytes).next sc := List.foldl_append ..

theorem kbdRun_append (raw : Bool) (bytes : List (BitVec 8)) (sc : BitVec 8) :
    kbdRun raw (bytes ++ [sc]) = (getkey raw (kbdRun raw bytes) sc).2 := List.foldl_append ..

/-- The bits of the modifiers are those of the events, and the other bits are clear. -/
structure KbdInv (st : KbdState) (es : List (Nat × Bool)) : Prop where
  ex0 : st.ex0 = false
  num : st.num = false
  sft : st.sft = lastMake kSft es
  ctl : st.ctl = lastMake kCtl es
  alt : st.alt = lastMake kAlt es

namespace KbdInv

/-- `K_ENT` and `K_BS` are recognized when they have no marks, and keep those that they have. -/
theorem unmark_eq (x : Nat) :
    (if x = kEnt ∨ x = kBs then x &&& (2 ^ 32 - 1 - (mAlt ||| mSft ||| mCtl)) else x) = x := by
  split
  · next h =>
    rcases h with rfl | rfl <;> rfl
  · rfl

/-- `getkey` returns the key that it has looked up as it is to. -/
theorem processKey_fst (h : KbdInv st es) :
    (processKey raw rel key st).1 = returnedKey raw es (key, rel) := by
  rw [processKey, ← modKeys, modKeys_eq, returnedKey]
  dsimp only [IsMod]
  cases raw with
  | true => by_cases hkey : key = 0 <;> simp [hkey]
  | false =>
    cases rel with
    | true => simp
    | false =>
      by_cases hm : key = kSft ∨ key = kCtl ∨ key = kAlt
      · simp [hm]
      · by_cases hkey : key = 0
        · simp [hkey]
        · rw [not_or, not_or] at hm
          simp only [hm.1, hm.2.1, hm.2.2, hkey, unmark_eq, h.alt, h.sft, h.ctl, marks,
            ← Nat.or_assoc, or_self, and_false, Bool.false_eq_true, if_false]

/-- The key that it has looked up is the next event. -/
theorem processKey_snd (h : KbdInv st es) :
    KbdInv (processKey raw rel key st).2 (es ++ [(key, rel)]) := by
  rw [Console.processKey_snd, modKeys_eq]
  refine ⟨h.ex0, h.num, ?_, ?_, ?_⟩
  · rw [lastMake_append, h.sft]
  · rw [lastMake_append, h.ctl]
  · rw [lastMake_append, h.alt]

/-- The bits are those of other events too if these have the same modifiers down. -/
theorem bits_iff {es' : List (Nat × Bool)} (h : KbdInv st es) :
    (st.sft = lastMake kSft es' ∧ st.ctl = lastMake kCtl es' ∧ st.alt = lastMake kAlt es') ↔
      ∀ k, IsMod k → lastMake k es = lastMake k es' := by
  rw [h.sft, h.ctl, h.alt]
  constructor
  · rintro ⟨hsft, hctl, halt⟩ k (rfl | rfl | rfl)
    · exact hsft
    · exact hctl
    · exact halt
  · exact fun hk ↦ ⟨hk _ (.inl rfl), hk _ (.inr (.inl rfl)), hk _ (.inr (.inr rfl))⟩

/-- A byte that comes after others is met just when it is not an extended code that does something
else than the same code of the other keys. -/
theorem keyMeets_iff (h : KbdInv (kbdRun raw bytes) (typed bytes).events) (sc : BitVec 8) :
    KeyMeets raw bytes sc ↔ SameKey raw bytes sc := by
  rcases Nat.lt_or_ge (sc.toNat % 128) maxScanCode with hsc | hsc
  · have hne : ¬ (sc = 0xe0 ∨ maxScanCode ≤ sc.toNat % 128) := by
      rintro (rfl | hle)
      · exact absurd hsc (by decide)
      · exact Nat.not_le.2 hsc hle
    have hevent : (typed bytes).event sc = some (decodedKey (typed bytes).ext
        (lastMake kSft (typed bytes).events) (sc.toNat % 128), decide (128 ≤ sc.toNat)) :=
      if_neg hne
    have hget : getkey raw (kbdRun raw bytes) sc = _ := getkey_of_lt h.ex0 h.num hsc
    have hsnd : KbdInv (processKey raw (128 ≤ sc.toNat) (decodedKey false (kbdRun raw bytes).sft
      (sc.toNat % 128)) (kbdRun raw bytes)).2 _ := h.processKey_snd
    rw [← hget, ← kbdRun_append] at hsnd
    rw [h.sft] at hget hsnd
    have hmeets : KeyMeets raw bytes sc ↔ _ := Iff.trans
      ⟨fun hm ↦ ⟨hm.key, hm.sft, hm.ctl, hm.alt⟩, fun hm ↦ ⟨hm.1, hm.2.1, hm.2.2.1, hm.2.2.2⟩⟩
      (and_congr_right' hsnd.bits_iff)
    rw [hmeets, hget, h.processKey_fst, hevent, typed_append, Typed.next, hevent]
    refine (effect_eq_iff (decodedKey_lt hsc _ _) (decodedKey_lt hsc _ _)).trans ?_
    rw [SameKey]
    cases (typed bytes).ext with
    | false => exact iff_of_true (.inl rfl) fun hc ↦ absurd hc Bool.false_ne_true
    | true =>
      refine ⟨fun hkey _ _ ↦ hkey.imp Eq.symm fun hs ↦ ⟨hs.1, hs.2.2, hs.2.1⟩, fun hkey ↦ ?_⟩
      exact (hkey rfl hsc).imp Eq.symm fun hs ↦ ⟨hs.1, hs.2.2, hs.2.1⟩
  · have hevent : (typed bytes).event sc = none := if_pos (.inr hsc)
    refine iff_of_true ⟨?_, ?_, ?_, ?_⟩ fun _ hlt ↦ absurd hsc (Nat.not_le.2 hlt)
    · rw [getkey_of_ge hsc, hevent]
      rfl
    all_goals
      rw [kbdRun_append, getkey_of_ge hsc, typed_append, Typed.next, hevent, Option.toList_none,
        List.append_nil]
    · exact h.sft
    · exact h.ctl
    · exact h.alt

end KbdInv

/-- Nothing sets the bits `ST_EX0` and `ST_NUM`. -/
theorem kbdRun_clear (raw : Bool) (bytes : List (BitVec 8)) :
    (kbdRun raw bytes).ex0 = false ∧ (kbdRun raw bytes).num = false := by
  induction bytes using List.reverseRecOn with
  | nil => exact ⟨rfl, rfl⟩
  | append_singleton bytes sc ih =>
    rw [kbdRun_append]
    rcases Nat.lt_or_ge (sc.toNat % 128) maxScanCode with hsc | hsc
    · rw [getkey_of_lt ih.1 ih.2 hsc, processKey_snd, modKeys_eq]
      exact ih
    · rw [getkey_of_ge hsc]
      exact ih

/-- After a byte that is met the bits are those of the events. -/
theorem KeyMeets.kbdInv (h : KeyMeets raw bytes sc) :
    KbdInv (kbdRun raw (bytes ++ [sc])) (typed (bytes ++ [sc])).events :=
  ⟨(kbdRun_clear raw _).1, (kbdRun_clear raw _).2, h.sft, h.ctl, h.alt⟩

/-- The bytes of a longer sequence are those of the shorter one and the last. -/
theorem forall_prefix_append {α : Type*} {P : List α → α → Prop} {l : List α} {a : α} :
    (∀ pre x, pre ++ [x] <+: l ++ [a] → P pre x) ↔
      (∀ pre x, pre ++ [x] <+: l → P pre x) ∧ P l a := by
  constructor
  · exact fun h ↦ ⟨fun pre x hx ↦ h pre x (hx.trans (List.prefix_append _ _)),
      h l a (List.prefix_refl _)⟩
  · rintro ⟨h, ha⟩ pre x hx
    rcases List.prefix_concat_iff.1 hx with hx | hx
    · obtain ⟨hpre, hx⟩ := List.append_inj' hx rfl
      rw [hpre, List.singleton_inj.1 hx]
      exact ha
    · exact h pre x hx

/-- Every byte of a sequence makes `getkey` return the key that it stands for, and every prefix of
the sequence leaves the bits of the modifiers that are down, if and only if no code right after
0xe0 does something else in the map of the extended keys than in the others. -/
theorem getkey_meets_iff (raw : Bool) (bytes : List (BitVec 8)) :
    (∀ pre sc, pre ++ [sc] <+: bytes → KeyMeets raw pre sc) ↔
      ∀ pre sc, pre ++ [sc] <+: bytes → SameKey raw pre sc := by
  suffices h : ((∀ pre sc, pre ++ [sc] <+: bytes → KeyMeets raw pre sc) ↔
      ∀ pre sc, pre ++ [sc] <+: bytes → SameKey raw pre sc) ∧
      ((∀ pre sc, pre ++ [sc] <+: bytes → KeyMeets raw pre sc) →
        KbdInv (kbdRun raw bytes) (typed bytes).events) from h.1
  induction bytes using List.reverseRecOn with
  | nil =>
    have hnil : ∀ {pre : List (BitVec 8)} {sc}, ¬ pre ++ [sc] <+: [] := by simp
    exact ⟨iff_of_true (fun _ _ h ↦ absurd h hnil) fun _ _ h ↦ absurd h hnil,
      fun _ ↦ ⟨rfl, rfl, rfl, rfl, rfl⟩⟩
  | append_singleton bytes sc ih =>
    rw [forall_prefix_append, forall_prefix_append, ← ih.1]
    exact ⟨and_congr_right fun h ↦ (ih.2 h).keyMeets_iff sc, fun h ↦ h.2.kbdInv⟩

/-- The delete key is 0xe0 0x53; it comes out as the dot of the keypad. -/
theorem delete_is_dot : (typed [0xe0]).event 0x53 = some (kDel, false) ∧
    (getkey false (kbdRun false [0xe0]) 0x53).1 = '.'.toNat ∧
    ¬ ∀ pre sc, pre ++ [sc] <+: [0xe0, 0x53] → KeyMeets false pre sc := by
  refine ⟨by decide, by decide, fun h ↦ ?_⟩
  have hkey := (h [0xe0] 0x53 (List.prefix_refl _)).key
  revert hkey
  decide

end Mh.Console
