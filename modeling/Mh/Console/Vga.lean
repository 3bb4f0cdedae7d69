import Mathlib.Algebra.Order.Ring.Nat
import Mathlib.Data.List.Range
import Mathlib.Logic.Function.Basic

/-!
# The screen of the console

`sys/bootstrap/console-vga.c`, the cursor and the text on the screen, and the display half of
`sys/bootstrap/console.c`, which takes the requests of the clients to it.  Every client has a screen
of its own; what the screens that are not shown need to come back is what `console_vga_save`
returns.  `malloc` does not fail.

A byte written to the video memory is recorded by its offset, wherever that is: the memory is
mapped, but beyond the 80 by 25 characters it is not the screen, and beyond
`VGA_VIDEO_MEM_LENGTH` it is not even video memory.
-/

namespace Mh.Console

/-! ## `console-vga.c` -/

/-- `VGA_COLORATTR`. -/
def vgaColorattr : Nat := 0x07

/-- `VGA_CRT_CURSOR_START`. -/
def vgaCrtCursorStart : Nat := 0x0a

/-- `VGA_CRT_CURSOR_HIGH`. -/
def vgaCrtCursorHigh : Nat := 0x0e

/-- `VGA_CRT_CURSOR_LOW`. -/
def vgaCrtCursorLow : Nat := 0x0f

/-- `struct console_vga_state`, as far as it is used. -/
structure VgaState where
  crtCrsStart : UInt8
  xpos : Nat
  ypos : Nat
deriving DecidableEq, Repr

/-- The memory at `__vga_mem`, the registers of the CRTC, `xpos` and `ypos`, which have 8 bits, and
the offsets written so far. -/
structure Vga where
  mem : Nat → UInt8
  crt : Nat → UInt8
  xpos : Nat
  ypos : Nat
  stores : List Nat

namespace Vga

variable (v : Vga)

/-- `__vga_mem[i] = b`. -/
def store (i b : Nat) : Vga :=
  { v with mem := Function.update v.mem i (.ofNat b), stores := v.stores ++ [i] }

/-- `memmove` within the video memory. -/
def memmove (dst src n : Nat) : Vga :=
  { v with
    mem := fun i ↦ if dst ≤ i ∧ i < dst + n then v.mem (src + (i - dst)) else v.mem i
    stores := v.stores ++ List.range' dst n }

/-- `VGAOUTB(reg, VGA_CRT_ADDR_REG)` and `VGAOUTB(val, VGA_CRT_DATA_REG)`. -/
def crtOut (reg val : Nat) : Vga := { v with crt := Function.update v.crt reg (.ofNat val) }

/-- `scroll`. -/
def scroll : Vga :=
  (List.range 80).foldl
    (fun v i ↦ (v.store (80 * 24 * 2 + i * 2) 0).store (80 * 24 * 2 + (i * 2 + 1)) vgaColorattr)
    (v.memmove 0 (80 * 2) (80 * 24 * 2))

/-- `upscroll`. -/
def upscroll : Vga := v.memmove (80 * 2) 0 (80 * 24 * 2)

/-- `update_cursor`. -/
def updateCursor : Vga :=
  let pos := (v.ypos * 80 + v.xpos) % 2 ^ 16
  (v.crtOut vgaCrtCursorHigh (pos >>> 8)).crtOut vgaCrtCursorLow (pos &&& 0xff)

/-- `console_vga_save`. -/
def consoleVgaSave : VgaState := ⟨v.crt vgaCrtCursorStart, v.xpos, v.ypos⟩

/-- `console_vga_restore`. -/
def consoleVgaRestore : Option VgaState → Vga
  | none => v
  | some sv =>
    { v with xpos := sv.xpos, ypos := sv.ypos }.crtOut vgaCrtCursorStart sv.crtCrsStart.toNat

/-- `console_vga_cursor`. -/
def consoleVgaCursor (on : Bool) : Vga := v.crtOut vgaCrtCursorStart (if on then 0 else 1 <<< 5)

/-- `console_vga_goto`. -/
def consoleVgaGoto (x y : Nat) : Vga :=
  { v with xpos := x % 256, ypos := y % 256 }.updateCursor

/-- `coltrans`: the colours of `window.h` are black, red, green, yellow, blue, magenta, cyan and
white. -/
def coltrans : Nat → Nat
  | 0 => 0
  | 4 => 1
  | 2 => 2
  | 6 => 3
  | 1 => 4
  | 5 => 5
  | 3 => 6
  | 7 => 7
  | _ => 7

/-- The attribute byte of `console_vga_putc`.  The bits of `xattr` are `XA_BLINK`, `XA_BOLD`,
`XA_REVERSE`, `XA_UNDERLINE`, `XA_ALTCHARSET` and `XA_BLANK`. -/
def putcAttr (colattr xattr : Nat) : Nat :=
  let attr := if xattr &&& 32 ≠ 0 then 0
    else (if xattr &&& 1 ≠ 0 then 1 <<< 7 else 0) ||| if xattr &&& 2 ≠ 0 then 1 <<< 3 else 0
  let (fg, bg) := if xattr &&& 4 ≠ 0 then (colattr % 16, colattr >>> 4)
    else (colattr >>> 4, colattr % 16)
  attr ||| (coltrans bg &&& 0x7) ||| ((coltrans fg &&& 0x7) <<< 4)

/-- The characters that draw lines, in `console_vga_putc`. -/
def altCharset (c : Nat) : Nat :=
  if c = 'L'.toNat then 201
  else if c = 'l'.toNat then 218
  else if c = 'Q'.toNat then 205
  else if c = 'q'.toNat then 196
  else if c = 'K'.toNat then 187
  else if c = 'k'.toNat then 191
  else if c = 'M'.toNat then 200
  else if c = 'm'.toNat then 192
  else if c = 'X'.toNat then 186
  else if c = 'x'.toNat then 179
  else if c = 'J'.toNat then 188
  else if c = 'j'.toNat then 217
  else 15

/-- The offset of the character at the cursor. -/
def offset : Nat := (v.xpos + v.ypos * 80) * 2

/-- `console_vga_putc`.  At the end of a line the cursor goes to the next one; the value of the
conditional expression that would keep it on the last line is not assigned to anything. -/
def consoleVgaPutc (c colattr xattr : Nat) : Vga :=
  let c := if xattr &&& 16 ≠ 0 then altCharset c else c
  let v' := (v.store v.offset (c &&& 0xff)).store (v.offset + 1) (putcAttr colattr xattr)
  let xpos := (v.xpos + 1) % 256
  if 80 ≤ xpos then
    { v' with xpos := 0, ypos := if 25 - 1 ≤ v.ypos then v.ypos else v.ypos + 1 }.updateCursor
  else { v' with xpos }.updateCursor

/-- `newline`. -/
def newline : Vga :=
  let ypos := (v.ypos + 1) % 256
  if 25 ≤ ypos then { v with xpos := 0, ypos := 24 }.scroll else { v with xpos := 0, ypos }

/-- `console_vga_putchar`. -/
def consoleVgaPutchar (c : Nat) : Vga :=
  if c = '\n'.toNat ∨ c = '\r'.toNat then v.newline.updateCursor
  else if c = '\t'.toNat then
    let xpos := (v.xpos / 8 * 8 + 8) % 256
    if 80 ≤ xpos then { v with xpos }.newline.updateCursor else { v with xpos }.updateCursor
  else
    let v' := (v.store v.offset (c &&& 0xff)).store (v.offset + 1) vgaColorattr
    let xpos := (v.xpos + 1) % 256
    if 80 ≤ xpos then { v' with xpos }.newline.updateCursor else { v' with xpos }.updateCursor

end Vga

/-! ## `console.c` -/

/-- `CONSOLE_MAXSCREENS`. -/
def consoleMaxscreens : Nat := 256

/-- `CONSIO_OUTDATA`. -/
def consioOutdata : Nat := 32

/-- `CONSIO_OUTPOS`. -/
def consioOutpos : Nat := 33

/-- `CONSIO_OUTOP`. -/
def consioOutop : Nat := 35

/-- The columns and the lines that `outpos_do` takes from a word. -/
def outposDecode (val : Nat) : Nat × Nat := (val &&& 0xffff, (val >>> 16) % 2 ^ 32)

/-- The character, the attributes and the colours that `outdata_update` takes from a word. -/
def outdataDecode (val : Nat) : Nat × Nat × Nat :=
  (val &&& 0xff, (val >>> 8) &&& 0xff, (val >>> 16) &&& 0xff)

/-- `cur_screen`, the display part of `screens`, and the screen. -/
structure Display where
  cur : Nat
  active : Nat → Bool
  dspOpq : Nat → Option VgaState
  vga : Vga

/-- The requests of the clients, and the keys that switch the screen. -/
inductive Req
  | out (id port val : Nat)
  | close (id : Nat)
  | open (id : Nat)
  | clone (id clid : Nat)
  | switch (id : Nat)
deriving DecidableEq, Repr

namespace Display

variable (d : Display)

/-- `outpos_do`. -/
def outposDo (id val : Nat) : Display :=
  let (x, y) := outposDecode val
  if id = d.cur then { d with vga := d.vga.consoleVgaGoto x y } else d

/-- `outops_do`; the operations are `CONSIO_OUTOP_CURSON`, `CONSIO_OUTOP_CRSOFF`,
`CONSIO_OUTOP_SCROLL` and `CONSIO_OUTOP_UPSCRL`, and the bell does nothing. -/
def outopsDo (id val : Nat) : Display :=
  if id ≠ d.cur then d
  else
    match val with
    | 3 => { d with vga := d.vga.consoleVgaCursor true }
    | 4 => { d with vga := d.vga.consoleVgaCursor false }
    | 1 => { d with vga := d.vga.scroll }
    | 2 => { d with vga := d.vga.upscroll }
    | _ => d

/-- `outdata_update`. -/
def outdataUpdate (id val : Nat) : Display :=
  if id ≠ d.cur then d
  else
    let (c, xattr, colattr) := outdataDecode val
    { d with vga := d.vga.consoleVgaPutc c colattr xattr }

/-- `console_io_out`; a write to `CONSIO_DEVSTS` is no matter of the display. -/
def consoleIoOut (id port val : Nat) : Display :=
  if port = consioOutdata then d.outdataUpdate id val
  else if port = consioOutop then d.outopsDo id val
  else if port = consioOutpos then d.outposDo id val
  else d

/-- `console_io_close`. -/
def consoleIoClose (id : Nat) : Display :=
  { d with
    active := Function.update d.active id false
    dspOpq := Function.update d.dspOpq id none }

/-- `console_io_open`, and what `console_io_clone` does to the new screen. -/
def consoleIoOpen (id : Nat) : Display :=
  { d with
    active := Function.update d.active id true
    dspOpq := Function.update d.dspOpq id none }

/-- `console_switch`: the state of the screen is saved, a `0` is put in the corner, bold and in
red on white, and the state of the new screen is restored. -/
def consoleSwitch (id : Nat) : Display :=
  if consoleMaxscreens ≤ id ∨ d.active id = false ∨ id = d.cur then d
  else
    let dspOpq := Function.update d.dspOpq d.cur (some d.vga.consoleVgaSave)
    let vga := (d.vga.consoleVgaGoto 0 0).consoleVgaPutc '0'.toNat (1 <<< 4 + 7) 2
    { d with
      cur := id
      dspOpq := Function.update dspOpq id none
      vga := vga.consoleVgaRestore (dspOpq id) }

/-- A request. -/
def exec : Req → Display
  | .out id port val => d.consoleIoOut id port val
  | .close id => d.consoleIoClose id
  | .open id => d.consoleIoOpen id
  | .clone _ clid => d.consoleIoOpen clid
  | .switch id => d.consoleSwitch id

/-- The requests of a list. -/
def run (reqs : List Req) : Display := reqs.foldl exec d

end Display

/-- The console after `console_vga_init`: the cursor is in the corner and no screen is open. -/
def Display.boot (mem crt : Nat → UInt8) : Display :=
  ⟨0, fun _ ↦ false, fun _ ↦ none, ⟨mem, crt, 0, 0, []⟩⟩

end Mh.Console
