import Mh.Console.Vga
import Mh.Lib.Run

/-!
# The cursor on the screen

All of `console-vga.c` but one function keeps the cursor in the 80 columns and 25 lines of the
screen, and with the cursor there all writes are to the screen (`Inv`).  `console_vga_goto` takes
any position, so the requests keep to the screen just as long as no client sends one that is off it
(`screen_bounds_iff`).
-/

namespace Mh.Console

open Mh.Lib

/-- The bytes of the screen. -/
def screenBytes : Nat := 80 * 25 * 2

/-- The cursor is on the screen, and so is all that was written. -/
structure Vga.OnScreen (v : Vga) : Prop where
  xpos : v.xpos < 80
  ypos : v.ypos < 25
  stores : ∀ i ∈ v.stores, i < screenBytes

/-- A saved position is on the screen. -/
def VgaState.OnScreen (sv : VgaState) : Prop := sv.xpos < 80 ∧ sv.ypos < 25

namespace Vga

variable {v : Vga}

/-! ## Writes -/

/-- What `scroll` and `upscroll` leave alone, and what they write. -/
structure Moves (v w : Vga) : Prop where
  xpos : w.xpos = v.xpos
  ypos : w.ypos = v.ypos
  stores : (∀ i ∈ v.stores, i < screenBytes) → ∀ i ∈ w.stores, i < screenBytes

theorem moves_store {i : Nat} (hi : i < screenBytes) (b : Nat) : Moves v (v.store i b) where
  xpos := rfl
  ypos := rfl
  stores h j hj := by
    rcases List.mem_append.1 hj with hj | hj
    · exact h j hj
    · rwa [List.mem_singleton.1 hj]

theorem moves_memmove {dst n : Nat} (hn : dst + n ≤ screenBytes) (src : Nat) :
    Moves v (v.memmove dst src n) where
  xpos := rfl
  ypos := rfl
  stores h j hj := by
    rcases List.mem_append.1 hj with hj | hj
    · exact h j hj
    · have hlt := (List.mem_range'_1.1 hj).2
      omega

theorem Moves.trans {w x : Vga} (h : Moves v w) (h' : Moves w x) : Moves v x where
  xpos := h'.xpos.trans h.xpos
  ypos := h'.ypos.trans h.ypos
  stores hv := h'.stores (h.stores hv)

theorem moves_foldl {f : Vga → Nat → Vga} {l : List Nat} (hf : ∀ w, ∀ i ∈ l, Moves w (f w i)) :
    Moves v (l.foldl f v) := by
  induction l generalizing v with
  | nil => exact ⟨rfl, rfl, fun h ↦ h⟩
  | cons i l ih =>
    have hi := hf v i List.mem_cons_self
    exact hi.trans (ih fun w j hj ↦ hf w j (List.mem_cons_of_mem i hj))

theorem moves_scroll : Moves v v.scroll := by
  refine (moves_memmove (by decide) _).trans (moves_foldl fun w i hi ↦ ?_)
  have hlt := List.mem_range.1 hi
  have h₁ : 80 * 24 * 2 + i * 2 < screenBytes := by
    rw [screenBytes]
    omega
  have h₂ : 80 * 24 * 2 + (i * 2 + 1) < screenBytes := by
    rw [screenBytes]
    omega
  exact (moves_store h₁ _).trans (moves_store h₂ _)

theorem moves_upscroll : Moves v v.upscroll := moves_memmove (by decide) _

namespace OnScreen

variable (h : v.OnScreen)
include h

/-- The cell at the cursor is on the screen. -/
theorem offset_lt : v.offset + 1 < screenBytes := by
  have hx := h.xpos
  have hy := h.ypos
  rw [offset, screenBytes]
  omega

theorem moves {w : Vga} (hw : Moves v w) : w.OnScreen where
  xpos := hw.xpos ▸ h.xpos
  ypos := hw.ypos ▸ h.ypos
  stores := hw.stores h.stores

/-- A character is put in the cell at the cursor. -/
theorem put (b b' : Nat) : ((v.store v.offset b).store (v.offset + 1) b').OnScreen := by
  have hlt := h.offset_lt
  exact h.moves ((moves_store (Nat.lt_of_succ_lt hlt) b).trans (moves_store hlt b'))

theorem crtOut (reg val : Nat) : (v.crtOut reg val).OnScreen := ⟨h.xpos, h.ypos, h.stores⟩

theorem updateCursor : v.updateCursor.OnScreen := ⟨h.xpos, h.ypos, h.stores⟩

/-- The cursor is put somewhere on the screen. -/
theorem place {x y : Nat} (hx : x < 80) (hy : y < 25) :
    { v with xpos := x, ypos := y }.OnScreen := ⟨hx, hy, h.stores⟩

theorem consoleVgaPutc (c colattr xattr : Nat) : (v.consoleVgaPutc c colattr xattr).OnScreen := by
  have hy := h.ypos
  rw [Vga.consoleVgaPutc]
  split
  · refine ((h.put _ _).place (by decide) ?_).updateCursor
    split
    · exact hy
    · omega
  · next hx => exact ((h.put _ _).place (Nat.lt_of_not_le hx) hy).updateCursor

omit h in
/-- `newline` is also called with the cursor past the end of a line. -/
theorem newline (hs : ∀ i ∈ v.stores, i < screenBytes) :
    v.newline.OnScreen := by
  rw [Vga.newline]
  split
  · have hlast : OnScreen { v with xpos := 0, ypos := 24 } :=
      ⟨Nat.zero_lt_succ 79, Nat.lt_succ_self 24, hs⟩
    exact hlast.moves moves_scroll
  · next hlt => exact ⟨Nat.zero_lt_succ 79, Nat.lt_of_not_le hlt, hs⟩

/-- `console_vga_putchar`, which the console itself does not call. -/
theorem consoleVgaPutchar (c : Nat) : (v.consoleVgaPutchar c).OnScreen := by
  have hput := h.put (c &&& 0xff) vgaColorattr
  rw [Vga.consoleVgaPutchar]
  split
  · exact (newline h.stores).updateCursor
  · split
    · dsimp only
      split
      · exact (newline h.stores).updateCursor
      · next hx => exact (h.place (Nat.lt_of_not_le hx) h.ypos).updateCursor
    · dsimp only
      split
      · exact (newline hput.stores).updateCursor
      · next hx => exact (hput.place (Nat.lt_of_not_le hx) hput.ypos).updateCursor

/-- What `console_vga_goto` does, on the screen and off it. -/
theorem consoleVgaGoto_iff {x y : Nat} :
    (v.consoleVgaGoto x y).OnScreen ↔ x % 256 < 80 ∧ y % 256 < 25 :=
  ⟨fun hg ↦ ⟨hg.xpos, hg.ypos⟩, fun ⟨hx, hy⟩ ↦ (h.place hx hy).updateCursor⟩

/-- The position is saved as it is. -/
theorem consoleVgaSave : v.consoleVgaSave.OnScreen := ⟨h.xpos, h.ypos⟩

theorem consoleVgaRestore {o : Option VgaState} (ho : ∀ sv, o = some sv → sv.OnScreen) :
    (v.consoleVgaRestore o).OnScreen := by
  cases o with
  | none => exact h
  | some sv => exact (h.place (ho sv rfl).1 (ho sv rfl).2).crtOut _ _

end OnScreen

end Vga

/-! ## Requests -/

namespace Display

variable {d : Display} {reqs : List Req}

/-- The saved cursors are on the screen. -/
def Saved (opqs : Nat → Option VgaState) : Prop := ∀ id sv, opqs id = some sv → sv.OnScreen

theorem Saved.update {opqs : Nat → Option VgaState} (h : Saved opqs) (id : Nat)
    {o : Option VgaState} (ho : ∀ sv, o = some sv → sv.OnScreen) :
    Saved (Function.update opqs id o) := by
  intro i sv hi
  obtain rfl | hne := eq_or_ne i id
  · rw [Function.update_self] at hi
    exact ho sv hi
  · rw [Function.update_of_ne hne] at hi
    exact h i sv hi

/-- The cursor and the saved cursors are on the screen. -/
structure Inv (d : Display) : Prop where
  vga : d.vga.OnScreen
  saved : Saved d.dspOpq

/-- A request to put the cursor of the screen that is shown puts it on the screen. -/
def Placed (d : Display) : Req → Prop
  | .out id port val => id = d.cur → port = consioOutpos →
      (outposDecode val).1 % 256 < 80 ∧ (outposDecode val).2 % 256 < 25
  | _ => True

theorem Inv.boot (mem crt : Nat → UInt8) : (Display.boot mem crt).Inv where
  vga := ⟨Nat.zero_lt_succ 79, Nat.zero_lt_succ 24, fun _ h ↦ by cases h⟩
  saved _ _ h := by cases h

namespace Inv

variable (h : d.Inv)
include h

theorem setVga {v : Vga} (hv : v.OnScreen) : Inv { d with vga := v } := ⟨hv, h.saved⟩

/-- A screen that is opened or closed has no saved cursor. -/
theorem forget (id : Nat) (b : Bool) :
    Inv { d with
      active := Function.update d.active id b
      dspOpq := Function.update d.dspOpq id none } where
  vga := h.vga
  saved := h.saved.update id fun _ ho ↦ by cases ho

theorem outopsDo (id val : Nat) : (d.outopsDo id val).Inv := by
  unfold Display.outopsDo
  split
  · exact h
  · split
    · exact h.setVga (h.vga.crtOut _ _)
    · exact h.setVga (h.vga.crtOut _ _)
    · exact h.setVga (h.vga.moves Vga.moves_scroll)
    · exact h.setVga (h.vga.moves Vga.moves_upscroll)
    · exact h

theorem outdataUpdate (id val : Nat) : (d.outdataUpdate id val).Inv := by
  rw [Display.outdataUpdate]
  split
  · exact h
  · exact h.setVga (h.vga.consoleVgaPutc _ _ _)

theorem consoleSwitch (id : Nat) : (d.consoleSwitch id).Inv := by
  rw [Display.consoleSwitch]
  split
  · exact h
  · have hopq : Saved (Function.update d.dspOpq d.cur (some d.vga.consoleVgaSave)) := by
      refine h.saved.update d.cur fun sv hsv ↦ ?_
      rw [← Option.some.inj hsv]
      exact h.vga.consoleVgaSave
    have hcorner : (d.vga.consoleVgaGoto 0 0).OnScreen := h.vga.consoleVgaGoto_iff.2 (by decide)
    exact ⟨(hcorner.consoleVgaPutc _ _ _).consoleVgaRestore (hopq id),
      hopq.update id fun _ ho ↦ by cases ho⟩

/-- Every request keeps to the screen, but for the positioning of the cursor. -/
theorem exec {req : Req} (hp : d.Placed req) : (d.exec req).Inv := by
  cases req with
  | out id port val =>
    rw [Display.exec, Display.consoleIoOut]
    split_ifs with hdata hop hpos
    · exact h.outdataUpdate id val
    · exact h.outopsDo id val
    · rw [outposDo]
      dsimp only
      split
      · next hid => exact h.setVga (h.vga.consoleVgaGoto_iff.2 (hp hid hpos))
      · exact h
    · exact h
  | close id => exact h.forget id false
  | «open» id => exact h.forget id true
  | clone id clid => exact h.forget clid true
  | switch id => exact h.consoleSwitch id

/-- And a cursor that is on the screen after a request was put there. -/
theorem placed {req : Req} (hs : (d.exec req).vga.OnScreen) : d.Placed req := by
  cases req with
  | out id port val =>
    rintro hid rfl
    have hexec : d.exec (.out id consioOutpos val) =
        { d with vga := d.vga.consoleVgaGoto (outposDecode val).1 (outposDecode val).2 } :=
      if_pos hid
    rw [hexec] at hs
    exact h.vga.consoleVgaGoto_iff.1 hs
  | close id => trivial
  | «open» id => trivial
  | clone id clid => trivial
  | switch id => trivial

end Inv

/-- After every request the cursor is on the screen, and so is all that was written, if and only if
every position sent to the screen that is shown is on the screen. -/
theorem screen_bounds_iff (mem crt : Nat → UInt8) (reqs : List Req) :
    (∀ q, q <+: reqs → (run (.boot mem crt) q).vga.OnScreen) ↔
      ∀ q req, q ++ [req] <+: reqs → (run (.boot mem crt) q).Placed req :=
  foldl_prefix_iff (I := Inv) (fun _ _ _ hi hp ↦ hi.exec hp) (fun _ hi ↦ hi.vga)
    (fun _ _ _ hi hs ↦ hi.placed hs) (.boot mem crt)

/-- A client that puts the cursor at column 255 of line 255 and prints a character writes past the
end of the screen, and past the end of the video memory. -/
theorem screen_overrun :
    (run (.boot (fun _ ↦ 0) (fun _ ↦ 0))
      [.open 0, .out 0 consioOutpos 0xff00ff, .out 0 consioOutdata 65]).vga.stores =
        [41310, 41311] := by
  decide

end Display

end Mh.Console
