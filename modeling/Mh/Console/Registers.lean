import Mh.Console.Delivery

/-!
# The registers of the keyboard

What a client that polls sees of `CONSIO_DEVSTS` and `CONSIO_KBDATA`, whatever it writes and
whenever keys arrive.  `Port` is the client's screen and its I/O space between two handlers of the
console; the handlers do not interrupt each other, and `devwriospace` does not fail for an open
client.  An I/O space is not cleared when a client opens the console.

The specification is that of `consio.txt`: a write of 1 fetches a key, or else says that there is
none and leaves `KBDATA` alone.  The code does the first half.  If there is no key it writes the 0
of `kbdfetch` to `KBDATA`, and it never clears the status.
-/

namespace Mh.Console

open Mh.Lib Mh.Bus

/-- The screen of a client and its I/O space. -/
structure Port where
  scr : Screen
  io : Nat → Nat

namespace Port

variable (p : Port)

/-- `devsts_kbdata_update`; the interrupt is raised in the last case. -/
def devstsKbdataUpdate : Port :=
  let (val, scr) := p.scr.kbdfetch
  let io := wriospace p.io (ioport consioKbdata 1) val.toNat
  if val = 0 then ⟨{ scr with req := true }, io⟩
  else ⟨scr, wriospace io (ioport consioDevsts 0) consioDevstsKbdval⟩

/-- `kbdbuf_add`. -/
def kbdbufAdd (c : Key) : Port :=
  match p.scr.kbdbufPut c with
  | none => p
  | some scr =>
    if scr.req then devstsKbdataUpdate { p with scr := { scr with req := false } }
    else { p with scr }

/-- `console_io_out`, of a write of `val` to `CONSIO_DEVSTS`. -/
def consoleIoOut (val : Nat) : Port :=
  if val &&& consioDevstsKbdval ≠ 0 then p.devstsKbdataUpdate else p

/-- What happens to the registers: a key arrives, or the client writes to `CONSIO_DEVSTS`. -/
inductive Event
  | key (c : Key)
  | write (val : Nat)
deriving DecidableEq, Repr

/-- An event. -/
def exec : Event → Port
  | .key c => p.kbdbufAdd c
  | .write val => p.consoleIoOut val

/-- A client has opened the console. -/
def opened (scr : Screen) (io : Nat → Nat) : Port := ⟨scr.consoleIoOpen, io⟩

/-- What the client reads as `KBDATA`. -/
def kbdata : Key := ioKey p.io

/-- What the client reads as bit 0 of `DEVSTS`. -/
def kbdval : Nat := ioin p.io (ioport consioDevsts 0) &&& consioDevstsKbdval

/-- The specification of the registers. -/
def Meets : Event → Prop
  | .write val =>
    if val &&& consioDevstsKbdval = 0 then p.consoleIoOut val = p
    else match p.scr.buffered with
      | c :: _ => (p.consoleIoOut val).kbdata = c ∧ (p.consoleIoOut val).kbdval = 1
      | [] => (p.consoleIoOut val).kbdata = p.kbdata ∧ (p.consoleIoOut val).kbdval = 0
  | .key c =>
    if p.scr.req then (p.kbdbufAdd c).kbdata = c ∧ (p.kbdbufAdd c).kbdval = 1
    else (p.kbdbufAdd c).kbdata = p.kbdata ∧ (p.kbdbufAdd c).kbdval = p.kbdval

/-- A write that finds no key finds both registers at 0 already. -/
def Ready : Event → Prop
  | .write val => val &&& consioDevstsKbdval ≠ 0 → p.scr.buffered = [] →
      p.kbdata = 0 ∧ p.kbdval = 0
  | .key _ => True

end Port

/-! ## The registers -/

/-- The status that has been written. -/
theorem kbdval_devsts (scr : Screen) (io : Nat → Nat) :
    Port.kbdval ⟨scr, wriospace io (ioport consioDevsts 0) consioDevstsKbdval⟩ = 1 := by
  rw [Port.kbdval, ioin_wriospace io _ (by decide) (by decide)]
  decide

/-- The key is not part of the status. -/
theorem kbdval_kbdata (scr scr' : Screen) (io : Nat → Nat) (val : Nat) :
    Port.kbdval ⟨scr, wriospace io (ioport consioKbdata 1) val⟩ = Port.kbdval ⟨scr', io⟩ := by
  rw [Port.kbdval, Port.kbdval, ioin, ioin, ioRange_ioport (by decide) (by decide)]
  refine congrArg (· &&& consioDevstsKbdval) (bytesVal_congr fun i _ ↦ ?_)
  by_cases hi : i < 2 ^ 0
  · dsimp only
    rw [if_pos hi, if_pos hi, wriospace, ioRange_ioport (by decide) (by decide)]
    refine if_neg fun h ↦ ?_
    have hle := h.1
    rw [consioKbdata, consioDevsts] at hle
    omega
  · rw [if_neg hi, if_neg hi]

namespace Port

variable {p : Port} {c : Key} {l : List Key} {e : Event} {val : Nat}

/-- What holds between the handlers. -/
structure Inv (p : Port) : Prop where
  range : p.scr.InRange
  nonzero : ∀ c ∈ p.scr.buffered, c ≠ 0
  req : p.scr.req = true → p.scr.buffered = []

/-- `devsts_kbdata_update` when there is a key. -/
theorem update_cons (h : p.scr.InRange) (hc : c ≠ 0) (hb : p.scr.buffered = c :: l) :
    p.devstsKbdataUpdate.kbdata = c ∧ p.devstsKbdataUpdate.kbdval = 1 ∧
      p.devstsKbdataUpdate.scr.InRange ∧ p.devstsKbdataUpdate.scr.req = p.scr.req ∧
      p.devstsKbdataUpdate.scr.buffered = l := by
  obtain ⟨hval, hrange, hreq, hbuf⟩ := Screen.kbdfetch_cons h hb
  have hupdate : p.devstsKbdataUpdate = ⟨p.scr.kbdfetch.2,
      wriospace (wriospace p.io (ioport consioKbdata 1) c.toNat) (ioport consioDevsts 0)
        consioDevstsKbdval⟩ := by
    simp only [devstsKbdataUpdate, hval, if_neg hc]
  rw [hupdate]
  refine ⟨?_, kbdval_devsts _ _, hrange, hreq, hbuf⟩
  rw [kbdata, ioKey_devsts, ioKey_kbdata]

/-- And when there is none. -/
theorem update_nil (h : p.scr.InRange) (hb : p.scr.buffered = []) :
    p.devstsKbdataUpdate = ⟨{ p.scr with req := true },
      wriospace p.io (ioport consioKbdata 1) (0 : Key).toNat⟩ := by
  simp only [devstsKbdataUpdate, Screen.kbdfetch_nil h hb, if_pos]

theorem Inv.opened (scr : Screen) (io : Nat → Nat) : (opened scr io).Inv := by
  have hempty : scr.consoleIoOpen.buffered = [] := RingBuf.contents_empty rfl
  refine ⟨⟨Nat.zero_lt_succ 15, Nat.zero_lt_succ 15⟩, fun c hc ↦ ?_, fun _ ↦ hempty⟩
  rw [Port.opened, hempty] at hc
  cases hc

theorem Inv.update (h : p.Inv) : p.devstsKbdataUpdate.Inv := by
  cases hb : p.scr.buffered with
  | nil =>
    rw [update_nil h.range hb]
    refine ⟨⟨h.range.fpos, h.range.wpos⟩, ?_, fun _ ↦ hb⟩
    exact fun c hc ↦ h.nonzero c hc
  | cons c l =>
    have hc : c ≠ 0 := h.nonzero c (by rw [hb]; exact List.mem_cons_self)
    obtain ⟨-, -, hrange, hreq, hbuf⟩ := update_cons h.range hc hb
    refine ⟨hrange, fun d hd ↦ ?_, fun hr ↦ ?_⟩
    · rw [hbuf] at hd
      exact h.nonzero d (by rw [hb]; exact List.mem_cons_of_mem c hd)
    · rw [hreq] at hr
      rw [h.req hr] at hb
      cases hb

/-- A key that is accepted while a request waits goes to the registers at once. -/
theorem Inv.kbdbufAdd_req (h : p.Inv) (hc : c ≠ 0) (hreq : p.scr.req = true) :
    (p.kbdbufAdd c).Inv ∧ (p.kbdbufAdd c).kbdata = c ∧ (p.kbdbufAdd c).kbdval = 1 := by
  have hb := h.req hreq
  rw [kbdbufAdd]
  cases hput : p.scr.kbdbufPut c with
  | none =>
    have hlen := Screen.length_of_full h.range hput
    rw [hb] at hlen
    cases hlen
  | some scr =>
    obtain ⟨hrange, hreq', hbuf⟩ := Screen.buffered_put h.range hput
    rw [hb, List.nil_append] at hbuf
    dsimp only
    rw [if_pos (hreq'.trans hreq)]
    have hi : Inv ⟨{ scr with req := false }, p.io⟩ := by
      refine ⟨⟨hrange.fpos, hrange.wpos⟩, fun d hd ↦ ?_, fun hf ↦ by cases hf⟩
      have hd' : d ∈ scr.buffered := hd
      rw [hbuf, List.mem_singleton] at hd'
      rwa [hd']
    obtain ⟨hdata, hval, -⟩ := update_cons hi.range hc hbuf
    exact ⟨hi.update, hdata, hval⟩

/-- Another key does not change the registers. -/
theorem Inv.kbdbufAdd_noreq (h : p.Inv) (hc : c ≠ 0) (hreq : p.scr.req = false) :
    (p.kbdbufAdd c).Inv ∧ (p.kbdbufAdd c).io = p.io := by
  rw [kbdbufAdd]
  cases hput : p.scr.kbdbufPut c with
  | none => exact ⟨h, rfl⟩
  | some scr =>
    obtain ⟨hrange, hreq', hbuf⟩ := Screen.buffered_put h.range hput
    have hno : scr.req = false := hreq'.trans hreq
    dsimp only
    rw [if_neg (by rw [hno]; exact Bool.false_ne_true)]
    refine ⟨⟨hrange, fun d hd ↦ ?_, fun hr ↦ ?_⟩, rfl⟩
    · rw [hbuf] at hd
      rcases List.mem_append.1 hd with hd | hd
      · exact h.nonzero d hd
      · rwa [List.mem_singleton.1 hd]
    · rw [hno] at hr
      cases hr

theorem Inv.exec (h : p.Inv) (hnz : ∀ c, e = .key c → c ≠ 0) : (p.exec e).Inv := by
  cases e with
  | key c =>
    cases hreq : p.scr.req with
    | true => exact (h.kbdbufAdd_req (hnz c rfl) hreq).1
    | false => exact (h.kbdbufAdd_noreq (hnz c rfl) hreq).1
  | write val =>
    rw [Port.exec, consoleIoOut]
    split
    · exact h.update
    · exact h

/-- The registers meet the specification where they are `Ready`, and only there. -/
theorem Inv.meets_iff (h : p.Inv) (hnz : ∀ c, e = .key c → c ≠ 0) : p.Meets e ↔ p.Ready e := by
  cases e with
  | key c =>
    refine iff_of_true ?_ trivial
    cases hreq : p.scr.req with
    | true =>
      rw [Meets, if_pos hreq]
      exact (h.kbdbufAdd_req (hnz c rfl) hreq).2
    | false =>
      obtain ⟨-, hio⟩ := h.kbdbufAdd_noreq (hnz c rfl) hreq
      rw [Meets, if_neg (by rw [hreq]; exact Bool.false_ne_true), kbdata, kbdval, hio]
      exact ⟨rfl, rfl⟩
  | write val =>
    rw [Meets, Ready]
    split
    · next hclear =>
      refine iff_of_true ?_ fun hset ↦ absurd hclear hset
      exact if_neg fun hset ↦ hset hclear
    · next hset =>
      have hout : p.consoleIoOut val = p.devstsKbdataUpdate := if_pos hset
      rw [hout]
      cases hb : p.scr.buffered with
      | cons c l =>
        have hc : c ≠ 0 := h.nonzero c (by rw [hb]; exact List.mem_cons_self)
        obtain ⟨hdata, hval, -⟩ := update_cons h.range hc hb
        exact iff_of_true ⟨hdata, hval⟩ fun _ hn ↦ by cases hn
      | nil =>
        -- what is written is 0, and the status stays as it was
        have hdata : p.devstsKbdataUpdate.kbdata = 0 := by
          rw [update_nil h.range hb, kbdata]
          exact ioKey_kbdata p.io 0
        have hval : p.devstsKbdataUpdate.kbdval = p.kbdval := by
          rw [update_nil h.range hb]
          exact kbdval_kbdata _ _ _ _
        simp only [hdata, hval]
        exact ⟨fun ⟨h₁, h₂⟩ _ _ ↦ ⟨h₁.symm, h₂⟩, fun hr ↦
          ⟨(hr hset trivial).1.symm, (hr hset trivial).2⟩⟩

/-- After any history of keys and writes, a write to `DEVSTS` does what the specification says if
and only if the low bit written is 0, a key is buffered, or both registers read 0 already. -/
theorem devsts_meets_iff (scr : Screen) (io : Nat → Nat) {es : List Event}
    (hnz : ∀ c, .key c ∈ es ++ [e] → c ≠ 0) :
    (es.foldl exec (opened scr io)).Meets e ↔ (es.foldl exec (opened scr io)).Ready e := by
  have hinv : (es.foldl exec (opened scr io)).Inv := by
    have hes : ∀ c, .key c ∈ es → c ≠ 0 := fun c hc ↦ hnz c (List.mem_append_left _ hc)
    clear hnz
    generalize hp : opened scr io = p
    have hi : p.Inv := hp ▸ Inv.opened scr io
    clear hp
    induction es generalizing p with
    | nil => exact hi
    | cons e es ih =>
      refine ih (fun c hc ↦ hes c (List.mem_cons_of_mem e hc)) _ (hi.exec fun c hc ↦ hes c ?_)
      rw [hc]
      exact List.mem_cons_self
  refine hinv.meets_iff fun c hc ↦ hnz c (List.mem_append_right _ ?_)
  rw [hc]
  exact List.mem_cons_self

/-- A key comes and is fetched; then there is none. -/
theorem devsts_meets_iff_two :
    ([.key 104, .write 1].foldl exec (opened ⟨false, 0, 0, fun _ ↦ 0⟩ fun _ ↦ 0)).Meets (.write 1) ↔
      ([.key 104, .write 1].foldl exec (opened ⟨false, 0, 0, fun _ ↦ 0⟩ fun _ ↦ 0)).Ready
        (.write 1) :=
  devsts_meets_iff _ _ (by simp)

/-- At the next write there is no key, so `KBDATA` is set to 0, but `DEVSTS` still says that it
holds one. -/
theorem devsts_stale :
    let p := [.key 104, .write 1].foldl exec (opened ⟨false, 0, 0, fun _ ↦ 0⟩ fun _ ↦ 0)
    p.scr.buffered = [] ∧ p.kbdata = 104 ∧ (p.consoleIoOut 1).kbdata = 0 ∧
      (p.consoleIoOut 1).kbdval = 1 := by
  decide

end Port

end Mh.Console
