import Mh.Bus.IoSpace
import Mh.Lib.RingBuf

/-!
# Keys on their way to a client

The keyboard half of `sys/bootstrap/console.c`, and the loop of its client, `__lwt_vttykbd` of
`libvtty`.  The client asks for a key by a write to `CONSIO_DEVSTS` and waits for the event of
`CONSIO_IRQ_KBDATA`; the console puts a key in the I/O space of the client and raises the
interrupt, at once or when the next key arrives.

The client is on the current screen, and has mapped the interrupt.  The handlers of the console are
LWTs and do not interrupt each other, but the client runs between their system calls.  The keys
that were accepted and those that were read are kept for the statements.
-/

namespace Mh.Console

open Mh.Lib Mh.Bus

/-- A key. -/
abbrev Key := BitVec 16

/-- `KBDBUF_SIZE`. -/
def kbdbufSize : Nat := 16

/-- `CONSIO_DEVSTS`. -/
def consioDevsts : Nat := 0

/-- `CONSIO_DEVSTS_KBDVAL`. -/
def consioDevstsKbdval : Nat := 1

/-- `CONSIO_KBDATA`. -/
def consioKbdata : Nat := 1

/-! ## The screen -/

/-- `struct screen`, its keyboard part. -/
structure Screen where
  req : Bool
  fpos : Nat
  wpos : Nat
  kbdbuf : Nat → Key

namespace Screen

variable (s : Screen)

/-- `console_io_open`. -/
def consoleIoOpen : Screen := { s with req := false, fpos := 0, wpos := 0 }

/-- The first half of `kbdbuf_add`: the key is stored, unless there is no room. -/
def kbdbufPut (c : Key) : Option Screen :=
  if (s.wpos + 1) % kbdbufSize = s.fpos then none
  else some { s with
    kbdbuf := Function.update s.kbdbuf s.wpos c
    wpos := (s.wpos + 1) % kbdbufSize }

/-- `kbdfetch`.  What it does to a negative `len` has no effect. -/
def kbdfetch : Key × Screen :=
  let len : Int := s.wpos - s.fpos
  if len = 0 then (0, s)
  else (s.kbdbuf (s.fpos % kbdbufSize), { s with fpos := (s.fpos + 1) % kbdbufSize })

/-- The keys that wait in the buffer. -/
def buffered : List Key := RingBuf.contents kbdbufSize ⟨s.kbdbuf, s.fpos, s.wpos⟩

end Screen

/-! ## The I/O space -/

/-- `usrdev_wriospace`, on the I/O space of the client. -/
def wriospace (io : Nat → Nat) (port : BitVec 32) (val : Nat) : Nat → Nat := fun i ↦
  let (start, n) := Usrdev.ioRange port.toNat
  if start ≤ i ∧ i < start + n then val / 256 ^ (i - start) % 256 else io i

/-- `_usrdev_in`. -/
def ioin (io : Nat → Nat) (port : BitVec 32) : Nat :=
  let (start, n) := Usrdev.ioRange port.toNat
  bytesVal fun i ↦ if i < n then io (start + i) else 255

/-- `(int)val & 0xffff`. -/
def keyOf (val : Nat) : Key := .ofNat 16 val

/-! ## The parties -/

/-- Where the console is: in no handler; in `devsts_kbdata_update`, with what `kbdfetch` has
returned; past the write of a key; past the write of the status. -/
inductive Server
  | idle
  | fetched (val : Key)
  | wrote
  | status
deriving DecidableEq, Repr

/-- Where the client is: at `dout`, `evtwait`, `din`, `_clist_add` or `evtclear`. -/
inductive Client
  | dout
  | evtwait
  | din
  | clist (val : Nat)
  | evtclear
deriving DecidableEq, Repr

/-- The parties and what is between them: the requests that wait for the console, by the word
written to `CONSIO_DEVSTS`; the interrupt, until it is delivered to the client; the event. -/
structure State where
  scr : Screen
  io : Nat → Nat
  ioreqs : List Nat
  irq : Bool
  keybevt : Bool
  server : Server
  client : Client
  accepted : List Key
  read : List Key

/-- The screen has been opened, and the client is about to enter its loop. -/
def opened (scr : Screen) (io : Nat → Nat) : State :=
  ⟨scr.consoleIoOpen, io, [], false, false, .idle, .dout, [], []⟩

/-- What happens: a key arrives; the console takes a request, or makes the next system call of
`devsts_kbdata_update`; the interrupt is delivered; the client makes its next step. -/
inductive Label
  | key (c : Key)
  | poll
  | kbdata
  | devsts
  | raise
  | intr
  | dout
  | evtwait
  | din
  | clist
  | evtclear
deriving DecidableEq, Repr

namespace State

variable (s : State)

/-- `devsts_kbdata_update`, up to its first system call. -/
def update (scr : Screen) : State :=
  { s with scr := scr.kbdfetch.2, server := .fetched scr.kbdfetch.1 }

/-- `kbdbuf_add`, up to the first system call. -/
def kbdbufAdd (c : Key) : State :=
  match s.scr.kbdbufPut c with
  | none => s
  | some scr =>
    let s' := { s with accepted := s.accepted ++ [c] }
    if scr.req then s'.update { scr with req := false } else { s' with scr }

/-- `console_io_out`, of a write of `val` to `CONSIO_DEVSTS`, up to the first system call. -/
def consoleIoOut (val : Nat) : State :=
  if val &&& consioDevstsKbdval ≠ 0 then s.update s.scr else s

/-- The first system call of `devsts_kbdata_update`, and what it does if there was no key. -/
def kbdata (val : Key) : State :=
  let s' := { s with io := wriospace s.io (ioport consioKbdata 1) val.toNat }
  if val = 0 then { s' with scr := { s.scr with req := true }, server := .idle }
  else { s' with server := .wrote }

/-- The step with a label, where it can be taken.  The handler of the keyboard, `__kbd_ast`, calls
`kbdbuf_add` with keys that are not 0. -/
def stepAt : Label → Option State
  | .key c => if s.server = .idle ∧ c ≠ 0 then some (s.kbdbufAdd c) else none
  | .poll =>
    match s.server, s.ioreqs with
    | .idle, val :: vals => some ({ s with ioreqs := vals }.consoleIoOut val)
    | _, _ => none
  | .kbdata =>
    match s.server with
    | .fetched val => some (s.kbdata val)
    | _ => none
  | .devsts =>
    if s.server = .wrote then
      some { s with
        io := wriospace s.io (ioport consioDevsts 0) consioDevstsKbdval
        server := .status }
    else none
  | .raise => if s.server = .status then some { s with irq := true, server := .idle } else none
  | .intr => if s.irq then some { s with irq := false, keybevt := true } else none
  | .dout =>
    if s.client = .dout then
      some { s with ioreqs := s.ioreqs ++ [consioDevstsKbdval], client := .evtwait }
    else none
  | .evtwait =>
    if s.client = .evtwait ∧ s.keybevt then some { s with client := .din } else none
  | .din =>
    if s.client = .din then some { s with client := .clist (ioin s.io (ioport consioKbdata 1)) }
    else none
  | .clist =>
    match s.client with
    | .clist val => some { s with read := s.read ++ [keyOf val], client := .evtclear }
    | _ => none
  | .evtclear =>
    if s.client = .evtclear then some { s with keybevt := false, client := .dout } else none

end State

/-- A step. -/
def Step (s : State) (a : Label) (t : State) : Prop := s.stepAt a = some t

/-- A step in which no key arrives. -/
def Quiet (s : State) (a : Label) (t : State) : Prop := Step s a t ∧ ∀ c, a ≠ .key c

end Mh.Console
