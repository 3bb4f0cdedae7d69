import Mh.Lib.RingBuf
import Mh.Lib.Run
import Mh.Param

/-!
# The kernel log

The ring buffer of `klogdev.c`, on any number of CPUs.  `klog_putc` and `_klog_getc` read `_c` and
`_p` before they take the lock, and write what they have computed from them when they hold it; a
call is two steps, and between the two the other CPUs take theirs.

Beside the variables of the code a state records the characters that have been put into the buffer
and those that have been read from it, in the order of the locked sections, and for each CPU
whether the buffer has been full since its call began.
-/

namespace Mh.Klog

open Mh.Lib (RingBuf)

/-- `KLOGBUFSZ`. -/
def klogBufSz : Nat := 64 * 1024

/-- `seq`. -/
def seq (v : Nat) : Nat := (v + 1) % klogBufSz

/-- `klogbuf`, `_c`, `_p` and `logsize`. -/
structure Buf where
  klogbuf : Nat → UInt8
  c : Nat
  p : Nat
  logsize : Nat

namespace Buf

/-- The locked section of `klog_putc`, from the `_c` and `_p` that it has read. -/
def klogPutc (k : Buf) (ch : UInt8) (c p : Nat) : Buf :=
  if seq p ≠ c then
    { k with
      klogbuf := Function.update k.klogbuf p ch
      p := seq p
      logsize := w32 (k.logsize + 1) }
  else k

/-- The locked section of `_klog_getc`, and the character, unless the buffer was found empty. -/
def klogGetc (k : Buf) (c p : Nat) : Option UInt8 × Buf :=
  if c ≠ p then
    (some (k.klogbuf c), { k with c := seq c, logsize := w32 (k.logsize + (2 ^ 32 - 1)) })
  else (none, k)

/-- The number of characters in the buffer, by its indices. -/
def held (k : Buf) : Nat := (k.p + klogBufSz - k.c) % klogBufSz

/-- The ring buffer. -/
def ring (k : Buf) : RingBuf UInt8 := ⟨k.klogbuf, k.c, k.p⟩

end Buf

/-- What a CPU does between reading the indices and taking the lock. -/
inductive Call
  | putc (ch : UInt8) (c p : Nat)
  | getc (c p : Nat)
deriving DecidableEq, Repr

/-- The log, the calls in progress, and what is recorded. -/
structure State (Cpu : Type) where
  klog : Buf
  call : Cpu → Option Call
  accepted : List UInt8
  taken : List UInt8
  wasFull : Cpu → Bool

/-- A call begins, or its locked section runs. -/
inductive Op (Cpu : Type)
  | putc (i : Cpu) (ch : UInt8)
  | getc (i : Cpu)
  | locked (i : Cpu)
deriving DecidableEq, Repr

/-- The buffer as it is at first. -/
def boot {Cpu : Type} : State Cpu where
  klog := ⟨fun _ ↦ 0, 0, 0, 0⟩
  call _ := none
  accepted := []
  taken := []
  wasFull _ := false

namespace State

variable {Cpu : Type} [DecidableEq Cpu]

/-- A CPU reads the indices. -/
def begin (s : State Cpu) (i : Cpu) (call : Call) : Option (State Cpu) :=
  if s.call i = none then
    some { s with
      call := Function.update s.call i (some call)
      wasFull := Function.update s.wasFull i (s.klog.held + 1 = klogBufSz) }
  else none

/-- The log is written by the locked section of `i`. -/
def finish (s : State Cpu) (i : Cpu) (klog : Buf) : State Cpu :=
  { s with
    klog := klog
    call := Function.update s.call i none
    wasFull := fun j ↦ s.wasFull j || klog.held + 1 = klogBufSz }

/-- A step. -/
def step (s : State Cpu) : Op Cpu → Option (State Cpu)
  | .putc i ch => s.begin i (.putc ch s.klog.c s.klog.p)
  | .getc i => s.begin i (.getc s.klog.c s.klog.p)
  | .locked i =>
    match s.call i with
    | some (.putc ch c p) =>
      some { s.finish i (s.klog.klogPutc ch c p) with
        accepted := if seq p ≠ c then s.accepted ++ [ch] else s.accepted }
    | some (.getc c p) =>
      let r := s.klog.klogGetc c p
      some { s.finish i r.2 with taken := s.taken ++ r.1.toList }
    | none => none

end State

/-- A step that is taken. -/
def Step {Cpu : Type} [DecidableEq Cpu] (s : State Cpu) (op : Op Cpu) (s' : State Cpu) : Prop :=
  s.step op = some s'

end Mh.Klog

/-!
## When the kernel log is a queue

`KlogOk` says that the buffer is a queue: what has been read is what has been put into it, as far
as it has been read, and the rest is in the buffer; `logsize` is its length; and a character is
dropped only when the buffer was full.

Two `klog_putc` that read the same `_p` write to the same slot, and two `_klog_getc` return the
same character.  The log is right as long as a locked section that is to change an index finds it
as it was read, and still has room, or still has a character (`klog_kept`).
-/

namespace Mh.Klog

open Mh.Lib (Run RingBuf)

variable {Cpu : Type} [DecidableEq Cpu] {s s' : State Cpu} {k : Buf} {i : Cpu} {ch : UInt8}
  {c p : Nat} {op : Op Cpu} {ops : List (Op Cpu)}

/-- The log is a queue. -/
structure KlogOk (s : State Cpu) : Prop where
  size : (∀ i, s.call i = none) → s.klog.logsize = s.klog.held
  dropped : ∀ i ch c p, s.call i = some (.putc ch c p) → seq p = c → s.wasFull i = true
  order : s.accepted = s.taken ++ s.klog.ring.contents klogBufSz
  empty : ∀ i c s', s.call i = some (.getc c c) → s.step (.locked i) = some s' → s'.klog = s.klog

/-- A locked section that changes an index finds it as it was read; a `klog_putc` that has found
room still has, and a `_klog_getc` that has found a character still has. -/
structure KlogSafe (s : State Cpu) (op : Op Cpu) : Prop where
  putc : ∀ i ch c p, op = .locked i → s.call i = some (.putc ch c p) → seq p ≠ c →
    p = s.klog.p ∧ seq p ≠ s.klog.c
  getc : ∀ i c p, op = .locked i → s.call i = some (.getc c p) → c ≠ p →
    c = s.klog.c ∧ c ≠ s.klog.p

/-- The invariant. -/
structure KInv (s : State Cpu) : Prop where
  inRange : s.klog.ring.InRange klogBufSz
  size : s.klog.logsize = s.klog.held
  dropped : ∀ i ch c p, s.call i = some (.putc ch c p) → seq p = c → s.wasFull i = true
  order : s.accepted = s.taken ++ s.klog.ring.contents klogBufSz

theorem klogBufSz_pos : 0 < klogBufSz := by decide

namespace Buf

/-- The locked section of `klog_putc` puts the character into the buffer. -/
theorem ring_klogPutc (h : seq k.p ≠ c) : (k.klogPutc ch c k.p).ring = k.ring.put klogBufSz ch := by
  rw [klogPutc, if_pos h]
  rfl

/-- The locked section of `_klog_getc` takes the character off. -/
theorem ring_klogGetc (h : k.c ≠ p) : (k.klogGetc k.c p).2.ring = k.ring.get klogBufSz := by
  rw [klogGetc, if_pos h]
  rfl

theorem held_lt (k : Buf) : k.held < klogBufSz := Nat.mod_lt _ klogBufSz_pos

/-- A buffer in which no room is found is full. -/
theorem held_full (h : k.ring.InRange klogBufSz) (hf : seq k.p = k.c) :
    k.held + 1 = klogBufSz := by
  have hc : k.c < klogBufSz := h.head
  have hp : k.p < klogBufSz := h.tail
  rw [seq, Mh.Lib.RingBuf.mod_eq (by omega)] at hf
  rw [held, Mh.Lib.RingBuf.mod_eq (by omega)]
  split at hf <;> split <;> omega

end Buf

namespace KInv

omit [DecidableEq Cpu] in
theorem boot : KInv (boot : State Cpu) := by
  have hring : (Mh.Klog.boot : State Cpu).klog.ring.contents klogBufSz = [] :=
    RingBuf.contents_empty rfl
  refine ⟨⟨klogBufSz_pos, klogBufSz_pos⟩, ?_, fun i ch c p h ↦ ?_, ?_⟩
  · show 0 = (0 + klogBufSz - 0) % klogBufSz
    rw [Nat.zero_add, Nat.sub_zero, Nat.mod_self]
  · cases h
  · rw [hring]
    rfl

/-- A call begins: a `klog_putc` that finds no room finds the buffer full. -/
theorem begin {call : Call} (h : KInv s) (hs : s.begin i call = some s')
    (hcall : ∀ ch c p, call = .putc ch c p → c = s.klog.c ∧ p = s.klog.p) : KInv s' := by
  rw [State.begin] at hs
  split at hs
  · cases hs
    refine ⟨h.inRange, h.size, fun j ch c p hj hf ↦ ?_, h.order⟩
    dsimp only at hj ⊢
    by_cases hji : j = i
    · subst hji
      rw [Function.update_self] at hj ⊢
      obtain ⟨rfl, rfl⟩ := hcall ch c p (Option.some.inj hj)
      exact decide_eq_true (Buf.held_full h.inRange hf)
    · rw [Function.update_of_ne hji] at hj ⊢
      exact h.dropped j ch c p hj hf
  · cases hs

/-- The calls that are still in progress. -/
theorem finish (h : KInv s) (k : Buf) :
    ∀ j ch c p, (s.finish i k).call j = some (.putc ch c p) → seq p = c →
      (s.finish i k).wasFull j = true := by
  intro j ch c p hj hf
  change Function.update s.call i none j = _ at hj
  show (s.wasFull j || _) = true
  by_cases hji : j = i
  · rw [hji, Function.update_self] at hj
    cases hj
  · rw [Function.update_of_ne hji] at hj
    rw [h.dropped j ch c p hj hf, Bool.true_or]

/-- A safe step keeps the log a queue. -/
theorem step (h : KInv s) (hs : Step s op s') (hsafe : KlogSafe s op) : KInv s' := by
  cases op with
  | putc i ch => exact h.begin hs fun _ _ _ he ↦ by cases he; exact ⟨rfl, rfl⟩
  | getc i => exact h.begin hs fun _ _ _ he ↦ by cases he
  | locked i =>
      have hlt := s.klog.held_lt
      simp only [Step, State.step] at hs
      split at hs
      · next ch c p hc =>
          cases hs
          have hdrop := h.finish (i := i) (s.klog.klogPutc ch c p)
          by_cases hf : seq p ≠ c
          · obtain ⟨rfl, hroom⟩ := hsafe.putc i ch c p rfl hc hf
            have hring := @Buf.ring_klogPutc _ ch _ hf
            have hput := h.inRange.size_put hroom ch
            refine ⟨?_, ?_, hdrop, ?_⟩
            · show (s.klog.klogPutc ch c s.klog.p).ring.InRange klogBufSz
              rw [hring]
              exact h.inRange.put ch
            · show (s.klog.klogPutc ch c s.klog.p).logsize =
                (s.klog.klogPutc ch c s.klog.p).ring.size klogBufSz
              have hl : (s.klog.klogPutc ch c s.klog.p).logsize = w32 (s.klog.logsize + 1) := by
                rw [Buf.klogPutc, if_pos hf]
              rw [hring, hput, hl, h.size]
              exact Nat.mod_eq_of_lt (Nat.lt_of_le_of_lt hlt (by decide))
            · show (if seq s.klog.p ≠ c then s.accepted ++ [ch] else s.accepted) =
                s.taken ++ (s.klog.klogPutc ch c s.klog.p).ring.contents klogBufSz
              rw [if_pos hf, hring, h.inRange.contents_put hroom, h.order, List.append_assoc]
          · have hsame : s.klog.klogPutc ch c p = s.klog := if_neg hf
            rw [hsame] at hdrop ⊢
            refine ⟨h.inRange, h.size, hdrop, ?_⟩
            show (if seq p ≠ c then s.accepted ++ [ch] else s.accepted) = _
            rw [if_neg hf]
            exact h.order
      · next c p hc =>
          cases hs
          have hdrop := h.finish (i := i) (s.klog.klogGetc c p).2
          by_cases he : c ≠ p
          · obtain ⟨rfl, hne⟩ := hsafe.getc i c p rfl hc he
            have hring := Buf.ring_klogGetc he
            have hget : s.klog.held = (s.klog.ring.get klogBufSz).size klogBufSz + 1 :=
              h.inRange.size_get hne
            refine ⟨?_, ?_, hdrop, ?_⟩
            · show (s.klog.klogGetc s.klog.c p).2.ring.InRange klogBufSz
              rw [hring]
              exact h.inRange.get
            · show (s.klog.klogGetc s.klog.c p).2.logsize =
                (s.klog.klogGetc s.klog.c p).2.ring.size klogBufSz
              have hl : (s.klog.klogGetc s.klog.c p).2.logsize =
                  w32 (s.klog.logsize + (2 ^ 32 - 1)) := by
                rw [Buf.klogGetc, if_pos he]
              rw [hring, hl, h.size, w32]
              simp only [klogBufSz] at hlt
              omega
            · show s.accepted = s.taken ++ (s.klog.klogGetc s.klog.c p).1.toList ++
                (s.klog.klogGetc s.klog.c p).2.ring.contents klogBufSz
              have hch : (s.klog.klogGetc s.klog.c p).1 = some (s.klog.klogbuf s.klog.c) := by
                rw [Buf.klogGetc, if_pos he]
              rw [hring, hch, h.order, h.inRange.contents_get hne, List.append_assoc]
              rfl
          · have hsame : s.klog.klogGetc c p = (none, s.klog) := if_neg he
            rw [hsame] at hdrop ⊢
            refine ⟨h.inRange, h.size, hdrop, ?_⟩
            show s.accepted = s.taken ++ [] ++ _
            rw [List.append_nil]
            exact h.order
      · cases hs

theorem klogOk (h : KInv s) : KlogOk s where
  size _ := h.size
  dropped := h.dropped
  order := h.order
  empty i c s' hc hs := by
    simp only [State.step, hc] at hs
    cases hs
    exact congrArg Prod.snd (if_neg (not_not.2 rfl))

end KInv

/-- In a run whose locked sections find the indices that they change as they were read, the log is
a queue in every state. -/
theorem klog_kept (h : Run (fun s op s' ↦ Step s op s' ∧ KlogSafe s op) (boot : State Cpu) ops s) :
    KlogOk s :=
  (h.invariant (I := KInv) (fun _ _ _ hI hs ↦ hI.step hs.1 hs.2) KInv.boot).klogOk

omit [DecidableEq Cpu] in
/-- A step that is no locked section is safe. -/
theorem klogSafe (h : ∀ i, op ≠ .locked i) : KlogSafe s op :=
  ⟨fun i _ _ _ he ↦ absurd he (h i), fun i _ _ he ↦ absurd he (h i)⟩

/-- One CPU reads a character while the other one prints. -/
theorem klog_kept_two : ∃ s : State Bool, Run (fun s op s' ↦ Step s op s' ∧ KlogSafe s op) boot
    [.putc true 104, .locked true, .putc false 105, .getc true, .locked false, .locked true] s ∧
      s.accepted = [104, 105] ∧ s.taken = [104] ∧ KlogOk s := by
  have h : Run (fun s op s' ↦ Step s op s' ∧ KlogSafe s op) (boot : State Bool)
      [.putc true 104, .locked true, .putc false 105, .getc true, .locked false, .locked true] _ :=
    .cons ⟨rfl, klogSafe nofun⟩ <|
    .cons ⟨rfl, by rintro i ch c p ⟨⟩ ⟨⟩ -; decide, by rintro i c p ⟨⟩ ⟨⟩⟩ <|
    .cons ⟨rfl, klogSafe nofun⟩ <| .cons ⟨rfl, klogSafe nofun⟩ <|
    .cons ⟨rfl, by rintro i ch c p ⟨⟩ ⟨⟩ -; decide, by rintro i c p ⟨⟩ ⟨⟩⟩ <|
    .cons ⟨rfl, by rintro i ch c p ⟨⟩ ⟨⟩, by rintro i c p ⟨⟩ ⟨⟩ -; decide⟩ (.nil _)
  exact ⟨_, h, rfl, rfl, klog_kept h⟩

/-- Two CPUs print at the same time: both characters are accepted, and one is in the buffer. -/
theorem klog_lost : ∃ s : State Bool, Run Step boot
    [.putc true 97, .putc false 98, .locked true, .locked false] s ∧ (∀ i, s.call i = none) ∧
      s.accepted = [97, 98] ∧ s.klog.logsize = 2 ∧ s.klog.held = 1 ∧ ¬KlogOk s := by
  have h : Run Step (boot : State Bool)
      [.putc true 97, .putc false 98, .locked true, .locked false] _ :=
    .cons rfl <| .cons rfl <| .cons rfl <| .cons rfl (.nil _)
  refine ⟨_, h, by decide, rfl, rfl, by decide, fun hok ↦ ?_⟩
  have hs := hok.size (by decide)
  revert hs
  decide

end Mh.Klog
