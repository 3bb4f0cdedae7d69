import Mh.Lib.Run
import Mathlib.Data.List.Range

/-!
# The character list of the keyboard

`lib/libvtty/keyb.c`: the keys that have arrived and have not been read, in a list of chunks of
`CLIST_SIZE` keys.  `malloc` does not fail; what is in the memory that it returns is a parameter.

When the last chunk is full, `_clist_add` gets a new one, but stores the key at the position of the
full one, past the end of the buffer.  Up to then there is never more than one chunk, since a chunk
is released as soon as all that was written to it has been read.
-/

namespace Mh.Vtty

open Mh.Lib

/-- `CLIST_SIZE`. -/
def clistSize : Nat := 64

/-- `struct clist`. -/
structure Clist where
  read : Nat
  written : Nat
  buf : Nat → Int

/-- What must not happen: a write past the end of `buf`, and a failed assertion. -/
inductive Fault
  | overrun (i : Nat)
  | assertion
deriving DecidableEq, Repr

/-- `cl->buf[i] = c`. -/
def Clist.store (cl : Clist) (i : Nat) (c : Int) : Except Fault Clist :=
  if i < clistSize then .ok { cl with buf := Function.update cl.buf i c } else .error (.overrun i)

section Code

variable (mem : Nat → Int)

/-- `malloc`, and the assignments after it. -/
def newClist : Clist := ⟨0, 0, mem⟩

/-- `_clist_add`. -/
def clistAdd (clist : List Clist) (c : Int) : Except Fault (List Clist) :=
  match clist.getLast? with
  | none => do
    let cl := newClist mem
    let cl ← cl.store cl.written c
    return [{ cl with written := cl.written + 1 }]
  | some cl =>
    if clistSize ≤ cl.written then do
      -- the index is that of the full chunk
      let cn ← (newClist mem).store cl.written c
      return clist.dropLast ++ [{ cl with written := cl.written + 1 }, cn]
    else do
      let cl ← cl.store cl.written c
      return clist.dropLast ++ [{ cl with written := cl.written + 1 }]

/-- `clist_fetch`. -/
def clistFetch (clist : List Clist) : Except Fault (Int × List Clist) :=
  match clist with
  | [] => .ok (0, [])
  | cl :: rest =>
    if clistSize < cl.written ∨ cl.written < cl.read then .error .assertion
    else
      let (c, cl) := if cl.read < cl.written then (cl.buf cl.read, { cl with read := cl.read + 1 })
        else (0, cl)
      .ok (c, if cl.read = cl.written then rest else cl :: rest)

/-! ## Runs -/

/-- The calls. -/
inductive Op
  | add (c : Int)
  | fetch
deriving DecidableEq, Repr

/-- The list, the keys added, the values other than 0 that were fetched, and what the last call
returned if it was `clist_fetch`. -/
structure State where
  clist : List Clist
  added : List Int
  fetched : List Int
  ret : Option Int

/-- Nothing has been added. -/
def State.init : State := ⟨[], [], [], none⟩

/-- A call. -/
def State.exec (s : State) : Op → Except Fault State
  | .add c => do
    let clist ← clistAdd mem s.clist c
    return { s with clist, added := s.added ++ [c], ret := none }
  | .fetch => do
    let (c, clist) ← clistFetch s.clist
    return { s with clist, fetched := if c = 0 then s.fetched else s.fetched ++ [c], ret := some c }

/-- The calls of a list, one after the other. -/
def exec (ops : List Op) : Except Fault State :=
  ops.foldl (fun r op ↦ r >>= fun s ↦ s.exec mem op) (.ok .init)

/-- No fault, keys come out in order and each once, and 0 only when all have come out. -/
def Delivered (r : Except Fault State) : Prop :=
  ∃ s, r = .ok s ∧ s.fetched <+: s.added ∧ (s.ret = some 0 → s.fetched = s.added)

end Code

/-- How many keys wait, and how many have been added since none did, after one more call. -/
def track : Nat × Nat → Op → Nat × Nat
  | (w, b), .add _ => (w + 1, b + 1)
  | (w, b), .fetch => if w ≤ 1 then (0, 0) else (w - 1, b)

/-- The same after the calls of a list. -/
def backlog (ops : List Op) : Nat × Nat := ops.foldl track (0, 0)

/-! ## The chunk -/

namespace Clist

variable {cl : Clist} {c : Int}

/-- The keys of a chunk that have not been read. -/
def keys (cl : Clist) : List Int := (List.range' cl.read (cl.written - cl.read)).map cl.buf

/-- A chunk with one more key. -/
def push (cl : Clist) (c : Int) : Clist :=
  ⟨cl.read, cl.written + 1, Function.update cl.buf cl.written c⟩

/-- A key that is written is the last one. -/
theorem keys_push (h : cl.read ≤ cl.written) : (cl.push c).keys = cl.keys ++ [c] := by
  have hlen : cl.written + 1 - cl.read = cl.written - cl.read + 1 := by omega
  have hlast : cl.read + (cl.written - cl.read) = cl.written := by omega
  have hkeys : (cl.push c).keys = (List.range' cl.read (cl.written + 1 - cl.read)).map
      (Function.update cl.buf cl.written c) := rfl
  rw [hkeys, hlen, List.range'_1_concat, List.map_append, List.map_singleton, hlast,
    Function.update_self, keys]
  congr 1
  refine List.map_congr_left fun i hi ↦ Function.update_of_ne ?_ _ _
  rw [List.mem_range'_1] at hi
  omega

/-- The key that is read is the first one. -/
theorem keys_read (h : cl.read < cl.written) :
    cl.keys = cl.buf cl.read :: (Clist.mk (cl.read + 1) cl.written cl.buf).keys := by
  have hlen : cl.written - cl.read = cl.written - (cl.read + 1) + 1 := by omega
  rw [keys, hlen, List.range'_succ, List.map_cons, keys]

/-- All has been read. -/
theorem keys_nil (h : cl.read = cl.written) : cl.keys = [] := by
  rw [keys, h, Nat.sub_self, List.range'_zero, List.map_nil]

end Clist

/-! ## Every key once -/

section Runs

variable {mem : Nat → Int} {s : State} {op : Op} {ops : List Op} {p : Nat × Nat}

/-- The list is empty, or one chunk with keys that have not been read. -/
inductive Inv : Nat × Nat → State → Prop
  | empty {added ret} : Inv (0, 0) ⟨[], added, added, ret⟩
  | chunk (cl : Clist) {added fetched ret} : cl.read < cl.written → cl.written ≤ clistSize →
      added = fetched ++ cl.keys → (∀ c ∈ cl.keys, c ≠ 0) → ret ≠ some 0 →
      Inv (cl.written - cl.read, cl.written) ⟨[cl], added, fetched, ret⟩

/-- What the invariant promises. -/
theorem Inv.delivered (h : Inv p s) : Delivered (.ok s) := by
  cases h with
  | empty => exact ⟨_, rfl, List.prefix_refl _, fun _ ↦ rfl⟩
  | chunk _ _ _ hk _ hr => exact ⟨_, rfl, ⟨_, hk.symm⟩, fun h ↦ absurd h hr⟩

/-- A key is added to a chunk that is not full. -/
theorem clistAdd_room {cl : Clist} (h : cl.written < clistSize) (c : Int) :
    clistAdd mem [cl] c = .ok [cl.push c] := by
  simp only [clistAdd, List.getLast?_singleton, if_neg (Nat.not_le.2 h), Clist.store, if_pos h]
  rfl

/-- But a key is lost past the end of the buffer if the chunk is full. -/
theorem clistAdd_full {cl : Clist} (h : clistSize ≤ cl.written) (c : Int) :
    clistAdd mem [cl] c = .error (.overrun cl.written) := by
  simp only [clistAdd, List.getLast?_singleton, if_pos h, Clist.store, if_neg (Nat.not_lt.2 h)]
  rfl

/-- A fetch takes the first key of a chunk, and the chunk goes with its last key. -/
theorem clistFetch_chunk {cl : Clist} (hlt : cl.read < cl.written) (hle : cl.written ≤ clistSize) :
    clistFetch [cl] = .ok (cl.buf cl.read,
      if cl.read + 1 = cl.written then [] else [⟨cl.read + 1, cl.written, cl.buf⟩]) := by
  have hok : ¬ (clistSize < cl.written ∨ cl.written < cl.read) := by omega
  simp only [clistFetch, if_neg hok, if_pos hlt]

/-- A key is added where there is room. -/
theorem Inv.add (h : Inv p s) {c : Int} (hc : c ≠ 0) (hb : p.2 < clistSize) :
    ∃ t, s.exec mem (.add c) = .ok t ∧ Inv (track p (.add c)) t := by
  cases h with
  | @empty added ret =>
    refine ⟨⟨[(newClist mem).push c], added ++ [c], added, none⟩, rfl, ?_⟩
    have hk : ((newClist mem).push c).keys = [c] := Clist.keys_push (le_refl 0)
    refine .chunk ((newClist mem).push c) Nat.one_pos (Nat.le_of_ble_eq_true rfl) ?_ ?_ ?_
    · rw [hk]
    · rw [hk]
      intro d hd
      rwa [List.mem_singleton.1 hd]
    · simp
  | @chunk cl added fetched ret hlt hle hk hnz hr =>
    refine ⟨⟨[cl.push c], added ++ [c], fetched, none⟩, ?_, ?_⟩
    · rw [State.exec, clistAdd_room hb]
      rfl
    · have hlen : track (cl.written - cl.read, cl.written) (.add c) =
          ((cl.push c).written - (cl.push c).read, (cl.push c).written) := by
        refine Prod.ext ?_ rfl
        simp only [track, Clist.push]
        omega
      rw [hlen]
      have hkeys : (cl.push c).keys = cl.keys ++ [c] := Clist.keys_push hlt.le
      refine .chunk (cl.push c) (Nat.lt_succ_of_lt hlt) hb ?_ ?_ (by simp)
      · rw [hkeys, hk, List.append_assoc]
      · rw [hkeys]
        intro d hd
        rcases List.mem_append.1 hd with hd | hd
        · exact hnz d hd
        · rwa [List.mem_singleton.1 hd]

/-- A fetch gives the first key, if there is one. -/
theorem Inv.fetch (mem : Nat → Int) (h : Inv p s) :
    ∃ t, s.exec mem .fetch = .ok t ∧ Inv (track p .fetch) t := by
  cases h with
  | @empty added ret => exact ⟨⟨[], added, added, some 0⟩, rfl, .empty⟩
  | @chunk cl added fetched ret hlt hle hk hnz hr =>
    have hkeys := Clist.keys_read hlt
    have hne : cl.buf cl.read ≠ 0 := hnz _ (by rw [hkeys]; exact List.mem_cons_self)
    have hexec : State.exec mem ⟨[cl], added, fetched, ret⟩ .fetch =
        .ok ⟨if cl.read + 1 = cl.written then [] else [⟨cl.read + 1, cl.written, cl.buf⟩], added,
          fetched ++ [cl.buf cl.read], some (cl.buf cl.read)⟩ := by
      rw [State.exec, clistFetch_chunk hlt hle]
      simp only [bind, Except.bind, pure, Except.pure, if_neg hne]
    refine ⟨_, hexec, ?_⟩
    have hret : some (cl.buf cl.read) ≠ some 0 := fun he ↦ hne (Option.some.inj he)
    split
    · next hlast =>
      have htrack : track (cl.written - cl.read, cl.written) .fetch = (0, 0) :=
        if_pos (by omega)
      rw [htrack, hk, hkeys, Clist.keys_nil hlast]
      exact .empty
    · next hmore =>
      have htrack : track (cl.written - cl.read, cl.written) .fetch =
          (cl.written - (cl.read + 1), cl.written) := by
        rw [track, if_neg (by omega)]
        exact Prod.ext (by simp only; omega) rfl
      rw [htrack]
      refine .chunk ⟨cl.read + 1, cl.written, cl.buf⟩ ?_ hle ?_ ?_ hret
      · simp only
        omega
      · rw [hk, hkeys, List.append_assoc, List.singleton_append]
      · intro d hd
        exact hnz d (by rw [hkeys]; exact List.mem_cons_of_mem _ hd)

/-- A key that is added where there is no room is written past the end. -/
theorem Inv.overrun (h : Inv p s) {c : Int} (hb : clistSize ≤ p.2) :
    s.exec mem (.add c) = .error (.overrun clistSize) := by
  cases h with
  | empty => exact absurd hb (by decide)
  | @chunk cl added fetched ret hlt hle hk hnz hr =>
    rw [State.exec, clistAdd_full hb, Nat.le_antisymm hle hb]
    rfl

theorem exec_replicate_succ (mem : Nat → Int) (c : Int) (n : Nat) :
    exec mem (List.replicate (n + 1) (.add c)) =
      exec mem (List.replicate n (.add c)) >>= fun s ↦ s.exec mem (.add c) := by
  rw [List.replicate_succ', exec, List.foldl_append]
  rfl

/-- There is room for `CLIST_SIZE` keys. -/
theorem exec_replicate (mem : Nat → Int) {c : Int} (hc : c ≠ 0) {n : Nat} (hn : n ≤ clistSize) :
    ∃ s, exec mem (List.replicate n (.add c)) = .ok s ∧ Inv (n, n) s := by
  induction n with
  | zero => exact ⟨.init, rfl, .empty⟩
  | succ n ih =>
    obtain ⟨s, hs, hi⟩ := ih (Nat.le_of_succ_le hn)
    rw [exec_replicate_succ, hs]
    exact hi.add hc hn

/-- A call, with what the condition on runs counts. -/
def execTrack (mem : Nat → Int) (x : (Nat × Nat) × Except Fault State) (op : Op) :
    (Nat × Nat) × Except Fault State :=
  (track x.1 op, x.2 >>= fun s ↦ s.exec mem op)

theorem foldl_execTrack (ops : List Op) :
    ops.foldl (execTrack mem) ((0, 0), .ok .init) = (backlog ops, exec mem ops) := by
  rw [backlog, exec]
  generalize ((0, 0) : Nat × Nat) = p
  generalize (.ok .init : Except Fault State) = r
  induction ops generalizing p r with
  | nil => rfl
  | cons op ops ih => exact ih _ _

/-- The list delivers all keys, in all states it passes, if and only if a key is only added when
fewer than `CLIST_SIZE` keys have been added since the list was last empty. -/
theorem keys_delivered_iff (hnz : ∀ c, .add c ∈ ops → c ≠ 0) :
    (∀ q, q <+: ops → Delivered (exec mem q)) ↔
      ∀ q c, q ++ [.add c] <+: ops → (backlog q).2 < clistSize := by
  have hstep : ∀ x, ∀ op ∈ ops, (∃ s, x.2 = .ok s ∧ Inv x.1 s) →
      (∀ c, op = .add c → x.1.2 < clistSize) →
      ∃ s, (execTrack mem x op).2 = .ok s ∧ Inv (execTrack mem x op).1 s := by
    rintro ⟨p, r⟩ op hop ⟨s, rfl, hi⟩ hroom
    cases op with
    | add c => exact hi.add (hnz c hop) (hroom c rfl)
    | fetch => exact hi.fetch mem
  have hroom : ∀ x, ∀ op ∈ ops, (∃ s, x.2 = .ok s ∧ Inv x.1 s) →
      Delivered (execTrack mem x op).2 → ∀ c, op = .add c → x.1.2 < clistSize := by
    rintro ⟨p, r⟩ _ - ⟨s, rfl, hi⟩ ⟨t, ht, -⟩ c rfl
    by_contra hfull
    have hfault : s.exec mem (.add c) = .ok t := ht
    rw [hi.overrun (Nat.le_of_not_lt hfull)] at hfault
    cases hfault
  have hfold := foldl_prefix_iff hstep (P := fun x ↦ Delivered x.2)
    (fun x ⟨s, hs, hi⟩ ↦ hs ▸ hi.delivered) hroom (s := ((0, 0), .ok .init)) ⟨.init, rfl, .empty⟩
  simp only [foldl_execTrack] at hfold
  rw [hfold]
  constructor
  · intro h q c hq
    exact h q (.add c) hq c rfl
  · rintro h q _ hq c rfl
    exact h q c hq

/-- Two keys, and a fetch between them. -/
theorem keys_delivered_iff_two :
    (∀ q, q <+: [.add 97, .fetch, .add 98] → Delivered (exec (fun _ ↦ 0) q)) ↔
      ∀ q c, q ++ [.add c] <+: [.add 97, .fetch, .add 98] → (backlog q).2 < clistSize :=
  keys_delivered_iff (by simp)

/-- The 65th key that nobody has read is written past the end of the new chunk. -/
theorem keys_not_delivered :
    exec (fun _ ↦ 0) (List.replicate 65 (.add 97)) = .error (.overrun 64) := by
  obtain ⟨s, hs, hi⟩ := exec_replicate (fun _ ↦ 0) (c := 97) (by decide) le_rfl
  rw [show (65 : Nat) = clistSize + 1 from rfl, exec_replicate_succ, hs]
  exact hi.overrun (le_refl clistSize)

end Runs

end Mh.Vtty
