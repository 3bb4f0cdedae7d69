import Mathlib.Logic.Function.Basic
import Mh.Lib.Run
import Mh.Vm.Entry

/-!
# The page that a copy maps

`xcopy_from` and `xcopy_to` map the page of the client at `KVA_HYPER`, whose entry is in the
kernel page table of all the CPUs, copy, and clear the entry: `pmap_hmap`, `__usrcpy` and
`pmap_hunmap`, once for each page.  What they hold meanwhile is the lock of the user device, taken
by `usrdev_read` and `usrdev_write`, and the lock of the pmap of the client, taken by `pmap_hmap`
and released by `pmap_hunmap`.

A step is one of the three, or one byte of a copy, on one CPU; the pages of a pmap whose lock is
free may change at any time.  `touched` is kept for the statements: for each byte that was copied,
the page that the copy has asked for, and the page that it has found.
-/

namespace Mh.Hyper

open Mh.Vm

/-- What is left for `xcopy_from` and `xcopy_to` to copy: `xva` is an address of the client, whose
pmap is `pmap`, and `va` one of the caller. -/
structure Copy where
  ud : Nat
  pmap : Nat
  va : Nat
  xva : Nat
  sz : Nat
deriving DecidableEq, Repr

namespace Copy

variable (c : Copy)

/-- The size of the next piece. -/
def todo : Nat := min c.sz (pageSize - c.xva % pageSize)

/-- The round after this one. -/
def next : Copy :=
  { c with xva := w32 (c.xva + c.todo), va := w32 (c.va + c.todo), sz := c.sz - c.todo }

end Copy

/-- Where a CPU is: in no copy; at the `while`, with the lock of the device; past `pmap_hmap`,
with the bytes that are copied; past `__usrcpy`, with what it has returned; past the loop. -/
inductive Pc
  | out
  | loop (c : Copy)
  | mapped (c : Copy) (k : Nat)
  | copied (c : Copy) (ret : Int)
  | leaving (ud : Nat)
deriving DecidableEq, Repr

/-- The CPU is between the `pmap_hmap` and the `pmap_hunmap` of a round of `c`. -/
def Pc.Between : Pc → Copy → Prop
  | .mapped c _, c' | .copied c _, c' => c = c'
  | _, _ => False

/-- The assertions of `pmap_hmap`: the address is one of the user; the slot is empty. -/
inductive Assertion
  | uaddr
  | slot
deriving DecidableEq, Repr

/-- The page that an entry maps. -/
def page (e : L1e) : Option Nat := if e.p then some e.pfn else none

/-- The state of the machine. -/
structure State where
  udLock : Nat → Bool
  pmLock : Nat → Bool
  /-- The entry of a page of a pmap. -/
  l1 : Nat × Nat → L1e
  /-- The entry of `KVA_HYPER`. -/
  hyper : L1e
  pc : Nat → Pc
  failed : Option Assertion
  touched : List (Option Nat × Option Nat)

/-- No copy has been made. -/
def State.boot (l1 : Nat × Nat → L1e) : State :=
  ⟨fun _ ↦ false, fun _ ↦ false, l1, .zero, fun _ ↦ .out, none, []⟩

/-- What happens, mostly on a CPU. -/
inductive Label
  /-- `usrdev_read` or `usrdev_write` takes the lock, and its checks pass -/
  | enter (i : Nat) (c : Copy)
  /-- `pmap_hmap` -/
  | hmap (i : Nat)
  /-- `__usrcpy` copies a byte -/
  | byte (i : Nat)
  /-- `__usrcpy` returns: 0, or an error for an address of the caller -/
  | ret (i : Nat) (r : Int)
  /-- `pmap_hunmap` -/
  | hunmap (i : Nat)
  /-- `usrdev_read` or `usrdev_write` releases the lock -/
  | leave (i : Nat)
  /-- An entry of a pmap is set, under the lock of the pmap -/
  | set (pmap vpn : Nat) (e : L1e)
deriving DecidableEq, Repr

namespace State

variable (s : State)

/-- The page that a round of `c` asks for. -/
def asked (c : Copy) : Option Nat := page (s.l1 (c.pmap, vpn c.xva))

/-- The CPU `i` goes to `pc`. -/
def goto (i : Nat) (pc : Pc) : State := { s with pc := Function.update s.pc i pc }

/-- `spinlock` and `spinunlock` of a device. -/
def setUd (ud : Nat) (b : Bool) : State := { s with udLock := Function.update s.udLock ud b }

/-- `spinlock` and `spinunlock` of a pmap. -/
def setPm (pmap : Nat) (b : Bool) : State := { s with pmLock := Function.update s.pmLock pmap b }

/-- `pmap_hmap`, once the loop has found that there is something to copy. -/
def hmap (i : Nat) (c : Copy) : Option State :=
  if !isuaddr c.xva then some { s with failed := some .uaddr }
  else if s.pmLock c.pmap then none
  else if s.hyper.p then some { s.setPm c.pmap true with failed := some .slot }
  else some { (s.setPm c.pmap true).goto i (.mapped c 0) with
    hyper := s.l1 (c.pmap, vpn c.xva) }

/-- A byte is copied by way of `KVA_HYPER`; the access faults where no page is mapped. -/
def byte (i : Nat) (c : Copy) (k : Nat) : State :=
  match page s.hyper with
  | none => s.goto i (.copied c Errno.EFAULT.neg)
  | some p => { s.goto i (.mapped c (k + 1)) with touched := (s.asked c, some p) :: s.touched }

/-- `pmap_hunmap`, and the `break` after a copy that has failed. -/
def hunmap (i : Nat) (c : Copy) (r : Int) : State :=
  { (s.setPm c.pmap false).goto i (if r = 0 then .loop c.next else .leaving c.ud) with
    hyper := invalidL1e }

/-- The step with a label, where it can be taken. -/
def stepAt : Label → Option State
  | .enter i c =>
    if s.pc i = .out ∧ s.udLock c.ud = false then some ((s.setUd c.ud true).goto i (.loop c))
    else none
  | .hmap i =>
    match s.pc i with
    | .loop c => if c.sz = 0 then none else s.hmap i c
    | _ => none
  | .byte i =>
    match s.pc i with
    | .mapped c k => if k < c.todo then some (s.byte i c k) else none
    | _ => none
  | .ret i r =>
    match s.pc i with
    | .mapped c k => if k = c.todo ↔ r = 0 then some (s.goto i (.copied c r)) else none
    | _ => none
  | .hunmap i =>
    match s.pc i with
    | .copied c r => some (s.hunmap i c r)
    | _ => none
  | .leave i =>
    match s.pc i with
    | .loop c => if c.sz = 0 then some ((s.setUd c.ud false).goto i .out) else none
    | .leaving ud => some ((s.setUd ud false).goto i .out)
    | _ => none
  | .set pmap vpn e =>
    if s.pmLock pmap then none else some { s with l1 := Function.update s.l1 (pmap, vpn) e }

end State

/-- A step; after an assertion has failed there is none. -/
def Step (s : State) (a : Label) (t : State) : Prop := s.failed = none ∧ s.stepAt a = some t

end Mh.Hyper

/-!
## Whether the copies exclude each other

Two copies under way hold the locks of different devices and of different pmaps, and neither lock
is one that the other copy takes: nothing but the assertion of `pmap_hmap` keeps them apart, and
that stops the machine.  `Alone` is the condition under which a copy may call `pmap_hmap`.
-/

namespace Mh.Hyper

open Mh.Lib Mh.Vm

/-! ## What is wanted, and when -/

/-- A copy past its `pmap_hmap` finds its page at `KVA_HYPER`, each byte that was copied was one of
the page asked for, and the assertion that the slot is empty has not failed. -/
structure Safe (s : State) : Prop where
  mapped : ∀ i c, (s.pc i).Between c → page s.hyper = s.asked c
  touched : ∀ x ∈ s.touched, x.2 = x.1
  slot : s.failed ≠ some .slot

/-- No other copy is between its `pmap_hmap` and its `pmap_hunmap` when one calls `pmap_hmap`,
unless neither client has a page there. -/
def Alone (s : State) : Label → Prop
  | .hmap i => ∀ c, s.pc i = .loop c → isuaddr c.xva → ∀ j c', j ≠ i → (s.pc j).Between c' →
      s.asked c = none ∧ s.asked c' = none
  | _ => True

/-- What holds while all the calls of `pmap_hmap` meet the condition. -/
structure Inv (s : State) : Prop where
  locked : ∀ i c, (s.pc i).Between c → s.pmLock c.pmap = true
  apart : ∀ i j c c', i ≠ j → (s.pc i).Between c → (s.pc j).Between c' → c.pmap ≠ c'.pmap
  none_of_two : ∀ i j c c', i ≠ j → (s.pc i).Between c → (s.pc j).Between c' →
    page s.hyper = none
  empty : (∀ i c, ¬ (s.pc i).Between c) → page s.hyper = none
  safe : Safe s

variable {s t : State} {i j : Nat} {c c' : Copy} {a : Label}

/-! ## The steps -/

theorem page_eq_none {e : L1e} : page e = none ↔ e.p = false := by
  rw [page]
  cases e.p <;> simp

/-- The pages of the clients do not depend on where the CPUs are. -/
theorem asked_congr (h : t.l1 = s.l1) : t.asked c = s.asked c := by
  rw [State.asked, State.asked, h]

theorem inv_boot (l1 : Nat × Nat → L1e) : Inv (.boot l1) where
  locked _ _ h := h.elim
  apart _ _ _ _ _ h := h.elim
  none_of_two _ _ _ _ _ h := h.elim
  empty _ := rfl
  safe := ⟨fun _ _ h ↦ h.elim, fun _ h ↦ absurd h List.not_mem_nil, nofun⟩

/-- A step of one CPU that keeps what is between and what is not. -/
theorem Inv.of_between (h : Inv s) (hpc : ∀ i c, (t.pc i).Between c ↔ (s.pc i).Between c)
    (hpm : t.pmLock = s.pmLock) (hl1 : t.l1 = s.l1) (hhyper : t.hyper = s.hyper)
    (htouched : ∀ x ∈ t.touched, x.2 = x.1) (hslot : t.failed ≠ some .slot) : Inv t where
  locked i c hb := by
    rw [hpm]
    exact h.locked i c ((hpc i c).1 hb)
  apart i j c c' hne hi hj := h.apart i j c c' hne ((hpc i c).1 hi) ((hpc j c').1 hj)
  none_of_two i j c c' hne hi hj := by
    rw [hhyper]
    exact h.none_of_two i j c c' hne ((hpc i c).1 hi) ((hpc j c').1 hj)
  empty hno := by
    rw [hhyper]
    exact h.empty fun i c hb ↦ hno i c ((hpc i c).2 hb)
  safe :=
    { mapped i c hb := by
        rw [hhyper, asked_congr hl1]
        exact h.safe.mapped i c ((hpc i c).1 hb)
      touched := htouched
      slot := hslot }

/-- A CPU goes from a place between to another, or from a place outside to another. -/
theorem goto_between {pc : Pc} (hpc : ∀ c, pc.Between c ↔ (s.pc i).Between c) (j : Nat) (c : Copy) :
    ((s.goto i pc).pc j).Between c ↔ (s.pc j).Between c := by
  rw [State.goto]
  by_cases hj : j = i
  · rw [hj]
    dsimp only
    rw [Function.update_self]
    exact hpc c
  · dsimp only
    rw [Function.update_of_ne hj]

/-- The place of a CPU that is at the loop is not between. -/
theorem between_of_loop (h : s.pc i = .loop c) (c' : Copy) : ¬ (s.pc i).Between c' := by
  rw [h]
  exact id

/-- Who is between once the CPU `i` has gone to `pc`. -/
theorem between_goto {pc : Pc} (h : ((s.goto i pc).pc j).Between c') :
    j = i ∧ pc.Between c' ∨ j ≠ i ∧ (s.pc j).Between c' := by
  rw [State.goto] at h
  dsimp only at h
  by_cases hj : j = i
  · rw [hj, Function.update_self] at h
    exact .inl ⟨hj, h⟩
  · rw [Function.update_of_ne hj] at h
    exact .inr ⟨hj, h⟩

/-- A page is mapped in the slot, which is empty or of no page. -/
theorem Inv.map (h : Inv s) (hf : s.failed = none) (hlock : s.pmLock c.pmap ≠ true)
    (halone : ∀ j c', j ≠ i → (s.pc j).Between c' → s.asked c = none ∧ s.asked c' = none) :
    Inv { (s.setPm c.pmap true).goto i (.mapped c 0) with hyper := s.l1 (c.pmap, vpn c.xva) } where
  locked j c' hb := by
    rcases between_goto (s := s.setPm c.pmap true) hb with ⟨rfl, rfl⟩ | ⟨_, hj⟩
    · exact Function.update_self ..
    · have hne : c'.pmap ≠ c.pmap := fun heq ↦ hlock (heq ▸ h.locked j c' hj)
      exact (Function.update_of_ne hne ..).trans (h.locked j c' hj)
  apart j k c₁ c₂ hne hj hk := by
    have hfree : ∀ j c', (s.pc j).Between c' → c'.pmap ≠ c.pmap :=
      fun j c' hb heq ↦ hlock (heq ▸ h.locked j c' hb)
    rcases between_goto (s := s.setPm c.pmap true) hj with ⟨rfl, rfl⟩ | ⟨_, hj'⟩
    · rcases between_goto (s := s.setPm c.pmap true) hk with ⟨rfl, _⟩ | ⟨_, hk'⟩
      · exact absurd rfl hne
      · exact (hfree k c₂ hk').symm
    · rcases between_goto (s := s.setPm c.pmap true) hk with ⟨rfl, rfl⟩ | ⟨_, hk'⟩
      · exact hfree j c₁ hj'
      · exact h.apart j k c₁ c₂ hne hj' hk'
  none_of_two j k c₁ c₂ hne hj hk := by
    rcases between_goto (s := s.setPm c.pmap true) hj with ⟨rfl, _⟩ | ⟨hji, hj'⟩
    · rcases between_goto (s := s.setPm c.pmap true) hk with ⟨rfl, _⟩ | ⟨hki, hk'⟩
      · exact absurd rfl hne
      · exact (halone k c₂ hki hk').1
    · exact (halone j c₁ hji hj').1
  empty hno := by
    refine absurd ?_ (hno i c)
    change (Function.update s.pc i (.mapped c 0) i).Between c
    rw [Function.update_self]
    rfl
  safe :=
    { mapped j c' hb := by
        rcases between_goto (s := s.setPm c.pmap true) hb with ⟨rfl, rfl⟩ | ⟨hji, hj⟩
        · rfl
        · obtain ⟨hc, hc'⟩ := halone j c' hji hj
          exact hc.trans hc'.symm
      touched := h.safe.touched
      slot hno := by
        have hs : s.failed = some .slot := hno
        rw [hf] at hs
        cases hs }

/-- The slot is cleared. -/
theorem Inv.unmap {r : Int} (h : Inv s) (hf : s.failed = none) (hpc : s.pc i = .copied c r) :
    Inv (s.hunmap i c r) := by
  have hi : (s.pc i).Between c := by
    rw [hpc]
    rfl
  have hout : ∀ j c', ((s.hunmap i c r).pc j).Between c' → j ≠ i ∧ (s.pc j).Between c' := by
    intro j c' hb
    rcases between_goto (s := s.setPm c.pmap false) hb with ⟨_, hno⟩ | hj
    · split at hno
      · exact hno.elim
      · exact hno.elim
    · exact hj
  have hnone : page (s.hunmap i c r).hyper = none := rfl
  constructor
  · intro j c' hb
    obtain ⟨hji, hj⟩ := hout j c' hb
    have hne : c'.pmap ≠ c.pmap := h.apart j i c' c hji hj hi
    exact (Function.update_of_ne hne ..).trans (h.locked j c' hj)
  · intro j k c₁ c₂ hne hj hk
    exact h.apart j k c₁ c₂ hne (hout j c₁ hj).2 (hout k c₂ hk).2
  · exact fun _ _ _ _ _ _ _ ↦ hnone
  · exact fun _ ↦ hnone
  · constructor
    · intro j c' hb
      obtain ⟨hji, hj⟩ := hout j c' hb
      rw [hnone]
      exact ((h.safe.mapped j c' hj).symm.trans (h.none_of_two j i c' c hji hj hi)).symm
    · exact h.safe.touched
    · intro hno
      have hs : s.failed = some .slot := hno
      rw [hf] at hs
      cases hs

/-- A byte is copied. -/
theorem Inv.byte {k : Nat} (h : Inv s) (hf : s.failed = none) (hpc : s.pc i = .mapped c k) :
    Inv (s.byte i c k) := by
  have hi : (s.pc i).Between c := by
    rw [hpc]
    rfl
  have hslot : s.failed ≠ some .slot := by
    rw [hf]
    exact nofun
  have hsame : ∀ pc : Pc, (∀ c', pc.Between c' ↔ c = c') → ∀ j c',
      ((s.goto i pc).pc j).Between c' ↔ (s.pc j).Between c' := by
    intro pc hb
    refine goto_between fun c' ↦ ?_
    rw [hpc]
    exact hb c'
  rw [State.byte]
  split
  · exact h.of_between (hsame _ fun _ ↦ .rfl) rfl rfl rfl h.safe.touched hslot
  next p hp =>
    refine h.of_between (hsame _ fun _ ↦ .rfl) rfl rfl rfl (fun x hx ↦ ?_) hslot
    rcases List.mem_cons.1 hx with rfl | hx
    · exact hp.symm.trans (h.safe.mapped i c hi)
    · exact h.safe.touched x hx

/-- An entry of a pmap that no copy has locked is set. -/
theorem Inv.set (h : Inv s) {pm n : Nat} {e : L1e} (hlock : s.pmLock pm ≠ true) :
    Inv { s with l1 := Function.update s.l1 (pm, n) e } where
  locked := h.locked
  apart := h.apart
  none_of_two := h.none_of_two
  empty := h.empty
  safe :=
    { mapped j c' hb := by
        have hne : (c'.pmap, vpn c'.xva) ≠ (pm, n) := by
          intro heq
          have hpm : c'.pmap = pm := congrArg Prod.fst heq
          exact hlock (hpm ▸ h.locked j c' hb)
        rw [State.asked]
        dsimp only
        rw [Function.update_of_ne hne]
        exact h.safe.mapped j c' hb
      touched := h.safe.touched
      slot := h.safe.slot }

/-- `pmap_hmap` of a copy that is alone. -/
theorem Inv.hmap (h : Inv s) (hf : s.failed = none) (hpc : s.pc i = .loop c)
    (hst : s.hmap i c = some t) (ha : Alone s (.hmap i)) : Inv t := by
  rw [State.hmap] at hst
  split at hst
  · cases hst
    exact h.of_between (fun _ _ ↦ .rfl) rfl rfl rfl h.safe.touched nofun
  next hu =>
    have halone := ha c hpc (by simpa using hu)
    split at hst
    · cases hst
    next hlock =>
      -- the slot is empty: there is no other copy, or the clients of all have no page
      have hnone : page s.hyper = none := by
        by_cases hex : ∃ j c', (s.pc j).Between c'
        · obtain ⟨j, c', hj⟩ := hex
          have hji : j ≠ i := by
            rintro rfl
            exact between_of_loop hpc c' hj
          rw [h.safe.mapped j c' hj]
          exact (halone j c' hji hj).2
        · exact h.empty fun j c' hj ↦ hex ⟨j, c', hj⟩
      rw [page_eq_none.1 hnone] at hst
      cases hst
      exact h.map hf hlock halone

/-- Every step whose `pmap_hmap` is alone keeps the invariant. -/
theorem Inv.step (h : Inv s) (hst : Step s a t) (ha : Alone s a) : Inv t := by
  obtain ⟨hf, hst⟩ := hst
  have hslot : s.failed ≠ some .slot := by
    rw [hf]
    exact nofun
  cases a with
  | enter i c =>
      rw [State.stepAt] at hst
      split at hst
      next hc =>
        cases hst
        refine h.of_between (goto_between (s := s.setUd c.ud true) fun c' ↦ ?_) rfl rfl rfl
          h.safe.touched hslot
        rw [show (s.setUd c.ud true).pc i = .out from hc.1]
        exact .rfl
      · cases hst
  | hmap i =>
      rw [State.stepAt] at hst
      split at hst
      next c hpc =>
        split at hst
        · cases hst
        · exact h.hmap hf hpc hst ha
      · cases hst
  | byte i =>
      rw [State.stepAt] at hst
      split at hst
      next c k hpc =>
        split at hst
        · cases hst
          exact h.byte hf hpc
        · cases hst
      · cases hst
  | ret i r =>
      rw [State.stepAt] at hst
      split at hst
      next c k hpc =>
        split at hst
        · cases hst
          refine h.of_between (goto_between fun c' ↦ ?_) rfl rfl rfl h.safe.touched hslot
          rw [hpc]
          exact .rfl
        · cases hst
      · cases hst
  | hunmap i =>
      rw [State.stepAt] at hst
      split at hst
      next c r hpc =>
        cases hst
        exact h.unmap hf hpc
      · cases hst
  | leave i =>
      rw [State.stepAt] at hst
      split at hst
      next c hpc =>
        split at hst
        · cases hst
          refine h.of_between (goto_between (s := s.setUd c.ud false) fun c' ↦ ?_) rfl rfl rfl
            h.safe.touched hslot
          rw [show (s.setUd c.ud false).pc i = .loop c from hpc]
          exact .rfl
        · cases hst
      next ud hpc =>
        cases hst
        refine h.of_between (goto_between (s := s.setUd ud false) fun c' ↦ ?_) rfl rfl rfl
          h.safe.touched hslot
        rw [show (s.setUd ud false).pc i = .leaving ud from hpc]
        exact .rfl
      · cases hst
  | set pm n e =>
      rw [State.stepAt] at hst
      split at hst
      · cases hst
      next hlock =>
        cases hst
        exact h.set hlock

/-! ## The condition is exact -/

/-- A step is determined by the state and the label. -/
theorem deterministic : Run.Deterministic Step := by
  intro s a t t' h h'
  exact Option.some.inj (h.2.symm.trans h'.2)

/-- A call of `pmap_hmap` that is not alone stops the machine, or takes the slot from another
copy. -/
theorem alone_of_safe (h : Inv s) (hst : Step s a t) (ht : Safe t) : Alone s a := by
  cases a with
  | hmap i =>
      intro c hpc hu j c' hji hj
      have hstep := hst.2
      simp only [State.stepAt, hpc] at hstep
      split at hstep
      · cases hstep
      · rw [State.hmap, if_neg (by simpa using hu)] at hstep
        split at hstep
        · cases hstep
        · split at hstep
          · cases hstep
            exact absurd rfl ht.slot
          next hp =>
            have hc' : s.asked c' = none := by
              rw [← h.safe.mapped j c' hj, page_eq_none]
              simpa using hp
            cases hstep
            refine ⟨?_, hc'⟩
            have hj' : (((s.setPm c.pmap true).goto i (.mapped c 0)).pc j).Between c' := by
              rw [State.goto]
              dsimp only
              rw [Function.update_of_ne hji]
              exact hj
            exact (ht.mapped j c' hj').trans hc'
  | enter | byte | ret | hunmap | leave | set => trivial

/-- In a run, each copy finds its page at `KVA_HYPER` from its `pmap_hmap` to its `pmap_hunmap`,
and the slot is found empty, just when each call of `pmap_hmap` is alone. -/
theorem hyper_exclusive_iff {l1 : Nat × Nat → L1e} {as : List Label}
    (h : Run Step (.boot l1) as s) :
    (∀ bs t, bs <+: as → Run Step (.boot l1) bs t → Safe t) ↔
      Run (fun s a t ↦ Step s a t ∧ Alone s a) (.boot l1) as s :=
  Run.forall_prefix_iff deterministic (fun _ _ _ hi hst ha ↦ hi.step hst ha) (fun _ hi ↦ hi.safe)
    (fun _ _ _ hi hst ht ↦ alone_of_safe hi hst ht) h (inv_boot l1)

/-- The page tables of the two runs: the clients 1 and 2 have a page at `USERBASE`. -/
def twoClients : Nat × Nat → L1e
  | (1, 1) => mkl1e 71 ⟨true, true, true, false⟩
  | (2, 1) => mkl1e 72 ⟨true, true, true, false⟩
  | _ => .zero

/-- A byte is copied, with no other copy under way. -/
theorem hyper_exclusive_one :
    ∃ s, Run Step (.boot twoClients) [.enter 0 ⟨5, 1, 0x200000, 0x200000, 1⟩, .hmap 0, .byte 0,
        .ret 0 0, .hunmap 0, .leave 0] s ∧
      ∀ bs t, bs <+: [.enter 0 ⟨5, 1, 0x200000, 0x200000, 1⟩, .hmap 0, .byte 0, .ret 0 0, .hunmap 0,
        .leave 0] → Run Step (.boot twoClients) bs t → Safe t := by
  have halone :
      ∀ c, Alone ((State.setUd (.boot twoClients) 5 true).goto 0 (.loop c)) (.hmap 0) := by
    intro c _ _ _ j c' hj hb
    rcases between_goto hb with ⟨rfl, _⟩ | ⟨_, hno⟩
    · exact absurd rfl hj
    · exact hno.elim
  have h : Run (fun s a t ↦ Step s a t ∧ Alone s a) (.boot twoClients)
      [.enter 0 ⟨5, 1, 0x200000, 0x200000, 1⟩, .hmap 0, .byte 0, .ret 0 0, .hunmap 0, .leave 0] _ :=
    .cons ⟨⟨rfl, rfl⟩, trivial⟩ (.cons ⟨⟨rfl, rfl⟩, halone _⟩ (.cons ⟨⟨rfl, rfl⟩, trivial⟩
      (.cons ⟨⟨rfl, rfl⟩, trivial⟩ (.cons ⟨⟨rfl, rfl⟩, trivial⟩
        (.cons ⟨⟨rfl, rfl⟩, trivial⟩ (.nil _))))))
  exact ⟨_, h.mono fun _ _ _ ↦ And.left,
    (hyper_exclusive_iff (h.mono fun _ _ _ ↦ And.left)).2 h⟩

/-- Copies from the clients of two devices: the assertion fails.  And when the first client has no
page at its address, its copy goes on with the page of the second client. -/
theorem hyper_overlap :
    (∃ s, Run Step (.boot twoClients) [.enter 0 ⟨5, 1, 0x200000, 0x200000, 1⟩, .hmap 0,
        .enter 1 ⟨6, 2, 0x200000, 0x200000, 1⟩, .hmap 1] s ∧ s.failed = some .slot) ∧
      ∃ s, Run Step (.boot twoClients) [.enter 0 ⟨5, 3, 0x200000, 0x200000, 1⟩, .hmap 0,
          .enter 1 ⟨6, 2, 0x200000, 0x200000, 1⟩, .hmap 1, .byte 0] s ∧
        s.touched = [(none, some 72)] ∧ ¬ Safe s := by
  refine ⟨⟨_, .cons ⟨rfl, rfl⟩ (.cons ⟨rfl, rfl⟩ (.cons ⟨rfl, rfl⟩ (.cons ⟨rfl, rfl⟩ (.nil _)))),
    rfl⟩, ?_⟩
  have h : Run Step (.boot twoClients) [.enter 0 ⟨5, 3, 0x200000, 0x200000, 1⟩, .hmap 0,
      .enter 1 ⟨6, 2, 0x200000, 0x200000, 1⟩, .hmap 1, .byte 0] _ :=
    .cons ⟨rfl, rfl⟩ (.cons ⟨rfl, rfl⟩ (.cons ⟨rfl, rfl⟩ (.cons ⟨rfl, rfl⟩
      (.cons ⟨rfl, rfl⟩ (.nil _)))))
  refine ⟨_, h, rfl, fun hs ↦ ?_⟩
  exact absurd (hs.touched _ List.mem_cons_self) nofun

end Mh.Hyper
