import Mh.Lwt.EvtAlloc
import Mh.Lib.Outcome

/-!
# The preemption level

`__preemption_level` is one counter for all LWTs.  `levels` follows what each LWT has a right to:
the level at which it began, and its own pairs of `preempt_disable` and `preempt_enable`.
`LevelOk` says that an LWT which runs its own code, after whatever call, is at this level; that no
`preempt_enable` finds the counter at 0; and that interrupts are on at level 0.

Two functions break this.  `evtwait` holds a level of its own while it sleeps, which the LWTs that
run meanwhile find added to theirs; and `evtast` returns without its `preempt_enable` when the
event is set.  Where an LWT gets the CPU back at the level at which it was left, and `evtast` is
called for an event that is not set, the levels are right (`levels_kept`).
-/

namespace Mh.Lwt

open Mh.Lib (Run Ends bind_eq_ok)

/-- Does an LWT at this position begin at its start? -/
def Pos.begins : Pos → Bool
  | .start | .ast _ => true
  | .code | .evtwait _ => false

/-- What is left to `evtwait` to enable. -/
def Pos.extra : Pos → Nat
  | .evtwait _ => 1
  | _ => 0

theorem Pos.begins_run (p : Pos) : p.run.begins = false := by
  cases p with
  | _ => rfl

/-- An LWT that runs has the same to enable as before, or nothing if it begins. -/
theorem Pos.extra_run (p : Pos) : p.run.extra = if p.begins then 0 else p.extra := by
  cases p with
  | _ => rfl

/-- What is left to `lwt_sleep` to enable. -/
def Cpu.extra : Cpu → Nat
  | .waiting _ => 1
  | _ => 0

/-- `main` begins to run, with interrupts on. -/
def State.started : State := { State.boot with intr := true }

/-- The levels of the LWTs after a step: those of the current one change with its own calls, and
an LWT that begins is at the level that it finds. -/
def levels (s : State) (mine : Nat → Nat) : Op → Nat → Nat
  | .disable => Function.update mine s.current (mine s.current + 1)
  | .enable => Function.update mine s.current (mine s.current - 1)
  | .switch =>
    match s.cpu with
    | .switching new save =>
      if ((if save then s.pos else Function.update s.pos s.current .start) new).begins then
        Function.update mine new s.level
      else mine
    | _ => mine
  | _ => mine

/-- The levels at which the LWTs were left, after a step. -/
def lefts (s : State) (left : Nat → Nat) : Op → Nat → Nat
  | .switch => Function.update left s.current s.level
  | _ => left

/-- The levels that the LWTs have a right to, and those at which they were left. -/
structure Levels where
  mine : Nat → Nat
  left : Nat → Nat

/-- At first no LWT has a level. -/
def Levels.boot : Levels := ⟨fun _ ↦ 0, fun _ ↦ 0⟩

/-- `preempt_enable` is called after `preempt_disable`. -/
def Paired (s : State) (mine : Nat → Nat) (op : Op) : Prop := op = .enable → 0 < mine s.current

/-- A step, and the levels after it. -/
def LevelStep (p : State × Levels) (op : Op) (q : State × Levels) : Prop :=
  Step p.1 op q.1 ∧ q.2 = ⟨levels p.1 p.2.mine op, lefts p.1 p.2.left op⟩ ∧ Paired p.1 p.2.mine op

/-- `evtast` is called for an event that is not set, and an LWT gets the CPU back from another one
at the level at which it was left. -/
structure LevelSafe (s : State) (left : Nat → Nat) (op : Op) : Prop where
  ast : ∀ evt mem, op = .evtast evt mem → s.evtIsSet evt = false
  switch : ∀ new save, op = .switch → s.cpu = .switching new save → new ≠ s.current →
    (s.pos new).begins = false → s.level = left new

/-- What a handler may call, when it fails an assertion other than that of `preempt_enable`. -/
def Act.Misuse (s : State) : Act → Prop
  | .evtsetIntr evt | .evtset evt | .evtclear evt => maxEvt ≤ evt
  | .evtalloc => s.freeSlot = none
  | _ => False

/-- A step that fails an assertion other than that of `preempt_enable`. -/
def Misuse (s : State) : Op → Prop
  | .act a | .intr a => a.Misuse s
  | .lwtWake l => l = s.current
  | .evtwait evt | .evtast evt _ => maxEvt ≤ evt ∨ s.waitEvts evt ≠ none
  | _ => False

/-- An LWT that runs its own code is at its level; the assertion of `preempt_enable` does not
fail; and interrupts are on at level 0. -/
structure LevelOk (s : State) (mine : Nat → Nat) : Prop where
  returns : s.cpu = .running → s.pos s.current = .code → s.level = mine s.current
  asserts : ∀ op, Paired s mine op → s.step op = .error .assertion → Misuse s op
  enabled : s.cpu = .running → s.pos s.current = .code → s.level = 0 → s.intr = true

/-! ## The invariant -/

/-- The level of an LWT, with what its `evtwait` holds. -/
def State.held (s : State) (mine : Nat → Nat) (l : Nat) : Nat := mine l + (s.pos l).extra

/-- The level is that of the current LWT and `n`; every other LWT that does not begin was left at
its own; and the LWTs that are named exist. -/
structure Base (s : State) (mine left : Nat → Nat) (n : Nat) : Prop where
  level : s.level = s.held mine s.current + n
  pos : (s.pos s.current).begins = false
  away : ∀ l, l ≠ s.current → (s.pos l).begins = false → s.held mine l = left l
  queue : s.queue.All (· < s.lwts)
  current : s.current < s.lwts
  waits : ∀ e l, s.waitEvts e = some l → l < s.lwts

/-- The invariant: interrupts are on at level 0, and in `sys_wait`. -/
structure LInv (s : State) (mine left : Nat → Nat) : Prop extends
    Base s mine left s.cpu.extra where
  intr : s.intr = true ↔ s.level = 0 ∨ ∃ save, s.cpu = .waiting save
  target : ∀ new save, s.cpu = .switching new save → new < s.lwts

variable {s s' : State} {mine left : Nat → Nat} {n l evt new : Nat} {save : Bool} {op : Op}
  {ops : List Op}

theorem LInv.started : LInv .started Levels.boot.mine Levels.boot.left where
  level := rfl
  pos := rfl
  away l _ hb := by
    show 0 + (Function.update (fun _ ↦ Pos.start) 0 .code l).extra = 0
    by_cases hl : l = 0
    · rw [hl]
      rfl
    · rw [Function.update_of_ne hl]
      rfl
  queue := .empty
  current := Nat.one_pos
  waits _ _ h := nomatch h
  intr := iff_of_true rfl (.inl rfl)
  target _ _ h := nomatch h

/-- Not an assertion that fails. -/
def NoAssert (e : Fault) : Prop := e ≠ .assertion

namespace Base

/-- The queue and what does not matter here are written. -/
theorem congr (h : Base s mine left n) (hl : s'.level = s.level) (hp : s'.pos = s.pos)
    (hc : s'.current = s.current) (hn : s'.lwts = s.lwts) (hq : s'.queue.All (· < s.lwts))
    (hw : ∀ e l, s'.waitEvts e = some l → l < s.lwts) : Base s' mine left n where
  level := by
    rw [hl, State.held, hp, hc]
    exact h.level
  pos := by
    rw [hp, hc]
    exact h.pos
  away l hne hb := by
    rw [hc] at hne
    rw [hp] at hb
    rw [State.held, hp]
    exact h.away l hne hb
  queue := by
    rw [hn]
    exact hq
  current := by
    rw [hc, hn]
    exact h.current
  waits e l he := by
    rw [hn]
    exact hw e l he

theorem preemptDisable (h : Base s mine left n) : Base s.preemptDisable mine left (n + 1) :=
  ⟨congrArg (· + 1) h.level, h.pos, h.away, h.queue, h.current, h.waits⟩

/-- `preempt_enable`, at a level that is not 0. -/
theorem enabled (h : Base s mine left (n + 1)) : s.preemptEnable =
    .ok { s with level := s.level - 1, intr := s.intr || s.level - 1 == 0 } :=
  if_neg (by rw [h.level]; omega)

theorem preemptEnable (h : Base s mine left (n + 1)) (i : Bool) :
    Base { s with level := s.level - 1, intr := i } mine left n where
  level := by
    show s.level - 1 = s.held mine s.current + n
    rw [h.level]
    omega
  pos := h.pos
  away := h.away
  queue := h.queue
  current := h.current
  waits := h.waits

theorem lwtWakeIntr (h : Base s mine left n) (hl : l < s.lwts) :
    Base (s.lwtWakeIntr l) mine left n := by
  unfold State.lwtWakeIntr
  dsimp only
  split
  · exact h.congr rfl rfl rfl rfl h.queue h.waits
  · exact h.congr rfl rfl rfl rfl (h.queue.insertTail hl) h.waits

/-- Clear or set the entry of an event. -/
theorem setWait (h : Base s mine left n) (evt : Nat) (o : Option Nat)
    (ho : ∀ l, o = some l → l < s.lwts) :
    ∀ e l, Function.update s.waitEvts evt o e = some l → l < s.lwts := by
  intro e l he
  by_cases hev : e = evt
  · rw [hev, Function.update_self] at he
    exact ho l he
  · rw [Function.update_of_ne hev] at he
    exact h.waits e l he

end Base

/-! ## What a handler may call -/

/-- What a handler may call leaves the level alone, and interrupts are on after it as they were,
or at level 0. -/
structure Calm (s : State) (mine left : Nat → Nat) (n : Nat) (s' : State) : Prop where
  base : Base s' mine left n
  cpu : s'.cpu = s.cpu
  level : s'.level = s.level
  lwts : s'.lwts = s.lwts
  intr : s'.intr = s.intr ∨ s'.intr = (s.level == 0)

theorem intr_lwtWakeIntr (s : State) (l : Nat) : (s.lwtWakeIntr l).intr = s.intr ∧
    (s.lwtWakeIntr l).level = s.level ∧ (s.lwtWakeIntr l).lwts = s.lwts := by
  unfold State.lwtWakeIntr
  dsimp only
  split <;> exact ⟨rfl, rfl, rfl⟩

theorem Calm.lwtWakeIntr (h : Base s mine left n) (hl : l < s.lwts) :
    Calm s mine left n (s.lwtWakeIntr l) := by
  obtain ⟨hi, hlv, hn⟩ := intr_lwtWakeIntr s l
  exact ⟨h.lwtWakeIntr hl, State.lwtWakeIntr_cpu, hlv, hn, .inl hi⟩

theorem Calm.evtsetIntr (h : Base s mine left n) :
    Ends (Calm s mine left n) (fun e ↦ e = .assertion → maxEvt ≤ evt) (s.evtsetIntr evt) := by
  unfold State.evtsetIntr
  split
  · next hlt =>
      have hb : ∀ w, Base { s with setEvts := w } mine left n :=
        fun w ↦ h.congr rfl rfl rfl rfl h.queue h.waits
      dsimp only
      split
      · exact ⟨hb _, rfl, rfl, rfl, .inl rfl⟩
      · next l hw =>
          have hset := hb (Function.update s.setEvts (evt / 64)
            (setBit (s.setEvts (evt / 64)) (evt % 64)))
          obtain ⟨hb', hc, hl, hn, hi⟩ := Calm.lwtWakeIntr hset (h.waits evt l hw)
          exact ⟨hb', hc, hl, hn, hi⟩
  · next hge => exact fun _ ↦ Nat.le_of_not_lt hge

/-- A section between `preempt_disable` and `preempt_enable`. -/
theorem Calm.enable {u : State} (h : Calm s.preemptDisable mine left (n + 1) u) :
    Ends (Calm s mine left n) NoAssert u.preemptEnable := by
  obtain ⟨hb, hc, hl, hn, hi⟩ := h
  have hoff : u.intr = false := hi.elim id fun h ↦ h.trans rfl
  have hl' : u.level - 1 = s.level := by
    rw [hl]
    rfl
  rw [hb.enabled]
  refine ⟨hb.preemptEnable _, hc, hl', hn, .inr ?_⟩
  show (u.intr || u.level - 1 == 0) = (s.level == 0)
  rw [hoff, hl', Bool.false_or]

/-- What a handler may call fails no assertion of `preempt_enable`. -/
theorem Calm.act {a : Act} (h : Base s mine left n) :
    Ends (Calm s mine left n) (fun e ↦ e = .assertion → a.Misuse s) (s.act a) := by
  have hno : ∀ {P : Prop} (e : Fault), NoAssert e → e = .assertion → P :=
    fun e hne he ↦ absurd he hne
  have hd : ∀ {u : State}, u.level = s.level + 1 → u.pos = s.pos → u.current = s.current →
      u.lwts = s.lwts → u.cpu = s.cpu → u.queue = s.queue → u.intr = false →
      (∀ e l, u.waitEvts e = some l → l < s.lwts) → Calm s.preemptDisable mine left (n + 1) u := by
    intro u hl hp hc hn hcpu hq hi hw
    exact ⟨h.preemptDisable.congr hl hp hc hn (hq ▸ h.queue) hw, hcpu, hl, hn, .inl hi⟩
  cases a with
  | lwtWakeIntr l =>
      simp only [State.act]
      split
      · next hl => exact Calm.lwtWakeIntr h hl
      · exact fun he ↦ Fault.noConfusion he
  | evtsetIntr evt => exact Calm.evtsetIntr h
  | evtset evt =>
      exact (Calm.evtsetIntr h.preemptDisable).bind fun u hu ↦ hu.enable.imp_error hno
  | evtclear evt =>
      simp only [State.act, State.evtclear]
      split
      · refine (Calm.enable ?_).imp_error hno
        exact hd rfl rfl rfl rfl rfl rfl rfl h.waits
      · next hge => exact fun _ ↦ Nat.le_of_not_lt hge
  | evtalloc =>
      simp only [State.act, State.evtalloc]
      split
      · next hf => exact fun _ ↦ hf
      · next i b hf =>
          refine Ends.bind (P := fun r : Nat × State ↦ Calm s mine left n r.2) ?_ fun _ hr ↦ hr
          refine Ends.map ((Calm.enable ?_).imp_error hno) fun _ hu ↦ hu
          exact hd rfl rfl rfl rfl rfl rfl rfl (h.setWait b none (by simp))
  | evtfree evt =>
      simp only [State.act, State.evtfree]
      split
      · refine (Calm.enable ?_).imp_error hno
        exact hd rfl rfl rfl rfl rfl rfl rfl h.waits
      · exact fun he ↦ Fault.noConfusion he

/-! ## Calls -/

namespace Base

/-- The LWT runs its own code, or is left by a jump. -/
theorem linv (h : Base s mine left 0) (hc : s.cpu.extra = 0) (hi : s.intr = (s.level == 0))
    (ht : ∀ new save, s.cpu = .switching new save → new < s.lwts) : LInv s mine left where
  toBase := by
    rw [hc]
    exact h
  intr := by
    rw [hi, beq_iff_eq]
    refine ⟨.inl, fun h ↦ h.resolve_right ?_⟩
    rintro ⟨save, hs⟩
    rw [hs] at hc
    cases hc
  target := ht

/-- The end of a section: the LWT goes on with its own code. -/
theorem finish (h : Base s mine left 1) (hi : s.intr = false) (hc : s.cpu = .running) :
    Ends (LInv · mine left) NoAssert s.preemptEnable := by
  rw [h.enabled]
  refine Base.linv (h.preemptEnable _) ?_ ?_ fun new save hs ↦ ?_
  · show s.cpu.extra = 0
    rw [hc]
    rfl
  · show (s.intr || s.level - 1 == 0) = (s.level - 1 == 0)
    rw [hi, Bool.false_or]
  · cases hc.symm.trans hs

/-- The code of the current LWT goes to another level. -/
theorem ownLevel (h : Base s mine left 0) (hp : s.pos s.current = .code) {m k : Nat} (hm : m = k)
    (i : Bool) : Base { s with level := m, intr := i } (Function.update mine s.current k) left 0 where
  level := by
    show m = Function.update mine s.current k s.current + (s.pos s.current).extra + 0
    rw [Function.update_self, hp, hm]
    rfl
  pos := h.pos
  away l hne hb := by
    change l ≠ s.current at hne
    show Function.update mine s.current k l + (s.pos l).extra = left l
    rw [Function.update_of_ne hne]
    exact h.away l hne hb
  queue := h.queue
  current := h.current
  waits := h.waits

theorem dequeue (h : Base s mine left n) (new : Nat) : Base (s.dequeue new) mine left n :=
  h.congr rfl rfl rfl rfl h.queue.removeHead h.waits

/-- The head of the queue is switched to, or there is nobody to run. -/
theorem next (h : Base s mine left 1) (hi : s.intr = false) :
    Ends (LInv · mine left) NoAssert (s.next save) := by
  unfold State.next
  split
  · refine ⟨h.congr rfl rfl rfl rfl h.queue h.waits, ?_, nofun⟩
    exact iff_of_true rfl (.inr ⟨save, rfl⟩)
  · next new hf =>
      have hlt := h.queue.first new hf
      have hd := h.dequeue new
      rw [hd.enabled]
      refine Base.linv ((hd.preemptEnable false).congr rfl rfl rfl rfl hd.queue hd.waits) rfl ?_ ?_
      · show (s.intr || s.level - 1 == 0) = (s.level - 1 == 0)
        rw [hi, Bool.false_or]
      · rintro m _ ⟨⟩
        exact hlt

/-- `lwt_yield` and `lwt_pause`. -/
theorem lwtYield (h : Base s mine left 0) (hc : s.cpu = .running) :
    Ends (LInv · mine left) NoAssert s.lwtYield := by
  unfold State.lwtYield State.giveWay
  have hins : Base (s.preemptDisable.insert s.current) mine left 1 :=
    h.preemptDisable.congr rfl rfl rfl rfl (h.queue.insertTail h.current) h.waits
  split
  · exact Fault.noConfusion
  · next new hf =>
      have hd := hins.dequeue new
      have hlt := hins.queue.first new hf
      rw [hd.enabled]
      have hlevel : (false || s.level + 1 - 1 == 0) = (s.level + 1 - 1 == 0) := Bool.false_or _
      show LInv (if s.current = new then _ else _) mine left
      split
      · refine Base.linv (hd.preemptEnable _) ?_ hlevel fun m _ hs ↦ ?_
        · show s.cpu.extra = 0
          rw [hc]
          rfl
        · cases hc.symm.trans hs
      · refine Base.linv ((hd.preemptEnable false).congr rfl rfl rfl rfl hd.queue hd.waits) rfl
          hlevel ?_
        rintro m _ ⟨⟩
        exact hlt

/-- `lwt_sleep` and `lwt_exit`, called at `n` levels more than the LWT has. -/
theorem sleep (h : Base s mine left 0) :
    Ends (LInv · mine left) NoAssert (s.preemptDisable.deactivate.next save) := by
  have hd : Base s.preemptDisable.deactivate mine left 1 :=
    h.preemptDisable.congr rfl rfl rfl rfl h.queue h.waits
  exact hd.next rfl

/-- The LWT enters `evtwait`, or leaves it. -/
theorem setPos (h : Base s mine left n) (p : Pos) {m : Nat} (hp : p.begins = false)
    (hm : mine s.current + p.extra + m = s.level) :
    Base { s with pos := Function.update s.pos s.current p } mine left m where
  level := by
    show s.level = mine s.current + (Function.update s.pos s.current p s.current).extra + m
    rw [Function.update_self, hm]
  pos := by
    show (Function.update s.pos s.current p s.current).begins = false
    rw [Function.update_self, hp]
  away l hne hb := by
    change l ≠ s.current at hne
    change (Function.update s.pos s.current p l).begins = false at hb
    show mine l + (Function.update s.pos s.current p l).extra = left l
    rw [Function.update_of_ne hne] at hb ⊢
    exact h.away l hne hb
  queue := h.queue
  current := h.current
  waits := h.waits

/-- `evtwait`: the level that it holds is 1. -/
theorem evtwait (h : Base s mine left 0) (hc : s.cpu = .running) (hp : s.pos s.current = .code) :
    Ends (LInv · mine left) (fun e ↦ e = .assertion → maxEvt ≤ evt ∨ s.waitEvts evt ≠ none)
      (s.evtwait evt) := by
  have hno : ∀ {P : Prop} (e : Fault), NoAssert e → e = .assertion → P :=
    fun e hne he ↦ absurd he hne
  have hlevel : s.level = mine s.current := by
    have hl := h.level
    rw [State.held, hp] at hl
    exact hl
  unfold State.evtwait
  split
  · dsimp only
    split
    · exact (h.preemptDisable.finish rfl hc).imp_error hno
    · split
      · refine (Base.sleep ?_).imp_error hno
        have hset := h.preemptDisable.setPos (.evtwait evt) (m := 0) rfl
          (congrArg (· + 1) hlevel.symm)
        refine hset.congr rfl rfl rfl rfl h.queue (h.setWait evt _ fun l hl ↦ ?_)
        rw [← Option.some.inj hl]
        exact h.current
      · next hw => exact fun _ ↦ .inr hw
  · next hge => exact fun _ ↦ .inl (Nat.le_of_not_lt hge)

/-- The end of `evtwait`. -/
theorem evtwaitEnd (h : Base s mine left 0) (hc : s.cpu = .running)
    (hp : s.pos s.current = .evtwait evt) (hi : s.intr = false) :
    Ends (LInv · mine left) NoAssert (s.evtwaitEnd evt) := by
  have hl := h.level
  rw [State.held, hp] at hl
  refine Base.finish ?_ hi hc
  have hset := h.setPos .code (m := 1) rfl hl.symm
  exact hset.congr rfl rfl rfl rfl h.queue (h.setWait evt none nofun)

/-- A new LWT begins at its start. -/
theorem setNew (h : Base s mine left n) (p : Pos) (hp : p.begins = true) (l : Nat)
    (hl : l ≠ s.current) : Base { s with pos := Function.update s.pos l p } mine left n where
  level := by
    show s.level = mine s.current + (Function.update s.pos l p s.current).extra + n
    rw [Function.update_of_ne hl.symm]
    exact h.level
  pos := by
    show (Function.update s.pos l p s.current).begins = false
    rw [Function.update_of_ne hl.symm]
    exact h.pos
  away m hne hb := by
    change (Function.update s.pos l p m).begins = false at hb
    show mine m + (Function.update s.pos l p m).extra = left m
    by_cases hml : m = l
    · rw [hml, Function.update_self, hp] at hb
      cases hb
    · rw [Function.update_of_ne hml] at hb ⊢
      exact h.away m hne hb
  queue := h.queue
  current := h.current
  waits := h.waits

theorem lwtCreate (h : Base s mine left n) : Base s.lwtCreate mine left n := by
  obtain ⟨hl, hp, ha, hq, hc, hw⟩ := h.setNew .start rfl s.lwts (Nat.ne_of_gt h.current)
  exact ⟨hl, hp, ha, hq.mono fun _ ↦ Nat.lt_succ_of_lt, Nat.lt_succ_of_lt hc,
    fun e l he ↦ Nat.lt_succ_of_lt (hw e l he)⟩

/-- `evtast`, for an event that is not set. -/
theorem evtast {mem : Bool} (h : Base s mine left 0) (hc : s.cpu = .running)
    (hset : s.evtIsSet evt = false) :
    Ends (LInv · mine left) (fun e ↦ e = .assertion → maxEvt ≤ evt ∨ s.waitEvts evt ≠ none)
      (s.evtast evt mem) := by
  have hno : ∀ {P : Prop} (e : Fault), NoAssert e → e = .assertion → P :=
    fun e hne he ↦ absurd he hne
  have hset : ¬ s.evtIsSet evt = true := Bool.eq_false_iff.1 hset
  unfold State.evtast
  split
  · cases mem with
    | true =>
        have hl := h.lwtCreate.preemptDisable
        simp only [if_true]
        split
        · split
          · next hs => exact absurd hs hset
          · refine Ends.imp_error (Base.finish ?_ ?_ ?_) hno
            · have hnew := hl.setNew (.ast evt) rfl s.lwts (Nat.ne_of_gt h.current)
              refine hnew.congr rfl rfl rfl rfl hl.queue (hl.setWait evt _ fun l hl ↦ ?_)
              rw [← Option.some.inj hl]
              exact Nat.lt_succ_self _
            · rfl
            · exact hc
        · next hw => exact fun _ ↦ .inr hw
    | false =>
        simp only [Bool.false_eq_true, if_false]
        split
        · split
          · exact fun he ↦ Fault.noConfusion he
          · refine Ends.imp_error (Base.finish ?_ ?_ ?_) hno
            · exact h.preemptDisable.congr rfl rfl rfl rfl h.queue (h.setWait evt none nofun)
            · rfl
            · exact hc
        · next hw => exact fun _ ↦ .inr hw
  · next hge => exact fun _ ↦ .inl (Nat.le_of_not_lt hge)

end Base

/-- `evtast`, for an event that is set, comes to no `preempt_enable`. -/
theorem State.evtast_set {mem : Bool} (hset : s.evtIsSet evt = true)
    (he : s.evtast evt mem = .error .assertion) : maxEvt ≤ evt ∨ s.waitEvts evt ≠ none := by
  unfold State.evtast at he
  split at he
  · cases mem with
    | true =>
        simp only [if_true] at he
        split at he
        · split at he
          · cases he
          · next hs => exact absurd hset hs
        · next hw => exact .inr hw
    | false =>
        simp only [Bool.false_eq_true, if_false] at he
        split at he
        · split at he
          · cases he
          · next hs => exact absurd hset hs
        · next hw => exact .inr hw
  · next hge => exact .inl (Nat.le_of_not_lt hge)

/-- A step that is a call fails as the call does. -/
theorem step_evtast {mem : Bool} (he : s.step (.evtast evt mem) = .error .assertion) :
    s.evtast evt mem = .error .assertion := by
  simp only [State.step] at he
  split at he
  · exact he
  · cases he

/-! ## Steps -/

namespace LInv

/-- The LWT runs: its level is that of its position. -/
theorem running (h : LInv s mine left) (hc : s.cpu = .running) : Base s mine left 0 := by
  have hb := h.toBase
  rw [hc] at hb
  exact hb

theorem intr_running (h : LInv s mine left) (hc : s.cpu = .running) : s.intr = (s.level == 0) := by
  rw [Bool.eq_iff_iff, beq_iff_eq, h.intr]
  refine ⟨fun hi ↦ hi.resolve_right ?_, .inl⟩
  rintro ⟨save, hs⟩
  cases hc.symm.trans hs

theorem level_code (h : LInv s mine left) (hc : s.cpu = .running) (hp : s.pos s.current = .code) :
    s.level = mine s.current := by
  have hl := (h.running hc).level
  rw [State.held, hp] at hl
  exact hl

/-- A call by the code of the current LWT. -/
theorem call (h : LInv s mine left) (hc : s.cpu = .running) (hp : s.pos s.current = .code)
    (hpair : Paired s mine op) (hsafe : LevelSafe s left op) (hop : op ≠ .switch) :
    Ends (LInv · (levels s mine op) (lefts s left op)) (fun e ↦ e = .assertion → Misuse s op)
      (s.call op) := by
  have hno : ∀ {P : Prop} (e : Fault), NoAssert e → e = .assertion → P :=
    fun e hne he ↦ absurd he hne
  have hb := h.running hc
  have hlevel := h.level_code hc hp
  have hrun : ∀ new save, s.cpu = .switching new save → new < s.lwts :=
    fun new save hs ↦ by cases hc.symm.trans hs
  have hextra : s.cpu.extra = 0 := by
    rw [hc]
    rfl
  cases op with
  | act a =>
      refine (Calm.act hb).mono fun u hu ↦ ?_
      refine hu.base.linv ?_ ?_ fun new save hs ↦ ?_
      · rw [hu.cpu, hextra]
      · rw [hu.level]
        exact hu.intr.elim (·.trans (h.intr_running hc)) id
      · cases (hu.cpu.symm.trans hs).symm.trans hc
  | create =>
      exact hb.lwtCreate.linv hextra (h.intr_running hc) fun new save hs ↦ by
        cases hc.symm.trans hs
  | lwtWake l =>
      simp only [State.call, State.lwtWake]
      split
      · next hl =>
          split
          · next he => exact fun _ ↦ he
          · have hcalm := Calm.lwtWakeIntr (s := s.preemptDisable) hb.preemptDisable hl
            refine Ends.imp_error (Base.finish hcalm.base ?_ ?_) hno
            · exact hcalm.intr.elim id fun hi ↦ hi.trans rfl
            · exact hcalm.cpu.trans hc
      · exact fun he ↦ Fault.noConfusion he
  | lwtPause => exact (hb.lwtYield hc).imp_error hno
  | lwtYield => exact (hb.lwtYield hc).imp_error hno
  | lwtSleep => exact hb.sleep.imp_error hno
  | lwtExit => exact hb.sleep.imp_error hno
  | evtwait evt => exact hb.evtwait hc hp
  | evtast evt mem => exact hb.evtast hc (hsafe.ast evt mem rfl)
  | disable => exact (hb.ownLevel hp (congrArg (· + 1) hlevel) false).linv hextra rfl hrun
  | enable =>
      have hpos := hpair rfl
      have hne : s.level ≠ 0 := by omega
      have hoff : s.intr = false := by
        rw [h.intr_running hc]
        exact beq_eq_false_iff_ne.2 hne
      simp only [State.call, State.preemptEnable, if_neg hne]
      refine (hb.ownLevel hp (congrArg (· - 1) hlevel) _).linv hextra ?_ hrun
      show (s.intr || s.level - 1 == 0) = (s.level - 1 == 0)
      rw [hoff, Bool.false_or]
  | evtwaitEnd => exact fun he ↦ Fault.noConfusion he
  | retry => exact fun he ↦ Fault.noConfusion he
  | switch => exact absurd rfl hop
  | intr a => exact fun he ↦ Fault.noConfusion he

/-- The jump: to the LWT itself, to one that begins, or to one at the level at which it was left. -/
theorem switch (h : LInv s mine left) (hc : s.cpu = .switching new save)
    (hsafe : new ≠ s.current → (s.pos new).begins = false → s.level = left new) :
    LInv (s.lwtSwitch new save) (levels s mine .switch) (lefts s left .switch) := by
  have hb := h.toBase
  rw [hc] at hb
  have hintr : s.intr = (s.level == 0) := by
    rw [Bool.eq_iff_iff, beq_iff_eq, h.intr]
    refine ⟨fun hi ↦ hi.resolve_right ?_, .inl⟩
    rintro ⟨save', hs⟩
    cases hc.symm.trans hs
  generalize hpos : (if save then s.pos else Function.update s.pos s.current .start) = pos
  have hlv : levels s mine .switch =
      if (pos new).begins then Function.update mine new s.level else mine := by
    simp only [levels, hc, hpos]
  have hsw : (s.lwtSwitch new save).pos = Function.update pos new (pos new).run := by
    rw [State.lwtSwitch, hpos]
  -- an LWT that does not begin is where it was
  have hstay : ∀ l, (pos l).begins = false → pos l = s.pos l := by
    intro l hl
    rw [← hpos] at hl ⊢
    cases save with
    | true => rfl
    | false =>
        by_cases hcur : l = s.current
        · rw [hcur, if_neg Bool.false_ne_true, Function.update_self] at hl
          cases hl
        · exact Function.update_of_ne hcur ..
  have hheld : ∀ l, (pos l).begins = false → s.held mine l = lefts s left .switch l := by
    intro l hl
    rw [lefts]
    by_cases hcur : l = s.current
    · rw [hcur, Function.update_self]
      exact hb.level.symm
    · rw [Function.update_of_ne hcur]
      exact hb.away l hcur (hstay l hl ▸ hl)
  refine Base.linv ⟨?_, ?_, fun l hne hbeg ↦ ?_, hb.queue, h.target new save hc, hb.waits⟩ rfl
    hintr nofun
  · show s.level = levels s mine .switch new + ((s.lwtSwitch new save).pos new).extra + 0
    rw [hlv, hsw, Function.update_self, Pos.extra_run]
    split
    · rw [Function.update_self]
      rfl
    · next hbeg =>
        have hbeg := Bool.eq_false_iff.2 hbeg
        rw [hstay new hbeg]
        refine Eq.trans ?_ (hheld new hbeg).symm
        rw [lefts]
        by_cases hcur : new = s.current
        · rw [hcur, Function.update_self]
        · rw [Function.update_of_ne hcur]
          exact hsafe hcur (hstay new hbeg ▸ hbeg)
  · show ((s.lwtSwitch new save).pos new).begins = false
    rw [hsw, Function.update_self]
    exact Pos.begins_run _
  · change l ≠ new at hne
    change ((s.lwtSwitch new save).pos l).begins = false at hbeg
    rw [hsw, Function.update_of_ne hne] at hbeg
    have hmine : levels s mine .switch l = mine l := by
      rw [hlv]
      split
      · exact Function.update_of_ne hne ..
      · rfl
    rw [State.held, hmine, hsw, Function.update_of_ne hne, hstay l hbeg]
    exact hheld l hbeg

/-- The rest of a call. -/
theorem resume (h : LInv s mine left) (hsafe : LevelSafe s left op)
    (hop : op ≠ .enable ∧ op ≠ .disable) :
    Ends (LInv · (levels s mine op) (lefts s left op)) NoAssert (s.resume op) := by
  cases op with
  | retry =>
      simp only [State.resume]
      split
      · next save hc =>
          have hb := h.toBase
          rw [hc] at hb
          refine Base.next (hb.congr rfl rfl rfl rfl hb.queue hb.waits) ?_
          -- `preempt_restore` at a level that is not 0
          show (s.level == 0) = false
          rw [hb.level]
          rfl
      · exact Fault.noConfusion
  | switch =>
      simp only [State.resume]
      split
      · next new save hc => exact h.switch hc (hsafe.switch new save rfl hc)
      · exact Fault.noConfusion
  | evtwaitEnd =>
      simp only [State.resume]
      split
      · next evt hc hp =>
          refine (h.running hc).evtwaitEnd hc hp ?_
          have hl := (h.running hc).level
          rw [State.held, hp] at hl
          rw [h.intr_running hc, hl]
          rfl
      · exact Fault.noConfusion
  | enable => exact absurd rfl hop.1
  | disable => exact absurd rfl hop.2
  | _ => exact Fault.noConfusion

/-- A safe step keeps the invariant, and fails no assertion of `preempt_enable`. -/
theorem step (h : LInv s mine left) (hpair : Paired s mine op) (hsafe : LevelSafe s left op) :
    Ends (LInv · (levels s mine op) (lefts s left op)) (fun e ↦ e = .assertion → Misuse s op)
      (s.step op) := by
  have hcall : ∀ {op}, Paired s mine op → LevelSafe s left op → op ≠ .switch →
      Ends (LInv · (levels s mine op) (lefts s left op)) (fun e ↦ e = .assertion → Misuse s op)
        (if s.cpu = .running ∧ s.pos s.current = .code then s.call op else .error .disabled) := by
    intro op hpair hsafe hop
    split
    · next hc => exact h.call hc.1 hc.2 hpair hsafe hop
    · exact fun he ↦ Fault.noConfusion he
  cases op with
  | intr a =>
      simp only [State.step, State.handle]
      split
      · next hi =>
          have hb : Base { s with intr := false } mine left s.cpu.extra :=
            h.toBase.congr rfl rfl rfl rfl h.queue h.waits
          have hmis : ∀ e : Fault, (e = .assertion → a.Misuse { s with intr := false }) →
              e = .assertion → Misuse s (.intr a) := by
            intro e hm he
            cases a with
            | evtalloc => exact hm he
            | _ => exact hm he
          refine ((Calm.act hb).imp_error hmis).map fun u hu ↦ ?_
          have hcpu : u.cpu = s.cpu := hu.cpu
          have hlv : u.level = s.level := hu.level
          have hub := hu.base
          refine ⟨?_, ?_, fun new save hs ↦ ?_⟩
          · show Base { u with intr := true } mine left u.cpu.extra
            rw [hcpu]
            exact hub.congr rfl rfl rfl rfl hub.queue hub.waits
          · show true = true ↔ u.level = 0 ∨ ∃ save, u.cpu = .waiting save
            rw [hlv, hcpu]
            exact iff_of_true rfl (h.intr.1 hi)
          · show new < u.lwts
            rw [hu.lwts]
            exact h.target new save (hcpu.symm.trans hs)
      · exact fun he ↦ Fault.noConfusion he
  | retry =>
      exact (@resume _ _ _ .retry h hsafe ⟨by decide, by decide⟩).imp_error
        fun e hne he ↦ absurd he hne
  | switch =>
      exact (@resume _ _ _ .switch h hsafe ⟨by decide, by decide⟩).imp_error
        fun e hne he ↦ absurd he hne
  | evtwaitEnd =>
      exact (@resume _ _ _ .evtwaitEnd h hsafe ⟨by decide, by decide⟩).imp_error
        fun e hne he ↦ absurd he hne
  | _ => exact hcall hpair hsafe fun h ↦ Op.noConfusion h

theorem levelOk (h : LInv s mine left) : LevelOk s mine where
  returns hc hp := h.level_code hc hp
  asserts op hpair he := by
    by_cases hsafe : LevelSafe s left op
    · exact (h.step hpair hsafe).of_error he rfl
    · -- a step that is not safe is a jump, or an `evtast` that enables nothing
      cases op with
      | switch =>
          simp only [State.step, State.resume] at he
          split at he <;> cases he
      | evtast evt mem =>
          by_cases hset : s.evtIsSet evt = true
          · exact State.evtast_set hset (step_evtast he)
          · refine absurd ⟨?_, fun _ _ h ↦ Op.noConfusion h⟩ hsafe
            rintro _ _ ⟨⟩
            exact Bool.eq_false_iff.2 hset
      | _ => exact absurd ⟨fun _ _ h ↦ Op.noConfusion h, fun _ _ h ↦ Op.noConfusion h⟩ hsafe
  enabled _ _ hl := h.intr.2 (.inl hl)

end LInv

/-! ## Runs -/

/-- In a run in which an LWT gets the CPU back at the level at which it was left, and `evtast` is
called for events that are not set, the levels are right in every state. -/
theorem levels_kept {g : Levels} (h : Run (fun p op q ↦ LevelStep p op q ∧
    LevelSafe p.1 p.2.left op) (.started, .boot) ops (s, g)) : LevelOk s g.mine := by
  have hI := h.invariant (I := fun p : State × Levels ↦ LInv p.1 p.2.mine p.2.left) ?_ LInv.started
  · exact hI.levelOk
  · rintro ⟨s, g⟩ op ⟨s', g'⟩ hI ⟨⟨hs, hg, hpair⟩, hsafe⟩
    dsimp only at hI hs hg hpair hsafe ⊢
    rw [hg]
    exact (hI.step hpair hsafe).of_ok hs

/-- A step, from what it does. -/
theorem levelStep {g : Levels} (hs : s.step op = .ok s') (hp : Paired s g.mine op) :
    LevelStep (s, g) op (s', ⟨levels s g.mine op, lefts s g.left op⟩) := ⟨hs, rfl, hp⟩

/-- `main` waits for an event, with its level at 1 meanwhile: the LWT that it has created begins
at this level, sets the event and pauses.  Then `main` pauses with preemption disabled. -/
theorem levels_kept_two : ∃ s g, Run (fun p op q ↦ LevelStep p op q ∧ LevelSafe p.1 p.2.left op)
    (.started, .boot) [.create, .lwtWake 1, .evtwait 0, .switch, .act (.evtset 0), .lwtPause,
      .switch, .evtwaitEnd, .disable, .lwtPause, .switch] (s, g) ∧
      s.current = 1 ∧ s.level = 1 ∧ g.left 0 = 1 ∧ LevelOk s g.mine := by
  have hrun : ∀ {s : State} {left op}, op ≠ .switch → (∀ evt mem, op ≠ .evtast evt mem) →
      LevelSafe s left op :=
    fun hop ha ↦ ⟨fun evt mem he ↦ absurd he (ha evt mem), fun _ _ h ↦ absurd h hop⟩
  -- a jump to an LWT that begins, or to one that was left at this level
  have hswitch : ∀ {s : State} {left new save}, s.cpu = .switching new save →
      ((s.pos new).begins = true ∨ s.level = left new) → LevelSafe s left .switch := by
    intro s left new save hc hl
    refine ⟨nofun, fun new' save' _ hc' _ hb ↦ ?_⟩
    obtain ⟨rfl, rfl⟩ := Cpu.switching.inj (hc.symm.trans hc')
    exact hl.resolve_left (Bool.eq_false_iff.1 hb)
  have h : Run (fun p op q ↦ LevelStep p op q ∧ LevelSafe p.1 p.2.left op)
      (State.started, Levels.boot) [.create, .lwtWake 1, .evtwait 0, .switch, .act (.evtset 0),
        .lwtPause, .switch, .evtwaitEnd, .disable, .lwtPause, .switch] (_, _) :=
    .cons ⟨levelStep rfl nofun, hrun nofun nofun⟩ <|
    .cons ⟨levelStep rfl nofun, hrun nofun nofun⟩ <|
    .cons ⟨levelStep rfl nofun, hrun nofun nofun⟩ <|
    .cons ⟨levelStep rfl nofun, hswitch rfl (.inl rfl)⟩ <|
    .cons ⟨levelStep rfl nofun, hrun nofun nofun⟩ <|
    .cons ⟨levelStep rfl nofun, hrun nofun nofun⟩ <|
    .cons ⟨levelStep rfl nofun, hswitch rfl (.inr rfl)⟩ <|
    .cons ⟨levelStep rfl nofun, hrun nofun nofun⟩ <|
    .cons ⟨levelStep rfl nofun, hrun nofun nofun⟩ <|
    .cons ⟨levelStep rfl nofun, hrun nofun nofun⟩ <|
    .cons ⟨levelStep rfl nofun, hswitch rfl (.inr rfl)⟩ (.nil _)
  exact ⟨_, _, h, rfl, rfl, rfl, levels_kept h⟩

/-- `main` pauses at level 0 and the other LWT waits for an event: `lwt_pause` returns at
level 1. -/
theorem levels_mixed : ∃ s g, Run LevelStep (.started, .boot)
    [.create, .lwtWake 1, .lwtPause, .switch, .evtwait 0, .switch] (s, g) ∧
      s.cpu = .running ∧ s.pos s.current = .code ∧ s.level = 1 ∧ g.mine s.current = 0 ∧
        ¬LevelOk s g.mine := by
  have h : Run LevelStep (State.started, Levels.boot)
      [.create, .lwtWake 1, .lwtPause, .switch, .evtwait 0, .switch] (_, _) :=
    .cons (levelStep rfl nofun) <| .cons (levelStep rfl nofun) <| .cons (levelStep rfl nofun) <|
    .cons (levelStep rfl nofun) <| .cons (levelStep rfl nofun) <|
    .cons (levelStep rfl nofun) (.nil _)
  refine ⟨_, _, h, rfl, rfl, rfl, rfl, fun hok ↦ ?_⟩
  exact Nat.one_ne_zero (hok.returns rfl rfl)

end Mh.Lwt
