import Mh.Proc.Tree

/-!
# Every exit status is returned once

`HInv` ties the history to the state: a thread that is freed is one whose pid and exit status
`childstat` has returned, to the thread that was its parent then, which is the one that forked it
unless that one has exited.

`do_zombie` leaves its loop after one round, and `do_softirq` has cleared the soft interrupt by
then.  A thread that exits on a CPU where another one still waits for the soft interrupt stays
behind on `resched`, until some later exit on that CPU brings its turn: it is not returned
whatever its parent does.  As long as no thread exits there before the soft interrupt of the one
before has been handled, every exit status is returned (`exits_returned`).
-/

namespace Mh.Proc

open Mh.Lib

variable {Cpu : Type}

/-- The thread has called `__exit`. -/
def State.Exited (s : State Cpu) (t : Nat) : Prop := ∃ status, (t, status) ∈ s.exits

/-- The thread that is to hear of the exit of `t`: the one that forked it, or `init` when that one
has exited. -/
def State.Heir (s : State Cpu) (t q : Nat) : Prop :=
  s.creator t = some q ∨ q = s.init ∧ ∃ c, s.creator t = some c ∧ s.Exited c

/-- The two lists of children. -/
inductive Which
  | active
  | zombies
deriving DecidableEq, Repr

/-- The lists of children. -/
def State.children (s : State Cpu) : Which → Nat → List Nat
  | .active => s.active
  | .zombies => s.zombies

/-- The thread is on one list of children, once, and that is a list of its parent: the thread that
forked it, or `init` when that one has exited. -/
def Placed (s : State Cpu) (t : Nat) : Prop :=
  ∃ p w, s.parent t = some p ∧ (¬s.Exited p ∧ s.Heir t p) ∧
    ∀ v q, (s.children v q).count t = if v = w ∧ q = p then 1 else 0

/-- The calls that bring the zombies home. -/
def Op.Reaps : Op Cpu → Prop
  | .softirq _ | .childstat _ => True
  | _ => False

section Spec

variable [DecidableEq Cpu]

/-- Soft interrupts and calls of `childstat` are all it takes for the exit status of `t` to be
returned. -/
def Returnable (s : State Cpu) (t : Nat) (status : Int) : Prop :=
  ∃ ops s', Run Step s ops s' ∧ (∀ op ∈ ops, op.Reaps) ∧ ∃ q, (q, t, status) ∈ s'.returned

/-- Every thread but `init` and the idle ones is on one list of children until it is freed, and on
`zombie_children` only once it has exited; an exit status is returned to the right thread, once,
and each of them is returned or can still be. -/
structure ProcOk (s : State Cpu) : Prop where
  placed : ∀ t, (s.life t).isPresent → t ≠ s.init → Placed s t
  exited : ∀ t p, t ∈ s.zombies p → s.Exited t
  sound : ∀ q t status, (q, t, status) ∈ s.returned → (t, status) ∈ s.exits ∧ s.Heir t q
  once : (s.exits.map fun e ↦ e.1).Nodup ∧ (s.returned.map fun r ↦ r.2.1).Nodup
  complete : ∀ t status, (t, status) ∈ s.exits →
    (∃ q, (q, t, status) ∈ s.returned) ∨ Returnable s t status

/-- A thread exits on a CPU where no other waits for the soft interrupt. -/
def ExitSafe (s : State Cpu) (op : Op Cpu) : Prop :=
  ∀ i p status, op = .exit i p status → s.resched i = []

end Spec

/-! ## The history -/

/-- A thread that has exited. -/
def Life.isGone : Life Cpu → Bool
  | .exited _ | .zombie | .freed => true
  | _ => false

/-- The invariant of the history. -/
structure HInv (s : State Cpu) : Prop where
  heir : ∀ t p, s.parent t = some p → s.Heir t p
  exits : ∀ t status, (t, status) ∈ s.exits ↔ (s.life t).isGone ∧ s.exitStatus t = status
  returned : ∀ q t status, (q, t, status) ∈ s.returned ↔
    s.life t = .freed ∧ s.parent t = some q ∧ s.exitStatus t = status
  freed : ∀ t, s.life t = .freed → ∃ q, s.parent t = some q
  nodup_exits : (s.exits.map fun e ↦ e.1).Nodup
  nodup_returned : (s.returned.map fun r ↦ r.2.1).Nodup

namespace HInv

variable {s s' : State Cpu} {t p q : Nat} {status : Int} {i : Cpu}

/-- The heir of a thread stays its heir. -/
theorem heir_mono (hc : s'.creator t = s.creator t) (hi : s'.init = s.init)
    (he : ∀ e ∈ s.exits, e ∈ s'.exits) (h : s.Heir t q) : s'.Heir t q := by
  unfold State.Heir at h ⊢
  rw [hc, hi]
  refine h.imp_right fun h ↦ ⟨h.1, ?_⟩
  obtain ⟨-, c, hc, status, hs⟩ := h
  exact ⟨c, hc, status, he _ hs⟩

theorem boot : HInv (boot : State Cpu) where
  heir _ _ h := nomatch h
  exits t status := by
    refine iff_of_false List.not_mem_nil fun h ↦ ?_
    have hg := h.1
    change (if t = 0 then Life.idle else if t = 1 then .live else .unborn : Life Cpu).isGone at hg
    split at hg
    · cases hg
    · split at hg <;> cases hg
  returned q t status := iff_of_false List.not_mem_nil fun h ↦ nomatch h.2.1
  freed t h := by
    exfalso
    change (if t = 0 then Life.idle else if t = 1 then .live else .unborn : Life Cpu) = _ at h
    split at h
    · cases h
    · split at h <;> cases h
  nodup_exits := List.nodup_nil
  nodup_returned := List.nodup_nil

/-- `thfork`. -/
theorem thfork (h : HInv s) (hT : TInv s) (hs : s.thfork p = .ok s') : HInv s' := by
  obtain rfl := State.thfork_ok hs
  have hnew : s.life s.next = .unborn := hT.fresh _ (Nat.le_refl _)
  refine ⟨fun t q hq ↦ ?_, fun t status ↦ ?_, fun q t status ↦ ?_, fun t ht ↦ ?_, h.nodup_exits,
    h.nodup_returned⟩
  · dsimp only at hq
    by_cases ht : t = s.next
    · subst ht
      rw [Function.update_self] at hq
      exact .inl ((Function.update_self ..).trans hq)
    · rw [Function.update_of_ne ht] at hq
      exact heir_mono (Function.update_of_ne ht ..) rfl (fun _ he ↦ he) (h.heir t q hq)
  · have hold := h.exits t status
    dsimp only
    simp only [Function.update_apply]
    grind [Life.isGone]
  · have hold := h.returned q t status
    dsimp only
    simp only [Function.update_apply]
    grind
  · have hold := h.freed t
    dsimp only at ht ⊢
    simp only [Function.update_apply] at ht ⊢
    grind

/-- A CPU comes up. -/
theorem bootAp (h : HInv s) (hT : TInv s) : HInv { s with
    next := s.next + 1
    life := Function.update s.life s.next .idle } := by
  have hnew : s.life s.next = .unborn := hT.fresh _ (Nat.le_refl _)
  refine ⟨h.heir, fun t status ↦ ?_, fun q t status ↦ ?_, fun t ht ↦ ?_, h.nodup_exits,
    h.nodup_returned⟩
  · have hold := h.exits t status
    dsimp only
    simp only [Function.update_apply]
    grind [Life.isGone]
  · have hold := h.returned q t status
    dsimp only
    simp only [Function.update_apply]
    grind
  · have hold := h.freed t
    dsimp only at ht ⊢
    simp only [Function.update_apply] at ht
    grind

/-- `childstat`. -/
theorem childstat (h : HInv s) (hT : TInv s) : HInv (s.childstat p).2 := by
  unfold State.childstat
  split
  · exact h
  · next c cs hz =>
      have hc := (hT.zombies c p).1 (hz ▸ List.mem_cons_self)
      have hout : ∀ q status, (q, c, status) ∉ s.returned := fun q status hm ↦ by
        have hf := ((h.returned q c status).1 hm).1
        rw [hc.2] at hf
        cases hf
      refine ⟨h.heir, fun t status ↦ ?_, fun q t status ↦ ?_, fun t ht ↦ ?_, h.nodup_exits, ?_⟩
      · have hold := h.exits t status
        dsimp only
        simp only [Function.update_apply]
        grind [Life.isGone]
      · have hold := h.returned q t status
        dsimp only
        simp only [Function.update_apply, List.mem_append, List.mem_singleton, Prod.mk.injEq]
        grind
      · have hold := h.freed t
        dsimp only at ht ⊢
        simp only [Function.update_apply] at ht
        grind
      · dsimp only
        rw [List.map_append]
        refine List.nodup_append.2 ⟨h.nodup_returned, List.nodup_singleton _, ?_⟩
        grind

variable [DecidableEq Cpu]

/-- `__exit`. -/
theorem exit (h : HInv s) (hT : TInv s) (hp : s.life p = .live)
    (hs : s.exit i p status = .ok s') : HInv s' := by
  unfold State.exit at hs
  split at hs
  · cases hs
  · next hpar =>
      obtain rfl := Except.ok.inj hs
      have hi : p ≠ s.init := by
        rintro rfl
        exact hpar hT.init_parent
      have hgrow : ∀ e ∈ s.exits, e ∈ s.exits ++ [(p, status)] := fun e he ↦
        List.mem_append_left _ he
      refine ⟨fun t q hq ↦ ?_, fun t st ↦ ?_, fun q t st ↦ ?_, fun t ht ↦ ?_, ?_, h.nodup_returned⟩
      · have hmine := hT.mem_children (t := t) (p := p)
        change (if t ∈ s.active p ∨ t ∈ s.zombies p then some s.init else s.parent t) = some q at hq
        split at hq
        · next hm =>
            cases hq
            -- the thread that forked a child of `p` is `p` itself, or has exited before
            refine .inr ⟨rfl, ?_⟩
            rcases h.heir t p (hmine.1 hm).1 with hc | ⟨hpi, -⟩
            · exact ⟨p, hc, status, List.mem_append_right _ List.mem_cons_self⟩
            · exact absurd hpi hi
        · exact heir_mono (s := s) rfl rfl hgrow (h.heir t q hq)
      · have hold := h.exits t st
        dsimp only [State.retire, State.inherit]
        simp only [Function.update_apply, List.mem_append, List.mem_singleton, Prod.mk.injEq]
        grind [Life.isGone]
      · have hold := h.returned q t st
        have hmine := hT.mem_children (t := t) (p := p)
        dsimp only [State.retire, State.inherit]
        simp only [Function.update_apply]
        grind [Life.isPresent]
      · have hold := h.freed t
        dsimp only [State.retire, State.inherit] at ht ⊢
        simp only [Function.update_apply] at ht
        grind
      · show ((s.exits ++ [(p, status)]).map fun e ↦ e.1).Nodup
        rw [List.map_append]
        refine List.nodup_append.2 ⟨h.nodup_exits, List.nodup_singleton _, ?_⟩
        intro a ha b hb hab
        rw [List.map_singleton, List.mem_singleton] at hb
        obtain ⟨⟨u, st⟩, hm, rfl⟩ := List.mem_map.1 ha
        have hgone := ((h.exits u st).1 hm).1
        rw [show u = p from hab.trans hb, hp] at hgone
        cases hgone

/-- `do_zombie`. -/
theorem doZombie (h : HInv s) (hT : TInv s) (hs : s.doZombie i = .ok s') : HInv s' := by
  cases hr : s.resched i with
  | nil =>
      simp only [State.doZombie, hr] at hs
      exact Except.ok.inj hs ▸ h
  | cons c cs =>
      obtain ⟨p, -, -, hl, hz⟩ := hT.doZombie_cons hr
      obtain rfl := Except.ok.inj (hz.symm.trans hs)
      refine ⟨h.heir, fun t status ↦ ?_, fun q t status ↦ ?_, fun t ht ↦ ?_, h.nodup_exits,
        h.nodup_returned⟩
      · have hold := h.exits t status
        dsimp only
        simp only [Function.update_apply]
        grind [Life.isGone]
      · have hold := h.returned q t status
        dsimp only
        simp only [Function.update_apply]
        grind
      · have hold := h.freed t
        dsimp only at ht ⊢
        simp only [Function.update_apply] at ht
        grind

/-- `do_softirq`. -/
theorem doSoftirq (h : HInv s) (hT : TInv s) (hs : s.doSoftirq i = .ok s') : HInv s' := by
  unfold State.doSoftirq at hs
  split at hs
  · refine doZombie ?_ ?_ hs
    · exact { h with }
    · exact { hT with }
  · exact Except.ok.inj hs ▸ h

/-- The steps. -/
theorem step {op : Op Cpu} (h : HInv s) (hT : TInv s) (hs : Step s op s') : HInv s' := by
  obtain ⟨hal, hex⟩ := hs
  cases op with
  | fork p => exact h.thfork hT hex
  | exit i p status => exact h.exit hT hal hex
  | softirq i => exact h.doSoftirq hT hex
  | childstat p =>
      rw [← Except.ok.inj hex]
      exact h.childstat hT
  | bootAp =>
      simp only [exec, State.getnewpid] at hex
      split at hex
      · rw [← Except.ok.inj hex]
        exact h.bootAp hT
      · cases hex

end HInv

section Runs

variable [DecidableEq Cpu] {s s' : State Cpu} {t p q : Nat} {status : Int} {i : Cpu}
  {op : Op Cpu} {ops : List (Op Cpu)}

/-! ## Returning an exit status -/

/-- Calls of `childstat` bring every zombie child. -/
theorem returnable_of_zombie (hT : TInv s) (hH : HInv s) (hp : s.life p = .live)
    (ht : t ∈ s.zombies p) : Returnable s t (s.exitStatus t) := by
  obtain ⟨cs, hcs⟩ : ∃ cs, s.zombies p = cs := ⟨_, rfl⟩
  induction cs generalizing s with
  | nil =>
      rw [hcs] at ht
      cases ht
  | cons c cs ih =>
      have hs : Step s (.childstat p) (s.childstat p).2 := ⟨hp, rfl⟩
      have hc := (hT.zombies c p).1 (hcs ▸ List.mem_cons_self)
      have hcall : (s.childstat p).2 = { s with
          zombies := Function.update s.zombies p cs
          life := Function.update s.life c .freed
          returned := s.returned ++ [(p, c, s.exitStatus c)] } := by
        rw [State.childstat, hcs]
      rw [hcall] at hs
      rw [hcs, List.mem_cons] at ht
      rcases ht with rfl | ht
      · refine ⟨[.childstat p], _, .cons hs (.nil _), ?_, p, ?_⟩
        · rintro op (_ | ⟨_, ⟨⟩⟩)
          trivial
        · exact List.mem_append_right _ List.mem_cons_self
      · have hne : p ≠ c := by
          rintro rfl
          rw [hp] at hc
          cases hc.2
        obtain ⟨ops, s', hrun, hops, hret⟩ := ih (hT.step hs) (hH.step hT hs)
          ((Function.update_of_ne hne ..).trans hp)
          (show t ∈ Function.update s.zombies p cs p by rwa [Function.update_self])
          (Function.update_self ..)
        refine ⟨.childstat p :: ops, s', .cons hs hrun, ?_, hret⟩
        rintro op (_ | ⟨_, hop⟩)
        · trivial
        · exact hops op hop

/-- Where a thread waits for the soft interrupt, it waits alone, and the soft interrupt is
raised. -/
def Prompt (s : State Cpu) : Prop :=
  ∀ i t, t ∈ s.resched i → s.resched i = [t] ∧ s.softZombie i = true

/-- The steps of a run in which every exit is safe. -/
theorem step_prompt (hT : TInv s) (h : Prompt s) (hs : Step s op s') (hsafe : ExitSafe s op) :
    Prompt s' := by
  obtain ⟨-, hex⟩ := hs
  cases op with
  | fork p =>
      obtain rfl := State.thfork_ok hex
      exact h
  | exit i p status =>
      have hempty := hsafe i p status rfl
      simp only [exec, State.exit] at hex
      split at hex
      · cases hex
      · obtain rfl := Except.ok.inj hex
        intro j t ht
        have hold := h j t
        have hin : (s.inherit p).resched = s.resched := rfl
        have hin' : (s.inherit p).softZombie = s.softZombie := rfl
        simp only [State.retire, Function.update_apply, hin, hin'] at ht ⊢
        grind
  | softirq i =>
      simp only [exec, State.doSoftirq] at hex
      split at hex
      · have hT' : TInv { s with softZombie := Function.update s.softZombie i false } := { hT with }
        cases hr : s.resched i with
        | nil =>
            simp only [State.doZombie, hr] at hex
            obtain rfl := Except.ok.inj hex
            intro j t ht
            have hold := h j t ht
            simp only [Function.update_apply]
            grind
        | cons c cs =>
            obtain ⟨p, -, -, -, hz⟩ := hT'.doZombie_cons (i := i) hr
            obtain rfl := Except.ok.inj (hz.symm.trans hex)
            have hone := (h i c (hr ▸ List.mem_cons_self)).1
            intro j t ht
            have hold := h j t
            simp only [Function.update_apply] at ht ⊢
            grind
      · exact Except.ok.inj hex ▸ h
  | childstat p =>
      obtain rfl := Except.ok.inj hex
      simp only [State.childstat]
      split <;> exact h
  | bootAp =>
      simp only [exec, State.getnewpid] at hex
      split at hex
      · obtain rfl := Except.ok.inj hex
        exact h
      · cases hex

/-- A thread that waits for the soft interrupt. -/
theorem returnable_of_exited (hT : TInv s) (hH : HInv s) (hP : Prompt s)
    (ht : s.life t = .exited i) : Returnable s t (s.exitStatus t) := by
  have hmem : t ∈ s.resched i := (hT.resched t i).2 ht
  obtain ⟨hr, hsoft⟩ := hP i t hmem
  have hT' : TInv { s with softZombie := Function.update s.softZombie i false } := { hT with }
  obtain ⟨p, hp, hlp, -, hz⟩ := hT'.doZombie_cons (i := i) hr
  have hs : Step s (.softirq i) _ := ⟨trivial, by
    show s.doSoftirq i = _
    rw [State.doSoftirq, if_pos hsoft]
    exact hz⟩
  have hne : p ≠ t := by
    rintro rfl
    change s.life p = .live at hlp
    rw [ht] at hlp
    cases hlp
  obtain ⟨ops, s', hrun, hops, hret⟩ := returnable_of_zombie (p := p) (t := t) (hT.step hs)
    (hH.step hT hs) ((Function.update_of_ne hne ..).trans hlp)
    (show t ∈ Function.update s.zombies p (t :: s.zombies p) p by
      rw [Function.update_self]
      exact List.mem_cons_self)
  refine ⟨.softirq i :: ops, s', .cons hs hrun, ?_, hret⟩
  rintro op (_ | ⟨_, hop⟩)
  · trivial
  · exact hops op hop

/-! ## Every state -/

omit [DecidableEq Cpu] in
/-- A thread that is not freed is on one list of children. -/
theorem TInv.placed (hT : TInv s) (hH : HInv s) (ht : (s.life t).isPresent) (hi : t ≠ s.init) :
    Placed s t := by
  obtain ⟨p, hp, hlp⟩ := hT.parent t ht hi
  have hnot : ¬s.Exited p := fun ⟨status, he⟩ ↦ by
    have hg := ((hH.exits p status).1 he).1
    rw [hlp] at hg
    cases hg
  have hcount : ∀ v q, (s.children v q).count t = if t ∈ s.children v q then 1 else 0 := by
    rintro (_ | _) q
    · exact (hT.nodup_active q).count
    · exact (hT.nodup_zombies q).count
  have hmem : ∀ v q, t ∈ s.children v q ↔
      v = (if (s.life t).isActive then .active else .zombies) ∧ q = p := by
    rintro (_ | _) q
    · rw [State.children, hT.active, hp]
      grind
    · rw [State.children, hT.zombies, hp]
      cases hl : s.life t with
      | zombie => simp [Life.isActive, eq_comm]
      | live | exited => simp [Life.isActive]
      | _ =>
          rw [hl] at ht
          cases ht
  refine ⟨p, if (s.life t).isActive then .active else .zombies, hp, ⟨hnot, hH.heir t p hp⟩,
    fun v q ↦ ?_⟩
  rw [hcount]
  exact if_congr (hmem v q) rfl rfl

/-- The invariants, and the soft interrupts that are raised in time, say all that is asked. -/
theorem procOk (hT : TInv s) (hH : HInv s) (hP : Prompt s) : ProcOk s where
  placed _ := hT.placed hH
  exited t p ht := by
    refine ⟨s.exitStatus t, (hH.exits t _).2 ⟨?_, rfl⟩⟩
    rw [((hT.zombies t p).1 ht).2]
    rfl
  sound q t status hr := by
    obtain ⟨hl, hp, hst⟩ := (hH.returned q t status).1 hr
    refine ⟨(hH.exits t status).2 ⟨?_, hst⟩, hH.heir t q hp⟩
    rw [hl]
    rfl
  once := ⟨hH.nodup_exits, hH.nodup_returned⟩
  complete t status he := by
    obtain ⟨hgone, rfl⟩ := (hH.exits t status).1 he
    cases hl : s.life t with
    | exited i => exact .inr (returnable_of_exited hT hH hP hl)
    | zombie =>
        have hti : t ≠ s.init := by
          rintro rfl
          rw [hT.init_live] at hl
          cases hl
        obtain ⟨p, hp, hlp⟩ := hT.parent t (by rw [hl]; rfl) hti
        exact .inr (returnable_of_zombie hT hH hlp ((hT.zombies t p).2 ⟨hp, hl⟩))
    | freed =>
        obtain ⟨q, hq⟩ := hH.freed t hl
        exact .inl ⟨q, (hH.returned q t _).2 ⟨hl, hq, rfl⟩⟩
    | _ =>
        rw [hl] at hgone
        cases hgone

/-- In a run in which every thread exits where no other waits for the soft interrupt, every state
is right. -/
theorem exits_returned (h : Run (fun s op s' ↦ Step s op s' ∧ ExitSafe s op) boot ops s) :
    ProcOk s := by
  have hinv : TInv s ∧ HInv s ∧ Prompt s := by
    refine h.invariant (I := fun s ↦ TInv s ∧ HInv s ∧ Prompt s) ?_ ?_
    · rintro s op s' ⟨hT, hH, hP⟩ ⟨hs, hsafe⟩
      exact ⟨hT.step hs, hH.step hT hs, step_prompt hT hP hs hsafe⟩
    · exact ⟨.boot, .boot, fun _ _ ht ↦ absurd ht List.not_mem_nil⟩
  exact procOk hinv.1 hinv.2.1 hinv.2.2

/-- A step of a run on one CPU. -/
theorem procStep {s s' : State Unit} {op : Op Unit} (hop : Allowed s op) (hs : exec s op = .ok s') :
    Step s op s' := ⟨hop, hs⟩

/-- `init` forks two children; each exits, and is waited for. -/
theorem exits_returned_two : ∃ s,
    Run (fun s op s' ↦ Step s op s' ∧ ExitSafe s op) (boot : State Unit)
      [.fork 1, .fork 1, .exit () 2 7, .softirq (), .childstat 1, .exit () 3 8] s ∧
      (1, 2, 7) ∈ s.returned ∧ ProcOk s := by
  have hsafe : ∀ {s : State Unit} {op : Op Unit}, s.resched () = [] → ExitSafe s op :=
    fun h _ _ _ _ ↦ h
  have hsoft : ∀ {s : State Unit}, ExitSafe s (.softirq ()) := by rintro s _ _ _ ⟨⟩
  have h : Run (fun s op s' ↦ Step s op s' ∧ ExitSafe s op) (boot : State Unit)
      [.fork 1, .fork 1, .exit () 2 7, .softirq (), .childstat 1, .exit () 3 8] _ :=
    .cons ⟨procStep rfl rfl, hsafe rfl⟩ <| .cons ⟨procStep rfl rfl, hsafe rfl⟩ <|
    .cons ⟨procStep rfl rfl, hsafe rfl⟩ <|
    .cons ⟨procStep trivial rfl, hsoft⟩ <|
    .cons ⟨procStep rfl rfl, hsafe rfl⟩ <| .cons ⟨procStep rfl rfl, hsafe rfl⟩ (.nil _)
  exact ⟨_, h, List.mem_cons_self, exits_returned h⟩

/-! ## A thread that stays behind -/

/-- A thread on `resched` of a CPU where no soft interrupt is raised is not returned, whatever its
parent and the other CPUs do. -/
theorem not_returnable (hT : TInv s) (hH : HInv s) (ht : s.life t = .exited i)
    (hsoft : s.softZombie i = false) : ¬Returnable s t status := by
  rintro ⟨ops, s', hrun, hops, q, hret⟩
  suffices hstay : s'.life t = .exited i ∧ HInv s' by
    have hl := ((hstay.2.returned q t status).1 hret).1
    rw [hstay.1] at hl
    cases hl
  clear hret
  induction hrun with
  | nil s => exact ⟨ht, hH⟩
  | @cons s u s' op ops hs hrun ih =>
      have hreap := hops op List.mem_cons_self
      suffices hu : u.life t = .exited i ∧ u.softZombie i = false from
        ih (hT.step hs) (hH.step hT hs) hu.1 hu.2 fun op hop ↦ hops op (List.mem_cons_of_mem _ hop)
      obtain ⟨-, hex⟩ := hs
      cases op with
      | softirq j =>
          simp only [exec, State.doSoftirq] at hex
          split at hex
          · next hj =>
              have hij : i ≠ j := by
                rintro rfl
                rw [hsoft] at hj
                cases hj
              have hkeep : Function.update s.softZombie j false i = false := by
                rw [Function.update_of_ne hij, hsoft]
              have hT' : TInv { s with softZombie := Function.update s.softZombie j false } :=
                { hT with }
              cases hr : s.resched j with
              | nil =>
                  simp only [State.doZombie, hr] at hex
                  obtain rfl := Except.ok.inj hex
                  exact ⟨ht, hkeep⟩
              | cons c cs =>
                  obtain ⟨p, -, -, hc, hz⟩ := hT'.doZombie_cons (i := j) hr
                  obtain rfl := Except.ok.inj (hz.symm.trans hex)
                  refine ⟨(Function.update_of_ne ?_ ..).trans ht, hkeep⟩
                  rintro rfl
                  exact hij (Life.exited.inj (ht.symm.trans hc))
          · obtain rfl := Except.ok.inj hex
            exact ⟨ht, hsoft⟩
      | childstat p =>
          obtain rfl := Except.ok.inj hex
          simp only [State.childstat]
          split
          · exact ⟨ht, hsoft⟩
          · next c cs hz =>
              have hc := ((hT.zombies c p).1 (hz ▸ List.mem_cons_self)).2
              refine ⟨(Function.update_of_ne ?_ ..).trans ht, hsoft⟩
              rintro rfl
              rw [ht] at hc
              cases hc
      | _ => exact hreap.elim

end Runs

/-- `init` forks two children.  The first exits, and the second, which has not been in the kernel
since it was forked, exits before the soft interrupt is handled: `do_zombie` brings the first
only. -/
theorem exit_not_returned : ∃ s,
    Run Step (boot : State Unit)
      [.fork 1, .fork 1, .exit () 2 7, .exit () 3 8, .softirq ()] s ∧
      (3, 8) ∈ s.exits ∧ ¬((∃ q, (q, 3, 8) ∈ s.returned) ∨ Returnable s 3 8) := by
  have h : Run Step (boot : State Unit)
      [.fork 1, .fork 1, .exit () 2 7, .exit () 3 8, .softirq ()] _ :=
    .cons (procStep rfl rfl) <| .cons (procStep rfl rfl) <| .cons (procStep rfl rfl) <|
    .cons (procStep rfl rfl) <| .cons (procStep trivial rfl) (.nil _)
  have hinv := h.invariant (I := fun s ↦ TInv s ∧ HInv s)
    (fun s op s' hi hs ↦ ⟨hi.1.step hs, hi.2.step hi.1 hs⟩) ⟨.boot, .boot⟩
  refine ⟨_, h, List.mem_cons_of_mem _ List.mem_cons_self, ?_⟩
  rintro (⟨q, hq⟩ | hr)
  · cases hq
  · exact not_returnable (i := ()) hinv.1 hinv.2 rfl rfl hr

end Mh.Proc
