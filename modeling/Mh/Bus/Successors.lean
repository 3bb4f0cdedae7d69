import Mh.Bus.Twins

/-!
# Successive holders of a client id

Two histories of the kernel that differ in nothing but what the clients of user devices have
set: their interrupt maps, and what the owners have written to their I/O spaces.  In both of
them a thread then opens a device into the same client id, and from there on the same things
happen.  What the thread reads from the device with `SYS_IN`, and the signals that it gets by
`SYS_IRQ`, are the same in both, for whatever happens, just when the entry that it has got
had the same I/O space and the same interrupt map in both (`successors_apart`): neither
opening nor closing clears them.
-/

namespace Mh.Bus

open Mh.Lib

/-! ## Two histories -/

/-- A setting of a client: it maps an interrupt of a user device, or the owner of the device
writes to its I/O space. -/
def State.Setting (s : State) : Label → Prop
  | .call t (.req dd (.irqmap _ _)) =>
    ∃ d, s.busGetDev t dd = .ok (.inr d) ∧ (s.dev d).kind = .usr
  | .call _ (.wriospace ..) => True
  | _ => False

/-- The states of two histories that differ in settings only. -/
inductive Histories (plt sys klog : Nat) : State → State → Prop
  | /-- Both start when the kernel does. -/
    boot : Histories plt sys klog (State.boot plt sys klog) (State.boot plt sys klog)
  | /-- The same happens in both. -/
    both {s s' w w' : State} {a : Label} : Histories plt sys klog s s' → Step s a w →
      Step s' a w' → Histories plt sys klog w w'
  | /-- A setting in the first. -/
    left {s s' w : State} {a : Label} : Histories plt sys klog s s' → s.Setting a →
      Step s a w → Histories plt sys klog w s'
  | /-- A setting in the second. -/
    right {s s' w' : State} {a : Label} : Histories plt sys klog s s' → s'.Setting a →
      Step s' a w' → Histories plt sys klog s w'

/-- No entry is required to agree. -/
def nowhere (_ _ : Nat) : Prop := False

variable {plt sys klog : Nat} {s s' w w' v v' : State} {t d i : Nat}

theorem Usrdev.Twin.symm {u u' : Usrdev} (h : u.Twin u') : u'.Twin u :=
  ⟨h.th.symm, h.cfg.symm, h.sig.symm, h.detaching.symm, h.ioreqs.symm, h.issued.symm,
    h.polls.symm, fun i ↦ ⟨(h.rem i).use.symm, (h.rem i).th.symm, (h.rem i).apertbl.symm⟩⟩

/-- Likeness is symmetric. -/
theorem Like.symm {P : Nat → Nat → Prop} (h : Like P s s') : Like P s' s where
  rest := by
    obtain ⟨u, σ, rfl⟩ := h.rest
    exact ⟨s.usr, s.softintrs, rfl⟩
  twin d := (h.twin d).symm
  same d i hi := ⟨fun j hj ↦ ((h.same d i hi).iospace j hj).symm,
    fun j hj ↦ ((h.same d i hi).irqmap j hj).symm⟩

/-- What a client has set is written in one of the states. -/
theorem Like.set_left {r : Remth} (h : Like nowhere s s')
    (hr : ((s.usr d).remths i).use = r.use ∧ ((s.usr d).remths i).th = r.th ∧
      ((s.usr d).remths i).apertbl = r.apertbl) :
    Like nowhere (s.setUsr d ((s.usr d).setRem i r)) s' where
  rest := by
    obtain ⟨u, σ, rfl⟩ := h.rest
    exact ⟨u, σ, rfl⟩
  twin d' := by
    rcases eq_or_ne d' d with rfl | hne
    · rw [State.setUsr_self]
      have ht := h.twin d'
      refine ⟨ht.th, ht.cfg, ht.sig, ht.detaching, ht.ioreqs, ht.issued, ht.polls, fun j ↦ ?_⟩
      rcases eq_or_ne j i with rfl | hne
      · rw [Usrdev.setRem_self]
        have htr := ht.rem j
        exact ⟨htr.use.trans hr.1, htr.th.trans hr.2.1, htr.apertbl.trans hr.2.2⟩
      · rw [Usrdev.setRem_of_ne _ hne]
        exact ht.rem j
    · rw [State.setUsr_of_ne hne]
      exact h.twin d'
  same _ _ hi := hi.elim

/-- A setting in one of the states. -/
theorem Like.setting {a : Label} (h : Like nowhere s s') (ha : s.Setting a) (hs : Step s a w) :
    Like nowhere w s' := by
  obtain ⟨-, hs⟩ := hs
  unfold State.Setting at ha
  split at ha
  · next t dd irq sig =>
    obtain ⟨d, hg, hk⟩ := ha
    obtain ⟨out, ho, hw⟩ := bind_eq_ok.1 hs
    cases hw
    obtain ⟨⟨r, val, s₁⟩, hc, ho⟩ := bind_eq_ok.1 ho
    cases ho
    unfold State.opCall at hc
    rw [hg] at hc
    have hop : s.op (t, dd) d (s.devs (t, dd)).devid (.irqmap irq sig) =
        some (s.usrdevIrqmap d (s.devs (t, dd)).devid irq sig) := by
      unfold State.op
      rw [hk]
      rfl
    simp only [bind, Except.bind, hop] at hc
    cases hx : s.usrdevIrqmap d (s.devs (t, dd)).devid irq sig with
    | error e =>
        rw [hx] at hc
        cases hc
    | ok res =>
        rw [hx] at hc
        cases hc
        unfold State.usrdevIrqmap at hx
        dsimp only at hx
        split at hx
        · cases hx
        · split at hx
          · cases hx
            exact h
          · cases hx
            exact h.set_left ⟨rfl, rfl, rfl⟩
  · next did id port val =>
    obtain ⟨⟨r, s₁⟩, hc, hw⟩ := bind_eq_ok.1 hs
    cases hw
    unfold State.sysWriospace State.withUsrdev at hc
    split at hc
    · cases hc
      exact h
    · split at hc
      · cases hc
        exact h
      · cases hc
        exact h.set_left ⟨rfl, rfl, rfl⟩
  · exact ha.elim

namespace Histories

/-- The two states are alike. -/
theorem like (h : Histories plt sys klog s s') : Like nowhere s s' := by
  induction h with
  | boot => exact .refl _
  | both _ hs hs' ih => exact ih.step (fun _ _ hi ↦ hi.elim) hs hs'
  | left _ ha hs ih => exact ih.setting ha hs
  | right _ ha hs ih => exact (ih.symm.setting ha hs).symm

/-- Both keep the invariant. -/
theorem inv (h : Histories plt sys klog s s') : Inv s ∧ Inv s' := by
  induction h with
  | boot => exact ⟨.boot .., .boot ..⟩
  | both _ hs hs' ih => exact ⟨ih.1.step hs, ih.2.step hs'⟩
  | left _ _ hs ih => exact ⟨ih.1.step hs, ih.2⟩
  | right _ _ hs ih => exact ⟨ih.1, ih.2.step hs⟩

end Histories

/-! ## What a client sees -/

namespace State

/-- The descriptor `k` is open, as the client `i` of the user device `d`. -/
structure Occupies (s : State) (k : Slot) (d i : Nat) : Prop where
  kind : (s.dev d).kind = .usr
  plg : (s.devs k).plg = true
  dev : (s.devs k).dev = some d
  devid : (s.devs k).devid = i

/-- The signal that an interrupt of the owner raises at a client, with the thread that gets
it. -/
def irqSig (s : State) (d id irq : Nat) : Option (Option Nat × Nat) :=
  let r := (s.usr d).remths id
  if id < maxUsrdevRems ∧ irq < irqmapSz ∧ r.irqmap irq ≠ 0 ∧ r.use then
    some (r.th, r.irqmap irq - 1)
  else none

/-- `usrdev_irq` raises this signal, and no other. -/
theorem usrdevIrq_irqSig (s : State) (d id irq : Nat) :
    (s.usrdevIrq d id irq).map (fun r ↦ r.2) =
      match s.irqSig d id irq with
      | none => .ok s
      | some (none, _) => .error .null
      | some (some th, sig) => s.thraise th sig := by
  unfold usrdevIrq irqSig
  dsimp only
  by_cases hlt : maxUsrdevRems ≤ id ∨ irqmapSz ≤ irq
  · rw [if_pos hlt, if_neg (by omega)]
    rfl
  · rw [if_neg hlt]
    by_cases hsig : ((s.usr d).remths id).irqmap irq ≠ 0 ∧ ((s.usr d).remths id).use = true
    · rw [if_pos hsig, if_pos (by push Not at hlt; exact ⟨hlt.1, hlt.2, hsig⟩)]
      cases ((s.usr d).remths id).th with
      | none => rfl
      | some th =>
          dsimp only
          cases s.thraise th (((s.usr d).remths id).irqmap irq - 1) with
          | error | ok => rfl
    · rw [if_neg hsig, if_neg fun h ↦ hsig h.2.2]
      rfl

end State

/-- The client `i` of `d`, which is the descriptor `dd` of `t`, sees the same in the two states:
every `SYS_IN` returns and stores the same, and every interrupt raises the same signal. -/
structure SameView (t dd d i : Nat) (v v' : State) : Prop where
  reads : ∀ port hw valptr fault,
    (v'.sysIn t dd port hw valptr fault).map (fun r ↦ (r.ret, r.copied)) =
      (v.sysIn t dd port hw valptr fault).map fun r ↦ (r.ret, r.copied)
  signals : ∀ irq, v'.irqSig d i irq = v.irqSig d i irq

/-- The same step in both states, after which the client still holds its entry. -/
def StepTogether (k : Slot) (d i : Nat) (p : State × State) (a : Label) (q : State × State) :
    Prop :=
  Step p.1 a q.1 ∧ Step p.2 a q.2 ∧ q.1.Occupies k d i

/-- An entry that is occupied is in use. -/
theorem Inv.occupied {k : Slot} (h : Inv v) (ho : v.Occupies k d i) :
    ((v.usr d).remths i).use ∧ i < maxUsrdevRems := by
  have hb := h.plugs.busy d _ (h.mem_lists ho.plg ho.dev) (.inl ho.kind)
  rw [ho.devid] at hb
  exact ⟨(State.inUse_usr ho.kind).1 hb, h.plugs.small d i hb⟩

/-- The entry is occupied in both of two states that are alike. -/
theorem Like.occupies {P : Nat → Nat → Prop} {k : Slot} (h : Like P v v')
    (ho : v.Occupies k d i) : v'.Occupies k d i where
  kind := by
    rw [h.dev]
    exact ho.kind
  plg := by
    rw [h.bus.2.1]
    exact ho.plg
  dev := by
    rw [h.bus.2.1]
    exact ho.dev
  devid := by
    rw [h.bus.2.1]
    exact ho.devid

/-- What `_usrdev_in` stores. -/
def Remth.ioRead (r : Remth) (port : Nat) : Nat :=
  let (start, n) := Usrdev.ioRange port
  bytesVal fun i ↦ if i < n then r.iospace (start + i) else 255

/-- Entries that agree are read alike. -/
theorem Remth.Same.ioRead {r r' : Remth} (h : r.Same r') (port : Nat) :
    r'.ioRead port = r.ioRead port := by
  unfold Remth.ioRead
  dsimp only
  congr 1
  funext j
  split
  · next hj =>
    refine h.iospace _ ?_
    unfold Usrdev.ioRange at hj ⊢
    dsimp only at hj ⊢
    omega
  · rfl

/-- What the words of a single byte tell. -/
theorem Remth.iospace_of_ioRead {r r' : Remth} {j : Nat} (hj : j < iospaceSz)
    (h : r'.ioRead (4 * j) = r.ioRead (4 * j)) : r'.iospace j = r.iospace j := by
  have hrange : Usrdev.ioRange (4 * j) = (j, 1) := by
    unfold Usrdev.ioRange ioPort ioSize
    unfold iospaceSz at hj ⊢
    ext
    · dsimp only
      omega
    · have hmod : 4 * j % 4 = 0 := by omega
      dsimp only
      rw [hmod]
      omega
  unfold Remth.ioRead at h
  rw [hrange] at h
  simp only [bytesVal, List.range, List.range.loop, List.foldr] at h
  simpa using h

/-- `SYS_IN` of a client of a user device. -/
theorem sysIn_usr {dd port hw valptr : Nat} {fault : Bool} (h : Inv v)
    (ho : v.Occupies (t, dd) d i) :
    v.sysIn t dd port hw valptr fault =
      if !chkuaddr valptr 8 ∨ fault then .ok ⟨Errno.EFAULT.neg, none, v⟩
      else .ok ⟨0, some (some (((v.usr d).remths i).ioRead port)), v⟩ := by
  have hmem := h.mem_lists ho.plg ho.dev
  have hget : v.busGetDev t dd = .ok (.inr d) := by
    unfold State.busGetDev
    rw [if_neg (not_le.2 (h.descs d _ hmem))]
    dsimp only
    rw [ho.plg, ho.dev]
    dsimp only
    rw [(h.online hmem).1]
    rfl
  have hop : v.op (t, dd) d i (.inPort port hw) = some (v.usrdevIn d i port) := by
    unfold State.op
    rw [ho.kind]
    rfl
  unfold State.sysIn State.opCall
  rw [hget]
  simp only [bind, Except.bind, ho.devid, hop]
  by_cases hchk : (!chkuaddr valptr 8) = true
  · rw [if_pos hchk, if_pos (.inl hchk)]
  · rw [if_neg hchk]
    cases fault with
    | true =>
        rw [if_pos (.inr rfl)]
        rfl
    | false =>
        rw [if_neg (by simpa using hchk)]
        rfl

/-- Where the entry agrees, the client sees the same. -/
theorem Like.sameView {P : Nat → Nat → Prop} {dd : Nat} (h : Like P v v') (hi : P d i)
    (hv : Inv v) (hv' : Inv v') (ho : v.Occupies (t, dd) d i) : SameView t dd d i v v' where
  reads port hw valptr fault := by
    rw [sysIn_usr hv ho, sysIn_usr hv' (h.occupies ho), (h.same d i hi).ioRead]
    split
    · rfl
    · rfl
  signals irq := by
    have hr := (h.twin d).rem i
    unfold State.irqSig
    dsimp only
    rw [hr.use, hr.th]
    by_cases hirq : irq < irqmapSz
    · rw [(h.same d i hi).irqmap irq hirq]
    · rw [if_neg fun h ↦ hirq h.2.1, if_neg fun h ↦ hirq h.2.1]

/-- A client sees all of its entry. -/
theorem SameView.same {P : Nat → Nat → Prop} {dd : Nat} (h : SameView t dd d i v v')
    (hl : Like P v v') (hv : Inv v) (hv' : Inv v') (ho : v.Occupies (t, dd) d i) :
    ((v.usr d).remths i).Same ((v'.usr d).remths i) where
  iospace j hj := by
    have hr := h.reads (4 * j) 0 userBase false
    have hchk : chkuaddr userBase 8 := by decide
    rw [sysIn_usr hv ho, sysIn_usr hv' (hl.occupies ho), hchk] at hr
    simp only [Bool.not_true, Bool.false_eq_true, or_self, if_false, Except.map, Except.ok.injEq,
      Prod.mk.injEq, Option.some.injEq, true_and] at hr
    exact Remth.iospace_of_ioRead hj hr
  irqmap j hj := by
    obtain ⟨huse, hid⟩ := hv.occupied ho
    have huse' := (hv'.occupied (hl.occupies ho)).1
    have hs := h.signals j
    unfold State.irqSig at hs
    simp only [hid, hj, huse, huse', true_and, and_true] at hs
    split at hs
    · split at hs
      · simp only [Option.some.injEq, Prod.mk.injEq] at hs
        omega
      · cases hs
    · split at hs
      · cases hs
      · omega

/-! ## Opening -/

/-- A request leaves the devices and the entries of the client table alone. -/
theorem enqueue_keeps {ior : Ior} (h : s.enqueue d ior = .ok w) :
    w.dev = s.dev ∧ (w.usr d).remths = (s.usr d).remths := by
  unfold State.enqueue State.thraise at h
  split at h
  · cases h
    refine ⟨rfl, ?_⟩
    change ((s.setUsr d _).usr d).remths = _
    rw [State.setUsr_self]
    rfl
  · cases h

/-- What `bus_plug` gives when it opens a user device: the descriptor is a client, and what
the entry holds besides is what it held before. -/
theorem busPlug_usr {did : Nat} {dd : Int} (h : Inv s) (htree : s.tree did = some d)
    (hk : (s.dev d).kind = .usr) (hi : (s.usr d).freeRem = some i)
    (hp : s.busPlug t did = .ok (dd, w)) (hdd : 0 ≤ dd) :
    w.Occupies (t, dd.toNat) d i ∧
      ((w.usr d).remths i).iospace = ((s.usr d).remths i).iospace ∧
      ((w.usr d).remths i).irqmap = ((s.usr d).remths i).irqmap := by
  obtain ⟨-, -, -, hdet⟩ := h.tree did d htree
  rcases State.busPlug_cases hp with ⟨hneg, -⟩ | ⟨d', j, devid, s₁, hd', -, -, -, ho, hret⟩
  · exact absurd hdd (not_le.2 hneg)
  obtain rfl : d = d' := Option.some.inj (htree.symm.trans hd')
  obtain ⟨hneg, rfl, -⟩ | ⟨-, rfl, rfl⟩ := hret
  · exact absurd hdd (not_le.2 hneg)
  unfold State.opOpen State.usrdevOpen at ho
  rw [hk] at ho
  dsimp only at ho
  rw [hi] at ho
  dsimp only at ho
  rw [hdet hk] at ho
  obtain ⟨s₂, hq, ho⟩ := bind_eq_ok.1 ho
  cases ho
  obtain ⟨hdev, hrem⟩ := enqueue_keeps hq
  rw [State.setUsr_self] at hrem
  have hent : ((s₁.plug (t, j) d i).usr d).remths i =
      { (s.usr d).remths i with use := true, th := some t } := by
    change (s₁.usr d).remths i = _
    rw [hrem, Usrdev.setRem_self]
  rw [Int.toNat_natCast, Int.toNat_natCast, hent]
  refine ⟨⟨?_, ?_, ?_, ?_⟩, rfl, rfl⟩
  · change ((s₁.setDev d _).dev d).kind = .usr
    rw [State.setDev_self, hdev]
    exact hk
  all_goals
    unfold State.plug
    rw [State.setSlot_self]

/-! ## The result -/

/-- In two histories that differ in settings only, a thread opens a user device.  From then
on, as long as it has the descriptor, it sees the same in both, whatever is done in both, just
when the entry that it gets has the same I/O space and the same interrupt map in both. -/
theorem successors_apart {plt sys klog did : Nat} {dd dd' : Int}
    (h : Histories plt sys klog s s') (hlive : s.life t = .live)
    (htree : s.tree did = some d) (hk : (s.dev d).kind = .usr)
    (hi : (s.usr d).freeRem = some i) (ho : s.busPlug t did = .ok (dd, w))
    (ho' : s'.busPlug t did = .ok (dd', w')) (hdd : 0 ≤ dd) :
    dd' = dd ∧
    (((s.usr d).remths i).Same ((s'.usr d).remths i) ↔
      ∀ as v v', Run (StepTogether (t, dd.toNat) d i) (w, w') as (v, v') →
        SameView t dd.toNat d i v v') := by
  have hl := h.like
  obtain ⟨hinv, hinv'⟩ := h.inv
  have hlife : s'.life = s.life := by
    obtain ⟨u, σ, rfl⟩ := hl.rest
    rfl
  have hw : Inv w := hinv.busPlug hlive ho
  have hw' : Inv w' := hinv'.busPlug (by rwa [hlife]) ho'
  obtain ⟨hret, hlw⟩ := hl.busPlug _ _ ho ho'
  obtain rfl : dd' = dd := hret
  obtain ⟨hocc, hio, hirq⟩ := busPlug_usr hinv htree hk hi ho hdd
  obtain ⟨-, hio', hirq'⟩ := busPlug_usr (t := t) hinv' (by rwa [hl.bus.1]) (by rwa [hl.dev])
    (by rw [(hl.twin d).freeRem, hi]) ho' hdd
  refine ⟨rfl, fun hsame as v v' hrun ↦ ?_, fun hall ↦ ?_⟩
  · -- the entry agrees in both states from the open on
    have hstart : Like (fun d' i' ↦ d' = d ∧ i' = i) w w' := by
      refine ⟨hlw.rest, hlw.twin, ?_⟩
      rintro _ _ ⟨rfl, rfl⟩
      refine ⟨fun j hj ↦ ?_, fun j hj ↦ ?_⟩
      · rw [hio, hio']
        exact hsame.iospace j hj
      · rw [hirq, hirq']
        exact hsame.irqmap j hj
    obtain ⟨hv, hv₁, hv₂, hvo⟩ := hrun.invariant
      (I := fun p ↦ Like (fun d' i' ↦ d' = d ∧ i' = i) p.1 p.2 ∧ Inv p.1 ∧ Inv p.2 ∧
        p.1.Occupies (t, dd'.toNat) d i)
      (fun p a q ⟨hp, hp₁, hp₂, hpo⟩ ⟨hs₁, hs₂, hqo⟩ ↦ by
        refine ⟨hp.step ?_ hs₁ hs₂, hp₁.step hs₁, hp₂.step hs₂, hqo⟩
        rintro _ _ ⟨rfl, rfl⟩
        exact (hp₁.occupied hpo).1)
      ⟨hstart, hw, hw', hocc⟩
    exact hv.sameView ⟨rfl, rfl⟩ hv₁ hv₂ hvo
  · have hs := (hall [] w w' (.nil _)).same hlw hw hw' hocc
    refine ⟨fun j hj ↦ ?_, fun j hj ↦ ?_⟩
    · rw [← hio, ← hio']
      exact hs.iospace j hj
    · rw [← hirq, ← hirq']
      exact hs.irqmap j hj

/-- `init` creates a user device. -/
def creatCall : Label := .call 1 (.creat 7 ⟨0, 0, 0, fun _ ↦ 0⟩ 1 0o100)

/-- The owner has written to the I/O space of the entry 1 in one of the histories; the thread
gets the entry 0. -/
theorem successors_apart_other : ∃ s s' w w' dd, Histories 1 2 3 s s' ∧
    s.busPlug 1 7 = .ok (dd, w) ∧ s'.busPlug 1 7 = .ok (dd, w') ∧ dd = 0 ∧
    ∀ as v v', Run (StepTogether (1, 0) 3 0) (w, w') as (v, v') → SameView 1 0 3 0 v v' := by
  have h₁ : Histories 1 2 3 _ _ := .both (a := creatCall) .boot ⟨rfl, rfl⟩ ⟨rfl, rfl⟩
  have h : Histories 1 2 3 _ _ := .left (a := .call 1 (.wriospace 0 1 0 9)) h₁ trivial ⟨rfl, rfl⟩
  have hp := successors_apart (t := 1) (d := 3) (i := 0) h rfl (rfl : State.tree _ 7 = some 3)
    rfl rfl rfl rfl (by decide)
  exact ⟨_, _, _, _, _, h, rfl, rfl, rfl, hp.2.1 ⟨fun j hj ↦ rfl, fun j hj ↦ rfl⟩⟩

/-- In general it does not: in one of the histories the owner has written to the I/O space of
an earlier client, and the next one to open the device reads what it wrote. -/
theorem successors_told : ¬∀ (s s' w w' : State) (t d i did : Nat) (dd dd' : Int),
    Histories 1 2 3 s s' → s.life t = .live → s.tree did = some d → (s.dev d).kind = .usr →
    (s.usr d).freeRem = some i → s.busPlug t did = .ok (dd, w) →
    s'.busPlug t did = .ok (dd', w') → 0 ≤ dd → SameView t dd.toNat d i w w' := by
  intro hall
  have h₁ : Histories 1 2 3 _ _ := .both (a := creatCall) .boot ⟨rfl, rfl⟩ ⟨rfl, rfl⟩
  have h₂ : Histories 1 2 3 _ _ := .both (a := .call 1 (.openDev 7)) h₁ ⟨rfl, rfl⟩ ⟨rfl, rfl⟩
  have h₃ : Histories 1 2 3 _ _ := .left (a := .call 1 (.wriospace 0 0 0 9)) h₂ trivial ⟨rfl, rfl⟩
  have h : Histories 1 2 3 _ _ := .both (a := .call 1 (.closeDev 0)) h₃ ⟨rfl, rfl⟩ ⟨rfl, rfl⟩
  have hv := hall _ _ _ _ 1 3 0 7 _ _ h rfl rfl rfl rfl rfl rfl (by decide)
  have hr := hv.reads 0 0 userBase false
  revert hr
  decide +kernel

end Mh.Bus
