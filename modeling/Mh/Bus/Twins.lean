import Mh.Bus.Blind
import Mh.Bus.Rules

/-!
# Two states that differ in what clients have set

`Like P s s'` says that `s'` is `s` but for the I/O spaces and the interrupt maps of the
clients of user devices, and for pending signals; the entries for which `P` holds agree in
these too.  What the kernel does is otherwise the same in both states: a step with the same
label leads to states that are alike again, with the same entries in agreement, as long as
these are in use.  Only the cloning of a client copies an I/O space, and it copies to an
entry that is not in use.
-/

namespace Mh.Bus

open Mh.Lib

/-! ## Tables -/

/-- Two entries of one client, with the same apertures. -/
structure Remth.Twin (r r' : Remth) : Prop where
  use : r'.use = r.use
  th : r'.th = r.th
  apertbl : r'.apertbl = r.apertbl

/-- Two entries agree in the I/O space and in the interrupt map. -/
structure Remth.Same (r r' : Remth) : Prop where
  iospace : ∀ i < iospaceSz, r'.iospace i = r.iospace i
  irqmap : ∀ i < irqmapSz, r'.irqmap i = r.irqmap i

/-- Two states of one device, which differ in what its clients have set. -/
structure Usrdev.Twin (u u' : Usrdev) : Prop where
  th : u'.th = u.th
  cfg : u'.cfg = u.cfg
  sig : u'.sig = u.sig
  detaching : u'.detaching = u.detaching
  ioreqs : u'.ioreqs = u.ioreqs
  issued : u'.issued = u.issued
  polls : u'.polls = u.polls
  rem : ∀ i, (u.remths i).Twin (u'.remths i)

theorem Remth.Twin.refl (r : Remth) : r.Twin r := ⟨rfl, rfl, rfl⟩

theorem Remth.Same.refl (r : Remth) : r.Same r := ⟨fun _ _ ↦ rfl, fun _ _ ↦ rfl⟩

namespace Usrdev

variable {u u' : Usrdev}

theorem Twin.refl (u : Usrdev) : u.Twin u :=
  ⟨rfl, rfl, rfl, rfl, rfl, rfl, rfl, fun _ ↦ .refl _⟩

/-- The same client id is free. -/
theorem Twin.freeRem (h : u.Twin u') : u'.freeRem = u.freeRem := by
  unfold Usrdev.freeRem
  congr 1
  funext i
  rw [(h.rem i).use]

/-- The same entry is written. -/
theorem Twin.setRem {i : Nat} {r r' : Remth} (h : u.Twin u') (hr : r.Twin r') :
    (u.setRem i r).Twin (u'.setRem i r') where
  th := h.th
  cfg := h.cfg
  sig := h.sig
  detaching := h.detaching
  ioreqs := h.ioreqs
  issued := h.issued
  polls := h.polls
  rem j := by
    rcases eq_or_ne j i with rfl | hne
    · rwa [setRem_self, setRem_self]
    · rw [setRem_of_ne _ hne, setRem_of_ne _ hne]
      exact h.rem j

/-- The same request is inserted. -/
theorem Twin.push (h : u.Twin u') (ior : Ior) : (u.push ior).Twin (u'.push ior) where
  th := h.th
  cfg := h.cfg
  sig := h.sig
  detaching := h.detaching
  ioreqs := congrArg (· ++ [ior]) h.ioreqs
  issued := congrArg (· ++ [ior]) h.issued
  polls := h.polls
  rem := h.rem

end Usrdev

/-! ## States -/

/-- `s'` is `s` but for what clients have set and for pending signals; the entries for which
`P` holds agree. -/
structure Like (P : Nat → Nat → Prop) (s s' : State) : Prop where
  rest : ∃ u σ, s' = s.swap u σ
  twin : ∀ d, (s.usr d).Twin (s'.usr d)
  same : ∀ d i, P d i → ((s.usr d).remths i).Same ((s'.usr d).remths i)

namespace Like

variable {P : Nat → Nat → Prop} {s s' : State} {d t : Nat}

/-- A state is like itself. -/
theorem refl (s : State) : Like P s s :=
  ⟨⟨s.usr, s.softintrs, rfl⟩, fun _ ↦ .refl _, fun _ _ _ ↦ .refl _⟩

/-- The rest of the two states is written in the same way. -/
theorem congr {w w' : State} (h : Like P s s') (hw : w.usr = s.usr) (hw' : w'.usr = s'.usr)
    (hrest : ∃ u σ, w' = w.swap u σ) : Like P w w' where
  rest := hrest
  twin d := by
    rw [hw, hw']
    exact h.twin d
  same d i hi := by
    rw [hw, hw']
    exact h.same d i hi

/-- The same device is written. -/
theorem setUsr {v q : Usrdev} (h : Like P s s') (hv : v.Twin q)
    (hsame : ∀ i, P d i → (v.remths i).Same (q.remths i)) :
    Like P (s.setUsr d v) (s'.setUsr d q) where
  rest := by
    obtain ⟨u, σ, rfl⟩ := h.rest
    exact ⟨Function.update u d q, σ, rfl⟩
  twin d' := by
    rcases eq_or_ne d' d with rfl | hne
    · rwa [State.setUsr_self, State.setUsr_self]
    · rw [State.setUsr_of_ne hne, State.setUsr_of_ne hne]
      exact h.twin d'
  same d' i hi := by
    rcases eq_or_ne d' d with rfl | hne
    · rw [State.setUsr_self, State.setUsr_self]
      exact hsame i hi
    · rw [State.setUsr_of_ne hne, State.setUsr_of_ne hne]
      exact h.same d' i hi

/-- The same entry of a device is written. -/
theorem setRem {i : Nat} {r q : Remth} (h : Like P s s') (hr : r.Twin q)
    (hsame : P d i → r.Same q) :
    Like P (s.setUsr d ((s.usr d).setRem i r)) (s'.setUsr d ((s'.usr d).setRem i q)) := by
  refine h.setUsr ((h.twin d).setRem hr) fun j hj ↦ ?_
  rcases eq_or_ne j i with rfl | hne
  · rw [Usrdev.setRem_self, Usrdev.setRem_self]
    exact hsame hj
  · rw [Usrdev.setRem_of_ne _ hne, Usrdev.setRem_of_ne _ hne]
    exact h.same d j hj

/-- `thraise` of the same signal. -/
theorem thraise {vect : Nat} (h : Like P s s') :
    Both (Like P) (s.thraise t vect) (s'.thraise t vect) := by
  obtain ⟨u, σ, rfl⟩ := h.rest
  unfold State.thraise
  split
  · exact .ok (h.congr rfl rfl ⟨_, _, rfl⟩)
  · exact .error _

/-- `thraise` in one of the states. -/
theorem thraise_left {vect : Nat} {w : State} (h : Like P s s')
    (hw : s.thraise t vect = .ok w) : Like P w s' := by
  obtain ⟨u, σ, rfl⟩ := h.rest
  unfold State.thraise at hw
  split at hw
  · cases hw
    exact h.congr rfl rfl ⟨u, σ, rfl⟩
  · cases hw

@[inherit_doc thraise_left]
theorem thraise_right {vect : Nat} {w : State} (h : Like P s s')
    (hw : s'.thraise t vect = .ok w) : Like P s w := by
  obtain ⟨u, σ, rfl⟩ := h.rest
  unfold State.thraise at hw
  split at hw
  · cases hw
    exact h.congr rfl rfl ⟨u, _, rfl⟩
  · cases hw

/-- The same request is inserted. -/
theorem enqueue {ior : Ior} (h : Like P s s') :
    Both (Like P) (s.enqueue d ior) (s'.enqueue d ior) := by
  unfold State.enqueue
  rw [(h.twin d).th, (h.twin d).sig]
  exact (h.setUsr ((h.twin d).push ior) fun i hi ↦ h.same d i hi).thraise

/-! ## Drivers -/

/-- What an operation of a driver gives in the two states. -/
def LikeRes (P : Nat → Nat → Prop) (r r' : Res) : Prop := r'.ret = r.ret ∧ Like P r.state r'.state

/-- What a call gives in the two states. -/
def LikeRet (P : Nat → Nat → Prop) (r r' : Int × State) : Prop := r'.1 = r.1 ∧ Like P r.2 r'.2

/-- An operation that fails in both states. -/
theorem fail (h : Like P s s') (e : Errno) : Both (LikeRes P) (s.fail e) (s'.fail e) :=
  .ok ⟨rfl, h⟩

/-- An operation that succeeds in both states. -/
theorem done (h : Like P s s') : Both (LikeRes P) s.done s'.done := .ok ⟨rfl, h⟩

/-- Operations of user devices. -/
theorem usrdevOp {k : Slot} {id : Nat} (h : Like P s s') (q : Req) :
    Option.Rel (Both (LikeRes P)) (s.usrdevOp k d id q) (s'.usrdevOp k d id q) := by
  have ht := h.twin d
  have hr := ht.rem id
  cases q with
  | inPort port hw => exact .some (.ok ⟨rfl, h⟩)
  | outPort port val =>
      refine .some ?_
      unfold State.usrdevOut
      split
      · exact .error _
      · rw [ht.detaching]
        split
        · exact h.fail _
        · have hior : s'.mkIor k.1 id (.outOp (ioSize port) (ioPort port) val) =
              s.mkIor k.1 id (.outOp (ioSize port) (ioPort port) val) := by
            obtain ⟨u, σ, rfl⟩ := h.rest
            rfl
          rw [hior]
          exact h.enqueue.bind fun _ _ h₁ ↦ h₁.done
  | rdcfg off sz =>
      refine .some ?_
      unfold State.usrdevRdcfg
      rw [ht.cfg]
      split
      · exact h.fail _
      · split
        · exact .error _
        · split
          · exact h.fail _
          · exact .ok ⟨rfl, h⟩
  | exportVa va sz wire phys =>
      refine .some ?_
      unfold State.usrdevExport
      dsimp only
      rw [hr.apertbl]
      split
      · exact .error _
      · split
        · exact h.fail _
        · split
          · exact h.fail _
          · refine .ok ⟨rfl, h.setRem ⟨hr.use, hr.th, rfl⟩ fun hi ↦ ?_⟩
            exact ⟨(h.same d id hi).iospace, (h.same d id hi).irqmap⟩
  | unexportVa va =>
      refine .some ?_
      unfold State.usrdevUnexport
      dsimp only
      rw [hr.apertbl]
      split
      · exact h.fail _
      · refine .ok ⟨rfl, h.setRem ⟨hr.use, hr.th, rfl⟩ fun hi ↦ ?_⟩
        exact ⟨(h.same d id hi).iospace, (h.same d id hi).irqmap⟩
  | irqmap irq sig =>
      refine .some ?_
      unfold State.usrdevIrqmap
      dsimp only
      split
      · exact .error _
      · split
        · exact h.fail _
        · refine .ok ⟨rfl, h.setRem ⟨hr.use, hr.th, hr.apertbl⟩ fun hi ↦ ?_⟩
          refine ⟨(h.same d id hi).iospace, fun j hj ↦ ?_⟩
          simp only [Function.update_apply]
          rw [(h.same d id hi).irqmap j hj]
  | wrcfg | iomap | iounmap | eoi => exact .none

/-- The two states have the same devices. -/
theorem dev (h : Like P s s') : s'.dev = s.dev := by
  obtain ⟨u, σ, rfl⟩ := h.rest
  rfl

/-- What `OP_CALL` reaches. -/
theorem op {k : Slot} {i : Nat} (h : Like P s s') (q : Req) :
    Option.Rel (Both (LikeRes P)) (s.op k d i q) (s'.op k d i q) := by
  by_cases hk : (s.dev d).kind = .usr
  · unfold State.op
    rw [h.dev, hk]
    exact h.usrdevOp q
  · obtain ⟨u, σ, rfl⟩ := h.rest
    rw [op_swap s u σ k d i hk]
    cases hx : s.op k d i q with
    | none => exact .none
    | some x =>
        refine .some (.of_map rfl fun r hr ↦ ⟨rfl, ?_⟩)
        exact h.congr ((op_usr s k d i hk hx).of_ok hr) rfl ⟨u, σ, rfl⟩

/-- `d->ops->open`. -/
theorem opOpen (h : Like P s s') :
    Both (LikeRet P) (s.opOpen t d) (s'.opOpen t d) := by
  by_cases hk : (s.dev d).kind = .usr
  · have ht := h.twin d
    unfold State.opOpen
    rw [h.dev, hk]
    dsimp only
    unfold State.usrdevOpen
    dsimp only
    rw [ht.freeRem, ht.detaching]
    split
    · exact .ok ⟨rfl, h⟩
    · next i hi =>
      have hset := h.setRem (d := d) (i := i)
        (r := { (s.usr d).remths i with use := true, th := some t })
        (q := { (s'.usr d).remths i with use := true, th := some t })
        ⟨rfl, rfl, (ht.rem i).apertbl⟩
        fun hi' ↦ ⟨(h.same d i hi').iospace, (h.same d i hi').irqmap⟩
      have hior : s'.mkIor t i .openOp = s.mkIor t i .openOp := by
        obtain ⟨u, σ, rfl⟩ := h.rest
        rfl
      split
      · exact .ok ⟨rfl, hset⟩
      · rw [hior]
        exact hset.enqueue.map fun _ _ h₁ ↦ ⟨rfl, h₁⟩
  · obtain ⟨u, σ, rfl⟩ := h.rest
    rw [opOpen_swap s u σ d t hk]
    refine .of_map rfl fun r hr ↦ ⟨rfl, ?_⟩
    exact h.congr ((opOpen_usr s d t hk).of_ok hr) rfl ⟨u, σ, rfl⟩

/-- `_usrdev_clone` copies to an entry that is not in use. -/
theorem usrdevClone {id nth : Nat} (h : Like P s s')
    (hP : ∀ i, P d i → ((s.usr d).remths i).use = true) :
    Both (LikeRet P) (s.usrdevClone t d id nth) (s'.usrdevClone t d id nth) := by
  have ht := h.twin d
  unfold State.usrdevClone
  dsimp only
  rw [ht.freeRem, ht.detaching]
  split
  · exact .ok ⟨rfl, h⟩
  · next i hi =>
    have hset := h.setRem (d := d) (i := i)
      (r := { (s.usr d).remths i with
        use := true, th := some nth
        iospace := ((s.usr d).remths id).iospace, irqmap := ((s.usr d).remths id).irqmap })
      (q := { (s'.usr d).remths i with
        use := true, th := some nth
        iospace := ((s'.usr d).remths id).iospace, irqmap := ((s'.usr d).remths id).irqmap })
      ⟨rfl, rfl, (ht.rem i).apertbl⟩ fun hi' ↦ by
        have hidle := (Usrdev.freeRem_spec hi).1
        rw [hP i hi'] at hidle
        cases hidle
    have hior : s'.mkIor t id (.cloneOp i) = s.mkIor t id (.cloneOp i) := by
      obtain ⟨u, σ, rfl⟩ := h.rest
      rfl
    split
    · exact .ok ⟨rfl, hset⟩
    · rw [hior]
      exact hset.enqueue.map fun _ _ h₁ ↦ ⟨rfl, h₁⟩

/-- `d->ops->clone`. -/
theorem opClone {i n : Nat} (h : Like P s s')
    (hP : ∀ d i, P d i → ((s.usr d).remths i).use = true) :
    Option.Rel (Both (LikeRet P)) (s.opClone t d i n) (s'.opClone t d i n) := by
  unfold State.opClone
  rw [h.dev]
  cases (s.dev d).kind with
  | usr => exact .some (h.usrdevClone (hP d))
  | hw | plt | sys | klog => exact .none

/-- `d->ops->close`. -/
theorem opClose {id : Nat} (h : Like P s s') :
    Both (Like P) (s.opClose t d id) (s'.opClose t d id) := by
  by_cases hk : (s.dev d).kind = .usr
  · have ht := h.twin d
    unfold State.opClose
    rw [h.dev, hk]
    dsimp only
    unfold State.usrdevClose
    dsimp only
    have hset := h.setRem (d := d) (i := id) (r := ((s.usr d).remths id).closed)
      (q := ((s'.usr d).remths id).closed)
      ⟨rfl, (ht.rem id).th, by simp only [Remth.closed, (ht.rem id).apertbl]⟩
      fun hi ↦ ⟨(h.same d id hi).iospace, (h.same d id hi).irqmap⟩
    have hior : s'.mkIor t id .closeOp = s.mkIor t id .closeOp := by
      obtain ⟨u, σ, rfl⟩ := h.rest
      rfl
    rw [ht.detaching, hior]
    split
    · exact .ok hset
    · exact hset.enqueue
  · obtain ⟨u, σ, rfl⟩ := h.rest
    rw [opClose_swap s u σ d id t hk]
    refine .of_map rfl fun w hw ↦ ?_
    exact h.congr ((opClose_usr s d id t hk).of_ok hw) rfl ⟨u, σ, rfl⟩

/-! ## The bus -/

/-- The parts of the two states that the bus reads. -/
theorem bus (h : Like P s s') : s'.tree = s.tree ∧ s'.devs = s.devs ∧ s'.usrdevs = s.usrdevs ∧
    (∀ t, s'.freeSlot t = s.freeSlot t) ∧
    ∀ t uid gid mode, s'.getperm t uid gid mode = s.getperm t uid gid mode := by
  obtain ⟨u, σ, rfl⟩ := h.rest
  exact ⟨rfl, rfl, rfl, fun _ ↦ rfl, fun _ _ _ _ ↦ rfl⟩

/-- A slot is plugged in. -/
theorem plug {k : Slot} {devid : Nat} (h : Like P s s') :
    Like P (s.plug k d devid) (s'.plug k d devid) := by
  obtain ⟨u, σ, rfl⟩ := h.rest
  exact h.congr rfl rfl ⟨u, σ, rfl⟩

/-- `bus_plug`. -/
theorem busPlug {did : Nat} (h : Like P s s') :
    Both (LikeRet P) (s.busPlug t did) (s'.busPlug t did) := by
  obtain ⟨htree, -, -, hslot, hperm⟩ := h.bus
  unfold State.busPlug
  rw [htree, h.dev, hslot]
  cases s.tree did with
  | none => exact .ok ⟨rfl, h⟩
  | some d =>
      cases s.freeSlot t with
      | none => exact .ok ⟨rfl, h⟩
      | some i =>
          dsimp only
          rw [hperm]
          split
          · exact .ok ⟨rfl, h⟩
          · split
            · exact .ok ⟨rfl, h⟩
            · refine h.opOpen.bind ?_
              rintro ⟨r, s₁⟩ ⟨r', s₁'⟩ ⟨hr, h₁⟩
              obtain rfl : r' = r := hr
              dsimp only
              split
              · exact .ok ⟨rfl, h₁⟩
              · exact .ok ⟨rfl, h₁.plug⟩

/-- `bus_copy`. -/
theorem busCopy {desc nth : Nat} (h : Like P s s')
    (hP : ∀ d i, P d i → ((s.usr d).remths i).use = true) :
    Both (LikeRet P) (s.busCopy t desc nth) (s'.busCopy t desc nth) := by
  obtain ⟨-, hdevs, -⟩ := h.bus
  unfold State.busCopy
  rw [hdevs]
  split
  · exact .ok ⟨rfl, h⟩
  · split
    · exact .ok ⟨rfl, h⟩
    · dsimp only
      split
      · exact .ok ⟨rfl, h⟩
      · cases (s.devs (t, desc)).dev with
        | none => exact .error _
        | some d =>
            have hop := h.opClone (t := t) (d := d) (i := (s.devs (t, desc)).devid) (n := nth) hP
            dsimp only
            revert hop
            generalize s.opClone t d (s.devs (t, desc)).devid nth = x
            generalize s'.opClone t d (s.devs (t, desc)).devid nth = y
            rintro (hxy | -)
            · dsimp only
              rw [h.dev]
              split
              · exact .ok ⟨rfl, h⟩
              · refine hxy.bind ?_
                rintro ⟨r, s₁⟩ ⟨r', s₁'⟩ ⟨hr, h₁⟩
                obtain rfl : r' = r := hr
                dsimp only
                split
                · exact .ok ⟨rfl, h₁⟩
                · exact .ok ⟨rfl, h₁.plug⟩
            · exact .ok ⟨rfl, h⟩

/-- A slot is written. -/
theorem setSlot {k : Slot} {b : Bdeve} (h : Like P s s') :
    Like P (s.setSlot k b) (s'.setSlot k b) := by
  obtain ⟨u, σ, rfl⟩ := h.rest
  exact h.congr rfl rfl ⟨u, σ, rfl⟩

/-- A device is written. -/
theorem setDev {v : Dev} (h : Like P s s') : Like P (s.setDev d v) (s'.setDev d v) := by
  obtain ⟨u, σ, rfl⟩ := h.rest
  exact h.congr rfl rfl ⟨u, σ, rfl⟩

/-- `bus_unplug`. -/
theorem busUnplug {desc : Nat} (h : Like P s s') :
    Both (LikeRet P) (s.busUnplug t desc) (s'.busUnplug t desc) := by
  obtain ⟨-, hdevs, -⟩ := h.bus
  unfold State.busUnplug
  rw [hdevs]
  split
  · exact .ok ⟨rfl, h⟩
  · dsimp only
    split
    · exact .ok ⟨rfl, h.setSlot⟩
    · cases (s.devs (t, desc)).dev with
      | none => exact .error _
      | some d =>
          dsimp only
          rw [h.dev]
          split
          · exact .ok ⟨rfl, h.setSlot⟩
          · refine h.opClose.map fun s₁ s₁' h₁ ↦ ⟨rfl, ?_⟩
            dsimp only
            rw [h₁.dev]
            exact h₁.setDev.setSlot

/-- `OP_CALL`. -/
theorem opCall {desc : Nat} (h : Like P s s') (q : Req) :
    Both (fun r r' ↦ r'.1 = r.1 ∧ Like P r.2.2 r'.2.2) (s.opCall t desc q)
      (s'.opCall t desc q) := by
  have hget : s'.busGetDev t desc = s.busGetDev t desc := by
    obtain ⟨u, σ, rfl⟩ := h.rest
    rfl
  obtain ⟨-, hdevs, -⟩ := h.bus
  unfold State.opCall
  rw [hget, hdevs]
  refine Both.bind (R := fun a b ↦ b = a) (fun a b ha hb ↦ ?_) ?_
  · rw [ha] at hb
    exact (Except.ok.inj hb).symm
  · rintro (ret | d) _ rfl
    · exact .ok ⟨rfl, h⟩
    · dsimp only
      have hop := h.op (k := (t, desc)) (d := d) (i := (s.devs (t, desc)).devid) q
      revert hop
      generalize s.op (t, desc) d (s.devs (t, desc)).devid q = x
      generalize s'.op (t, desc) d (s.devs (t, desc)).devid q = y
      rintro (hxy | -)
      · exact hxy.map fun _ _ h₁ ↦ ⟨rfl, h₁.2⟩
      · exact .ok ⟨rfl, h⟩

/-- `bus_remove`. -/
theorem busRemove (h : Like P s s') : Both (Like P) (s.busRemove t) (s'.busRemove t) :=
  Both.foldlM (fun _ _ _ _ h₁ ↦ h₁.busUnplug.map fun _ _ h₂ ↦ h₂.2) h

/-! ## Devices of an owner -/

/-- `dev_detach`. -/
theorem devDetach (h : Like P s s') : Both (Like P) (s.devDetach t d) (s'.devDetach t d) := by
  unfold State.devDetach
  rw [h.dev]
  refine Both.foldlM (fun s₁ s₁' k _ h₁ ↦ ?_) ?_
  · unfold State.detachSlot
    rw [h₁.bus.2.1]
    refine h₁.opClose.map fun s₂ s₂' h₂ ↦ ?_
    rw [h₂.bus.2.1]
    exact h₂.setSlot
  · obtain ⟨u, σ, rfl⟩ := h.rest
    exact h.congr rfl rfl ⟨u, σ, rfl⟩

/-- `devremove`. -/
theorem devremove {did : Nat} (h : Like P s s') :
    Both (Like P) (s.devremove t did) (s'.devremove t did) := by
  unfold State.devremove
  rw [h.bus.2.2.1]
  cases s.usrdevs (t, did) with
  | none => exact .ok h
  | some d =>
      have ht := h.twin d
      have hmark := h.setUsr (d := d) (v := { s.usr d with detaching := true })
        (q := { s'.usr d with detaching := true })
        ⟨ht.th, ht.cfg, ht.sig, rfl, ht.ioreqs, ht.issued, ht.polls, ht.rem⟩ (h.same d)
      have hdestroy : Both (Like P) (s.usrdevDestroy t d) (s'.usrdevDestroy t d) := by
        unfold State.usrdevDestroy
        refine hmark.devDetach.map fun s₁ s₁' h₁ ↦ ?_
        have ht₁ := h₁.twin d
        exact h₁.setUsr
          ⟨ht₁.th, ht₁.cfg, ht₁.sig, ht₁.detaching, rfl, ht₁.issued, ht₁.polls, ht₁.rem⟩
          (h₁.same d)
      refine hdestroy.map fun s₁ s₁' h₁ ↦ ?_
      obtain ⟨u, σ, rfl⟩ := h₁.rest
      exact h₁.congr rfl rfl ⟨u, σ, rfl⟩

/-- `dev_init` and `dev_attach`. -/
theorem devAttach {v : Dev} (h : Like P s s') :
    Option.Rel (Like P) (s.devAttach v) (s'.devAttach v) := by
  obtain ⟨u, σ, rfl⟩ := h.rest
  have htree : (s.swap u σ).tree = s.tree := rfl
  unfold State.devAttach
  rw [htree]
  cases s.tree v.did with
  | none => exact .some (h.congr rfl rfl ⟨u, σ, rfl⟩)
  | some d => exact .none

/-- `devcreat`. -/
theorem devcreat {nameid sig mode : Nat} {cfg : UsrdevCfg} (h : Like P s s') :
    Like P (s.devcreat t nameid cfg sig mode).2 (s'.devcreat t nameid cfg sig mode).2 := by
  have hparts : s'.thread = s.thread ∧ s'.ndev = s.ndev := by
    obtain ⟨u, σ, rfl⟩ := h.rest
    exact ⟨rfl, rfl⟩
  unfold State.devcreat State.usrdevCreat
  rw [h.bus.2.2.1, hparts.1, hparts.2]
  split
  · exact h
  · cases (List.range maxDevs).find? fun i ↦ (s.usrdevs (t, i)).isNone with
    | none => exact h
    | some i =>
        have hatt := h.devAttach
          (v := ⟨nameid, false, (s.thread t).euid, (s.thread t).egid, mode, .usr, []⟩)
        dsimp only
        revert hatt
        generalize s.devAttach _ = x
        generalize s'.devAttach _ = y
        rintro (h₁ | -)
        · have h₂ := h₁.setUsr (d := s.ndev) (.refl ⟨t, cfg, sig, false, fun _ ↦ .zero, [], [], []⟩)
            fun _ _ ↦ .refl _
          dsimp only
          obtain ⟨u, σ, hu⟩ := h₂.rest
          rw [hu] at h₂ ⊢
          exact h₂.congr rfl rfl ⟨u, σ, rfl⟩
        · exact h

/-- `sys_hwcreat`. -/
theorem sysHwcreat {nameid mode : Nat} {cfg : HwdevCfg} (h : Like P s s') :
    Like P (s.sysHwcreat t nameid cfg mode).2 (s'.sysHwcreat t nameid cfg mode).2 := by
  have hparts : s'.thread = s.thread ∧ s'.ndev = s.ndev := by
    obtain ⟨u, σ, rfl⟩ := h.rest
    exact ⟨rfl, rfl⟩
  unfold State.sysHwcreat State.hwcreat
  rw [hparts.1, hparts.2]
  split
  · exact h
  · split
    · exact h
    · split
      · exact h
      · have hatt := h.devAttach
          (v := ⟨nameid, false, (s.thread t).euid, (s.thread t).egid, mode, .hw, []⟩)
        dsimp only
        revert hatt
        generalize s.devAttach _ = x
        generalize s'.devAttach _ = y
        rintro (h₁ | -)
        · obtain ⟨u, σ, hu⟩ := h₁.rest
          rw [hu] at h₁ ⊢
          exact h₁.congr rfl rfl ⟨u, σ, rfl⟩
        · exact h

/-- `devpoll`. -/
theorem devpoll {did : Nat} (h : Like P s s') :
    Both (fun r r' ↦ Like P r.2.2 r'.2.2) (s.devpoll t did) (s'.devpoll t did) := by
  unfold State.devpoll
  rw [h.bus.2.2.1]
  split
  · exact .ok h
  · cases s.usrdevs (t, did) with
    | none => exact .ok h
    | some d =>
        have ht := h.twin d
        have hpoll : Both (fun r r' ↦ r'.1 = r.1 ∧ Like P r.2 r'.2) (s.usrdevPoll d)
            (s'.usrdevPoll d) := by
          unfold State.usrdevPoll
          dsimp only
          rw [ht.ioreqs]
          cases (s.usr d).ioreqs with
          | nil => exact .ok ⟨rfl, h⟩
          | cons ior iors =>
              dsimp only
              rw [(ht.rem ior.id).th]
              cases ((s.usr d).remths ior.id).th with
              | none => exact .error _
              | some pid =>
                  refine .ok ⟨rfl, h.setUsr ?_ (h.same d)⟩
                  exact ⟨ht.th, ht.cfg, ht.sig, ht.detaching, rfl, ht.issued,
                    congrArg (· ++ _) ht.polls, ht.rem⟩
        dsimp only
        refine hpoll.bind ?_
        rintro ⟨p, s₁⟩ ⟨p', s₁'⟩ ⟨hp, h₁⟩
        obtain rfl : p' = p := hp
        cases p' with
        | none | some => exact .ok h₁

/-- What the calls on the devices that a thread has created have in common. -/
theorem withUsrdev {did : Nat} {f g : Nat → Except Panic (Int × State)} (h : Like P s s')
    (hf : ∀ d, Both (fun r r' ↦ Like P r.2 r'.2) (f d) (g d)) :
    Both (fun r r' ↦ Like P r.2 r'.2) (s.withUsrdev t did f) (s'.withUsrdev t did g) := by
  unfold State.withUsrdev
  rw [h.bus.2.2.1]
  split
  · exact .ok h
  · cases s.usrdevs (t, did) with
    | none => exact .ok h
    | some d => exact hf d

/-- `usrdev_wriospace`. -/
theorem usrdevWriospace {id port val : Nat} (h : Like P s s') :
    Like P (s.usrdevWriospace d id port val).2 (s'.usrdevWriospace d id port val).2 := by
  have hr := (h.twin d).rem id
  refine h.setRem ⟨hr.use, hr.th, hr.apertbl⟩ fun hi ↦ ?_
  refine ⟨fun j hj ↦ ?_, (h.same d id hi).irqmap⟩
  dsimp only
  rw [(h.same d id hi).iospace j hj]

/-- `usrdev_irq` raises a signal at most. -/
theorem usrdevIrq_ok {id irq : Nat} {r : Int × State} (hr : s.usrdevIrq d id irq = .ok r) :
    r.2 = s ∨ ∃ t sig, s.thraise t sig = .ok r.2 := by
  unfold State.usrdevIrq at hr
  split at hr
  · cases hr
    exact .inl rfl
  · dsimp only at hr
    split at hr
    · split at hr
      · cases hr
      · next th _ =>
        obtain ⟨w, hw, hr⟩ := bind_eq_ok.1 hr
        cases hr
        exact .inr ⟨th, _, hw⟩
    · cases hr
      exact .inl rfl

/-- `usrdev_irq`, which may raise different signals. -/
theorem usrdevIrq {id irq : Nat} (h : Like P s s') :
    Both (fun r r' ↦ Like P r.2 r'.2) (s.usrdevIrq d id irq) (s'.usrdevIrq d id irq) := by
  intro r r' hr hr'
  have h₁ : Like P r.2 s' := by
    rcases usrdevIrq_ok hr with hs | ⟨t, sig, hs⟩
    · rwa [hs]
    · exact h.thraise_left hs
  rcases usrdevIrq_ok hr' with hs | ⟨t, sig, hs⟩
  · rwa [hs]
  · exact h₁.thraise_right hs

/-! ## System calls -/

/-- What a system call on a descriptor gives in the two states. -/
def LikeSys (P : Nat → Nat → Prop) (r r' : State.SysRes) : Prop := Like P r.state r'.state

/-- `sys_in`. -/
theorem sysIn {dd port hw valptr : Nat} {fault : Bool} (h : Like P s s') :
    Both (LikeSys P) (s.sysIn t dd port hw valptr fault) (s'.sysIn t dd port hw valptr fault) := by
  unfold State.sysIn
  split
  · exact .ok h
  · refine (h.opCall _).bind ?_
    rintro ⟨r, val, s₁⟩ ⟨r', val', s₁'⟩ ⟨hr, h₁⟩
    obtain rfl : r' = r := hr
    dsimp only
    split
    · exact .ok h₁
    · split <;> exact .ok h₁

/-- `sys_rdcfg`. -/
theorem sysRdcfg {dd off sz valptr : Nat} {fault : Bool} (h : Like P s s') :
    Both (LikeSys P) (s.sysRdcfg t dd off sz valptr fault)
      (s'.sysRdcfg t dd off sz valptr fault) := by
  unfold State.sysRdcfg
  split
  · exact .ok h
  · split
    · exact .ok h
    · refine (h.opCall _).bind ?_
      rintro ⟨r, val, s₁⟩ ⟨r', val', s₁'⟩ ⟨hr, h₁⟩
      obtain rfl : r' = r := hr
      dsimp only
      split
      · exact .ok h₁
      · split <;> exact .ok h₁

/-- `sys_export`. -/
theorem sysExport {dd va sz iovaptr : Nat} {wire : Int} {phys : Option Nat} {fault : Bool}
    (h : Like P s s') : Both (LikeSys P) (s.sysExport t dd va sz iovaptr wire phys fault)
      (s'.sysExport t dd va sz iovaptr wire phys fault) := by
  unfold State.sysExport
  split
  · exact .ok h
  · split
    · exact .ok h
    · refine (h.opCall _).bind ?_
      rintro ⟨r, val, s₁⟩ ⟨r', val', s₁'⟩ ⟨hr, h₁⟩
      obtain rfl : r' = r := hr
      dsimp only
      split
      · exact .ok h₁
      · split
        · exact (h₁.opCall _).bind fun _ _ h₂ ↦ .ok h₂.2
        · exact .ok h₁

/-- The system calls that hand the result of the bus back. -/
theorem sysReq {dd : Nat} {q : Req} (h : Like P s s') :
    Both (LikeSys P) (s.sysReq t dd q) (s'.sysReq t dd q) := by
  unfold State.sysReq
  split
  · exact .ok h
  · exact (h.opCall _).map fun _ _ h₁ ↦ h₁.2

/-- The calls that change the identities of a thread. -/
theorem setIds {n : Nat} (h : Like P s s') : Like P (s.sysSetuid t n).2 (s'.sysSetuid t n).2 ∧
    Like P (s.sysSeteuid t n).2 (s'.sysSeteuid t n).2 ∧
    Like P (s.sysSetgid t n).2 (s'.sysSetgid t n).2 ∧
    Like P (s.sysSetegid t n).2 (s'.sysSetegid t n).2 := by
  obtain ⟨u, σ, rfl⟩ := h.rest
  have hth : (s.swap u σ).thread = s.thread := rfl
  unfold State.sysSetuid State.sysSeteuid State.sysSetgid State.sysSetegid
  rw [hth]
  refine ⟨?_, ?_, ?_, ?_⟩
  all_goals
    dsimp only
    split
    · exact h
    · exact h.congr rfl rfl ⟨u, σ, rfl⟩

/-- The calls that leave the buses alone. -/
theorem plain {c : Call} (hc : c.Plain) (h : Like P s s') :
    Both (Like P) (s.sysCall t c) (s'.sysCall t c) := by
  cases c with
  | raise sint => exact h.thraise
  | setuid n => exact .ok h.setIds.1
  | seteuid n => exact .ok h.setIds.2.1
  | setgid n => exact .ok h.setIds.2.2.1
  | setegid n => exact .ok h.setIds.2.2.2
  | wriospace did id port val =>
      exact (h.withUsrdev fun d ↦ .ok h.usrdevWriospace).map fun _ _ h₁ ↦ h₁
  | irq did id irq => exact (h.withUsrdev fun d ↦ h.usrdevIrq).map fun _ _ h₁ ↦ h₁
  | xcopy did id iova sz va x =>
      refine Both.map (R := fun r r' : Int × State ↦ Like P r.2 r'.2) ?_ fun _ _ h₁ ↦ h₁
      unfold State.sysXcopy
      split
      · exact .ok h
      · refine h.withUsrdev fun d ↦ .ok ?_
        rwa [State.usrdevXcopy_snd, State.usrdevXcopy_snd]
  | _ => exact hc.elim

/-! ## Threads and events -/

/-- Every entry that is in use stays so. -/
def Grows (s s' : State) : Prop :=
  ∀ d i, ((s.usr d).remths i).use = true → ((s'.usr d).remths i).use = true

/-- `thraise` leaves the entries alone. -/
theorem grows_thraise {vect : Nat} {w : State} (h : s'.thraise t vect = .ok w)
    (hg : Grows s s') : Grows s w := by
  unfold State.thraise at h
  split at h
  · cases h
    exact hg
  · cases h

/-- `_usrdev_clone` takes an entry. -/
theorem grows_usrdevClone {id nth : Nat} {r : Int × State}
    (h : s.usrdevClone t d id nth = .ok r) : Grows s r.2 := by
  unfold State.usrdevClone at h
  dsimp only at h
  split at h
  · cases h
    exact fun _ _ h ↦ h
  · next i hi =>
    have hset : Grows s (s.setUsr d ((s.usr d).setRem i { (s.usr d).remths i with
        use := true, th := some nth
        iospace := ((s.usr d).remths id).iospace, irqmap := ((s.usr d).remths id).irqmap })) := by
      intro d' j hj
      rcases eq_or_ne d' d with rfl | hne
      · rw [State.setUsr_self]
        rcases eq_or_ne j i with rfl | hne
        · rw [Usrdev.setRem_self]
        · rwa [Usrdev.setRem_of_ne _ hne]
      · rwa [State.setUsr_of_ne hne]
    split at h
    · cases h
      exact hset
    · obtain ⟨s₂, hq, hc⟩ := bind_eq_ok.1 h
      cases hc
      refine grows_thraise hq fun d' j hj ↦ ?_
      have huse := hset d' j hj
      rcases eq_or_ne d' d with rfl | hne
      · rw [State.setUsr_self] at huse ⊢
        rwa [State.setUsr_self]
      · rw [State.setUsr_of_ne hne] at huse
        rwa [State.setUsr_of_ne hne, State.setUsr_of_ne hne]

/-- `bus_copy` takes entries only. -/
theorem grows_busCopy {desc nth : Nat} {r : Int × State}
    (h : s.busCopy t desc nth = .ok r) : Grows s r.2 := by
  obtain ⟨ret, s'⟩ := r
  rcases State.busCopy_cases h with rfl | ⟨d, devid, s₁, -, -, -, -, -, -, hc, hret⟩
  · exact fun _ _ h ↦ h
  · have hclone := grows_usrdevClone hc
    rcases hret with ⟨-, rfl⟩ | ⟨-, rfl⟩
    · exact hclone
    · exact hclone

/-- `thfork`: the entries that agree are in use, so the clones go elsewhere. -/
theorem thfork (h : Like P s s') (hP : ∀ d i, P d i → ((s.usr d).remths i).use = true) :
    Both (Like P) (s.thfork t) (s'.thfork t) := by
  have hnext : s'.next = s.next := by
    obtain ⟨u, σ, rfl⟩ := h.rest
    rfl
  have hloop : Both
      (fun r r' ↦ Like P r r' ∧ ∀ d i, P d i → ((r.usr d).remths i).use = true)
      (s.thfork t) (s'.thfork t) := by
    unfold State.thfork
    rw [hnext]
    refine Both.foldlM (fun r r' desc _ hr ↦ ?_) ⟨?_, hP⟩
    · intro w w' hw hw'
      obtain ⟨a, ha, hw⟩ := bind_eq_ok.1 hw
      obtain ⟨a', ha', hw'⟩ := bind_eq_ok.1 hw'
      cases hw
      cases hw'
      refine ⟨(hr.1.busCopy hr.2 a a' ha ha').2, fun d i hi ↦ ?_⟩
      exact grows_busCopy ha d i (hr.2 d i hi)
    · obtain ⟨u, σ, rfl⟩ := h.rest
      exact h.congr rfl rfl ⟨u, _, rfl⟩
  exact hloop.mono fun _ _ h₁ ↦ h₁.1

/-- `__exit`. -/
theorem exit (h : Like P s s') : Both (Like P) (s.exit t) (s'.exit t) := by
  have hpar : s'.parent t = s.parent t := by
    obtain ⟨u, σ, rfl⟩ := h.rest
    rfl
  unfold State.exit
  rw [hpar]
  split
  · exact .error _
  · refine h.busRemove.bind fun s₁ s₁' h₁ ↦ ?_
    refine Both.bind (R := Like P) ?_ fun s₂ s₂' h₂ ↦ ?_
    · exact Both.foldlM (fun _ _ _ _ h₂ ↦ h₂.devremove) h₁
    · obtain ⟨u, σ, rfl⟩ := h₂.rest
      refine Like.thraise ?_
      exact h₂.congr rfl rfl ⟨u, σ, rfl⟩

/-- `do_zombie`. -/
theorem doZombie {c : Nat} (h : Like P s s') : Both (Like P) (s.doZombie c) (s'.doZombie c) := by
  obtain ⟨u, σ, rfl⟩ := h.rest
  have hpar : (s.swap u σ).parent c = s.parent c := rfl
  unfold State.doZombie
  rw [hpar]
  cases s.parent c with
  | none => exact .error _
  | some p =>
      refine Like.thraise ?_
      exact h.congr rfl rfl ⟨u, σ, rfl⟩

/-- `childstat`. -/
theorem childstat (h : Like P s s') : Like P (s.childstat t).2 (s'.childstat t).2 := by
  obtain ⟨u, σ, rfl⟩ := h.rest
  have hz : (s.swap u σ).zombies t = s.zombies t := rfl
  unfold State.childstat
  rw [hz]
  cases s.zombies t with
  | nil => exact h
  | cons c cs => exact h.congr rfl rfl ⟨u, σ, rfl⟩

/-- `irqsignal`. -/
theorem irqsignal {irq : Nat} {level : Bool} (h : Like P s s') :
    Both (Like P) (s.irqsignal irq level) (s'.irqsignal irq level) := by
  obtain ⟨u, σ, rfl⟩ := h.rest
  have hirq : (s.swap u σ).irqsigs = s.irqsigs := rfl
  unfold State.irqsignal
  rw [hirq]
  split
  · refine Both.foldlM (fun _ _ _ _ h₁ ↦ h₁.thraise) ?_
    exact h.congr rfl rfl ⟨u, σ, rfl⟩
  · exact .error _

/-- A timer that fires. -/
theorem timerFire {sig : Nat} (h : Like P s s') :
    Both (Like P) (s.timerFire t sig) (s'.timerFire t sig) := by
  unfold State.timerFire
  split
  · exact h.thraise
  · exact .ok h

/-- `__klogdev_raise_avl`. -/
theorem raiseAvl (h : Like P s s') : Both (Like P) s.klogdevRaiseAvl s'.klogdevRaiseAvl := by
  obtain ⟨u, σ, rfl⟩ := h.rest
  have hk : (s.swap u σ).klog = s.klog := rfl
  unfold State.klogdevRaiseAvl
  rw [hk]
  dsimp only
  split
  · cases s.klog.th with
    | none => exact .error _
    | some th =>
        refine Like.thraise ?_
        exact h.congr rfl rfl ⟨u, σ, rfl⟩
  · exact .ok (h.congr rfl rfl ⟨u, σ, rfl⟩)

/-- A step with the same label leads to states that are alike. -/
theorem step {a : Label} {w w' : State} (h : Like P s s')
    (hP : ∀ d i, P d i → ((s.usr d).remths i).use = true) (hs : Step s a w)
    (hs' : Step s' a w') : Like P w w' := by
  obtain ⟨-, hs⟩ := hs
  obtain ⟨-, hs'⟩ := hs'
  suffices hboth : Both (Like P) (s.exec a) (s'.exec a) from hboth w w' hs hs'
  cases a with
  | call t c =>
      change Both (Like P) (s.sysCall t c) (s'.sysCall t c)
      cases c with
      | raise | setuid | seteuid | setgid | setegid | wriospace | irq | xcopy =>
          refine h.plain ?_
          trivial
      | fork => exact h.thfork hP
      | die => exact h.exit
      | childstat => exact .ok h.childstat
      | creat nameid cfg sig mode => exact .ok h.devcreat
      | poll did => exact h.devpoll.map fun _ _ h₁ ↦ h₁
      | hwcreat nameid cfg mode => exact .ok h.sysHwcreat
      | openDev did => exact h.busPlug.map fun _ _ h₁ ↦ h₁.2
      | closeDev dd => exact h.busUnplug.map fun _ _ h₁ ↦ h₁.2
      | inDev dd port hw valptr fault => exact h.sysIn.map fun _ _ h₁ ↦ h₁
      | rdcfg dd off sz valptr fault => exact h.sysRdcfg.map fun _ _ h₁ ↦ h₁
      | exportDev dd va sz iovaptr wire phys fault => exact h.sysExport.map fun _ _ h₁ ↦ h₁
      | req dd q => exact h.sysReq.map fun _ _ h₁ ↦ h₁
  | zombie c => exact h.doZombie
  | irq irq level => exact h.irqsignal
  | timer t vtt =>
      have hth : s'.thread t = s.thread t := by
        obtain ⟨u, σ, rfl⟩ := h.rest
        rfl
      change Both (Like P) (s.timerFire t _) (s'.timerFire t _)
      rw [hth]
      exact h.timerFire
  | putc => exact h.raiseAvl

end Like

end Mh.Bus
