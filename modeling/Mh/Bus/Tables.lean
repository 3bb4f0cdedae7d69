import Mh.Bus.Plugs
import Mh.Bus.Frame

/-!
# Opening, cloning and closing

What the drivers do to their tables when the bus opens, clones or closes a client: an id
that is free is given (`Opened`), or the one that the descriptor holds is taken back
(`Closed`), and the queues of the user devices stay in order.
-/

namespace Mh.Bus

open Mh.Lib

/-- The queue of every device that is not being destroyed is in order. -/
def State.QueuesOk (s : State) : Prop := ∀ d, (s.usr d).detaching = false → (s.usr d).QInv

/-- The id `i` of `d` has been given to the thread `t`. -/
structure Opened (s s' : State) (d i t : Nat) : Prop where
  bus : SameBus s s'
  gives : Gives s s' d i t
  detaching : ∀ d', (s'.usr d').detaching = (s.usr d').detaching
  queues : s.QueuesOk → s'.QueuesOk

/-- The id `i` of `d` has been taken back. -/
structure Closed (s s' : State) (d i : Nat) : Prop where
  bus : SameBus s s'
  takes : Takes s s' d i
  detaching : ∀ d', (s'.usr d').detaching = (s.usr d').detaching
  queues : s.QueuesOk → s'.QueuesOk

variable {s s' s'' : State} {t d id i : Nat} {r : Int}

/-! ## Frames -/

/-- A quiet step keeps the queues in order. -/
theorem Quiet.queues (h : Quiet s s') (hs : s.QueuesOk) : s'.QueuesOk := by
  intro d hd
  rw [(h.usr d).detaching] at hd
  exact (hs d hd).alike (h.usr d)

/-- A user device in order replaces one. -/
theorem State.QueuesOk.setUsr {u : Usrdev} (h : s.QueuesOk) (hu : u.detaching = false → u.QInv) :
    (s.setUsr d u).QueuesOk := by
  intro d' hd'
  rcases eq_or_ne d' d with rfl | hne
  · rw [State.setUsr_self] at hd' ⊢
    exact hu hd'
  · rw [State.setUsr_of_ne hne] at hd' ⊢
    exact h d' hd'

/-- A quiet step after an id has been given. -/
theorem Opened.quiet (h : Opened s s' d i t) (hq : Quiet s' s'') : Opened s s'' d i t where
  bus := h.bus.trans hq.toSameBus
  gives :=
    { devs := hq.devs.trans h.gives.devs
      life := hq.life.trans h.gives.life
      kind := fun d' ↦ by rw [hq.dev, h.gives.kind]
      use := fun d' i' ↦ (hq.inUse d' i').trans (h.gives.use d' i')
      free := h.gives.free
      th := fun hk ↦ ((hq.usr d).th i).trans (h.gives.th hk)
      others := fun d' i' hne ↦ ((hq.usr d').th i').trans (h.gives.others d' i' hne) }
  detaching d' := ((hq.usr d').detaching).trans (h.detaching d')
  queues hs := hq.queues (h.queues hs)

/-- A quiet step after an id has been taken back. -/
theorem Closed.quiet (h : Closed s s' d i) (hq : Quiet s' s'') : Closed s s'' d i where
  bus := h.bus.trans hq.toSameBus
  takes :=
    { devs := hq.devs.trans h.takes.devs
      life := hq.life.trans h.takes.life
      kind := fun d' ↦ by rw [hq.dev, h.takes.kind]
      use := fun d' i' ↦ (hq.inUse d' i').trans (h.takes.use d' i')
      th := fun d' i' ↦ ((hq.usr d').th i').trans (h.takes.th d' i') }
  detaching d' := ((hq.usr d').detaching).trans (h.detaching d')
  queues hs := hq.queues (h.queues hs)

/-- A device without a table gives any id by a quiet step. -/
theorem Opened.ofQuiet (hq : Quiet s s') (ht : ¬ s.Tabled d) : Opened s s' d i t where
  bus := hq.toSameBus
  gives :=
    { toSameSlots := hq.sameSlots
      use := fun d' i' ↦ by rw [hq.inUse, or_iff_left fun h ↦ ht h.1]
      free := fun h ↦ absurd h ht
      th := fun hk ↦ absurd (.inl hk) ht
      others := fun d' i' _ ↦ (hq.usr d').th i' }
  detaching d' := (hq.usr d').detaching
  queues := hq.queues

/-- And takes it back by one. -/
theorem Closed.ofQuiet (hq : Quiet s s') (ht : ¬ s.Tabled d) : Closed s s' d i where
  bus := hq.toSameBus
  takes :=
    { toSameSlots := hq.sameSlots
      use := fun d' i' ↦ by
        rw [hq.inUse, iff_self_and]
        rintro hi ⟨rfl, -⟩
        exact ht hi.tabled
      th := fun d' i' ↦ (hq.usr d').th i' }
  detaching d' := (hq.usr d').detaching
  queues := hq.queues

/-! ## Writing an entry -/

/-- An entry of a user device is written. -/
theorem inUse_setUsr {u : Usrdev} {e : Remth} (hk : (s.dev d).kind = .usr)
    (hr : u.remths = Function.update (s.usr d).remths i e) (d' i' : Nat) :
    (s.setUsr d u).InUse d' i' ↔ if d' = d ∧ i' = i then e.use = true else s.InUse d' i' := by
  split
  · next h =>
    obtain ⟨rfl, rfl⟩ := h
    rw [State.inUse_usr (show ((s.setUsr d' u).dev d').kind = .usr from hk), State.setUsr_self, hr,
      Function.update_self]
  · next h =>
    refine State.inUse_congr rfl ?_ rfl
    rcases eq_or_ne d' d with rfl | hd
    · rw [State.setUsr_self, hr, Function.update_of_ne fun hi ↦ h ⟨rfl, hi⟩]
    · rw [State.setUsr_of_ne hd]

/-- An entry of a hardware device is written. -/
theorem inUse_setHw {e : HwRemth} (hk : (s.dev d).kind = .hw) (d' i' : Nat) :
    (s.setHw d ((s.hw d).setRem i e)).InUse d' i' ↔
      if d' = d ∧ i' = i then e.use = true else s.InUse d' i' := by
  split
  · next h =>
    obtain ⟨rfl, rfl⟩ := h
    rw [State.inUse_hw (show ((s.setHw d' _).dev d').kind = .hw from hk), State.setHw_self,
      Hwdev.setRem_self]
  · next h =>
    refine State.inUse_congr rfl rfl ?_
    rcases eq_or_ne d' d with rfl | hd
    · rw [State.setHw_self, Hwdev.setRem_of_ne _ fun hi ↦ h ⟨rfl, hi⟩]
    · rw [State.setHw_of_ne hd]

/-- A table has an id once more. -/
theorem iff_or_of_ite {p q : Prop} {b : Bool} [Decidable p] (hb : b) :
    (if p then b = true else q) ↔ q ∨ p := by
  split
  · next h => exact iff_of_true hb (.inr h)
  · next h => rw [or_iff_left h]

/-- A table has an id no more. -/
theorem iff_and_of_ite {p q : Prop} {b : Bool} [Decidable p] (hb : b = false) :
    (if p then b = true else q) ↔ q ∧ ¬ p := by
  split
  · next h => exact iff_of_false (by rw [hb]; decide) fun hh ↦ hh.2 h
  · next h => rw [and_iff_left h]

/-- Whether another device is being destroyed does not change. -/
theorem detaching_setUsr {u : Usrdev} (hu : u.detaching = (s.usr d).detaching) (d' : Nat) :
    ((s.setUsr d u).usr d').detaching = (s.usr d').detaching := by
  rcases eq_or_ne d' d with rfl | hd
  · rw [State.setUsr_self, hu]
  · rw [State.setUsr_of_ne hd]

/-- A user device gives a free entry. -/
theorem Opened.setUsr {u : Usrdev} {e : Remth} (hk : (s.dev d).kind = .usr)
    (hr : u.remths = Function.update (s.usr d).remths i e) (he : e.use) (hth : e.th = some t)
    (hfree : ((s.usr d).remths i).use = false) (hi : i < maxUsrdevRems)
    (hdet : u.detaching = (s.usr d).detaching) (hu : s.QueuesOk → u.detaching = false → u.QInv) :
    Opened s (s.setUsr d u) d i t where
  bus := ⟨rfl, rfl, rfl, rfl, rfl, rfl, rfl, rfl⟩
  gives :=
    { devs := rfl
      life := rfl
      kind := fun _ ↦ rfl
      use := fun d' i' ↦ by
        rw [inUse_setUsr hk hr, iff_or_of_ite he, and_iff_right (show s.Tabled d from .inl hk)]
      free := fun _ ↦ ⟨by rw [State.inUse_usr hk, hfree]; decide, hi⟩
      th := fun _ ↦ by rw [State.setUsr_self, hr, Function.update_self, hth]
      others := fun d' i' hne ↦ by
        rcases eq_or_ne d' d with rfl | hd
        · rw [State.setUsr_self, hr, Function.update_of_ne fun hi ↦ hne ⟨rfl, hi⟩]
        · rw [State.setUsr_of_ne hd] }
  detaching := detaching_setUsr hdet
  queues hs := hs.setUsr (hu hs)

/-- A user device takes an entry back. -/
theorem Closed.setUsr {u : Usrdev} (e : Remth) (hk : (s.dev d).kind = .usr)
    (hr : u.remths = Function.update (s.usr d).remths i e) (he : e.use = false)
    (hth : e.th = ((s.usr d).remths i).th) (hdet : u.detaching = (s.usr d).detaching)
    (hu : s.QueuesOk → u.detaching = false → u.QInv) : Closed s (s.setUsr d u) d i where
  bus := ⟨rfl, rfl, rfl, rfl, rfl, rfl, rfl, rfl⟩
  takes :=
    { devs := rfl
      life := rfl
      kind := fun _ ↦ rfl
      use := fun d' i' ↦ by rw [inUse_setUsr hk hr, iff_and_of_ite he]
      th := fun d' i' ↦ by
        rcases eq_or_ne d' d with rfl | hd
        · rw [State.setUsr_self, hr]
          rcases eq_or_ne i' i with rfl | hi
          · rw [Function.update_self, hth]
          · rw [Function.update_of_ne hi]
        · rw [State.setUsr_of_ne hd] }
  detaching := detaching_setUsr hdet
  queues hs := hs.setUsr (hu hs)

/-- A hardware device gives a free entry. -/
theorem Opened.setHw {e : HwRemth} (hk : (s.dev d).kind = .hw) (he : e.use)
    (hfree : ((s.hw d).remths i).use = false) (hi : i < maxHwdevRems) :
    Opened s (s.setHw d ((s.hw d).setRem i e)) d i t where
  bus := ⟨rfl, rfl, rfl, rfl, rfl, rfl, rfl, rfl⟩
  gives :=
    { devs := rfl
      life := rfl
      kind := fun _ ↦ rfl
      use := fun d' i' ↦ by
        rw [inUse_setHw hk, iff_or_of_ite he, and_iff_right (show s.Tabled d from .inr hk)]
      free := fun _ ↦ ⟨by rw [State.inUse_hw hk, hfree]; decide, hi⟩
      th := fun hk' ↦ by
        rw [hk] at hk'
        cases hk'
      others := fun _ _ _ ↦ rfl }
  detaching _ := rfl
  queues hs := hs

/-- A hardware device takes an entry back. -/
theorem Closed.setHw {e : HwRemth} (hk : (s.dev d).kind = .hw) (he : e.use = false) :
    Closed s (s.setHw d ((s.hw d).setRem i e)) d i where
  bus := ⟨rfl, rfl, rfl, rfl, rfl, rfl, rfl, rfl⟩
  takes :=
    { devs := rfl
      life := rfl
      kind := fun _ ↦ rfl
      use := fun d' i' ↦ by rw [inUse_setHw hk, iff_and_of_ite he]
      th := fun _ _ ↦ rfl }
  detaching _ := rfl
  queues hs := hs

/-! ## The drivers -/

/-- The id that a user device finds is free. -/
theorem Usrdev.freeRem_spec {u : Usrdev} (h : u.freeRem = some i) :
    (u.remths i).use = false ∧ i < maxUsrdevRems := by
  have hp := List.find?_some h
  exact ⟨by simpa using hp, List.mem_range.1 (List.mem_of_find?_eq_some h)⟩

/-- So is the one that a hardware device finds. -/
theorem Hwdev.freeRem_spec {h : Hwdev} (hf : h.freeRem = some i) :
    (h.remths i).use = false ∧ i < maxHwdevRems := by
  have hp := List.find?_some hf
  exact ⟨by simpa using hp, List.mem_range.1 (List.mem_of_find?_eq_some hf)⟩

/-- `_usrdev_open` of a device that is not being destroyed. -/
theorem usrdevOpen_ok (hk : (s.dev d).kind = .usr) (hdet : (s.usr d).detaching = false)
    (h : s.usrdevOpen t d = .ok (r, s')) :
    (r < 0 ∧ s' = s) ∨ ∃ i : Nat, r = i ∧ (s.usr d).freeRem = some i ∧
      Quiet (s.setUsr d
        (((s.usr d).setRem i { (s.usr d).remths i with use := true, th := some t }).push
          (s.mkIor t i .openOp))) s' ∧ Opened s s' d i t := by
  unfold State.usrdevOpen at h
  dsimp only at h
  split at h
  · obtain ⟨rfl, rfl⟩ := Prod.mk.inj (Except.ok.inj h)
    exact .inl ⟨by decide, rfl⟩
  · next i hi =>
    obtain ⟨hfree, hlt⟩ := Usrdev.freeRem_spec hi
    rw [hdet] at h
    obtain ⟨s₁, hs₁, h⟩ := bind_eq_ok.1 h
    obtain ⟨rfl, rfl⟩ := Prod.mk.inj (Except.ok.inj h)
    have hq := Quiet.setUsr_enqueue hs₁
    refine .inr ⟨i, rfl, hi, hq, Opened.quiet ?_ hq⟩
    refine Opened.setUsr hk (by rfl) rfl rfl hfree hlt rfl fun hs _ ↦ ?_
    exact (hs d hdet).pushOpen hfree rfl rfl rfl

/-- `_usrdev_clone` of a client of a device that is not being destroyed. -/
theorem usrdevClone_ok {nth : Nat} (hk : (s.dev d).kind = .usr)
    (hdet : (s.usr d).detaching = false) (hid : ((s.usr d).remths id).use)
    (h : s.usrdevClone t d id nth = .ok (r, s')) :
    (r < 0 ∧ s' = s) ∨ ∃ i : Nat, r = i ∧ (s.usr d).freeRem = some i ∧
      Quiet (s.setUsr d (((s.usr d).setRem i { (s.usr d).remths i with
        use := true, th := some nth
        iospace := ((s.usr d).remths id).iospace
        irqmap := ((s.usr d).remths id).irqmap }).push (s.mkIor t id (.cloneOp i)))) s' ∧
      Opened s s' d i nth := by
  unfold State.usrdevClone at h
  dsimp only at h
  split at h
  · obtain ⟨rfl, rfl⟩ := Prod.mk.inj (Except.ok.inj h)
    exact .inl ⟨by decide, rfl⟩
  · next i hi =>
    obtain ⟨hfree, hlt⟩ := Usrdev.freeRem_spec hi
    rw [hdet] at h
    obtain ⟨s₁, hs₁, h⟩ := bind_eq_ok.1 h
    obtain ⟨rfl, rfl⟩ := Prod.mk.inj (Except.ok.inj h)
    have hq := Quiet.setUsr_enqueue hs₁
    refine .inr ⟨i, rfl, hi, hq, Opened.quiet ?_ hq⟩
    refine Opened.setUsr hk (by rfl) rfl rfl hfree hlt rfl fun hs _ ↦ ?_
    exact (hs d hdet).pushClone hfree rfl hid rfl rfl

/-- The entry that `_usrdev_close` leaves. -/
def Remth.closed (e : Remth) : Remth :=
  { e with use := false, apertbl := fun i ↦ if i < maxUsrdevAperts then ⟨0, 0⟩ else e.apertbl i }

/-- `_usrdev_close`: a request, or nothing if the device is being destroyed. -/
theorem usrdevClose_ok (h : s.usrdevClose t d id = .ok s') :
    ((s.usr d).detaching = true ∧
      s' = s.setUsr d ((s.usr d).setRem id ((s.usr d).remths id).closed)) ∨
    ((s.usr d).detaching = false ∧
      Quiet (s.setUsr d (((s.usr d).setRem id ((s.usr d).remths id).closed).push
        (s.mkIor t id .closeOp))) s') := by
  unfold State.usrdevClose at h
  dsimp only at h
  split at h
  · next hdet => exact .inl ⟨hdet, (Except.ok.inj h).symm⟩
  · next hdet =>
    exact .inr ⟨Bool.eq_false_of_not_eq_true hdet, Quiet.setUsr_enqueue h⟩

/-- `_usrdev_close` of an id that is in use. -/
theorem usrdevClose_closed (hk : (s.dev d).kind = .usr) (hid : ((s.usr d).remths id).use)
    (h : s.usrdevClose t d id = .ok s') : Closed s s' d id := by
  rcases usrdevClose_ok h with ⟨hdet, rfl⟩ | ⟨hdet, hq⟩
  · refine Closed.setUsr ((s.usr d).remths id).closed hk rfl rfl rfl rfl fun _ hf ↦ ?_
    change (s.usr d).detaching = false at hf
    rw [hdet] at hf
    cases hf
  · refine Closed.quiet ?_ hq
    refine Closed.setUsr ((s.usr d).remths id).closed hk rfl rfl rfl rfl fun hs _ ↦ ?_
    exact (hs d hdet).pushClose hid rfl rfl rfl

/-- A device that is not being destroyed opens a client, or fails quietly. -/
theorem opOpen_ok (hdet : (s.dev d).kind = .usr → (s.usr d).detaching = false)
    (h : s.opOpen t d = .ok (r, s')) :
    (r < 0 ∧ Quiet s s') ∨ (0 ≤ r ∧ Opened s s' d r.toNat t) := by
  unfold State.opOpen at h
  split at h
  · next hk =>
    rcases usrdevOpen_ok hk (hdet hk) h with ⟨hr, rfl⟩ | ⟨i, rfl, -, -, ho⟩
    · exact .inl ⟨hr, .refl _⟩
    · exact .inr ⟨Int.natCast_nonneg i, ho⟩
  · next hk =>
    have h := Except.ok.inj h
    unfold State.hwdevOpen at h
    split at h
    · obtain ⟨rfl, rfl⟩ := Prod.mk.inj h
      exact .inl ⟨by decide, .refl s⟩
    · next i hi =>
      obtain ⟨rfl, rfl⟩ := Prod.mk.inj h
      obtain ⟨hfree, hlt⟩ := Hwdev.freeRem_spec hi
      exact .inr ⟨Int.natCast_nonneg i, .setHw hk rfl hfree hlt⟩
  · next hk =>
    have hq := Quiet.pltdevOpen s
    rw [Except.ok.inj h] at hq
    rcases lt_or_ge r 0 with hr | hr
    · exact .inl ⟨hr, hq⟩
    · exact .inr ⟨hr, .ofQuiet hq (by simp [State.Tabled, hk])⟩
  · next hk =>
    obtain ⟨rfl, rfl⟩ := Prod.mk.inj (Except.ok.inj h)
    exact .inr ⟨le_rfl, .ofQuiet (.refl s) (by simp [State.Tabled, hk])⟩
  · next hk =>
    have hq := Quiet.klogdevOpen s t
    rw [Except.ok.inj h] at hq
    rcases lt_or_ge r 0 with hr | hr
    · exact .inl ⟨hr, hq⟩
    · exact .inr ⟨hr, .ofQuiet hq (by simp [State.Tabled, hk])⟩

/-- Closing a client whose id is in use, where the device has a table. -/
theorem opClose_ok (hid : s.Tabled d → s.InUse d id) (h : s.opClose t d id = .ok s') :
    Closed s s' d id := by
  unfold State.opClose at h
  split at h
  · next hk =>
    exact usrdevClose_closed hk ((State.inUse_usr hk).1 (hid (.inl hk))) h
  · next hk =>
    exact Closed.quiet (.setHw hk rfl) (Quiet.hwdevClose h).2
  · next hk => exact .ofQuiet (Quiet.pltdevClose h) (by simp [State.Tabled, hk])
  · next hk =>
    obtain rfl := Except.ok.inj h
    exact .ofQuiet (.refl s) (by simp [State.Tabled, hk])
  · next hk => exact .ofQuiet (Quiet.klogdevClose h) (by simp [State.Tabled, hk])

end Mh.Bus
