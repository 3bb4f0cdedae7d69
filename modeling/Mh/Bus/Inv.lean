import Mh.Bus.Tables

/-!
# The invariant of the device system

`Inv` puts together what holds between the calls: the descriptors and the ids in use
(`Plugs`, on the lists that the devices have), the tree of attached devices, the numbers
under which the owners keep their devices, the lives of the threads, and the queues of the
user devices.  There is one lemma for each function of the bus and of the kernel that
changes any of it.
-/

namespace Mh.Bus

open Mh.Lib

/-- The descriptors that are on the lists of the devices. -/
def State.lists (s : State) (d : Nat) : List Slot := (s.dev d).busdevs

/-- What holds between the calls. -/
structure Inv (s : State) : Prop where
  plugs : Plugs s.lists s
  descs : ∀ d k, k ∈ s.lists d → k.2 < maxBusDevs
  attached : ∀ d k, k ∈ s.lists d → s.tree (s.dev d).did = some d
  tree : ∀ x d, s.tree x = some d → d < s.ndev ∧ (s.dev d).did = x ∧
    (s.dev d).offline = false ∧ ((s.dev d).kind = .usr → (s.usr d).detaching = false)
  owned : ∀ p d, s.usrdevs p = some d →
    (s.dev d).kind = .usr ∧ s.tree (s.dev d).did = some d
  once : ∀ p p' d, s.usrdevs p = some d → s.usrdevs p' = some d → p = p'
  born : ∀ t, s.next ≤ t → s.life t = .unborn
  waiting : ∀ t c, c ∈ s.zombies t → s.life c = .zombie ∨ s.life c = .freed
  queues : s.QueuesOk

namespace Inv

variable {s s' s₁ : State} {t d i id : Nat} {k : Slot} {b : Bdeve} {r : Int}

/-- A quiet step. -/
theorem quiet (h : Inv s) (hq : Quiet s s') : Inv s' := by
  have hl : s'.lists = s.lists := by
    funext d
    rw [State.lists, State.lists, hq.dev]
  refine ⟨?_, ?_, ?_, fun x d hx ↦ ?_, fun p d hp ↦ ?_, ?_, ?_, ?_, hq.queues h.queues⟩
  · rw [hl]
    exact h.plugs.quiet hq
  · rw [hl]
    exact h.descs
  · rw [hl, hq.dev, hq.tree]
    exact h.attached
  · rw [hq.tree] at hx
    rw [hq.ndev, hq.dev, (hq.usr d).detaching]
    exact h.tree x d hx
  · rw [hq.usrdevs] at hp
    rw [hq.dev, hq.tree]
    exact h.owned p d hp
  · rw [hq.usrdevs]
    exact h.once
  · rw [hq.next, hq.life]
    exact h.born
  · rw [hq.zombies, hq.life]
    exact h.waiting

/-- A user device is replaced by one with the same clients, in order. -/
theorem setUsr {u : Usrdev} (h : Inv s) (hdet : u.detaching = (s.usr d).detaching)
    (huse : ∀ i, (u.remths i).use = ((s.usr d).remths i).use)
    (hth : ∀ i, (u.remths i).th = ((s.usr d).remths i).th)
    (hu : u.detaching = false → u.QInv) : Inv (s.setUsr d u) := by
  have hrem : ∀ d' i, (((s.setUsr d u).usr d').remths i).use = ((s.usr d').remths i).use ∧
      (((s.setUsr d u).usr d').remths i).th = ((s.usr d').remths i).th := by
    intro d' i
    rcases eq_or_ne d' d with rfl | hne
    · rw [State.setUsr_self]
      exact ⟨huse i, hth i⟩
    · rw [State.setUsr_of_ne hne]
      exact ⟨rfl, rfl⟩
  refine ⟨h.plugs.congr ⟨rfl, rfl, fun _ ↦ rfl⟩
    (fun d' i ↦ State.inUse_congr rfl (hrem d' i).1 rfl) fun d' i ↦ (hrem d' i).2, h.descs,
    h.attached, fun x d' hx ↦ ?_, h.owned, h.once, h.born, h.waiting, h.queues.setUsr hu⟩
  rw [detaching_setUsr hdet]
  exact h.tree x d' hx

/-- The device that a plugged slot refers to lists the slot. -/
theorem mem_lists (h : Inv s) (hk : (s.devs k).plg) (hd : (s.devs k).dev = some d) :
    k ∈ s.lists d := by
  obtain ⟨d', hd'⟩ := h.plugs.plugged k hk
  rw [(h.plugs.listed d' k hd').2.1] at hd
  rwa [Option.some.inj hd] at hd'

/-- A slot without a device is not plugged. -/
theorem plg_of_none (h : Inv s) (hd : (s.devs k).dev = none) : (s.devs k).plg = false := by
  rw [Bool.eq_false_iff]
  intro hk
  obtain ⟨d, hk'⟩ := h.plugs.plugged k hk
  rw [(h.plugs.listed d k hk').2.1] at hd
  cases hd

/-- A device with a plugged slot is online, and not being destroyed. -/
theorem online (h : Inv s) (hk : k ∈ s.lists d) :
    (s.dev d).offline = false ∧ ((s.dev d).kind = .usr → (s.usr d).detaching = false) :=
  (h.tree _ d (h.attached d k hk)).2.2

/-! ## The bus -/

/-- The lists after one of them has been replaced. -/
theorem lists_setDev (s : State) (d : Nat) (l : List Slot) :
    (s.setDev d { s.dev d with busdevs := l }).lists = Function.update s.lists d l := by
  funext d'
  rcases eq_or_ne d' d with rfl | hne
  · rw [Function.update_self, State.lists, State.setDev_self]
  · rw [Function.update_of_ne hne, State.lists, State.setDev_of_ne hne]
    rfl

/-- The rest of a device after its list has been replaced. -/
theorem dev_setDev (s : State) (d : Nat) (l : List Slot) (d' : Nat) :
    ((s.setDev d { s.dev d with busdevs := l }).dev d').did = (s.dev d').did ∧
      ((s.setDev d { s.dev d with busdevs := l }).dev d').offline = (s.dev d').offline ∧
      ((s.setDev d { s.dev d with busdevs := l }).dev d').kind = (s.dev d').kind := by
  rcases eq_or_ne d' d with rfl | hne
  · rw [State.setDev_self]
    exact ⟨rfl, rfl, rfl⟩
  · rw [State.setDev_of_ne hne]
    exact ⟨rfl, rfl, rfl⟩

/-- The list of a device and a slot are written, so that the descriptors are in order
again. -/
theorem relist {l : List Slot} (h : Inv s) (hb : SameBus s s₁)
    (hdet : ∀ d', (s₁.usr d').detaching = (s.usr d').detaching) (hq : s₁.QueuesOk)
    (hp : Plugs (Function.update s.lists d l)
      ((s₁.setDev d { s₁.dev d with busdevs := l }).setSlot k b))
    (hl : ∀ k' ∈ l, k'.2 < maxBusDevs ∧ s.tree (s.dev d).did = some d) :
    Inv ((s₁.setDev d { s₁.dev d with busdevs := l }).setSlot k b) := by
  have hlists : ((s₁.setDev d { s₁.dev d with busdevs := l }).setSlot k b).lists =
      Function.update s.lists d l := by
    have hs : s₁.lists = s.lists := by
      funext d'
      rw [State.lists, State.lists, hb.dev]
    rw [← hs]
    exact lists_setDev s₁ d l
  have hdev : ∀ d', (((s₁.setDev d { s₁.dev d with busdevs := l }).setSlot k b).dev d').did =
        (s.dev d').did ∧
      (((s₁.setDev d { s₁.dev d with busdevs := l }).setSlot k b).dev d').offline =
        (s.dev d').offline ∧
      (((s₁.setDev d { s₁.dev d with busdevs := l }).setSlot k b).dev d').kind =
        (s.dev d').kind := by
    intro d'
    rw [← hb.dev]
    exact dev_setDev s₁ d l d'
  have hmem : ∀ d' k', k' ∈ Function.update s.lists d l d' →
      k'.2 < maxBusDevs ∧ s.tree (s.dev d').did = some d' := by
    intro d' k' hk'
    rcases eq_or_ne d' d with rfl | hne
    · rw [Function.update_self] at hk'
      exact hl k' hk'
    · rw [Function.update_of_ne hne] at hk'
      exact ⟨h.descs d' k' hk', h.attached d' k' hk'⟩
  refine ⟨?_, ?_, fun d' k' hk' ↦ ?_, fun x d' hx ↦ ?_, fun p d' hp ↦ ?_, ?_, ?_, ?_, hq⟩
  · rwa [hlists]
  · rw [hlists]
    exact fun d' k' hk' ↦ (hmem d' k' hk').1
  · rw [hlists] at hk'
    rw [(hdev d').1]
    change s₁.tree _ = _
    rw [hb.tree]
    exact (hmem d' k' hk').2
  · change s₁.tree x = some d' at hx
    change d' < s₁.ndev ∧ _ ∧ _ ∧ (_ → (s₁.usr d').detaching = false)
    rw [hb.tree] at hx
    rw [hb.ndev, (hdev d').1, (hdev d').2.1, (hdev d').2.2, hdet]
    exact h.tree x d' hx
  · change s₁.usrdevs p = some d' at hp
    rw [hb.usrdevs] at hp
    rw [(hdev d').1, (hdev d').2.2]
    change _ ∧ s₁.tree _ = _
    rw [hb.tree]
    exact h.owned p d' hp
  · change ∀ p p' d', s₁.usrdevs p = some d' → s₁.usrdevs p' = some d' → p = p'
    rw [hb.usrdevs]
    exact h.once
  · change ∀ t, s₁.next ≤ t → s₁.life t = .unborn
    rw [hb.next, hb.life]
    exact h.born
  · change ∀ t c, c ∈ s₁.zombies t → s₁.life c = .zombie ∨ s₁.life c = .freed
    rw [hb.zombies, hb.life]
    exact h.waiting

/-- A descriptor is plugged. -/
theorem plug (h : Inv s) (ho : Opened s s₁ d i k.1) (hk : (s.devs k).plg = false)
    (hlive : s.life k.1 = .live) (hdesc : k.2 < maxBusDevs)
    (ht : s.tree (s.dev d).did = some d) : Inv (s₁.plug k d i) := by
  have hl : (s₁.dev d).busdevs = s.lists d := by rw [ho.bus.dev, State.lists]
  refine h.relist ho.bus ho.detaching (ho.queues h.queues) ?_ fun k' hk' ↦ ⟨?_, ht⟩
  · rw [hl]
    refine h.plugs.give ?_ hk hlive
    exact
      { devs := ho.gives.devs
        life := ho.gives.life
        kind := fun d' ↦ ((dev_setDev s₁ d _ d').2.2).trans (ho.gives.kind d')
        use := fun d' i' ↦ by
          rw [← ho.gives.use]
          exact State.inUse_congr (dev_setDev s₁ d _ d').2.2 rfl rfl
        free := ho.gives.free
        th := ho.gives.th
        others := ho.gives.others }
  · rw [hl] at hk'
    rcases List.mem_cons.1 hk' with rfl | hk'
    · exact hdesc
    · exact h.descs d k' hk'

/-- A descriptor is unplugged. -/
theorem unplug (h : Inv s) (hk : k ∈ s.lists d) (hc : Closed s s₁ d (s.devs k).devid)
    (hb : b.plg = false) :
    Inv ((s₁.setDev d { s₁.dev d with busdevs := (s₁.dev d).busdevs.erase k }).setSlot k b) := by
  have hl : (s₁.dev d).busdevs = s.lists d := by rw [hc.bus.dev, State.lists]
  refine h.relist hc.bus hc.detaching (hc.queues h.queues) ?_ fun k' hk' ↦ ?_
  · rw [hl]
    refine h.plugs.take hk ?_ hb
    exact
      { devs := hc.takes.devs
        life := hc.takes.life
        kind := fun d' ↦ ((dev_setDev s₁ d _ d').2.2).trans (hc.takes.kind d')
        use := fun d' i' ↦ by
          rw [← hc.takes.use]
          exact State.inUse_congr (dev_setDev s₁ d _ d').2.2 rfl rfl
        th := hc.takes.th }
  · rw [hl] at hk'
    have hk' := List.mem_of_mem_erase hk'
    exact ⟨h.descs d k' hk', h.attached d k' hk'⟩

/-- A slot that is not plugged is marked. -/
theorem setSlot (h : Inv s) (hk : (s.devs k).plg = false) (hb : b.plg = false) :
    Inv (s.setSlot k b) :=
  ⟨h.plugs.setSlot hk hb, h.descs, h.attached, h.tree, h.owned, h.once, h.born, h.waiting,
    h.queues⟩

/-- `bus_plug`, by a thread that is there. -/
theorem busPlug (h : Inv s) (hlive : s.life t = .live) {did : Nat}
    (hp : s.busPlug t did = .ok (r, s')) : Inv s' := by
  rcases State.busPlug_cases hp with ⟨-, rfl⟩ | ⟨d, i, devid, s₁, hd, hi, -, -, ho, hret⟩
  · exact h
  · obtain ⟨-, hdid, -, hdet⟩ := h.tree did d hd
    rcases opOpen_ok hdet ho with ⟨hneg, hq⟩ | ⟨hpos, ho⟩
    · rcases hret with ⟨-, -, rfl⟩ | ⟨hpos, -⟩
      · exact h.quiet hq
      · exact absurd hneg (not_lt.2 hpos)
    · rcases hret with ⟨hneg, -⟩ | ⟨-, -, rfl⟩
      · exact absurd hneg (not_lt.2 hpos)
      · have hfree := List.find?_some hi
        rw [Bool.and_eq_true, Option.isNone_iff_eq_none] at hfree
        refine h.plug ho (h.plg_of_none hfree.2) hlive ?_ (hdid ▸ hd)
        exact List.mem_range.1 (List.mem_of_find?_eq_some hi)

/-- `bus_unplug`.  The slot is not plugged afterwards, and no other slot is that was not. -/
theorem busUnplug (h : Inv s) {desc : Nat} (hp : s.busUnplug t desc = .ok (r, s')) :
    Inv s' ∧ s'.life = s.life ∧
      ∀ k, (s'.devs k).plg → (s.devs k).plg ∧ (desc < maxBusDevs → k ≠ (t, desc)) := by
  have hframe : ∀ {s₁ : State} {b : Bdeve}, s₁.devs = s.devs → b.plg = false →
      ∀ k, ((s₁.setSlot (t, desc) b).devs k).plg →
        (s.devs k).plg ∧ (desc < maxBusDevs → k ≠ (t, desc)) := by
    intro s₁ b hs hb k hk
    have hne : k ≠ (t, desc) := by
      rintro rfl
      rw [State.setSlot_self, hb] at hk
      cases hk
    rw [State.setSlot_of_ne hne, hs] at hk
    exact ⟨hk, fun _ ↦ hne⟩
  rcases State.busUnplug_cases hp with
    ⟨hlt, rfl⟩ | ⟨hplg | ⟨d, hplg, hd, hoff⟩, rfl⟩ | ⟨d, s₁, hplg, hd, hc, rfl⟩
  · exact ⟨h, rfl, fun k hk ↦ ⟨hk, fun hd ↦ absurd hd (not_lt.2 hlt)⟩⟩
  · exact ⟨h.setSlot hplg hplg, rfl, hframe rfl hplg⟩
  · rw [(h.online (h.mem_lists hplg hd)).1] at hoff
    cases hoff
  · have hmem := h.mem_lists hplg hd
    have hcl := opClose_ok (fun ht ↦ h.plugs.busy d _ hmem ht) hc
    exact ⟨h.unplug hmem hcl rfl, hcl.bus.life, hframe hcl.bus.devs rfl⟩

/-- `bus_copy`, to a thread that is there. -/
theorem busCopy (h : Inv s) {desc nth : Nat} (hlive : s.life nth = .live)
    (hp : s.busCopy t desc nth = .ok (r, s')) : Inv s' ∧ s'.life = s.life := by
  rcases State.busCopy_cases hp with rfl | ⟨d, devid, s₁, hlt, hdst, -, hplg, hd, hk, hc, hret⟩
  · exact ⟨h, rfl⟩
  · have hmem := h.mem_lists hplg hd
    have huse := (State.inUse_usr hk).1 (h.plugs.busy d _ hmem (.inl hk))
    rcases usrdevClone_ok hk ((h.online hmem).2 hk) huse hc with ⟨hneg, rfl⟩ | ⟨i, rfl, -, -, ho⟩
    · rcases hret with ⟨-, rfl⟩ | ⟨hpos, -⟩
      · exact ⟨h, rfl⟩
      · exact absurd hneg (not_lt.2 hpos)
    · rcases hret with ⟨hneg, -⟩ | ⟨-, rfl⟩
      · exact absurd hneg (not_lt.2 (Int.natCast_nonneg i))
      · exact ⟨h.plug ho hdst hlive hlt (h.attached d _ hmem), ho.bus.life⟩

end Inv

end Mh.Bus
