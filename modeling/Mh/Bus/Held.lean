import Mh.Bus.Runs
import Mh.Lib.Tally

/-!
# What a descriptor holds

The mappings and the interrupt registrations of a descriptor are recorded twice: in the page
tables and on the interrupt lines, and in the entry of the client table that its driver finds
by the id that the bus has stored.  `RInv` says that the two are a `Ledger`, for the pages as
for the registrations.  The id leads back to the descriptor for the devices with a table, as
they give different ids to their descriptors, and for the platform device as long as it has
no more than one (`PltInv`).
-/

namespace Mh.Bus

open Mh.Lib

namespace State

variable (s : State)

/-- The mappings and the registrations in the entry `id` of a client table. -/
def client (d id : Nat) : List Nat × List Nat :=
  match (s.dev d).kind with
  | .hw => (((s.hw d).remths id).hwmaps, ((s.hw d).remths id).hwsigs)
  | .plt => ((s.platformRems id).pltmaps, (s.platformRems id).pltsigs)
  | .usr | .sys | .klog => ([], [])

/-- The mappings and the registrations that the driver finds for a descriptor. -/
def held (k : Slot) : List Nat × List Nat :=
  if (s.devs k).plg then
    match (s.devs k).dev with
    | some d => s.client d (s.devs k).devid
    | none => ([], [])
  else ([], [])

/-- The pages that the driver finds for a descriptor. -/
def pages (k : Slot) : List (Nat × Nat) := (s.held k).1.map fun va ↦ (k.1, vpn va)

/-- The registrations that the driver finds for a descriptor. -/
def keys (k : Slot) : List Nat := (s.held k).2

/-- The page was mapped through the descriptor. -/
def Mapped (p : Nat × Nat) (k : Slot) : Prop := (s.io p).map Iomap.via = some k

/-- The registration was made through the descriptor. -/
def Registered (key : Nat) (k : Slot) : Prop :=
  ∃ irq, ∃ r ∈ s.irqsigs irq, r.key = key ∧ r.via = k

variable {s} {d i va : Nat} {k k' : Slot} {l : List Slot} {b : Bdeve}

/-- A descriptor that is not plugged has no entry. -/
theorem held_of_unplugged (h : (s.devs k).plg = false) : s.held k = ([], []) := by
  rw [held, h]
  rfl

/-- The entry of a plugged descriptor. -/
theorem held_of_plugged (h : (s.devs k).plg) (hd : (s.devs k).dev = some d) :
    s.held k = s.client d (s.devs k).devid := by
  rw [held, if_pos h, hd]

/-- The devices of the other kinds keep no such lists. -/
theorem client_other (hhw : (s.dev d).kind ≠ .hw) (hplt : (s.dev d).kind ≠ .plt) :
    s.client d i = ([], []) := by
  unfold client
  split
  · next h => exact absurd h hhw
  · next h => exact absurd h hplt
  all_goals rfl

/-- What an entry depends on. -/
theorem client_congr {s' : State} (hk : (s'.dev d).kind = (s.dev d).kind)
    (hhw : (s.dev d).kind = .hw → ((s'.hw d).remths i).hwmaps = ((s.hw d).remths i).hwmaps ∧
      ((s'.hw d).remths i).hwsigs = ((s.hw d).remths i).hwsigs)
    (hplt : (s.dev d).kind = .plt → (s'.platformRems i).pltmaps = (s.platformRems i).pltmaps ∧
      (s'.platformRems i).pltsigs = (s.platformRems i).pltsigs) :
    s'.client d i = s.client d i := by
  unfold client
  rw [hk]
  split
  · next h => rw [(hhw h).1, (hhw h).2]
  · next h => rw [(hplt h).1, (hplt h).2]
  all_goals rfl

/-- What the driver finds for a descriptor depends on its slot and on the entry. -/
theorem held_congr {s' : State} (hs : s'.devs k = s.devs k)
    (hc : ∀ d, (s.devs k).plg → (s.devs k).dev = some d →
      s'.client d (s.devs k).devid = s.client d (s.devs k).devid) : s'.held k = s.held k := by
  unfold held
  rw [hs]
  split
  · next hplg =>
    split
    · next d hd => exact hc d hplg hd
    · rfl
  · rfl

/-- A list and a slot change: what the drivers find for the other descriptors is the same. -/
theorem held_setSlot_of_ne (h : k' ≠ k) :
    ((s.setDev d { s.dev d with busdevs := l }).setSlot k b).held k' = s.held k' :=
  held_congr (setSlot_of_ne h) fun d' _ _ ↦
    client_congr (Inv.dev_setDev s d l d').2.2 (fun _ ↦ ⟨rfl, rfl⟩) fun _ ↦ ⟨rfl, rfl⟩

/-- The other descriptors, where the slot is cleared. -/
theorem held_unplug (hb : b.plg = false) :
    ((s.setDev d { s.dev d with busdevs := l }).setSlot k b).held k' =
      if k' = k then ([], []) else s.held k' := by
  split
  · next h =>
    subst h
    refine held_of_unplugged ?_
    rw [setSlot_self, hb]
  · next h => exact held_setSlot_of_ne h

/-- A descriptor is plugged: the entry of its id becomes what is found for it. -/
theorem held_plug : (s.plug k d i).held k' = if k' = k then s.client d i else s.held k' := by
  split
  · next h =>
    subst h
    unfold State.plug
    rw [held_of_plugged (d := d) (by rw [setSlot_self]) (by rw [setSlot_self]), setSlot_self]
    exact client_congr (Inv.dev_setDev s d _ d).2.2 (fun _ ↦ ⟨rfl, rfl⟩) fun _ ↦ ⟨rfl, rfl⟩
  · next h => exact held_setSlot_of_ne h

end State

/-! ## The platform device -/

/-- The platform device has at most one descriptor, which has the id 0, and no entry is in use
but the one of this descriptor. -/
structure PltInv (s : State) : Prop where
  kind : ∀ d, (s.dev d).kind = .plt ↔ d = State.pltNo
  born : State.pltNo < s.ndev
  one : ∀ k ∈ s.lists State.pltNo, ∀ k' ∈ s.lists State.pltNo, k = k'
  id : ∀ k ∈ s.lists State.pltNo, (s.devs k).devid = 0
  use : ∀ i, (s.platformRems i).inUse ↔ i = 0 ∧ s.lists State.pltNo ≠ []
  clear : ∀ i, (s.platformRems i).inUse = false → s.platformRems i = ⟨false, [], []⟩

/-- `s'` has the descriptors of the platform device that `s` has, and the same entries in
use. -/
structure PltFrame (s s' : State) : Prop where
  list : s'.lists State.pltNo = s.lists State.pltNo
  devid : ∀ k ∈ s.lists State.pltNo, (s'.devs k).devid = (s.devs k).devid
  kind : ∀ d, (s'.dev d).kind = .plt ↔ (s.dev d).kind = .plt
  ndev : s.ndev ≤ s'.ndev
  use : ∀ i, (s'.platformRems i).inUse = (s.platformRems i).inUse
  clear : ∀ i, (s.platformRems i).inUse = false → s'.platformRems i = s.platformRems i

namespace PltFrame

variable {s s' s'' : State}

/-- Nothing happens. -/
theorem refl (s : State) : PltFrame s s :=
  ⟨rfl, fun _ _ ↦ rfl, fun _ ↦ Iff.rfl, le_rfl, fun _ ↦ rfl, fun _ _ ↦ rfl⟩

/-- One step after another. -/
theorem trans (h : PltFrame s s') (h' : PltFrame s' s'') : PltFrame s s'' where
  list := h'.list.trans h.list
  devid k hk := (h'.devid k (by rwa [h.list])).trans (h.devid k hk)
  kind d := (h'.kind d).trans (h.kind d)
  ndev := h.ndev.trans h'.ndev
  use i := (h'.use i).trans (h.use i)
  clear i hi := (h'.clear i (by rwa [h.use])).trans (h.clear i hi)

/-- The invariant of the platform device is kept. -/
theorem pltInv (h : PltFrame s s') (hp : PltInv s) : PltInv s' where
  kind d := (h.kind d).trans (hp.kind d)
  born := hp.born.trans_le h.ndev
  one := by
    rw [h.list]
    exact hp.one
  id k hk := by
    rw [h.list] at hk
    rw [h.devid k hk]
    exact hp.id k hk
  use i := by
    rw [h.use, h.list]
    exact hp.use i
  clear i hi := by
    rw [h.use] at hi
    rw [h.clear i hi]
    exact hp.clear i hi

end PltFrame

/-! ## Entries and descriptors -/

section Entries

variable {s : State} {d : Nat} {k k' : Slot}

/-- A write to the entry of a descriptor of a hardware device is found for that descriptor
only. -/
theorem held_setHwRem {e : HwRemth} (hi : Inv s) (hk : k ∈ s.lists d)
    (hkind : (s.dev d).kind = .hw) :
    (s.setHw d ((s.hw d).setRem (s.devs k).devid e)).held k' =
      if k' = k then (e.hwmaps, e.hwsigs) else s.held k' := by
  obtain ⟨hplg, hdev, -⟩ := hi.plugs.listed d k hk
  split
  · next h =>
    subst h
    rw [State.held_of_plugged (s := s.setHw d _) hplg hdev, State.client]
    simp only [State.setHw_self]
    rw [show ((s.setHw d _).dev d).kind = .hw from hkind]
    simp only [State.setHw, Hwdev.setRem_self]
  · next hne =>
    refine State.held_congr rfl fun d' hplg' hd' ↦ State.client_congr rfl (fun _ ↦ ?_)
      fun _ ↦ ⟨rfl, rfl⟩
    rcases eq_or_ne d' d with rfl | hd
    · rw [State.setHw_self, Hwdev.setRem_of_ne]
      · exact ⟨rfl, rfl⟩
      · exact fun he ↦ hne (hi.plugs.distinct d' k' k (.inr hkind) (hi.mem_lists hplg' hd') hk he)
    · rw [State.setHw_of_ne hd]
      exact ⟨rfl, rfl⟩

/-- The same for the descriptor of the platform device. -/
theorem held_setPlt {e : PltRem} (hi : Inv s) (hp : PltInv s) (hk : k ∈ s.lists State.pltNo) :
    (s.setPlt (s.devs k).devid e).held k' =
      if k' = k then (e.pltmaps, e.pltsigs) else s.held k' := by
  obtain ⟨hplg, hdev, -⟩ := hi.plugs.listed _ k hk
  split
  · next h =>
    subst h
    rw [State.held_of_plugged (s := s.setPlt _ _) hplg hdev, State.client,
      show ((s.setPlt _ _).dev _).kind = .plt from (hp.kind _).2 rfl]
    simp only [State.setPlt, Function.update_self]
  · next hne =>
    refine State.held_congr rfl fun d' hplg' hd' ↦ State.client_congr rfl (fun _ ↦ ⟨rfl, rfl⟩)
      fun hkind ↦ ?_
    obtain rfl := (hp.kind d').1 hkind
    exact absurd (hp.one k' (hi.mem_lists hplg' hd') k hk) hne

end Entries

/-! ## The ledgers -/

/-- What the drivers find for the descriptors is what was mapped and registered through
them. -/
structure RInv (s : State) : Prop where
  pages : Ledger s.pages s.Mapped
  keys : Ledger s.keys s.Registered
  fresh : ∀ key k, s.Registered key k → key < s.nsig

/-- `s'` has the mappings, registrations and entries of `s`. -/
structure Steady (s s' : State) : Prop extends PltFrame s s' where
  held : ∀ k, s'.held k = s.held k
  io : s'.io = s.io
  reg : ∀ key k, s'.Registered key k ↔ s.Registered key k
  nsig : s'.nsig = s.nsig

namespace Steady

variable {s s' s'' : State}

/-- Nothing happens. -/
theorem refl (s : State) : Steady s s :=
  ⟨.refl s, fun _ ↦ rfl, rfl, fun _ _ ↦ Iff.rfl, rfl⟩

/-- One step after another. -/
theorem trans (h : Steady s s') (h' : Steady s' s'') : Steady s s'' where
  toPltFrame := h.toPltFrame.trans h'.toPltFrame
  held k := (h'.held k).trans (h.held k)
  io := h'.io.trans h.io
  reg key k := (h'.reg key k).trans (h.reg key k)
  nsig := h'.nsig.trans h.nsig

end Steady

namespace RInv

variable {s s' : State} {k : Slot} {va key : Nat}

/-- What the ledgers depend on. -/
theorem congr (h : RInv s) (hheld : ∀ k, s'.held k = s.held k) (hio : s'.io = s.io)
    (hreg : ∀ key k, s'.Registered key k ↔ s.Registered key k) (hnsig : s'.nsig = s.nsig) :
    RInv s' where
  pages := h.pages.congr (fun k ↦ by rw [State.pages, State.pages, hheld]) fun p k ↦ by
    rw [State.Mapped, State.Mapped, hio]
  keys := h.keys.congr (fun k ↦ by rw [State.keys, State.keys, hheld]) hreg
  fresh key k hk := by
    rw [hreg] at hk
    rw [hnsig]
    exact h.fresh key k hk

/-- A step that changes nothing of this. -/
theorem steady (h : RInv s) (hs : Steady s s') : RInv s' :=
  h.congr hs.held hs.io hs.reg hs.nsig

/-- A page is mapped through the descriptor `k`. -/
theorem map {pfn : Nat} (h : RInv s) (hnone : s.io (k.1, vpn va) = none)
    (hheld : ∀ k', s'.held k' =
      if k' = k then (va :: (s.held k).1, (s.held k).2) else s.held k')
    (hio : s'.io = Function.update s.io (k.1, vpn va) (some ⟨pfn, k⟩))
    (hreg : s'.irqsigs = s.irqsigs) (hnsig : s'.nsig = s.nsig) : RInv s' where
  pages := by
    refine h.pages.acquire (a := (k.1, vpn va)) (k := k) (fun k' hk' ↦ ?_) ?_
      (fun k' hne ↦ ?_) fun p k' ↦ ?_
    · rw [State.Mapped, hnone] at hk'
      cases hk'
    · rw [State.pages, hheld, if_pos rfl]
      rfl
    · rw [State.pages, State.pages, hheld, if_neg hne]
    · rw [State.Mapped, State.Mapped, hio, Function.update_apply]
      split
      · next hp =>
        subst hp
        rw [hnone]
        simp [eq_comm]
      · next hp => simp [hp]
  keys := by
    refine h.keys.congr (fun k' ↦ ?_) fun key k' ↦ by rw [State.Registered, State.Registered, hreg]
    rw [State.keys, State.keys, hheld]
    split
    · next hk => rw [hk]
    · rfl
  fresh key k' hk := by
    rw [State.Registered, hreg] at hk
    rw [hnsig]
    exact h.fresh key k' hk

/-- Taking one element off a list takes its image off the list of the images. -/
theorem mem_map_erase {α β : Type} [DecidableEq α] {f : α → β} {l : List α} {a : α} {b : β}
    (h : (l.map f).Nodup) (ha : a ∈ l) :
    b ∈ (l.erase a).map f ↔ b ∈ l.map f ∧ b ≠ f a := by
  have hp := (List.perm_cons_erase ha).map f
  rw [hp.nodup_iff, List.map_cons, List.nodup_cons] at h
  rw [hp.mem_iff, List.map_cons, List.mem_cons]
  constructor
  · intro hb
    refine ⟨.inr hb, ?_⟩
    rintro rfl
    exact h.1 hb
  · rintro ⟨hb | hb, hne⟩
    · exact absurd hb hne
    · exact hb

/-- A page is unmapped through the descriptor `k`. -/
theorem unmap (h : RInv s) (hva : va ∈ (s.held k).1)
    (hheld : ∀ k', s'.held k' =
      if k' = k then ((s.held k).1.erase va, (s.held k).2) else s.held k')
    (hio : s'.io = Function.update s.io (k.1, vpn va) none)
    (hreg : s'.irqsigs = s.irqsigs) (hnsig : s'.nsig = s.nsig) : RInv s' where
  pages := by
    have hnd := h.pages.nodup k
    refine h.pages.release (k := k) (p := fun p ↦ p = (k.1, vpn va))
      (L := ((s.held k).1.erase va).map fun va ↦ (k.1, vpn va)) ?_ (fun p ↦ ?_) ?_ ?_
      (fun k' hne ↦ ?_) fun p k' ↦ ?_
    · exact hnd.sublist (List.erase_sublist.map _)
    · exact mem_map_erase hnd hva
    · rintro p rfl
      exact List.mem_map_of_mem hva
    · rw [State.pages, hheld, if_pos rfl]
    · rw [State.pages, State.pages, hheld, if_neg hne]
    · rw [State.Mapped, State.Mapped, hio, Function.update_apply]
      split
      · next hp => simp [hp]
      · next hp => simp [hp]
  keys := by
    refine h.keys.congr (fun k' ↦ ?_) fun key k' ↦ by rw [State.Registered, State.Registered, hreg]
    rw [State.keys, State.keys, hheld]
    split
    · next hk => rw [hk]
    · rfl
  fresh key k' hk := by
    rw [State.Registered, hreg] at hk
    rw [hnsig]
    exact h.fresh key k' hk

/-- A registration is made through the descriptor `k`. -/
theorem register {irq sig : Nat} (h : RInv s) (hheld : ∀ k', s'.held k' =
      if k' = k then ((s.held k).1, s.nsig :: (s.held k).2) else s.held k')
    (hio : s'.io = s.io)
    (hreg : s'.irqsigs =
      Function.update s.irqsigs irq (⟨s.nsig, k.1, sig, false, k⟩ :: s.irqsigs irq))
    (hnsig : s'.nsig = s.nsig + 1) : RInv s' := by
  have hiff : ∀ key k', s'.Registered key k' ↔
      s.Registered key k' ∨ key = s.nsig ∧ k' = k := by
    intro key k'
    simp only [State.Registered, hreg, Function.update_apply]
    constructor
    · rintro ⟨i, r, hr, hkey, hvia⟩
      split at hr
      · rcases List.mem_cons.1 hr with rfl | hr
        · exact .inr ⟨hkey.symm, hvia.symm⟩
        · exact .inl ⟨irq, r, hr, hkey, hvia⟩
      · exact .inl ⟨i, r, hr, hkey, hvia⟩
    · rintro (⟨i, r, hr, hkey, hvia⟩ | ⟨rfl, rfl⟩)
      · refine ⟨i, r, ?_, hkey, hvia⟩
        split
        · next hi =>
          subst hi
          exact List.mem_cons_of_mem _ hr
        · exact hr
      · exact ⟨irq, _, by rw [if_pos rfl]; exact List.mem_cons_self, rfl, rfl⟩
  refine ⟨?_, ?_, fun key k' hk ↦ ?_⟩
  · refine h.pages.congr (fun k' ↦ ?_) fun p k' ↦ by rw [State.Mapped, State.Mapped, hio]
    rw [State.pages, State.pages, hheld]
    split
    · next hk => rw [hk]
    · rfl
  · refine h.keys.acquire (a := s.nsig) (k := k) (fun k' hk' ↦ ?_) ?_ (fun k' hne ↦ ?_) hiff
    · exact lt_irrefl _ (h.fresh _ k' hk')
    · rw [State.keys, hheld, if_pos rfl]
      rfl
    · rw [State.keys, State.keys, hheld, if_neg hne]
  · rw [hnsig]
    rcases (hiff key k').1 hk with hk | ⟨rfl, -⟩
    · exact (h.fresh key k' hk).trans (Nat.lt_succ_self _)
    · exact Nat.lt_succ_self _

/-- The descriptor `k` gives back all that its driver finds for it. -/
theorem clear (h : RInv s)
    (hheld : ∀ k', s'.held k' = if k' = k then ([], []) else s.held k')
    (hio : ∀ p, s'.io p = if p ∈ s.pages k then none else s.io p)
    (hreg : ∀ irq, s'.irqsigs irq = (s.irqsigs irq).filter fun r ↦ r.key ∉ s.keys k)
    (hnsig : s'.nsig = s.nsig) : RInv s' := by
  have hiff : ∀ key k', s'.Registered key k' ↔ s.Registered key k' ∧ key ∉ s.keys k := by
    intro key k'
    simp only [State.Registered, hreg, List.mem_filter, decide_eq_true_eq]
    constructor
    · rintro ⟨i, r, ⟨hr, hk⟩, rfl, hvia⟩
      exact ⟨⟨i, r, hr, rfl, hvia⟩, hk⟩
    · rintro ⟨⟨i, r, hr, rfl, hvia⟩, hk⟩
      exact ⟨i, r, ⟨hr, hk⟩, rfl, hvia⟩
  refine ⟨h.pages.clear (k := k) ?_ (fun k' hne ↦ ?_) fun p k' ↦ ?_,
    h.keys.clear (k := k) ?_ (fun k' hne ↦ ?_) hiff, fun key k' hk ↦ ?_⟩
  · rw [State.pages, hheld, if_pos rfl]
    rfl
  · rw [State.pages, State.pages, hheld, if_neg hne]
  · rw [State.Mapped, State.Mapped, hio]
    split
    · next hp => simp [hp]
    · next hp => simp [hp]
  · rw [State.keys, hheld, if_pos rfl]
  · rw [State.keys, State.keys, hheld, if_neg hne]
  · rw [hnsig]
    exact h.fresh key k' ((hiff key k').1 hk).1

/-- Clearing a descriptor is exact: what goes is what was mapped and registered through
it. -/
theorem clear_exact (h : RInv s)
    (hio : ∀ p, s'.io p = if p ∈ s.pages k then none else s.io p)
    (hreg : ∀ irq, s'.irqsigs irq = (s.irqsigs irq).filter fun r ↦ r.key ∉ s.keys k) :
    (∀ p, s'.io p = if (s.io p).map Iomap.via = some k then none else s.io p) ∧
    ∀ irq, s'.irqsigs irq = (s.irqsigs irq).filter fun r ↦ r.via ≠ k := by
  refine ⟨fun p ↦ ?_, fun irq ↦ ?_⟩
  · rw [hio]
    exact if_congr (h.pages.mem p k).symm rfl rfl
  · rw [hreg]
    refine List.filter_congr fun r hr ↦ ?_
    have hiff := h.keys.mem_iff_of_own (k := k) ⟨irq, r, hr, rfl, rfl⟩
    exact decide_eq_decide.2 (not_congr hiff)

end RInv

end Mh.Bus
