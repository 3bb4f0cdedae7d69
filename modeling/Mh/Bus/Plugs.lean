import Mh.Bus.Frame

/-!
# Descriptors and client ids

User and hardware devices keep a table of their clients; the other devices do not
(`State.Tabled`).  `Plugs l s` says that the descriptors on the lists `l`, one list a device,
are exactly the ones that are plugged, each on the list of its own device only, and that
each holds an id of its own there, every id in use being held.  The lists are a parameter
because `dev_detach` empties the list of the device before it goes through the slots.

An id is given to a descriptor by `Gives` and taken by `Takes`; what the drivers do when they
open, clone and close is one of these.
-/

namespace Mh.Bus

open Mh.Lib

namespace State

variable (s : State)

/-- The device keeps a table of its clients. -/
def Tabled (d : Nat) : Prop := (s.dev d).kind = .usr ∨ (s.dev d).kind = .hw

/-- The id `i` is in use in the device. -/
def InUse (d i : Nat) : Prop :=
  match (s.dev d).kind with
  | .usr => ((s.usr d).remths i).use
  | .hw => ((s.hw d).remths i).use
  | _ => False

variable {s} {d i : Nat}

theorem inUse_usr (h : (s.dev d).kind = .usr) : s.InUse d i ↔ ((s.usr d).remths i).use := by
  rw [InUse, h]

theorem inUse_hw (h : (s.dev d).kind = .hw) : s.InUse d i ↔ ((s.hw d).remths i).use := by
  rw [InUse, h]

/-- Only a table has ids in use. -/
theorem InUse.tabled (h : s.InUse d i) : s.Tabled d := by
  unfold InUse at h
  split at h
  · next hk => exact .inl hk
  · next hk => exact .inr hk
  · exact h.elim

/-- Whether an id is in use depends on the kind of the device and on its table. -/
theorem inUse_congr {s' : State} (hk : (s'.dev d).kind = (s.dev d).kind)
    (hu : ((s'.usr d).remths i).use = ((s.usr d).remths i).use)
    (hh : ((s'.hw d).remths i).use = ((s.hw d).remths i).use) : s'.InUse d i ↔ s.InUse d i := by
  rw [InUse, InUse, hk, hu, hh]

end State

/-- The descriptors on the lists `l` are the plugged ones, and each holds an id of its
device. -/
structure Plugs (l : Nat → List Slot) (s : State) : Prop where
  listed : ∀ d k, k ∈ l d → (s.devs k).plg ∧ (s.devs k).dev = some d ∧ s.life k.1 = .live
  plugged : ∀ k, (s.devs k).plg → ∃ d, k ∈ l d
  nodup : ∀ d, (l d).Nodup
  busy : ∀ d k, k ∈ l d → s.Tabled d → s.InUse d (s.devs k).devid
  distinct : ∀ d k k', s.Tabled d → k ∈ l d → k' ∈ l d →
    (s.devs k).devid = (s.devs k').devid → k = k'
  held : ∀ d i, s.InUse d i → ∃ k ∈ l d, (s.devs k).devid = i
  small : ∀ d i, s.InUse d i → i < 256
  holder : ∀ d k, k ∈ l d → (s.dev d).kind = .usr →
    ((s.usr d).remths (s.devs k).devid).th = some k.1

/-- `s'` has the buses, threads and kinds of devices of `s`. -/
structure SameSlots (s s' : State) : Prop where
  devs : s'.devs = s.devs
  life : s'.life = s.life
  kind : ∀ d, (s'.dev d).kind = (s.dev d).kind

/-- The same buses have the same slots. -/
theorem SameBus.sameSlots {s s' : State} (h : SameBus s s') : SameSlots s s' :=
  ⟨h.devs, h.life, fun d ↦ by rw [h.dev]⟩

/-- The id `i` of the device `d`, which is free, is given to the thread `t`. -/
structure Gives (s s' : State) (d i t : Nat) : Prop extends SameSlots s s' where
  use : ∀ d' i', s'.InUse d' i' ↔ s.InUse d' i' ∨ s.Tabled d ∧ d' = d ∧ i' = i
  free : s.Tabled d → ¬ s.InUse d i ∧ i < 256
  th : (s.dev d).kind = .usr → ((s'.usr d).remths i).th = some t
  others : ∀ d' i', ¬ (d' = d ∧ i' = i) →
    ((s'.usr d').remths i').th = ((s.usr d').remths i').th

/-- The id `i` of the device `d` is taken back. -/
structure Takes (s s' : State) (d i : Nat) : Prop extends SameSlots s s' where
  use : ∀ d' i', s'.InUse d' i' ↔ s.InUse d' i' ∧ ¬ (d' = d ∧ i' = i)
  th : ∀ d' i', ((s'.usr d').remths i').th = ((s.usr d').remths i').th

namespace Quiet

variable {s s' : State}

/-- A quiet step keeps the ids that are in use. -/
theorem inUse (h : Quiet s s') (d i : Nat) : s'.InUse d i ↔ s.InUse d i :=
  State.inUse_congr (by rw [h.dev]) ((h.usr d).use i) (h.hw d i)

end Quiet

namespace Plugs

variable {l l' : Nat → List Slot} {s s' s'' : State} {d i t : Nat} {k : Slot} {b : Bdeve}

/-- What `Plugs` depends on. -/
theorem congr (h : Plugs l s) (hs : SameSlots s s') (huse : ∀ d i, s'.InUse d i ↔ s.InUse d i)
    (hth : ∀ d i, ((s'.usr d).remths i).th = ((s.usr d).remths i).th) : Plugs l s' where
  listed d k hk := by
    rw [hs.devs, hs.life]
    exact h.listed d k hk
  plugged k hk := by
    rw [hs.devs] at hk
    exact h.plugged k hk
  nodup := h.nodup
  busy d k hk ht := by
    rw [State.Tabled, hs.kind] at ht
    rw [hs.devs, huse]
    exact h.busy d k hk ht
  distinct d k k' ht hk hk' he := by
    rw [State.Tabled, hs.kind] at ht
    rw [hs.devs] at he
    exact h.distinct d k k' ht hk hk' he
  held d i hi := by
    rw [huse] at hi
    rw [hs.devs]
    exact h.held d i hi
  small d i hi := by
    rw [huse] at hi
    exact h.small d i hi
  holder d k hk hu := by
    rw [hs.kind] at hu
    rw [hs.devs, hth]
    exact h.holder d k hk hu

/-- A quiet step keeps the descriptors. -/
theorem quiet (h : Plugs l s) (hq : Quiet s s') : Plugs l s' :=
  h.congr hq.sameSlots hq.inUse fun d i ↦ (hq.usr d).th i

/-- The order of the lists does not matter. -/
theorem perm (h : Plugs l s) (hl : ∀ d, (l d).Perm (l' d)) : Plugs l' s where
  listed d k hk := h.listed d k ((hl d).mem_iff.2 hk)
  plugged k hk := by
    obtain ⟨d, hd⟩ := h.plugged k hk
    exact ⟨d, (hl d).mem_iff.1 hd⟩
  nodup d := (hl d).nodup_iff.1 (h.nodup d)
  busy d k hk := h.busy d k ((hl d).mem_iff.2 hk)
  distinct d k k' ht hk hk' :=
    h.distinct d k k' ht ((hl d).mem_iff.2 hk) ((hl d).mem_iff.2 hk')
  held d i hi := by
    obtain ⟨k, hk, he⟩ := h.held d i hi
    exact ⟨k, (hl d).mem_iff.1 hk, he⟩
  small := h.small
  holder d k hk := h.holder d k ((hl d).mem_iff.2 hk)

/-- A plugged descriptor is on one list only. -/
theorem unique {d' : Nat} (h : Plugs l s) (hk : k ∈ l d) (hk' : k ∈ l d') : d' = d :=
  Option.some.inj ((h.listed d' k hk').2.1.symm.trans (h.listed d k hk).2.1)

/-- A descriptor that is not plugged is on no list. -/
theorem not_mem (h : Plugs l s) (hk : (s.devs k).plg = false) (d : Nat) : k ∉ l d := by
  intro hm
  have := (h.listed d k hm).1
  rw [hk] at this
  cases this

/-- A descriptor that is not plugged is plugged into `d` with an id that is given to its
thread. -/
theorem give (h : Plugs l s) (hg : Gives s s' d i k.1) (hk : (s.devs k).plg = false)
    (hlive : s.life k.1 = .live) :
    Plugs (Function.update l d (k :: l d)) (s'.setSlot k ⟨true, true, i, some d⟩) := by
  have hmem : ∀ d' k', k' ∈ Function.update l d (k :: l d) d' ↔
      k' ∈ l d' ∨ d' = d ∧ k' = k := by
    intro d' k'
    rcases eq_or_ne d' d with rfl | hd
    · rw [Function.update_self, List.mem_cons, or_comm, and_iff_right rfl]
    · rw [Function.update_of_ne hd, or_iff_left fun hh ↦ hd hh.1]
  have hdevs : ∀ d' k', k' ∈ l d' → (s'.setSlot k ⟨true, true, i, some d⟩).devs k' = s.devs k' := by
    intro d' k' hk'
    rw [State.setSlot_of_ne, hg.devs]
    rintro rfl
    exact h.not_mem hk d' hk'
  have htab : ∀ d', (s'.setSlot k ⟨true, true, i, some d⟩).Tabled d' ↔ s.Tabled d' := by
    intro d'
    change s'.Tabled d' ↔ _
    rw [State.Tabled, State.Tabled, hg.kind]
  -- an id that another descriptor holds is not the one that is given
  have hother : ∀ {k'}, s.Tabled d → k' ∈ l d → (s.devs k').devid ≠ i := by
    rintro k' ht hk' rfl
    exact (hg.free ht).1 (h.busy d k' hk' ht)
  refine ⟨fun d' k' hk' ↦ ?_, fun k' hk' ↦ ?_, fun d' ↦ ?_, fun d' k' hk' ht ↦ ?_,
    fun d' k₁ k₂ ht hk₁ hk₂ he ↦ ?_, fun d' i' hi ↦ ?_, fun d' i' hi ↦ ?_, fun d' k' hk' hu ↦ ?_⟩
  · rcases (hmem d' k').1 hk' with hk' | ⟨rfl, rfl⟩
    · rw [hdevs d' k' hk']
      change _ ∧ _ ∧ s'.life k'.1 = .live
      rw [hg.life]
      exact h.listed d' k' hk'
    · rw [State.setSlot_self]
      refine ⟨rfl, rfl, ?_⟩
      change s'.life k'.1 = .live
      rw [hg.life, hlive]
  · rcases eq_or_ne k' k with rfl | hne
    · exact ⟨d, (hmem d k').2 (.inr ⟨rfl, rfl⟩)⟩
    · rw [State.setSlot_of_ne hne, hg.devs] at hk'
      obtain ⟨d', hd'⟩ := h.plugged k' hk'
      exact ⟨d', (hmem d' k').2 (.inl hd')⟩
  · rcases eq_or_ne d' d with rfl | hd
    · rw [Function.update_self]
      exact List.nodup_cons.2 ⟨h.not_mem hk d', h.nodup d'⟩
    · rw [Function.update_of_ne hd]
      exact h.nodup d'
  · change s'.InUse d' _
    rw [hg.use]
    rcases (hmem d' k').1 hk' with hk' | ⟨rfl, rfl⟩
    · rw [hdevs d' k' hk']
      exact .inl (h.busy d' k' hk' ((htab d').1 ht))
    · rw [State.setSlot_self]
      exact .inr ⟨(htab d').1 ht, rfl, rfl⟩
  · have hts := (htab d').1 ht
    rcases (hmem d' k₁).1 hk₁ with hl₁ | ⟨hd₁, rfl⟩ <;>
      rcases (hmem d' k₂).1 hk₂ with hl₂ | ⟨hd₂, rfl⟩
    · rw [hdevs _ _ hl₁, hdevs _ _ hl₂] at he
      exact h.distinct d' k₁ k₂ hts hl₁ hl₂ he
    · rw [hdevs _ _ hl₁, State.setSlot_self] at he
      rw [hd₂] at hts hl₁
      exact absurd he (hother hts hl₁)
    · rw [hdevs _ _ hl₂, State.setSlot_self] at he
      rw [hd₁] at hts hl₂
      exact absurd he.symm (hother hts hl₂)
    · rfl
  · change s'.InUse d' i' at hi
    rcases (hg.use d' i').1 hi with hi | ⟨-, rfl, rfl⟩
    · obtain ⟨k', hk', he⟩ := h.held d' i' hi
      exact ⟨k', (hmem d' k').2 (.inl hk'), by rw [hdevs d' k' hk', he]⟩
    · exact ⟨k, (hmem d' k).2 (.inr ⟨rfl, rfl⟩), by rw [State.setSlot_self]⟩
  · change s'.InUse d' i' at hi
    rcases (hg.use d' i').1 hi with hi | ⟨ht, rfl, rfl⟩
    · exact h.small d' i' hi
    · exact (hg.free ht).2
  · change (s'.dev d').kind = .usr at hu
    change ((s'.usr d').remths _).th = _
    rw [hg.kind] at hu
    rcases (hmem d' k').1 hk' with hl | ⟨rfl, rfl⟩
    · rw [hdevs d' k' hl, hg.others, h.holder d' k' hl hu]
      rintro ⟨rfl, he⟩
      exact hother (.inl hu) hl he
    · rw [State.setSlot_self, hg.th hu]

/-- A descriptor that is plugged into `d` is unplugged, and its id is taken back. -/
theorem take (h : Plugs l s) (hk : k ∈ l d) (ht : Takes s s' d (s.devs k).devid)
    (hb : b.plg = false) : Plugs (Function.update l d ((l d).erase k)) (s'.setSlot k b) := by
  have hmem : ∀ d' k', k' ∈ Function.update l d ((l d).erase k) d' ↔ k' ∈ l d' ∧ k' ≠ k := by
    intro d' k'
    rcases eq_or_ne d' d with rfl | hd
    · rw [Function.update_self, (h.nodup d').mem_erase_iff, and_comm]
    · rw [Function.update_of_ne hd, iff_self_and]
      rintro hk' rfl
      exact hd (h.unique hk hk')
  have hdevs : ∀ {k'}, k' ≠ k → (s'.setSlot k b).devs k' = s.devs k' := by
    intro k' hne
    rw [State.setSlot_of_ne hne, ht.devs]
  have htab : ∀ d', (s'.setSlot k b).Tabled d' ↔ s.Tabled d' := by
    intro d'
    change s'.Tabled d' ↔ _
    rw [State.Tabled, State.Tabled, ht.kind]
  refine ⟨fun d' k' hk' ↦ ?_, fun k' hk' ↦ ?_, fun d' ↦ ?_, fun d' k' hk' htd ↦ ?_,
    fun d' k₁ k₂ htd hk₁ hk₂ he ↦ ?_, fun d' i' hi ↦ ?_, fun d' i' hi ↦ ?_, fun d' k' hk' hu ↦ ?_⟩
  · obtain ⟨hk', hne⟩ := (hmem d' k').1 hk'
    rw [hdevs hne]
    change _ ∧ _ ∧ s'.life k'.1 = .live
    rw [ht.life]
    exact h.listed d' k' hk'
  · rcases eq_or_ne k' k with rfl | hne
    · rw [State.setSlot_self, hb] at hk'
      cases hk'
    · rw [hdevs hne] at hk'
      obtain ⟨d', hd'⟩ := h.plugged k' hk'
      exact ⟨d', (hmem d' k').2 ⟨hd', hne⟩⟩
  · rcases eq_or_ne d' d with rfl | hd
    · rw [Function.update_self]
      exact (h.nodup d').erase k
    · rw [Function.update_of_ne hd]
      exact h.nodup d'
  · obtain ⟨hl, hne⟩ := (hmem d' k').1 hk'
    have hts := (htab d').1 htd
    rw [hdevs hne]
    refine (ht.use d' _).2 ⟨h.busy d' k' hl hts, ?_⟩
    rintro ⟨rfl, he⟩
    exact hne (h.distinct d' k' k hts hl hk he)
  · obtain ⟨hk₁, hne₁⟩ := (hmem d' k₁).1 hk₁
    obtain ⟨hk₂, hne₂⟩ := (hmem d' k₂).1 hk₂
    rw [hdevs hne₁, hdevs hne₂] at he
    exact h.distinct d' k₁ k₂ ((htab d').1 htd) hk₁ hk₂ he
  · obtain ⟨hi, hne⟩ := (ht.use d' i').1 hi
    obtain ⟨k', hk', he⟩ := h.held d' i' hi
    have hk'ne : k' ≠ k := by
      rintro rfl
      exact hne ⟨h.unique hk hk', he.symm⟩
    exact ⟨k', (hmem d' k').2 ⟨hk', hk'ne⟩, by rw [hdevs hk'ne, he]⟩
  · exact h.small d' i' ((ht.use d' i').1 hi).1
  · obtain ⟨hk', hne⟩ := (hmem d' k').1 hk'
    change (s'.dev d').kind = .usr at hu
    change ((s'.usr d').remths _).th = _
    rw [ht.kind] at hu
    rw [hdevs hne, ht.th, h.holder d' k' hk' hu]

/-- A slot that is not plugged is written and stays so. -/
theorem setSlot (h : Plugs l s) (hk : (s.devs k).plg = false) (hb : b.plg = false) :
    Plugs l (s.setSlot k b) := by
  have hdevs : ∀ d' k', k' ∈ l d' → (s.setSlot k b).devs k' = s.devs k' := by
    intro d' k' hk'
    refine State.setSlot_of_ne ?_
    rintro rfl
    exact h.not_mem hk d' hk'
  refine ⟨fun d' k' hk' ↦ ?_, fun k' hk' ↦ ?_, h.nodup, fun d' k' hk' ht ↦ ?_,
    fun d' k₁ k₂ ht hk₁ hk₂ he ↦ ?_, fun d' i' hi ↦ ?_, h.small, fun d' k' hk' hu ↦ ?_⟩
  · rw [hdevs d' k' hk']
    exact h.listed d' k' hk'
  · refine h.plugged k' ?_
    rcases eq_or_ne k' k with rfl | hne
    · rw [State.setSlot_self, hb] at hk'
      cases hk'
    · rwa [State.setSlot_of_ne hne] at hk'
  · rw [hdevs d' k' hk']
    exact h.busy d' k' hk' ht
  · rw [hdevs d' k₁ hk₁, hdevs d' k₂ hk₂] at he
    exact h.distinct d' k₁ k₂ ht hk₁ hk₂ he
  · obtain ⟨k', hk', he⟩ := h.held d' i' hi
    exact ⟨k', hk', by rw [hdevs d' k' hk', he]⟩
  · rw [hdevs d' k' hk']
    exact h.holder d' k' hk' hu

end Plugs

end Mh.Bus
