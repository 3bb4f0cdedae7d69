import Mh.Bus.Inv

/-!
# Every step keeps the invariant

The functions that work on whole buses, devices and threads: `bus_remove`, `dev_detach` and
`usrdev_destroy`, the creation of devices, `thfork`, `__exit`, `do_zombie` and `childstat`;
and, from these and the functions of the bus, `Inv.step` and `Inv.run`.
-/

namespace Mh.Bus

open Mh.Lib

variable {s s' s₁ : State} {t d i id did : Nat} {k : Slot} {b : Bdeve} {r : Int}

/-! ## Destroying a device -/

/-- Slots have been unplugged from the device `d`, which is being destroyed. -/
structure Detached (s s' : State) (d : Nat) : Prop where
  dev : s'.dev = s.dev
  ndev : s'.ndev = s.ndev
  tree : s'.tree = s.tree
  next : s'.next = s.next
  life : s'.life = s.life
  zombies : s'.zombies = s.zombies
  usrdevs : s'.usrdevs = s.usrdevs
  plg : ∀ k, (s'.devs k).plg → (s.devs k).plg
  usr : ∀ d', d' ≠ d → s'.usr d' = s.usr d'
  detaching : (s'.usr d).detaching = (s.usr d).detaching
  polls : (s'.usr d).polls = (s.usr d).polls

namespace Detached

/-- No slot. -/
theorem refl (s : State) (d : Nat) : Detached s s d :=
  ⟨rfl, rfl, rfl, rfl, rfl, rfl, rfl, fun _ hk ↦ hk, fun _ _ ↦ rfl, rfl, rfl⟩

/-- One slot after another. -/
theorem trans {s'' : State} (h : Detached s s' d) (h' : Detached s' s'' d) :
    Detached s s'' d where
  dev := h'.dev.trans h.dev
  ndev := h'.ndev.trans h.ndev
  tree := h'.tree.trans h.tree
  next := h'.next.trans h.next
  life := h'.life.trans h.life
  zombies := h'.zombies.trans h.zombies
  usrdevs := h'.usrdevs.trans h.usrdevs
  plg k hk := h.plg k (h'.plg k hk)
  usr d' hd := (h'.usr d' hd).trans (h.usr d' hd)
  detaching := h'.detaching.trans h.detaching
  polls := h'.polls.trans h.polls

end Detached

/-- One slot that is on the list is unplugged from a user device that is being destroyed. -/
theorem detachSlot_ok {l : Nat → List Slot} (hk : (s.dev d).kind = .usr)
    (hdet : (s.usr d).detaching = true) (hp : Plugs l s) (hmem : k ∈ l d)
    (h : s.detachSlot t d k = .ok s') :
    Plugs (Function.update l d ((l d).erase k)) s' ∧ Detached s s' d := by
  obtain ⟨s₁, hc, h⟩ := bind_eq_ok.1 h
  obtain rfl := Except.ok.inj h
  refine ⟨hp.take hmem (opClose_ok (fun ht ↦ hp.busy d k hmem ht) hc).takes rfl, ?_⟩
  unfold State.opClose at hc
  rw [hk] at hc
  rcases usrdevClose_ok hc with ⟨-, rfl⟩ | ⟨hf, -⟩
  · refine ⟨rfl, rfl, rfl, rfl, rfl, rfl, rfl, fun k' hk' ↦ ?_, fun d' hd ↦ State.setUsr_of_ne hd,
      ?_, ?_⟩
    · rcases eq_or_ne k' k with rfl | hne
      · exact (hp.listed d k' hmem).1
      · rwa [State.setSlot_of_ne hne] at hk'
    · change ((s.setUsr d _).usr d).detaching = _
      rw [State.setUsr_self]
      rfl
    · change ((s.setUsr d _).usr d).polls = _
      rw [State.setUsr_self]
      rfl
  · rw [hdet] at hf
    cases hf

/-- The second loop of `dev_detach` unplugs the slots of its list. -/
theorem detachLoop_ok {l : Nat → List Slot} {L : List Slot} (hk : (s.dev d).kind = .usr)
    (hdet : (s.usr d).detaching = true) (hp : Plugs l s) (hl : l d = L)
    (h : L.foldlM (fun s k ↦ s.detachSlot t d k) s = .ok s') :
    Plugs (Function.update l d []) s' ∧ Detached s s' d := by
  induction L generalizing s l with
  | nil =>
      obtain rfl := Except.ok.inj h
      rw [← hl, Function.update_eq_self]
      exact ⟨hp, .refl s d⟩
  | cons k L ih =>
      rw [List.foldlM_cons, bind_eq_ok] at h
      obtain ⟨s₁, h₁, h⟩ := h
      obtain ⟨hp₁, hd₁⟩ := detachSlot_ok hk hdet hp (by rw [hl]; exact List.mem_cons_self) h₁
      have hl₁ : Function.update l d ((l d).erase k) d = L := by
        rw [Function.update_self, hl, List.erase_cons_head]
      obtain ⟨hp₂, hd₂⟩ := ih (by rw [hd₁.dev, hk]) (by rw [hd₁.detaching, hdet]) hp₁ hl₁ h
      rw [Function.update_idem] at hp₂
      exact ⟨hp₂, hd₁.trans hd₂⟩

/-- What `devremove` leaves of the other devices, and of the slots. -/
structure Removed (s s' : State) : Prop where
  life : s'.life = s.life
  next : s'.next = s.next
  plg : ∀ k, (s'.devs k).plg → (s.devs k).plg
  usr : ∀ d, s'.usr d = s.usr d ∨
    (s'.usr d).ioreqs = [] ∧ (s'.usr d).polls = (s.usr d).polls

/-- The state in which the loop of `dev_detach` starts: the device has left the tree, and its slots
are on a list of the loop's own. -/
def State.detachStart (s : State) (d : Nat) : State :=
  ({ s.setUsr d { s.usr d with detaching := true } with
    tree := Function.update s.tree (s.dev d).did none }).setDev d
      { s.dev d with offline := true, busdevs := [] }

namespace State

theorem detachStart_dev_self : (s.detachStart d).dev d =
    { s.dev d with offline := true, busdevs := [] } := setDev_self

theorem detachStart_dev_of_ne {d' : Nat} (hne : d' ≠ d) : (s.detachStart d).dev d' = s.dev d' :=
  setDev_of_ne hne

theorem detachStart_usr_self : (s.detachStart d).usr d = { s.usr d with detaching := true } :=
  setUsr_self

theorem detachStart_usr_of_ne {d' : Nat} (hne : d' ≠ d) : (s.detachStart d).usr d' = s.usr d' :=
  setUsr_of_ne hne

theorem detachStart_kind (d' : Nat) : ((s.detachStart d).dev d').kind = (s.dev d').kind := by
  rcases eq_or_ne d' d with rfl | hne
  · rw [detachStart_dev_self]
  · rw [detachStart_dev_of_ne hne]

/-- The ids of the clients stay. -/
theorem detachStart_remths (d' i : Nat) :
    (((s.detachStart d).usr d').remths i).use = ((s.usr d').remths i).use ∧
      (((s.detachStart d).usr d').remths i).th = ((s.usr d').remths i).th := by
  rcases eq_or_ne d' d with rfl | hne
  · rw [detachStart_usr_self]
    exact ⟨rfl, rfl⟩
  · rw [detachStart_usr_of_ne hne]
    exact ⟨rfl, rfl⟩

end State

/-- The loop finds the slots in the opposite order. -/
theorem Plugs.detachStart (h : Plugs s.lists s) (d : Nat) :
    Plugs (Function.update s.lists d (s.lists d).reverse) (s.detachStart d) := by
  have hps : Plugs s.lists (s.detachStart d) := h.congr ⟨rfl, rfl, State.detachStart_kind⟩
    (fun d' i ↦ State.inUse_congr (State.detachStart_kind d') (State.detachStart_remths d' i).1 rfl)
    fun d' i ↦ (State.detachStart_remths d' i).2
  refine hps.perm fun d' ↦ ?_
  rcases eq_or_ne d' d with rfl | hne
  · rw [Function.update_self]
    exact (List.reverse_perm _).symm
  · rw [Function.update_of_ne hne]

/-- The loop of `dev_detach` is through with the device `d`. -/
structure Unlisted (s s' : State) (d : Nat) : Prop where
  plugs : Plugs (Function.update s.lists d []) s'
  detached : Detached (s.detachStart d) s' d

namespace Unlisted

variable {d' : Nat}

theorem of_loop (hk : (s.dev d).kind = .usr) (hp : Plugs s.lists s)
    (h : (s.lists d).reverse.foldlM (fun s k ↦ s.detachSlot t d k) (s.detachStart d) = .ok s') :
    Unlisted s s' d := by
  have hdet : ((s.detachStart d).usr d).detaching = true := by rw [State.detachStart_usr_self]
  obtain ⟨hp', hd⟩ := detachLoop_ok (by rw [State.detachStart_kind, hk]) hdet (hp.detachStart d)
    (Function.update_self ..) h
  rw [Function.update_idem] at hp'
  exact ⟨hp', hd⟩

theorem dev (h : Unlisted s s' d) (hne : d' ≠ d) : s'.dev d' = s.dev d' := by
  rw [h.detached.dev, State.detachStart_dev_of_ne hne]

theorem usr (h : Unlisted s s' d) (hne : d' ≠ d) : s'.usr d' = s.usr d' := by
  rw [h.detached.usr d' hne, State.detachStart_usr_of_ne hne]

theorem detaching (h : Unlisted s s' d) : (s'.usr d).detaching = true := by
  rw [h.detached.detaching, State.detachStart_usr_self]

theorem polls (h : Unlisted s s' d) : (s'.usr d).polls = (s.usr d).polls := by
  rw [h.detached.polls, State.detachStart_usr_self]

theorem lists (h : Unlisted s s' d) : s'.lists = Function.update s.lists d [] := by
  funext d'
  rw [State.lists, h.detached.dev]
  rcases eq_or_ne d' d with rfl | hne
  · rw [Function.update_self, State.detachStart_dev_self]
  · rw [Function.update_of_ne hne, State.detachStart_dev_of_ne hne]
    rfl

/-- A slot that is still listed is listed for another device. -/
theorem mem_lists (h : Unlisted s s' d) (hk : k ∈ s'.lists d') : d' ≠ d ∧ k ∈ s.lists d' := by
  rw [h.lists] at hk
  rcases eq_or_ne d' d with rfl | hne
  · rw [Function.update_self] at hk
    cases hk
  · rw [Function.update_of_ne hne] at hk
    exact ⟨hne, hk⟩

theorem tree (h : Unlisted s s' d) : s'.tree = Function.update s.tree (s.dev d).did none :=
  h.detached.tree

/-- The other devices stay in the tree. -/
theorem tree_of_ne (h : Unlisted s s' d) (hd : s.tree (s.dev d).did = some d) (hne : d' ≠ d)
    (ht : s.tree (s.dev d').did = some d') : s'.tree (s.dev d').did = some d' := by
  rw [h.tree, Function.update_of_ne, ht]
  intro he
  rw [he, hd] at ht
  exact hne (Option.some.inj ht).symm

/-- A number that is still in the tree is another one. -/
theorem tree_eq_some (h : Unlisted s s' d) {x : Nat} (hx : s'.tree x = some d') :
    x ≠ (s.dev d).did ∧ s.tree x = some d' := by
  rw [h.tree] at hx
  rcases eq_or_ne x (s.dev d).did with rfl | hne
  · rw [Function.update_self] at hx
    cases hx
  · rw [Function.update_of_ne hne] at hx
    exact ⟨hne, hx⟩

end Unlisted

/-- `usrdev_destroy` and `devremove` after the loop: the requests go, and the record of the
device. -/
def State.removed (s : State) (t did d : Nat) : State :=
  let s' := s.setUsr d { s.usr d with ioreqs := [] }
  { s' with usrdevs := Function.update s'.usrdevs (t, did) none }

/-- `devremove` finds nothing, or detaches the device and removes it. -/
theorem devremove_cases (h : s.devremove t did = .ok s') :
    (s.usrdevs (t, did) = none ∧ s' = s) ∨ ∃ d u, s.usrdevs (t, did) = some d ∧
      (s.lists d).reverse.foldlM (fun s k ↦ s.detachSlot t d k) (s.detachStart d) = .ok u ∧
      s' = u.removed t did d := by
  unfold State.devremove at h
  split at h
  · next hd => exact .inl ⟨hd, (Except.ok.inj h).symm⟩
  · next d hd =>
    obtain ⟨s₂, hr₂, h⟩ := bind_eq_ok.1 h
    obtain rfl := Except.ok.inj h
    obtain ⟨u, hu, hr₂⟩ := bind_eq_ok.1 hr₂
    obtain rfl := Except.ok.inj hr₂
    exact .inr ⟨d, u, hd, hu, rfl⟩

namespace State

theorem removed_usr_self : (s.removed t did d).usr d = { s.usr d with ioreqs := [] } := setUsr_self

theorem removed_usr_of_ne {d' : Nat} (hne : d' ≠ d) : (s.removed t did d).usr d' = s.usr d' :=
  setUsr_of_ne hne

theorem removed_remths (d' : Nat) : ((s.removed t did d).usr d').remths = (s.usr d').remths := by
  rcases eq_or_ne d' d with rfl | hne
  · rw [removed_usr_self]
  · rw [removed_usr_of_ne hne]

/-- A record that is left was there before, under another number. -/
theorem removed_usrdevs {p : Nat × Nat} {d' : Nat}
    (h : (s.removed t did d).usrdevs p = some d') : p ≠ (t, did) ∧ s.usrdevs p = some d' := by
  change Function.update s.usrdevs (t, did) none p = some d' at h
  rcases eq_or_ne p (t, did) with rfl | hne
  · rw [Function.update_self] at h
    cases h
  · rw [Function.update_of_ne hne] at h
    exact ⟨hne, h⟩

end State

namespace Inv

/-- The invariant once the device is gone. -/
theorem unlisted {u : State} (h : Inv s) (hd : s.usrdevs (t, did) = some d)
    (hu : Unlisted s u d) : Inv (u.removed t did d) := by
  have htree := (h.owned _ d hd).2
  refine ⟨?_, fun d' k hk ↦ h.descs d' k (hu.mem_lists hk).2, fun d' k hk ↦ ?_,
    fun x d' hx ↦ ?_, fun p d' hp ↦ ?_, fun p p' d' hp hp' ↦ ?_, ?_, ?_, fun d' hd' ↦ ?_⟩
  · change Plugs u.lists _
    rw [hu.lists]
    exact hu.plugs.congr ⟨rfl, rfl, fun _ ↦ rfl⟩
      (fun d' i ↦ State.inUse_congr rfl
        (congrArg Remth.use (congrFun (State.removed_remths d') i)) rfl)
      fun d' i ↦ congrArg Remth.th (congrFun (State.removed_remths d') i)
  · obtain ⟨hne, hk⟩ := hu.mem_lists hk
    change u.tree (u.dev d').did = some d'
    rw [hu.dev hne]
    exact hu.tree_of_ne htree hne (h.attached d' k hk)
  · obtain ⟨hxd, hx⟩ := hu.tree_eq_some hx
    have hx' := h.tree x d' hx
    have hne : d' ≠ d := by
      rintro rfl
      exact hxd hx'.2.1.symm
    change d' < u.ndev ∧ (u.dev d').did = x ∧ (u.dev d').offline = false ∧
      ((u.dev d').kind = .usr → ((u.removed t did d).usr d').detaching = false)
    rw [hu.detached.ndev, hu.dev hne, State.removed_usr_of_ne hne, hu.usr hne]
    exact hx'
  · obtain ⟨hpne, hp⟩ := State.removed_usrdevs hp
    rw [hu.detached.usrdevs] at hp
    have hne : d' ≠ d := by
      rintro rfl
      exact hpne (h.once _ _ d' hp hd)
    change (u.dev d').kind = .usr ∧ u.tree (u.dev d').did = some d'
    rw [hu.dev hne]
    exact ⟨(h.owned p d' hp).1, hu.tree_of_ne htree hne (h.owned p d' hp).2⟩
  · have hp := (State.removed_usrdevs hp).2
    have hp' := (State.removed_usrdevs hp').2
    rw [hu.detached.usrdevs] at hp hp'
    exact h.once p p' d' hp hp'
  · change ∀ t, u.next ≤ t → u.life t = .unborn
    rw [hu.detached.next, hu.detached.life]
    exact h.born
  · change ∀ t c, c ∈ u.zombies t → u.life c = .zombie ∨ u.life c = .freed
    rw [hu.detached.zombies, hu.detached.life]
    exact h.waiting
  · rcases eq_or_ne d' d with rfl | hne
    · rw [State.removed_usr_self] at hd'
      change (u.usr d').detaching = false at hd'
      rw [hu.detaching] at hd'
      cases hd'
    · rw [State.removed_usr_of_ne hne, hu.usr hne] at hd' ⊢
      exact h.queues d' hd'

/-- `devremove`: the device leaves the tree with its slots unplugged. -/
theorem devremove (h : Inv s) (hr : s.devremove t did = .ok s') : Inv s' ∧ Removed s s' := by
  rcases devremove_cases hr with ⟨-, rfl⟩ | ⟨d, u, hd, hu, rfl⟩
  · exact ⟨h, rfl, rfl, fun _ hk ↦ hk, fun _ ↦ .inl rfl⟩
  · have hun := Unlisted.of_loop (h.owned _ d hd).1 h.plugs hu
    refine ⟨h.unlisted hd hun, hun.detached.life, hun.detached.next, hun.detached.plg,
      fun d' ↦ ?_⟩
    rcases eq_or_ne d' d with rfl | hne
    · rw [State.removed_usr_self]
      exact .inr ⟨rfl, hun.polls⟩
    · rw [State.removed_usr_of_ne hne]
      exact .inl (hun.usr hne)

/-! ## Creating a device -/

/-- A device is attached under a new number, with nobody plugged into it and no id in
use. -/
theorem create {v : Dev} (h : Inv s) (hv : v.busdevs = []) (hoff : v.offline = false)
    (hfree : s.tree v.did = none) (hb : s'.devs = s.devs ∧ s'.life = s.life ∧ s'.next = s.next ∧
      s'.zombies = s.zombies ∧ s'.usrdevs = s.usrdevs)
    (hdev : s'.dev = Function.update s.dev s.ndev v) (hndev : s'.ndev = s.ndev + 1)
    (htree : s'.tree = Function.update s.tree v.did (some s.ndev))
    (husr : ∀ d, d ≠ s.ndev → s'.usr d = s.usr d) (hhw : ∀ d, d ≠ s.ndev → s'.hw d = s.hw d)
    (hnew : ∀ i, ¬ s'.InUse s.ndev i)
    (hq : (v.kind = .usr → (s'.usr s.ndev).detaching = false) ∧
      ((s'.usr s.ndev).detaching = false → (s'.usr s.ndev).QInv)) : Inv s' := by
  obtain ⟨hdevs, hlife, hnext, hzom, hus⟩ := hb
  have hold : ∀ d, d ≠ s.ndev → s'.dev d = s.dev d := by
    intro d hd
    rw [hdev, Function.update_of_ne hd]
  have hnone : s.lists s.ndev = [] := by
    refine List.eq_nil_iff_forall_not_mem.2 fun k hk ↦ ?_
    exact absurd (h.tree _ _ (h.attached _ k hk)).1 (lt_irrefl _)
  have hlists : s'.lists = s.lists := by
    funext d
    rcases eq_or_ne d s.ndev with rfl | hd
    · rw [hnone, State.lists, hdev, Function.update_self, hv]
    · rw [State.lists, hold d hd]
      rfl
  have hne : ∀ {d k}, k ∈ s.lists d → d ≠ s.ndev := by
    rintro d k hk rfl
    rw [hnone] at hk
    cases hk
  have huse : ∀ d i, s'.InUse d i ↔ d ≠ s.ndev ∧ s.InUse d i := by
    intro d i
    rcases eq_or_ne d s.ndev with rfl | hd
    · exact iff_of_false (hnew i) fun hh ↦ hh.1 rfl
    · rw [and_iff_right hd]
      exact State.inUse_congr (by rw [hold d hd]) (by rw [husr d hd]) (by rw [hhw d hd])
  have htree' : ∀ x d, s.tree x = some d → s'.tree x = some d := by
    intro x d hx
    rw [htree, Function.update_of_ne, hx]
    rintro rfl
    rw [hfree] at hx
    cases hx
  have hltn : ∀ x d, s.tree x = some d → d ≠ s.ndev :=
    fun x d hx ↦ Nat.ne_of_lt (h.tree x d hx).1
  refine ⟨?_, ?_, fun d k hk ↦ ?_, fun x d hx ↦ ?_, fun p d hp ↦ ?_, ?_, ?_, ?_, fun d hd ↦ ?_⟩
  · rw [hlists]
    refine ⟨fun d k hk ↦ ?_, fun k hk ↦ ?_, h.plugs.nodup, fun d k hk ht ↦ ?_,
      fun d k k' ht hk hk' he ↦ ?_, fun d i hi ↦ ?_, fun d i hi ↦ ?_, fun d k hk hu ↦ ?_⟩
    · rw [hdevs, hlife]
      exact h.plugs.listed d k hk
    · rw [hdevs] at hk
      exact h.plugs.plugged k hk
    · rw [State.Tabled, hold d (hne hk)] at ht
      rw [hdevs, huse]
      exact ⟨hne hk, h.plugs.busy d k hk ht⟩
    · rw [State.Tabled, hold d (hne hk)] at ht
      rw [hdevs] at he
      exact h.plugs.distinct d k k' ht hk hk' he
    · rw [hdevs]
      exact h.plugs.held d i ((huse d i).1 hi).2
    · exact h.plugs.small d i ((huse d i).1 hi).2
    · rw [hold d (hne hk)] at hu
      rw [hdevs, husr d (hne hk)]
      exact h.plugs.holder d k hk hu
  · rw [hlists]
    exact h.descs
  · rw [hlists] at hk
    rw [hold d (hne hk)]
    exact htree' _ _ (h.attached d k hk)
  · rw [htree] at hx
    rw [hndev]
    rcases eq_or_ne x v.did with rfl | hxv
    · rw [Function.update_self] at hx
      obtain rfl := Option.some.inj hx
      rw [hdev, Function.update_self]
      exact ⟨Nat.lt_succ_self _, rfl, hoff, hq.1⟩
    · rw [Function.update_of_ne hxv] at hx
      have hd := hltn x d hx
      rw [hold d hd, husr d hd]
      exact ⟨(h.tree x d hx).1.trans (Nat.lt_succ_self _), (h.tree x d hx).2⟩
  · rw [hus] at hp
    obtain ⟨hk, ht⟩ := h.owned p d hp
    rw [hold d (hltn _ d ht)]
    exact ⟨hk, htree' _ _ ht⟩
  · rw [hus]
    exact h.once
  · rw [hnext, hlife]
    exact h.born
  · rw [hzom, hlife]
    exact h.waiting
  · rcases eq_or_ne d s.ndev with rfl | hne
    · exact hq.2 hd
    · rw [husr d hne] at hd ⊢
      exact h.queues d hd

/-- A thread takes a device of its own that has no number yet. -/
theorem own {p : Nat × Nat} (h : Inv s) (hk : (s.dev d).kind = .usr)
    (ht : s.tree (s.dev d).did = some d) (hno : ∀ p', s.usrdevs p' ≠ some d) :
    Inv { s with usrdevs := Function.update s.usrdevs p (some d) } := by
  have hcases : ∀ {p' d'}, Function.update s.usrdevs p (some d) p' = some d' →
      p' = p ∧ d' = d ∨ p' ≠ p ∧ s.usrdevs p' = some d' := by
    intro p' d' hp'
    rcases eq_or_ne p' p with rfl | hne
    · rw [Function.update_self] at hp'
      exact .inl ⟨rfl, (Option.some.inj hp').symm⟩
    · rw [Function.update_of_ne hne] at hp'
      exact .inr ⟨hne, hp'⟩
  refine ⟨h.plugs.congr ⟨rfl, rfl, fun _ ↦ rfl⟩ (fun _ _ ↦ Iff.rfl) fun _ _ ↦ rfl, h.descs,
    h.attached, h.tree, fun p' d' hp' ↦ ?_, fun p₁ p₂ d' h₁ h₂ ↦ ?_, h.born, h.waiting, h.queues⟩
  · rcases hcases hp' with ⟨-, rfl⟩ | ⟨-, hp'⟩
    · exact ⟨hk, ht⟩
    · exact h.owned p' d' hp'
  · rcases hcases h₁ with ⟨rfl, hd₁⟩ | ⟨-, hs₁⟩ <;>
      rcases hcases h₂ with ⟨rfl, hd₂⟩ | ⟨-, hs₂⟩
    · rfl
    · exact absurd (hd₁ ▸ hs₂) (hno _)
    · exact absurd (hd₂ ▸ hs₁) (hno _)
    · exact h.once _ _ _ hs₁ hs₂

/-- `devcreat`. -/
theorem devcreat (h : Inv s) (nameid : Nat) (cfg : UsrdevCfg) (sig mode : Nat) :
    Inv (s.devcreat t nameid cfg sig mode).2 := by
  obtain heq | ⟨i, s₂, -, -, ha, heq⟩ := s.devcreat_cases t nameid cfg sig mode
  · rw [heq]
    exact h
  · rw [heq]
    obtain ⟨hfree, rfl⟩ := State.devAttach_ok ha
    refine Inv.own (h.create rfl rfl hfree ⟨rfl, rfl, rfl, rfl, rfl⟩ rfl rfl rfl ?_ ?_ ?_ ?_)
      ?_ ?_ ?_
    · exact fun d hd ↦ State.setUsr_of_ne hd
    · exact fun _ _ ↦ rfl
    · intro i hi
      rw [State.inUse_usr, State.setUsr_self] at hi
      · cases hi
      · change (Function.update s.dev s.ndev _ s.ndev).kind = .usr
        rw [Function.update_self]
    · rw [State.setUsr_self]
      exact ⟨fun _ ↦ rfl, fun _ ↦ .fresh⟩
    · change (Function.update s.dev s.ndev _ s.ndev).kind = .usr
      rw [Function.update_self]
    · change Function.update s.tree nameid _
        (Function.update s.dev s.ndev _ s.ndev).did = _
      rw [Function.update_self, Function.update_self]
    · intro p' hp'
      exact absurd (h.tree _ _ (h.owned p' _ hp').2).1 (lt_irrefl _)

/-- `sys_hwcreat`. -/
theorem sysHwcreat (h : Inv s) (nameid : Nat) (cfg : HwdevCfg) (mode : Nat) :
    Inv (s.sysHwcreat t nameid cfg mode).2 := by
  obtain heq | ⟨s₁, ha, heq⟩ := s.sysHwcreat_cases t nameid cfg mode
  · rw [heq]
    exact h
  · rw [heq]
    obtain ⟨hfree, rfl⟩ := State.devAttach_ok ha
    refine h.create rfl rfl hfree ⟨rfl, rfl, rfl, rfl, rfl⟩ rfl rfl rfl ?_ ?_ ?_ ⟨?_, ?_⟩
    · exact fun _ _ ↦ rfl
    · exact fun d hd ↦ State.setHw_of_ne hd
    · intro i hi
      rw [State.inUse_hw, State.setHw_self] at hi
      · cases hi
      · change (Function.update s.dev s.ndev _ s.ndev).kind = .hw
        rw [Function.update_self]
    · rintro ⟨⟩
    · exact h.queues s.ndev

/-! ## Threads -/

/-- The lives of threads change, and the lists of those that wait for their parent. -/
theorem relife {L : Nat → Life} {Z : Nat → List Nat} (h : Inv s)
    (hl : ∀ k, (s.devs k).plg → L k.1 = .live) (hb : ∀ t, s.next ≤ t → L t = .unborn)
    (hw : ∀ t c, c ∈ Z t → L c = .zombie ∨ L c = .freed) :
    Inv { s with life := L, zombies := Z } := by
  refine ⟨⟨fun d k hk ↦ ?_, h.plugs.plugged, h.plugs.nodup, h.plugs.busy, h.plugs.distinct,
    h.plugs.held, h.plugs.small, h.plugs.holder⟩, h.descs, h.attached, h.tree, h.owned, h.once, hb,
    hw, h.queues⟩
  obtain ⟨hplg, hdev, -⟩ := h.plugs.listed d k hk
  exact ⟨hplg, hdev, hl k hplg⟩

/-- A plugged slot belongs to a thread that is there. -/
theorem live_of_plg (h : Inv s) (hk : (s.devs k).plg) : s.life k.1 = .live := by
  obtain ⟨d, hd⟩ := h.plugs.plugged k hk
  exact (h.plugs.listed d k hd).2.2

/-- A thread that is live or waits for its parent has a number below the next one. -/
theorem lt_next (h : Inv s) (ht : s.life t ≠ .unborn) : t < s.next :=
  Nat.lt_of_not_le fun hle ↦ ht (h.born t hle)

/-- The new thread of `thfork`, with its bus cleared. -/
theorem newThread (h : Inv s) : Inv (s.newThread t) := by
  have hun : s.life s.next = .unborn := h.born _ le_rfl
  have hne : ∀ {k}, (s.devs k).plg → k.1 ≠ s.next := by
    intro k hk he
    have := h.live_of_plg hk
    rw [he, hun] at this
    cases this
  have hdevs : ∀ {d k}, k ∈ s.lists d → (s.newThread t).devs k = s.devs k :=
    fun {d k} hk ↦ if_neg (hne (h.plugs.listed d k hk).1)
  refine ⟨⟨fun d k hk ↦ ?_, fun k hk ↦ ?_, h.plugs.nodup, fun d k hk ht ↦ ?_,
    fun d k k' ht hk hk' he ↦ ?_, fun d i hi ↦ ?_, h.plugs.small, fun d k hk hu ↦ ?_⟩, h.descs,
    h.attached, h.tree, fun p d hp ↦ ?_, fun p p' d hp hp' ↦ ?_, fun t' ht' ↦ ?_, fun t' c hc ↦ ?_,
    h.queues⟩
  · obtain ⟨hplg, hdev, hlive⟩ := h.plugs.listed d k hk
    rw [hdevs hk]
    refine ⟨hplg, hdev, ?_⟩
    change Function.update s.life s.next _ k.1 = _
    rw [Function.update_of_ne (hne hplg), hlive]
  · change (if k.1 = s.next then Bdeve.zero else s.devs k).plg = true at hk
    split at hk
    · cases hk
    · exact h.plugs.plugged k hk
  · rw [hdevs hk]
    exact h.plugs.busy d k hk ht
  · rw [hdevs hk, hdevs hk'] at he
    exact h.plugs.distinct d k k' ht hk hk' he
  · obtain ⟨k, hk, he⟩ := h.plugs.held d i hi
    exact ⟨k, hk, by rw [hdevs hk, he]⟩
  · rw [hdevs hk]
    exact h.plugs.holder d k hk hu
  · change (if p.1 = s.next then none else s.usrdevs p) = some d at hp
    split at hp
    · cases hp
    · exact h.owned p d hp
  · change (if p.1 = s.next then none else s.usrdevs p) = some d at hp
    change (if p'.1 = s.next then none else s.usrdevs p') = some d at hp'
    split at hp
    · cases hp
    · split at hp'
      · cases hp'
      · exact h.once p p' d hp hp'
  · have ht' : s.next + 1 ≤ t' := ht'
    change Function.update s.life s.next _ t' = _
    rw [Function.update_of_ne (by omega)]
    exact h.born t' (by omega)
  · change c ∈ Function.update s.zombies s.next [] t' at hc
    change Function.update s.life s.next _ c = _ ∨ Function.update s.life s.next _ c = _
    rcases eq_or_ne t' s.next with rfl | hnt
    · rw [Function.update_self] at hc
      cases hc
    · rw [Function.update_of_ne hnt] at hc
      have hc' := h.waiting t' c hc
      rw [Function.update_of_ne]
      · exact hc'
      · rintro rfl
        rw [hun] at hc'
        rcases hc' with hc' | hc' <;> cases hc'

/-- `thfork`. -/
theorem thfork (h : Inv s) (hf : s.thfork t = .ok s') : Inv s' := by
  refine (foldlM_invariant (I := fun s' ↦ Inv s' ∧ s'.life s.next = .live) ?_ hf
    ⟨h.newThread, Function.update_self ..⟩).1
  rintro s₁ desc s₂ - ⟨h₁, hl₁⟩ hc
  obtain ⟨⟨r, s₃⟩, hcopy, hr⟩ := bind_eq_ok.1 hc
  obtain rfl := Except.ok.inj hr
  obtain ⟨h₃, hl₃⟩ := h₁.busCopy hl₁ hcopy
  exact ⟨h₃, by rw [hl₃, hl₁]⟩

/-- `bus_remove`, over some of the descriptors: they are not plugged afterwards. -/
theorem busRemove_of {l : List Nat} (h : Inv s)
    (hr : l.foldlM (fun s desc ↦ do return (← s.busUnplug t desc).2) s = .ok s') :
    Inv s' ∧ s'.life = s.life ∧ ∀ k, (s'.devs k).plg →
      (s.devs k).plg ∧ ∀ desc ∈ l, desc < maxBusDevs → k ≠ (t, desc) := by
  induction l generalizing s with
  | nil =>
      obtain rfl := Except.ok.inj hr
      exact ⟨h, rfl, fun k hk ↦ ⟨hk, fun desc hd ↦ absurd hd List.not_mem_nil⟩⟩
  | cons desc l ih =>
      rw [List.foldlM_cons, bind_eq_ok] at hr
      obtain ⟨s₁, hu, hr⟩ := hr
      obtain ⟨⟨r, s₂⟩, hunp, he⟩ := bind_eq_ok.1 hu
      obtain rfl := Except.ok.inj he
      obtain ⟨h₁, hl₁, hp₁⟩ := h.busUnplug hunp
      obtain ⟨h₂, hl₂, hp₂⟩ := ih h₁ hr
      refine ⟨h₂, hl₂.trans hl₁, fun k hk ↦ ?_⟩
      obtain ⟨hk₁, hne⟩ := hp₂ k hk
      obtain ⟨hk₀, hne₀⟩ := hp₁ k hk₁
      refine ⟨hk₀, fun desc' hd' ↦ ?_⟩
      rcases List.mem_cons.1 hd' with rfl | hd'
      · exact hne₀
      · exact hne desc' hd'

/-- `bus_remove`: no slot of the bus is plugged afterwards. -/
theorem busRemove (h : Inv s) (hr : s.busRemove t = .ok s') :
    Inv s' ∧ s'.life = s.life ∧ ∀ k, (s'.devs k).plg → k.1 ≠ t := by
  obtain ⟨h', hl, hp⟩ := h.busRemove_of hr
  refine ⟨h', hl, fun k hk he ↦ ?_⟩
  obtain ⟨d, hd⟩ := h'.plugs.plugged k hk
  have hlt := h'.descs d k hd
  exact (hp k hk).2 k.2 (List.mem_range.2 hlt) hlt (Prod.ext he rfl)

/-- The loop of `__exit` that removes the devices of the thread. -/
theorem devremoves {l : List Nat} (h : Inv s)
    (hr : l.foldlM (fun s did ↦ s.devremove t did) s = .ok s') :
    Inv s' ∧ s'.life = s.life ∧ ∀ k, (s'.devs k).plg → (s.devs k).plg := by
  refine foldlM_invariant (I := fun s' ↦ Inv s' ∧ s'.life = s.life ∧
    ∀ k, (s'.devs k).plg → (s.devs k).plg) ?_ hr ⟨h, rfl, fun _ hk ↦ hk⟩
  rintro s₁ did s₂ - ⟨h₁, hl₁, hp₁⟩ hd
  obtain ⟨h₂, hd₂⟩ := h₁.devremove hd
  exact ⟨h₂, hd₂.life.trans hl₁, fun k hk ↦ hp₁ k (hd₂.plg k hk)⟩

/-- `__exit`. -/
theorem exit (h : Inv s) (hlive : s.life t = .live) (he : s.exit t = .ok s') : Inv s' := by
  unfold State.exit at he
  split at he
  · cases he
  · obtain ⟨s₁, hr, he⟩ := bind_eq_ok.1 he
    obtain ⟨s₂, hd, he⟩ := bind_eq_ok.1 he
    obtain ⟨h₁, hl₁, hp₁⟩ := h.busRemove hr
    obtain ⟨h₂, hl₂, hp₂⟩ := h₁.devremoves hd
    have hl : s₂.life t = .live := by rw [hl₂, hl₁, hlive]
    refine Inv.quiet ?_ (Quiet.thraise he)
    let u : State := { s₂ with
      io := fun k ↦ if k.1 = t then none else s₂.io k
      active := Function.update (Function.update s₂.active s₂.init
        ((s₂.active t).reverse ++ s₂.active s₂.init)) t []
      parent := fun c ↦ if c ∈ s₂.active t ∨ c ∈ s₂.zombies t then some s₂.init else s₂.parent c }
    have hu : Inv u := h₂.quiet ⟨⟨rfl, rfl, rfl, rfl, rfl, rfl, rfl, rfl⟩, fun _ _ ↦ rfl,
      fun _ ↦ .refl _⟩
    refine Inv.relife hu (fun k hk ↦ ?_) (fun t' ht' ↦ ?_) fun t' c hc ↦ ?_
    · rw [Function.update_of_ne (hp₁ k (hp₂ k hk))]
      exact h₂.live_of_plg hk
    · rw [Function.update_of_ne]
      · exact h₂.born t' ht'
      · rintro rfl
        have := h₂.born _ ht'
        rw [hl] at this
        cases this
    · have hc' : ∃ p, c ∈ s₂.zombies p := by
        rcases eq_or_ne t' t with rfl | hne
        · rw [Function.update_self] at hc
          cases hc
        · rw [Function.update_of_ne hne] at hc
          rcases eq_or_ne t' s₂.init with rfl | hni
          · rw [Function.update_self, List.mem_append, List.mem_reverse] at hc
            rcases hc with hc | hc
            · exact ⟨_, hc⟩
            · exact ⟨_, hc⟩
          · rw [Function.update_of_ne hni] at hc
            exact ⟨_, hc⟩
      obtain ⟨p, hp⟩ := hc'
      have hw := h₂.waiting p c hp
      rw [Function.update_of_ne]
      · exact hw
      · rintro rfl
        rw [hl] at hw
        rcases hw with hw | hw <;> cases hw

/-- `do_zombie`, of a thread that has exited. -/
theorem doZombie {c : Nat} (h : Inv s) (hc : s.life c = .dying) (hz : s.doZombie c = .ok s') :
    Inv s' := by
  unfold State.doZombie at hz
  split at hz
  · cases hz
  · next p hp =>
    refine Inv.quiet ?_ (Quiet.thraise hz)
    let u : State := { s with active := Function.update s.active p ((s.active p).erase c) }
    have hu : Inv u := h.quiet ⟨⟨rfl, rfl, rfl, rfl, rfl, rfl, rfl, rfl⟩, fun _ _ ↦ rfl,
      fun _ ↦ .refl _⟩
    refine Inv.relife hu (fun k hk ↦ ?_) (fun t' ht' ↦ ?_) fun t' c' hc' ↦ ?_
    · rw [Function.update_of_ne]
      · exact h.live_of_plg hk
      · rintro rfl
        rw [h.live_of_plg hk] at hc
        cases hc
    · rw [Function.update_of_ne]
      · exact h.born t' ht'
      · rintro rfl
        have := h.born _ ht'
        rw [hc] at this
        cases this
    · rcases eq_or_ne c' c with rfl | hne
      · exact .inl (Function.update_self ..)
      · rw [Function.update_of_ne hne]
        rcases eq_or_ne t' p with rfl | hnp
        · rw [Function.update_self, List.mem_cons, or_iff_right hne] at hc'
          exact h.waiting _ c' hc'
        · rw [Function.update_of_ne hnp] at hc'
          exact h.waiting _ c' hc'

/-- `childstat`. -/
theorem childstat (h : Inv s) : Inv (s.childstat t).2 := by
  unfold State.childstat
  split
  · exact h
  · next c cs hz =>
    have hc := h.waiting t c (by rw [hz]; exact List.mem_cons_self)
    refine h.relife (fun k hk ↦ ?_) (fun t' ht' ↦ ?_) fun t' c' hc' ↦ ?_
    · rw [Function.update_of_ne]
      · exact h.live_of_plg hk
      · rintro rfl
        rw [h.live_of_plg hk] at hc
        rcases hc with hc | hc <;> cases hc
    · rw [Function.update_of_ne]
      · exact h.born t' ht'
      · rintro rfl
        rw [h.born _ ht'] at hc
        rcases hc with hc | hc <;> cases hc
    · rcases eq_or_ne c' c with rfl | hne
      · exact .inr (Function.update_self ..)
      · rw [Function.update_of_ne hne]
        rcases eq_or_ne t' t with rfl | hnt
        · rw [Function.update_self] at hc'
          exact h.waiting _ c' (by rw [hz]; exact List.mem_cons_of_mem _ hc')
        · rw [Function.update_of_ne hnt] at hc'
          exact h.waiting _ c' hc'

/-! ## Calls on descriptors and on devices -/

/-- `bus_get_dev` finds the device that lists the slot. -/
theorem mem_of_getDev (h : Inv s) {desc : Nat} (hg : s.busGetDev t desc = .ok (.inr d)) :
    (t, desc) ∈ s.lists d := by
  unfold State.busGetDev at hg
  split at hg
  · cases hg
  · dsimp only at hg
    split at hg
    · cases hg
    · next hplg =>
      split at hg
      · cases hg
      · next d' hd' =>
        split at hg
        · cases hg
        · cases hg
          exact h.mem_lists (by simpa using hplg) hd'

/-- A request of a client goes into the queue of its device. -/
theorem pushOut {ior : Ior} {size port val : Nat} (h : Inv s) (hk : (s.dev d).kind = .usr)
    (hmem : k ∈ s.lists d) (hop : ior.op = .outOp size port val) (hid : ior.id = (s.devs k).devid) :
    Inv (s.setUsr d ((s.usr d).push ior)) := by
  refine h.setUsr rfl (fun _ ↦ rfl) (fun _ ↦ rfl) fun hdet ↦ ?_
  have huse := (State.inUse_usr hk).1 (h.plugs.busy d k hmem (.inl hk))
  exact (h.queues d hdet).pushOut huse hop hid

/-- `OP_CALL`. -/
theorem opCall (h : Inv s) {desc : Nat} {q : Req} {val : Option Nat}
    (ho : s.opCall t desc q = .ok (r, val, s')) : Inv s' := by
  rcases State.opCall_cases ho with rfl | ⟨d, res, hg, hx, -, -, rfl⟩
  · exact h
  · rcases Quiet.op hx with hq | ⟨port, v, hk, -, hq⟩
    · exact h.quiet hq
    · exact (h.pushOut hk (h.mem_of_getDev hg) rfl rfl).quiet hq

/-- `usrdev_poll`. -/
theorem usrdevPoll (h : Inv s) {p : Option PollIor} (hp : s.usrdevPoll d = .ok (p, s')) :
    Inv s' := by
  rcases State.usrdevPoll_cases hp with rfl | ⟨ior, iors, pid, hq, hth, rfl⟩
  · exact h
  · refine h.setUsr rfl (fun _ ↦ rfl) (fun _ ↦ rfl) fun hdet ↦ ?_
    exact (h.queues d hdet).poll hq ⟨rfl, rfl, rfl, rfl⟩

end Inv

end Mh.Bus
