import Mh.Life.Inv

/-!
# The invariant under the steps

An entry loses its device in `bus_unplug` and in the loop of `dev_detach`; a device is attached, is
taken out of the tree and off line, and is freed.
-/

namespace Mh.Life

open Mh.Lib Mh.Bus

variable {s : State} {t d : Nat} {k : Slot}

namespace Inv

/-! ## Entries -/

/-- An entry loses its device: what holds of the entries, but for the links. -/
theorem dev_none {s' : State} {k : Slot} (hself : s'.dev k = none)
    (hne : ∀ k', k' ≠ k → s'.dev k' = s.dev k') (hd : s.dev k = some d) :
    (∀ k' d', s'.dev k' = some d' → s.dev k' = some d') ∧
    (∀ d', d' ≠ d → ∀ k', s'.dev k' = some d' ↔ s.dev k' = some d') ∧
    (∀ k', s.dev k' = none → s'.dev k' = none) := by
  have hof : ∀ k' d', s'.dev k' = some d' → s.dev k' = some d' := by
    intro k' d' hk'
    by_cases he : k' = k
    · rw [he, hself] at hk'
      cases hk'
    · rwa [hne k' he] at hk'
  refine ⟨hof, fun d' hd' k' ↦ ⟨hof k' d', fun hk' ↦ ?_⟩, fun k' hk' ↦ ?_⟩
  · rw [hne k']
    · exact hk'
    · rintro rfl
      rw [hd] at hk'
      exact hd' (Option.some.inj hk').symm
  · rw [hne k']
    · exact hk'
    · rintro rfl
      rw [hd] at hk'
      cases hk'

/-- `bus_unplug` of a device that is on line. -/
theorem unplug (h : Inv s) (hd : s.dev k = some d) (hon : (s.devs d).offline = false) :
    Inv { s.setSlot k ⟨false, false, none⟩ with links := s.links.remove (.entry k) } := by
  obtain ⟨zs, hzs⟩ := h.listed d (h.dev k d hd).1 hon
  obtain ⟨xs, ys, rfl⟩ := List.append_of_mem ((hzs.mem_iff k).2 hd)
  have hlinked := hzs.linked
  have hnd := hzs.nodup_nodes
  rw [List.map_append, List.map_cons] at hlinked hnd
  generalize hs' : ({ s.setSlot k ⟨false, false, none⟩ with
    links := s.links.remove (.entry k) } : State) = s'
  have hself : s'.dev k = none := by
    subst hs'
    show (Function.update s.slots k _ k).dev = _
    rw [Function.update_self]
  have hne : ∀ k', k' ≠ k → s'.dev k' = s.dev k' := by
    intro k' hk'
    subst hs'
    show (Function.update s.slots k _ k').dev = _
    rw [Function.update_of_ne hk']
    rfl
  obtain ⟨hof, hdev, hnone⟩ := dev_none hself hne hd
  have hframe : ∀ (o : Node) (zs : List Slot), o ≠ .busdevs d →
      (∀ k', o = .entry k' → s.dev k' ≠ some d) → (∀ k' ∈ zs, s.dev k' ≠ some d) →
      s.links.Linked (some o) (zs.map .entry) → s'.links.Linked (some o) (zs.map .entry) := by
    intro o zs ho hok hz hl
    have hdis := hzs.disjoint_of_dev ho hok hz
    rw [List.map_append, List.map_cons] at hdis
    subst hs'
    exact hlinked.remove_of_disjoint hl hdis
  have hpc : s'.pc = s.pc := by subst hs'; rfl
  have hdevs : s'.devs = s.devs := by subst hs'; rfl
  have hnext : s'.next = s.next := by subst hs'; rfl
  have htree : s'.tree = s.tree := by subst hs'; rfl
  have hlive : ∀ d', s.Live d' → s'.Live d' := fun d' hl ↦ by
    rwa [State.Live, hnext, hdevs]
  obtain ⟨hunborn, hforks⟩ := h.forks_of_eq _ hpc
    fun k' hf ↦ ⟨hnone k' hf.1, by rw [hpc]; exact hf.2⟩
  constructor
  · rw [htree, hpc]
    exact fun d' hd' ↦ ⟨hlive d' (h.tree d' hd').1, (h.tree d' hd').2⟩
  · exact fun k' d' hk' ↦ hlive d' (h.dev k' d' (hof k' d' hk'))
  · rw [hpc]
    exact fun t d' hd' ↦ hlive d' (h.holds t d' hd')
  · rw [hpc, hdevs]
    exact h.destroys
  · rw [hdevs]
    exact fun d' t hd' ↦ hlive d' (h.owner d' t hd')
  · rw [hdevs, hpc]
    exact h.offline
  · rw [hdevs, hpc]
    exact h.collected
  · exact hunborn
  · exact hforks
  · rw [hnext, hdevs]
    intro d' hd' hon'
    by_cases he : d' = d
    · subst he
      obtain ⟨hk, hn⟩ := List.nodup_cons.1 (List.nodup_middle.1 hzs.nodup)
      refine ⟨xs ++ ys, hn, ?_, fun k' ↦ ?_⟩
      · subst hs'
        rw [List.map_append]
        exact hlinked.remove hnd
      · by_cases hkk : k' = k
        · rw [hkk, hself]
          exact ⟨fun hm ↦ absurd hm hk, fun hm ↦ by cases hm⟩
        · rw [hne k' hkk, ← hzs.mem_iff, List.mem_append, List.mem_append, List.mem_cons]
          simp [hkk]
    · obtain ⟨zs, hz⟩ := h.listed d' hd' hon'
      exact ⟨zs, hz.frame he hdev fun ho hzs' ↦
        hframe _ zs ho (fun _ hb ↦ by cases hb) fun k' hk' ↦ (hzs' k' hk').2⟩
  · rw [hpc]
    intro t
    refine (h.left t).frame (h.collected_ne hon t) hdev (fun _ k' _ ↦ hnone k') ?_
    intro k' zs hk' _ hz
    exact hframe _ zs (fun hb ↦ by cases hb) (fun _ hb ↦ Node.entry.inj hb ▸ hk')
      fun k'' hk'' ↦ (hz k'' hk'').2

/-- A turn of the loop of `dev_detach`. -/
theorem detachFrom (h : Inv s) (hpc : s.pc t = .detachAt d (some (.entry k))) :
    Inv (s.detachFrom t d k) := by
  have hleft := h.left t
  rw [hpc] at hleft
  obtain ⟨xs, hnd, hlinked, hmem⟩ := hleft
  have hk : s.dev k = some d := (hmem k).1 List.mem_cons_self
  have hcol : (s.pc t).collected = some d := by rw [hpc]; rfl
  have hself : (s.detachFrom t d k).dev k = none := by
    show (Function.update s.slots k _ k).dev = _
    rw [Function.update_self]
  have hne : ∀ k', k' ≠ k → (s.detachFrom t d k).dev k' = s.dev k' := by
    intro k' hk'
    show (Function.update s.slots k _ k').dev = _
    rw [Function.update_of_ne hk']
    rfl
  obtain ⟨hof, hdev, hnone⟩ := dev_none hself hne hk
  have hpt : (s.detachFrom t d k).pc t = .detachNext d k := Function.update_self ..
  have hpn : ∀ t', t' ≠ t → (s.detachFrom t d k).pc t' = s.pc t' := fun t' ht ↦
    Function.update_of_ne ht ..
  -- the thread keeps its device
  have hsame : ∀ f : Pc → Option Nat, f (.detachNext d k) = f (s.pc t) →
      ∀ t', f ((s.detachFrom t d k).pc t') = f (s.pc t') := same_of_update rfl
  have hfresh : ∀ k', s.Fresh k' → (s.detachFrom t d k).Fresh k' := by
    refine fresh_of_update rfl (fun d' k' hp ↦ ?_) hnone
    cases hp
    rw [hk]
    exact Option.some_ne_none d
  obtain ⟨hunborn, hforks⟩ := h.forks_of_update (s.detachFrom t d k) rfl
    (h.not_forked (by rw [hpc]; exact fun hc ↦ by cases hc)) (fun hc ↦ by cases hc)
    (fun _ _ hc ↦ by cases hc) hfresh
  refine ⟨?_, fun k' d' hk' ↦ h.dev k' d' (hof k' d' hk'), ?_, ?_, h.owner, ?_, ?_, hunborn, hforks,
    ?_, ?_⟩
  · simp only [hsame Pc.gone (by rw [hpc]; rfl)]
    exact h.tree
  · simp only [hsame Pc.holds (by rw [hpc]; rfl)]
    exact h.holds
  · simp only [hsame Pc.destroys (by rw [hpc]; rfl)]
    exact h.destroys
  · simp only [hsame Pc.collected (by rw [hpc]; rfl)]
    exact h.offline
  · simp only [hsame Pc.collected (by rw [hpc]; rfl)]
    exact h.collected
  · intro d' hd' hon
    obtain ⟨ys, hy⟩ := h.listed d' hd' hon
    refine ⟨ys, hy.nodup, hy.linked, fun k' ↦ ?_⟩
    rw [hy.mem_iff, hdev]
    rintro rfl
    exact Bool.false_ne_true (hon.symm.trans (h.collected t d' hcol))
  · intro t'
    by_cases ht : t' = t
    · rw [ht, hpt]
      obtain ⟨hkx, hnd⟩ := List.nodup_cons.1 hnd
      refine ⟨hself, xs, hnd, hlinked, fun k' ↦ ?_⟩
      by_cases hkk : k' = k
      · rw [hkk, hself]
        exact ⟨fun hm ↦ absurd hm hkx, fun hm ↦ by cases hm⟩
      · rw [hne k' hkk, ← hmem k', List.mem_cons]
        exact ⟨.inr, fun hm ↦ hm.resolve_left hkk⟩
    · rw [hpn t' ht]
      refine (h.left t').congr (fun d' hd' ↦ hdev d' ?_) (fun _ k' _ ↦ hnone k')
        (fun _ _ _ _ _ _ hl ↦ hl)
      rintro rfl
      exact ht (h.destroys_inj (Pc.destroys_of_collected hcol) (Pc.destroys_of_collected hd'))

/-- Reading the link to the next entry. -/
theorem advance (h : Inv s) (hpc : s.pc t = .detachNext d k) :
    Inv (s.setPc t (.detachAt d (s.links.next (.entry k)))) := by
  have hleft := h.left t
  rw [hpc] at hleft
  obtain ⟨-, xs, hx⟩ := hleft
  have hlink : s.links.next (.entry k) = (xs.map Node.entry).head? := hx.linked.link_eq
  refine h.setPc (h.not_forked (by rw [hpc]; exact fun hc ↦ by cases hc)) (fun hc ↦ by cases hc)
    (fun _ hc ↦ by cases hc) (fun _ _ hc ↦ by cases hc) ?_ ?_ (by rw [hpc]; rfl)
    (fun _ _ hc ↦ by cases hc) ?_
  · rintro d' ⟨⟩
    exact h.destroys t d (by rw [hpc]; rfl)
  · rintro d' ⟨⟩ hm
    exact (h.tree d hm).2 t (by rw [hpc]; rfl)
  · rw [hlink]
    cases xs with
    | nil => exact fun k' hk' ↦ absurd ((hx.mem_iff k').2 hk') List.not_mem_nil
    | cons y ys => exact ⟨ys, hx.nodup, (Links.linked_cons.1 hx.linked).2.2, hx.mem_iff⟩

/-! ## Devices -/

/-- `usrdev_destroy` begins. -/
theorem destroy (h : Inv s) (hpc : s.pc t = .idle) (ho : (s.devs d).owner = some t) :
    Inv (s.setPc t (.detach d)) := by
  refine h.setPc (h.not_forked (by rw [hpc]; exact fun hc ↦ by cases hc)) (fun hc ↦ by cases hc)
    (fun _ hc ↦ by cases hc) (fun _ _ hc ↦ by cases hc) ?_ (fun _ hc ↦ by cases hc)
    (by rw [hpc]; rfl) (fun _ _ hc ↦ by cases hc) trivial
  rintro d' ⟨⟩
  exact ho

/-- The device is taken out of the tree. -/
theorem untree (h : Inv s) (hpc : s.pc t = .detach d) :
    Inv { s.setPc t (.untreed d) with tree := s.tree.filter (· ≠ d) } := by
  have htree : Inv { s with tree := s.tree.filter (· ≠ d) } :=
    { h with tree := fun d' hd' ↦ h.tree d' (List.mem_of_mem_filter hd') }
  refine htree.setPc (t := t) (p := .untreed d) (htree.not_forked ?_) (fun hc ↦ by cases hc)
    (fun _ hc ↦ by cases hc) (fun _ _ hc ↦ by cases hc) ?_ ?_ ?_ (fun _ _ hc ↦ by cases hc) trivial
  · show s.pc t ≠ _
    rw [hpc]
    exact fun hc ↦ by cases hc
  · rintro d' ⟨⟩
    exact h.destroys t d (by rw [hpc]; rfl)
  · rintro d' ⟨⟩ hm
    simpa using List.of_mem_filter hm
  · show _ = (s.pc t).collected
    rw [hpc]
    rfl

/-- The requests of the device are freed. -/
theorem endReqs (h : Inv s) (hpc : s.pc t = .detachAt d none) : Inv (s.setPc t (.detached d)) := by
  have hleft := h.left t
  rw [hpc] at hleft
  refine h.setPc (h.not_forked (by rw [hpc]; exact fun hc ↦ by cases hc)) (fun hc ↦ by cases hc)
    (fun _ hc ↦ by cases hc) (fun _ _ hc ↦ by cases hc) ?_ ?_ (by rw [hpc]; rfl)
    (fun _ _ hc ↦ by cases hc) hleft
  · rintro d' ⟨⟩
    exact h.destroys t d (by rw [hpc]; rfl)
  · rintro d' ⟨⟩ hm
    exact (h.tree d hm).2 t (by rw [hpc]; rfl)

/-- `heap_free`, when no thread has got the device in `bus_plug` or `bus_copy`. -/
theorem free (h : Inv s) (hpc : s.pc t = .detached d) (hheld : ∀ t, (s.pc t).holds ≠ some d) :
    Inv (s.free t d) := by
  have hnone := h.left t
  rw [hpc] at hnone
  have hdes : (s.pc t).destroys = some d := by rw [hpc]; rfl
  have hpt : (s.free t d).pc t = .idle := Function.update_self ..
  have hpn : ∀ t', t' ≠ t → (s.free t d).pc t' = s.pc t' := fun t' ht ↦
    Function.update_of_ne ht ..
  have hdself : (s.free t d).devs d = { s.devs d with freed := true, owner := none } :=
    Function.update_self ..
  have hdne : ∀ d', d' ≠ d → (s.free t d).devs d' = s.devs d' := fun d' hd' ↦
    Function.update_of_ne hd' ..
  have hlive : ∀ d', d' ≠ d → s.Live d' → (s.free t d).Live d' := fun d' hd' hl ↦
    ⟨hl.1, by rw [hdne d' hd']; exact hl.2⟩
  have hoff : ∀ d', ((s.free t d).devs d').offline = (s.devs d').offline := by
    intro d'
    by_cases hd' : d' = d
    · rw [hd', hdself]
    · rw [hdne d' hd']
  -- what other threads do
  have hother : ∀ {α : Type} (f : Pc → Option α), f .idle = none → ∀ t' a,
      f ((s.free t d).pc t') = some a → t' ≠ t ∧ f (s.pc t') = some a := by
    intro α f hf t' a ha
    have ht : t' ≠ t := by
      rintro rfl
      rw [hpt, hf] at ha
      cases ha
    rw [hpn t' ht] at ha
    exact ⟨ht, ha⟩
  have hfresh : ∀ k', s.Fresh k' → (s.free t d).Fresh k' :=
    fresh_of_update rfl (fun _ _ hp ↦ by cases hp) fun _ hk' ↦ hk'
  obtain ⟨hunborn, hforks⟩ := h.forks_of_update (s.free t d) rfl
    (h.not_forked (by rw [hpc]; exact fun hc ↦ by cases hc)) (fun hc ↦ by cases hc)
    (fun _ _ hc ↦ by cases hc) hfresh
  refine ⟨?_, ?_, ?_, ?_, ?_, ?_, ?_, hunborn, hforks, ?_, ?_⟩
  · intro d' hd'
    obtain ⟨hl, hg⟩ := h.tree d' hd'
    refine ⟨hlive d' ?_ hl, fun t' hgone ↦ hg t' (hother Pc.gone rfl t' d' hgone).2⟩
    rintro rfl
    exact hg t (by rw [hpc]; rfl)
  · intro k' d' hk'
    refine hlive d' ?_ (h.dev k' d' hk')
    rintro rfl
    exact hnone k' hk'
  · intro t' d' hd'
    have hold := (hother Pc.holds rfl t' d' hd').2
    refine hlive d' ?_ (h.holds t' d' hold)
    rintro rfl
    exact hheld t' hold
  · intro t' d' hd'
    obtain ⟨ht, hold⟩ := hother Pc.destroys rfl t' d' hd'
    rw [hdne d']
    · exact h.destroys t' d' hold
    · rintro rfl
      exact ht (h.destroys_inj hdes hold)
  · intro d' t' ho
    have hd' : d' ≠ d := by
      rintro rfl
      rw [hdself] at ho
      cases ho
    rw [hdne d' hd'] at ho
    exact hlive d' hd' (h.owner d' t' ho)
  · intro d' hd'
    rw [hoff] at hd'
    by_cases he : d' = d
    · rw [he, hdself]
      exact .inl rfl
    · rw [hdne d' he]
      refine (h.offline d' hd').imp_right ?_
      rintro ⟨t', ht'⟩
      refine ⟨t', ?_⟩
      rw [hpn]
      · exact ht'
      · rintro rfl
        rw [hpc] at ht'
        exact he (Option.some.inj ht').symm
  · intro t' d' hd'
    rw [hoff]
    exact h.collected t' d' (hother Pc.collected rfl t' d' hd').2
  · intro d' hd' hon
    rw [hoff] at hon
    exact h.listed d' hd' hon
  · intro t'
    by_cases ht : t' = t
    · rw [ht, hpt]
      trivial
    · rw [hpn t' ht]
      exact h.left t'

/-- A device is created. -/
theorem creat (h : Inv s) (usr : Bool) (did : Nat) : Inv (s.creat usr t did) := by
  rw [State.creat]
  cases s.treeFind did with
  | some d => exact h
  | none =>
    generalize hs' : ({ s with
      tree := s.next :: s.tree
      devs := Function.update s.devs s.next ⟨did, usr, false, if usr then some t else none, false⟩
      next := s.next + 1
      links := s.links.setLink (some (.busdevs s.next)) none } : State) = s'
    have hpc : s'.pc = s.pc := by subst hs'; rfl
    have hdev : s'.dev = s.dev := by subst hs'; rfl
    have hself : s'.devs s.next = ⟨did, usr, false, if usr then some t else none, false⟩ := by
      subst hs'
      exact Function.update_self ..
    have hne : ∀ d, d ≠ s.next → s'.devs d = s.devs d := fun d hd ↦ by
      subst hs'
      exact Function.update_of_ne hd ..
    have hnext : s'.next = s.next + 1 := by subst hs'; rfl
    have hlt : ∀ d, s.Live d → s'.devs d = s.devs d := fun d hd ↦ hne d (Nat.ne_of_lt hd.1)
    have hlive : ∀ d, s.Live d → s'.Live d := fun d hd ↦
      ⟨by rw [hnext]; exact Nat.lt_succ_of_lt hd.1, by rw [hlt d hd]; exact hd.2⟩
    have hnew : s'.Live s.next := ⟨by rw [hnext]; exact Nat.lt_succ_self _, by rw [hself]⟩
    have hframe : ∀ (o : Node) (xs : List Slot), o ≠ .busdevs s.next →
        s.links.Linked (some o) (xs.map .entry) → s'.links.Linked (some o) (xs.map .entry) := by
      intro o xs ho hl
      subst hs'
      exact linked_setLink hl ho.symm (fun _ hc ↦ by cases hc) none
    obtain ⟨hunborn, hforks⟩ := h.forks_of_eq _ hpc
      fun k hk ↦ ⟨by rw [hdev]; exact hk.1, by rw [hpc]; exact hk.2⟩
    constructor
    · intro d hd
      have hd' : d = s.next ∨ d ∈ s.tree := by
        subst hs'
        exact List.mem_cons.1 hd
      rw [hpc]
      rcases hd' with rfl | hd'
      · exact ⟨hnew, fun t' hg ↦
          Nat.lt_irrefl _ (h.live_of_destroys (Pc.destroys_of_gone hg)).1⟩
      · exact ⟨hlive d (h.tree d hd').1, (h.tree d hd').2⟩
    · rw [hdev]
      exact fun k d hk ↦ hlive d (h.dev k d hk)
    · rw [hpc]
      exact fun t' d hd ↦ hlive d (h.holds t' d hd)
    · rw [hpc]
      intro t' d hd
      rw [hlt d (h.live_of_destroys hd)]
      exact h.destroys t' d hd
    · intro d t' ho
      by_cases hd : d = s.next
      · exact hd ▸ hnew
      · rw [hne d hd] at ho
        exact hlive d (h.owner d t' ho)
    · rw [hpc]
      intro d hd
      by_cases he : d = s.next
      · rw [he, hself] at hd
        cases hd
      · rw [hne d he] at hd ⊢
        exact h.offline d hd
    · rw [hpc]
      intro t' d hd
      rw [hlt d (h.live_of_destroys (Pc.destroys_of_collected hd))]
      exact h.collected t' d hd
    · exact hunborn
    · exact hforks
    · intro d hd hon
      rw [hdev]
      by_cases he : d = s.next
      · subst he
        refine ⟨[], .nil, Links.linked_nil.2 ?_, fun k ↦
          ⟨fun hm ↦ absurd hm List.not_mem_nil, fun hk ↦
            absurd (h.dev k _ hk).1 (Nat.lt_irrefl _)⟩⟩
        subst hs'
        rw [Links.link_setLink, if_pos rfl]
      · rw [hnext] at hd
        rw [hne d he] at hon
        obtain ⟨xs, hx⟩ := h.listed d (Nat.lt_of_le_of_ne (Nat.le_of_lt_succ hd) he) hon
        exact ⟨xs, hx.nodup, hframe _ xs (fun hb ↦ he (Node.busdevs.inj hb)) hx.linked, hx.mem_iff⟩
    · rw [hdev, hpc]
      exact fun t' ↦ (h.left t').congr (fun _ _ _ ↦ Iff.rfl) (fun _ _ _ hk ↦ hk)
        fun _ _ _ _ _ _ hl ↦ hframe _ _ (fun hb ↦ by cases hb) hl

end Inv

/-- The loop that moves the entries of a device to `destroy_list`, and what becomes of the other
lists. -/
theorem collectLoop_linked {xs ys : List Slot} {n : Nat} {l l' : Links Node}
    (hx : l.Linked (some (.busdevs d)) (xs.map .entry))
    (hy : l.Linked (some (.destroy t)) (ys.map .entry)) (hn : (xs ++ ys).Nodup)
    (h : State.collectLoop t n (l.next (.busdevs d)) l = some l') :
    l'.Linked (some (.destroy t)) ((xs.reverse ++ ys).map .entry) ∧
    ∀ (o : Node) (zs : List Slot), o ≠ .busdevs d → o ≠ .destroy t →
      (∀ k, o = .entry k → k ∉ xs ++ ys) → (∀ k ∈ zs, k ∉ xs ++ ys) →
      l.Linked (some o) (zs.map .entry) → l'.Linked (some o) (zs.map .entry) := by
  have hnext : l.next (.busdevs d) = (xs.map Node.entry).head? := hx.link_eq
  rw [hnext] at h
  clear hnext
  induction xs generalizing n l ys with
  | nil =>
      cases n with
      | zero =>
          cases h
          exact ⟨hy, fun _ _ _ _ _ _ hl ↦ hl⟩
      | succ n => cases h
  | cons x xs ih =>
      cases n with
      | zero => cases h
      | succ n =>
        have h : State.collectLoop t n (l.next (.entry x))
          ((l.remove (.entry x)).insertAfter (.destroy t) (.entry x)) = some l' := h
        obtain ⟨hxn, hnd⟩ := List.nodup_cons.1 hn
        obtain ⟨hxs, hxy⟩ := not_or.1 (List.mem_append.not.1 hxn)
        have hdx : (Node.busdevs d :: (x :: xs).map Node.entry).Nodup :=
          List.nodup_cons.2 ⟨notMem_entries (fun _ hc ↦ by cases hc) _,
            (List.nodup_append.1 hn).1.map entry_injective⟩
        have hdy : (Node.destroy t :: ys.map Node.entry).Nodup :=
          List.nodup_cons.2 ⟨notMem_entries (fun _ hc ↦ by cases hc) _,
            (List.nodup_append.1 hn).2.1.map entry_injective⟩
        have hdis : ∀ k ∈ x :: xs, k ∉ ys := fun k hk hk' ↦
          (List.nodup_append.1 hn).2.2 k hk k hk' rfl
        have hne : ∀ {o : Node} {zs : List Slot}, o ≠ .entry x → x ∉ zs →
            Node.entry x ∉ o :: zs.map Node.entry := by
          intro o zs ho hz hm
          rcases List.mem_cons.1 hm with he | hm
          · exact ho he.symm
          · exact hz ((List.mem_map_of_injective entry_injective).1 hm)
        -- after `LIST_REMOVE`
        have hx₀ : l.Linked (some (.busdevs d)) ([] ++ Node.entry x :: xs.map .entry) := hx
        have hx₁ : (l.remove (.entry x)).Linked (some (.busdevs d)) (xs.map .entry) :=
          hx₀.remove hdx
        have hy₁ : (l.remove (.entry x)).Linked (some (.destroy t)) (ys.map .entry) :=
          hx₀.remove_of_disjoint hy
            (disjoint_nodes (fun hc ↦ by cases hc) hdis (fun _ hc ↦ by cases hc)
              fun _ hc ↦ by cases hc)
        -- after `LIST_INSERT_HEAD`
        have hx₂ := hy₁.insertAfter_of_disjoint hx₁ (hne (fun hc ↦ by cases hc) hxs)
          (disjoint_nodes (fun hc ↦ by cases hc)
            (fun k hk hk' ↦ hdis k (List.mem_cons_of_mem _ hk') hk)
            (fun _ hc ↦ by cases hc) fun _ hc ↦ by cases hc)
        have hy₂ : ((l.remove (.entry x)).insertAfter (.destroy t) (.entry x)).Linked
            (some (.destroy t)) ((x :: ys).map .entry) := hy₁.insertAfter hdy
            (hne (fun hc ↦ by cases hc) hxy)
        have hhead : l.next (.entry x) = (xs.map Node.entry).head? :=
          hx₀.next_eq
        rw [hhead] at h
        obtain ⟨hl, hframe⟩ := ih hx₂ hy₂
          (List.nodup_middle.2 (List.nodup_cons.2 ⟨hxn, hnd⟩)) h
        refine ⟨by simpa using hl, fun o zs hob hod hok hz hlz ↦ ?_⟩
        have hmem : ∀ k, k ∉ x :: xs ++ ys → k ∉ xs ++ x :: ys := fun k hk hm ↦
          hk (List.perm_middle.mem_iff.1 hm)
        refine hframe o zs hob hod (fun k hk ↦ hmem k (hok k hk)) (fun k hk ↦ hmem k (hz k hk)) ?_
        have hz₁ := hx₀.remove_of_disjoint hlz
          (disjoint_nodes hob.symm (fun k hk hk' ↦ hz k hk' (List.mem_append_left _ hk))
            (fun k he hk ↦ hok k he (List.mem_append_left _ hk)) fun _ hc ↦ by cases hc)
        refine hy₁.insertAfter_of_disjoint hz₁ (hne ?_ ?_)
          (disjoint_nodes hod.symm (fun k hk hk' ↦ hz k hk' (List.mem_append_right _ hk))
            (fun k he hk ↦ hok k he (List.mem_append_right _ hk)) fun _ hc ↦ by cases hc)
        · rintro rfl
          exact hok x rfl List.mem_cons_self
        · exact fun hm ↦ hz x hm List.mem_cons_self

/-- What `collect` does with the entries `xs` of the device. -/
structure Collects (s : State) (t d : Nat) (xs : List Slot) (s' : State) : Prop where
  pc : s'.pc = Function.update s.pc t (.detachAt d (s'.links.next (.destroy t)))
  devs : s'.devs = Function.update s.devs d { s.devs d with offline := true }
  dev : s'.dev = s.dev
  next : s'.next = s.next
  tree : s'.tree = s.tree
  linked : s'.links.Linked (some (.destroy t)) (xs.reverse.map .entry)
  frame : ∀ (o : Node) (zs : List Slot), o ≠ .busdevs d → o ≠ .destroy t →
    (∀ k, o = .entry k → s.dev k ≠ some d) → (∀ k ∈ zs, s.dev k ≠ some d) →
    s.links.Linked (some o) (zs.map .entry) → s'.links.Linked (some o) (zs.map .entry)

theorem collects {n : Nat} {s' : State} {xs : List Slot} (hs' : s.collect t d n = some s')
    (hx : Listed s.links s.dev (.busdevs d) d xs) : Collects s t d xs s' := by
  -- `LIST_INIT` of `destroy_list`
  have hinit : ∀ (o : Node) (zs : List Slot), o ≠ .destroy t →
      s.links.Linked (some o) (zs.map .entry) →
      (s.links.setLink (some (.destroy t)) none).Linked (some o) (zs.map .entry) :=
    fun o zs ho hl ↦ linked_setLink hl ho.symm (fun _ hc ↦ by cases hc) none
  have hnil : (s.links.setLink (some (.destroy t)) none).Linked (some (.destroy t))
      (([] : List Slot).map .entry) :=
    Links.linked_nil.2 (by rw [Links.link_setLink, if_pos rfl])
  rw [State.collect] at hs'
  split at hs'
  · cases hs'
  rename_i l hl
  cases hs'
  obtain ⟨hlist, hframe⟩ := collectLoop_linked (hinit _ xs (fun hc ↦ by cases hc) hx.linked) hnil
    (by rw [List.append_nil]; exact hx.nodup) hl
  simp only [List.append_nil] at hlist hframe
  refine ⟨rfl, rfl, rfl, rfl, rfl, hlist, fun o zs hob hod hok hz hlz ↦ ?_⟩
  exact hframe o zs hob hod (fun k hk hm ↦ hok k hk ((hx.mem_iff k).1 hm))
    (fun k hk hm ↦ hz k hk ((hx.mem_iff k).1 hm)) (hinit o zs hod hlz)

namespace Collects

variable {s' : State} {xs : List Slot} {d' : Nat}

theorem devs_self (hc : Collects s t d xs s') : s'.devs d = { s.devs d with offline := true } := by
  rw [hc.devs, Function.update_self]

theorem devs_of_ne (hc : Collects s t d xs s') (hd : d' ≠ d) : s'.devs d' = s.devs d' := by
  rw [hc.devs, Function.update_of_ne hd]

theorem pc_self (hc : Collects s t d xs s') :
    s'.pc t = .detachAt d (s'.links.next (.destroy t)) := by
  rw [hc.pc, Function.update_self]

theorem pc_of_ne (hc : Collects s t d xs s') {t' : Nat} (ht : t' ≠ t) : s'.pc t' = s.pc t' := by
  rw [hc.pc, Function.update_of_ne ht]

theorem live (hc : Collects s t d xs s') (hl : s.Live d') : s'.Live d' := by
  refine ⟨hc.next.symm ▸ hl.1, ?_⟩
  by_cases he : d' = d
  · subst he
    rw [hc.devs_self]
    exact hl.2
  · rw [hc.devs_of_ne he]
    exact hl.2

theorem owner (hc : Collects s t d xs s') (d' : Nat) :
    (s'.devs d').owner = (s.devs d').owner := by
  by_cases he : d' = d
  · rw [he, hc.devs_self]
  · rw [hc.devs_of_ne he]

/-- The list that the loop goes through has the entries of the device. -/
theorem left_self (hc : Collects s t d xs s') (hx : Listed s.links s.dev (.busdevs d) d xs) :
    Left s'.links s'.dev (s'.pc t) := by
  rw [hc.pc_self, hc.dev]
  have hhead : s'.links.next (.destroy t) = (xs.reverse.map Node.entry).head? := hc.linked.link_eq
  have hmem : ∀ k, k ∈ xs.reverse ↔ s.dev k = some d := fun k ↦
    List.mem_reverse.trans (hx.mem_iff k)
  have hnd := List.nodup_reverse.2 hx.nodup
  have hlist := hc.linked
  rw [hhead]
  cases hr : xs.reverse with
  | nil =>
      rw [hr] at hmem
      exact fun k hk ↦ absurd ((hmem k).2 hk) List.not_mem_nil
  | cons y ys =>
      rw [hr] at hmem hnd hlist
      exact ⟨ys, hnd, (Links.linked_cons.1 hlist).2.2, hmem⟩

/-- The loops of other threads go through the entries of other devices. -/
theorem left_of_ne (hc : Collects s t d xs s') {p : Pc} (hp : p.collected ≠ some d)
    (hl : Left s.links s.dev p) : Left s'.links s'.dev p := by
  rw [hc.dev]
  refine hl.frame hp (fun _ _ _ ↦ Iff.rfl) (fun _ _ _ hk ↦ hk) fun k zs hk _ hz ↦ ?_
  exact hc.frame _ zs (fun hb ↦ by cases hb) (fun hb ↦ by cases hb)
    (fun _ hb ↦ Node.entry.inj hb ▸ hk) fun k' hk' ↦ (hz k' hk').2

end Collects

namespace Inv

/-- A device that is out of the tree, but not off line yet. -/
theorem online (h : Inv s) (hpc : s.pc t = .untreed d) : (s.devs d).offline = false := by
  have hdes : (s.pc t).destroys = some d := by rw [hpc]; rfl
  rw [← Bool.not_eq_true]
  intro hoff
  rcases h.offline d hoff with hf | ⟨t', ht'⟩
  · exact Bool.false_ne_true ((h.live_of_destroys hdes).2.symm.trans hf)
  · rw [h.destroys_inj hdes (Pc.destroys_of_collected ht'), hpc] at ht'
    cases ht'

/-- The device is taken off line. -/
theorem collect (h : Inv s) (hpc : s.pc t = .untreed d) {n : Nat} {s' : State}
    (hs' : s.collect t d n = some s') : Inv s' := by
  have hdes : (s.pc t).destroys = some d := by rw [hpc]; rfl
  obtain ⟨xs, hx⟩ := h.listed d (h.live_of_destroys hdes).1 (h.online hpc)
  have hc := collects hs' hx
  -- the thread keeps its device
  have hsame : ∀ f : Pc → Option Nat,
      f (.detachAt d (s'.links.next (.destroy t))) = f (s.pc t) →
      ∀ t', f (s'.pc t') = f (s.pc t') := same_of_update hc.pc
  have hne : ∀ {t' d'}, (s.pc t').collected = some d' → t' ≠ t ∧ d' ≠ d := by
    intro t' d' hd'
    have ht : t' ≠ t := by
      rintro rfl
      rw [hpc] at hd'
      cases hd'
    refine ⟨ht, ?_⟩
    rintro rfl
    exact ht (h.destroys_inj hdes (Pc.destroys_of_collected hd'))
  obtain ⟨hunborn, hforks⟩ := h.forks_of_update s' hc.pc
    (h.not_forked (by rw [hpc]; exact fun hp ↦ by cases hp)) (fun hp ↦ by cases hp)
    (fun _ _ hp ↦ by cases hp)
    (fresh_of_update hc.pc (fun _ _ hp ↦ by cases hp) fun _ hk ↦ by rw [hc.dev]; exact hk)
  refine ⟨?_, ?_, ?_, ?_, ?_, ?_, ?_, hunborn, hforks, ?_, ?_⟩
  · simp only [hsame Pc.gone (by rw [hpc]; rfl), hc.tree]
    exact fun d' hd' ↦ ⟨hc.live (h.tree d' hd').1, (h.tree d' hd').2⟩
  · rw [hc.dev]
    exact fun k d' hk ↦ hc.live (h.dev k d' hk)
  · simp only [hsame Pc.holds (by rw [hpc]; rfl)]
    exact fun t' d' hd' ↦ hc.live (h.holds t' d' hd')
  · simp only [hsame Pc.destroys (by rw [hpc]; rfl), hc.owner]
    exact h.destroys
  · simp only [hc.owner]
    exact fun d' t' ho ↦ hc.live (h.owner d' t' ho)
  · intro d' hd'
    by_cases he : d' = d
    · exact .inr ⟨t, by rw [hc.pc_self, he]; rfl⟩
    · rw [hc.devs_of_ne he] at hd' ⊢
      refine (h.offline d' hd').imp_right fun ⟨t', ht'⟩ ↦ ⟨t', ?_⟩
      rwa [hc.pc_of_ne (hne ht').1]
  · intro t' d' hd'
    by_cases ht : t' = t
    · rw [ht, hc.pc_self] at hd'
      cases hd'
      rw [hc.devs_self]
    · rw [hc.pc_of_ne ht] at hd'
      rw [hc.devs_of_ne (hne hd').2]
      exact h.collected t' d' hd'
  · intro d' hd' hon
    have he : d' ≠ d := by
      rintro rfl
      rw [hc.devs_self] at hon
      cases hon
    rw [hc.devs_of_ne he] at hon
    rw [hc.next] at hd'
    obtain ⟨zs, hz⟩ := h.listed d' hd' hon
    rw [hc.dev]
    exact ⟨zs, hz.frame he (fun _ _ _ ↦ Iff.rfl) fun ho hzs ↦
      hc.frame _ zs ho (fun hb ↦ by cases hb) (fun _ hb ↦ by cases hb) fun k hk ↦ (hzs k hk).2⟩
  · intro t'
    by_cases ht : t' = t
    · exact ht ▸ hc.left_self hx
    · rw [hc.pc_of_ne ht]
      exact hc.left_of_ne (fun hd' ↦ (hne hd').2 rfl) (h.left t')

end Inv

end Mh.Life
