import Mh.Lib.Run
import Mh.Proc.Model
import Mathlib.Data.List.Nodup

/-!
# Every thread is on one list of children

`TInv` says which list each thread is on, by its parent field and by how far it has come: a
thread that `do_zombie` has not passed to its parent is on `active_children`, and then it is on
`zombie_children` until it is freed.  The parent of a thread that is not freed has not exited,
since a thread that exits leaves its children to `init`.
-/

namespace Mh.Proc

open Mh.Lib

variable {Cpu : Type}

/-- A thread that belongs on `active_children`. -/
def Life.isActive : Life Cpu → Bool
  | .live | .exited _ => true
  | _ => false

/-- A thread that has been forked and not freed. -/
def Life.isPresent : Life Cpu → Bool
  | .live | .exited _ | .zombie => true
  | _ => false

theorem Life.isPresent_of_isActive {l : Life Cpu} (h : l.isActive) : l.isPresent := by
  cases l <;> first | exact h | rfl

/-- The invariant of the lists. -/
structure TInv (s : State Cpu) : Prop where
  init_live : s.life s.init = .live
  init_parent : s.parent s.init = none
  fresh : ∀ t, s.next ≤ t → s.life t = .unborn
  active : ∀ t p, t ∈ s.active p ↔ s.parent t = some p ∧ (s.life t).isActive
  zombies : ∀ t p, t ∈ s.zombies p ↔ s.parent t = some p ∧ s.life t = .zombie
  resched : ∀ t i, t ∈ s.resched i ↔ s.life t = .exited i
  parent : ∀ t, (s.life t).isPresent → t ≠ s.init → ∃ p, s.parent t = some p ∧ s.life p = .live
  nodup_active : ∀ p, (s.active p).Nodup
  nodup_zombies : ∀ p, (s.zombies p).Nodup
  nodup_resched : ∀ i, (s.resched i).Nodup

variable {s s' : State Cpu} {t p c : Nat}

/-- What `thfork` does. -/
theorem State.thfork_ok (hs : s.thfork p = .ok s') :
    s' = { s with
      next := s.next + 1
      life := Function.update s.life s.next .live
      parent := Function.update s.parent s.next (some p)
      creator := Function.update s.creator s.next (some p)
      active := Function.update (Function.update s.active s.next []) p (s.next :: s.active p)
      zombies := Function.update s.zombies s.next [] } := by
  unfold State.thfork State.getnewpid at hs
  split at hs
  · exact (Except.ok.inj hs).symm
  · cases hs

namespace TInv

/-- A child that is not freed has a parent that has not exited. -/
theorem parent_live (h : TInv s) (ht : (s.life t).isPresent) (hp : s.parent t = some p) :
    s.life p = .live := by
  have hi : t ≠ s.init := by
    rintro rfl
    rw [h.init_parent] at hp
    cases hp
  obtain ⟨q, hq, hl⟩ := h.parent t ht hi
  rw [hp] at hq
  cases hq
  exact hl

theorem boot : TInv (boot : State Cpu) where
  init_live := rfl
  init_parent := rfl
  fresh t ht := by
    have ht' : 2 ≤ t := ht
    show (if t = 0 then Life.idle else if t = 1 then .live else .unborn) = _
    rw [if_neg (by omega), if_neg (by omega)]
  active _ _ := iff_of_false (List.not_mem_nil) fun h ↦ nomatch h.1
  zombies _ _ := iff_of_false (List.not_mem_nil) fun h ↦ nomatch h.1
  resched t i := by
    refine iff_of_false List.not_mem_nil fun h ↦ ?_
    change (if t = 0 then Life.idle else if t = 1 then .live else .unborn) = _ at h
    split at h
    · cases h
    · split at h <;> cases h
  parent t ht hi := by
    exfalso
    change
      (if t = 0 then Life.idle else if t = 1 then .live else .unborn : Life Cpu).isPresent at ht
    rw [if_neg (show t ≠ 1 from hi)] at ht
    split at ht <;> cases ht
  nodup_active _ := List.nodup_nil
  nodup_zombies _ := List.nodup_nil
  nodup_resched _ := List.nodup_nil

/-! ## New threads -/

/-- A thread that has not been forked, and one that has exited, is no one's parent. -/
theorem childless (h : TInv s) (hp : s.life p ≠ .live) (ht : (s.life t).isPresent) :
    s.parent t ≠ some p := fun hpt ↦ hp (h.parent_live ht hpt)

/-- `thfork`. -/
theorem thfork (h : TInv s) (hp : s.life p = .live) (hs : s.thfork p = .ok s') : TInv s' := by
  obtain rfl := State.thfork_ok hs
  have hnew : s.life s.next = .unborn := h.fresh _ (Nat.le_refl _)
  have hne : ∀ {u}, (s.life u).isPresent → u ≠ s.next := by
    rintro u hu rfl
    rw [hnew] at hu
    cases hu
  have hpn : p ≠ s.next := hne (by rw [hp]; rfl)
  have hin : s.init ≠ s.next := hne (by rw [h.init_live]; rfl)
  have hnone : ∀ u, (s.life u).isPresent → s.parent u ≠ some s.next := fun u hu ↦
    h.childless (by simp [hnew]) hu
  have hl : ∀ {u}, u ≠ s.next → Function.update s.life s.next .live u = s.life u := fun hu ↦
    Function.update_of_ne hu ..
  have hpar : ∀ {u}, u ≠ s.next → Function.update s.parent s.next (some p) u = s.parent u :=
    fun hu ↦ Function.update_of_ne hu ..
  refine ⟨?_, ?_, fun t ht ↦ ?_, fun t q ↦ ?_, fun t q ↦ ?_, fun t i ↦ ?_, fun t ht hti ↦ ?_,
    fun q ↦ ?_, fun q ↦ ?_, h.nodup_resched⟩
  · exact (hl hin).trans h.init_live
  · exact (hpar hin).trans h.init_parent
  · have ht' : s.next + 1 ≤ t := ht
    exact (hl (by omega)).trans (h.fresh t (by omega))
  · have hold := h.active t q
    have hnt := hnone t
    have hact := Life.isPresent_of_isActive (l := s.life t)
    dsimp only
    simp only [Function.update_apply]
    grind [Life.isActive, Life.isPresent]
  · have hold := h.zombies t q
    have hnt := hnone t
    dsimp only
    simp only [Function.update_apply]
    grind [Life.isActive, Life.isPresent]
  · have hold := h.resched t i
    dsimp only
    simp only [Function.update_apply]
    grind
  · have hold := h.parent t
    dsimp only at ht ⊢
    simp only [Function.update_apply] at ht ⊢
    grind
  · dsimp only
    have hnd := h.nodup_active q
    have hold := h.active s.next q
    simp only [Function.update_apply]
    grind [Life.isActive]
  · dsimp only
    have hnd := h.nodup_zombies q
    simp only [Function.update_apply]
    grind

/-- A CPU comes up. -/
theorem bootAp (h : TInv s) : TInv { s with
    next := s.next + 1
    life := Function.update s.life s.next .idle } := by
  have hnew : s.life s.next = .unborn := h.fresh _ (Nat.le_refl _)
  have hl : ∀ {u}, u ≠ s.next → Function.update s.life s.next .idle u = s.life u := fun hu ↦
    Function.update_of_ne hu ..
  have hli : s.life s.init = .live := h.init_live
  refine ⟨?_, h.init_parent, fun t ht ↦ ?_, fun t q ↦ ?_, fun t q ↦ ?_, fun t i ↦ ?_,
    fun t ht hti ↦ ?_, h.nodup_active, h.nodup_zombies, h.nodup_resched⟩
  · show Function.update s.life s.next .idle s.init = .live
    grind
  · have ht' : s.next + 1 ≤ t := ht
    exact (hl (by omega)).trans (h.fresh t (by omega))
  · have hold := h.active t q
    dsimp only
    simp only [Function.update_apply]
    grind [Life.isActive]
  · have hold := h.zombies t q
    dsimp only
    simp only [Function.update_apply]
    grind
  · have hold := h.resched t i
    dsimp only
    simp only [Function.update_apply]
    grind
  · have hold := h.parent t
    dsimp only at ht ⊢
    simp only [Function.update_apply] at ht ⊢
    grind [Life.isPresent]

/-! ## Exits -/

/-- The children of a thread, by their parent field. -/
theorem mem_children (h : TInv s) : t ∈ s.active p ∨ t ∈ s.zombies p ↔
    s.parent t = some p ∧ (s.life t).isPresent := by
  rw [h.active, h.zombies]
  cases hl : s.life t <;> simp [Life.isActive, Life.isPresent]

/-- A list is put in front of another one, in reverse order. -/
theorem nodup_moved {l m : List Nat} (hl : l.Nodup) (hm : m.Nodup) (h : ∀ t ∈ l, t ∉ m) :
    (l.reverse ++ m).Nodup :=
  List.nodup_append.2 ⟨List.nodup_reverse.2 hl, hm, by grind⟩

/-- The children of a thread become children of `init`. -/
theorem inherit (h : TInv s) (hp : p ≠ s.init) : TInv (s.inherit p) := by
  have hpar : ∀ u, (s.inherit p).parent u =
      if s.parent u = some p ∧ (s.life u).isPresent then some s.init else s.parent u := by
    intro u
    show (if u ∈ s.active p ∨ u ∈ s.zombies p then some s.init else s.parent u) = _
    simp only [h.mem_children]
  refine ⟨h.init_live, ?_, h.fresh, fun t q ↦ ?_, fun t q ↦ ?_, h.resched, fun t ht hti ↦ ?_,
    fun q ↦ ?_, fun q ↦ ?_, h.nodup_resched⟩
  · show (s.inherit p).parent s.init = none
    rw [hpar, h.init_parent]
    rfl
  · have hold := h.active t q
    have hmine := h.active t p
    have hinit := h.active t s.init
    have hact := Life.isPresent_of_isActive (l := s.life t)
    rw [hpar]
    dsimp only [State.inherit]
    simp only [Function.update_apply]
    grind
  · have hold := h.zombies t q
    have hmine := h.zombies t p
    have hinit := h.zombies t s.init
    rw [hpar]
    dsimp only [State.inherit]
    simp only [Function.update_apply]
    grind [Life.isPresent]
  · obtain ⟨q, hq, hl⟩ := h.parent t ht hti
    rw [hpar]
    split
    · exact ⟨s.init, rfl, h.init_live⟩
    · exact ⟨q, hq, hl⟩
  · have hdisj : ∀ t ∈ s.active p, t ∉ s.active s.init := fun t ht hti ↦
      hp (Option.some.inj (((h.active t p).1 ht).1.symm.trans ((h.active t s.init).1 hti).1))
    dsimp only [State.inherit]
    simp only [Function.update_apply]
    split
    · exact List.nodup_nil
    · split
      · exact nodup_moved (h.nodup_active p) (h.nodup_active s.init) hdisj
      · exact h.nodup_active q
  · have hdisj : ∀ t ∈ s.zombies p, t ∉ s.zombies s.init := fun t ht hti ↦
      hp (Option.some.inj (((h.zombies t p).1 ht).1.symm.trans ((h.zombies t s.init).1 hti).1))
    dsimp only [State.inherit]
    simp only [Function.update_apply]
    split
    · exact List.nodup_nil
    · split
      · exact nodup_moved (h.nodup_zombies p) (h.nodup_zombies s.init) hdisj
      · exact h.nodup_zombies q

/-- Then the thread has none left. -/
theorem inherit_childless (h : TInv s) (hp : p ≠ s.init) (ht : (s.life t).isPresent) :
    (s.inherit p).parent t ≠ some p := by
  show (if t ∈ s.active p ∨ t ∈ s.zombies p then some s.init else s.parent t) ≠ some p
  simp only [h.mem_children]
  split
  · exact fun hi ↦ hp (Option.some.inj hi).symm
  · next hn => exact fun hpt ↦ hn ⟨hpt, ht⟩

variable [DecidableEq Cpu] {i : Cpu} {status : Int}

/-- A thread without children leaves. -/
theorem retire (h : TInv s) (hp : s.life p = .live) (hi : p ≠ s.init)
    (hc : ∀ t, (s.life t).isPresent → s.parent t ≠ some p) : TInv (s.retire i p status) := by
  have hl : ∀ u, (s.retire i p status).life u = if u = p then .exited i else s.life u :=
    fun u ↦ Function.update_apply ..
  have hr : ∀ j, (s.retire i p status).resched j =
      if j = i then s.resched i ++ [p] else s.resched j := fun j ↦ Function.update_apply ..
  have hout : ∀ j, p ∉ s.resched j := fun j hj ↦ by
    rw [h.resched, hp] at hj
    cases hj
  refine ⟨?_, h.init_parent, fun t ht ↦ ?_, fun t q ↦ ?_, fun t q ↦ ?_, fun t j ↦ ?_,
    fun t ht hti ↦ ?_, h.nodup_active, h.nodup_zombies, fun j ↦ ?_⟩
  · exact (hl s.init).trans ((if_neg (Ne.symm hi)).trans h.init_live)
  · rw [hl, if_neg, h.fresh t ht]
    rintro rfl
    rw [h.fresh t ht] at hp
    cases hp
  · rw [hl]
    show t ∈ s.active q ↔ s.parent t = some q ∧ _
    rw [h.active]
    grind [Life.isActive]
  · rw [hl]
    show t ∈ s.zombies q ↔ s.parent t = some q ∧ _
    rw [h.zombies]
    grind
  · rw [hl, hr]
    have hold := h.resched t
    grind
  · rw [hl] at ht
    have hpres : (s.life t).isPresent := by
      split at ht
      · next he => rw [he, hp]; rfl
      · exact ht
    obtain ⟨q, hq, hlq⟩ := h.parent t hpres hti
    refine ⟨q, hq, ?_⟩
    rw [hl, if_neg]
    · exact hlq
    · rintro rfl
      exact hc t hpres hq
  · rw [hr]
    split
    · exact List.nodup_append.2 ⟨h.nodup_resched i, List.nodup_singleton p, by grind⟩
    · exact h.nodup_resched j

/-- `__exit`. -/
theorem exit (h : TInv s) (hp : s.life p = .live) (hs : s.exit i p status = .ok s') : TInv s' := by
  unfold State.exit at hs
  split at hs
  · cases hs
  · next hpar =>
      obtain rfl := Except.ok.inj hs
      have hi : p ≠ s.init := by
        rintro rfl
        exact hpar h.init_parent
      exact (h.inherit hi).retire hp hi fun t ht ↦ h.inherit_childless hi ht

/-- What `do_zombie` does when there is a thread on the list. -/
theorem doZombie_cons {ts : List Nat} (h : TInv s) (hr : s.resched i = t :: ts) :
    ∃ p, s.parent t = some p ∧ s.life p = .live ∧ s.life t = .exited i ∧
      s.doZombie i = .ok { s with
        life := Function.update s.life t .zombie
        resched := Function.update s.resched i ts
        active := fun q ↦ (s.active q).erase t
        zombies := Function.update s.zombies p (t :: s.zombies p) } := by
  have hl : s.life t = .exited i := (h.resched t i).1 (hr ▸ List.mem_cons_self)
  have hti : t ≠ s.init := by
    rintro rfl
    rw [h.init_live] at hl
    cases hl
  obtain ⟨p, hp, hlp⟩ := h.parent t (by rw [hl]; rfl) hti
  have hz : ∀ q, (s.zombies q).erase t = s.zombies q := fun q ↦
    List.erase_of_not_mem fun hq ↦ by
      rw [h.zombies, hl] at hq
      cases hq.2
  refine ⟨p, hp, hlp, hl, ?_⟩
  simp only [State.doZombie, hr, if_pos hl, hp, hz]

/-- `do_zombie`. -/
theorem doZombie (h : TInv s) (hs : s.doZombie i = .ok s') : TInv s' := by
  cases hr : s.resched i with
  | nil =>
      simp only [State.doZombie, hr] at hs
      exact Except.ok.inj hs ▸ h
  | cons t ts =>
      obtain ⟨p, hp, hlp, hlt, hz⟩ := h.doZombie_cons hr
      obtain rfl := Except.ok.inj (hz.symm.trans hs)
      have hti : t ≠ s.init := by
        rintro rfl
        rw [h.init_parent] at hp
        cases hp
      have hnd : (t :: ts).Nodup := hr ▸ h.nodup_resched i
      have hl : ∀ u, Function.update s.life t .zombie u = if u = t then .zombie else s.life u :=
        fun u ↦ Function.update_apply ..
      refine ⟨?_, h.init_parent, fun u hu ↦ ?_, fun u q ↦ ?_, fun u q ↦ ?_, fun u j ↦ ?_,
        fun u hu hui ↦ ?_, fun q ↦ (h.nodup_active q).erase t, fun q ↦ ?_, fun j ↦ ?_⟩
      · exact (hl s.init).trans ((if_neg (Ne.symm hti)).trans h.init_live)
      · have hfu := h.fresh u hu
        show Function.update s.life t .zombie u = .unborn
        rw [hl]
        grind
      · show u ∈ (s.active q).erase t ↔
          s.parent u = some q ∧ (Function.update s.life t _ u).isActive
        rw [hl, (h.nodup_active q).mem_erase_iff, h.active]
        grind [Life.isActive]
      · have hold := h.zombies u
        dsimp only
        rw [hl]
        simp only [Function.update_apply]
        grind
      · have hold := h.resched u
        have hmem := h.resched u i
        rw [hr] at hmem
        dsimp only
        rw [hl]
        simp only [Function.update_apply]
        grind
      · have hpu := h.parent u
        dsimp only at hu ⊢
        rw [hl] at hu
        simp only [hl]
        grind [Life.isPresent]
      · have hnz := h.nodup_zombies q
        have hmem := h.zombies t q
        dsimp only
        simp only [Function.update_apply]
        grind
      · have hnr := h.nodup_resched j
        dsimp only
        simp only [Function.update_apply]
        grind

/-- `do_softirq`. -/
theorem doSoftirq (h : TInv s) (hs : s.doSoftirq i = .ok s') : TInv s' := by
  unfold State.doSoftirq at hs
  split at hs
  · refine doZombie ?_ hs
    exact { h with }
  · exact Except.ok.inj hs ▸ h

omit [DecidableEq Cpu] in
/-- `childstat`. -/
theorem childstat (h : TInv s) : TInv (s.childstat p).2 := by
  unfold State.childstat
  split
  · exact h
  · next c cs hz =>
      have hc := (h.zombies c p).1 (hz ▸ List.mem_cons_self)
      have hnd : (c :: cs).Nodup := hz ▸ h.nodup_zombies p
      have hl : ∀ u, Function.update s.life c .freed u = if u = c then .freed else s.life u :=
        fun u ↦ Function.update_apply ..
      have hci : s.init ≠ c := by
        rintro rfl
        rw [h.init_parent] at hc
        cases hc.1
      refine ⟨?_, h.init_parent, fun u hu ↦ ?_, fun u q ↦ ?_, fun u q ↦ ?_, fun u j ↦ ?_,
        fun u hu hui ↦ ?_, h.nodup_active, fun q ↦ ?_, h.nodup_resched⟩
      · exact (hl s.init).trans ((if_neg hci).trans h.init_live)
      · have hfu := h.fresh u hu
        show Function.update s.life c .freed u = .unborn
        rw [hl]
        grind
      · show u ∈ s.active q ↔ s.parent u = some q ∧ (Function.update s.life c _ u).isActive
        rw [hl, h.active]
        grind [Life.isActive]
      · have hold := h.zombies u
        have hmem := h.zombies u p
        rw [hz] at hmem
        dsimp only
        rw [hl]
        simp only [Function.update_apply]
        grind
      · have hold := h.resched u j
        dsimp only
        rw [hl]
        grind
      · have hpu := h.parent u
        dsimp only at hu ⊢
        rw [hl] at hu
        simp only [hl]
        grind [Life.isPresent]
      · have hnz := h.nodup_zombies q
        dsimp only
        simp only [Function.update_apply]
        grind

/-! ## Runs -/

/-- The steps. -/
theorem step {op : Op Cpu} (h : TInv s) (hs : Step s op s') : TInv s' := by
  obtain ⟨hal, hex⟩ := hs
  cases op with
  | fork p => exact h.thfork hal hex
  | exit i p status => exact h.exit hal hex
  | softirq i => exact h.doSoftirq hex
  | childstat p =>
      rw [← Except.ok.inj hex]
      exact h.childstat
  | bootAp =>
      simp only [exec, State.getnewpid] at hex
      split at hex
      · rw [← Except.ok.inj hex]
        exact h.bootAp
      · cases hex

end TInv

end Mh.Proc
