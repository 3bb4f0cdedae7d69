import Mh.Vm.Refs

/-!
# Moving a page

What `SYS_MOVE` promises of the two entries, of all the others and of the page that it frees, and
when it keeps the promise.  `pmap_uchaddr` reads both entries before it writes any, so a page that
is moved onto itself stays mapped, while the reference of what seems to be another page is given
up.
-/

namespace Mh.Vm

open Mh.Lib

/-- From `s` to `s'` the page is freed. -/
def Sys.Frees (s s' : Sys) (q : Nat) : Prop := (s.db q).type ≠ .free ∧ (s'.db q).type = .free

/-- No entry maps the page. -/
def Sys.Unmapped (s : Sys) (q : Nat) : Prop :=
  ∀ pid ∈ s.live, ∀ v ∈ userVpns, (s.l1 pid v).maps q = false

/-- The page of `src` is now the page of `dst`. -/
structure Moved (cur dst src : Nat) (s s' : Sys) : Prop where
  moved : s'.l1 cur (vpn dst) = s.l1 cur (vpn src)
  left : vpn src ≠ vpn dst → (s'.l1 cur (vpn src)).p = false
  others : ∀ pid v, pid ≠ cur ∨ v ≠ vpn dst ∧ v ≠ vpn src → s'.l1 pid v = s.l1 pid v
  freed : ∀ q, s.Frees s' q → (s.l1 cur (vpn dst)).maps q ∧ s'.Unmapped q

/-- What the caller of `SYS_MOVE` may rely on. -/
def MoveOk (s : Sys) (cur dst src : Nat) : Prop :=
  ∃ ret s', sysMove s cur dst src = .ok (ret, s') ∧
    (ret < 0 ∧ s'.l1 = s.l1 ∧ (∀ q, ¬s.Frees s' q) ∨ 0 ≤ ret ∧ Moved cur dst src s s')

/-- The entry of `dst` can be given up: its page is a user page and, when this is the last
reference, it is another page than that of `src` and no other entry maps it. -/
structure Disposable (s : Sys) (cur dst src : Nat) : Prop where
  range : (s.l1 cur (vpn dst)).pfn ≤ s.pfndbMax
  user : (s.db (s.l1 cur (vpn dst)).pfn).type = .user
  last : decCount (s.db (s.l1 cur (vpn dst)).pfn).ref = 0 →
    (s.l1 cur (vpn dst)).pfn ≠ 0 ∧ vpn src ≠ vpn dst ∧
    ∀ pid ∈ s.live, ∀ v ∈ userVpns, pid ≠ cur ∨ v ≠ vpn dst →
      (s.l1 pid v).maps (s.l1 cur (vpn dst)).pfn = false

/-- When a move keeps the promise: an entry of `dst` that would be given up is disposable. -/
def MoveSafe (s : Sys) (cur dst src : Nat) : Prop :=
  l1eExternal (s.l1 cur (vpn src)) = false → l1eNormal (s.l1 cur (vpn dst)) →
    Disposable s cur dst src

variable {s s' : Sys} {cur dst src q : Nat}

/-! ## What a move writes -/

/-- The tables after the two writes. -/
theorem Sys.l1_moved (s : Sys) (cur src dst pid v : Nat) :
    (s.moved cur src dst).l1 pid v =
      if pid = cur ∧ v = vpn dst then s.l1 cur (vpn src)
      else if pid = cur ∧ v = vpn src then mkl1e pfnInvalid .none else s.l1 pid v := by
  rw [Sys.moved, Sys.l1_setFlush, Sys.l1_setL1e, Sys.l1_setL1e]

theorem Sys.moved_db (s : Sys) (cur src dst : Nat) : (s.moved cur src dst).db = s.db := rfl

/-- A state with these tables has moved the page, whatever is freed. -/
theorem moved_of_l1 (hl1 : ∀ pid v, s'.l1 pid v = (s.moved cur src dst).l1 pid v)
    (hf : ∀ q, s.Frees s' q → (s.l1 cur (vpn dst)).maps q ∧ s'.Unmapped q) :
    Moved cur dst src s s' where
  moved := by rw [hl1, Sys.l1_moved, if_pos ⟨rfl, rfl⟩]
  left hne := by
    rw [hl1, Sys.l1_moved, if_neg fun h ↦ hne h.2, if_pos ⟨rfl, rfl⟩]
    rfl
  others pid v h := by
    rw [hl1, Sys.l1_moved, if_neg, if_neg]
    · rintro ⟨rfl, rfl⟩
      exact h.elim (fun h ↦ h rfl) fun h ↦ h.2 rfl
    · rintro ⟨rfl, rfl⟩
      exact h.elim (fun h ↦ h rfl) fun h ↦ h.1 rfl
  freed := hf

/-- An external entry is not normal. -/
theorem not_external_of_normal {e : L1e} (h : l1eNormal e) : l1eExternal e = false := by
  have ⟨_, h⟩ := l1eNormal_iff.1 h
  simp [l1eExternal, l1eWired, l1eIomap, h]

/-- A call on user addresses that is not refused. -/
theorem sysMove_eq (hdst : chkuaddr (truncPage dst) pageSize)
    (hsrc : chkuaddr (truncPage src) pageSize) (hx : l1eExternal (s.l1 cur (vpn src)) = false)
    (hx' : l1eExternal (s.l1 cur (vpn dst)) = false) :
    sysMove s cur dst src = (do
      let (opfn, t) ← dropL1e (s.moved cur src dst) (s.l1 cur (vpn dst))
      freeOld (t.setFlush cur .null) opfn) := by
  have hd := isuaddr_of_chkuaddr hdst
  have hs := isuaddr_of_chkuaddr hsrc
  simp only [sysMove, hdst, hsrc, Bool.not_true, Bool.or_self, Bool.false_eq_true, if_false,
    vmmove, pmapUchaddr, kassert, hd, hs, if_true, hx, hx']
  change (do
    let r ← (do
      let p ← dropL1e (s.moved cur src dst) (s.l1 cur (vpn dst))
      pure ((0 : Int), p.1, p.2))
    if r.1 < 0 then pure (r.1, (pmapCommit r.2.2 cur).2)
    else freeOld (pmapCommit r.2.2 cur).2 r.2.1) = _
  rw [bind_assoc]
  rfl

/-- A call on an external page is refused, and only the TLB may be flushed. -/
theorem sysMove_refused (hdst : chkuaddr (truncPage dst) pageSize)
    (hsrc : chkuaddr (truncPage src) pageSize)
    (hx : l1eExternal (s.l1 cur (vpn src)) ∨ l1eExternal (s.l1 cur (vpn dst))) :
    sysMove s cur dst src = .ok (Errno.EBUSY.neg, s.setFlush cur .null) := by
  have hd := isuaddr_of_chkuaddr hdst
  have hs := isuaddr_of_chkuaddr hsrc
  simp only [sysMove, hdst, hsrc, Bool.not_true, Bool.or_self, Bool.false_eq_true, if_false,
    vmmove, pmapUchaddr, kassert, hd, hs, if_true]
  by_cases hx₁ : l1eExternal (s.l1 cur (vpn src))
  · rw [if_pos hx₁]
    rfl
  · rw [if_neg hx₁, if_pos (hx.resolve_left hx₁)]
    rfl

/-! ## What a move frees -/

/-- Nothing is freed when the old entry holds no reference. -/
theorem sysMove_kept (hdst : chkuaddr (truncPage dst) pageSize)
    (hsrc : chkuaddr (truncPage src) pageSize) (hx : l1eExternal (s.l1 cur (vpn src)) = false)
    (hx' : l1eExternal (s.l1 cur (vpn dst)) = false) (hn : l1eNormal (s.l1 cur (vpn dst)) = false) :
    sysMove s cur dst src = .ok (0, (s.moved cur src dst).setFlush cur .null) := by
  rw [sysMove_eq hdst hsrc hx hx', dropL1e, hn]
  rfl

/-- A normal old entry gives up its reference. -/
theorem sysMove_drop (hdst : chkuaddr (truncPage dst) pageSize)
    (hsrc : chkuaddr (truncPage src) pageSize) (hx : l1eExternal (s.l1 cur (vpn src)) = false)
    (hn : l1eNormal (s.l1 cur (vpn dst))) :
    sysMove s cur dst src = (do
      let (ref, t) ← pfndbDecref (s.moved cur src dst) (s.l1 cur (vpn dst)).pfn
      freeOld (t.setFlush cur .null)
        (if ref = 0 then some (s.l1 cur (vpn dst)).pfn else none)) := by
  rw [sysMove_eq hdst hsrc hx (not_external_of_normal hn), dropL1e, if_pos hn, bind_assoc]
  rfl

/-- With the last reference it gives up its page. -/
theorem sysMove_dropped {ref : Nat} {t : Sys} (hdst : chkuaddr (truncPage dst) pageSize)
    (hsrc : chkuaddr (truncPage src) pageSize) (hx : l1eExternal (s.l1 cur (vpn src)) = false)
    (hn : l1eNormal (s.l1 cur (vpn dst)))
    (hdec : pfndbDecref (s.moved cur src dst) (s.l1 cur (vpn dst)).pfn = .ok (ref, t)) :
    sysMove s cur dst src =
      freeOld (t.setFlush cur .null) (if ref = 0 then some (s.l1 cur (vpn dst)).pfn else none) := by
  rw [sysMove_drop hdst hsrc hx hn, hdec]
  rfl

/-- The type of a page that is not freed. -/
theorem not_frees_of_type (h : ∀ q, (s'.db q).type = (s.db q).type) (q : Nat) : ¬s.Frees s' q :=
  fun hf ↦ hf.1 ((h q).symm.trans hf.2)

/-- The reference that is given up. -/
theorem pfndbDecref_eq {pfn : Nat} (hr : pfn ≤ s.pfndbMax) (hu : (s.db pfn).type = .user) :
    pfndbDecref s pfn = .ok (decCount (s.db pfn).ref, s.decref pfn) := by
  simp only [pfndbDecref, pfndbUser, kassert, hr, hu, decide_true, beq_self_eq_true, if_true]
  rfl

theorem pfndbDecref_range {pfn : Nat} {r : Nat × Sys} (h : pfndbDecref s pfn = .ok r) :
    pfn ≤ s.pfndbMax ∧ (s.db pfn).type = .user := by
  simp only [pfndbDecref, bind_eq_ok] at h
  obtain ⟨e, he, _⟩ := h
  obtain ⟨hr, hu, _⟩ := pfndbUser_ok he
  exact ⟨hr, hu⟩

theorem freeOld_none (s : Sys) : freeOld s none = .ok (0, s) := rfl

theorem freeOld_some (s : Sys) {pfn : Nat} (h : pfn ≠ 0) :
    freeOld s (some pfn) = .ok (1, s.free pfn) := by
  simp only [freeOld, pgfree, kassert, bne_iff_ne.2 h, if_true]
  rfl

/-- Page 0 is not given back. -/
theorem freeOld_zero (s : Sys) (r : Int × Sys) : freeOld s (some 0) ≠ .ok r := by
  intro h
  simp only [freeOld, pgfree, bind_eq_ok, kassert_eq_ok] at h
  obtain ⟨_, ⟨_, h, _⟩, _⟩ := h
  cases h

/-- The page that a move frees is mapped nowhere if it was mapped nowhere else. -/
theorem unmapped_moved_iff {pfn : Nat} (hcur : cur ∈ s.live) (hd : vpn dst ∈ userVpns)
    (hs : vpn src ∈ userVpns) (hmaps : (s.l1 cur (vpn dst)).maps pfn)
    (hl1 : ∀ pid v, s'.l1 pid v = (s.moved cur src dst).l1 pid v) (hlive : s'.live = s.live) :
    s'.Unmapped pfn ↔ vpn src ≠ vpn dst ∧ ∀ pid ∈ s.live, ∀ v ∈ userVpns,
      pid ≠ cur ∨ v ≠ vpn dst → (s.l1 pid v).maps pfn = false := by
  simp only [Sys.Unmapped, hl1, Sys.l1_moved, hlive]
  constructor
  · intro h
    have hne : vpn src ≠ vpn dst := by
      intro he
      have hc := h cur hcur (vpn dst) hd
      rw [if_pos ⟨rfl, rfl⟩, he, hmaps] at hc
      cases hc
    refine ⟨hne, fun pid hpid v hv hpv ↦ ?_⟩
    by_cases hsv : pid = cur ∧ v = vpn src
    · have hc := h cur hcur (vpn dst) hd
      rwa [if_pos ⟨rfl, rfl⟩, ← hsv.1, ← hsv.2] at hc
    · have hc := h pid hpid v hv
      rwa [if_neg (not_and_or.2 hpv), if_neg hsv] at hc
  · rintro ⟨hne, h⟩ pid hpid v hv
    split
    · exact h cur hcur (vpn src) hs (.inr hne)
    · next hpv =>
      split
      · rfl
      · exact h pid hpid v hv (not_and_or.1 hpv)

/-- When the old entry of `dst` is normal. -/
theorem move_ok_normal_iff (hcur : cur ∈ s.live) (hdst : chkuaddr (truncPage dst) pageSize)
    (hsrc : chkuaddr (truncPage src) pageSize) (hx : l1eExternal (s.l1 cur (vpn src)) = false)
    (hn : l1eNormal (s.l1 cur (vpn dst))) :
    MoveOk s cur dst src ↔ Disposable s cur dst src := by
  have hdrop := sysMove_drop hdst hsrc hx hn
  have hcall := @sysMove_dropped s cur dst src
  obtain ⟨hp, ha⟩ := l1eNormal_iff.1 hn
  have hmaps : (s.l1 cur (vpn dst)).maps (s.l1 cur (vpn dst)).pfn :=
    L1e.maps_iff.2 ⟨hp, by rw [ha]; decide, rfl⟩
  have hd := isuaddr_iff_vpn.1 (isuaddr_of_chkuaddr hdst)
  have hs := isuaddr_iff_vpn.1 (isuaddr_of_chkuaddr hsrc)
  generalize hpfn : (s.l1 cur (vpn dst)).pfn = pfn at *
  by_cases hok : pfn ≤ s.pfndbMax ∧ (s.db pfn).type = .user
  swap
  · -- An assertion of `pfndb_decref` fails.
    refine iff_of_false (fun ⟨_, _, hr, _⟩ ↦ hok ?_) fun h ↦ hok (hpfn ▸ ⟨h.range, h.user⟩)
    rw [hdrop, bind_eq_ok] at hr
    obtain ⟨_, hr, _⟩ := hr
    exact pfndbDecref_range (s := s.moved cur src dst) hr
  obtain ⟨hr, hu⟩ := hok
  have hdec : pfndbDecref (s.moved cur src dst) pfn =
      .ok (decCount (s.db pfn).ref, (s.moved cur src dst).decref pfn) :=
    pfndbDecref_eq (s := s.moved cur src dst) hr hu
  replace hcall := hcall hdst hsrc hx hn hdec
  by_cases hlast : decCount (s.db pfn).ref = 0
  · rw [if_pos hlast] at hcall
    have hdisp : Disposable s cur dst src ↔ pfn ≠ 0 ∧ vpn src ≠ vpn dst ∧
        ∀ pid ∈ s.live, ∀ v ∈ userVpns, pid ≠ cur ∨ v ≠ vpn dst →
          (s.l1 pid v).maps pfn = false := by
      constructor
      · intro h
        have := h.last
        rw [hpfn] at this
        exact this hlast
      · exact fun h ↦ ⟨by rw [hpfn]; exact hr, by rw [hpfn]; exact hu, fun _ ↦ by
          rw [hpfn]
          exact h⟩
    rw [hdisp]
    by_cases hzero : pfn = 0
    · -- The assertion of `pgfree` fails.
      refine iff_of_false (fun ⟨_, _, hret, _⟩ ↦ ?_) fun h ↦ h.1 hzero
      rw [hcall, hzero] at hret
      exact freeOld_zero _ _ hret
    · rw [freeOld_some _ hzero] at hcall
      have hl1 : ∀ pid v, ((((s.moved cur src dst).decref pfn).setFlush cur .null).free pfn).l1 pid
          v = (s.moved cur src dst).l1 pid v := fun pid v ↦ Sys.l1_setFlush ..
      have hun := unmapped_moved_iff hcur hd hs hmaps hl1 rfl
      have hfrees : ∀ q, s.Frees ((((s.moved cur src dst).decref pfn).setFlush cur
          .null).free pfn) q ↔ q = pfn := by
        intro q
        by_cases hq : q = pfn
        · subst hq
          refine iff_of_true ⟨by rw [hu]; decide, ?_⟩ rfl
          rw [Sys.free, Sys.setDb_db_self]
        · refine iff_of_false (fun h ↦ h.1 (Eq.trans ?_ h.2)) hq
          rw [Sys.free, Sys.setDb_db_of_ne _ hq, Sys.setFlush_db, Sys.decref,
            Sys.setDb_db_of_ne _ hq, Sys.moved_db]
      constructor
      · rintro ⟨ret, s', hret, h⟩
        obtain ⟨rfl, rfl⟩ := Prod.mk.inj (Except.ok.inj (hcall.symm.trans hret))
        obtain ⟨h, _⟩ | ⟨_, h⟩ := h
        · cases h
        · exact ⟨hzero, hun.1 (h.freed pfn ((hfrees pfn).2 rfl)).2⟩
      · rintro ⟨_, h⟩
        refine ⟨_, _, hcall, .inr ⟨Int.one_nonneg, moved_of_l1 hl1 fun q hq ↦ ?_⟩⟩
        obtain rfl := (hfrees q).1 hq
        exact ⟨hmaps, hun.2 h⟩
  · -- Other references are left.
    rw [if_neg hlast, freeOld_none] at hcall
    refine iff_of_true ⟨_, _, hcall, .inr ⟨le_rfl, ?_⟩⟩ ⟨by rw [hpfn]; exact hr,
      by rw [hpfn]; exact hu, fun h ↦ absurd ?_ hlast⟩
    swap
    · rw [hpfn] at h
      exact h
    refine moved_of_l1 (fun pid v ↦ Sys.l1_setFlush ..) fun q hq ↦ ?_
    refine absurd hq (not_frees_of_type (fun q ↦ ?_) q)
    exact ((s.moved cur src dst).decref_db pfn q).type

/-- When `SYS_MOVE` keeps its promise: for every state and every two user addresses. -/
theorem move_ok_iff (s : Sys) (cur dst src : Nat) (hcur : cur ∈ s.live)
    (hdst : chkuaddr (truncPage dst) pageSize) (hsrc : chkuaddr (truncPage src) pageSize) :
    MoveOk s cur dst src ↔ MoveSafe s cur dst src := by
  by_cases hx : l1eExternal (s.l1 cur (vpn src)) ∨ l1eExternal (s.l1 cur (vpn dst))
  · -- Refused.
    refine iff_of_true ⟨_, _, sysMove_refused hdst hsrc hx, .inl ⟨Errno.neg_lt_zero _, ?_, ?_⟩⟩
      fun hs hn ↦ ?_
    · funext pid v
      exact s.l1_setFlush cur pid v .null
    · exact not_frees_of_type fun _ ↦ rfl
    · rcases hx with hx | hx
      · rw [hs] at hx
        cases hx
      · rw [not_external_of_normal hn] at hx
        cases hx
  obtain ⟨hxs, hxd⟩ := not_or.1 hx
  rw [Bool.not_eq_true] at hxs hxd
  by_cases hn : l1eNormal (s.l1 cur (vpn dst))
  · rw [move_ok_normal_iff hcur hdst hsrc hxs hn]
    exact ⟨fun h _ _ ↦ h, fun h ↦ h hxs hn⟩
  · -- The old entry holds no reference.
    rw [Bool.not_eq_true] at hn
    refine iff_of_true ⟨_, _, sysMove_kept hdst hsrc hxs hxd hn, .inr ⟨le_rfl, ?_⟩⟩ fun _ h ↦ ?_
    · refine moved_of_l1 (fun pid v ↦ Sys.l1_setFlush ..) fun q hq ↦ ?_
      exact absurd hq (not_frees_of_type (fun _ ↦ rfl) q)
    · rw [hn] at h
      cases h

/-- The page is moved to where nothing is mapped. -/
theorem move_ok_demo : MoveOk demoMapped 1 0x800000 0x400000 := by
  refine (move_ok_iff demoMapped 1 0x800000 0x400000 (by decide) (by decide) (by decide)).2 ?_
  intro _ hn
  have hl1 : demoMapped.l1 1 (vpn 0x800000) = .zero :=
    (demoMapped_l1 _).trans (if_neg (by decide))
  rw [hl1] at hn
  cases hn

/-- A thread moves its only page onto itself: the page stays mapped and is freed. -/
theorem move_frees_mapped : chkuaddr (truncPage 0x400000) pageSize ∧
    ¬MoveOk demoMapped 1 0x400000 0x400000 := by
  have hchk : chkuaddr (truncPage 0x400000) pageSize := by decide
  have hl1 : demoMapped.l1 1 (vpn 0x400000) = mkl1e 1 protUserWr := demoMapped_l1 2
  refine ⟨hchk, fun h ↦ ?_⟩
  rw [move_ok_normal_iff (by decide) hchk hchk (by rw [hl1]; rfl) (by rw [hl1]; rfl)] at h
  have hlast := h.last
  rw [hl1] at hlast
  exact (hlast (by decide)).2.1 rfl

end Mh.Vm
