import Mh.Vm.Reach

/-!
# Reference counts

The reference count of a user page is the number of entries that map it, and the
page is freed when the last of them goes, as long as no step overwrites or clears
a copy-on-write entry or moves a normal page onto itself.

The condition is needed.  `pmap_uenter` and `pmap_uchaddr` give up the reference
of the entry they replace when it is normal, but not when it is copy-on-write, so
that after a fork an unmap by the child leaves a reference nobody holds.
-/

namespace Mh.Vm

open Mh.Lib

variable {s t t' : Sys} {as : List (Nat × Op)}

/-- A step of the calls that are meant to keep the reference counts: every
operation but wiring and unwiring. -/
def RefStep (s : Sys) (a : Nat × Op) (s' : Sys) : Prop := Step s a s' ∧ a.2.wires = false

/-- The counts are exact, and exactly the mapped pages are allocated. -/
structure RefsExact (s : Sys) : Prop where
  ref : ∀ pfn, (s.db pfn).type = .user → (s.db pfn).ref = s.refs pfn
  mapped : ∀ pfn, (s.db pfn).type = .user ↔ 0 < s.refs pfn

theorem Inv.refsExact (h : Inv True s) : RefsExact s where
  ref q hq := ((h.bal.pages q).exact trivial hq).1
  mapped q := ⟨fun hq ↦ ((h.bal.pages q).exact trivial hq).2, (h.bal.pages q).user⟩

/-- A run whose steps all keep the counts keeps the strong invariant. -/
theorem Inv.refRun (h : Inv True s)
    (hr : Run (fun s a s' ↦ RefStep s a s' ∧ Counts s a) s as t) : Inv True t := by
  refine hr.invariant (I := Inv True) (fun s a t hs hst ↦ ?_) h
  obtain ⟨⟨hstep, hw⟩, hc⟩ := hst
  refine hs.step ⟨hc.2, fun hwc ↦ ?_⟩ (fun _ ↦ ⟨hc, hw⟩) hstep
  -- no operation of these runs wires anything
  obtain ⟨cur, op⟩ := a
  cases op <;> first | exact hwc.elim | cases hw

/-- In every run from boot whose steps neither overwrite nor clear a copy-on-write
entry nor move a normal page onto itself, the reference counts are exact, and a
page is freed in a step exactly when its last mapping goes. -/
theorem refs_exact (hb : Boot s)
    (hr : Run (fun s a s' ↦ RefStep s a s' ∧ Counts s a) s as t) :
    RefsExact t ∧ ∀ a t', RefStep t a t' → Counts t a → ∀ pfn,
      ((t.db pfn).type = .user ∧ (t'.db pfn).type ≠ .user ↔
        0 < t.refs pfn ∧ t'.refs pfn = 0) := by
  have ht := (hb.inv (X := True)).refRun hr
  refine ⟨ht.refsExact, fun a t' hs hc pfn ↦ ?_⟩
  have ht' := ht.refRun (.cons ⟨hs, hc⟩ (.nil t'))
  rw [ht.refsExact.mapped, ne_eq, ht'.refsExact.mapped, Nat.not_lt, Nat.le_zero]

/-! ## The reference that is never given up -/

/-- Unmapping a copy-on-write entry touches the table only. -/
theorem vmunmap_cow {cur va : Nat} (hva : isuaddr va) (hc : l1eCow (s.l1 cur (vpn va))) :
    vmunmap s cur va =
      .ok (0, (s.put cur (vpn va) (mkl1e pfnInvalid .none)).setFlush cur .null) := by
  have hc' := l1eCow_iff.1 hc
  have hx : l1eExternal (s.l1 cur (vpn va)) = false := by
    simp [l1eExternal, l1eWired, l1eIomap, hc'.2]
  have hn : l1eNormal (s.l1 cur (vpn va)) = false := by simp [l1eNormal, hc'.2]
  simp only [vmunmap, pmapUenter, kassert, hva, if_true, protCheck, takeL1e, mkl1e, l1eMknormal,
    Prot.none, hx, dropL1e, hn, freeOld]
  rfl

/-- It loses one mapping and no reference. -/
theorem refs_unmap_cow {cur va : Nat} (hcur : cur ∈ s.live) (hva : isuaddr va)
    (hc : l1eCow (s.l1 cur (vpn va))) (n : L1e) (hn : n.p = false) :
    (s.put cur (vpn va) n).refs (s.l1 cur (vpn va)).pfn + 1 = s.refs (s.l1 cur (vpn va)).pfn := by
  have hc' := l1eCow_iff.1 hc
  have h := (s.setFlush cur (tlbflushp (s.l1 cur (vpn va)) n)).count_setL1e hcur
    (vpn_mem_userVpns hva) n (L1e.maps (s.l1 cur (vpn va)).pfn)
  rw [Sys.l1_setFlush, L1e.maps_of_not_present hn, maps_of_avail_ne (by simp [hc'.2]), hc'.1,
    Sys.count_setFlush] at h
  simpa [Sys.refs, Sys.put] using h

/-- A machine with seven free pages. -/
def demo : Sys where
  pfndbMax := 8
  db pfn := ⟨if 0 < pfn ∧ pfn < 8 then .free else .system, 0, 0⟩
  mem _ _ := 0
  pmap _ := ⟨fun _ ↦ .zero, .null⟩
  live := {1}
  zombie := ∅
  init := 1
  nextpid := 2

theorem demo_boot : Boot demo := by
  refine ⟨rfl, rfl, by decide, by decide, fun _ ↦ rfl, fun pfn h ↦ ?_⟩
  simp only [demo] at h
  split at h <;> cases h

/-- `SYS_MAP` of the third page, which is in the copy-on-write area. -/
def demoMap : Op := .map 0x400000 (3 + mapNew) false ⟨1, 0, 0⟩

/-- The machine after its thread has mapped the page. -/
def demoMapped : Sys :=
  ((((demo.alloc 1 0).incref 1).put 1 2 (mkl1e 1 protUserWr)).setFlush 1 .null).setMem 1 fun _ ↦ 0

theorem demo_map : RefStep demo (1, demoMap) demoMapped ∧ Counts demo (1, demoMap) := by
  have hmap : vmmap demo 1 0x400000 protUserWr ⟨1, 0, 0⟩ = .ok (0, demoMapped) :=
    vmmap_fresh (by decide) ⟨by decide, by decide, rfl⟩ rfl rfl rfl rfl
  refine ⟨⟨⟨⟨by decide, by decide⟩, ?_⟩, rfl⟩, fun _ _ ↦ rfl, nofun⟩
  change (do return (← vmmap demo 1 0x400000 protUserWr ⟨1, 0, 0⟩).2) = Except.ok demoMapped
  rw [hmap]
  rfl

/-- The entries of the thread after the call. -/
theorem demoMapped_l1 (v : Nat) :
    demoMapped.l1 1 v = if v = 2 then mkl1e 1 protUserWr else .zero := by
  by_cases h : v = 2
  · subst h
    simp [demoMapped, Sys.put]
  · simp only [demoMapped, Sys.l1_setMem, Sys.l1_setFlush, Sys.put, if_neg h]
    rw [Sys.l1_setL1e_of_ne _ (.inr h), Sys.l1_setFlush]
    rfl

/-- The fork of that thread: both tables now hold the page copy-on-write. -/
def demoFork : Op := .fork .null fun _ ↦ ⟨2, 0, 0⟩

theorem demo_fork : ∃ t, RefStep demoMapped (1, demoFork) t ∧ Counts demoMapped (1, demoFork) ∧
    Forked 1 ⟨2, 0, 0⟩ demoMapped t ∧ t.l1 1 2 = l1eMkcow (mkl1e 1 protUserWr) ∧
    t.l1 2 2 = l1eMkcow (mkl1e 1 protUserWr) := by
  have hne : (1 : Nat) ≠ demoMapped.nextpid := by decide
  have htwo : 2 ∈ cowVpns := by rw [mem_cowVpns]; omega
  have hshare : ∀ v ∈ cowVpns, demoMapped.Shareable (demoMapped.l1 1 v) := by
    intro v _ hp _
    rw [demoMapped_l1] at hp ⊢
    by_cases hv : v = 2
    · rw [if_pos hv]
      exact ⟨rfl, by decide, by decide⟩
    · rw [if_neg hv] at hp
      cases hp
  obtain ⟨t, ht⟩ : ∃ t, thfork demoMapped 1 .null (fun _ ↦ ⟨2, 0, 0⟩) = .ok t :=
    thfork_total hne (by decide) hshare (by rw [demoMapped_l1]; rfl)
      ⟨by decide, by decide, by decide⟩
  have hf := thfork_forked hne ht
  refine ⟨t, ⟨⟨⟨by decide, by decide⟩, ht⟩, rfl⟩, ⟨nofun, nofun⟩, hf, ?_, ?_⟩
  · rw [hf.parent 2 htwo, demoMapped_l1]
    rfl
  · have := hf.child 2 htwo
    rw [demoMapped_l1] at this
    exact this

/-- The counts are not exact in general: after a fork, the child's unmap of a page
in the copy-on-write area leaves its reference behind. -/
theorem refs_not_exact : ¬∀ s as t, Boot s → Run RefStep s as t → RefsExact t := by
  intro hall
  obtain ⟨t, hfork, hcounts, hf, _, hchild⟩ := demo_fork
  have hrun : Run (fun s a s' ↦ RefStep s a s' ∧ Counts s a) demo [(1, demoMap), (1, demoFork)] t :=
    .cons demo_map (.cons ⟨hfork, hcounts⟩ (.nil t))
  have hexact := (demo_boot.inv.refRun hrun).refsExact
  have hlive : 2 ∈ t.live := by
    rw [hf.live]
    exact Finset.mem_insert_self ..
  have hzombie : 2 ∉ t.zombie := by
    rw [hf.zombie]
    exact Finset.notMem_empty 2
  have hcow : l1eCow (t.l1 2 (vpn 0x400000)) := by
    change l1eCow (t.l1 2 2)
    rw [hchild]
    rfl
  have hua : isuaddr 0x400000 := by decide
  have hpfn : (t.l1 2 (vpn 0x400000)).pfn = 1 := by
    change (t.l1 2 2).pfn = 1
    rw [hchild]
    rfl
  have hunmap : RefStep t (2, .map 0x400000 0 false ⟨0, 0, 0⟩)
      ((t.put 2 (vpn 0x400000) (mkl1e pfnInvalid .none)).setFlush 2 .null) := by
    refine ⟨⟨⟨hlive, hzombie⟩, ?_⟩, rfl⟩
    change (do return (← vmunmap t 2 0x400000).2) = _
    rw [vmunmap_cow hua hcow]
    rfl
  have hbad := hall demo _ _ demo_boot ((hrun.mono fun _ _ _ h ↦ h.1).snoc hunmap)
  have htype : (t.db 1).type = .user := by
    rw [(hf.db 1 (by decide)).type]
    rfl
  have h₁ := hbad.ref 1 htype
  have h₂ := hexact.ref 1 htype
  have h₃ := refs_unmap_cow hlive hua hcow (mkl1e pfnInvalid .none) rfl
  rw [hpfn] at h₃
  have h₄ : ((t.put 2 (vpn 0x400000) (mkl1e pfnInvalid .none)).setFlush 2 .null).refs 1 =
      (t.put 2 (vpn 0x400000) (mkl1e pfnInvalid .none)).refs 1 := Sys.count_setFlush 2 .null _
  have h₅ : (((t.put 2 (vpn 0x400000) (mkl1e pfnInvalid .none)).setFlush 2 .null).db 1).ref =
      (t.db 1).ref := rfl
  omega

/-- The counts of the machine after the first call and the fork. -/
theorem refs_exact_demo : ∃ t, Run (fun s a s' ↦ RefStep s a s' ∧ Counts s a) demo
    [(1, demoMap), (1, demoFork)] t ∧ Boot demo ∧ RefsExact t := by
  obtain ⟨t, hfork, hcounts, -⟩ := demo_fork
  have hrun : Run (fun s a s' ↦ RefStep s a s' ∧ Counts s a) demo [(1, demoMap), (1, demoFork)] t :=
    .cons demo_map (.cons ⟨hfork, hcounts⟩ (.nil t))
  exact ⟨t, hrun, demo_boot, (refs_exact demo_boot hrun).1⟩

end Mh.Vm

/-!
## Copy-on-write isolation

A page that two entries map is writable through neither of them, as long as no
step wires a copy-on-write entry or moves a normal page onto itself.

The condition is needed.  The copy-on-write marker shares its bits with the wired
marker: `pmap_uwire` overwrites the one with the other and `pmap_uunwire` leaves a
normal entry behind, which `pmap_uchprot` then makes writable while the page is
still mapped elsewhere.
-/

namespace Mh.Vm

open Mh.Lib

variable {s t : Sys} {as : List (Nat × Op)}

/-- No page that two present entries map can be written through either. -/
def CowIsolated (s : Sys) : Prop :=
  ∀ pid ∈ s.live, ∀ v ∈ userVpns, ∀ pid' ∈ s.live, ∀ v' ∈ userVpns, pid' ≠ pid ∨ v' ≠ v →
    (s.l1 pid v).p → (s.l1 pid' v').p → (s.l1 pid' v').pfn = (s.l1 pid v).pfn →
    (s.db (s.l1 pid v).pfn).type = .user → (s.l1 pid v).w = false ∧ (s.l1 pid' v').w = false

/-- An entry for a page that is mapped twice is copy-on-write, hence read-only. -/
theorem Inv.readonly {X : Prop} (h : Inv X s) {pid v : Nat} (hpid : pid ∈ s.live)
    (hv : v ∈ userVpns) (hp : (s.l1 pid v).p) (hi : (s.l1 pid v).avail ≠ .iomap)
    (h2 : 2 ≤ s.refs (s.l1 pid v).pfn) : (s.l1 pid v).w = false := by
  refine (h.bal.entries pid hpid v hv).cowRo (l1eCow_iff.2 ⟨hp, ?_⟩)
  by_contra hc
  have howns : 0 < s.owners (s.l1 pid v).pfn :=
    Sys.count_pos hpid hv (by simp [owns_of_avail_ne hi hc, hp])
  have hsole := (h.bal.pages (s.l1 pid v).pfn).sole
  simp only [Sys.held_nil] at hsole
  simp only [Sys.refs, Sys.owners] at h2 howns
  omega

theorem Inv.cowIsolated {X : Prop} (h : Inv X s) : CowIsolated s := by
  intro pid hpid v hv pid' hpid' v' hv' hne hp hp' hpfn hu
  have hio : ∀ p ∈ s.live, ∀ w ∈ userVpns, (s.l1 p w).p → (s.db (s.l1 p w).pfn).type = .user →
      (s.l1 p w).avail ≠ .iomap := by
    intro p hp w hw hpres htype hi
    have := (h.bal.entries p hp w hw).iomap (l1eIomap_iff.2 ⟨hpres, hi⟩)
    rw [htype] at this
    cases this
  have hi := hio pid hpid v hv hp hu
  have hi' := hio pid' hpid' v' hv' hp' (by rwa [hpfn])
  have h2 : 2 ≤ s.refs (s.l1 pid v).pfn := by
    refine Sys.two_le_count hpid hv hpid' hv' hne ?_ ?_ rfl
    · simp [maps_of_avail_ne hi, hp]
    · simp [maps_of_avail_ne hi', hp', hpfn]
  refine ⟨h.readonly hpid hv hp hi h2, h.readonly hpid' hv' hp' hi' ?_⟩
  rwa [hpfn]

/-- In every run from boot that wires no copy-on-write entry and moves no normal
page onto itself, a page mapped twice is writable nowhere. -/
theorem cow_isolated (hb : Boot s)
    (hr : Run (fun s a s' ↦ Step s a s' ∧ Isolates s a) s as t) : CowIsolated t := by
  have ht : Inv False t :=
    hr.invariant (I := Inv False) (fun _ _ _ hs h ↦ hs.step h.2 False.elim h.1) hb.inv
  exact ht.cowIsolated

/-! ## The marker that is lost -/

/-- The page of an entry has its database entry and wire count. -/
structure Sys.Backed (s : Sys) (e : L1e) (wir : Nat) : Prop where
  le : e.pfn ≤ s.pfndbMax
  user : (s.db e.pfn).type = .user
  wir : (s.db e.pfn).wir = wir

/-- `pmap_uwire` replaces the marker of an entry, whatever it is. -/
theorem pmapUwire_eq {cur va wir : Nat} (hva : isuaddr va)
    (hi : l1eIomap (s.l1 cur (vpn va)) = false) (hb : s.Backed (s.l1 cur (vpn va)) wir) :
    pmapUwire s cur va = .ok (0, (s.setDb (s.l1 cur (vpn va)).pfn
      { s.db (s.l1 cur (vpn va)).pfn with wir := incCount wir }).put cur (vpn va)
        (l1eMkwired (s.l1 cur (vpn va)))) := by
  simp [pmapUwire, kassert, hva, hi, pfndbIncwir, pfndbUser, hb.le, hb.user, hb.wir, Sys.put, bind,
    pure, Except.bind, Except.pure]

/-- `pmap_uunwire` of an entry wired once leaves a normal entry. -/
theorem pmapUunwire_eq {cur va : Nat} (hva : isuaddr va)
    (hw : l1eWired (s.l1 cur (vpn va))) (hb : s.Backed (s.l1 cur (vpn va)) 1) :
    pmapUunwire s cur va = .ok (0, (s.setDb (s.l1 cur (vpn va)).pfn
      { s.db (s.l1 cur (vpn va)).pfn with wir := 0 }).put cur (vpn va)
        (l1eMknormal (s.l1 cur (vpn va)))) := by
  have hdec : decCount 1 = 0 := by decide
  simp [pmapUunwire, kassert, hva, hw, pfndbDecwir, pfndbUser, hb.le, hb.user, hb.wir, hdec,
    Sys.put, bind, pure, Except.bind, Except.pure]

/-- `vmchprot` of a normal entry. -/
theorem vmchprot_eq {cur va : Nat} {prot : Prot} (hva : isuaddr va)
    (hn : l1eNormal (s.l1 cur (vpn va))) (hp : prot.p) (hu : prot.u) :
    vmchprot s cur va prot =
      .ok (0, (s.put cur (vpn va) (mkl1e (s.l1 cur (vpn va)).pfn prot)).setFlush cur .null) := by
  have hn' := l1eNormal_iff.1 hn
  simp [vmchprot, pmapUchprot, kassert, hva, hp, hu, l1eExternal, l1eWired, l1eIomap, l1eCow, hn,
    hn'.1, hn'.2, mkl1e, l1eMknormal, Sys.put, pmapCommit_snd, bind, pure, Except.bind, Except.pure]

/-- `SYS_MAP` of a page that is to stay mapped. -/
theorem sysMap_chprot {cur va perm : Nat} {root : Bool} {prot : Prot} {pg : Page}
    (hchk : chkuaddr (truncPage va) pageSize) (hcall : mapCall perm root = .vmchprot prot) :
    sysMap s cur va perm root pg = vmchprot s cur va prot := by
  simp only [sysMap, hchk, Bool.not_true, Bool.false_eq_true, if_false, hcall]

/-- Wiring, unwiring and `SYS_MAP` together make a copy-on-write entry writable,
and change nothing for anybody else. -/
theorem unshare {cur va : Nat} (pg : Page) (hrun : s.Running cur)
    (hchk : chkuaddr (truncPage va) pageSize) (hc : l1eCow (s.l1 cur (vpn va)))
    (hb : s.Backed (s.l1 cur (vpn va)) 0) :
    ∃ t, Run Step s [(cur, .wire va), (cur, .unwire va), (cur, .map va 3 false pg)] t ∧
      t.l1 cur (vpn va) = mkl1e (s.l1 cur (vpn va)).pfn protUserWr ∧ t.live = s.live ∧
      (∀ pid, pid ≠ cur → ∀ v, t.l1 pid v = s.l1 pid v) ∧
      (t.db (s.l1 cur (vpn va)).pfn).type = .user := by
  have hva := isuaddr_of_chkuaddr hchk
  have hc' := l1eCow_iff.1 hc
  have hinc : incCount 0 = 1 := by decide
  have hwire := pmapUwire_eq hva (by simp [l1eIomap, hc'.2]) hb
  rw [hinc] at hwire
  generalize hs₁ : (s.setDb (s.l1 cur (vpn va)).pfn { s.db (s.l1 cur (vpn va)).pfn with
    wir := 1 }).put cur (vpn va) (l1eMkwired (s.l1 cur (vpn va))) = s₁ at hwire
  have hl₁ : s₁.l1 cur (vpn va) = l1eMkwired (s.l1 cur (vpn va)) := by simp [← hs₁, Sys.put]
  have hb₁ : s₁.Backed (s₁.l1 cur (vpn va)) 1 := by
    rw [hl₁, ← hs₁]
    exact ⟨hb.le, by simp [Sys.put, l1eMkwired, hb.user], by simp [Sys.put, l1eMkwired]⟩
  have hw₁ : l1eWired (s₁.l1 cur (vpn va)) := by simp [hl₁, l1eWired, l1eMkwired, hc'.1]
  have hlive₁ : s₁.live = s.live := by rw [← hs₁]; rfl
  have hother₁ : ∀ pid, pid ≠ cur → ∀ v, s₁.l1 pid v = s.l1 pid v := by
    intro pid hpid v
    rw [← hs₁, Sys.put, Sys.l1_setL1e_of_ne _ (.inl hpid), Sys.l1_setFlush, Sys.l1_setDb]
  have hrun₁ : s₁.Running cur := by rw [← hs₁]; exact hrun
  clear hs₁
  have hunwire := pmapUunwire_eq hva hw₁ hb₁
  generalize hs₂ : (s₁.setDb (s₁.l1 cur (vpn va)).pfn { s₁.db (s₁.l1 cur (vpn va)).pfn with
    wir := 0 }).put cur (vpn va) (l1eMknormal (s₁.l1 cur (vpn va))) = s₂ at hunwire
  have hl₂ : s₂.l1 cur (vpn va) = l1eMknormal (s.l1 cur (vpn va)) := by
    simp [← hs₂, Sys.put, hl₁, l1eMkwired, l1eMknormal]
  have hn₂ : l1eNormal (s₂.l1 cur (vpn va)) := by simp [hl₂, l1eNormal, l1eMknormal, hc'.1]
  have hlive₂ : s₂.live = s₁.live := by rw [← hs₂]; rfl
  have hother₂ : ∀ pid, pid ≠ cur → ∀ v, s₂.l1 pid v = s₁.l1 pid v := by
    intro pid hpid v
    rw [← hs₂, Sys.put, Sys.l1_setL1e_of_ne _ (.inl hpid), Sys.l1_setFlush, Sys.l1_setDb]
  have htype₂ : (s₂.db (s.l1 cur (vpn va)).pfn).type = .user := by
    have hpfn : (s₁.l1 cur (vpn va)).pfn = (s.l1 cur (vpn va)).pfn := by rw [hl₁]; rfl
    have huser := hb₁.user
    rw [hpfn] at huser
    rw [← hs₂, Sys.put, Sys.setL1e_db, Sys.setFlush_db, hpfn, Sys.setDb_db_self]
    exact huser
  have hrun₂ : s₂.Running cur := by rw [← hs₂]; exact hrun₁
  clear hs₂
  have hchprot : vmchprot s₂ cur va protUserWr = _ := vmchprot_eq hva hn₂ rfl rfl
  have hstep₁ : Step s (cur, .wire va) s₁ :=
    ⟨hrun, by simp [exec, hwire, bind, pure, Except.bind, Except.pure]⟩
  have hstep₂ : Step s₁ (cur, .unwire va) s₂ :=
    ⟨hrun₁, by simp [exec, hunwire, bind, pure, Except.bind, Except.pure]⟩
  have hcall : mapCall 3 false = .vmchprot protUserWr := by decide
  have hstep₃ : Step s₂ (cur, .map va 3 false pg)
      ((s₂.put cur (vpn va) (mkl1e (s₂.l1 cur (vpn va)).pfn protUserWr)).setFlush cur .null) := by
    refine ⟨hrun₂, ?_⟩
    rw [exec, sysMap_chprot hchk hcall, hchprot]
    rfl
  refine ⟨_, .cons hstep₁ (.cons hstep₂ (.cons hstep₃ (.nil _))), ?_, ?_, ?_, ?_⟩
  · simp [Sys.put, hl₂, l1eMknormal]
  · exact hlive₂.trans hlive₁
  · intro pid hpid v
    rw [Sys.l1_setFlush, Sys.put, Sys.l1_setL1e_of_ne _ (.inl hpid), Sys.l1_setFlush,
      hother₂ pid hpid v, hother₁ pid hpid v]
  · exact htype₂

/-- Isolation fails in general: after a fork the parent wires, unwires and then
makes writable a page that the child still maps. -/
theorem cow_not_isolated : ¬∀ s as t, Boot s → Run Step s as t → CowIsolated t := by
  intro hall
  obtain ⟨t, hfork, _, hf, hparent, hchild⟩ := demo_fork
  have hrun : t.Running 1 := by
    refine ⟨?_, ?_⟩
    · rw [hf.live]
      exact Finset.mem_insert_of_mem (Finset.mem_singleton_self 1)
    · rw [hf.zombie]
      exact Finset.notMem_empty 1
  have hlive : 2 ∈ t.live := by
    rw [hf.live]
    exact Finset.mem_insert_self ..
  have hl : t.l1 1 (vpn 0x400000) = l1eMkcow (mkl1e 1 protUserWr) := hparent
  have hdb := hf.db 1 (by decide)
  have hb : t.Backed (t.l1 1 (vpn 0x400000)) 0 := by
    rw [hl]
    refine ⟨?_, hdb.type, hdb.wir⟩
    rw [hf.pfndbMax]
    decide
  obtain ⟨t', hrun', hl', hlive', hother, htype⟩ :=
    unshare ⟨0, 0, 0⟩ hrun (by decide) (by rw [hl]; rfl) hb
  have hboot : Run Step demo ([(1, demoMap), (1, demoFork)] ++ _) t' :=
    Run.append (.cons demo_map.1.1 (.cons hfork.1 (.nil t))) hrun'
  have hiso := hall demo _ t' demo_boot hboot
  rw [hl] at htype
  have hl1 : t'.l1 1 2 = mkl1e 1 protUserWr := by
    rw [hl] at hl'
    exact hl'
  have hl2 : t'.l1 2 2 = l1eMkcow (mkl1e 1 protUserWr) := by rw [hother 2 (by decide), hchild]
  have huser : 2 ∈ userVpns := by simp
  have hbad := hiso 1 (by rw [hlive']; exact hrun.1) 2 huser 2 (by rwa [hlive']) 2 huser
    (.inl (by decide)) (by rw [hl1]; rfl) (by rw [hl2]; rfl) (by rw [hl1, hl2]; rfl)
    (by rw [hl1]; exact htype)
  rw [hl1] at hbad
  exact absurd hbad.1 (by decide)

/-- The first call and the fork leave the shared page read-only in both tables. -/
theorem cow_isolated_demo : ∃ t, Run (fun s a s' ↦ Step s a s' ∧ Isolates s a) demo
    [(1, demoMap), (1, demoFork)] t ∧ Boot demo ∧ CowIsolated t := by
  obtain ⟨t, hfork, hcounts, -⟩ := demo_fork
  have hrun : Run (fun s a s' ↦ Step s a s' ∧ Isolates s a) demo [(1, demoMap), (1, demoFork)] t :=
    .cons ⟨demo_map.1.1, nofun, nofun⟩ (.cons ⟨hfork.1, nofun, nofun⟩ (.nil t))
  exact ⟨t, hrun, demo_boot, cow_isolated demo_boot hrun⟩

end Mh.Vm
