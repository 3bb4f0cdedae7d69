import Mh.Vm.Inv

/-!
# Every system call keeps the page accounting

For each call of `kern.c` two facts: the page accounting invariant `Bal` carries
over, and the call touches no table but that of its thread (`Frame`).  They are
put together for a step of the system in `Inv.step`.

Two things a thread can ask for break the accounting.  The first is a move of a
normal page onto itself: `pmap_uchaddr` writes the entry back and then gives up
the reference of the entry it replaced, which is the same one.  The second is
wiring a copy-on-write entry, which replaces its marker.  `Isolates` rules these
two out.  For the strong form of the invariant, `Counts` also rules out
overwriting a copy-on-write entry, whose reference is never given up.
-/

namespace Mh.Vm

open Mh.Lib

variable {X : Prop} {B : Nat} {s s' s₁ t : Sys} {cur va pfn : Nat}

/-- `Frame cur s s'`: going from `s` to `s'` only changes the table of `cur`, the
page database and the contents of pages. -/
structure Frame (cur : Nat) (s s' : Sys) : Prop where
  live : s'.live = s.live
  zombie : s'.zombie = s.zombie
  init : s'.init = s.init
  nextpid : s'.nextpid = s.nextpid
  pfndbMax : s'.pfndbMax = s.pfndbMax
  l1 : ∀ pid, pid ≠ cur → ∀ v, s'.l1 pid v = s.l1 pid v

namespace Frame

protected theorem refl (s : Sys) : Frame cur s s := ⟨rfl, rfl, rfl, rfl, rfl, fun _ _ _ ↦ rfl⟩

protected theorem trans (h : Frame cur s t) (h' : Frame cur t s') : Frame cur s s' where
  live := h'.live.trans h.live
  zombie := h'.zombie.trans h.zombie
  init := h'.init.trans h.init
  nextpid := h'.nextpid.trans h.nextpid
  pfndbMax := h'.pfndbMax.trans h.pfndbMax
  l1 pid hpid v := (h'.l1 pid hpid v).trans (h.l1 pid hpid v)

theorem setL1e (v : Nat) (e : L1e) : Frame cur s (s.setL1e cur v e) :=
  ⟨rfl, rfl, rfl, rfl, rfl, fun _ hpid _ ↦ s.l1_setL1e_of_ne (.inl hpid) e⟩

theorem setFlush (pid : Nat) (f : Tlbf) : Frame cur s (s.setFlush pid f) :=
  ⟨rfl, rfl, rfl, rfl, rfl, fun _ _ _ ↦ s.l1_setFlush ..⟩

theorem setDb (x : Ipfn) : Frame cur s (s.setDb pfn x) :=
  ⟨rfl, rfl, rfl, rfl, rfl, fun _ _ _ ↦ rfl⟩

theorem setMem (c : Nat → UInt8) : Frame cur s (s.setMem pfn c) :=
  ⟨rfl, rfl, rfl, rfl, rfl, fun _ _ _ ↦ rfl⟩

theorem put (v : Nat) (n : L1e) : Frame cur s (s.put cur v n) :=
  (setFlush cur _).trans (setL1e v n)

theorem take (n : L1e) : Frame cur s (s.take n) := by
  unfold Sys.take
  split
  · exact setDb _
  · exact .refl s

theorem freed (opfn : Option Nat) : Frame cur s (s.freed opfn) := by
  cases opfn with
  | none => exact .refl s
  | some q => exact setDb _

theorem drop {o : L1e} {opfn : Option Nat} (h : dropL1e s o = .ok (opfn, s')) :
    Frame cur s (s'.freed opfn) := by
  refine Frame.trans ?_ (freed opfn)
  rcases dropL1e_ok h with ⟨_, _, rfl⟩ | ⟨_, _, rfl, _⟩
  · exact .refl s'
  · exact setDb _

end Frame

/-! ## The page-table operations -/

/-- Writing an entry in flight and giving up the one it replaces. -/
theorem Bal.replace {v : Nat} {n : L1e} {opfn : Option Nat} (h : Bal X B [n] s) (hB : B < 2 ^ 64)
    (hcur : cur ∈ s.live) (hv : v ∈ userVpns)
    (hd : dropL1e (s.put cur v n) (s.l1 cur v) = .ok (opfn, s'))
    (hx : l1eExternal (s.l1 cur v) = false) (hc : X → l1eCow (s.l1 cur v) = false) :
    Bal X B [] (s'.freed opfn) := by
  have h₁ : Bal X B [s.l1 cur v] (s.put cur v n) := by
    have h₂ := (h.setFlush cur (tlbflushp (s.l1 cur v) n)).swap hcur hv
    rwa [Sys.l1_setFlush] at h₂
  exact h₁.drop hB hd hx hc

/-- `pmap_uenter` of an entry that is not present. -/
theorem Bal.uenter_none {r : Int} {opfn : Option Nat} (h : Bal X B [] s) (hB : B < 2 ^ 64)
    (hcur : cur ∈ s.live) (hc : X → l1eCow (s.l1 cur (vpn va)) = false)
    (hu : pmapUenter s cur va pfn .none = .ok (r, opfn, s')) :
    Bal X B [] (s'.freed opfn) ∧ Frame cur s (s'.freed opfn) ∧ (r < 0 → opfn = none) := by
  obtain ⟨hva, -, ⟨_, _, rfl, rfl⟩ | ⟨hx, rfl, hd⟩⟩ := pmapUenter_ok hu
  · exact ⟨h, .refl s', fun _ ↦ rfl⟩
  · have hn : Bal X B [mkl1e pfn .none] s := h.cons_absent rfl
    refine ⟨hn.replace hB hcur (vpn_mem_userVpns hva) hd hx hc, ?_, fun hr ↦ absurd hr (by simp)⟩
    exact (Frame.put (vpn va) (mkl1e pfn .none)).trans (.drop hd)

/-- `pmap_uenter` of a page that was just allocated. -/
theorem Bal.uenter_page {wir : Nat} {prot : Prot} {r : Int} {opfn : Option Nat}
    (h : Bal X B [] s) (hB : B < 2 ^ 64) (hB0 : 0 < B) (hcur : cur ∈ s.live)
    (hf : s.Free pfn) (hp : prot.p) (hc : X → l1eCow (s.l1 cur (vpn va)) = false)
    (hu : pmapUenter (s.alloc pfn wir) cur va pfn prot = .ok (r, opfn, s')) :
    (r < 0 ∧ s' = s.alloc pfn wir ∧ Bal X B [] (s'.free pfn)) ∨
    (r = 0 ∧ Bal X B [] (s'.freed opfn) ∧ Frame cur s (s'.freed opfn)) := by
  obtain ⟨hva, -, ⟨_, rfl, rfl, rfl⟩ | ⟨hx, rfl, hd⟩⟩ := pmapUenter_ok hu
  · exact .inl ⟨Errno.EBUSY.neg_lt_zero, rfl, h.refund hf⟩
  · refine .inr ⟨rfl, ?_, ?_⟩
    · have htake : (s.alloc pfn wir).take (mkl1e pfn prot) = (s.alloc pfn wir).incref pfn := by
        rw [Sys.take]
        exact if_pos hp
      rw [htake] at hd
      have hn := h.alloc wir hf hp hB0
      exact hn.replace hB hcur (vpn_mem_userVpns hva) hd hx hc
    · exact (((Frame.setDb _).trans (.take _)).trans (.put _ _)).trans (.drop hd)

/-- `pmap_uiomap`. -/
theorem Bal.uiomap {prot : Prot} {r : Int} {opfn : Option Nat} (h : Bal X B [] s)
    (hB : B < 2 ^ 64) (hcur : cur ∈ s.live) (hty : (s.db pfn).type = .mmio)
    (hc : X → l1eCow (s.l1 cur (vpn va)) = false)
    (hu : pmapUiomap s cur va pfn prot = .ok (r, opfn, s')) :
    Bal X B [] (s'.freed opfn) ∧ Frame cur s (s'.freed opfn) ∧ (r < 0 → opfn = none) := by
  obtain ⟨hva, ⟨_, rfl, rfl⟩ | ⟨hx, rfl, hd⟩⟩ := pmapUiomap_ok hu
  · exact ⟨h, .refl s', fun _ ↦ rfl⟩
  · have hn : Bal X B [l1eMkiomap (mkl1e pfn prot)] s := by
      refine (h.cons_absent (e := .zero) rfl).mark (fun q ↦ ?_) (fun q ↦ ?_)
        ⟨by simp [l1eCow, l1eMkiomap], fun _ ↦ hty, by simp [l1eWired, l1eMkiomap]⟩
      · rw [maps_mkiomap]; rfl
      · rw [L1e.owns_of_maps_false (maps_mkiomap q _)]; rfl
    refine ⟨hn.replace hB hcur (vpn_mem_userVpns hva) hd hx hc, ?_, fun hr ↦ absurd hr (by simp)⟩
    exact (Frame.put (vpn va) _).trans (.drop hd)

/-- `pmap_uiounmap`. -/
theorem Bal.uiounmap {r : Int} (h : Bal X B [] s) (hcur : cur ∈ s.live)
    (hu : pmapUiounmap s cur va = .ok (r, s')) : Bal X B [] s' ∧ Frame cur s s' := by
  obtain ⟨hva, rfl | ⟨hi, rfl⟩⟩ := pmapUiounmap_ok hu
  · exact ⟨h, .refl s'⟩
  · refine ⟨?_, .put _ _⟩
    refine (h.setFlush cur _).modify hcur (vpn_mem_userVpns hva) fun t _ ht ↦ ?_
    rw [Sys.l1_setFlush] at ht
    have hm : ∀ q, (s.l1 cur (vpn va)).maps q = false := fun q ↦ by
      rw [L1e.maps, (l1eIomap_iff.1 hi).2]
      simp
    exact (ht.of_cons_absent hm).cons_absent rfl

/-- `pmap_uchaddr`, unless it moves a normal page onto itself. -/
theorem Bal.uchaddr {newva : Nat} {r : Int} {opfn : Option Nat} (h : Bal X B [] s)
    (hB : B < 2 ^ 64) (hcur : cur ∈ s.live)
    (hself : ¬(vpn newva = vpn va ∧ l1eNormal (s.l1 cur (vpn va))))
    (hc : X → vpn newva ≠ vpn va → l1eExternal (s.l1 cur (vpn va)) = false →
      l1eCow (s.l1 cur (vpn newva)) = false)
    (hu : pmapUchaddr s cur va newva = .ok (r, opfn, s')) :
    Bal X B [] (s'.freed opfn) ∧ Frame cur s (s'.freed opfn) ∧ (r < 0 → opfn = none) := by
  obtain ⟨hva, hnva, ⟨_, _, rfl, rfl⟩ | ⟨hx, hx', rfl, hd⟩⟩ := pmapUchaddr_ok hu
  · exact ⟨h, .refl s', fun _ ↦ rfl⟩
  have hframe : Frame cur s (s.moved cur va newva) :=
    ((Frame.setL1e _ _).trans (.setL1e _ _)).trans (.setFlush cur _)
  refine ⟨?_, hframe.trans (.drop hd), fun hr ↦ absurd hr (by simp)⟩
  by_cases hne : vpn newva = vpn va
  · -- the entry is written back, and not being normal it is not given up
    have hn : l1eNormal (s.l1 cur (vpn newva)) = false := by
      rw [hne]
      simpa [hne] using hself
    rcases dropL1e_ok hd with ⟨_, rfl, rfl⟩ | ⟨hn', _⟩
    · refine Bal.setFlush ?_ cur _
      rw [hne, Sys.setL1e_setL1e]
      exact h.modify hcur (vpn_mem_userVpns hva) fun t _ ht ↦ ht
    · rw [hn] at hn'
      cases hn'
  · have h₁ : Bal X B [s.l1 cur (vpn va)] (s.setL1e cur (vpn va) (mkl1e pfnInvalid .none)) :=
      (h.cons_absent (e := mkl1e pfnInvalid .none) rfl).swap hcur (vpn_mem_userVpns hva)
    have hcur' : cur ∈ (s.setL1e cur (vpn va) (mkl1e pfnInvalid .none)).live := hcur
    have h₂ := h₁.swap hcur' (vpn_mem_userVpns hnva)
    rw [Sys.l1_setL1e_of_ne s (.inr hne)] at h₂
    exact (h₂.setFlush cur _).drop hB hd hx' fun x ↦ hc x hne hx

/-- `pmap_uchprot`. -/
theorem Bal.uchprot {prot : Prot} {r : Int} (h : Bal X B [] s) (hcur : cur ∈ s.live)
    (hu : pmapUchprot s cur va prot = .ok (r, s')) : Bal X B [] s' ∧ Frame cur s s' := by
  obtain ⟨hva, hp, _, rfl | ⟨hn, rfl⟩⟩ := pmapUchprot_ok hu
  · exact ⟨h, .refl s'⟩
  · refine ⟨?_, .put _ _⟩
    refine (h.setFlush cur _).modify hcur (vpn_mem_userVpns hva) fun t _ ht ↦ ?_
    rw [Sys.l1_setFlush] at ht
    rw [l1eNormal_iff] at hn
    refine ht.mark (fun q ↦ ?_) (fun q ↦ ?_) (.of_normal rfl)
    · rw [maps_mkl1e, maps_of_avail_ne (by simp [hn.2]), hp, hn.1]
    · rw [owns_mkl1e, owns_of_avail_ne (by simp [hn.2]) (by simp [hn.2]), hp, hn.1]

/-- `pmap_uwire` of an entry that is not copy-on-write. -/
theorem Bal.uwire {r : Int} (h : Bal X B [] s) (hcur : cur ∈ s.live) (hX : ¬X)
    (hc : l1eCow (s.l1 cur (vpn va)) = false) (hu : pmapUwire s cur va = .ok (r, s')) :
    Bal X B [] s' ∧ Frame cur s s' := by
  obtain ⟨hva, rfl | ⟨wir, hi, hty, rfl⟩⟩ := pmapUwire_ok hu
  · exact ⟨h, .refl s'⟩
  · refine ⟨?_, (Frame.setDb _).trans (.put _ _)⟩
    have hcur' : cur ∈ (s.setDb (s.l1 cur (vpn va)).pfn
      { s.db (s.l1 cur (vpn va)).pfn with wir := wir }).live := hcur
    refine ((h.setWir hty).setFlush cur _).modify hcur' (vpn_mem_userVpns hva) fun t _ ht ↦ ?_
    rw [Sys.l1_setFlush, Sys.l1_setDb] at ht
    have hok : EntryOk X t.db (l1eMkwired (s.l1 cur (vpn va))) :=
      ⟨by simp [l1eCow, l1eMkwired], by simp [l1eIomap, l1eMkwired], fun x ↦ absurd x hX⟩
    cases hp : (s.l1 cur (vpn va)).p with
    | false => exact (ht.of_cons_absent fun q ↦ L1e.maps_of_not_present hp).cons_absent hp
    | true =>
        have hni : (s.l1 cur (vpn va)).avail ≠ .iomap := by simpa [l1eIomap, hp] using hi
        have hnc : (s.l1 cur (vpn va)).avail ≠ .cow := by simpa [l1eCow, hp] using hc
        refine ht.mark (fun q ↦ ?_) (fun q ↦ ?_) hok
        · rw [maps_mkwired, maps_of_avail_ne hni]
        · rw [owns_mkwired, owns_of_avail_ne hni hnc]

/-- `pmap_uunwire`. -/
theorem Bal.uunwire {r : Int} (h : Bal X B [] s) (hcur : cur ∈ s.live)
    (hu : pmapUunwire s cur va = .ok (r, s')) : Bal X B [] s' ∧ Frame cur s s' := by
  obtain ⟨hva, rfl | ⟨wir, hw, hty, h'⟩⟩ := pmapUunwire_ok hu
  · exact ⟨h, .refl s'⟩
  · rcases h' with rfl | rfl
    · exact ⟨h.setWir hty, .setDb _⟩
    · refine ⟨?_, (Frame.setDb _).trans (.put _ _)⟩
      have hcur' : cur ∈ (s.setDb (s.l1 cur (vpn va)).pfn
        { s.db (s.l1 cur (vpn va)).pfn with wir := wir }).live := hcur
      refine ((h.setWir hty).setFlush cur _).modify hcur' (vpn_mem_userVpns hva) fun t _ ht ↦ ?_
      rw [Sys.l1_setFlush, Sys.l1_setDb] at ht
      rw [l1eWired_iff] at hw
      refine ht.mark (fun q ↦ ?_) (fun q ↦ ?_) (.of_normal rfl)
      · rw [maps_mknormal, maps_of_avail_ne (by simp [hw.2])]
      · rw [owns_mknormal, owns_of_avail_ne (by simp [hw.2]) (by simp [hw.2])]

/-- `_pmap_fault`. -/
theorem Bal.fault {err : Pferr} {x : Option Xcpterr} (h : Bal X B [] s) (hcur : cur ∈ s.live)
    (hu : pmapFault s cur va err = .ok (x, s')) : Bal X B [] s' ∧ Frame cur s s' := by
  obtain ⟨rfl, _⟩ | ⟨hva, _, hc, hty, href, rfl⟩ := pmapFault_ok hu
  · exact ⟨h, .refl s'⟩
  · refine ⟨?_, .setL1e _ _⟩
    refine h.modify hcur (vpn_mem_userVpns hva) fun t htdb ht ↦ ?_
    exact ht.lastCow hc (by rwa [htdb]) (by rwa [htdb])

/-! ## The calls -/

/-- `iomap`. -/
theorem Bal.iomap {prot : Prot} {r : Int} (h : Bal X B [] s) (hB : B < 2 ^ 64)
    (hcur : cur ∈ s.live)
    (hc : X → (s.db pfn).type = .mmio → l1eCow (s.l1 cur (vpn va)) = false)
    (hu : iomap s cur va pfn prot = .ok (r, s')) : Bal X B [] s' ∧ Frame cur s s' := by
  simp only [Vm.iomap, bind_eq_ok] at hu
  obtain ⟨t, ht, hu⟩ := hu
  obtain ⟨_, rfl⟩ := pfndbType_ok ht
  split at hu
  · cases hu
    exact ⟨h, .refl s⟩
  · rename_i hty
    have hty : (s.db pfn).type = .mmio := by simpa using hty
    rw [bind_eq_ok] at hu
    obtain ⟨⟨r₁, opfn, s₁⟩, h₁, h₂⟩ := hu
    obtain ⟨hbal, hframe, hneg⟩ := h.uiomap hB hcur hty (fun x ↦ hc x hty) h₁
    rw [finish_ok h₂ hneg]
    exact ⟨hbal.setFlush cur _, hframe.trans (.setFlush cur _)⟩

/-- `iounmap`. -/
theorem Bal.iounmap {r : Int} (h : Bal X B [] s) (hcur : cur ∈ s.live)
    (hu : iounmap s cur va = .ok (r, s')) : Bal X B [] s' ∧ Frame cur s s' := by
  simp only [Vm.iounmap, bind_eq_ok] at hu
  obtain ⟨⟨r₁, s₁⟩, h₁, h₂⟩ := hu
  cases h₂
  obtain ⟨hbal, hframe⟩ := h.uiounmap hcur h₁
  exact ⟨hbal.setFlush cur _, hframe.trans (.setFlush cur _)⟩

/-- `vmmap32`. -/
theorem Bal.vmmap32 {prot : Prot} {pg : Page} {r : Int} (h : Bal X B [] s) (hB : B < 2 ^ 64)
    (hB0 : 0 < B) (hcur : cur ∈ s.live) (hp : prot.p)
    (hc : X → l1eCow (s.l1 cur (vpn va)) = false)
    (hu : vmmap32 s cur va prot pg = .ok (r, s')) : Bal X B [] s' ∧ Frame cur s s' := by
  simp only [Vm.vmmap32, bind_eq_ok] at hu
  obtain ⟨s₁, h₁, ⟨r₁, opfn, s₂⟩, h₂, h₃⟩ := hu
  obtain ⟨hf, rfl⟩ := allocuser_ok h₁
  rcases h.uenter_page hB hB0 hcur hf hp hc h₂ with ⟨hr, rfl, hbal⟩ | ⟨rfl, hbal, hframe⟩
  · rw [if_pos hr, bind_eq_ok] at h₃
    obtain ⟨s₃, h₄, h₅⟩ := h₃
    cases h₅
    rw [pgfree_ok h₄]
    exact ⟨hbal.setFlush cur .null, ((Frame.setDb _).trans (.setFlush cur _)).trans (.setDb _)⟩
  · simp only [lt_irrefl, if_false] at h₃
    rw [(freeOld_ok h₃).1, pmapCommit_snd, Sys.setFlush_freed]
    exact ⟨hbal.setFlush cur _, hframe.trans (.setFlush cur _)⟩

/-- `vmmap`. -/
theorem Bal.vmmap {prot : Prot} {pg : Page} {r : Int} (h : Bal X B [] s) (hB : B < 2 ^ 64)
    (hB0 : 0 < B) (hcur : cur ∈ s.live) (hp : prot.p)
    (hc : X → l1eCow (s.l1 cur (vpn va)) = false)
    (hu : vmmap s cur va prot pg = .ok (r, s')) : Bal X B [] s' ∧ Frame cur s s' := by
  simp only [Vm.vmmap, bind_eq_ok] at hu
  obtain ⟨⟨r₁, s₁⟩, h₁, h₂⟩ := hu
  obtain ⟨hbal, hframe⟩ := h.vmmap32 hB hB0 hcur hp hc h₁
  split at h₂
  · cases h₂
    exact ⟨hbal, hframe⟩
  · rw [bind_eq_ok] at h₂
    obtain ⟨s₂, h₃, h₄⟩ := h₂
    cases h₄
    obtain ⟨_, _, rfl⟩ := kernelFill_ok h₃
    exact ⟨hbal.setMem _, hframe.trans (.setMem _)⟩

/-- `vmunmap`. -/
theorem Bal.vmunmap {r : Int} (h : Bal X B [] s) (hB : B < 2 ^ 64) (hcur : cur ∈ s.live)
    (hc : X → l1eCow (s.l1 cur (vpn va)) = false) (hu : vmunmap s cur va = .ok (r, s')) :
    Bal X B [] s' ∧ Frame cur s s' := by
  simp only [Vm.vmunmap, bind_eq_ok] at hu
  obtain ⟨⟨r₁, opfn, s₁⟩, h₁, h₂⟩ := hu
  obtain ⟨hbal, hframe, hneg⟩ := h.uenter_none hB hcur hc h₁
  rw [finish_ok h₂ hneg]
  exact ⟨hbal.setFlush cur _, hframe.trans (.setFlush cur _)⟩

/-- `vmmove`. -/
theorem Bal.vmmove {dst src : Nat} {r : Int} (h : Bal X B [] s) (hB : B < 2 ^ 64)
    (hcur : cur ∈ s.live) (hself : ¬(vpn dst = vpn src ∧ l1eNormal (s.l1 cur (vpn src))))
    (hc : X → vpn dst ≠ vpn src → l1eExternal (s.l1 cur (vpn src)) = false →
      l1eCow (s.l1 cur (vpn dst)) = false)
    (hu : vmmove s cur dst src = .ok (r, s')) : Bal X B [] s' ∧ Frame cur s s' := by
  simp only [Vm.vmmove, bind_eq_ok] at hu
  obtain ⟨⟨r₁, opfn, s₁⟩, h₁, h₂⟩ := hu
  obtain ⟨hbal, hframe, hneg⟩ := h.uchaddr hB hcur hself hc h₁
  rw [finish_ok h₂ hneg]
  exact ⟨hbal.setFlush cur _, hframe.trans (.setFlush cur _)⟩

/-- `vmchprot`. -/
theorem Bal.vmchprot {prot : Prot} {r : Int} (h : Bal X B [] s) (hcur : cur ∈ s.live)
    (hu : vmchprot s cur va prot = .ok (r, s')) : Bal X B [] s' ∧ Frame cur s s' := by
  simp only [Vm.vmchprot, bind_eq_ok] at hu
  obtain ⟨⟨r₁, s₁⟩, h₁, h₂⟩ := hu
  cases h₂
  obtain ⟨hbal, hframe⟩ := h.uchprot hcur h₁
  exact ⟨hbal.setFlush cur _, hframe.trans (.setFlush cur _)⟩

/-! ## Clearing an address space -/

/-- `pmap_uenter` of an absent entry leaves every entry as it was or absent, and
the entry it is about absent or external. -/
theorem vmclearPage_l1 {addr i : Nat} (h : vmclearPage cur addr s i = .ok s') :
    (∀ v, s'.l1 cur v = s.l1 cur v ∨ (s'.l1 cur v).p = false) ∧
    ((s'.l1 cur (vpn (w32 (addr + i * pageSize)))).p = false ∨
      l1eExternal (s'.l1 cur (vpn (w32 (addr + i * pageSize))))) := by
  simp only [vmclearPage, bind_eq_ok] at h
  obtain ⟨⟨r, opfn, s₁⟩, h₁, ⟨r₂, s₂⟩, h₂, h₃⟩ := h
  cases h₃
  rw [(freeOld_ok h₂).1]
  simp only [Sys.l1_freed]
  obtain ⟨-, -, ⟨hx, _, _, rfl⟩ | ⟨_, _, hd⟩⟩ := pmapUenter_ok h₁
  · exact ⟨fun v ↦ .inl rfl, .inr hx⟩
  · simp only [dropL1e_l1 hd, Sys.put, Sys.l1_setL1e_self]
    refine ⟨fun v ↦ ?_, .inl rfl⟩
    rw [Sys.l1_setL1e]
    split
    · exact .inr rfl
    · left
      rw [Sys.l1_setFlush, Sys.l1_take]

/-- One iteration of `vmclear`. -/
theorem Bal.vmclearPage {addr i : Nat} (h : Bal X B [] s) (hB : B < 2 ^ 64)
    (hcur : cur ∈ s.live)
    (hc : X → l1eCow (s.l1 cur (vpn (w32 (addr + i * pageSize)))) = false)
    (hu : vmclearPage cur addr s i = .ok s') : Bal X B [] s' ∧ Frame cur s s' := by
  simp only [Vm.vmclearPage, bind_eq_ok] at hu
  obtain ⟨⟨r, opfn, s₁⟩, h₁, ⟨r₂, s₂⟩, h₂, h₃⟩ := hu
  cases h₃
  obtain ⟨hbal, hframe, _⟩ := h.uenter_none hB hcur hc h₁
  rw [(freeOld_ok h₂).1]
  exact ⟨hbal, hframe⟩

/-- `vmclear`, when no entry of the table is copy-on-write. -/
theorem Bal.vmclear {addr sz : Nat} (h : Bal X B [] s) (hB : B < 2 ^ 64) (hcur : cur ∈ s.live)
    (hc : X → ∀ v ∈ userVpns, l1eCow (s.l1 cur v) = false)
    (hu : vmclear s cur addr sz = .ok s') : Bal X B [] s' ∧ Frame cur s s' := by
  simp only [Vm.vmclear, bind_eq_ok] at hu
  obtain ⟨s₁, h₁, h₂⟩ := hu
  cases h₂
  have hloop : Bal X B [] s₁ ∧ Frame cur s s₁ ∧
      (X → ∀ v ∈ userVpns, l1eCow (s₁.l1 cur v) = false) := by
    refine foldlM_invariant
      (I := fun t ↦ Bal X B [] t ∧ Frame cur s t ∧
        (X → ∀ v ∈ userVpns, l1eCow (t.l1 cur v) = false)) ?_ h₁ ⟨h, .refl s, hc⟩
    rintro t i t' - ⟨hbal, hframe, hcow⟩ ht
    have hva : isuaddr (w32 (addr + i * pageSize)) := by
      simp only [Vm.vmclearPage, bind_eq_ok] at ht
      obtain ⟨⟨r, opfn, s₂⟩, h₂, -⟩ := ht
      exact (pmapUenter_ok h₂).1
    have hcur' : cur ∈ t.live := by rwa [hframe.live]
    obtain ⟨hbal', hframe'⟩ := hbal.vmclearPage hB hcur'
      (fun x ↦ hcow x _ (vpn_mem_userVpns hva)) ht
    refine ⟨hbal', hframe.trans hframe', fun x v hv ↦ ?_⟩
    rcases (vmclearPage_l1 ht).1 v with h | h
    · rw [h]
      exact hcow x v hv
    · simp [l1eCow, h]
  exact ⟨hloop.1.setFlush cur _, hloop.2.1.trans (.setFlush cur _)⟩

/-- The pages that `exit` clears are those of the user range. -/
theorem exit_page {v : Nat} (hv : v ∈ userVpns) :
    v - 1 ∈ List.range (roundPage (userEnd - userBase) / pageSize) ∧
      vpn (w32 (userBase + (v - 1) * pageSize)) = v := by
  rw [mem_userVpns] at hv
  have hn : roundPage (userEnd - userBase) / pageSize = 1531 := by decide
  rw [hn, List.mem_range]
  simp only [vpn, w32, userBase, pageSize, pageShift]
  omega

/-- After `exit` only external entries are left in the thread's table. -/
theorem exit_l1 (h : exit s cur = .ok s') {v : Nat} (hv : v ∈ userVpns) :
    (s'.l1 cur v).p = false ∨ l1eExternal (s'.l1 cur v) := by
  obtain ⟨_, s₁, h₁, rfl⟩ := exit_ok h
  simp only [vmclear, bind_eq_ok] at h₁
  obtain ⟨s₂, h₂, h₃⟩ := h₁
  cases h₃
  obtain ⟨hmem, hvpn⟩ := exit_page hv
  have hl1 : (s₂.setFlush cur .null).l1 cur v = s₂.l1 cur v := s₂.l1_setFlush cur cur v .null
  have := foldlM_forall
    (D := fun i t ↦ (t.l1 cur (vpn (w32 (userBase + i * pageSize)))).p = false ∨
      l1eExternal (t.l1 cur (vpn (w32 (userBase + i * pageSize))))) ?_ ?_ h₂ _ hmem
  · rw [hvpn] at this
    rw [← hl1] at this
    exact this
  · exact fun t i t' ht ↦ (vmclearPage_l1 ht).2
  · intro t i t' j ht hj
    rcases (vmclearPage_l1 ht).1 (vpn (w32 (userBase + j * pageSize))) with h | h
    · rwa [h]
    · exact .inl h

end Mh.Vm
