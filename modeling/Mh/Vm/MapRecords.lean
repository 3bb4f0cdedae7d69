import Mh.Vm.Mappings

/-!
# I/O mappings over a run

In every run the I/O mappings of a thread and the records of its hardware devices match: an entry
that is marked as an I/O mapping has exactly one record, on a descriptor that is open, and a record
is of such an entry.  A step that ends none of the mappings leaves all of them as they are, and a
thread that has exited has none.

A descriptor is closed before its thread can leave a mapping behind: `_hwdev_close` ends those of
its client, `bus_remove` closes all descriptors of a thread that exits, and the tests for external
entries keep every other call from them.
-/

namespace Mh.Vm

open Mh.Lib Mh.Bus

variable {m m' : Clients} {s s' : Sys} {cur d va pfn pid v : Nat} {gone gone' : Nat → Prop}

namespace Clients

/-! ## Closing a descriptor -/

/-- From `m` to `m'` the thread `cur` has ended mappings in `gone` only. -/
structure Closing (cur : Nat) (gone : Nat → Prop) (m m' : Clients) : Prop extends
    IoKept cur gone m.vm m'.vm where
  matched : m'.Matched
  live : m'.vm.live = m.vm.live
  zombie : m'.vm.zombie = m.vm.zombie

namespace Closing

variable {m₁ : Clients}

protected theorem refl (h : m.Matched) : Closing cur gone m m :=
  ⟨.refl m.vm, h, rfl, rfl⟩

protected theorem trans (h : Closing cur gone m m₁) (h' : Closing cur gone m₁ m') :
    Closing cur gone m m' :=
  ⟨h.toIoKept.trans h'.toIoKept, h'.matched, h'.live.trans h.live, h'.zombie.trans h.zombie⟩

theorem mono (h : Closing cur gone m m') (hg : ∀ v, gone v → gone' v) : Closing cur gone' m m' :=
  ⟨h.toIoKept.mono hg, h.matched, h.live, h.zombie⟩

theorem running (h : Closing cur gone m m') (hrun : m.vm.Running cur) : m'.vm.Running cur := by
  rw [Sys.Running, h.live, h.zombie]
  exact hrun

/-- What the driver does about exports ends no mapping. -/
theorem of_calm {dma : Dma} (h : m.Matched) (hc : CalmIo m.vm dma.vm) :
    Closing cur gone m { m with toDma := dma } :=
  ⟨.of_unmoved hc.toUnmoved, h.calm hc, hc.threads, hc.zombie⟩

end Closing

/-- Releasing the record of a mapping. -/
theorem Matched.release (h : m.Matched) (hrun : m.vm.Running cur) (hva : va ∈ m.hwmaps cur d)
    (hr : hwmapRelease cur d m va = .ok m') : Closing cur (· = vpn va) m m' ∧ m'.devs = m.devs ∧
      m'.hwmaps = setCell m.hwmaps cur d ((m.hwmaps cur d).erase va) := by
  simp only [hwmapRelease, bind_eq_ok] at hr
  obtain ⟨⟨r, vm⟩, h₁, h₂⟩ := hr
  cases h₂
  obtain ⟨-, rfl⟩ := iounmap_put (liftPanic_ok h₁)
  rw [setHwmaps_vm, if_pos (h.record hva).2.2.2]
  have hc : CalmIo (m.ioUnmapped cur d va).vm ((m.ioUnmapped cur d va).vm.setFlush cur .null) :=
    .setFlush cur _
  have hput : IoKept cur (· = vpn va) m.vm (m.ioUnmapped cur d va).vm := .put fun _ ↦ rfl
  exact ⟨⟨hput.trans (.of_unmoved hc.toUnmoved), (h.ioUnmapped hrun hva).calm hc, rfl, rfl⟩, rfl,
    rfl⟩

/-- The loop over the mappings. -/
theorem Matched.unmap {l : List Nat} (h : m.Matched) (hrun : m.vm.Running cur)
    (hl : m.hwmaps cur d = l) (hr : l.foldlM (hwmapRelease cur d) m = .ok m') :
    Closing cur (fun v ↦ ∃ va ∈ l, vpn va = v) m m' ∧ m'.devs = m.devs ∧
      m'.hwmaps = setCell m.hwmaps cur d [] := by
  induction l generalizing m with
  | nil =>
      cases hr
      exact ⟨.refl h, rfl, (setCell_eq_self hl).symm⟩
  | cons va l ih =>
      rw [List.foldlM_cons, bind_eq_ok] at hr
      obtain ⟨m₁, h₁, h₂⟩ := hr
      have hva : va ∈ m.hwmaps cur d := by
        rw [hl]
        exact List.mem_cons_self
      obtain ⟨hc, hdevs, hmaps⟩ := h.release hrun hva h₁
      rw [hl, List.erase_cons_head] at hmaps
      have hl₁ : m₁.hwmaps cur d = l := by
        rw [hmaps, setCell_self, Function.update_self]
      obtain ⟨hc', hdevs', hmaps'⟩ := ih hc.matched (hc.running hrun) hl₁ h₂
      refine ⟨(hc.mono ?_).trans (hc'.mono ?_), hdevs'.trans hdevs, ?_⟩
      · rintro v rfl
        exact ⟨va, List.mem_cons_self, rfl⟩
      · rintro v ⟨w, hw, rfl⟩
        exact ⟨w, List.mem_cons_of_mem va hw, rfl⟩
      · rw [hmaps', hmaps, setCell_setCell]

end Clients

/-! ### Exports -/

/-- A wire count is none of the business of I/O mappings. -/
theorem CalmIo.setWir (pfn wir : Nat) : CalmIo s (s.setWir pfn wir) :=
  .setDb (fun _ ↦ .inr trivial) id

/-- An export wires an entry that is not an I/O mapping. -/
theorem CalmIo.wired (hi : l1eIomap (s.l1 cur (vpn va)) = false) : CalmIo s (s.wired cur va) := by
  refine (CalmIo.setWir (s.l1 cur (vpn va)).pfn _).trans (.put hi ?_)
  simp [Mark.iomap, l1eIomap, l1eMkwired]

/-- The release of an export may unwire a wired entry. -/
theorem CalmIo.unwire (hw : l1eWired (s.l1 cur (vpn va))) (wir : Nat) :
    CalmIo s (s.unwire cur va wir) := by
  unfold Sys.unwire
  split
  · refine (CalmIo.setWir _ wir).trans (.put ?_ (Mark.test_of_normal _ rfl))
    rw [Sys.l1_setWir]
    simp [Mark.iomap, l1eIomap, (l1eWired_iff.1 hw).2]
  · exact .setWir _ wir

section Exports

variable {x x' : Dma}

theorem CalmIo.release {pd : Hwdma} (h : hwdmaRelease cur d x pd = .ok x') :
    CalmIo x.vm x'.vm := by
  obtain ⟨hw, -, wir, -, rfl⟩ := hwdmaRelease_ok h
  exact .unwire hw wir

/-- The loop of `_hwdev_close` over the exports. -/
theorem CalmIo.close (h : hwdevClose cur x d = .ok x') : CalmIo x.vm x'.vm :=
  foldlM_invariant (I := fun y : Dma ↦ CalmIo x.vm y.vm)
    (fun _ _ _ _ hc hr ↦ hc.trans (CalmIo.release hr)) h (.refl x.vm)

/-- `SYS_EXPORT`. -/
theorem CalmIo.exportPage {sz : Nat} (h : x.exec cur (.exportPage d va sz) = .ok x') :
    CalmIo x.vm x'.vm := by
  simp only [Dma.exec] at h
  split at h
  · rename_i hva
    rw [Bool.and_eq_true] at hva
    simp only [bind_eq_ok] at h
    obtain ⟨⟨ret, iova, hs⟩, h₁, h₂⟩ := h
    cases h₂
    rcases hwdevExport_ok (isuaddr_of_export hva.1) rfl h₁ with ⟨hvm, _⟩ | ⟨hi, _, hvm, _⟩
    · simp only [hvm]
      exact .refl _
    · simp only [hvm]
      exact .wired hi
  · cases h
    exact .refl _

/-- `SYS_UNEXPORT`. -/
theorem CalmIo.unexport (h : x.exec cur (.unexport d va) = .ok x') : CalmIo x.vm x'.vm := by
  simp only [Dma.exec] at h
  split at h
  · simp only [bind_eq_ok] at h
    obtain ⟨⟨ret, x₁⟩, h₁, h₂⟩ := h
    cases h₂
    unfold hwdevUnexport at h₁
    split at h₁
    · cases h₁
      exact .refl _
    · rw [bind_eq_ok] at h₁
      obtain ⟨x₂, h₃, h₄⟩ := h₁
      cases h₄
      exact .release h₃
  · cases h
    exact .refl _

end Exports

namespace Clients

/-- Closing a descriptor. -/
theorem Matched.close (h : m.Matched) (hrun : m.vm.Running cur)
    (hr : Clients.hwdevClose cur m d = .ok m') :
    Closing cur (fun v ↦ ∃ va ∈ m.hwmaps cur d, vpn va = v) m m' ∧
      ∀ d', d' = d ∨ m.devs cur d' = none → m'.devs cur d' = none := by
  unfold Clients.hwdevClose at hr
  split at hr
  · rename_i hopen
    simp only [bind_eq_ok] at hr
    obtain ⟨m₁, h₁, dma, h₂, h₃⟩ := hr
    cases h₃
    obtain ⟨hc, hdevs, hmaps⟩ := h.unmap hrun rfl h₁
    have hcalm : CalmIo m₁.vm dma.vm := .close h₂
    have hc' := hc.trans (.of_calm hc.matched hcalm)
    have hnil : m₁.hwmaps cur d = [] := by
      rw [hmaps, setCell_self, Function.update_self]
    have hm := hc'.matched.setDev none (hc'.running hrun) (h.descs cur d hopen) hnil
    refine ⟨⟨hc'.toIoKept, hm, hc'.live, hc'.zombie⟩, fun d' hd' ↦ ?_⟩
    rw [setDev_devs, setCell_apply]
    split
    · rfl
    · rename_i hne
      change m₁.devs cur d' = none
      rw [hdevs]
      exact hd'.resolve_left fun h ↦ hne ⟨rfl, h⟩
  · rename_i hopen
    cases hr
    refine ⟨.refl h, fun d' hd' ↦ ?_⟩
    rcases hd' with rfl | hd'
    · simpa using hopen
    · exact hd'

/-- The loop of `bus_remove`. -/
theorem Matched.closeAll {ds : List Nat} (h : m.Matched) (hrun : m.vm.Running cur)
    (hr : ds.foldlM (Clients.hwdevClose cur) m = .ok m') : Closing cur (fun _ ↦ True) m m' ∧
      ∀ d, d ∈ ds ∨ m.devs cur d = none → m'.devs cur d = none := by
  induction ds generalizing m with
  | nil =>
      cases hr
      exact ⟨.refl h, fun d hd ↦ hd.resolve_left List.not_mem_nil⟩
  | cons d ds ih =>
      rw [List.foldlM_cons, bind_eq_ok] at hr
      obtain ⟨m₁, h₁, h₂⟩ := hr
      obtain ⟨hc, hnone⟩ := h.close hrun h₁
      obtain ⟨hc', hnone'⟩ := ih hc.matched (hc.running hrun) h₂
      refine ⟨(hc.mono fun _ _ ↦ trivial).trans hc', fun d' hd' ↦ hnone' d' ?_⟩
      rw [List.mem_cons] at hd'
      rcases hd' with (hd' | hd') | hd'
      · exact .inr (hnone d' (.inl hd'))
      · exact .inl hd'
      · exact .inr (hnone d' (.inr hd'))

/-- `bus_remove` leaves a thread without open descriptors. -/
theorem Matched.remove (h : m.Matched) (hrun : m.vm.Running cur) (hr : m.busRemove cur = .ok m') :
    Closing cur (fun _ ↦ True) m m' ∧ ∀ d, m'.devs cur d = none := by
  obtain ⟨hc, hnone⟩ := h.closeAll hrun hr
  refine ⟨hc, fun d ↦ hnone d ?_⟩
  by_cases hd : d < maxBusDevs
  · exact .inl (List.mem_range.2 hd)
  · -- a descriptor that is not in the table is not open
    refine .inr ?_
    by_contra hopen
    exact hd (h.descs cur d (Option.isSome_iff_ne_none.2 hopen))

/-! ## The steps -/

/-- `SYS_IOMAP`. -/
theorem Matched.iomap {mmioaddr : Nat} {cfg : HwdevCfg} {r : Int} (h : m.Matched)
    (hrun : m.vm.Running cur) (hopen : (m.devs cur d).isSome)
    (hx : m.hwdevIomap cur d va mmioaddr cfg = .ok (r, m')) : Closing cur gone m m' := by
  simp only [hwdevIomap, bind_eq_ok] at hx
  obtain ⟨⟨ret, vm⟩, h₁, h₂⟩ := hx
  have h₁ := liftPanic_ok h₁
  have hneg : ∀ e : Errno, e.neg < 0 := Errno.neg_lt_zero
  -- a refusal of the driver
  have hrefused : ∀ {e : Errno}, (Except.ok (e.neg, m.vm) : Except Panic _) = .ok (ret, vm) →
      Closing cur gone m m' := by
    rintro e ⟨⟩
    rw [if_pos (hneg e)] at h₂
    cases h₂
    exact .refl h
  rw [hwdevMap] at h₁
  split at h₁
  · exact hrefused h₁
  split at h₁
  · exact hrefused h₁
  split at h₁
  · exact hrefused h₁
  obtain ⟨⟨r₁, vm₁⟩, hmap, hret⟩ := bind_eq_ok.1 h₁
  cases hret
  obtain ⟨hr, hc⟩ | ⟨hr, hva, hty, hx, hc⟩ := iomap_put .iomap (fun _ _ ↦ True) hmap
  · rw [if_pos hr, if_pos hr] at h₂
    cases h₂
    exact .of_calm h hc
  · rw [if_neg (not_lt.2 hr), if_neg (lt_irrefl 0)] at h₂
    cases h₂
    have hm := h.ioMapped hrun hopen hva hx hty
    have hput : IoKept cur gone m.vm (m.ioMapped cur d va (mmiopfn mmioaddr)).vm :=
      .put fun hi ↦ absurd (Mark.iomap.external hi) (by simp [hx])
    exact ⟨hput.trans (.of_unmoved hc.toUnmoved), hm.calm hc, hc.threads, hc.zombie⟩

/-- `SYS_IOUNMAP`. -/
theorem Matched.iounmap {r : Int} (h : m.Matched) (hrun : m.vm.Running cur)
    (hx : m.hwdevIounmap cur d va = .ok (r, m')) :
    Closing cur (fun v ↦ va ∈ m.hwmaps cur d ∧ vpn va = v) m m' := by
  unfold hwdevIounmap at hx
  split at hx
  · rename_i hva
    simp only [bind_eq_ok] at hx
    obtain ⟨m₁, h₁, h₂⟩ := hx
    cases h₂
    refine (h.release hrun hva h₁).1.mono ?_
    rintro v rfl
    exact ⟨hva, rfl⟩
  · cases hx
    exact .refl h

/-- `SYS_OPEN`. -/
theorem Matched.openDev {cfg : HwdevCfg} (h : m.Matched) (hrun : m.vm.Running cur)
    (hd : d < maxBusDevs) (hshut : m.devs cur d = none) : (m.hwdevOpen cur d cfg).Matched := by
  -- the lists of a descriptor that is closed are empty already
  have hnil := h.shut cur d hshut
  have hdma : ({ m with toDma := m.toDma.setHwdmas cur d [] } : Clients).Matched :=
    h.calm (Calm.refl m.vm)
  have hsame : ({ m with toDma := m.toDma.setHwdmas cur d [] } : Clients).setHwmaps cur d [] =
      { m with toDma := m.toDma.setHwdmas cur d [] } := setHwmaps_eq_self hnil
  rw [hwdevOpen, hsame]
  exact hdma.setDev (some cfg) hrun hd hnil

/-- `thfree`: the thread has no I/O mappings. -/
theorem Matched.thfree {th : Nat} (h : m.Matched) (hth : th ∈ m.vm.zombie) :
    ({ m with vm := Vm.thfree m.vm th } : Clients).Matched ∧
      IoKept cur gone m.vm (Vm.thfree m.vm th) := by
  refine ⟨⟨fun pid hpid ↦ h.entry pid (Finset.mem_of_mem_erase hpid),
    fun pid hpid ↦ h.mmio pid (Finset.mem_of_mem_erase hpid), h.uaddr, h.shut, h.descs,
    fun pid hpid ↦ ?_, fun pid hpid ↦ h.pids pid (Finset.mem_of_mem_erase hpid),
    Finset.erase_subset_erase th h.zombies⟩, ⟨fun pid hpid v hv hi _ ↦ ⟨?_, rfl⟩, fun _ hm ↦ hm⟩⟩
  · by_cases hpt : pid = th
    · rw [hpt]
      exact h.idle th (.inr hth)
    · refine h.idle pid (hpid.imp (fun hp hl ↦ hp ?_) Finset.mem_of_mem_erase)
      exact Finset.mem_erase.2 ⟨hpt, hl⟩
  · refine Finset.mem_erase.2 ⟨?_, hpid⟩
    rintro rfl
    rw [h.not_iomap hpid (h.idle pid (.inr hth)) hv] at hi
    cases hi

/-- An operation that is not one of the drivers, once a thread that exits has closed its
descriptors. -/
theorem Matched.did {op : Op} (h : m.Matched) (hrun : m.vm.Running cur)
    (hshut : op.kills → ∀ d, m.devs cur d = none)
    (hx : Did .iomap (fun _ _ ↦ True) m.vm cur op s) :
    ({ m with vm := s } : Clients).Matched ∧ IoKept cur gone m.vm s := by
  cases hx with
  | calm hk hc => exact ⟨h.calm hc, .of_unmoved hc.toUnmoved⟩
  | exit hk hx =>
      obtain ⟨hu, hl, hz, hp⟩ := Unmoved.exit (M := .iomap) (N := fun _ _ ↦ True) hx
      refine ⟨h.unmoved hu ?_ ?_ fun pid hpid ↦ ?_, .of_unmoved hu⟩
      · rw [hl, hp]
        exact h.pids
      · rw [hl, hz]
        exact Finset.insert_subset hrun.1 h.zombies
      · rw [hz] at hpid
        rcases Finset.mem_insert.1 hpid with rfl | hpid
        · exact hshut hk
        · exact h.idle pid (.inr hpid)
  | fork hx =>
      have hf := thfork_forked (h.pids cur hrun.1).ne hx
      have hu : Unmoved .iomap (fun _ _ ↦ True) m.vm s :=
        .thfork h.pids hrun.1 (fun _ ↦ trivial) hx
      refine ⟨h.unmoved hu ?_ ?_ ?_, .of_unmoved hu⟩
      · rw [hf.live, hf.nextpid]
        intro pid hpid
        rcases Finset.mem_insert.1 hpid with rfl | hpid
        · exact Nat.lt_succ_self _
        · exact (h.pids pid hpid).trans (Nat.lt_succ_self _)
      · rw [hf.live, hf.zombie]
        exact h.zombies.trans (Finset.subset_insert _ _)
      · rw [hf.zombie]
        exact fun pid hpid ↦ h.idle pid (.inr hpid)
  | thfree hth => exact h.thfree hth

/-- Every step keeps the agreement, and the I/O mappings that it does not end. -/
theorem Matched.step {a : Nat × ClientOp} (h : m.Matched) (hs : ClientStep m a m') :
    m'.Matched ∧ IoKept a.1 (fun v ↦ m.Ends v a) m.vm m'.vm := by
  obtain ⟨cur, op⟩ := a
  obtain ⟨hrun, hd, hx⟩ := hs
  have hclosing : ∀ {gone}, Closing cur gone m m' → m'.Matched ∧ IoKept cur gone m.vm m'.vm :=
    fun hc ↦ ⟨hc.matched, hc.toIoKept⟩
  have hrefused : ∀ {gone}, (Except.ok m : Except Stop Clients) = .ok m' →
      m'.Matched ∧ IoKept cur gone m.vm m'.vm := by
    rintro gone ⟨⟩
    exact hclosing (.refl h)
  cases op with
  | vm op =>
      have hdid : ∀ {m₁ : Clients} {s}, liftPanic (Vm.exec m₁.vm cur op) = .ok s →
          Did .iomap (fun _ _ ↦ True) m₁.vm cur op s := fun hx ↦
        exec_did (hd op rfl) (fun _ _ _ _ _ _ _ _ ↦ trivial) (liftPanic_ok hx)
      simp only [exec] at hx
      split at hx
      · rename_i hk
        simp only [bind_eq_ok] at hx
        obtain ⟨m₁, h₁, s, h₂, h₃⟩ := hx
        cases h₃
        obtain ⟨hc, hshut⟩ := h.remove hrun h₁
        obtain ⟨hm, hkept⟩ := hc.matched.did (hc.running hrun) (fun _ ↦ hshut) (hdid h₂)
        exact ⟨hm, (hc.toIoKept.trans hkept).mono fun _ _ ↦ hk⟩
      · rename_i hk
        simp only [bind_eq_ok] at hx
        obtain ⟨m₁, h₁, s, h₂, h₃⟩ := hx
        cases h₁
        cases h₃
        exact h.did hrun (fun hk' ↦ absurd hk' hk) (hdid h₂)
  | openDev d cfg =>
      simp only [exec] at hx
      split at hx
      · rename_i hopen
        rw [Bool.and_eq_true, decide_eq_true_eq, Option.isNone_iff_eq_none] at hopen
        cases hx
        exact ⟨h.openDev hrun hopen.1 hopen.2, .refl m.vm⟩
      · exact hrefused hx
  | iomap d va mmioaddr =>
      simp only [exec] at hx
      split at hx
      · rename_i cfg hopen
        split at hx
        · simp only [bind_eq_ok] at hx
          obtain ⟨⟨r, m₁⟩, h₁, h₂⟩ := hx
          cases h₂
          exact hclosing (h.iomap hrun (by rw [hopen]; rfl) h₁)
        · exact hrefused hx
      · exact hrefused hx
  | iounmap d va =>
      simp only [exec] at hx
      split at hx
      · simp only [bind_eq_ok] at hx
        obtain ⟨⟨r, m₁⟩, h₁, h₂⟩ := hx
        cases h₂
        exact hclosing (h.iounmap hrun h₁)
      · exact hrefused hx
  | exportPage d va sz =>
      simp only [exec] at hx
      split at hx
      · simp only [bind_eq_ok] at hx
        obtain ⟨dma, h₁, h₂⟩ := hx
        cases h₂
        exact hclosing (.of_calm h (.exportPage h₁))
      · exact hrefused hx
  | unexport d va =>
      simp only [exec] at hx
      split at hx
      · simp only [bind_eq_ok] at hx
        obtain ⟨dma, h₁, h₂⟩ := hx
        cases h₂
        exact hclosing (.of_calm h (.unexport h₁))
      · exact hrefused hx
  | close d => exact hclosing (h.close hrun hx).1

/-! ## What is promised of a run -/

/-- What is promised of the I/O mappings and their records. -/
structure MapsExact (m : Clients) : Prop where
  /-- a mapping has one record -/
  entry : ∀ pid ∈ m.vm.live, ∀ v ∈ userVpns, l1eIomap (m.vm.l1 pid v) → m.mapped pid v = 1
  /-- a record is on an open descriptor of a thread that runs, and is that of a mapping -/
  record : ∀ pid d, ∀ va ∈ m.hwmaps pid d, m.vm.Running pid ∧ (m.devs pid d).isSome ∧
    d < maxBusDevs ∧ isuaddr va ∧ l1eIomap (m.vm.l1 pid (vpn va))
  /-- a mapping is of memory for I/O -/
  mmio : ∀ pid ∈ m.vm.live, ∀ v ∈ userVpns, l1eIomap (m.vm.l1 pid v) →
    (m.vm.db (m.vm.l1 pid v).pfn).type = .mmio
  /-- a thread that has exited has none -/
  exited : ∀ pid ∈ m.vm.zombie, ∀ v ∈ userVpns, l1eIomap (m.vm.l1 pid v) = false

theorem Matched.exact (h : m.Matched) : m.MapsExact where
  entry pid hpid v hv hi := by
    rw [h.entry pid hpid v hv, hi]
    rfl
  record pid d va hva := by
    obtain ⟨hlive, hz, hopen, hi⟩ := h.record hva
    exact ⟨⟨hlive, hz⟩, hopen, h.descs pid d hopen, h.uaddr pid d va hva, hi⟩
  mmio := h.mmio
  exited pid hpid v hv := h.not_iomap (h.zombies hpid) (h.idle pid (.inr hpid)) hv

/-- In every run from boot, I/O mappings and records match, and a step ends no mappings but those
of its own thread that it is asked to end: all others stay, and so does the memory they map. -/
theorem mmio_maps_exact {as : List (Nat × ClientOp)} (hb : ClientBoot m)
    (hr : Run ClientStep m as m') : m'.MapsExact ∧ ∀ a m'', ClientStep m' a m'' →
      IoKept a.1 (fun v ↦ m'.Ends v a) m'.vm m''.vm := by
  have h : m'.Matched := hr.invariant (I := Matched) (fun _ _ _ h hs ↦ (h.step hs).1) (.boot hb)
  exact ⟨h.exact, fun _ _ hs ↦ (h.step hs).2⟩

/-- The machine with nothing mapped, and the pages from 1024 on memory for I/O. -/
def emptyClients : Clients := ⟨⟨emptyVm, fun _ _ ↦ []⟩, fun _ _ ↦ none, fun _ _ ↦ []⟩

theorem emptyClients_boot : ClientBoot emptyClients where
  dma := by
    refine ⟨⟨rfl, rfl, by decide, by decide, fun _ ↦ rfl, fun pfn ↦ ?_⟩, fun _ _ ↦ rfl⟩
    change (if 1024 ≤ pfn then PfnType.mmio else .system) ≠ .user
    split <;> decide
  devs _ _ := rfl
  hwmaps _ _ := rfl

/-- The first thread opens a device and maps the page of its memory. -/
theorem mmio_maps_exact_frameBuf : ∃ m, Run ClientStep emptyClients
      [(1, .openDev 0 frameBuf.cfg), (1, .iomap 0 0x400000 0xfe000000)] m ∧
    m.hwmaps 1 0 = [0x400000] ∧ m.MapsExact := by
  have h₁ : ClientStep emptyClients (1, .openDev 0 frameBuf.cfg) _ :=
    ⟨⟨by decide, by decide⟩, nofun, rfl⟩
  have h₂ : ClientStep (emptyClients.hwdevOpen 1 0 frameBuf.cfg) (1, .iomap 0 0x400000 0xfe000000)
      _ := ⟨⟨by decide, by decide⟩, nofun, rfl⟩
  exact ⟨_, .cons h₁ (.cons h₂ (.nil _)), rfl,
    (mmio_maps_exact emptyClients_boot (.cons h₁ (.cons h₂ (.nil _)))).1⟩

end Clients

end Mh.Vm
