import Mh.Vm.Wiring

/-!
# Wire counts over a run

Every step that meets `Dma.Wires` keeps the agreement of `Dma.Tied`, so that in every run of such
steps the wire count of a user page is the number of its exports that have not been unexported, and
an entry is marked wired just while an export made through it is outstanding.

Three kinds of steps are left out.  `thfork` takes a page for the area it copies at once and clears
its reference count but not its wire count, which is then what the free list left there.  Releasing
the last export through an entry leaves the mark when the page is still exported through the entry
of another process.  And a page that is handed out while it is exported loses its count; this takes
a page that was freed while it was mapped.
-/

namespace Mh.Vm

open Mh.Lib Mh.Bus

variable {m m' : Dma} {s s' : Sys} {cur d va : Nat} {pd : Hwdma}

namespace Dma

/-! ## Closing a descriptor -/

theorem lastOut_congr (h : m'.hwdmas = m.hwdmas) (hl : m'.vm.live = m.vm.live) (cur : Nat)
    (pd : Hwdma) : m'.LastOut cur pd ↔ m.LastOut cur pd := by
  rw [LastOut, through_congr h, exports_congr h hl, LastOut]

theorem setHwdmas_congr (h : m'.hwdmas = m.hwdmas) (cur d : Nat) (l : List Hwdma) :
    (m'.setHwdmas cur d l).hwdmas = (m.setHwdmas cur d l).hwdmas := by
  rw [setHwdmas, setHwdmas, h]

theorem remove_congr (h : m'.hwdmas = m.hwdmas) (cur d : Nat) (pd : Hwdma) :
    (m'.remove cur d pd).hwdmas = (m.remove cur d pd).hwdmas := by
  rw [remove, remove, h, setHwdmas_congr h]

theorem setHwdmas_setHwdmas (m : Dma) (cur d : Nat) (l l' : List Hwdma) :
    (m.setHwdmas cur d l).setHwdmas cur d l' = m.setHwdmas cur d l' :=
  congrArg (Dma.mk m.vm) setCell_setCell

/-- Whether the records of a list may be released is a matter of the records and the threads. -/
theorem Releases.congr {l : List Hwdma} (hr : m.Releases cur d l) (h : m'.hwdmas = m.hwdmas)
    (hl : m'.vm.live = m.vm.live) : m'.Releases cur d l := by
  induction l generalizing m m' with
  | nil => trivial
  | cons pd l ih =>
      exact ⟨(lastOut_congr h hl cur pd).2 hr.1, ih hr.2 (remove_congr h cur d pd) hl⟩

theorem Removes.congr {ds : List Nat} (hr : m.Removes cur ds) (h : m'.hwdmas = m.hwdmas)
    (hl : m'.vm.live = m.vm.live) : m'.Removes cur ds := by
  induction ds generalizing m m' with
  | nil => trivial
  | cons d ds ih =>
      refine ⟨?_, ih hr.2 (setHwdmas_congr h cur d []) hl⟩
      rw [h]
      exact hr.1.congr h hl

/-- Releasing one record. -/
theorem Tied.release (h : m.Tied) (hrun : m.vm.Running cur) (hd : d < maxBusDevs)
    (hpd : pd ∈ m.hwdmas cur d) (hlast : m.LastOut cur pd)
    (hr : hwdmaRelease cur d m pd = .ok m') :
    m'.Tied ∧ m'.hwdmas = (m.remove cur d pd).hwdmas ∧ Frame cur m.vm m'.vm := by
  obtain ⟨-, hu, wir, hdec, rfl⟩ := hwdmaRelease_ok hr
  exact ⟨h.released hrun hd hpd hlast hu hdec, rfl, m.vm.unwire_frame cur pd.va wir⟩

/-- Closing a descriptor releases its records one after the other. -/
theorem Tied.close {l : List Hwdma} (h : m.Tied) (hrun : m.vm.Running cur) (hd : d < maxBusDevs)
    (hl : m.hwdmas cur d = l) (hrel : m.Releases cur d l)
    (hr : l.foldlM (hwdmaRelease cur d) m = .ok m') :
    m'.Tied ∧ m'.hwdmas = (m.setHwdmas cur d []).hwdmas ∧ Frame cur m.vm m'.vm := by
  induction l generalizing m with
  | nil =>
      cases hr
      exact ⟨h, (setCell_eq_self hl).symm, .refl _⟩
  | cons pd l ih =>
      rw [List.foldlM_cons, bind_eq_ok] at hr
      obtain ⟨m₁, h₁, h₂⟩ := hr
      have hpd : pd ∈ m.hwdmas cur d := by
        rw [hl]
        exact List.mem_cons_self
      obtain ⟨ht, hhw, hf⟩ := h.release hrun hd hpd hrel.1 h₁
      have hrm : m.remove cur d pd = m.setHwdmas cur d l := by
        rw [remove, hl, List.erase_cons_head]
      have hrun₁ : m₁.vm.Running cur := by
        rw [Sys.Running, hf.live, hf.zombie]
        exact hrun
      have hl₁ : m₁.hwdmas cur d = l := by
        rw [hhw, hrm, setHwdmas_self, Function.update_self]
      obtain ⟨ht', hhw', hf'⟩ := ih ht hrun₁ hl₁ (hrel.2.congr hhw hf.live) h₂
      refine ⟨ht', ?_, hf.trans hf'⟩
      rw [hhw', setHwdmas_congr hhw, hrm, setHwdmas_setHwdmas]

/-- `bus_remove` leaves a thread without records. -/
theorem Tied.remove {ds : List Nat} (h : m.Tied) (hrun : m.vm.Running cur)
    (hds : ∀ d ∈ ds, d < maxBusDevs) (hrem : m.Removes cur ds)
    (hr : ds.foldlM (hwdevClose cur) m = .ok m') :
    m'.Tied ∧ (∀ d, d ∈ ds ∨ m.hwdmas cur d = [] → m'.hwdmas cur d = []) ∧
      Frame cur m.vm m'.vm := by
  induction ds generalizing m with
  | nil =>
      cases hr
      exact ⟨h, fun d hd ↦ hd.resolve_left List.not_mem_nil, .refl _⟩
  | cons d ds ih =>
      rw [List.foldlM_cons, bind_eq_ok] at hr
      obtain ⟨m₁, h₁, h₂⟩ := hr
      obtain ⟨ht, hhw, hf⟩ := h.close hrun (hds d List.mem_cons_self) rfl hrem.1 h₁
      have hrun₁ : m₁.vm.Running cur := by
        rw [Sys.Running, hf.live, hf.zombie]
        exact hrun
      obtain ⟨ht', hempty, hf'⟩ := ih ht hrun₁ (fun d' hd' ↦ hds d' (List.mem_cons_of_mem d hd'))
        (hrem.2.congr hhw hf.live) h₂
      refine ⟨ht', fun d' hd' ↦ hempty d' ?_, hf.trans hf'⟩
      rw [hhw, setHwdmas_self, Function.update_apply, List.mem_cons] at *
      by_cases hdd : d' = d
      · exact .inr (if_pos hdd)
      · rw [if_neg hdd]
        exact hd'.imp_left fun h ↦ h.resolve_left hdd

/-! ## The steps -/

/-- `__exit`, once the thread has no records. -/
theorem Tied.exit (h : m.Tied) (hempty : ∀ d < maxBusDevs, m.hwdmas cur d = [])
    (hcur : cur ∈ m.vm.live) (hx : Vm.exit m.vm cur = .ok s) : ({ m with vm := s } : Dma).Tied := by
  obtain ⟨hu, hl, hz, hp⟩ := Unmoved.exit (M := .wired) (N := m.Fresh) hx
  refine h.unmoved hu ?_ ?_ fun pid hpid ↦ ?_
  · rw [hl, hp]
    exact h.pids
  · rw [hl, hz]
    exact Finset.insert_subset hcur h.zombies
  · rw [hz] at hpid
    rcases Finset.mem_insert.1 hpid with rfl | hpid
    · exact hempty
    · exact h.idle pid (.inr hpid)

/-- `thfree`: the thread has no records. -/
theorem Tied.thfree {th : Nat} (h : m.Tied) (hth : th ∈ m.vm.zombie) :
    ({ m with vm := Vm.thfree m.vm th } : Dma).Tied := by
  have hexp : ∀ q, ({ m with vm := Vm.thfree m.vm th } : Dma).exports q = m.exports q := fun q ↦
    Finset.sum_erase m.vm.live (recorded_eq_zero (h.idle th (.inr hth)))
  refine ⟨fun pid hpid ↦ h.record pid (Finset.mem_of_mem_erase hpid),
    fun pid hpid ↦ h.marked pid (Finset.mem_of_mem_erase hpid), fun q hq ↦ ?_, fun q ↦ ?_,
    fun pid hpid ↦ h.pids pid (Finset.mem_of_mem_erase hpid),
    Finset.erase_subset_erase th h.zombies, fun pid hpid ↦ ?_⟩
  · rw [hexp]
    exact h.wir q hq
  · rw [hexp]
    exact h.room q
  · by_cases hpt : pid = th
    · rw [hpt]
      exact h.idle th (.inr hth)
    · refine h.idle pid (hpid.imp (fun hp hl ↦ hp ?_) Finset.mem_of_mem_erase)
      exact Finset.mem_erase.2 ⟨hpt, hl⟩

/-- `thfork`. -/
theorem Tied.thfork {stale : Tlbf} {pick : Nat → Page} (h : m.Tied) (hrun : m.vm.Running cur)
    (hn : m.HandsOut cur (.fork stale pick)) (hx : Vm.thfork m.vm cur stale pick = .ok s) :
    ({ m with vm := s } : Dma).Tied := by
  have hf := thfork_forked (h.pids cur hrun.1).ne hx
  have hu : Unmoved .wired m.Fresh m.vm s :=
    .thfork h.pids hrun.1 (fun hp ↦ (hn 1 (by decide) hp).symm) hx
  refine h.unmoved hu ?_ ?_ ?_
  · rw [hf.live, hf.nextpid]
    intro pid hpid
    rcases Finset.mem_insert.1 hpid with rfl | hpid
    · exact Nat.lt_succ_self _
    · exact (h.pids pid hpid).trans (Nat.lt_succ_self _)
  · rw [hf.live, hf.zombie]
    exact h.zombies.trans (Finset.subset_insert _ _)
  · rw [hf.zombie]
    exact fun pid hpid ↦ h.idle pid (.inr hpid)

/-- `SYS_IOMAP`. -/
theorem Tied.sysIomap {mmiopfn : Nat} {r : Int} (h : m.Tied)
    (hx : Vm.sysIomap m.vm cur va mmiopfn = .ok (r, s)) : ({ m with vm := s } : Dma).Tied := by
  unfold Vm.sysIomap at hx
  split at hx
  · cases hx
    exact h
  · split at hx
    · cases hx
      exact h
    · exact h.calm (.iomap hx)

/-- An operation that is not one of the drivers, once the records of a thread that exits are
gone. -/
theorem Tied.did {op : Op} (h : m.Tied) (hrun : m.vm.Running cur)
    (hempty : op.kills → ∀ d < maxBusDevs, m.hwdmas cur d = [])
    (hn : op.kills = false → m.HandsOut cur op) (hx : Did .wired m.Fresh m.vm cur op s) :
    ({ m with vm := s } : Dma).Tied := by
  cases hx with
  | calm hk hc => exact h.calm hc
  | exit hk hx => exact h.exit (hempty hk) hrun.1 hx
  | fork hx => exact h.thfork hrun (hn rfl) hx
  | thfree hth => exact h.thfree hth

/-- An operation on the address spaces. -/
theorem Tied.vm {op : Op} (h : m.Tied) (hrun : m.vm.Running cur) (hw : op.wires = false)
    (hempty : op.kills → ∀ d < maxBusDevs, m.hwdmas cur d = [])
    (hn : op.kills = false → m.HandsOut cur op) (hx : Vm.exec m.vm cur op = .ok s) :
    ({ m with vm := s } : Dma).Tied := by
  cases hd : op.driven with
  | true =>
      cases op with
      | iomap va mmiopfn =>
          simp only [Vm.exec, bind_eq_ok] at hx
          obtain ⟨⟨r, s₁⟩, h₁, h₂⟩ := hx
          cases h₂
          exact h.sysIomap h₁
      | iounmap va =>
          simp only [Vm.exec, bind_eq_ok] at hx
          obtain ⟨⟨r, s₁⟩, h₁, h₂⟩ := hx
          cases h₂
          exact h.calm (.iounmap h₁)
      | wire va => cases hw
      | unwire va => cases hw
      | _ => cases hd
  | false =>
      refine h.did hrun hempty hn (exec_did hd (fun va perm root pg hop hk hp hx' ↦ ?_) hx)
      subst hop
      exact ⟨hn hk hp hx', rfl⟩

/-- `SYS_EXPORT`. -/
theorem Tied.sysExport {sz : Nat} {ret : Int} {iova : Option Nat} {hw : HwState} (h : m.Tied)
    (hrun : m.vm.Running cur) (hd : d < maxBusDevs) (hva : chkuaddr va sz)
    (hroom : m.exports (m.vm.l1 cur (vpn va)).pfn + 1 < 2 ^ 64)
    (hx : hwdevExport ⟨m.vm, false, m.hwdmas cur⟩ cur d va sz = .ok (ret, iova, hw)) :
    (⟨hw.vm, Function.update m.hwdmas cur hw.hwdmas⟩ : Dma).Tied := by
  have hva := isuaddr_of_export hva
  rcases hwdevExport_ok hva rfl hx with ⟨hvm, hhw⟩ | ⟨hi, hp, hvm, hhw⟩
  · rw [hvm, hhw, Function.update_eq_self]
    exact h
  · rw [hvm, hhw]
    exact h.exported hrun hd hva hi hp hroom

/-- Every step that meets the condition keeps the agreement. -/
theorem Tied.step {a : Nat × DmaOp} (h : m.Tied) (hs : DmaStep m a m') (hc : m.Wires a) :
    m'.Tied := by
  obtain ⟨cur, op⟩ := a
  obtain ⟨hrun, hw, hx⟩ := hs
  cases op with
  | vm op =>
      have hw := hw op rfl
      simp only [exec] at hx
      simp only [Wires] at hc
      split at hx
      · rename_i hk
        simp only [bind_eq_ok] at hx
        obtain ⟨m₁, h₁, s, h₂, h₃⟩ := hx
        cases h₃
        rw [if_pos hk] at hc
        obtain ⟨ht, hempty, hf⟩ := h.remove hrun (fun d hd ↦ List.mem_range.1 hd) hc h₁
        have hrun₁ : m₁.vm.Running cur := by
          rw [Sys.Running, hf.live, hf.zombie]
          exact hrun
        exact ht.vm hrun₁ hw (fun _ d hd ↦ hempty d (.inl (List.mem_range.2 hd)))
          (fun hk' ↦ by rw [hk] at hk'; cases hk') (liftPanic_ok h₂)
      · rename_i hk
        simp only [bind_eq_ok] at hx
        obtain ⟨m₁, h₁, s, h₂, h₃⟩ := hx
        cases h₁
        cases h₃
        rw [if_neg hk] at hc
        exact h.vm hrun hw (fun hk' ↦ absurd hk' hk) (fun _ ↦ hc) (liftPanic_ok h₂)
  | exportPage d va sz =>
      simp only [exec] at hx
      split at hx
      · rename_i hva
        rw [Bool.and_eq_true, decide_eq_true_eq] at hva
        simp only [bind_eq_ok] at hx
        obtain ⟨⟨ret, iova, hs⟩, h₁, h₂⟩ := hx
        cases h₂
        exact h.sysExport hrun hva.2 hva.1 hc h₁
      · cases hx
        exact h
  | unexport d va =>
      simp only [exec] at hx
      split at hx
      · rename_i hva
        rw [Bool.and_eq_true, decide_eq_true_eq] at hva
        simp only [bind_eq_ok] at hx
        obtain ⟨⟨ret, m₁⟩, h₁, h₂⟩ := hx
        cases h₂
        unfold hwdevUnexport at h₁
        split at h₁
        · cases h₁
          exact h
        · rename_i pd hpd
          rw [bind_eq_ok] at h₁
          obtain ⟨m₂, h₃, h₄⟩ := h₁
          cases h₄
          exact (h.release hrun hva.2 (List.mem_of_find?_eq_some hpd) (hc pd hpd) h₃).1
      · cases hx
        exact h
  | close d =>
      simp only [exec] at hx
      split at hx
      · exact (h.close hrun ‹_› rfl hc hx).1
      · cases hx
        exact h

end Dma

/-! ## What is promised of a run -/

/-- `vmunmap` of an entry that is not external is not refused. -/
theorem vmunmap_not_busy {ret : Int} (hx : l1eExternal (s.l1 cur (vpn va)) = false)
    (h : vmunmap s cur va = .ok (ret, s')) : ret ≠ Errno.EBUSY.neg := by
  simp only [vmunmap, bind_eq_ok] at h
  obtain ⟨⟨r, opfn, s₁⟩, h₁, h₂⟩ := h
  obtain ⟨-, -, ⟨hx', _⟩ | ⟨_, rfl, _⟩⟩ := pmapUenter_ok h₁
  · rw [hx] at hx'
    cases hx'
  · have hpos := (freeOld_ok h₂).2
    have hneg := Errno.neg_lt_zero .EBUSY
    omega

/-- Nor is `vmmove` between two such entries. -/
theorem vmmove_not_busy {dst src : Nat} {ret : Int}
    (hs : l1eExternal (s.l1 cur (vpn src)) = false) (hd : l1eExternal (s.l1 cur (vpn dst)) = false)
    (h : vmmove s cur dst src = .ok (ret, s')) : ret ≠ Errno.EBUSY.neg := by
  simp only [vmmove, bind_eq_ok] at h
  obtain ⟨⟨r, opfn, s₁⟩, h₁, h₂⟩ := h
  obtain ⟨-, -, ⟨hx, _⟩ | ⟨_, _, rfl, _⟩⟩ := pmapUchaddr_ok h₁
  · rw [hs, hd] at hx
    exact absurd hx (by simp)
  · have hpos := (freeOld_ok h₂).2
    have hneg := Errno.neg_lt_zero .EBUSY
    omega

/-- What a thread that has unexported everything may rely on: none of its entries is wired, and
unmapping and moving what is not an I/O mapping is not refused. -/
structure Dma.Unwired (m : Dma) (pid : Nat) : Prop where
  entry : ∀ v ∈ userVpns, l1eWired (m.vm.l1 pid v) = false
  unmap : ∀ va ret s', isuaddr va → l1eIomap (m.vm.l1 pid (vpn va)) = false →
    vmunmap m.vm pid va = .ok (ret, s') → ret ≠ Errno.EBUSY.neg
  move : ∀ dst src ret s', isuaddr dst → isuaddr src →
    l1eIomap (m.vm.l1 pid (vpn dst)) = false → l1eIomap (m.vm.l1 pid (vpn src)) = false →
    vmmove m.vm pid dst src = .ok (ret, s') → ret ≠ Errno.EBUSY.neg

/-- What is promised of wire counts and marks. -/
structure Dma.WiresExact (m : Dma) : Prop where
  /-- the count of a page is the number of its exports -/
  wir : ∀ q, (m.vm.db q).type = .user → (m.vm.db q).wir = m.exports q
  /-- an entry is marked just while an export through it is outstanding -/
  marked : ∀ pid ∈ m.vm.live, ∀ v ∈ userVpns,
    (l1eWired (m.vm.l1 pid v) ↔ 0 < m.through pid v)
  unexported : ∀ pid ∈ m.vm.live, (∀ d < maxBusDevs, m.hwdmas pid d = []) → m.Unwired pid

theorem Dma.Tied.wired_iff (h : m.Tied) {pid v : Nat} (hpid : pid ∈ m.vm.live)
    (hv : v ∈ userVpns) : l1eWired (m.vm.l1 pid v) ↔ 0 < m.through pid v := by
  refine ⟨h.marked pid hpid v hv, fun hpos ↦ ?_⟩
  obtain ⟨d, hd, pd, hpd, hvv⟩ := exists_of_recorded_pos hpos
  obtain ⟨-, hw, -⟩ := h.record pid hpid d hd pd hpd
  rw [beq_iff_eq] at hvv
  rwa [hvv] at hw

theorem Dma.Tied.unwired (h : m.Tied) {pid : Nat} (hpid : pid ∈ m.vm.live)
    (hempty : ∀ d < maxBusDevs, m.hwdmas pid d = []) : m.Unwired pid := by
  have hw : ∀ v ∈ userVpns, l1eWired (m.vm.l1 pid v) = false := by
    intro v hv
    by_contra hw
    have hpos := (h.wired_iff hpid hv).1 (by simpa using hw)
    rw [through, recorded_eq_zero hempty] at hpos
    exact absurd hpos (lt_irrefl 0)
  have hx : ∀ va, isuaddr va → l1eIomap (m.vm.l1 pid (vpn va)) = false →
      l1eExternal (m.vm.l1 pid (vpn va)) = false := by
    intro va hva hi
    rw [l1eExternal, hw _ (vpn_mem_userVpns hva), hi]
    rfl
  refine ⟨hw, fun va ret s' hva hi hu ↦ vmunmap_not_busy (hx va hva hi) hu, ?_⟩
  intro dst src ret s' hd hs hid his hu
  exact vmmove_not_busy (hx src hs his) (hx dst hd hid) hu

theorem Dma.Tied.wiresExact (h : m.Tied) : m.WiresExact :=
  ⟨h.wir, fun _ hpid _ hv ↦ h.wired_iff hpid hv, fun _ hpid hempty ↦ h.unwired hpid hempty⟩

/-- In every run from boot whose steps all meet the condition, the wire counts and the marks are
exact. -/
theorem wires_exact {as : List (Nat × DmaOp)} (hb : DmaBoot m)
    (hr : Run (fun m a m' ↦ DmaStep m a m' ∧ m.Wires a) m as m') : m'.WiresExact :=
  (hr.invariant (I := Dma.Tied) (fun _ _ _ ht hs ↦ ht.step hs.1 hs.2) hb.tied).wiresExact

/-! ## A run that keeps the counts, and one that does not -/

/-- An operation that returns and does not end in `__exit`. -/
theorem Dma.exec_vm {op : Op} (hk : op.kills = false) (h : Vm.exec m.vm cur op = .ok s) :
    m.exec cur (.vm op) = .ok { m with vm := s } := by
  simp [Dma.exec, hk, h, liftPanic, bind, pure, Except.bind, Except.pure]

/-- An export of a page that can be wired. -/
theorem Dma.exec_export {sz : Nat} (hva : chkuaddr va sz) (hd : d < maxBusDevs)
    (hc : crosses va sz = false) (hi : l1eIomap (m.vm.l1 cur (vpn va)) = false)
    (hw : Wirable m.vm (m.vm.l1 cur (vpn va))) :
    m.exec cur (.exportPage d va sz) = .ok (m.exported cur d va) := by
  have hpage : hwdevExport ⟨m.vm, false, m.hwdmas cur⟩ cur d va sz = _ := hwdevExport_page rfl hc
  have hx := hpage.trans (hwdevExportPage_done (isuaddr_of_export hva) hi hw.present hw.le hw.user)
  simp only [Dma.exec, hva, hd, decide_true, Bool.and_self, if_true, hx]
  rfl

/-- The machine of the demonstrations, with nothing exported. -/
def demoDma : Dma := ⟨demo, fun _ _ ↦ []⟩

theorem demoDma_boot : DmaBoot demoDma := ⟨demo_boot, fun _ _ ↦ rfl⟩

/-- Without records nothing is exported. -/
theorem Dma.exports_of_nil (h : ∀ pid d, m.hwdmas pid d = []) (q : Nat) : m.exports q = 0 :=
  Finset.sum_eq_zero fun pid _ ↦ recorded_eq_zero fun d _ ↦ h pid d

/-- The machine in which the first thread has mapped a page of the copy-on-write area. -/
def demoDmaMapped : Dma := ⟨demoMapped, fun _ _ ↦ []⟩

/-- The first thread maps a page and exports it. -/
theorem wires_exact_demo : (demoDmaMapped.exported 1 0 0x400000).WiresExact := by
  have hl1 : demoDmaMapped.vm.l1 1 (vpn 0x400000) = mkl1e 1 protUserWr := demoMapped_l1 2
  have hexp : ∀ q, demoDmaMapped.exports q = 0 := Dma.exports_of_nil fun _ _ ↦ rfl
  have hrun : Run (fun m a m' ↦ DmaStep m a m' ∧ m.Wires a) demoDma
      [(1, .vm demoMap), (1, .exportPage 0 0x400000 16)]
      (demoDmaMapped.exported 1 0 0x400000) := by
    refine .cons (t := demoDmaMapped) ⟨⟨demo_map.1.1.1, ?_, ?_⟩, ?_⟩
      (.cons ⟨⟨by decide, nofun, ?_⟩, ?_⟩ (.nil _))
    · rintro op ⟨⟩
      rfl
    · exact Dma.exec_vm (by decide) demo_map.1.1.2
    · exact fun _ _ ↦ Dma.exports_of_nil (fun _ _ ↦ rfl) _
    · refine Dma.exec_export (by decide) (by decide) (by decide) ?_ ?_
      · rw [hl1]
        rfl
      · rw [hl1]
        exact ⟨rfl, by decide, by decide, by decide⟩
    · simp only [Dma.Wires, hexp, Nat.zero_add]
      exact Nat.one_lt_two_pow (by decide)
  exact wires_exact demoDma_boot hrun

/-- `SYS_MAP` of the first page, which `thfork` copies at once. -/
def demoMapZcow : Op := .map 0x200000 (3 + mapNew) false ⟨1, 0, 0⟩

/-- The machine after it. -/
def demoZcow : Sys :=
  ((((demo.alloc 1 0).incref 1).put 1 1 (mkl1e 1 protUserWr)).setFlush 1 .null).setMem 1 fun _ ↦ 0

theorem demoZcow_l1 (v : Nat) : demoZcow.l1 1 v = if v = 1 then mkl1e 1 protUserWr else .zero := by
  by_cases h : v = 1
  · subst h
    simp [demoZcow, Sys.put]
  · simp only [demoZcow, Sys.l1_setMem, Sys.l1_setFlush, Sys.put, if_neg h]
    rw [Sys.l1_setL1e_of_ne _ (.inr h), Sys.l1_setFlush]
    rfl

theorem demo_mapZcow : Vm.exec demo 1 demoMapZcow = .ok demoZcow := by
  have hmap : vmmap demo 1 0x200000 protUserWr ⟨1, 0, 0⟩ = .ok (0, demoZcow) :=
    vmmap_fresh (by decide) ⟨by decide, by decide, rfl⟩ rfl rfl rfl rfl
  change (do return (← vmmap demo 1 0x200000 protUserWr ⟨1, 0, 0⟩).2) = Except.ok demoZcow
  rw [hmap]
  rfl

/-- What the record of a free block leaves in the place of the wire count of page 2: the address of
the block and, in the upper half, its size. -/
def staleWir : Nat := 2 + 2 ^ 32

/-- The fork that takes page 2. -/
def demoForkStale : Op := .fork .null fun _ ↦ ⟨2, 0, staleWir⟩

theorem demo_forkStale : ∃ t, thfork demoZcow 1 .null (fun _ ↦ ⟨2, 0, staleWir⟩) = .ok t ∧
    (t.db 2).type = .user ∧ (t.db 2).wir = staleWir := by
  have hne : (1 : Nat) ≠ demoZcow.nextpid := by decide
  have hz : (demoZcow.l1 1 1).p := by
    rw [demoZcow_l1]
    rfl
  have hshare : ∀ v ∈ cowVpns, demoZcow.Shareable (demoZcow.l1 1 v) := by
    intro v hv hp
    rw [demoZcow_l1, if_neg (ne_of_mem_of_not_mem hv one_notMem_cowVpns)] at hp
    cases hp
  obtain ⟨t, ht⟩ : ∃ t, thfork demoZcow 1 .null (fun _ ↦ ⟨2, 0, staleWir⟩) = .ok t :=
    thfork_total_copy hne (by decide) hshare hz ⟨by decide, by decide, by decide⟩
  rcases thfork_wir hne ht with ⟨hp, _⟩ | ⟨_, hu, hw⟩
  · rw [hz] at hp
    cases hp
  · exact ⟨t, ht, hu, hw⟩

/-- The counts are not exact in general: a thread maps the first page and forks, and the page of
the child has a wire count, with nothing exported. -/
theorem wires_not_exact : ¬∀ m as m', DmaBoot m → Run DmaStep m as m' → m'.WiresExact := by
  intro hall
  obtain ⟨t, hfork, hu, hw⟩ := demo_forkStale
  have hrun : Run DmaStep demoDma [(1, .vm demoMapZcow), (1, .vm demoForkStale)]
      ⟨t, fun _ _ ↦ []⟩ := by
    refine .cons (t := ⟨demoZcow, fun _ _ ↦ []⟩) ⟨by decide, ?_, ?_⟩
      (.cons ⟨by decide, ?_, ?_⟩ (.nil _))
    · rintro op ⟨⟩
      rfl
    · exact Dma.exec_vm (by decide) demo_mapZcow
    · rintro op ⟨⟩
      rfl
    · exact Dma.exec_vm rfl hfork
  have hwir := (hall _ _ _ demoDma_boot hrun).wir 2 hu
  rw [hw, Dma.exports_of_nil fun _ _ ↦ rfl] at hwir
  exact absurd hwir (by simp [staleWir])

end Mh.Vm
