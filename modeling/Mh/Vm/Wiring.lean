import Mh.Vm.Marks

/-!
# Wire counts

The invariant that ties the marks and the wire counts to the records of the devices.  A record is of
a wired entry, for the page that the entry maps; a wired entry has a record; and the count of a page
is the number of its records.  It is kept by every step that meets `Dma.Wires`.

What breaks it is releasing the last export through an entry while the page is still exported
through another: `pmap_uunwire` takes the mark away only when the count of the *page* reaches zero.
-/

namespace Mh.Vm

open Mh.Lib Mh.Bus

variable {m m' : Dma} {s s' : Sys} {cur d va : Nat} {pd : Hwdma}

/-- Marks, counts and records agree. -/
structure Dma.Tied (m : Dma) : Prop where
  record : ∀ pid ∈ m.vm.live, ∀ d < maxBusDevs, ∀ pd ∈ m.hwdmas pid d,
    isuaddr pd.va ∧ l1eWired (m.vm.l1 pid (vpn pd.va)) ∧
      (m.vm.l1 pid (vpn pd.va)).pfn = pd.iopfn
  marked : ∀ pid ∈ m.vm.live, ∀ v ∈ userVpns, l1eWired (m.vm.l1 pid v) → 0 < m.through pid v
  wir : ∀ q, (m.vm.db q).type = .user → (m.vm.db q).wir = m.exports q
  room : ∀ q, m.exports q < 2 ^ 64
  pids : ∀ pid ∈ m.vm.live, pid < m.vm.nextpid
  zombies : m.vm.zombie ⊆ m.vm.live
  /-- a thread that does not run has no records -/
  idle : ∀ pid, pid ∉ m.vm.live ∨ pid ∈ m.vm.zombie → ∀ d < maxBusDevs, m.hwdmas pid d = []

/-- It holds at boot. -/
theorem DmaBoot.tied (h : DmaBoot m) : m.Tied := by
  have hrec : ∀ pid p, recorded (m.hwdmas pid) p = 0 := fun pid p ↦
    recorded_eq_zero fun d _ ↦ h.hwdmas pid d
  have hexp : ∀ q, m.exports q = 0 := fun q ↦ Finset.sum_eq_zero fun pid _ ↦ hrec pid _
  have hlive : ∀ pid ∈ m.vm.live, pid = m.vm.init := fun pid hpid ↦ by
    rwa [h.vm.live, Finset.mem_singleton] at hpid
  refine ⟨fun pid _ d _ pd hpd ↦ ?_, fun pid hpid v _ hw ↦ ?_, fun q hu ↦ ?_, fun q ↦ ?_,
    fun pid hpid ↦ ?_, ?_, fun pid _ d _ ↦ h.hwdmas pid d⟩
  · rw [h.hwdmas] at hpd
    cases hpd
  · rw [hlive pid hpid, h.vm.blank] at hw
    cases hw
  · exact absurd hu (h.vm.noUser q)
  · rw [hexp]
    exact Nat.two_pow_pos 64
  · rw [hlive pid hpid]
    exact h.vm.pid
  · rw [h.vm.zombie]
    exact Finset.empty_subset _

/-! ## Calls that leave the wiring alone -/

/-- The exports do not depend on threads without records. -/
theorem Dma.exports_of_subset {l : Finset Nat} (hl : m.vm.live ⊆ l) (h : s.live = l)
    (hidle : ∀ pid, pid ∉ m.vm.live → ∀ d < maxBusDevs, m.hwdmas pid d = []) (q : Nat) :
    ({ m with vm := s } : Dma).exports q = m.exports q := by
  subst h
  refine (Finset.sum_subset hl fun pid _ hpid ↦ ?_).symm
  exact recorded_eq_zero (hidle pid hpid)

/-- A page that is handed out without exports and without a wire count. -/
def Dma.Fresh (m : Dma) (q wir : Nat) : Prop := m.exports q = 0 ∧ wir = 0

/-- A call that leaves the wiring alone keeps the agreement. -/
theorem Dma.Tied.unmoved (h : m.Tied) (hu : Unmoved .wired m.Fresh m.vm s)
    (hpids : ∀ pid ∈ s.live, pid < s.nextpid) (hz : s.zombie ⊆ s.live)
    (hidle : ∀ pid ∈ s.zombie, ∀ d < maxBusDevs, m.hwdmas pid d = []) :
    ({ m with vm := s } : Dma).Tied := by
  have hexp : ∀ q, ({ m with vm := s } : Dma).exports q = m.exports q :=
    Dma.exports_of_subset hu.live rfl fun pid hpid ↦ h.idle pid (.inl hpid)
  refine ⟨fun pid hpid d hd pd hpd ↦ ?_, fun pid hpid v hv hw ↦ ?_, fun q hq ↦ ?_, fun q ↦ ?_,
    hpids, hz, fun pid hpid d hd ↦ ?_⟩
  · by_cases hlive : pid ∈ m.vm.live
    · obtain ⟨hva, hw, hpfn⟩ := h.record pid hlive d hd pd hpd
      have hsame : s.l1 pid (vpn pd.va) = m.vm.l1 pid (vpn pd.va) :=
        hu.kept pid hlive _ (vpn_mem_userVpns hva) hw
      simp only [hsame]
      exact ⟨hva, hw, hpfn⟩
    · have hpd : pd ∈ m.hwdmas pid d := hpd
      rw [h.idle pid (.inl hlive) d hd] at hpd
      cases hpd
  · obtain ⟨hlive, hw⟩ := hu.unmarked pid hpid v hv hw
    exact h.marked pid hlive v hv hw
  · rw [hexp]
    rcases hu.page q hq with ⟨hq, hw⟩ | hn
    · rw [← h.wir q hq]
      exact hw
    · rw [hn.1]
      exact hn.2
  · rw [hexp]
    exact h.room q
  · rcases hpid with hpid | hpid
    · exact h.idle pid (.inl fun hl ↦ hpid (hu.live hl)) d hd
    · exact hidle pid hpid d hd

theorem Dma.Tied.calm (h : m.Tied) (hc : Calm .wired m.Fresh m.vm s) :
    ({ m with vm := s } : Dma).Tied := by
  refine h.unmoved hc.toUnmoved ?_ ?_ ?_
  · rw [hc.threads, hc.nextpid]
    exact h.pids
  · rw [hc.threads, hc.zombie]
    exact h.zombies
  · rw [hc.zombie]
    exact fun pid hpid ↦ h.idle pid (.inr hpid)

/-! ## Exporting -/

/-- What an export that returns has done: nothing, or wired the entry and filed a record. -/
theorem hwdevExportPage_ok {h h' : HwState} {id : Nat} {ret : Int} {iova : Option Nat}
    (hva : isuaddr va) (hx : hwdevExportPage h cur id va = .ok (ret, iova, h')) :
    (h'.vm = h.vm ∧ h'.hwdmas = h.hwdmas) ∨
    (l1eIomap (h.vm.l1 cur (vpn va)) = false ∧ (h.vm.l1 cur (vpn va)).p ∧
      h'.vm = h.vm.wired cur va ∧
      h'.hwdmas = Function.update h.hwdmas id
        (⟨va, (h.vm.l1 cur (vpn va)).pfn⟩ :: h.hwdmas id)) := by
  by_cases hi : l1eIomap (h.vm.l1 cur (vpn va))
  · rw [hwdevExportPage_iomap hva hi] at hx
    cases hx
    exact .inl ⟨rfl, rfl⟩
  have hi : l1eIomap (h.vm.l1 cur (vpn va)) = false := by simpa using hi
  by_cases hok : (h.vm.l1 cur (vpn va)).pfn ≤ h.vm.pfndbMax ∧
      (h.vm.db (h.vm.l1 cur (vpn va)).pfn).type = .user
  · by_cases hp : (h.vm.l1 cur (vpn va)).p
    · rw [hwdevExportPage_done hva hi hp hok.1 hok.2] at hx
      cases hx
      exact .inr ⟨hi, hp, rfl, rfl⟩
    · rw [hwdevExportPage_unwire hva (by simpa using hp) hok.1 hok.2] at hx
      cases hx
  · obtain ⟨e, he⟩ : ∃ e, hwdevExportPage h cur id va = .error e :=
      hwdevExportPage_panics hi hok
    rw [he] at hx
    cases hx

theorem hwdevExport_ok {h h' : HwState} {id sz : Nat} {ret : Int} {iova : Option Nat}
    (hva : isuaddr va) (hl : h.lock = false)
    (hx : hwdevExport h cur id va sz = .ok (ret, iova, h')) :
    (h'.vm = h.vm ∧ h'.hwdmas = h.hwdmas) ∨
    (l1eIomap (h.vm.l1 cur (vpn va)) = false ∧ (h.vm.l1 cur (vpn va)).p ∧
      h'.vm = h.vm.wired cur va ∧
      h'.hwdmas = Function.update h.hwdmas id
        (⟨va, (h.vm.l1 cur (vpn va)).pfn⟩ :: h.hwdmas id)) := by
  by_cases hc : crosses va sz
  · rw [hwdevExport_crosses hl hc] at hx
    cases hx
    exact .inl ⟨rfl, rfl⟩
  · rw [hwdevExport_page hl (by simpa using hc)] at hx
    exact hwdevExportPage_ok hva hx

/-- The machine after a page of `cur` has been exported. -/
def Dma.exported (m : Dma) (cur d va : Nat) : Dma :=
  { m.setHwdmas cur d (⟨va, (m.vm.l1 cur (vpn va)).pfn⟩ :: m.hwdmas cur d) with
    vm := m.vm.wired cur va }

theorem Dma.exports_exported (hcur : cur ∈ m.vm.live) (hd : d < maxBusDevs) (q : Nat) :
    (m.exported cur d va).exports q =
      m.exports q + ((m.vm.l1 cur (vpn va)).pfn == q).toNat :=
  exports_cons hcur hd

theorem Dma.through_exported (hd : d < maxBusDevs) (v : Nat) :
    (m.exported cur d va).through cur v = m.through cur v + (vpn va == v).toNat :=
  through_cons hd

theorem Dma.through_exported_of_ne {pid : Nat} (hpid : pid ≠ cur) (v : Nat) :
    (m.exported cur d va).through pid v = m.through pid v :=
  through_setHwdmas_of_ne hpid

/-- The entries after a page has been wired. -/
theorem Sys.l1_wired (s : Sys) (cur va pid v : Nat) :
    (s.wired cur va).l1 pid v =
      if pid = cur ∧ v = vpn va then l1eMkwired (s.l1 cur (vpn va)) else s.l1 pid v := by
  rw [wired, put, l1_setL1e, l1_setFlush, l1_setDb]

/-- The database after a page has been wired. -/
theorem Sys.wired_db (s : Sys) (cur va q : Nat) :
    (s.wired cur va).db q = if q = (s.l1 cur (vpn va)).pfn then
      { s.db q with wir := incCount (s.db q).wir } else s.db q := by
  by_cases hq : q = (s.l1 cur (vpn va)).pfn
  · rw [if_pos hq, hq]
    exact s.setDb_db_self _ _
  · rw [if_neg hq]
    exact s.setDb_db_of_ne hq _

/-- An export keeps the agreement, if the count of the page does not wrap. -/
theorem Dma.Tied.exported (h : m.Tied) (hrun : m.vm.Running cur) (hd : d < maxBusDevs)
    (hva : isuaddr va) (hi : l1eIomap (m.vm.l1 cur (vpn va)) = false)
    (hp : (m.vm.l1 cur (vpn va)).p) (hroom : m.exports (m.vm.l1 cur (vpn va)).pfn + 1 < 2 ^ 64) :
    (m.exported cur d va).Tied := by
  have hcur := hrun.1
  have hvm : (m.exported cur d va).vm = m.vm.wired cur va := rfl
  refine ⟨fun pid hpid d' hd' pd hpd ↦ ?_, fun pid hpid v hv hw ↦ ?_, fun q hq ↦ ?_, fun q ↦ ?_,
    h.pids, h.zombies, fun pid hpid d' hd' ↦ ?_⟩
  · -- a record: the new one, or an old one, whose entry is as wired as before
    have hcases : (pid = cur ∧ pd = ⟨va, (m.vm.l1 cur (vpn va)).pfn⟩) ∨ pd ∈ m.hwdmas pid d' := by
      rcases mem_setHwdmas hpd with ⟨rfl, rfl, hpd⟩ | hpd
      · exact (List.mem_cons.1 hpd).imp (fun h ↦ ⟨rfl, h⟩) id
      · exact .inr hpd
    rw [hvm, Sys.l1_wired]
    rcases hcases with ⟨rfl, rfl⟩ | hpd
    · rw [if_pos ⟨rfl, rfl⟩]
      exact ⟨hva, by simp [l1eWired, l1eMkwired, hp], rfl⟩
    · obtain ⟨hva', hw, hpfn⟩ := h.record pid hpid d' hd' pd hpd
      split
      · rename_i hpv
        rw [hpv.1, hpv.2] at hpfn
        exact ⟨hva', by simp [l1eWired, l1eMkwired, hp], hpfn⟩
      · exact ⟨hva', hw, hpfn⟩
  · rw [hvm, Sys.l1_wired] at hw
    by_cases hpid' : pid = cur
    · subst hpid'
      rw [through_exported hd]
      by_cases hvv : v = vpn va
      · subst hvv
        simp
      · rw [if_neg fun h ↦ hvv h.2] at hw
        exact Nat.lt_of_lt_of_le (h.marked pid hpid v hv hw) (Nat.le_add_right ..)
    · rw [if_neg fun h ↦ hpid' h.1] at hw
      rw [through_exported_of_ne hpid']
      exact h.marked pid hpid v hv hw
  · rw [hvm, Sys.wired_db] at hq ⊢
    rw [exports_exported hcur hd]
    split
    · rename_i hqq
      rw [if_pos hqq] at hq
      subst hqq
      have hinc := incCount_eq_iff.2 hroom
      simp only [beq_self_eq_true, Bool.toNat_true]
      rw [h.wir _ hq, hinc]
    · rename_i hqq
      rw [if_neg hqq] at hq
      rw [beq_false_of_ne (Ne.symm hqq), h.wir q hq]
      rfl
  · rw [exports_exported hcur hd]
    by_cases hqq : (m.vm.l1 cur (vpn va)).pfn = q
    · subst hqq
      simpa using hroom
    · rw [beq_false_of_ne hqq]
      exact h.room q
  · have hne : pid ≠ cur := by
      rintro rfl
      exact hpid.elim (fun h ↦ h hcur) hrun.2
    have hsame : (m.exported cur d va).hwdmas pid = m.hwdmas pid := setHwdmas_of_ne hne
    rw [hsame]
    exact h.idle pid hpid d' hd'

/-! ## Releasing -/

/-- The database entry with another wire count. -/
def Sys.setWir (s : Sys) (pfn wir : Nat) : Sys := s.setDb pfn { s.db pfn with wir := wir }

@[simp] theorem Sys.l1_setWir (s : Sys) (pfn wir pid v : Nat) :
    (s.setWir pfn wir).l1 pid v = s.l1 pid v := rfl

theorem Sys.setWir_db (s : Sys) (pfn wir q : Nat) :
    (s.setWir pfn wir).db q = if q = pfn then { s.db q with wir := wir } else s.db q := by
  by_cases hq : q = pfn
  · rw [if_pos hq, hq]
    exact s.setDb_db_self _ _
  · rw [if_neg hq]
    exact s.setDb_db_of_ne hq _

/-- The page tables after `pmap_uunwire` of a wired entry has lowered the count of its page to
`wir`. -/
def Sys.unwire (s : Sys) (cur va wir : Nat) : Sys :=
  if wir = 0 then
    (s.setWir (s.l1 cur (vpn va)).pfn wir).put cur (vpn va) (l1eMknormal (s.l1 cur (vpn va)))
  else s.setWir (s.l1 cur (vpn va)).pfn wir

/-- A call that reports success has unwired a wired entry of a user page. -/
theorem pmapUunwire_zero (h : pmapUunwire s cur va = .ok (0, s')) :
    l1eWired (s.l1 cur (vpn va)) ∧ (s.db (s.l1 cur (vpn va)).pfn).type = .user ∧
      ∃ wir, decCount (s.db (s.l1 cur (vpn va)).pfn).wir = wir ∧ s' = s.unwire cur va wir := by
  simp only [pmapUunwire, bind_eq_ok] at h
  obtain ⟨_, _, h⟩ := h
  split at h
  · cases h
  · rename_i hw
    simp only [pfndbDecwir, bind_eq_ok] at h
    obtain ⟨⟨wir, t⟩, ⟨e, he, h₁⟩, h₂⟩ := h
    obtain ⟨_, hu, rfl⟩ := pfndbUser_ok he
    obtain ⟨hwir, ht⟩ := Prod.mk.inj (Except.ok.inj h₁)
    refine ⟨by simpa using hw, hu, wir, hwir, ?_⟩
    rw [Sys.unwire, Sys.setWir]
    rw [hwir] at ht
    subst ht
    simp only at h₂
    split at h₂
    · rename_i hz
      rw [if_pos hz]
      exact (Prod.mk.inj (Except.ok.inj h₂)).2.symm
    · rename_i hz
      rw [if_neg hz]
      exact (Prod.mk.inj (Except.ok.inj h₂)).2.symm

section Unwire

variable (s : Sys) (cur va wir : Nat)

/-- The entries after it: the mark goes with the last count. -/
theorem Sys.l1_unwire (pid v : Nat) :
    (s.unwire cur va wir).l1 pid v =
      if pid = cur ∧ v = vpn va ∧ wir = 0 then l1eMknormal (s.l1 cur (vpn va))
      else s.l1 pid v := by
  unfold unwire
  split
  · rename_i hz
    rw [put, l1_setL1e, l1_setFlush, l1_setWir]
    simp only [hz, and_true]
  · rename_i hz
    rw [if_neg fun h ↦ hz h.2.2, l1_setWir]

theorem Sys.unwire_db (q : Nat) :
    (s.unwire cur va wir).db q =
      if q = (s.l1 cur (vpn va)).pfn then { s.db q with wir := wir } else s.db q := by
  rw [← setWir_db]
  unfold unwire
  split
  · rw [put, setL1e_db, setFlush_db]
  · rfl

theorem Sys.unwire_frame : Frame cur s (s.unwire cur va wir) := by
  unfold unwire
  split
  · exact (Frame.setDb _).trans (.put _ _)
  · exact .setDb _

end Unwire

/-- The machine after an export has been released, and the count of its page lowered to `wir`. -/
def Dma.released (m : Dma) (cur d : Nat) (pd : Hwdma) (wir : Nat) : Dma :=
  { m.remove cur d pd with vm := m.vm.unwire cur pd.va wir }

/-- A call into the page tables that returns. -/
theorem liftPanic_ok {α : Type} {x : Except Panic α} {a : α} (h : liftPanic x = .ok a) :
    x = .ok a := by
  cases x with
  | error e => cases h
  | ok b =>
      cases h
      rfl

theorem hwdmaRelease_ok (h : hwdmaRelease cur d m pd = .ok m') :
    l1eWired (m.vm.l1 cur (vpn pd.va)) ∧
      (m.vm.db (m.vm.l1 cur (vpn pd.va)).pfn).type = .user ∧
      ∃ wir, decCount (m.vm.db (m.vm.l1 cur (vpn pd.va)).pfn).wir = wir ∧
        m' = m.released cur d pd wir := by
  simp only [hwdmaRelease, bind_eq_ok] at h
  obtain ⟨⟨ret, vm⟩, h₁, h₂⟩ := h
  have h₁ : pmapUunwire m.vm cur pd.va = .ok (ret, vm) := liftPanic_ok h₁
  by_cases hr : ret = 0
  · subst hr
    obtain ⟨hw, hu, wir, hwir, rfl⟩ := pmapUunwire_zero h₁
    cases h₂
    exact ⟨hw, hu, wir, hwir, rfl⟩
  · simp only [ne_eq, hr, not_false_eq_true, if_true] at h₂
    cases h₂

theorem decCount_of_pos {n : Nat} (h : 0 < n) (hn : n < 2 ^ 64) : decCount n = n - 1 := by
  rw [decCount]
  generalize 2 ^ 64 = b at hn
  rw [show n + (b - 1) = n - 1 + b by omega, Nat.add_mod_right, Nat.mod_eq_of_lt (by omega)]

/-- Releasing a record keeps the agreement, if it is not the last one through an entry of a page
that stays exported. -/
theorem Dma.Tied.released {wir : Nat} (h : m.Tied) (hrun : m.vm.Running cur) (hd : d < maxBusDevs)
    (hpd : pd ∈ m.hwdmas cur d) (hlast : m.LastOut cur pd)
    (hu : (m.vm.db (m.vm.l1 cur (vpn pd.va)).pfn).type = .user)
    (hdec : decCount (m.vm.db (m.vm.l1 cur (vpn pd.va)).pfn).wir = wir) :
    (m.released cur d pd wir).Tied := by
  have hcur := hrun.1
  have hf := m.vm.unwire_frame cur pd.va wir
  obtain ⟨-, -, hpfn⟩ := h.record cur hcur d hd pd hpd
  have hvm : (m.released cur d pd wir).vm = m.vm.unwire cur pd.va wir := rfl
  have hhw : (m.released cur d pd wir).hwdmas = (m.remove cur d pd).hwdmas := rfl
  have hexp : ∀ q, (m.released cur d pd wir).exports q + (pd.iopfn == q).toNat = m.exports q := by
    intro q
    rw [← exports_remove hcur hd hpd, exports_congr hhw]
    rw [hvm, hf.live, remove, setHwdmas_vm]
  have hthr : ∀ v, (m.released cur d pd wir).through cur v + (vpn pd.va == v).toNat =
      m.through cur v := fun v ↦ by rw [through_congr hhw, through_remove hd hpd]
  -- the count of the page goes down by one
  have hone := hexp pd.iopfn
  rw [beq_self_eq_true, Bool.toNat_true] at hone
  have hwir : wir = (m.released cur d pd wir).exports pd.iopfn := by
    rw [h.wir _ hu, hpfn, decCount_of_pos (by omega) (h.room _)] at hdec
    omega
  clear hdec
  have hl1 : ∀ pid v, (m.released cur d pd wir).vm.l1 pid v =
      if pid = cur ∧ v = vpn pd.va ∧ (m.released cur d pd wir).exports pd.iopfn = 0 then
        l1eMknormal (m.vm.l1 cur (vpn pd.va)) else m.vm.l1 pid v := by
    intro pid v
    rw [hvm, Sys.l1_unwire, ← hwir]
  have hmem : ∀ {pid d' pd'}, pd' ∈ (m.released cur d pd wir).hwdmas pid d' →
      pd' ∈ m.hwdmas pid d' := by
    intro pid d' pd' hmem
    rw [hhw] at hmem
    rcases mem_setHwdmas hmem with ⟨rfl, rfl, hmem⟩ | hmem
    · exact List.mem_of_mem_erase hmem
    · exact hmem
  refine ⟨fun pid hpid d' hd' pd' hpd' ↦ ?_, fun pid hpid v hv hw ↦ ?_, fun q hq ↦ ?_, fun q ↦ ?_,
    ?_, ?_, fun pid hpid d' hd' ↦ ?_⟩
  · rw [hvm, hf.live] at hpid
    obtain ⟨hva, hw, hpfn'⟩ := h.record pid hpid d' hd' pd' (hmem hpd')
    rw [hl1, if_neg]
    · exact ⟨hva, hw, hpfn'⟩
    · -- a record of the same entry is one of the same page, whose count is then positive
      rintro ⟨rfl, hv, hz⟩
      rw [hv, hpfn] at hpfn'
      have hpos : 0 < (m.released pid d pd wir).exports pd.iopfn := by
        refine Nat.lt_of_lt_of_le (recorded_pos (p := (·.iopfn == pd.iopfn)) hd' hpd' ?_)
          (Finset.single_le_sum (f := fun pid' ↦ recorded ((m.released pid d pd wir).hwdmas pid')
            (·.iopfn == pd.iopfn)) (fun _ _ ↦ Nat.zero_le _) ?_)
        · simp [hpfn']
        · rw [hvm, hf.live]
          exact hpid
      omega
  · rw [hvm, hf.live] at hpid
    rw [hl1] at hw
    split at hw
    · simp [l1eWired, l1eMknormal] at hw
    · rename_i hne
      have hpos := h.marked pid hpid v hv hw
      by_cases hpc : pid = cur
      · subst hpc
        have hv' := hthr v
        by_cases hvv : vpn pd.va = v
        · -- the last one through the entry would be the last one of the page
          subst hvv
          rw [beq_self_eq_true, Bool.toNat_true] at hv'
          by_contra hz
          have hlast := hlast (by omega)
          exact hne ⟨rfl, rfl, by omega⟩
        · rw [beq_false_of_ne hvv, Bool.toNat_false] at hv'
          omega
      · rw [through_congr hhw, remove, through_setHwdmas_of_ne hpc]
        exact hpos
  · rw [hvm, Sys.unwire_db, hpfn] at hq ⊢
    split
    · rename_i hqq
      rw [hqq]
      exact hwir
    · rename_i hqq
      rw [if_neg hqq] at hq
      have hv' := hexp q
      rw [beq_false_of_ne (Ne.symm hqq), Bool.toNat_false, Nat.add_zero] at hv'
      rw [hv', h.wir q hq]
  · exact Nat.lt_of_le_of_lt (Nat.le.intro (hexp q)) (h.room q)
  · rw [hvm, hf.live, hf.nextpid]
    exact h.pids
  · rw [hvm, hf.live, hf.zombie]
    exact h.zombies
  · rw [hvm, hf.live, hf.zombie] at hpid
    have hne : pid ≠ cur := by
      rintro rfl
      exact hpid.elim (fun h ↦ h hcur) hrun.2
    rw [hhw, remove, setHwdmas_of_ne hne]
    exact h.idle pid hpid d' hd'

end Mh.Vm
