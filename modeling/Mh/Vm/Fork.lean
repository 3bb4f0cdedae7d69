import Mh.Vm.Handler

/-!
# Fork has value semantics

The machine of processes that share pages refines the machine of private
memories: every run of the first, with the bytes its reads return, is a run of the
second.

The simulation maps a state to the memories that its page tables represent
(`Mach.privateMem`).  That a step changes no memory but its own rests on the page
accounting: an entry that can be written owns its page, and then nobody else maps
it; a page that is allocated is mapped by nobody.  The invariant about the handler
is that its copy agrees with the original on the bytes done so far, which stays so
because the original cannot be written while the copy-on-write entry is there.
-/

namespace Mh.Vm

open Mh.Lib

variable {s s' : Sys} {m m' : Mach} {pid v : Nat}

theorem vpn_vacow : vpn vacow = 512 := by decide

theorem vacow_mem_userVpns : vpn vacow ∈ userVpns := by
  rw [vpn_vacow, mem_userVpns]
  omega

theorem vacow_mem_cowVpns : vpn vacow ∈ cowVpns := by
  rw [vpn_vacow, mem_cowVpns]
  omega

/-! ## Who holds a page -/

/-- The entries of these processes: user mappings, normal or copy-on-write. -/
def Plain (e : L1e) : Prop := e.p → e.u ∧ (e.avail = .normal ∨ e.avail = .cow)

theorem Plain.not_external {e : L1e} (h : Plain e) : l1eExternal e = false := by
  cases hp : e.p with
  | false => simp [l1eExternal, l1eWired, l1eIomap, hp]
  | true =>
      rcases (h hp).2 with ha | ha <;> simp [l1eExternal, l1eWired, l1eIomap, ha]

theorem Plain.avail_ne {e : L1e} (h : Plain e) (hp : e.p) : e.avail ≠ .iomap := by
  rcases (h hp).2 with ha | ha <;> simp [ha]

theorem Plain.of_absent {e : L1e} (h : e.p = false) : Plain e := fun hp ↦ by
  rw [h] at hp
  cases hp

/-- A page that can be allocated is not mapped. -/
theorem Inv.pfn_ne_of_free {X : Prop} {pfn : Nat} (h : Inv X s) (hf : s.Free pfn)
    (hpid : pid ∈ s.live) (hv : v ∈ userVpns) (hp : (s.l1 pid v).p) (hpl : Plain (s.l1 pid v)) :
    (s.l1 pid v).pfn ≠ pfn := by
  rintro rfl
  have hpos : 0 < s.count (L1e.maps (s.l1 pid v).pfn) :=
    Sys.count_pos hpid hv (by simp [maps_of_avail_ne (hpl.avail_ne hp), hp])
  exact hf.type_ne ((h.bal.pages _).user hpos)

/-- The page of an entry that is not copy-on-write is not mapped elsewhere. -/
theorem Inv.pfn_ne_of_owner {X : Prop} {pid' v' : Nat} (h : Inv X s) (hpid : pid ∈ s.live)
    (hv : v ∈ userVpns) (hp : (s.l1 pid v).p) (hpl : Plain (s.l1 pid v))
    (hc : (s.l1 pid v).avail ≠ .cow) (hpid' : pid' ∈ s.live) (hv' : v' ∈ userVpns)
    (hp' : (s.l1 pid' v').p) (hpl' : Plain (s.l1 pid' v')) (hne : pid' ≠ pid ∨ v' ≠ v) :
    (s.l1 pid' v').pfn ≠ (s.l1 pid v).pfn := by
  intro heq
  have h2 : 2 ≤ s.count (L1e.maps (s.l1 pid v).pfn) := by
    refine Sys.two_le_count hpid hv hpid' hv' hne ?_ ?_ rfl
    · simp [maps_of_avail_ne (hpl.avail_ne hp), hp]
    · simp [maps_of_avail_ne (hpl'.avail_ne hp'), hp', heq]
  have hw : 0 < s.count (L1e.owns (s.l1 pid v).pfn) :=
    Sys.count_pos hpid hv (by simp [owns_of_avail_ne (hpl.avail_ne hp) hc, hp])
  have hsole := (h.bal.pages (s.l1 pid v).pfn).sole
  simp only [Sys.held_nil] at hsole
  omega

/-- An entry that can be written is not copy-on-write. -/
theorem Inv.not_cow_of_writable {X : Prop} (h : Inv X s) (hpid : pid ∈ s.live)
    (hv : v ∈ userVpns) (hp : (s.l1 pid v).p) (hw : (s.l1 pid v).w) :
    (s.l1 pid v).avail ≠ .cow := by
  intro hc
  have := (h.bal.entries pid hpid v hv).cowRo (l1eCow_iff.2 ⟨hp, hc⟩)
  rw [hw] at this
  cases this

/-! ## Memories that a step does not touch -/

/-- The table of `q` and the pages it maps are as before. -/
structure Untouched (s s' : Sys) (q : Nat) : Prop where
  l1 : ∀ v, s'.l1 q v = s.l1 q v
  mem : ∀ v ∈ userVpns, (s.l1 q v).p → s'.mem (s.l1 q v).pfn = s.mem (s.l1 q v).pfn

/-- A memory depends on the pages mapped outside `VACOW`. -/
theorem view_congr {pid' : Nat} (h : ∀ v ∈ userVpns, v ≠ vpn vacow →
      (s'.l1 pid' v).p = (s.l1 pid v).p ∧ ((s.l1 pid v).p → ∀ o < pageSize,
        s'.mem (s'.l1 pid' v).pfn o = s.mem (s.l1 pid v).pfn o)) :
    view s' pid' = view s pid := by
  funext a
  unfold view
  by_cases ha : isuaddr a ∧ vpn a ≠ vpn vacow
  · obtain ⟨hp, hm⟩ := h (vpn a) (isuaddr_iff_vpn.1 ha.1) ha.2
    rw [hp]
    by_cases hpa : (s.l1 pid (vpn a)).p
    · simp only [ha.1, bne_iff_ne.2 ha.2, hpa, Bool.and_self, if_true]
      rw [hm hpa (a % pageSize) (Nat.mod_lt _ (by decide))]
    · simp [hpa]
  · have hfalse : (isuaddr a && vpn a != vpn vacow) = false := by
      by_contra hc
      refine ha ?_
      simpa using hc
    simp [hfalse]

theorem Untouched.view_eq (h : Untouched s s' pid) : view s' pid = view s pid :=
  view_congr fun v hv _ ↦ ⟨by rw [h.l1], fun hp o _ ↦ by rw [h.l1, h.mem v hv hp]⟩

/-- Where a process is in its handler, its tables say so. -/
def HndOk (s : Sys) (pid : Nat) : Hnd → Prop
  | .user => (s.l1 pid (vpn vacow)).p = false
  | .fault va x => (s.l1 pid (vpn vacow)).p = false ∧
      (x.cow → isuaddr va ∧ l1eCow (s.l1 pid (vpn va)))
  | .copy va i => isuaddr va ∧ vpn va ≠ vpn vacow ∧ l1eCow (s.l1 pid (vpn va)) ∧
      l1eNormal (s.l1 pid (vpn vacow)) ∧ (s.l1 pid (vpn vacow)).w ∧
      ∀ j < i, s.mem (s.l1 pid (vpn vacow)).pfn j = s.mem (s.l1 pid (vpn va)).pfn j

theorem HndOk.untouched {h : Hnd} (hu : Untouched s s' pid) (hh : HndOk s pid h) :
    HndOk s' pid h := by
  cases h with
  | user => simpa only [HndOk, hu.l1] using hh
  | fault va x => simpa only [HndOk, hu.l1] using hh
  | copy va i =>
      obtain ⟨hva, hne, hc, hn, hw, hb⟩ := hh
      simp only [HndOk, hu.l1]
      refine ⟨hva, hne, hc, hn, hw, fun j hj ↦ ?_⟩
      rw [hu.mem _ vacow_mem_userVpns (l1eNormal_iff.1 hn).1,
        hu.mem _ (isuaddr_iff_vpn.1 hva) (l1eCow_iff.1 hc).1]
      exact hb j hj

/-! ## The invariant of the machine -/

/-- The invariant of the machine. -/
structure MInv (m : Mach) : Prop where
  inv : Inv False m.sys
  plain : ∀ pid ∈ m.sys.live, ∀ v ∈ userVpns, Plain (m.sys.l1 pid v)
  hnd : ∀ pid, m.sys.Running pid → HndOk m.sys pid (m.hnd pid)

theorem privateMem_running (hrun : m.sys.Running pid) :
    m.privateMem pid = some (view m.sys pid) := if_pos hrun

theorem privateMem_gone (hrun : ¬m.sys.Running pid) : m.privateMem pid = none := if_neg hrun

/-- A step of a process that leaves the other processes alone. -/
theorem MInv.goto {h : Hnd} (hm : MInv m) (hrun : m.sys.Running pid) (hinv : Inv False s')
    (hf : Frame pid m.sys s')
    (hother : ∀ q, q ≠ pid → q ∈ m.sys.live → Untouched m.sys s' q)
    (hplain : ∀ v ∈ userVpns, Plain (s'.l1 pid v)) (hh : HndOk s' pid h) :
    MInv (m.goto pid s' h) ∧ (m.goto pid s' h).privateMem =
      Function.update m.privateMem pid (some (view s' pid)) := by
  have hrunning : ∀ q, s'.Running q ↔ m.sys.Running q := fun q ↦ by
    rw [Sys.Running, Sys.Running, hf.live, hf.zombie]
  refine ⟨⟨hinv, fun q hq w hw ↦ ?_, fun q hq ↦ ?_⟩, funext fun q ↦ ?_⟩
  · change Plain (s'.l1 q w)
    have hq : q ∈ m.sys.live := hf.live ▸ hq
    by_cases hqp : q = pid
    · subst hqp
      exact hplain w hw
    · rw [hf.l1 q hqp]
      exact hm.plain q hq w hw
  · change HndOk s' q (Function.update m.hnd pid h q)
    by_cases hqp : q = pid
    · subst hqp
      rwa [Function.update_self]
    · rw [Function.update_of_ne hqp]
      have hq' := (hrunning q).1 hq
      exact (hm.hnd q hq').untouched (hother q hqp hq'.1)
  · by_cases hqp : q = pid
    · subst hqp
      rw [Function.update_self]
      exact privateMem_running (m := m.goto q s' h) ((hrunning q).2 hrun)
    · rw [Function.update_of_ne hqp]
      by_cases hq : m.sys.Running q
      · have hq' : (m.goto pid s' h).sys.Running q := (hrunning q).2 hq
        rw [privateMem_running hq, privateMem_running hq', ← (hother q hqp hq.1).view_eq]
        rfl
      · have hq' : ¬(m.goto pid s' h).sys.Running q := fun h ↦ hq ((hrunning q).1 h)
        rw [privateMem_gone hq, privateMem_gone hq']

/-- The same when the process's own memory does not change either. -/
theorem MInv.goto_tau {h : Hnd} (hm : MInv m) (hrun : m.sys.Running pid) (hinv : Inv False s')
    (hf : Frame pid m.sys s')
    (hother : ∀ q, q ≠ pid → q ∈ m.sys.live → Untouched m.sys s' q)
    (hplain : ∀ v ∈ userVpns, Plain (s'.l1 pid v)) (hh : HndOk s' pid h)
    (hview : view s' pid = view m.sys pid) :
    MInv (m.goto pid s' h) ∧ PStep m.privateMem .tau (m.goto pid s' h).privateMem := by
  obtain ⟨h₁, h₂⟩ := hm.goto hrun hinv hf hother hplain hh
  refine ⟨h₁, ?_⟩
  rw [h₂, hview, ← privateMem_running hrun, Function.update_eq_self]
  exact .tau

/-- A call that changes no page leaves the memories of others alone. -/
theorem Untouched.of_mem_eq (hf : Frame pid s s') (hmem : s'.mem = s.mem) {q : Nat}
    (hq : q ≠ pid) : Untouched s s' q :=
  ⟨hf.l1 q hq, fun _ _ _ ↦ by rw [hmem]⟩

/-- A call that fills a page that was free leaves the memories of others alone. -/
theorem MInv.untouched_of_free (hm : MInv m) {pfn : Nat} {c : Nat → UInt8}
    (hf : m.sys.Free pfn) (hfr : Frame pid m.sys s')
    (hmem : s'.mem = Function.update m.sys.mem pfn c) :
    ∀ q, q ≠ pid → q ∈ m.sys.live → Untouched m.sys s' q := by
  refine fun q hq hlive ↦ ⟨hfr.l1 q hq, fun v hv hp ↦ ?_⟩
  rw [hmem, Function.update_of_ne (hm.inv.pfn_ne_of_free hf hlive hv hp (hm.plain q hlive v hv))]

/-- A store through an entry that can be written. -/
theorem MInv.untouched_of_owner (hm : MInv m) {off : Nat} {c : UInt8} (hpid : pid ∈ m.sys.live)
    (hv : v ∈ userVpns) (hal : (m.sys.l1 pid v).allows true) :
    ∀ q, q ≠ pid → q ∈ m.sys.live →
      Untouched m.sys (m.sys.poke (m.sys.l1 pid v).pfn off c) q := by
  simp only [L1e.allows, Bool.and_eq_true, Bool.not_true, Bool.false_or] at hal
  obtain ⟨⟨hp, _⟩, hw⟩ := hal
  have hnc := hm.inv.not_cow_of_writable hpid hv hp hw
  refine fun q hq hlive ↦ ⟨fun _ ↦ rfl, fun w hw hpw ↦ ?_⟩
  have hne := hm.inv.pfn_ne_of_owner hpid hv hp (hm.plain pid hpid v hv) hnc hlive hw hpw
    (hm.plain q hlive w hw) (.inl hq)
  exact m.sys.poke_mem_of_ne off c hne

/-! ## Reads and writes -/

theorem view_of_present {a : Nat} (ha : isuaddr a) (hne : vpn a ≠ vpn vacow)
    (hp : (s.l1 pid (vpn a)).p) :
    view s pid a = some (s.mem (s.l1 pid (vpn a)).pfn (a % pageSize)) := by
  simp [view, ha, hne, hp]

/-- In the program, nothing is mapped at `VACOW`. -/
theorem MInv.vpn_ne_vacow (hm : MInv m) {va : Nat} (hat : m.At pid .user)
    (hp : (m.sys.l1 pid (vpn va)).p) : vpn va ≠ vpn vacow := by
  have hh := hm.hnd pid hat.1
  rw [hat.2] at hh
  intro he
  rw [he] at hp
  rw [show (m.sys.l1 pid (vpn vacow)).p = false from hh] at hp
  cases hp

theorem MInv.read (hm : MInv m) {va : Nat} (hat : m.At pid .user) (hva : isuaddr va)
    (hal : (m.sys.l1 pid (vpn va)).allows false) :
    PStep m.privateMem (.read pid va (m.sys.mem (m.sys.l1 pid (vpn va)).pfn (va % pageSize)))
      m.privateMem := by
  simp only [L1e.allows, Bool.and_eq_true] at hal
  exact .read (privateMem_running hat.1)
    (view_of_present hva (hm.vpn_ne_vacow hat hal.1.1) hal.1.1)

/-- A store through the own table changes one address. -/
theorem MInv.view_poke (hm : MInv m) {va : Nat} {c : UInt8} (hpid : pid ∈ m.sys.live)
    (hva : isuaddr va) (hne : vpn va ≠ vpn vacow) (hal : (m.sys.l1 pid (vpn va)).allows true) :
    view (m.sys.poke (m.sys.l1 pid (vpn va)).pfn (va % pageSize) c) pid =
      Function.update (view m.sys pid) va (some c) := by
  simp only [L1e.allows, Bool.and_eq_true, Bool.not_true, Bool.false_or] at hal
  obtain ⟨⟨hp, _⟩, hw⟩ := hal
  have hv := isuaddr_iff_vpn.1 hva
  have hnc := hm.inv.not_cow_of_writable hpid hv hp hw
  funext a
  by_cases ha : a = va
  · subst ha
    rw [Function.update_self, view_of_present hva hne (by rwa [Sys.l1_poke]), Sys.l1_poke,
      Sys.poke_mem_self, Function.update_self]
  rw [Function.update_of_ne ha]
  by_cases hcond : isuaddr a ∧ vpn a ≠ vpn vacow ∧ (m.sys.l1 pid (vpn a)).p
  · obtain ⟨hua, hna, hpa⟩ := hcond
    have ha' := isuaddr_iff_vpn.1 hua
    rw [view_of_present hua hna (by rwa [Sys.l1_poke]), view_of_present hua hna hpa, Sys.l1_poke]
    by_cases hpage : vpn a = vpn va
    · -- the same page at another offset
      have hoff : a % pageSize ≠ va % pageSize := by
        intro hoff
        apply ha
        simp only [vpn] at hpage
        rw [← Nat.div_add_mod a pageSize, ← Nat.div_add_mod va pageSize, hpage, hoff]
      rw [hpage, Sys.poke_mem_self, Function.update_of_ne hoff]
    · have hpne := hm.inv.pfn_ne_of_owner hpid hv hp (hm.plain pid hpid _ hv) hnc hpid ha' hpa
        (hm.plain pid hpid _ ha') (.inr hpage)
      rw [Sys.poke_mem_of_ne _ _ _ hpne]
  · have hfalse : (isuaddr a && vpn a != vpn vacow && (m.sys.l1 pid (vpn a)).p) = false := by
      by_contra hc
      refine hcond ?_
      simpa [and_assoc] using hc
    simp [view, hfalse]

theorem poke_frame (s : Sys) (pid pfn off : Nat) (c : UInt8) : Frame pid s (s.poke pfn off c) :=
  Frame.setMem _

theorem Inv.poke {X : Prop} (h : Inv X s) (pfn off : Nat) (c : UInt8) : Inv X (s.poke pfn off c) :=
  ⟨h.bal.setMem _, h.pids, h.zombies, h.pidPos, h.pidBound, h.cleared⟩

theorem MInv.write (hm : MInv m) {va : Nat} {c : UInt8} (hat : m.At pid .user)
    (hva : isuaddr va) (hal : (m.sys.l1 pid (vpn va)).allows true) :
    MInv (m.goto pid (m.sys.poke (m.sys.l1 pid (vpn va)).pfn (va % pageSize) c) .user) ∧
    PStep m.privateMem (.write pid va c)
      (m.goto pid (m.sys.poke (m.sys.l1 pid (vpn va)).pfn (va % pageSize) c) .user).privateMem := by
  have hv := isuaddr_iff_vpn.1 hva
  have hp : (m.sys.l1 pid (vpn va)).p := by
    simp only [L1e.allows, Bool.and_eq_true] at hal
    exact hal.1.1
  have hne := hm.vpn_ne_vacow hat hp
  have huser : HndOk m.sys pid .user := hat.2 ▸ hm.hnd pid hat.1
  have hh : HndOk (m.sys.poke (m.sys.l1 pid (vpn va)).pfn (va % pageSize) c) pid .user := huser
  obtain ⟨h₁, h₂⟩ := hm.goto hat.1 (hm.inv.poke _ _ c) (poke_frame ..)
    (hm.untouched_of_owner hat.1.1 hv hal) (hm.plain pid hat.1.1) hh
  refine ⟨h₁, ?_⟩
  rw [h₂, hm.view_poke hat.1.1 hva hne hal]
  exact .write (privateMem_running hat.1) (by rw [view_of_present hva hne hp]; rfl)

/-! ## New pages -/

/-- What `vmmap` does where nothing external is mapped. -/
theorem vmmap_spec {va : Nat} {prot : Prot} {pg : Page} {r : Int}
    (hx : l1eExternal (s.l1 pid (vpn va)) = false) (h : vmmap s pid va prot pg = .ok (r, s')) :
    s.Free pg.pfn ∧ (prot.p → prot.u) ∧ prot.p ∧ prot.w ∧ Frame pid s s' ∧
    (∀ w, s'.l1 pid w = if w = vpn va then mkl1e pg.pfn prot else s.l1 pid w) ∧
    s'.mem = Function.update s.mem pg.pfn fun _ ↦ 0 := by
  simp only [vmmap, vmmap32, bind_eq_ok] at h
  obtain ⟨⟨r₁, s₁⟩, ⟨s₂, h₂, ⟨r₃, opfn, s₃⟩, h₃, h₄⟩, h₅⟩ := h
  obtain ⟨hf, rfl⟩ := allocuser_ok h₂
  obtain ⟨-, hu, ⟨hx', _⟩ | ⟨_, rfl, hd⟩⟩ := pmapUenter_ok h₃
  · rw [show (s.alloc pg.pfn 0).l1 pid (vpn va) = s.l1 pid (vpn va) from rfl, hx] at hx'
    cases hx'
  simp only [lt_irrefl, if_false] at h₄
  obtain ⟨hs₁, hr⟩ := freeOld_ok h₄
  rw [pmapCommit_snd, Sys.setFlush_freed] at hs₁
  rw [if_neg (Int.not_lt.2 hr), bind_eq_ok] at h₅
  obtain ⟨s₄, h₆, h₇⟩ := h₅
  cases h₇
  obtain ⟨hp, hw, rfl⟩ := kernelFill_ok h₆
  have hframe : Frame pid s s₁ := by
    rw [hs₁]
    exact ((((Frame.setDb _).trans (.take _)).trans (.put _ _)).trans (.drop hd)).trans
      (.setFlush pid _)
  have hl1 : ∀ w, s₁.l1 pid w = if w = vpn va then mkl1e pg.pfn prot else s.l1 pid w := by
    intro w
    rw [hs₁, Sys.l1_setFlush, Sys.l1_freed, dropL1e_l1 hd, Sys.put, Sys.l1_setL1e, Sys.l1_setFlush,
      Sys.l1_take]
    simp only [true_and]
    rfl
  have hmem : s₁.mem = s.mem := by
    rw [hs₁, Sys.setFlush_mem, Sys.freed_mem, dropL1e_mem hd, Sys.put, Sys.setL1e_mem,
      Sys.setFlush_mem, Sys.take_mem]
    rfl
  rw [hl1, if_pos rfl] at hp hw
  refine ⟨hf, fun hp ↦ (hu hp).1, hp, hw, hframe.trans (.setMem _), fun w ↦ hl1 w, ?_⟩
  rw [Sys.setMem, hmem, hl1, if_pos rfl]
  rfl

/-- The protection that a `vm_prot_t` stands for. -/
def VmProt.prot : VmProt → Prot
  | .nil => .none
  | .ro | .rx => protUser
  | .rw | .wx => protUserWr

theorem mapCall_new {prot : VmProt} (h : prot ≠ .nil) (root : Bool) :
    mapCall (prot.perm + mapNew) root = .vmmap prot.prot := by
  cases prot <;> cases root <;> first | rfl | exact absurd rfl h

/-- `SYS_MAP` with `MAP_NEW` maps a page or kills the process. -/
theorem exec_map_ok {va : Nat} {prot : VmProt} {root : Bool} {pg : Page} (hprot : prot ≠ .nil)
    (h : exec s pid (.map va (prot.perm + mapNew) root pg) = .ok s') :
    (chkuaddr (truncPage va) pageSize ∧ ∃ r, vmmap s pid va prot.prot pg = .ok (r, s')) ∨
    (chkuaddr (truncPage va) pageSize = false ∧ exit s pid = .ok s') := by
  simp only [exec, bind_eq_ok] at h
  obtain ⟨⟨r, s₁⟩, h₁, h₂⟩ := h
  cases h₂
  unfold sysMap at h₁
  split at h₁
  · rename_i hc
    rw [bind_eq_ok] at h₁
    obtain ⟨s₂, h₂, h₃⟩ := h₁
    cases h₃
    exact .inr ⟨by simpa using hc, h₂⟩
  · rename_i hc
    rw [mapCall_new hprot] at h₁
    exact .inl ⟨by simpa using hc, r, h₁⟩

/-- A new page for the program. -/
theorem MInv.vmmap {h : Hnd} (hm : MInv m) {va : Nat} {prot : Prot} {pg : Page} {r : Int}
    (hat : m.At pid h) (habs : (m.sys.l1 pid (vpn vacow)).p = false) (hva : isuaddr va)
    (hne : vpn va ≠ vpn vacow) (hinv : Inv False s')
    (hu : Vm.vmmap m.sys pid va prot pg = .ok (r, s')) :
    MInv (m.goto pid s' .user) ∧
      PStep m.privateMem (.map pid va) (m.goto pid s' .user).privateMem := by
  have hx := (hm.plain pid hat.1.1 _ (isuaddr_iff_vpn.1 hva)).not_external
  obtain ⟨hf, hpu, hp, hw, hframe, hl1, hmem⟩ := vmmap_spec hx hu
  have hplain : ∀ v ∈ userVpns, Plain (s'.l1 pid v) := fun v hv ↦ by
    rw [hl1]
    split
    · exact fun _ ↦ ⟨hpu hp, .inl rfl⟩
    · exact hm.plain pid hat.1.1 v hv
  have hh : HndOk s' pid .user := by
    change (s'.l1 pid (vpn vacow)).p = false
    rw [hl1, if_neg hne.symm]
    exact habs
  obtain ⟨h₁, h₂⟩ := hm.goto hat.1 hinv hframe (hm.untouched_of_free hf hframe hmem) hplain hh
  refine ⟨h₁, ?_⟩
  have hview : view s' pid = zeroPage (view m.sys pid) (vpn va) := by
    funext a
    by_cases ha : vpn a = vpn va
    · have hua : isuaddr a := by rw [isuaddr_iff_vpn, ha]; exact isuaddr_iff_vpn.1 hva
      have hpa : (s'.l1 pid (vpn a)).p := by rw [hl1, if_pos ha]; exact hp
      rw [view_of_present hua (by rwa [ha]) hpa, zeroPage, if_pos ha, hl1, if_pos ha, hmem]
      simp [mkl1e]
    · rw [zeroPage, if_neg ha]
      simp only [view, hl1, if_neg ha]
      split
      · rename_i hcond
        simp only [Bool.and_eq_true] at hcond
        have ha' := isuaddr_iff_vpn.1 hcond.1.1
        rw [hmem, Function.update_of_ne (hm.inv.pfn_ne_of_free hf hat.1.1 ha' hcond.2
          (hm.plain pid hat.1.1 _ ha'))]
      · rfl
  rw [h₂, hview]
  exact .map (privateMem_running hat.1)

/-! ## Faults -/

/-- A page fault: the kernel repairs the entry, or starts the handler. -/
theorem MInv.fault (hm : MInv m) {va : Nat} {err : Pferr} {x : Option Xcpterr}
    (hat : m.At pid .user) (hu : pmapFault m.sys pid va err = .ok (x, s')) :
    MInv (m.goto pid s' (.ofFault va x)) ∧
      PStep m.privateMem .tau (m.goto pid s' (.ofFault va x)).privateMem := by
  have huser : HndOk m.sys pid .user := hat.2 ▸ hm.hnd pid hat.1
  have hinv : Inv False s' := hm.inv.of_frame hat.1 (hm.inv.bal.fault hat.1.1 hu)
  have hframe : Frame pid m.sys s' := (hm.inv.bal.fault hat.1.1 hu).2
  obtain ⟨rfl, l1e, hl1e, rfl⟩ | ⟨hva, rfl, hc, -, -, rfl⟩ := pmapFault_ok hu
  · refine hm.goto_tau hat.1 hinv hframe (fun q hq _ ↦ .of_mem_eq hframe rfl hq)
      (hm.plain pid hat.1.1) ⟨huser, fun hcow ↦ ?_⟩ rfl
    by_cases hva : isuaddr va
    · rw [if_pos hva] at hl1e
      exact ⟨hva, hl1e ▸ hcow⟩
    · rw [if_neg hva] at hl1e
      rw [hl1e] at hcow
      cases hcow
  · have hc' := l1eCow_iff.1 hc
    have hne := hm.vpn_ne_vacow hat hc'.1
    have hl1 : ∀ v, (m.sys.setL1e pid (vpn va) (l1eMknormal (m.sys.l1 pid (vpn va)))).l1 pid v =
        if v = vpn va then l1eMknormal (m.sys.l1 pid v) else m.sys.l1 pid v := by
      intro v
      rw [Sys.l1_setL1e]
      simp only [true_and]
      split
      · rename_i hv
        rw [hv]
      · rfl
    refine hm.goto_tau hat.1 hinv hframe (fun q hq _ ↦ .of_mem_eq hframe rfl hq)
      (fun v hv ↦ ?_) ?_ (view_congr fun v _ _ ↦ ?_)
    · have hpl := hm.plain pid hat.1.1 v hv
      rw [hl1]
      split
      · exact fun hp ↦ ⟨(hpl hp).1, .inl rfl⟩
      · exact hpl
    · change (Sys.l1 _ pid (vpn vacow)).p = false
      rw [hl1, if_neg hne.symm]
      exact huser
    · rw [hl1]
      split <;> exact ⟨rfl, fun _ _ _ ↦ rfl⟩

/-! ## The end of a process -/

theorem vmclear_l1_mem {addr sz : Nat} (h : vmclear s pid addr sz = .ok s') :
    (∀ v, s'.l1 pid v = s.l1 pid v ∨ (s'.l1 pid v).p = false) ∧ s'.mem = s.mem := by
  simp only [vmclear, bind_eq_ok] at h
  obtain ⟨s₁, h₁, h₂⟩ := h
  cases h₂
  have hloop : (∀ v, s₁.l1 pid v = s.l1 pid v ∨ (s₁.l1 pid v).p = false) ∧ s₁.mem = s.mem := by
    refine foldlM_invariant
      (I := fun t ↦ (∀ v, t.l1 pid v = s.l1 pid v ∨ (t.l1 pid v).p = false) ∧ t.mem = s.mem)
      ?_ h₁ ⟨fun v ↦ .inl rfl, rfl⟩
    rintro t i t' - ⟨hl1, hmem⟩ ht
    refine ⟨fun v ↦ ?_, ?_⟩
    · rcases (vmclearPage_l1 ht).1 v with h | h
      · rw [h]
        exact hl1 v
      · exact .inr h
    · simp only [vmclearPage, bind_eq_ok] at ht
      obtain ⟨⟨r, opfn, t₁⟩, ht₁, ⟨r₂, t₂⟩, ht₂, ht₃⟩ := ht
      cases ht₃
      rw [(freeOld_ok ht₂).1, Sys.freed_mem, ← hmem]
      obtain ⟨-, -, ⟨_, _, _, rfl⟩ | ⟨_, _, hd⟩⟩ := pmapUenter_ok ht₁
      · rfl
      · rw [dropL1e_mem hd, Sys.put, Sys.setL1e_mem, Sys.setFlush_mem, Sys.take_mem]
  refine ⟨fun v ↦ ?_, hloop.2⟩
  rw [pmapCommit_snd, Sys.l1_setFlush]
  exact hloop.1 v

/-- `__exit`: the process's memory is gone, and no other changes. -/
theorem MInv.exit {h : Hnd} (hm : MInv m) (hat : m.At pid h) (hu : Vm.exit m.sys pid = .ok s') :
    MInv (m.goto pid s' .user) ∧
      PStep m.privateMem (.exit pid) (m.goto pid s' .user).privateMem := by
  have hinv : Inv False s' := hm.inv.exit hat.1 False.elim hu
  obtain ⟨_, t, ht, rfl⟩ := exit_ok hu
  have hB : 1531 * m.sys.nextpid < 2 ^ 64 :=
    Nat.lt_of_le_of_lt (Nat.le_add_right _ _) hm.inv.bound_lt
  have hf : Frame pid m.sys t := (hm.inv.bal.vmclear hB hat.1.1 False.elim ht).2
  obtain ⟨hl1, hmem⟩ := vmclear_l1_mem ht
  have hun : ∀ q, q ≠ pid → Untouched m.sys { t with zombie := insert pid t.zombie } q :=
    fun q hq ↦ ⟨hf.l1 q hq, fun v _ _ ↦ congrFun hmem _⟩
  have hrunning : ∀ q, ({ t with zombie := insert pid t.zombie } : Sys).Running q ↔
      m.sys.Running q ∧ q ≠ pid := by
    intro q
    simp only [Sys.Running, hf.live, hf.zombie, Finset.mem_insert, not_or]
    exact ⟨fun ⟨hl, hp, hz⟩ ↦ ⟨⟨hl, hz⟩, hp⟩, fun ⟨⟨hl, hz⟩, hp⟩ ↦ ⟨hl, hp, hz⟩⟩
  refine ⟨⟨hinv, fun q hq v hv ↦ ?_, fun q hq ↦ ?_⟩, ?_⟩
  · change Plain (t.l1 q v)
    by_cases hqp : q = pid
    · subst hqp
      rcases hl1 v with h | h
      · rw [h]
        exact hm.plain q hat.1.1 v hv
      · exact .of_absent h
    · rw [hf.l1 q hqp]
      exact hm.plain q (hf.live ▸ hq) v hv
  · obtain ⟨hq', hqp⟩ := (hrunning q).1 hq
    change HndOk _ q (Function.update m.hnd pid .user q)
    rw [Function.update_of_ne hqp]
    exact (hm.hnd q hq').untouched (hun q hqp)
  · have heq : (m.goto pid { t with zombie := insert pid t.zombie } .user).privateMem =
        Function.update m.privateMem pid none := by
      funext q
      by_cases hqp : q = pid
      · subst hqp
        rw [Function.update_self]
        exact privateMem_gone (m := m.goto q _ .user) fun hr ↦ ((hrunning q).1 hr).2 rfl
      · rw [Function.update_of_ne hqp]
        by_cases hq : m.sys.Running q
        · have hq' : (m.goto pid { t with zombie := insert pid t.zombie } .user).sys.Running q :=
            (hrunning q).2 ⟨hq, hqp⟩
          rw [privateMem_running hq, privateMem_running hq', ← (hun q hqp).view_eq]
          rfl
        · rw [privateMem_gone hq]
          exact privateMem_gone (m := m.goto pid _ .user) fun hr ↦ hq ((hrunning q).1 hr).1
    rw [heq]
    exact .exit (privateMem_running hat.1)

/-- `thfree`: the thread that is freed had exited. -/
theorem MInv.thfree (hm : MInv m) {th : Nat} (hat : m.At pid .user)
    (hu : exec m.sys pid (.thfree th) = .ok s') :
    MInv (m.goto pid s' .user) ∧ PStep m.privateMem .tau (m.goto pid s' .user).privateMem := by
  have huser : HndOk m.sys pid .user := hat.2 ▸ hm.hnd pid hat.1
  have hinv : Inv False s' :=
    hm.inv.step (a := (pid, .thfree th)) ⟨nofun, nofun⟩ False.elim ⟨hat.1, hu⟩
  simp only [exec] at hu
  cases hu
  by_cases hth : th ∈ m.sys.zombie
  · rw [if_pos hth] at hinv ⊢
    have hrunning : ∀ q, (Vm.thfree m.sys th).Running q ↔ m.sys.Running q := by
      intro q
      simp only [Sys.Running, Vm.thfree, Finset.mem_erase]
      by_cases hq : q = th
      · subst hq
        simp [hth]
      · simp [hq]
    refine ⟨⟨hinv, fun q hq ↦ hm.plain q (Finset.mem_of_mem_erase hq), fun q hq ↦ ?_⟩, ?_⟩
    · change HndOk m.sys q (Function.update m.hnd pid .user q)
      by_cases hqp : q = pid
      · subst hqp
        rw [Function.update_self]
        exact huser
      · rw [Function.update_of_ne hqp]
        exact hm.hnd q ((hrunning q).1 hq)
    · have heq : (m.goto pid (Vm.thfree m.sys th) .user).privateMem = m.privateMem := by
        funext q
        by_cases hq : m.sys.Running q
        · exact (if_pos ((hrunning q).2 hq)).trans (privateMem_running hq).symm
        · exact (if_neg fun hr ↦ hq ((hrunning q).1 hr)).trans (privateMem_gone hq).symm
      rw [heq]
      exact .tau
  · rw [if_neg hth] at hinv ⊢
    exact hm.goto_tau hat.1 hinv (.refl _) (fun q _ _ ↦ ⟨fun _ ↦ rfl, fun _ _ _ ↦ rfl⟩)
      (hm.plain pid hat.1.1) huser rfl

/-! ## The handler -/

theorem isuaddr_vacow : isuaddr vacow := by
  rw [isuaddr_iff_vpn]
  exact vacow_mem_userVpns

/-- The handler takes a page to copy to. -/
theorem MInv.hndCow (hm : MInv m) {va : Nat} {x : Xcpterr} {root : Bool} {pg : Page}
    (hat : m.At pid (.fault va x)) (hcow : x.cow)
    (hu : exec m.sys pid (.map vacow (VmProt.rw.perm + mapNew) root pg) = .ok s') :
    MInv (m.goto pid s' (.copy va 0)) ∧
      PStep m.privateMem .tau (m.goto pid s' (.copy va 0)).privateMem := by
  obtain ⟨habs, hva, hc⟩ : (m.sys.l1 pid (vpn vacow)).p = false ∧ isuaddr va ∧
      l1eCow (m.sys.l1 pid (vpn va)) := by
    have hh := hm.hnd pid hat.1
    rw [hat.2] at hh
    exact ⟨hh.1, hh.2 hcow⟩
  have hne : vpn va ≠ vpn vacow := by
    intro he
    have := (l1eCow_iff.1 hc).1
    rw [he, habs] at this
    cases this
  have hinv : Inv False s' := hm.inv.step (a := (pid, .map ..)) ⟨nofun, nofun⟩ False.elim
    ⟨hat.1, hu⟩
  have hrw : VmProt.rw ≠ .nil := nofun
  rcases exec_map_ok hrw hu with ⟨-, r, hmap⟩ | ⟨hchk, -⟩
  · have hx := (hm.plain pid hat.1.1 _ vacow_mem_userVpns).not_external
    obtain ⟨hf, hpu, hp, hw, hframe, hl1, hmem⟩ := vmmap_spec hx hmap
    have hva' : s'.l1 pid (vpn va) = m.sys.l1 pid (vpn va) := by rw [hl1, if_neg hne]
    have hvac : s'.l1 pid (vpn vacow) = mkl1e pg.pfn VmProt.rw.prot := by rw [hl1, if_pos rfl]
    refine hm.goto_tau hat.1 hinv hframe (hm.untouched_of_free hf hframe hmem) (fun v hv ↦ ?_)
      ⟨hva, hne, by rwa [hva'], by rw [hvac]; rfl, by rw [hvac]; rfl, nofun⟩
      (view_congr fun v hv hv' ↦ ?_)
    · rw [hl1]
      split
      · exact fun _ ↦ ⟨hpu hp, .inl rfl⟩
      · exact hm.plain pid hat.1.1 v hv
    · rw [hl1, if_neg hv']
      refine ⟨rfl, fun hpv o _ ↦ ?_⟩
      rw [hmem, Function.update_of_ne (hm.inv.pfn_ne_of_free hf hat.1.1 hv hpv
        (hm.plain pid hat.1.1 v hv))]
  · rw [chkuaddr_of_isuaddr isuaddr_vacow] at hchk
    cases hchk

/-- The two pages of the handler's `memcpy` are different. -/
theorem MInv.copy_ne (hm : MInv m) {va i : Nat} (hat : m.At pid (.copy va i)) {v : Nat}
    (hv : v ∈ userVpns) (hne : v ≠ vpn vacow) (hp : (m.sys.l1 pid v).p) :
    (m.sys.l1 pid v).pfn ≠ (m.sys.l1 pid (vpn vacow)).pfn := by
  have hh := hm.hnd pid hat.1
  rw [hat.2] at hh
  obtain ⟨-, -, -, hn, -⟩ := hh
  have hn' := l1eNormal_iff.1 hn
  exact hm.inv.pfn_ne_of_owner hat.1.1 vacow_mem_userVpns hn'.1
    (hm.plain pid hat.1.1 _ vacow_mem_userVpns) (by simp [hn'.2]) hat.1.1 hv hp
    (hm.plain pid hat.1.1 v hv) (.inr hne)

/-- The handler copies a byte. -/
theorem MInv.hndCopy (hm : MInv m) {va i : Nat} (hat : m.At pid (.copy va i))
    (hal : (m.sys.l1 pid (vpn vacow)).allows true) :
    MInv (m.goto pid (m.sys.poke (m.sys.l1 pid (vpn vacow)).pfn i
      (m.sys.mem (m.sys.l1 pid (vpn va)).pfn i)) (.copy va (i + 1))) ∧
    PStep m.privateMem .tau (m.goto pid (m.sys.poke (m.sys.l1 pid (vpn vacow)).pfn i
      (m.sys.mem (m.sys.l1 pid (vpn va)).pfn i)) (.copy va (i + 1))).privateMem := by
  have hh := hm.hnd pid hat.1
  rw [hat.2] at hh
  obtain ⟨hva, hne, hc, hn, hw, hb⟩ := hh
  refine hm.goto_tau hat.1 (hm.inv.poke _ _ _) (poke_frame ..)
    (hm.untouched_of_owner hat.1.1 vacow_mem_userVpns hal) (hm.plain pid hat.1.1)
    ⟨hva, hne, hc, hn, hw, fun j hj ↦ ?_⟩ (view_congr fun v hv hv' ↦ ⟨rfl, fun hp o _ ↦ ?_⟩)
  · have hpq := hm.copy_ne hat (isuaddr_iff_vpn.1 hva) hne (l1eCow_iff.1 hc).1
    rw [Sys.l1_poke, Sys.l1_poke, Sys.poke_mem_self, Sys.poke_mem_of_ne _ _ _ hpq]
    by_cases hji : j = i
    · rw [hji, Function.update_self]
    · rw [Function.update_of_ne hji]
      exact hb j (by omega)
  · have hpq := hm.copy_ne hat hv hv' hp
    rw [Sys.l1_poke, Sys.poke_mem_of_ne _ _ _ hpq]

/-- What `vmmove` does between two pages, neither of them external. -/
theorem vmmove_spec {dst src : Nat} {r : Int}
    (hx : l1eExternal (s.l1 pid (vpn src)) = false)
    (hx' : l1eExternal (s.l1 pid (vpn dst)) = false) (h : vmmove s pid dst src = .ok (r, s')) :
    (∀ w, s'.l1 pid w = if w = vpn dst then s.l1 pid (vpn src)
      else if w = vpn src then mkl1e pfnInvalid .none else s.l1 pid w) ∧ s'.mem = s.mem := by
  simp only [vmmove, bind_eq_ok] at h
  obtain ⟨⟨r₁, opfn, s₁⟩, h₁, h₂⟩ := h
  obtain ⟨-, -, ⟨hxx, _⟩ | ⟨_, _, rfl, hd⟩⟩ := pmapUchaddr_ok h₁
  · rw [hx, hx'] at hxx
    simp at hxx
  · have hs' := finish_ok h₂ (fun hr ↦ absurd hr (lt_irrefl _))
    refine ⟨fun w ↦ ?_, ?_⟩
    · rw [hs', Sys.l1_setFlush, Sys.l1_freed, dropL1e_l1 hd, Sys.moved, Sys.l1_setFlush,
        Sys.l1_setL1e, Sys.l1_setL1e]
      simp only [true_and]
    · rw [hs', Sys.setFlush_mem, Sys.freed_mem, dropL1e_mem hd]
      rfl

/-- The handler moves the copy into place. -/
theorem MInv.hndMove (hm : MInv m) {va : Nat} (hat : m.At pid (.copy va pageSize))
    (hu : exec m.sys pid (.move va vacow) = .ok s') :
    MInv (m.goto pid s' .user) ∧
      PStep m.privateMem (callEv pid va .tau) (m.goto pid s' .user).privateMem := by
  have hh := hm.hnd pid hat.1
  rw [hat.2] at hh
  obtain ⟨hva, hne, hc, hn, hw, hb⟩ := hh
  have hchk := chkuaddr_of_isuaddr hva
  have hinv : Inv False s' := hm.inv.step (a := (pid, .move va vacow))
    ⟨fun hs ↦ hne hs.2.2.1, nofun⟩ False.elim ⟨hat.1, hu⟩
  rw [callEv, if_pos hchk]
  simp only [exec, sysMove, hchk, chkuaddr_of_isuaddr isuaddr_vacow, Bool.not_true, Bool.or_self,
    Bool.false_eq_true, if_false, bind_eq_ok] at hu
  obtain ⟨⟨r, s₁⟩, h₁, h₂⟩ := hu
  cases h₂
  have hx := (hm.plain pid hat.1.1 _ vacow_mem_userVpns).not_external
  have hx' := (hm.plain pid hat.1.1 _ (isuaddr_iff_vpn.1 hva)).not_external
  obtain ⟨hl1, hmem⟩ := vmmove_spec hx hx' h₁
  have hframe : Frame pid m.sys s₁ := by
    have hB : 1531 * m.sys.nextpid < 2 ^ 64 :=
      Nat.lt_of_le_of_lt (Nat.le_add_right _ _) hm.inv.bound_lt
    exact (hm.inv.bal.vmmove hB hat.1.1 (fun hs ↦ hne hs.1) False.elim h₁).2
  refine hm.goto_tau hat.1 hinv hframe (fun q hq _ ↦ .of_mem_eq hframe hmem hq) (fun v hv ↦ ?_) ?_
    (view_congr fun v hv hv' ↦ ?_)
  · rw [hl1]
    split
    · exact hm.plain pid hat.1.1 _ vacow_mem_userVpns
    · split
      · exact .of_absent rfl
      · exact hm.plain pid hat.1.1 v hv
  · change (s₁.l1 pid (vpn vacow)).p = false
    rw [hl1, if_neg hne.symm, if_pos rfl]
    rfl
  · rw [hl1, if_neg hv']
    split
    · rename_i hvv
      subst hvv
      rw [(l1eNormal_iff.1 hn).1, (l1eCow_iff.1 hc).1]
      exact ⟨rfl, fun _ o ho ↦ by rw [hmem, hb o ho]⟩
    · exact ⟨rfl, fun _ o _ ↦ by rw [hmem]⟩

theorem mapCall_chprot {prot : VmProt} (h : prot ≠ .nil) (root : Bool) :
    mapCall prot.perm root = .vmchprot prot.prot := by
  cases prot <;> cases root <;> first | rfl | exact absurd rfl h

/-- The handler makes a page writable. -/
theorem MInv.hndChprot (hm : MInv m) {va : Nat} {x : Xcpterr} {prot : VmProt} {root : Bool}
    {pg : Page} (hat : m.At pid (.fault va x)) (hprot : prot ≠ .nil)
    (hu : exec m.sys pid (.map va prot.perm root pg) = .ok s') :
    MInv (m.goto pid s' .user) ∧
      PStep m.privateMem (callEv pid va .tau) (m.goto pid s' .user).privateMem := by
  have hh := hm.hnd pid hat.1
  rw [hat.2] at hh
  have habs : (m.sys.l1 pid (vpn vacow)).p = false := hh.1
  have hinv : Inv False s' := hm.inv.step (a := (pid, .map ..)) ⟨nofun, nofun⟩ False.elim
    ⟨hat.1, hu⟩
  simp only [exec, bind_eq_ok] at hu
  obtain ⟨⟨r, s₁⟩, h₁, h₂⟩ := hu
  cases h₂
  by_cases hchk : chkuaddr (truncPage va) pageSize
  · rw [callEv, if_pos hchk]
    rw [sysMap_chprot hchk (mapCall_chprot hprot root)] at h₁
    have hframe : Frame pid m.sys s₁ := (hm.inv.bal.vmchprot hat.1.1 h₁).2
    simp only [vmchprot, bind_eq_ok] at h₁
    obtain ⟨⟨r₂, s₂⟩, h₂, h₃⟩ := h₁
    cases h₃
    rw [pmapCommit_snd] at hinv hframe ⊢
    obtain ⟨_, hp, hpu, rfl | ⟨hn, rfl⟩⟩ := pmapUchprot_ok h₂
    · refine hm.goto_tau hat.1 hinv hframe (fun q hq _ ↦ .of_mem_eq hframe rfl hq)
        (fun v hv ↦ ?_) ?_ (view_congr fun v _ _ ↦ ?_)
      · rw [Sys.l1_setFlush]
        exact hm.plain pid hat.1.1 v hv
      · change (Sys.l1 _ pid (vpn vacow)).p = false
        rw [Sys.l1_setFlush]
        exact habs
      · rw [Sys.l1_setFlush]
        exact ⟨rfl, fun _ _ _ ↦ rfl⟩
    · have hn' := l1eNormal_iff.1 hn
      have hne : vpn vacow ≠ vpn va := by
        intro he
        rw [he, hn'.1] at habs
        cases habs
      have hl1 : ∀ v, ((m.sys.put pid (vpn va) (mkl1e (m.sys.l1 pid (vpn va)).pfn
          prot.prot)).setFlush pid .null).l1 pid v =
          if v = vpn va then mkl1e (m.sys.l1 pid (vpn va)).pfn prot.prot else m.sys.l1 pid v := by
        intro v
        rw [Sys.l1_setFlush, Sys.put, Sys.l1_setL1e, Sys.l1_setFlush]
        simp only [true_and]
      refine hm.goto_tau hat.1 hinv hframe (fun q hq _ ↦ .of_mem_eq hframe rfl hq)
        (fun v hv ↦ ?_) ?_ (view_congr fun v _ _ ↦ ?_)
      · rw [hl1]
        split
        · exact fun _ ↦ ⟨hpu, .inl rfl⟩
        · exact hm.plain pid hat.1.1 v hv
      · change (Sys.l1 _ pid (vpn vacow)).p = false
        rw [hl1, if_neg hne]
        exact habs
      · rw [hl1]
        split
        · rename_i hv
          subst hv
          exact ⟨hp.trans hn'.1.symm, fun _ _ _ ↦ rfl⟩
        · exact ⟨rfl, fun _ _ _ ↦ rfl⟩
  · rw [callEv, if_neg hchk]
    have hchk' : chkuaddr (truncPage va) pageSize = false := by simpa using hchk
    simp only [sysMap, hchk', Bool.not_false, if_true, bind_eq_ok] at h₁
    obtain ⟨s₂, h₂, h₃⟩ := h₁
    cases h₃
    exact hm.exit hat h₂

/-! ## Fork -/

theorem cowParent_eq (e : L1e) : (cowParent e).p = e.p ∧ (cowParent e).pfn = e.pfn := by
  unfold cowParent
  split <;> exact ⟨rfl, rfl⟩

theorem Plain.cowParent {e : L1e} (h : Plain e) : Plain (cowParent e) := by
  unfold Vm.cowParent
  split
  · exact fun hp ↦ ⟨(h hp).1, .inr rfl⟩
  · exact h

theorem Plain.cowChild_eq {e : L1e} (h : Plain e) :
    (cowChild e).p = e.p ∧ (cowChild e).pfn = e.pfn := by
  unfold cowChild
  rw [h.not_external]
  split <;> exact ⟨rfl, rfl⟩

theorem Plain.cowChild {e : L1e} (h : Plain e) : Plain (cowChild e) := by
  unfold Vm.cowChild
  rw [h.not_external]
  split
  · exact h
  · exact fun hp ↦ ⟨(h hp).1, .inr rfl⟩

/-- The user range is the page that is copied at once and the copy-on-write area. -/
theorem userVpns_cases {v : Nat} (hv : v ∈ userVpns) : v = 1 ∨ v ∈ cowVpns := by
  rw [mem_userVpns] at hv
  rw [mem_cowVpns]
  omega

/-- The entry of the parent at the page copied at once and the new page hold the
same bytes afterwards, and no page that was mapped changes. -/
theorem MInv.fork_mem (hm : MInv m) {pg : Page} (hf : Forked pid pg m.sys s') {q : Nat}
    (hq : q ∈ m.sys.live) (hv : v ∈ userVpns) (hp : (m.sys.l1 q v).p) :
    s'.mem (m.sys.l1 q v).pfn = m.sys.mem (m.sys.l1 q v).pfn := by
  rcases hf.copy with ⟨_, _, hmem⟩ | ⟨_, _, hmem⟩
  · rw [hmem]
  · rw [hmem, Function.update_of_ne (hm.inv.pfn_ne_of_free hf.free hq hv hp (hm.plain q hq v hv))]

section Forked

variable {pg : Page} {q : Nat}

/-- The other processes go on. -/
theorem Forked.running_iff (hf : Forked pid pg m.sys s') (hq : q ≠ m.sys.nextpid) :
    s'.Running q ↔ m.sys.Running q := by
  simp only [Sys.Running, hf.live, hf.zombie, Finset.mem_insert, hq, false_or]

theorem MInv.not_running_next (hm : MInv m) : ¬m.sys.Running m.sys.nextpid := fun hr ↦
  absurd (hm.inv.pids _ hr.1) (lt_irrefl _)

theorem MInv.running_child (hm : MInv m) (hf : Forked pid pg m.sys s') :
    s'.Running m.sys.nextpid := by
  refine ⟨by rw [hf.live]; exact Finset.mem_insert_self .., ?_⟩
  rw [hf.zombie]
  exact fun hz ↦ absurd (hm.inv.pids _ (hm.inv.zombies hz)) (lt_irrefl _)

theorem MInv.fork_untouched (hm : MInv m) (hf : Forked pid pg m.sys s') (hq : q ≠ pid)
    (hq' : q ≠ m.sys.nextpid) (hlive : q ∈ m.sys.live) : Untouched m.sys s' q :=
  ⟨hf.other q hq hq', fun _ hv hp ↦ hm.fork_mem hf hlive hv hp⟩

/-- The parent keeps its memory. -/
theorem MInv.view_parent (hm : MInv m) (hf : Forked pid pg m.sys s') (hpid : pid ∈ m.sys.live) :
    view s' pid = view m.sys pid := view_congr fun v hv _ ↦ by
  rcases userVpns_cases hv with rfl | hcow
  · rw [hf.own]
    exact ⟨rfl, fun hp o _ ↦ by rw [hm.fork_mem hf hpid hv hp]⟩
  · rw [hf.parent v hcow, (cowParent_eq _).1, (cowParent_eq _).2]
    exact ⟨rfl, fun hp o _ ↦ by rw [hm.fork_mem hf hpid hv hp]⟩

/-- The child gets the same one. -/
theorem MInv.view_child (hm : MInv m) (hf : Forked pid pg m.sys s') (hpid : pid ∈ m.sys.live) :
    view s' m.sys.nextpid = view m.sys pid := view_congr fun v hv _ ↦ by
  rcases userVpns_cases hv with rfl | hcow
  · rcases hf.copy with ⟨hp, hp', _⟩ | ⟨hp, hl, hmem⟩
    · rw [hp, hp']
      exact ⟨rfl, fun h ↦ absurd h Bool.false_ne_true⟩
    · rw [hl, hp, hmem]
      exact ⟨rfl, fun _ o _ ↦ by simp [mkl1e]⟩
  · have hc := (hm.plain pid hpid v hv).cowChild_eq
    rw [hf.child v hcow, hc.1, hc.2]
    exact ⟨rfl, fun hp o _ ↦ by rw [hm.fork_mem hf hpid hv hp]⟩

theorem MInv.plain_child (hm : MInv m) (hf : Forked pid pg m.sys s') (hpid : pid ∈ m.sys.live)
    (hv : v ∈ userVpns) : Plain (s'.l1 m.sys.nextpid v) := by
  rcases userVpns_cases hv with rfl | hcow
  · rcases hf.copy with ⟨_, hp', _⟩ | ⟨_, hl, _⟩
    · exact .of_absent hp'
    · rw [hl]
      exact fun _ ↦ ⟨rfl, .inl rfl⟩
  · rw [hf.child v hcow]
    exact (hm.plain pid hpid v hv).cowChild

theorem MInv.plain_parent (hm : MInv m) (hf : Forked pid pg m.sys s') (hpid : pid ∈ m.sys.live)
    (hv : v ∈ userVpns) : Plain (s'.l1 pid v) := by
  rcases userVpns_cases hv with rfl | hcow
  · rw [hf.own]
    exact hm.plain pid hpid 1 hv
  · rw [hf.parent v hcow]
    exact (hm.plain pid hpid v hv).cowParent

/-- The processes and their memory. -/
theorem MInv.fork_privateMem (hm : MInv m) (hf : Forked pid pg m.sys s')
    (hpid : m.sys.Running pid) : (m.goto m.sys.nextpid s' .user).privateMem =
      Function.update m.privateMem m.sys.nextpid (some (view m.sys pid)) := by
  funext q
  by_cases hqn : q = m.sys.nextpid
  · subst hqn
    rw [Function.update_self, ← hm.view_child hf hpid.1]
    exact privateMem_running (m := m.goto m.sys.nextpid s' .user) (hm.running_child hf)
  · rw [Function.update_of_ne hqn]
    by_cases hq : m.sys.Running q
    · have hq' : (m.goto m.sys.nextpid s' .user).sys.Running q := (hf.running_iff hqn).2 hq
      rw [privateMem_running hq, privateMem_running hq']
      by_cases hqp : q = pid
      · subst hqp
        rw [← hm.view_parent hf hpid.1]
        rfl
      · rw [← (hm.fork_untouched hf hqp hqn hq.1).view_eq]
        rfl
    · rw [privateMem_gone hq]
      exact privateMem_gone (m := m.goto m.sys.nextpid s' .user) fun hr ↦
        hq ((hf.running_iff hqn).1 hr)

end Forked

/-- `thfork`: the child's memory is a copy of the parent's. -/
theorem MInv.fork (hm : MInv m) {stale : Tlbf} {pick : Nat → Page} (hat : m.At pid .user)
    (hu : exec m.sys pid (.fork stale pick) = .ok s') :
    MInv (m.goto m.sys.nextpid s' .user) ∧
      PStep m.privateMem (.fork pid m.sys.nextpid)
        (m.goto m.sys.nextpid s' .user).privateMem := by
  have hinv : Inv False s' := hm.inv.thfork hat.1 hu
  have huser : (m.sys.l1 pid (vpn vacow)).p = false := by
    have hh := hm.hnd pid hat.1
    rw [hat.2] at hh
    exact hh
  have hne : pid ≠ m.sys.nextpid := (hm.inv.pids pid hat.1.1).ne
  have hf : Forked pid (pick 1) m.sys s' := thfork_forked hne hu
  refine ⟨⟨hinv, fun q hq v hv ↦ ?_, fun q hq ↦ ?_⟩, ?_⟩
  · change Plain (s'.l1 q v)
    by_cases hqn : q = m.sys.nextpid
    · exact hqn ▸ hm.plain_child hf hat.1.1 hv
    · by_cases hqp : q = pid
      · exact hqp ▸ hm.plain_parent hf hat.1.1 hv
      · rw [hf.other q hqp hqn]
        have hq : q ∈ s'.live := hq
        rw [hf.live, Finset.mem_insert] at hq
        exact hm.plain q (hq.resolve_left hqn) v hv
  · change HndOk s' q (Function.update m.hnd m.sys.nextpid .user q)
    by_cases hqn : q = m.sys.nextpid
    · subst hqn
      rw [Function.update_self]
      change (s'.l1 m.sys.nextpid (vpn vacow)).p = false
      rw [hf.child _ vacow_mem_cowVpns,
        (hm.plain pid hat.1.1 _ vacow_mem_userVpns).cowChild_eq.1]
      exact huser
    · rw [Function.update_of_ne hqn]
      by_cases hqp : q = pid
      · subst hqp
        rw [hat.2]
        change (s'.l1 q (vpn vacow)).p = false
        rw [hf.parent _ vacow_mem_cowVpns, (cowParent_eq _).1]
        exact huser
      · have hq' := (hf.running_iff hqn).1 hq
        exact (hm.hnd q hq').untouched (hm.fork_untouched hf hqp hqn hq'.1)
  · rw [hm.fork_privateMem hf hat.1]
    exact .fork (privateMem_running hat.1) (privateMem_gone hm.not_running_next)

/-! ## The simulation -/

/-- What the handler does when it maps a page: the address lies in an area of the
program. -/
theorem resolveVa_ne {L : Layout} {va : Nat} {x : Xcpterr}
    (h : pgfaulthandler (resolveVa L va) x ≠ .die) :
    resolveVa L va ≠ .nil ∧ vpn va ≠ vpn vacow := by
  have hnil : resolveVa L va ≠ .nil := by
    intro hn
    rw [hn] at h
    exact h rfl
  exact ⟨hnil, fun he ↦ hnil (resolveVa_vacow L he)⟩

/-- The handler copies a page only for a write to a copy-on-write entry. -/
theorem cow_of_pgfaulthandler {prot : VmProt} {x : Xcpterr} (h : pgfaulthandler prot x = .cow) :
    x.cow := by
  unfold pgfaulthandler at h
  split at h
  · cases h
  · split at h
    · cases h
    · split at h
      · rename_i hx
        rw [Bool.and_eq_true] at hx
        exact hx.1
      · split at h <;> cases h

/-- `SYS_MAP` with `MAP_NEW`, by the program or by its handler. -/
theorem MInv.mapNew {h : Hnd} (hm : MInv m) {va : Nat} {prot : VmProt} {root : Bool} {pg : Page}
    (hat : m.At pid h) (habs : (m.sys.l1 pid (vpn vacow)).p = false) (hprot : prot ≠ .nil)
    (hne : vpn va ≠ vpn vacow)
    (hu : exec m.sys pid (.map va (prot.perm + mapNew) root pg) = .ok s') :
    MInv (m.goto pid s' .user) ∧
      PStep m.privateMem (callEv pid va (.map pid va)) (m.goto pid s' .user).privateMem := by
  have hinv : Inv False s' := hm.inv.step (a := (pid, .map ..)) ⟨nofun, nofun⟩ False.elim
    ⟨hat.1, hu⟩
  rcases exec_map_ok hprot hu with ⟨hchk, r, hmap⟩ | ⟨hchk, hexit⟩
  · rw [callEv, if_pos hchk]
    exact hm.vmmap hat habs (isuaddr_of_chkuaddr hchk) hne hinv hmap
  · rw [callEv, if_neg (by simp [hchk])]
    exact hm.exit hat hexit

/-- Every step of the implementation is a step of the specification. -/
theorem MInv.step {ev : Ev} (hm : MInv m) (hs : MStep m ev m') :
    MInv m' ∧ PStep m.privateMem ev m'.privateMem := by
  have huser : ∀ {pid}, m.At pid .user → (m.sys.l1 pid (vpn vacow)).p = false := by
    intro pid hat
    have hh := hm.hnd pid hat.1
    rw [hat.2] at hh
    exact hh
  have hfault : ∀ {pid va x}, m.At pid (.fault va x) →
      (m.sys.l1 pid (vpn vacow)).p = false := by
    intro pid va x hat
    have hh := hm.hnd pid hat.1
    rw [hat.2] at hh
    exact hh.1
  cases hs with
  | read hat hva hal => exact ⟨hm, hm.read hat hva hal⟩
  | write hat hva hal => exact hm.write hat hva hal
  | fault hat _ _ hu => exact hm.fault hat hu
  | map hat hprot hne hu => exact hm.mapNew hat (huser hat) hprot hne hu
  | fork hat hu => exact hm.fork hat hu
  | exit hat hu => exact hm.exit hat hu
  | thfree hat hu => exact hm.thfree hat hu
  | hndDie hat _ hu => exact hm.exit hat hu
  | hndMap hat hcall hu =>
      have hne := resolveVa_ne (by rw [hcall]; exact nofun)
      exact hm.mapNew hat (hfault hat) hne.1 hne.2 hu
  | hndChprot hat hcall hu =>
      exact hm.hndChprot hat (resolveVa_ne (by rw [hcall]; exact nofun)).1 hu
  | hndCow hat hcall hu => exact hm.hndCow hat (cow_of_pgfaulthandler hcall) hu
  | hndCopy hat _ _ hal => exact hm.hndCopy hat hal
  | hndMove hat hu => exact hm.hndMove hat hu

theorem Mach.Boot.minv (h : m.Boot) : MInv m := by
  have hl1 : ∀ pid ∈ m.sys.live, ∀ v, m.sys.l1 pid v = .zero := by
    intro pid hpid v
    rw [h.1.live, Finset.mem_singleton] at hpid
    rw [hpid]
    exact h.1.blank v
  refine ⟨h.1.inv, fun pid hpid v _ ↦ .of_absent (by rw [hl1 pid hpid v]; rfl), fun pid hr ↦ ?_⟩
  rw [h.2 pid]
  change (m.sys.l1 pid (vpn vacow)).p = false
  rw [hl1 pid hr.1]
  rfl

theorem Mach.Boot.privateMem_eq (h : m.Boot) : m.privateMem = .boot m.sys.init := by
  funext pid
  have hrun : m.sys.Running pid ↔ pid = m.sys.init := by
    simp [Sys.Running, h.1.live, h.1.zombie]
  by_cases hp : pid = m.sys.init
  · subst hp
    rw [privateMem_running (hrun.2 rfl)]
    simp only [Private.boot, if_true, Option.some.injEq]
    funext a
    simp [view, h.1.blank, L1e.zero]
  · rw [privateMem_gone fun hr ↦ hp (hrun.1 hr)]
    simp [Private.boot, hp]

/-- Fork has value semantics.  Every run of processes that share pages is a run of
processes with private memories, and so every read returns the process's own last
write, or what its parent had there at the fork. -/
theorem fork_refines_private {evs : List Ev} (hb : m.Boot) (hr : Run MStep m evs m') :
    Run PStep (.boot m.sys.init) evs m'.privateMem ∧
    ∀ pre pid va c post, evs = pre ++ .read pid va c :: post →
      lastValue pre.reverse pid va = some c := by
  obtain ⟨A, hA, _, rfl⟩ : ∃ A, Run PStep m.privateMem evs A ∧ MInv m' ∧ A = m'.privateMem :=
    hr.simulate (R := fun m A ↦ MInv m ∧ A = m.privateMem)
      (fun m ev m' A hR hs ↦ by
        obtain ⟨hm, rfl⟩ := hR
        exact ⟨_, (hm.step hs).2, (hm.step hs).1, rfl⟩) ⟨hb.minv, rfl⟩
  rw [hb.privateMem_eq] at hA
  refine ⟨hA, fun pre pid va c post he ↦ ?_⟩
  rw [he] at hA
  exact read_eq_lastValue hA

theorem lastValue_taus (n : Nat) (h : List Ev) (pid va : Nat) :
    lastValue (List.replicate n .tau ++ h) pid va = lastValue h pid va := by
  induction n with
  | zero => rfl
  | succ n ih => exact ih

/-- A program of one page of code, with a heap from the page after it on. -/
def demoLayout : Layout where
  brk := 0x800000
  scode := 0x200000
  ecode := 0x400000
  sdata := 0x400000
  stackLo := userEnd - 0x400000
  stackHi := userEnd
  area _ := none
  brk_le := by decide
  stack_le := by decide
  area_le _ _ h := by cases h

/-- `init` has a page mapped on demand, writes a byte and forks. -/
def demoEvs : List Ev := [.tau, .map 1 0x400000, .write 1 0x400000 7, .fork 1 2]

/-- The machine in which `init` has written a byte to a page that its handler has mapped, and has
forked: both processes share the page. -/
theorem demo_shared : ∃ (m₀ : Mach) (s : Sys), m₀.Boot ∧
    Run MStep m₀ demoEvs ⟨s, fun _ ↦ .user⟩ ∧
    s.pfndbMax = 8 ∧ (s.db 3).type = .free ∧ s.live = {2, 1} ∧ s.zombie = ∅ ∧
    (∀ pid ∈ s.live, s.l1 pid 2 = l1eMkcow (mkl1e 1 protUserWr)) ∧
    (s.l1 2 (vpn vacow)).p = false := by
  let m₀ : Mach := ⟨demo, fun _ ↦ .user⟩
  let m₁ : Mach := m₀.goto 1 demo (.fault 0x400000 ⟨false, false, true⟩)
  let m₂ : Mach := m₁.goto 1 demoMapped .user
  let s₃ : Sys := demoMapped.poke 1 0 7
  let m₃ : Mach := m₂.goto 1 s₃ .user
  have hboot : m₀.Boot := ⟨demo_boot, fun _ ↦ rfl⟩
  have hat₀ : m₀.At 1 .user := ⟨⟨by decide, by decide⟩, rfl⟩
  have hat₁ : m₁.At 1 (.fault 0x400000 ⟨false, false, true⟩) := ⟨⟨by decide, by decide⟩, rfl⟩
  have hat₂ : m₂.At 1 .user := ⟨⟨by decide, by decide⟩, rfl⟩
  have hat₃ : m₃.At 1 .user := ⟨⟨by decide, by decide⟩, rfl⟩
  have hl : ∀ v, s₃.l1 1 v = if v = 2 then mkl1e 1 protUserWr else .zero := demoMapped_l1
  have hpf : pmapFault demo 1 0x400000 ⟨false, true, true⟩ =
      .ok (some ⟨false, false, true⟩, demo) := rfl
  have hfault : MStep m₀ .tau m₁ := .fault hat₀ (fun _ ↦ rfl) (fun _ ↦ rfl) hpf
  have hmap : MStep m₁ (.map 1 0x400000) m₂ := by
    have hrw : resolveVa demoLayout 0x400000 = .rw := by decide
    have hcall : pgfaulthandler (resolveVa demoLayout 0x400000) ⟨false, false, true⟩ = .vmmap := by
      rw [hrw]
      rfl
    have hexec : exec m₁.sys 1 (.map 0x400000 ((resolveVa demoLayout 0x400000).perm + mapNew) false
        ⟨1, 0, 0⟩) = .ok demoMapped := by
      rw [hrw]
      exact demo_map.1.1.2
    exact MStep.hndMap hat₁ hcall hexec
  have hwrite : MStep m₂ (.write 1 0x400000 7) m₃ := by
    have hal : (m₂.sys.l1 1 (vpn 0x400000)).allows true := by
      rw [show m₂.sys.l1 1 (vpn 0x400000) = _ from hl 2]
      rfl
    have h := MStep.write (c := 7) hat₂ (by decide) hal
    rwa [show m₂.sys.l1 1 (vpn 0x400000) = _ from hl 2] at h
  -- the fork
  have hne : (1 : Nat) ≠ s₃.nextpid := by decide
  have hshare : ∀ v ∈ cowVpns, s₃.Shareable (s₃.l1 1 v) := by
    intro v _ hp _
    rw [hl] at hp ⊢
    by_cases hv : v = 2
    · rw [if_pos hv]
      exact ⟨rfl, by decide, by decide⟩
    · rw [if_neg hv] at hp
      cases hp
  obtain ⟨s, hs⟩ : ∃ t, thfork s₃ 1 .null (fun _ ↦ ⟨2, 0, 0⟩) = .ok t :=
    thfork_total hne (by decide) hshare (by rw [hl]; rfl) ⟨by decide, by decide, by decide⟩
  have hf := thfork_forked hne hs
  have hexec : exec m₃.sys 1 (.fork .null fun _ ↦ ⟨2, 0, 0⟩) = .ok s := hs
  have hfork := MStep.fork hat₃ hexec
  have htwo : 2 ∈ cowVpns := by rw [mem_cowVpns]; omega
  have hhnd : m₃.goto 2 s .user = ⟨s, fun _ ↦ .user⟩ := by
    simp [m₃, m₂, m₁, m₀, Mach.goto]
  refine ⟨m₀, s, hboot, hhnd ▸ .cons hfault (.cons hmap (.cons hwrite (.cons hfork (.nil _)))),
    hf.pfndbMax, (hf.db 3 (by decide)).type, hf.live, hf.zombie, fun pid hpid ↦ ?_, ?_⟩
  · rw [hf.live, Finset.mem_insert] at hpid
    rcases hpid with rfl | hpid
    · exact (hf.child 2 htwo).trans (by rw [hl]; rfl)
    · obtain rfl := Finset.mem_singleton.1 hpid
      exact (hf.parent 2 htwo).trans (by rw [hl]; rfl)
  · rw [show s.l1 2 (vpn vacow) = _ from hf.child _ vacow_mem_cowVpns, hl]
    rfl

/-- Then its child takes `n` steps in the handler and writes, and both read. -/
def demoReads (n : Nat) (c₁ c₂ : UInt8) : List Ev :=
  demoEvs ++ (List.replicate n .tau ++
    [.write 2 0x400000 9, .read 1 0x400000 c₁, .read 2 0x400000 c₂])

theorem lastValue_demo (n : Nat) (c : UInt8) :
    lastValue (demoEvs ++ (List.replicate n Ev.tau ++ [Ev.write 2 0x400000 9])).reverse 1 0x400000 =
      some 7 ∧
    lastValue (demoEvs ++ (List.replicate n Ev.tau ++
      [Ev.write 2 0x400000 9, .read 1 0x400000 c])).reverse 2 0x400000 = some 9 := by
  constructor
  · simp [demoEvs, lastValue, lastValue_taus]
  · simp [demoEvs, lastValue]

/-- The child writes to the page that it shares with `init`: its handler copies the page, and each
process reads what it has written itself. -/
theorem fork_refines_private_demo : ∃ m m' : Mach, m.Boot ∧
    Run MStep m (demoReads (pageSize + 3) 7 9) m' ∧
    Run PStep (.boot m.sys.init) (demoReads (pageSize + 3) 7 9) m'.privateMem := by
  obtain ⟨m₀, s, hboot, hpre, hmax, hfree, hlive, hzombie, hcow, habs⟩ := demo_shared
  set m : Mach := ⟨s, fun _ ↦ .user⟩
  have hm : MInv m := hpre.invariant (fun _ _ _ hm hs ↦ (hm.step hs).1) hboot.minv
  have hone : 1 ∈ s.live := by rw [hlive]; decide
  have htwo : 2 ∈ s.live := by rw [hlive]; decide
  have hat : m.At 2 .user := ⟨⟨htwo, by rw [hzombie]; decide⟩, rfl⟩
  have hl : m.sys.l1 2 (vpn 0x400000) = l1eMkcow (mkl1e 1 protUserWr) := hcow 2 htwo
  have hrefs : 2 ≤ s.refs 1 := by
    have hv : 2 ∈ userVpns := by rw [mem_userVpns]; omega
    refine Sys.two_le_count (p := L1e.maps 1) hone hv htwo hv (.inl (by decide)) ?_ ?_ rfl
    · rw [hcow 1 hone]
      rfl
    · rw [hcow 2 htwo]
      rfl
  -- the child's handler
  have hva : isuaddr 0x400000 := by decide
  have hrw : resolveVa demoLayout 0x400000 ≠ .nil := by decide
  have hpage : m.sys.Free (Page.mk 3 0 0).pfn :=
    ⟨by decide, by rw [hmax]; decide, by rw [hfree]; rfl⟩
  obtain ⟨s', hcopy, hnew, hothers, hlive', hzombie'⟩ :=
    Mach.cow_resolved hm.inv hat hrw hva (by rw [hl]; rfl) (by rw [hl]; rfl)
      (by rw [hl, hmax]; decide) (by rw [hl]; exact hrefs) habs hpage
  generalize pageSize + 3 = n at hcopy ⊢
  set m₁ := m.goto 2 s' .user
  have hat₁ : m₁.At 2 .user := Mach.goto_at hat _ hlive' hzombie'
  have hentry : m₁.sys.l1 2 (vpn 0x400000) = mkl1e 3 protUserWr := hnew
  have hwrite := MStep.write (c := 9) hat₁ hva (by rw [hentry]; rfl)
  set m₂ := m₁.goto 2 _ .user
  -- the reads, of whatever the memory holds
  have hat₂ : m₂.At 2 .user := Mach.goto_at hat₁ _ rfl rfl
  have hother : m₂.At 1 .user :=
    ⟨⟨hlive' ▸ hone, by rw [show m₂.sys.zombie = _ from hzombie', hzombie]; decide⟩, rfl⟩
  have hshared : m₂.sys.l1 1 (vpn 0x400000) = l1eMkcow (mkl1e 1 protUserWr) :=
    (hothers 1 (by decide) 2).trans (hcow 1 hone)
  have hread₁ := MStep.read hother hva (by rw [hshared]; rfl)
  have hread₂ := MStep.read hat₂ hva (by rw [show m₂.sys.l1 2 _ = _ from hentry]; rfl)
  generalize m₂.sys.mem (m₂.sys.l1 1 (vpn 0x400000)).pfn (0x400000 % pageSize) = c₁ at hread₁
  generalize m₂.sys.mem (m₂.sys.l1 2 (vpn 0x400000)).pfn (0x400000 % pageSize) = c₂ at hread₂
  have hrun : Run MStep m₀ (demoReads n c₁ c₂) m₂ :=
    hpre.append (hcopy.append (.cons hwrite (.cons hread₁ (.cons hread₂ (.nil _)))))
  have hvalues := (fork_refines_private hboot hrun).2
  have h₁ := hvalues (demoEvs ++ (List.replicate n .tau ++ [.write 2 0x400000 9])) 1 0x400000 c₁
    [.read 2 0x400000 c₂] (by simp [demoReads])
  have h₂ := hvalues (demoEvs ++ (List.replicate n .tau ++
    [.write 2 0x400000 9, .read 1 0x400000 c₁])) 2 0x400000 c₂ [] (by simp [demoReads])
  rw [← Option.some.inj ((lastValue_demo n c₁).1.symm.trans h₁),
    ← Option.some.inj ((lastValue_demo n c₁).2.symm.trans h₂)] at hrun
  exact ⟨m₀, m₂, hboot, hrun, (fork_refines_private hboot hrun).1⟩

end Mh.Vm
