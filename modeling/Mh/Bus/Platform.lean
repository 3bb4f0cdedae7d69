import Mh.Bus.Still
import Mh.Bus.OpCall

/-!
# The descriptors of the platform device

`_pltdev_open` returns 0 for whichever entry it has marked, so that two descriptors share the
entry 0: the mappings and registrations of both are on its lists, and the first close gives
back those of the other.  In runs in which the device is opened only while it is not open
(`State.PlatformSafe`), what a descriptor holds is a ledger (`HInv`), and closing it gives back
exactly what was made through it (`platform_isolated`).
-/

namespace Mh.Bus

open Mh.Lib

/-- The ledgers, and the one descriptor of the platform device. -/
structure HInv (s : State) : Prop where
  res : RInv s
  plt : PltInv s

/-- A steady step. -/
theorem HInv.steady {s s' : State} (h : HInv s) (hs : Steady s s') : HInv s' :=
  ⟨h.res.steady hs, hs.toPltFrame.pltInv h.plt⟩

/-- A still step. -/
theorem HInv.still {s s' : State} (h : HInv s) (hs : Still s s') : HInv s' := h.steady hs.steady

variable {s s' : State} {t d : Nat} {k : Slot}

/-! ## Entries -/

/-- The loop of `_hwdev_close` and `_pltdev_close` over the mappings. -/
theorem foldl_iounmap (s : State) (cur : Nat) (maps : List Nat) :
    maps.foldl (fun s va ↦ s.iounmap cur va) s =
      { s with io := fun p ↦
        if p ∈ maps.map fun va ↦ (cur, vpn va) then none else s.io p } := by
  induction maps generalizing s with
  | nil => rfl
  | cons va maps ih =>
      rw [List.foldl_cons, ih]
      unfold State.iounmap
      congr 1
      funext p
      change (if _ then none else Function.update s.io (cur, vpn va) none p) = _
      rw [List.map_cons, Function.update_apply]
      by_cases hp : p = (cur, vpn va)
      · rw [if_pos hp, if_pos (List.mem_cons.2 (.inl hp))]
        split <;> rfl
      · rw [if_neg hp]
        refine if_congr ?_ rfl rfl
        rw [List.mem_cons, or_iff_right hp]

/-- The loop over the registrations. -/
theorem foldl_irqunregister (s : State) (sigs : List Nat) :
    sigs.foldl (fun s key ↦ s.irqunregister key) s =
      { s with irqsigs := fun irq ↦ (s.irqsigs irq).filter fun r ↦ r.key ∉ sigs } := by
  induction sigs generalizing s with
  | nil => simp
  | cons key sigs ih =>
      rw [List.foldl_cons, ih]
      unfold State.irqunregister
      congr 1
      funext irq
      rw [List.filter_filter]
      refine List.filter_congr fun r _ ↦ ?_
      rw [Bool.eq_iff_iff]
      simp [and_comm]

/-- What the driver finds for a descriptor of a hardware device. -/
theorem held_hw (hi : Inv s) (hk : k ∈ s.lists d) (hkind : (s.dev d).kind = .hw) :
    s.held k = (((s.hw d).remths (s.devs k).devid).hwmaps,
      ((s.hw d).remths (s.devs k).devid).hwsigs) := by
  obtain ⟨hplg, hd, -⟩ := hi.plugs.listed d k hk
  rw [State.held_of_plugged hplg hd, State.client, hkind]

/-- What it finds for the descriptor of the platform device. -/
theorem held_plt (hi : Inv s) (hp : PltInv s) (hk : k ∈ s.lists State.pltNo) :
    s.held k = ((s.platformRems (s.devs k).devid).pltmaps,
      (s.platformRems (s.devs k).devid).pltsigs) := by
  obtain ⟨hplg, hd, -⟩ := hi.plugs.listed _ k hk
  rw [State.held_of_plugged hplg hd, State.client, (hp.kind _).2 rfl]

/-- What the drivers find depends on the slots, the kinds of the devices and the entries. -/
theorem held_of_eq {k' : Slot} (hdevs : s'.devs = s.devs) (hdev : s'.dev = s.dev)
    (hhw : s'.hw = s.hw) (hrems : s'.platformRems = s.platformRems) :
    s'.held k' = s.held k' :=
  State.held_congr (by rw [hdevs]) fun d _ _ ↦
    State.client_congr (by rw [hdev]) (fun _ ↦ by rw [hhw]; exact ⟨rfl, rfl⟩)
      fun _ ↦ by rw [hrems]; exact ⟨rfl, rfl⟩

/-- The entry of a descriptor of a hardware device is the only one written. -/
theorem held_hwRem {e : HwRemth} {k' : Slot} {maps sigs : List Nat} (hi : Inv s)
    (hk : k ∈ s.lists d) (hkind : (s.dev d).kind = .hw) (hdevs : s'.devs = s.devs)
    (hdev : s'.dev = s.dev)
    (hhw : s'.hw = Function.update s.hw d ((s.hw d).setRem (s.devs k).devid e))
    (hrems : s'.platformRems = s.platformRems) (hm : e.hwmaps = maps) (hs : e.hwsigs = sigs) :
    s'.held k' = if k' = k then (maps, sigs) else s.held k' := by
  rw [held_of_eq (s := s.setHw d ((s.hw d).setRem (s.devs k).devid e)) hdevs hdev hhw hrems,
    held_setHwRem hi hk hkind, hm, hs]

/-- The entry of the descriptor of the platform device is the only one written. -/
theorem held_pltRem {e : PltRem} {k' : Slot} {maps sigs : List Nat} (hi : Inv s)
    (hp : PltInv s) (hk : k ∈ s.lists State.pltNo) (hdevs : s'.devs = s.devs)
    (hdev : s'.dev = s.dev) (hhw : s'.hw = s.hw)
    (hrems : s'.platformRems = Function.update s.platformRems (s.devs k).devid e)
    (hm : e.pltmaps = maps) (hs : e.pltsigs = sigs) :
    s'.held k' = if k' = k then (maps, sigs) else s.held k' := by
  rw [held_of_eq (s := s.setPlt (s.devs k).devid e) hdevs hdev hhw hrems,
    held_setPlt hi hp hk, hm, hs]

namespace PltInv

/-- The entry of the descriptor of the platform device is in use. -/
theorem inUse (hp : PltInv s) (hk : k ∈ s.lists State.pltNo) :
    (s.platformRems (s.devs k).devid).inUse = true :=
  (hp.use _).2 ⟨hp.id k hk, List.ne_nil_of_mem hk⟩

/-- Nothing of the platform device is written. -/
theorem of_eq (hp : PltInv s) (hdevs : s'.devs = s.devs) (hdev : s'.dev = s.dev)
    (hndev : s'.ndev = s.ndev) (hrems : s'.platformRems = s.platformRems) : PltInv s' := by
  refine PltFrame.pltInv (s := s) ⟨?_, fun _ _ ↦ by rw [hdevs], fun _ ↦ by rw [hdev], hndev.ge,
    fun _ ↦ by rw [hrems], fun _ _ ↦ by rw [hrems]⟩ hp
  rw [State.lists, State.lists, hdev]

/-- The entry of its descriptor is written and stays in use. -/
theorem rem {e : PltRem} (hp : PltInv s) (hk : k ∈ s.lists State.pltNo)
    (hdevs : s'.devs = s.devs) (hdev : s'.dev = s.dev) (hndev : s'.ndev = s.ndev)
    (hrems : s'.platformRems = Function.update s.platformRems (s.devs k).devid e)
    (he : e.inUse = true) : PltInv s' := by
  refine of_eq (s := s.setPlt (s.devs k).devid e) ?_ hdevs hdev hndev hrems
  refine PltFrame.pltInv (s := s) ⟨rfl, fun _ _ ↦ rfl, fun _ ↦ Iff.rfl, le_rfl, fun i ↦ ?_,
    fun i hfree ↦ ?_⟩ hp
  · rcases eq_or_ne i (s.devs k).devid with rfl | hne
    · rw [State.setPlt_self, he, hp.inUse hk]
    · rw [State.setPlt_of_ne hne]
  · rw [State.setPlt_of_ne]
    rintro rfl
    rw [hp.inUse hk] at hfree
    cases hfree

end PltInv

/-! ## Requests -/

/-- `iomap` fails, or maps a page that was not mapped. -/
theorem iomap_cases (s : State) (k : Slot) (va pfn : Nat) (pg : Page) :
    ((s.iomap k va pfn pg).1 < 0 ∧ (s.iomap k va pfn pg).2 = s) ∨
    ((s.iomap k va pfn pg).1 = 0 ∧ s.io (k.1, vpn va) = none ∧ (s.iomap k va pfn pg).2 =
      { s with io := Function.update s.io (k.1, vpn va) (some ⟨pfn, k⟩) }) := by
  unfold State.iomap
  split
  · exact .inl ⟨show Errno.EINVAL.neg < 0 by decide, rfl⟩
  · split
    · exact .inl ⟨show Errno.EBUSY.neg < 0 by decide, rfl⟩
    · next h =>
      refine .inr ⟨rfl, ?_, rfl⟩
      rw [Bool.or_eq_true, not_or] at h
      simpa using h.2

theorem iomap_of_neg {va pfn : Nat} {pg : Page} (h : (s.iomap k va pfn pg).1 < 0) :
    (s.iomap k va pfn pg).2 = s := by
  rcases iomap_cases s k va pfn pg with ⟨_, he⟩ | ⟨hz, _, _⟩
  · exact he
  · exact absurd (hz ▸ h) (lt_irrefl 0)

theorem iomap_of_nonneg {va pfn : Nat} {pg : Page} (h : ¬(s.iomap k va pfn pg).1 < 0) :
    s.io (k.1, vpn va) = none ∧ (s.iomap k va pfn pg).2 =
      { s with io := Function.update s.io (k.1, vpn va) (some ⟨pfn, k⟩) } := by
  rcases iomap_cases s k va pfn pg with ⟨hneg, _⟩ | ⟨_, hio⟩
  · exact absurd hneg h
  · exact hio

namespace HInv

/-- What `OP_CALL` reaches in a hardware device. -/
theorem hwdevOp {q : Req} {x : Except Panic Res} (h : HInv s) (hi : Inv s) (hk : k ∈ s.lists d)
    (hkind : (s.dev d).kind = .hw) (hx : s.hwdevOp k d (s.devs k).devid q = some x) :
    Ends (fun r ↦ HInv r.state) Panic.Any x := by
  have hheld := held_hw hi hk hkind
  refine Ends.of_map (Q := HInv) ?_
  generalize hu : x.map Res.state = u
  cases hu ▸ State.hwdevOp_effect hx with
  | same => exact h
  | hwdmas l => exact h.still (Still.setHwRem (by rfl) (by rfl))
  | failed hneg =>
      rw [iomap_of_neg hneg]
      exact h
  | iomap hs' hneg =>
      obtain ⟨hnone, he⟩ := iomap_of_nonneg hneg
      subst hs'
      rw [he]
      refine ⟨h.res.map (k := k) hnone (fun k' ↦ ?_) rfl rfl rfl,
        h.plt.of_eq rfl rfl rfl rfl⟩
      rw [hheld]
      exact held_hwRem hi hk hkind rfl rfl rfl rfl rfl rfl
  | iounmap hva =>
      refine ⟨h.res.unmap (k := k) (by rw [hheld]; exact hva) (fun k' ↦ ?_) rfl rfl
        rfl, h.plt.of_eq rfl rfl rfl rfl⟩
      rw [hheld]
      exact held_hwRem hi hk hkind rfl rfl rfl rfl rfl rfl
  | closed => trivial
  | irqmap hseg hs₁ =>
      unfold State.irqregister at hs₁
      split at hs₁
      · obtain rfl := Option.some.inj hs₁
        refine ⟨h.res.register (k := k) (fun k' ↦ ?_) rfl rfl rfl,
          h.plt.of_eq rfl rfl rfl rfl⟩
        rw [hheld]
        exact held_hwRem hi hk hkind rfl rfl rfl rfl rfl rfl
      · cases hs₁
  | eoi heoi =>
      rw [← heoi]
      unfold State.irqeoi
      split
      · exact h.still (Still.mark (f := fun r ↦ { r with eoi := false }) fun _ ↦ ⟨rfl, rfl⟩)
      · trivial

/-- What `OP_CALL` reaches in the platform device. -/
theorem pltdevOp {q : Req} {x : Except Panic Res} (h : HInv s) (hi : Inv s)
    (hk : k ∈ s.lists State.pltNo) (hx : s.pltdevOp k (s.devs k).devid q = some x) :
    Ends (fun r ↦ HInv r.state) Panic.Any x := by
  have hheld := held_plt hi h.plt hk
  refine Ends.of_map (Q := HInv) ?_
  generalize hu : x.map Res.state = u
  cases hu ▸ State.pltdevOp_effect hx with
  | same => exact h
  | failed hneg =>
      rw [iomap_of_neg hneg]
      exact h
  | iomap hs' hneg =>
      obtain ⟨hnone, he⟩ := iomap_of_nonneg hneg
      subst hs'
      rw [he]
      refine ⟨h.res.map (k := k) hnone (fun k' ↦ ?_) rfl rfl rfl,
        h.plt.rem hk rfl rfl rfl rfl (h.plt.inUse hk)⟩
      rw [hheld]
      exact held_pltRem hi h.plt hk rfl rfl rfl rfl rfl rfl
  | iounmap hva =>
      refine ⟨h.res.unmap (k := k) (by rw [hheld]; exact hva) (fun k' ↦ ?_) rfl rfl
        rfl, h.plt.rem hk rfl rfl rfl rfl (h.plt.inUse hk)⟩
      rw [hheld]
      exact held_pltRem hi h.plt hk rfl rfl rfl rfl rfl rfl
  | closed => trivial
  | irqmap hs₁ =>
      unfold State.irqregister at hs₁
      split at hs₁
      · obtain rfl := Option.some.inj hs₁
        refine ⟨h.res.register (k := k) (fun k' ↦ ?_) rfl rfl rfl,
          h.plt.rem hk rfl rfl rfl rfl (h.plt.inUse hk)⟩
        rw [hheld]
        exact held_pltRem hi h.plt hk rfl rfl rfl rfl rfl rfl
      · cases hs₁

/-- `OP_CALL`. -/
theorem opCall {dd : Nat} {q : Req} {ret : Int} {val : Option Nat} (h : HInv s) (hi : Inv s)
    (ho : s.opCall t dd q = .ok (ret, val, s')) : HInv s' := by
  obtain ⟨g, hg, ho⟩ := bind_eq_ok.1 ho
  cases g with
  | inl ret =>
      cases ho
      exact h
  | inr d =>
      dsimp only at ho
      split at ho
      · cases ho
        exact h
      · next x hx =>
        obtain ⟨res, hres, ho⟩ := bind_eq_ok.1 ho
        cases ho
        have hmem := hi.mem_of_getDev hg
        unfold State.op at hx
        split at hx
        · exact h.still ((Still.usrdevOp hx).of_ok hres)
        · next hk => exact (h.hwdevOp hi hmem hk hx).of_ok hres
        · next hk =>
          rw [h.plt.kind] at hk
          subst hk
          exact (h.pltdevOp hi hmem hx).of_ok hres
        · exact h.still ((Still.sysdevOp hx).of_ok hres)
        · exact h.still ((Still.klogdevOp hx).of_ok hres)

end HInv

/-! ## Slots -/

namespace PltInv

/-- A device that is not the platform device has another number. -/
theorem ne_pltNo (hp : PltInv s) (hk : (s.dev d).kind ≠ .plt) : d ≠ State.pltNo :=
  fun he ↦ hk ((hp.kind d).2 he)

/-- A slot that is not plugged is not on the list of the platform device. -/
theorem not_mem_of_unplugged (hi : Inv s) (hk : (s.devs k).plg = false) :
    k ∉ s.lists State.pltNo := by
  intro hmem
  rw [(hi.plugs.listed _ k hmem).1] at hk
  cases hk

end PltInv

/-- A list of another device changes, and a slot that the platform device does not have. -/
theorem PltFrame.relist {l : List Slot} {b : Bdeve} (hd : d ≠ State.pltNo)
    (hk : k ∉ s.lists State.pltNo) :
    PltFrame s ((s.setDev d { s.dev d with busdevs := l }).setSlot k b) where
  list := by
    change (s.setDev d { s.dev d with busdevs := l }).lists State.pltNo = _
    rw [Inv.lists_setDev, Function.update_of_ne hd.symm]
  devid k' hk' := by
    rw [State.setSlot_of_ne]
    · rfl
    · rintro rfl
      exact hk hk'
  kind d' := by
    change ((s.setDev d { s.dev d with busdevs := l }).dev d').kind = .plt ↔ _
    rw [(Inv.dev_setDev s d l d').2.2]
  ndev := le_rfl
  use _ := rfl
  clear _ _ := rfl

/-- The list of a device that a descriptor is plugged into. -/
theorem lists_plug {i : Nat} : (s.plug k d i).lists = Function.update s.lists d (k :: s.lists d) :=
  Inv.lists_setDev s d _

@[inherit_doc lists_plug]
theorem lists_unplug {l : List Slot} {b : Bdeve} :
    ((s.setDev d { s.dev d with busdevs := l }).setSlot k b).lists =
      Function.update s.lists d l :=
  Inv.lists_setDev s d l

/-- A descriptor is plugged, with an entry that is empty. -/
theorem Steady.plug {i : Nat} (hk : (s.devs k).plg = false) (hmem : k ∉ s.lists State.pltNo)
    (hd : d ≠ State.pltNo) (hc : s.client d i = ([], [])) : Steady s (s.plug k d i) where
  toPltFrame := .relist hd hmem
  held k' := by
    rw [State.held_plug]
    split
    · next he =>
      subst he
      rw [hc, State.held_of_unplugged hk]
    · rfl
  io := rfl
  reg _ _ := Iff.rfl
  nsig := rfl

/-- A descriptor that holds nothing is unplugged. -/
theorem Steady.unplug {l : List Slot} {b : Bdeve} (hmem : k ∉ s.lists State.pltNo)
    (hd : d ≠ State.pltNo) (hheld : s.held k = ([], [])) (hb : b.plg = false) :
    Steady s ((s.setDev d { s.dev d with busdevs := l }).setSlot k b) where
  toPltFrame := .relist hd hmem
  held k' := by
    rw [State.held_unplug hb]
    split
    · next he => rw [he, hheld]
    · rfl
  io := rfl
  reg _ _ := Iff.rfl
  nsig := rfl

/-- A slot that holds nothing is marked. -/
theorem Steady.setSlot {b : Bdeve} (hmem : k ∉ s.lists State.pltNo)
    (hheld : s.held k = ([], [])) (hb : b.plg = false) : Steady s (s.setSlot k b) where
  list := rfl
  devid k' hk' := by
    rw [State.setSlot_of_ne]
    rintro rfl
    exact hmem hk'
  kind _ := Iff.rfl
  ndev := le_rfl
  use _ := rfl
  clear _ _ := rfl
  held k' := by
    rcases eq_or_ne k' k with rfl | hne
    · rw [hheld, State.held_of_unplugged]
      rw [State.setSlot_self, hb]
    · exact State.held_congr (State.setSlot_of_ne hne) fun _ _ _ ↦
        State.client_congr rfl (fun _ ↦ ⟨rfl, rfl⟩) fun _ ↦ ⟨rfl, rfl⟩
  io := rfl
  reg _ _ := Iff.rfl
  nsig := rfl

/-- An entry that no descriptor has is cleared. -/
theorem Steady.setHwFree {i : Nat} {e : HwRemth} (hi : Inv s) (hkind : (s.dev d).kind = .hw)
    (hfree : ((s.hw d).remths i).use = false) :
    Steady s (s.setHw d ((s.hw d).setRem i e)) where
  list := rfl
  devid _ _ := rfl
  kind _ := Iff.rfl
  ndev := le_rfl
  use _ := rfl
  clear _ _ := rfl
  held k' := by
    refine State.held_congr rfl fun d' hplg hd' ↦ State.client_congr rfl (fun _ ↦ ?_)
      fun _ ↦ ⟨rfl, rfl⟩
    rcases eq_or_ne d' d with rfl | hd
    · have hbusy := hi.plugs.busy d' k' (hi.mem_lists hplg hd') (.inr hkind)
      rw [State.inUse_hw hkind] at hbusy
      rw [State.setHw_self, Hwdev.setRem_of_ne]
      · exact ⟨rfl, rfl⟩
      · intro he
        rw [he, hfree] at hbusy
        cases hbusy
    · rw [State.setHw_of_ne hd]
      exact ⟨rfl, rfl⟩
  io := rfl
  reg _ _ := Iff.rfl
  nsig := rfl

namespace HInv

/-! ## Opening -/

/-- `bus_plug` of a device other than the platform device. -/
theorem opOpen_plug {devid : Int} (h : HInv s) (hi : Inv s)
    (hplt : (s.dev d).kind ≠ .plt) (hk : (s.devs k).plg = false)
    (ho : s.opOpen t d = .ok (devid, s')) :
    HInv s' ∧ (0 ≤ devid → HInv (s'.plug k d devid.toNat)) := by
  have hd := h.plt.ne_pltNo hplt
  have hmem := PltInv.not_mem_of_unplugged hi hk
  by_cases hhw : (s.dev d).kind = .hw
  · unfold State.opOpen at ho
    rw [hhw] at ho
    have ho := Except.ok.inj ho
    unfold State.hwdevOpen at ho
    split at ho
    · obtain ⟨rfl, rfl⟩ := Prod.mk.inj ho
      exact ⟨h, fun hpos ↦ absurd hpos (show ¬ 0 ≤ Errno.ENFILE.neg by decide)⟩
    · next j hj =>
      obtain ⟨rfl, rfl⟩ := Prod.mk.inj ho
      have h₁ := h.steady (.setHwFree (e := ⟨true, [], [], []⟩) hi hhw (Hwdev.freeRem_spec hj).1)
      refine ⟨h₁, fun _ ↦ h₁.steady (.plug hk hmem hd ?_)⟩
      rw [State.client, show ((s.setHw d _).dev d).kind = .hw from hhw]
      simp
  · have hst : Still s s' := (Still.opOpen hhw hplt).of_ok ho
    have h₁ := h.steady hst.steady
    refine ⟨h₁, fun _ ↦ h₁.steady (.plug (by rwa [hst.devs]) ?_ hd ?_)⟩
    · rwa [hst.steady.list]
    · rw [hst.client]
      exact State.client_other hhw hplt

/-- `bus_plug` of the platform device, which is not open. -/
theorem pltdevOpen_plug (h : HInv s) (hi : Inv s) (hempty : s.lists State.pltNo = [])
    (hk : (s.devs k).plg = false) :
    s.pltdevOpen.1 = 0 ∧ HInv (s.pltdevOpen.2.plug k State.pltNo 0) := by
  have hfree : ∀ i, (s.platformRems i).inUse = false := by
    intro i
    rw [Bool.eq_false_iff]
    exact fun hi ↦ ((h.plt.use i).1 hi).2 hempty
  have hfind : (List.range maxPltSigs).find? (fun i ↦ !(s.platformRems i).inUse) = some 0 := by
    refine List.find?_eq_some_iff_append.2
      ⟨?_, [], (List.range (maxPltSigs - 1)).map (· + 1), ?_, ?_⟩
    · rw [hfree]
      rfl
    · rw [List.nil_append, ← List.range_succ_eq_map]
      rfl
    · simp
  have hopen : s.pltdevOpen = (0, s.setPlt 0 ⟨true, [], []⟩) := by
    unfold State.pltdevOpen
    rw [hfind]
    simp only [h.plt.clear 0 (hfree 0)]
  rw [hopen]
  have hlist : ((s.setPlt 0 ⟨true, [], []⟩).plug k State.pltNo 0).lists State.pltNo = [k] := by
    rw [lists_plug, Function.update_self]
    change k :: s.lists State.pltNo = _
    rw [hempty]
  have hkind : ((s.setPlt 0 ⟨true, [], []⟩).dev State.pltNo).kind = .plt := (h.plt.kind _).2 rfl
  refine ⟨rfl, h.res.congr (fun k' ↦ ?_) rfl (fun _ _ ↦ Iff.rfl) rfl, ?_⟩
  · rw [State.held_plug]
    split
    · next he =>
      subst he
      rw [State.held_of_unplugged hk, State.client, hkind]
      simp only [State.setPlt_self]
    · refine State.held_congr rfl fun d' hplg hd' ↦ State.client_congr rfl (fun _ ↦ ⟨rfl, rfl⟩)
        fun hkd ↦ ?_
      obtain rfl := (h.plt.kind d').1 hkd
      have hmem := hi.mem_lists hplg hd'
      rw [hempty] at hmem
      cases hmem
  · refine ⟨fun d' ↦ ?_, h.plt.born, ?_, ?_, fun i ↦ ?_, fun i hi' ↦ ?_⟩
    · change (((s.setPlt 0 ⟨true, [], []⟩).setDev State.pltNo _).dev d').kind = .plt ↔ _
      rw [(Inv.dev_setDev _ State.pltNo _ d').2.2]
      exact h.plt.kind d'
    · rw [hlist]
      rintro k₁ hk₁ k₂ hk₂
      rw [List.mem_singleton.1 hk₁, List.mem_singleton.1 hk₂]
    · rw [hlist]
      rintro k₁ hk₁
      rw [List.mem_singleton.1 hk₁]
      unfold State.plug
      rw [State.setSlot_self]
    · rw [hlist]
      change (Function.update s.platformRems 0 ⟨true, [], []⟩ i).inUse = true ↔ _
      rw [Function.update_apply]
      split
      · next he => simp [he]
      · next hne => simp [hfree, hne]
    · change (Function.update s.platformRems 0 ⟨true, [], []⟩ i).inUse = false at hi'
      change Function.update s.platformRems 0 ⟨true, [], []⟩ i = _
      rw [Function.update_apply] at hi' ⊢
      split at hi'
      · cases hi'
      · next hne =>
        rw [if_neg hne]
        exact h.plt.clear i hi'

/-- `bus_plug`. -/
theorem busPlug {did : Nat} {r : Int} (h : HInv s) (hi : Inv s)
    (hsafe : s.tree did = some State.pltNo → (s.freeSlot t).isSome →
      s.getperm t (s.dev State.pltNo).uid (s.dev State.pltNo).gid (s.dev State.pltNo).mode = 1 →
      s.lists State.pltNo = [])
    (hp : s.busPlug t did = .ok (r, s')) : HInv s' := by
  rcases State.busPlug_cases hp with ⟨-, rfl⟩ | ⟨d, i, devid, s₁, hd, hfree, -, hperm, ho, hret⟩
  · exact h
  · have hslot := List.find?_some hfree
    rw [Bool.and_eq_true, Option.isNone_iff_eq_none] at hslot
    have hk := hi.plg_of_none hslot.2
    by_cases hkind : (s.dev d).kind = .plt
    · obtain rfl := (h.plt.kind d).1 hkind
      have hempty := hsafe hd (by rw [hfree]; rfl) hperm
      obtain ⟨hz, hplug⟩ := h.pltdevOpen_plug hi hempty hk
      unfold State.opOpen at ho
      rw [hkind] at ho
      rw [Except.ok.inj ho] at hz hplug
      change devid = 0 at hz
      rcases hret with ⟨hneg, -⟩ | ⟨-, -, rfl⟩
      · rw [hz] at hneg
        exact absurd hneg (lt_irrefl 0)
      · rw [hz]
        exact hplug
    · obtain ⟨h₁, hplug⟩ := h.opOpen_plug hi hkind hk ho
      rcases hret with ⟨-, -, rfl⟩ | ⟨hpos, -, rfl⟩
      · exact h₁
      · exact hplug hpos

/-- `bus_copy`: only user devices have clones. -/
theorem busCopy {desc nth : Nat} {r : Int} (h : HInv s) (hi : Inv s)
    (hp : s.busCopy t desc nth = .ok (r, s')) : HInv s' := by
  rcases State.busCopy_cases hp with rfl | ⟨d, devid, s₁, -, hdst, -, -, -, hkind, hc, hret⟩
  · exact h
  · have hst : Still s s₁ := Still.usrdevClone.of_ok hc
    have h₁ := h.steady hst.steady
    rcases hret with ⟨-, rfl⟩ | ⟨-, rfl⟩
    · exact h₁
    · refine h₁.steady (.plug (by rw [hst.devs]; exact hdst) ?_ ?_ ?_)
      · rw [hst.steady.list]
        exact PltInv.not_mem_of_unplugged hi hdst
      · exact h.plt.ne_pltNo (by rw [hkind]; decide)
      · rw [hst.client]
        exact State.client_other (by rw [hkind]; decide) (by rw [hkind]; decide)

/-! ## Closing -/

/-- What `_hwdev_close` and `_pltdev_close` leave of the mappings and registrations: those of
the descriptor go. -/
structure Cleared (s s' : State) (k : Slot) : Prop where
  io : ∀ p, s'.io p = if p ∈ s.pages k then none else s.io p
  reg : ∀ irq, s'.irqsigs irq = (s.irqsigs irq).filter fun r ↦ r.key ∉ s.keys k
  nsig : s'.nsig = s.nsig

/-- A descriptor that is cleared and unplugged. -/
theorem unplug {l : List Slot} {b : Bdeve} {s₁ : State} (h : HInv s) (hc : Cleared s s₁ k)
    (hheld : ∀ k' ≠ k, s₁.held k' = s.held k') (hb : b.plg = false)
    (hp : PltInv ((s₁.setDev d { s₁.dev d with busdevs := l }).setSlot k b)) :
    HInv ((s₁.setDev d { s₁.dev d with busdevs := l }).setSlot k b) := by
  refine ⟨h.res.clear (k := k) (fun k' ↦ ?_) hc.io hc.reg hc.nsig, hp⟩
  rw [State.held_unplug hb]
  split
  · rfl
  · next hne => exact hheld k' hne

/-- `_hwdev_close` of a descriptor. -/
theorem hwdevClose {s₁ : State} (hi : Inv s) (hk : k ∈ s.lists d)
    (hkind : (s.dev d).kind = .hw) (hc : s.hwdevClose k.1 d (s.devs k).devid = .ok s₁) :
    Cleared s s₁ k ∧ (∀ k' ≠ k, s₁.held k' = s.held k') ∧ PltFrame s s₁ := by
  have hheld := held_hw hi hk hkind
  unfold State.hwdevClose at hc
  dsimp only at hc
  split at hc
  · cases hc
  · rw [foldl_irqunregister, foldl_iounmap] at hc
    obtain rfl := Except.ok.inj hc
    refine ⟨⟨fun p ↦ ?_, fun irq ↦ ?_, rfl⟩, fun k' hne ↦ ?_, rfl, fun _ _ ↦ rfl,
      fun _ ↦ Iff.rfl, le_rfl, fun _ ↦ rfl, fun _ _ ↦ rfl⟩
    · rw [State.pages, hheld]
      rfl
    · rw [State.keys, hheld]
      rfl
    · refine (held_hwRem (e := .zero) hi hk hkind ?_ ?_ ?_ ?_ rfl rfl).trans (if_neg hne) <;> rfl

/-- `_pltdev_close` of the descriptor of the platform device. -/
theorem pltdevClose {s₁ : State} (h : HInv s) (hi : Inv s) (hk : k ∈ s.lists State.pltNo)
    (hc : s.pltdevClose k.1 (s.devs k).devid = .ok s₁) :
    Cleared s s₁ k ∧ (∀ k' ≠ k, s₁.held k' = s.held k') ∧ s₁.dev = s.dev ∧ s₁.ndev = s.ndev ∧
      s₁.platformRems = Function.update s.platformRems 0 ⟨false, [], []⟩ := by
  have hheld := held_plt hi h.plt hk
  unfold State.pltdevClose at hc
  dsimp only at hc
  split at hc
  · cases hc
  · rw [foldl_irqunregister, foldl_iounmap] at hc
    obtain rfl := Except.ok.inj hc
    refine ⟨⟨fun p ↦ ?_, fun irq ↦ ?_, rfl⟩, fun k' hne ↦ ?_, rfl, rfl, ?_⟩
    · rw [State.pages, hheld]
      rfl
    · rw [State.keys, hheld]
      rfl
    · refine (held_pltRem (e := ⟨false, [], []⟩) hi h.plt hk ?_ ?_ ?_ ?_ rfl rfl).trans
        (if_neg hne) <;> rfl
    · rw [← h.plt.id k hk]
      rfl

/-- Closing a descriptor and clearing its slot. -/
theorem opClose_unplug {s₁ : State} (h : HInv s) (hi : Inv s) (hk : k ∈ s.lists d)
    (hc : s.opClose k.1 d (s.devs k).devid = .ok s₁) :
    HInv ((s₁.setDev d { s₁.dev d with busdevs := (s₁.dev d).busdevs.erase k }).setSlot k .zero) ∧
      ((s.dev d).kind = .plt → Cleared s s₁ k) := by
  by_cases hplt : (s.dev d).kind = .plt
  · obtain rfl := (h.plt.kind d).1 hplt
    unfold State.opClose at hc
    rw [hplt] at hc
    obtain ⟨hcl, hheld, hdev, hndev, hrems⟩ := h.pltdevClose hi hk hc
    refine ⟨h.unplug hcl hheld rfl ?_, fun _ ↦ hcl⟩
    have hnil : (s₁.dev State.pltNo).busdevs.erase k = [] := by
      rw [hdev]
      change (s.lists State.pltNo).erase k = []
      refine List.eq_nil_iff_forall_not_mem.2 fun k' hk' ↦ ?_
      have hmem := (hi.plugs.nodup State.pltNo).mem_erase_iff.1 hk'
      exact hmem.1 (h.plt.one k' hmem.2 k hk)
    have hlist : ((s₁.setDev State.pltNo { s₁.dev State.pltNo with
        busdevs := (s₁.dev State.pltNo).busdevs.erase k }).setSlot k .zero).lists State.pltNo =
        [] := by
      rw [lists_unplug, Function.update_self, hnil]
    have hone : ∀ i, (Function.update s.platformRems 0 ⟨false, [], []⟩ i) = ⟨false, [], []⟩ := by
      intro i
      rw [Function.update_apply]
      split
      · rfl
      · next hne =>
        refine h.plt.clear i (Bool.eq_false_iff.2 fun hu ↦ hne ((h.plt.use i).1 hu).1)
    refine ⟨fun d' ↦ ?_, ?_, ?_, ?_, fun i ↦ ?_, fun i _ ↦ ?_⟩
    · change ((s₁.setDev State.pltNo { s₁.dev State.pltNo with
        busdevs := (s₁.dev State.pltNo).busdevs.erase k }).dev d').kind = .plt ↔ _
      rw [(Inv.dev_setDev _ State.pltNo _ d').2.2, hdev]
      exact h.plt.kind d'
    · change State.pltNo < s₁.ndev
      rw [hndev]
      exact h.plt.born
    · rw [hlist]
      rintro k' hk'
      cases hk'
    · rw [hlist]
      rintro k' hk'
      cases hk'
    · rw [hlist]
      change (s₁.platformRems i).inUse = true ↔ _
      rw [hrems, hone]
      simp
    · change s₁.platformRems i = _
      rw [hrems, hone]
  · refine ⟨?_, fun he ↦ absurd he hplt⟩
    have hd := h.plt.ne_pltNo hplt
    have hmem : k ∉ s.lists State.pltNo := fun hk' ↦ hd (hi.plugs.unique hk' hk)
    by_cases hhw : (s.dev d).kind = .hw
    · unfold State.opClose at hc
      rw [hhw] at hc
      obtain ⟨hcl, hheld, hf⟩ := hwdevClose hi hk hhw hc
      refine h.unplug hcl hheld rfl ((hf.trans (.relist hd ?_)).pltInv h.plt)
      rwa [hf.list]
    · have hst : Still s s₁ := (Still.opClose hhw hplt).of_ok hc
      obtain ⟨hplg, hdk, -⟩ := hi.plugs.listed d k hk
      refine (h.steady hst.steady).steady (.unplug ?_ hd ?_ rfl)
      · rwa [hst.steady.list]
      · rw [hst.steady.held, State.held_of_plugged hplg hdk, State.client_other hhw hplt]

/-- `bus_unplug`. -/
theorem busUnplug {desc : Nat} {r : Int} (h : HInv s) (hi : Inv s)
    (hp : s.busUnplug t desc = .ok (r, s')) : HInv s' := by
  rcases State.busUnplug_cases hp with
    ⟨-, rfl⟩ | ⟨hplg | ⟨d, hplg, hd, hoff⟩, rfl⟩ | ⟨d, s₁, hplg, hd, hc, rfl⟩
  · exact h
  · exact h.steady (.setSlot (PltInv.not_mem_of_unplugged hi hplg)
      (State.held_of_unplugged hplg) hplg)
  · rw [(hi.online (hi.mem_lists hplg hd)).1] at hoff
    cases hoff
  · exact (h.opClose_unplug hi (hi.mem_lists hplg hd) hc).1

/-! ## Devices and threads -/

/-- A new device, of another kind. -/
theorem create {v : Dev} (h : HInv s) (hi : Inv s) (hv : v.kind ≠ .plt)
    (hdevs : s'.devs = s.devs) (hdev : s'.dev = Function.update s.dev s.ndev v)
    (hndev : s'.ndev = s.ndev + 1) (hhw : ∀ d ≠ s.ndev, s'.hw d = s.hw d)
    (hrems : s'.platformRems = s.platformRems) (hio : s'.io = s.io)
    (hirq : s'.irqsigs = s.irqsigs) (hnsig : s'.nsig = s.nsig) : HInv s' := by
  have hne := h.plt.born.ne
  refine h.steady ⟨⟨?_, fun _ _ ↦ by rw [hdevs], fun d ↦ ?_, ?_, fun _ ↦ by rw [hrems],
    fun _ _ ↦ by rw [hrems]⟩, fun k ↦ ?_, hio, fun _ _ ↦ ?_, hnsig⟩
  · rw [State.lists, State.lists, hdev, Function.update_of_ne hne]
  · rw [hdev, Function.update_apply]
    split
    · next he =>
      rw [he, h.plt.kind]
      exact iff_of_false hv hne.symm
    · rfl
  · rw [hndev]
    exact Nat.le_succ _
  · refine State.held_congr (by rw [hdevs]) fun d hplg hd ↦ ?_
    have hlt := (hi.tree _ d (hi.attached d k (hi.mem_lists hplg hd))).1
    refine State.client_congr ?_ (fun _ ↦ ?_) fun _ ↦ by rw [hrems]; exact ⟨rfl, rfl⟩
    · rw [hdev, Function.update_of_ne hlt.ne]
    · rw [hhw d hlt.ne]
      exact ⟨rfl, rfl⟩
  · rw [State.Registered, State.Registered, hirq]

/-- `devcreat`. -/
theorem devcreat (h : HInv s) (hi : Inv s) (nameid : Nat) (cfg : UsrdevCfg) (sig mode : Nat) :
    HInv (s.devcreat t nameid cfg sig mode).2 := by
  obtain heq | ⟨i, s₂, -, -, ha, heq⟩ := s.devcreat_cases t nameid cfg sig mode
  · rw [heq]
    exact h
  · rw [heq]
    obtain ⟨-, rfl⟩ := State.devAttach_ok ha
    exact h.create hi (v := ⟨nameid, false, _, _, mode, .usr, []⟩) Kind.noConfusion rfl
      rfl rfl
      (fun _ _ ↦ rfl) rfl rfl rfl rfl

/-- `sys_hwcreat`. -/
theorem sysHwcreat (h : HInv s) (hi : Inv s) (nameid : Nat) (cfg : HwdevCfg) (mode : Nat) :
    HInv (s.sysHwcreat t nameid cfg mode).2 := by
  obtain heq | ⟨s₁, ha, heq⟩ := s.sysHwcreat_cases t nameid cfg mode
  · rw [heq]
    exact h
  · rw [heq]
    obtain ⟨-, rfl⟩ := State.devAttach_ok ha
    exact h.create hi (v := ⟨nameid, false, _, _, mode, .hw, []⟩) Kind.noConfusion rfl
      rfl rfl
      (fun d hd ↦ State.setHw_of_ne hd) rfl rfl rfl rfl

/-- The second loop of `dev_detach`, for a user device. -/
theorem detachLoop {s : State} {L : List Slot} (hkind : (s.dev d).kind = .usr)
    (hL : ∀ k ∈ L, k ∉ s.lists State.pltNo ∧ s.held k = ([], []))
    (hf : L.foldlM (fun s k ↦ s.detachSlot t d k) s = .ok s') : Steady s s' := by
  induction L generalizing s with
  | nil =>
      cases hf
      exact .refl _
  | cons k L ih =>
      rw [List.foldlM_cons, bind_eq_ok] at hf
      obtain ⟨s₁, hk, hf⟩ := hf
      obtain ⟨s₂, hc, hret⟩ := bind_eq_ok.1 hk
      cases hret
      have hst : Still s s₂ :=
        (Still.opClose (by rw [hkind]; decide) (by rw [hkind]; decide)).of_ok hc
      have h₁ :
          Steady s (s₂.setSlot k { s₂.devs k with plg := false, dev := none, devid := 0 }) := by
        refine hst.steady.trans (.setSlot ?_ ?_ rfl)
        · rw [hst.steady.list]
          exact (hL k List.mem_cons_self).1
        · rw [hst.steady.held]
          exact (hL k List.mem_cons_self).2
      refine h₁.trans (ih ?_ (fun k' hk' ↦ ?_) hf)
      · change (s₂.dev d).kind = .usr
        rw [hst.dev, hkind]
      · rw [h₁.list, h₁.held]
        exact hL k' (List.mem_cons_of_mem _ hk')

/-- `dev_detach` of a user device. -/
theorem devDetach {s : State} (hp : PltInv s) (hkind : (s.dev d).kind = .usr)
    (hL : ∀ k ∈ s.lists d, k ∉ s.lists State.pltNo ∧ s.held k = ([], []))
    (hc : s.devDetach t d = .ok s') : Steady s s' := by
  have hd := hp.ne_pltNo (d := d) (by rw [hkind]; decide)
  unfold State.devDetach at hc
  dsimp only at hc
  have hdev : ∀ {v : Dev}, v.kind = (s.dev d).kind → ∀ d',
      (Function.update s.dev d v d').kind = (s.dev d').kind := by
    intro v hv d'
    rw [Function.update_apply]
    split
    · next he => rw [he, hv]
    · rfl
  have h₀ : Steady s (({ s with tree := Function.update s.tree (s.dev d).did none } : State).setDev
      d { s.dev d with offline := true, busdevs := [] }) := by
    refine ⟨⟨?_, fun _ _ ↦ rfl, fun d' ↦ ?_, le_rfl, fun _ ↦ rfl, fun _ _ ↦ rfl⟩, fun k ↦ ?_, rfl,
      fun _ _ ↦ Iff.rfl, rfl⟩
    · change (Function.update s.dev d _ State.pltNo).busdevs = _
      rw [Function.update_of_ne hd.symm]
      rfl
    · change (Function.update s.dev d _ d').kind = .plt ↔ _
      rw [hdev (by rfl)]
    · exact State.held_congr rfl fun d' _ _ ↦
        State.client_congr (hdev (by rfl) d') (fun _ ↦ ⟨rfl, rfl⟩) fun _ ↦ ⟨rfl, rfl⟩
  refine h₀.trans (detachLoop ?_ (fun k hk ↦ ?_) hc)
  · change (Function.update s.dev d _ d).kind = .usr
    rw [hdev (by rfl), hkind]
  · rw [h₀.list, h₀.held]
    exact hL k (List.mem_reverse.1 hk)

/-- `devremove`. -/
theorem devremove {did : Nat} (h : HInv s) (hi : Inv s) (hr : s.devremove t did = .ok s') :
    HInv s' := by
  unfold State.devremove at hr
  split at hr
  · cases hr
    exact h
  · next d hd =>
    obtain ⟨s₁, hdes, hr⟩ := bind_eq_ok.1 hr
    cases hr
    obtain ⟨s₂, hdet, hret⟩ := bind_eq_ok.1 hdes
    cases hret
    have hkind := (hi.owned _ d hd).1
    have h₁ : HInv (s.setUsr d { s.usr d with detaching := true }) :=
      h.still (Still.setUsr ..)
    have h₂ : HInv s₂ := by
      refine h₁.steady (devDetach h₁.plt hkind (fun k hk ↦ ⟨fun hk' ↦ ?_, ?_⟩) hdet)
      · exact h.plt.ne_pltNo (by rw [hkind]; decide) (hi.plugs.unique hk' hk)
      · obtain ⟨hplg, hdk, -⟩ := hi.plugs.listed d k hk
        rw [State.held_of_plugged (s := s.setUsr d _) hplg hdk]
        exact State.client_other (by change (s.dev d).kind ≠ _; rw [hkind]; decide)
          (by change (s.dev d).kind ≠ _; rw [hkind]; decide)
    exact h₂.still (.of_eq rfl rfl rfl rfl rfl rfl rfl rfl)

/-- `thfork`. -/
theorem thfork (h : HInv s) (hi : Inv s) (hf : s.thfork t = .ok s') : HInv s' := by
  have hnew : HInv (s.newThread t) := by
    have hzero : ∀ k, (s.devs k).plg → (s.newThread t).devs k = s.devs k := by
      intro k hk
      refine if_neg fun he ↦ ?_
      have hlive := hi.live_of_plg hk
      rw [he, hi.born _ le_rfl] at hlive
      cases hlive
    refine h.steady ⟨⟨rfl, fun k hk ↦ ?_, fun _ ↦ Iff.rfl, le_rfl, fun _ ↦ rfl, fun _ _ ↦ rfl⟩,
      fun k ↦ ?_, rfl, fun _ _ ↦ Iff.rfl, rfl⟩
    · rw [hzero k (hi.plugs.listed _ k hk).1]
    · by_cases hk : (s.devs k).plg
      · exact State.held_congr (hzero k hk) fun _ _ _ ↦
          State.client_congr rfl (fun _ ↦ ⟨rfl, rfl⟩) fun _ ↦ ⟨rfl, rfl⟩
      · rw [State.held_of_unplugged (Bool.eq_false_iff.2 hk), State.held_of_unplugged]
        change (if k.1 = s.next then Bdeve.zero else s.devs k).plg = false
        split
        · rfl
        · exact Bool.eq_false_iff.2 hk
  refine (foldlM_invariant (I := fun s' ↦ HInv s' ∧ Inv s' ∧ s'.life s.next = .live) ?_ hf
    ⟨hnew, hi.newThread, Function.update_self ..⟩).1
  rintro s₁ desc s₂ - ⟨h₁, hi₁, hl₁⟩ hc
  obtain ⟨⟨r, s₃⟩, hcopy, hr⟩ := bind_eq_ok.1 hc
  cases hr
  obtain ⟨hi₂, hl₂⟩ := hi₁.busCopy hl₁ hcopy
  exact ⟨h₁.busCopy hi₁ hcopy, hi₂, by rw [hl₂, hl₁]⟩

/-- `__exit`: when the bus has been removed, no mapping of the thread is left. -/
theorem exit (h : HInv s) (hi : Inv s) (he : s.exit t = .ok s') : HInv s' := by
  unfold State.exit at he
  split at he
  · cases he
  · obtain ⟨s₁, hr, he⟩ := bind_eq_ok.1 he
    obtain ⟨s₂, hd, he⟩ := bind_eq_ok.1 he
    obtain ⟨hi₁, -, hplg₁⟩ := hi.busRemove hr
    have h₁ : HInv s₁ := by
      refine (foldlM_invariant (I := fun s ↦ HInv s ∧ Inv s) ?_ hr ⟨h, hi⟩).1
      rintro s₃ desc s₄ - ⟨h₃, hi₃⟩ hu
      obtain ⟨⟨r, s₅⟩, hunp, hret⟩ := bind_eq_ok.1 hu
      cases hret
      exact ⟨h₃.busUnplug hi₃ hunp, (hi₃.busUnplug hunp).1⟩
    have h₂ : HInv s₂ :=
      (foldlM_invariant (I := fun s ↦ HInv s ∧ Inv s) (fun s₃ did s₄ _ hs hr ↦
        ⟨hs.1.devremove hs.2 hr, (hs.2.devremove hr).1⟩) hd ⟨h₁, hi₁⟩).1
    have hplg₂ := (hi₁.devremoves hd).2.2
    have hnone : (fun p : Nat × Nat ↦ if p.1 = t then none else s₂.io p) = s₂.io := by
      funext p
      split
      · next hp =>
        symm
        rw [Option.eq_none_iff_forall_ne_some]
        intro e hpe
        have hmem := (h₂.res.pages.mem p e.via).1 (by rw [State.Mapped, hpe]; rfl)
        obtain ⟨va, hva, rfl⟩ := List.mem_map.1 hmem
        have hk : (s₂.devs e.via).plg := by
          by_contra hk
          rw [State.held_of_unplugged (Bool.eq_false_iff.2 hk)] at hva
          cases hva
        exact hplg₁ _ (hplg₂ _ hk) hp
      · rfl
    refine HInv.still ?_ ((Still.refl _).thraise.of_ok he)
    exact h₂.still (.of_eq rfl rfl rfl rfl rfl hnone rfl rfl)

/-! ## Steps and runs -/

end HInv

namespace State

variable (s : State)

/-- The label does not open the platform device while it is open. -/
def PlatformSafe : Label → Prop
  | .call t (.openDev did) => s.tree did = some pltNo → (s.freeSlot t).isSome →
    s.getperm t (s.dev pltNo).uid (s.dev pltNo).gid (s.dev pltNo).mode = 1 → s.lists pltNo = []
  | _ => True

end State

namespace HInv

/-- A call that meets the condition. -/
theorem sysCall {c : Call} (h : HInv s) (hi : Inv s) (ha : s.PlatformSafe (.call t c))
    (hc : s.sysCall t c = .ok s') : HInv s' := by
  cases c with
  | raise | setuid | seteuid | setgid | setegid | wriospace | irq | xcopy =>
      refine h.still ((Still.sysCall ?_).of_ok hc)
      trivial
  | fork => exact h.thfork hi hc
  | die => exact h.exit hi hc
  | childstat =>
      cases hc
      unfold State.childstat
      split
      · exact h
      · exact h.still (.of_eq rfl rfl rfl rfl rfl rfl rfl rfl)
  | creat nameid cfg sig mode =>
      cases hc
      exact h.devcreat hi nameid cfg sig mode
  | poll did =>
      obtain ⟨out, hp, hr⟩ := bind_eq_ok.1 hc
      cases hr
      exact h.still (Still.devpoll.of_ok hp)
  | hwcreat nameid cfg mode =>
      cases hc
      exact h.sysHwcreat hi nameid cfg mode
  | openDev did =>
      obtain ⟨⟨r, s₁⟩, hp, hr⟩ := bind_eq_ok.1 hc
      cases hr
      exact h.busPlug hi ha hp
  | closeDev dd =>
      obtain ⟨⟨r, s₁⟩, hp, hr⟩ := bind_eq_ok.1 hc
      cases hr
      exact h.busUnplug hi hp
  | inDev | rdcfg | exportDev | req =>
      refine (State.sysCall_keeps (P := fun s ↦ HInv s ∧ Inv s) (Q := fun _ ↦ True)
        (fun _ _ _ _ _ _ _ h ho ↦ ⟨h.1.opCall h.2 ho, h.2.opCall ho⟩) ?_ ⟨h, hi⟩ hc).1
      simp [Call.Makes]

/-- A step that meets the condition. -/
theorem step {a : Label} (h : HInv s) (hi : Inv s) (ha : s.PlatformSafe a) (hs : Step s a s') :
    HInv s' := by
  obtain ⟨-, hs⟩ := hs
  cases a with
  | call t c => exact h.sysCall hi ha hs
  | zombie c =>
      change s.doZombie c = .ok s' at hs
      unfold State.doZombie at hs
      split at hs
      · cases hs
      · refine HInv.still ?_ ((Still.refl _).thraise.of_ok hs)
        exact h.still (.of_eq rfl rfl rfl rfl rfl rfl rfl rfl)
  | irq irq level => exact h.still (Still.irqsignal.of_ok hs)
  | timer t vtt => exact h.still ((Still.events s _ _).1.of_ok hs)
  | putc => exact h.still ((Still.events s 0 0).2.of_ok hs)

/-- At the start nothing is open, mapped or registered. -/
theorem boot (plt sys klog : Nat) : HInv (State.boot plt sys klog) := by
  refine ⟨⟨.empty (fun _ ↦ rfl) fun p k hk ↦ ?_, .empty (fun _ ↦ rfl) fun key k hk ↦ ?_,
    fun key k hk ↦ ?_⟩, fun d ↦ ?_, show 0 < 3 by decide, ?_, ?_, fun i ↦ ?_, fun i _ ↦ rfl⟩
  · cases hk
  · obtain ⟨irq, r, hr, -⟩ := hk
    cases hr
  · obtain ⟨irq, r, hr, -⟩ := hk
    cases hr
  · match d with
    | 0 => exact iff_of_true rfl rfl
    | 1 | 2 | _ + 3 => exact iff_of_false Kind.noConfusion (Nat.succ_ne_zero _)
  · rintro k hk
    cases hk
  · rintro k hk
    cases hk
  · exact iff_of_false Bool.noConfusion fun hi ↦ hi.2 rfl

end HInv

/-! ## The descriptors of the platform device -/

/-- The bus finds the platform device for its descriptor. -/
theorem busGetDev_plt {dd : Nat} (hi : Inv s) (hk : (t, dd) ∈ s.lists State.pltNo) :
    s.busGetDev t dd = .ok (.inr State.pltNo) := by
  obtain ⟨hplg, hdev, -⟩ := hi.plugs.listed _ _ hk
  unfold State.busGetDev
  rw [if_neg (Nat.not_le_of_lt (hi.descs _ _ hk))]
  simp only [hplg, hdev, (hi.online hk).1]
  rfl

/-- Closing the descriptor of the platform device does not fail. -/
theorem busUnplug_plt {dd : Nat} (hp : PltInv s) (hi : Inv s)
    (hk : (t, dd) ∈ s.lists State.pltNo) :
    ∃ s₁, s.opClose t State.pltNo (s.devs (t, dd)).devid = .ok s₁ ∧ s.busUnplug t dd =
      .ok (0, (s₁.setDev State.pltNo { s₁.dev State.pltNo with
        busdevs := (s₁.dev State.pltNo).busdevs.erase (t, dd) }).setSlot (t, dd) .zero) := by
  obtain ⟨hplg, hdev, -⟩ := hi.plugs.listed _ _ hk
  have hc : ∃ s₁, s.opClose t State.pltNo (s.devs (t, dd)).devid = .ok s₁ := by
    unfold State.opClose State.pltdevClose
    simp only [(hp.kind State.pltNo).2 rfl, hp.inUse hk]
    exact ⟨_, rfl⟩
  obtain ⟨s₁, hc⟩ := hc
  refine ⟨s₁, hc, ?_⟩
  unfold State.busUnplug
  rw [if_neg (Nat.not_le_of_lt (hi.descs _ _ hk))]
  simp only [hplg, hdev, (hi.online hk).1, hc]
  rfl

/-- A system call does not fail where its request does not. -/
theorem sysReq_ok {dd : Nat} {q : Req} {out : Int × Option Nat × State}
    (ho : s.opCall t dd q = .ok out) : ∃ out, s.sysReq t dd q = .ok out := by
  unfold State.sysReq
  split
  · exact ⟨_, rfl⟩
  · rw [ho]
    exact ⟨_, rfl⟩

/-- Unmapping through the descriptor of the platform device does not fail. -/
theorem opCall_iounmap_plt {dd : Nat} (hp : PltInv s) (hi : Inv s)
    (hk : (t, dd) ∈ s.lists State.pltNo) (va : Nat) :
    ∃ out, s.opCall t dd (.iounmap va) = .ok out := by
  have hx : ∃ res, s.opOf t dd State.pltNo (.iounmap va) = some (.ok res) := by
    unfold State.opOf State.op
    rw [(hp.kind State.pltNo).2 rfl]
    change ∃ res, some (s.pltdevIounmap (t, dd) (s.devs (t, dd)).devid va) = some (.ok res)
    unfold State.pltdevIounmap
    simp only [hp.inUse hk, Bool.not_true, Bool.false_eq_true, if_false]
    split
    · exact ⟨_, rfl⟩
    · exact ⟨_, rfl⟩
  obtain ⟨res, hx⟩ := hx
  exact ⟨_, State.opCall_of_ok (busGetDev_plt hi hk) hx⟩

/-- A step that does not open the platform device while it is open. -/
def PlatformStep (s : State) (a : Label) (s' : State) : Prop := s.PlatformSafe a ∧ Step s a s'

/-- In every run in which the platform device is opened only while it is not open: two
descriptors of it do not have the same id; closing a descriptor of it drops exactly the
mappings and registrations that were made through this descriptor; and neither closing it nor
unmapping through it fails an assertion. -/
theorem platform_isolated {plt sys klog : Nat} {as : List Label} {s : State}
    (h : Run PlatformStep (State.boot plt sys klog) as s) :
    (∀ k k', s.On k State.pltNo → s.On k' State.pltNo →
      (s.devs k).devid = (s.devs k').devid → k = k') ∧
    ∀ t dd, s.On (t, dd) State.pltNo →
      (∀ s', s.exec (.call t (.closeDev dd)) = .ok s' →
        (∀ p, s'.io p = if (s.io p).map Iomap.via = some (t, dd) then none else s.io p) ∧
        ∀ irq, s'.irqsigs irq = (s.irqsigs irq).filter fun r ↦ r.via ≠ (t, dd)) ∧
      s.exec (.call t (.closeDev dd)) ≠ .error .closed ∧
      ∀ va, s.exec (.call t (.req dd (.iounmap va))) ≠ .error .closed := by
  obtain ⟨hh, hi⟩ := Run.invariant (I := fun s ↦ HInv s ∧ Inv s)
    (fun _ _ _ hi hs ↦ ⟨hi.1.step hi.2 hs.1 hs.2, hi.2.step hs.2⟩) h
    ⟨.boot plt sys klog, .boot plt sys klog⟩
  refine ⟨fun k k' hk hk' _ ↦ hh.plt.one k hk.1 k' hk'.1, fun t dd hk ↦ ?_⟩
  obtain ⟨s₁, hc, hun⟩ := busUnplug_plt hh.plt hi hk.1
  have hexec : s.exec (.call t (.closeDev dd)) = .ok _ := bind_eq_ok.2 ⟨_, hun, rfl⟩
  refine ⟨fun s' hs' ↦ ?_, ?_, fun va ↦ ?_⟩
  · rw [hexec] at hs'
    cases hs'
    have hcl := (hh.opClose_unplug hi hk.1 hc).2 ((hh.plt.kind _).2 rfl)
    exact hh.res.clear_exact hcl.io hcl.reg
  · rw [hexec]
    rintro ⟨⟩
  · obtain ⟨out, ho⟩ := sysReq_ok (opCall_iounmap_plt hh.plt hi hk.1 va).choose_spec
    have hexec : s.exec (.call t (.req dd (.iounmap va))) = .ok _ := bind_eq_ok.2 ⟨_, ho, rfl⟩
    rw [hexec]
    rintro ⟨⟩

set_option maxRecDepth 8000 in
/-- `init` opens the platform device and registers for line 5: closing the descriptor leaves
nothing on the line. -/
theorem platform_isolated_irqmap : ∃ s s', Run PlatformStep (State.boot 1 2 3)
      [.call 1 (.openDev 1), .call 1 (.req 0 (.irqmap 5 3))] s ∧
    s.exec (.call 1 (.closeDev 0)) = .ok s' ∧ s.irqsigs 5 = [⟨0, 1, 3, false, (1, 0)⟩] ∧
    s'.irqsigs 5 = (s.irqsigs 5).filter fun r ↦ r.via ≠ (1, 0) := by
  have h : Run PlatformStep (State.boot 1 2 3)
      [.call 1 (.openDev 1), .call 1 (.req 0 (.irqmap 5 3))] _ :=
    .cons ⟨fun _ _ _ ↦ rfl, rfl, rfl⟩ (.cons ⟨trivial, rfl, rfl⟩ (.nil _))
  have hi : Inv _ := Inv.run (h.mono fun _ _ _ hs ↦ hs.2)
  refine ⟨_, _, h, rfl, rfl, (((platform_isolated h).2 1 0 ⟨?_, fun d hd ↦ ?_⟩).1 _ rfl).2 5⟩
  · exact List.mem_cons_self
  · exact hi.plugs.unique (d := 0) List.mem_cons_self hd

set_option maxRecDepth 8000 in
/-- `init` and its child open the platform device, and get the same id.  The child registers
for line 5 and maps a page; when `init` closes its descriptor, the registration of the child
is gone, and when the child closes its own, the assertion fails. -/
theorem platform_shared : ∃ s s', Run Step (State.boot 1 2 3)
      [.call 1 .fork, .call 2 (.openDev 1), .call 1 (.openDev 1),
        .call 2 (.req 0 (.irqmap 5 3)), .call 2 (.req 0 (.iomap 0x200000 0 ⟨true, true, false⟩))]
      s ∧
    (s.dev State.pltNo).busdevs = [(1, 0), (2, 0)] ∧
    (s.devs (1, 0)).devid = (s.devs (2, 0)).devid ∧
    s.irqsigs 5 = [⟨0, 2, 3, false, (2, 0)⟩] ∧
    s.exec (.call 1 (.closeDev 0)) = .ok s' ∧ s'.irqsigs 5 = [] ∧
    s'.exec (.call 2 (.closeDev 0)) = .error .closed := by
  have h : Run Step (State.boot 1 2 3)
      [.call 1 .fork, .call 2 (.openDev 1), .call 1 (.openDev 1),
        .call 2 (.req 0 (.irqmap 5 3)),
        .call 2 (.req 0 (.iomap 0x200000 0 ⟨true, true, false⟩))] _ :=
    .cons ⟨rfl, rfl⟩ (.cons ⟨rfl, rfl⟩ (.cons ⟨rfl, rfl⟩ (.cons ⟨rfl, rfl⟩
      (.cons ⟨rfl, rfl⟩ (.nil _)))))
  exact ⟨_, _, h, rfl, rfl, rfl, rfl, rfl, rfl⟩

end Mh.Bus
