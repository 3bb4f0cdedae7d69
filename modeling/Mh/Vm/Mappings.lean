import Mh.Bus.Mmio
import Mh.Vm.Wiring

/-!
# I/O mappings and their records

The I/O mappings of `hwdev.c`, over the address spaces of all threads: `_hwdev_iomap` files a record
for each on the `hwmaps` list of the client, `_hwdev_iounmap` ends the one of an address, and
`_hwdev_close` those of the client.  The machine is that of the exports, with the devices that the
threads have open.  A descriptor stands for the client that its device has for it: no two share one
(`Bus.buses_ok`).  A hardware device has no `clone`, so the descriptors of a new thread are closed.

The mappings of the platform device are on lists of its own and are left out.
-/

namespace Mh.Vm

open Mh.Lib Mh.Bus

/-- The address spaces and the exports, with the devices that each thread has open and the records
of their I/O mappings, by descriptor. -/
structure Clients extends Dma where
  /-- the configuration of the device, if the descriptor is plugged -/
  devs : Nat → Nat → Option HwdevCfg
  /-- `hd->remths[id].hwmaps` -/
  hwmaps : Nat → Nat → List Nat

namespace Clients

/-- Replace the list of a descriptor. -/
def setHwmaps (m : Clients) (cur d : Nat) (l : List Nat) : Clients :=
  { m with hwmaps := setCell m.hwmaps cur d l }

/-- Plug or unplug a descriptor. -/
def setDev (m : Clients) (cur d : Nat) (cfg : Option HwdevCfg) : Clients :=
  { m with devs := setCell m.devs cur d cfg }

/-- `_hwdev_open` of a device with the configuration `cfg`, for the descriptor that `bus_plug` has
found free: it empties the lists of the client. -/
def hwdevOpen (m : Clients) (cur d : Nat) (cfg : HwdevCfg) : Clients :=
  ({ m with toDma := m.toDma.setHwdmas cur d [] }.setHwmaps cur d []).setDev cur d (some cfg)

/-- `_hwdev_iomap`. -/
def hwdevIomap (m : Clients) (cur d va mmioaddr : Nat) (cfg : HwdevCfg) :
    Except Stop (Int × Clients) := do
  let (ret, vm) ← liftPanic (hwdevMap cfg m.vm cur va mmioaddr protUserWr)
  let m := { m with vm := vm }
  if ret < 0 then
    return (ret, m)
  return (0, m.setHwmaps cur d (va :: m.hwmaps cur d))

/-- A record taken off its list, and the mapping ended. -/
def hwmapRelease (cur d : Nat) (m : Clients) (va : Nat) : Except Stop Clients := do
  let m := m.setHwmaps cur d ((m.hwmaps cur d).erase va)
  let (_, vm) ← liftPanic (Vm.iounmap m.vm cur va)
  return { m with vm := vm }

/-- `_hwdev_iounmap`. -/
def hwdevIounmap (m : Clients) (cur d va : Nat) : Except Stop (Int × Clients) :=
  if va ∈ m.hwmaps cur d then do return (0, ← hwmapRelease cur d m va)
  else return (Errno.ENOENT.neg, m)

/-- `bus_unplug`, with `_hwdev_close`, as far as the mappings and the exports of the client. -/
def hwdevClose (cur : Nat) (m : Clients) (d : Nat) : Except Stop Clients :=
  if (m.devs cur d).isSome then do
    let m ← (m.hwmaps cur d).foldlM (hwmapRelease cur d) m
    let dma ← Vm.hwdevClose cur m.toDma d
    return { m with toDma := dma }.setDev cur d none
  else return m

/-- `bus_remove`. -/
def busRemove (m : Clients) (cur : Nat) : Except Stop Clients :=
  (List.range maxBusDevs).foldlM (hwdevClose cur) m

end Clients

/-! ## The steps -/

/-- What a running thread can do to its address space and its hardware devices. -/
inductive ClientOp
  /-- an operation on the address spaces that is not one of the drivers -/
  | vm (op : Op)
  /-- `SYS_OPEN` of a hardware device; any free descriptor may be the first one -/
  | openDev (d : Nat) (cfg : HwdevCfg)
  /-- `SYS_IOMAP` -/
  | iomap (d va mmioaddr : Nat)
  /-- `SYS_IOUNMAP` -/
  | iounmap (d va : Nat)
  /-- `SYS_EXPORT` -/
  | exportPage (d va sz : Nat)
  /-- `SYS_UNEXPORT` -/
  | unexport (d va : Nat)
  /-- `SYS_CLOSE` -/
  | close (d : Nat)

/-- Perform an operation for the thread `cur`.  A descriptor that is not plugged is refused. -/
def Clients.exec (m : Clients) (cur : Nat) : ClientOp → Except Stop Clients
  | .vm op => do
      let m ← if op.kills then m.busRemove cur else pure m
      return { m with vm := ← liftPanic (Vm.exec m.vm cur op) }
  | .openDev d cfg =>
      if d < maxBusDevs && (m.devs cur d).isNone then return m.hwdevOpen cur d cfg else return m
  | .iomap d va mmioaddr =>
      match m.devs cur d with
      | some cfg =>
          if chkuaddr (truncPage va) pageSize then do
            return (← m.hwdevIomap cur d va mmioaddr cfg).2
          else return m
      | none => return m
  | .iounmap d va =>
      if chkuaddr (truncPage va) pageSize && (m.devs cur d).isSome then do
        return (← m.hwdevIounmap cur d va).2
      else return m
  | .exportPage d va sz =>
      if (m.devs cur d).isSome then do
        return { m with toDma := ← m.toDma.exec cur (.exportPage d va sz) }
      else return m
  | .unexport d va =>
      if (m.devs cur d).isSome then do
        return { m with toDma := ← m.toDma.exec cur (.unexport d va) }
      else return m
  | .close d => Clients.hwdevClose cur m d

/-- One step: a running thread performs an operation, and the kernel does not stop. -/
def ClientStep (m : Clients) (a : Nat × ClientOp) (m' : Clients) : Prop :=
  m.vm.Running a.1 ∧ (∀ op, a.2 = .vm op → op.driven = false) ∧ m.exec a.1 a.2 = .ok m'

/-- At boot no device is open. -/
structure ClientBoot (m : Clients) : Prop where
  dma : DmaBoot m.toDma
  devs : ∀ pid d, m.devs pid d = none
  hwmaps : ∀ pid d, m.hwmaps pid d = []

/-- The records of a thread for addresses in a page, on all its descriptors. -/
def Clients.mapped (m : Clients) (pid v : Nat) : Nat :=
  shelved (Finset.range maxBusDevs) (m.hwmaps pid) (vpn · == v)

/-- The operation ends the I/O mapping of its thread at the page `v`. -/
def Clients.Ends (m : Clients) (v : Nat) : Nat × ClientOp → Prop
  | (_, .vm op) => op.kills
  | (cur, .iounmap d va) => va ∈ m.hwmaps cur d ∧ vpn va = v
  | (cur, .close d) => ∃ va ∈ m.hwmaps cur d, vpn va = v
  | _ => False

end Mh.Vm

/-!
## I/O mappings and marks

The invariant that ties the entries marked as I/O mappings to the records of the hardware devices,
`Clients.Matched`.  The records are on one list for each descriptor, the marks in the page tables;
so it counts, for each page, the records on all the descriptors of a thread.  Mapping a page and
ending a mapping keep it, and so does whatever leaves the marks alone.
-/

namespace Mh.Vm

open Mh.Lib Mh.Bus

variable {m m' : Clients} {s s' t : Sys} {cur d va pfn pid v : Nat} {gone gone' : Nat → Prop}

/-- The operations of a driver and of the others leave the I/O mappings alone, whatever they do to
wire counts. -/
abbrev CalmIo (s s' : Sys) : Prop := Calm .iomap (fun _ _ ↦ True) s s'

/-- From `s` to `s'` the I/O mappings stay as they are, but for those of the thread `cur` in `gone`,
and memory for I/O stays that. -/
structure IoKept (cur : Nat) (gone : Nat → Prop) (s s' : Sys) : Prop where
  entry : ∀ pid ∈ s.live, ∀ v ∈ userVpns, l1eIomap (s.l1 pid v) → ¬(pid = cur ∧ gone v) →
    pid ∈ s'.live ∧ s'.l1 pid v = s.l1 pid v
  mmio : ∀ q, (s.db q).type = .mmio → (s'.db q).type = .mmio

namespace IoKept

protected theorem refl (s : Sys) : IoKept cur gone s s where
  entry _ hpid _ _ _ _ := ⟨hpid, rfl⟩
  mmio _ hm := hm

protected theorem trans (h : IoKept cur gone s t) (h' : IoKept cur gone t s') :
    IoKept cur gone s s' where
  entry pid hpid v hv hi hg := by
    obtain ⟨hpid₁, h₁⟩ := h.entry pid hpid v hv hi hg
    obtain ⟨hpid₂, h₂⟩ := h'.entry pid hpid₁ v hv (by rwa [h₁]) hg
    exact ⟨hpid₂, h₂.trans h₁⟩
  mmio q hm := h'.mmio q (h.mmio q hm)

theorem mono (h : IoKept cur gone s s') (hg : ∀ v, gone v → gone' v) : IoKept cur gone' s s' where
  entry pid hpid v hv hi hn := h.entry pid hpid v hv hi fun hc ↦ hn ⟨hc.1, hg v hc.2⟩
  mmio := h.mmio

/-- Where nothing is marked or unmarked. -/
theorem of_unmoved {N : Nat → Nat → Prop} (h : Unmoved .iomap N s s') : IoKept cur gone s s' where
  entry pid hpid v hv hi _ := ⟨h.live hpid, h.kept pid hpid v hv hi⟩
  mmio := h.mmio

/-- Where one entry is written that is not an I/O mapping, or is one of `gone`. -/
theorem put {e : L1e} (h : l1eIomap (s.l1 cur v) → gone v) : IoKept cur gone s (s.put cur v e) where
  entry pid hpid w _ hi hg := by
    refine ⟨hpid, ?_⟩
    rw [Sys.put, Sys.l1_setL1e, Sys.l1_setFlush, if_neg]
    rintro ⟨rfl, rfl⟩
    exact hg ⟨rfl, h hi⟩
  mmio _ hm := hm

end IoKept

/-! ## The invariant -/

/-- I/O mappings and records agree. -/
structure Clients.Matched (m : Clients) : Prop where
  entry : ∀ pid ∈ m.vm.live, ∀ v ∈ userVpns, m.mapped pid v = (l1eIomap (m.vm.l1 pid v)).toNat
  mmio : ∀ pid ∈ m.vm.live, ∀ v ∈ userVpns, l1eIomap (m.vm.l1 pid v) →
    (m.vm.db (m.vm.l1 pid v).pfn).type = .mmio
  uaddr : ∀ pid d, ∀ va ∈ m.hwmaps pid d, isuaddr va
  /-- a descriptor that is closed has no records -/
  shut : ∀ pid d, m.devs pid d = none → m.hwmaps pid d = []
  descs : ∀ pid d, (m.devs pid d).isSome → d < maxBusDevs
  /-- a thread that does not run has no open descriptors -/
  idle : ∀ pid, pid ∉ m.vm.live ∨ pid ∈ m.vm.zombie → ∀ d, m.devs pid d = none
  pids : ∀ pid ∈ m.vm.live, pid < m.vm.nextpid
  zombies : m.vm.zombie ⊆ m.vm.live

namespace Clients

@[simp] theorem setHwmaps_vm (m : Clients) (cur d : Nat) (l : List Nat) :
    (m.setHwmaps cur d l).vm = m.vm := rfl

@[simp] theorem setHwmaps_hwmaps (m : Clients) (cur d : Nat) (l : List Nat) :
    (m.setHwmaps cur d l).hwmaps = setCell m.hwmaps cur d l := rfl

theorem setHwmaps_eq_self {l : List Nat} (h : m.hwmaps cur d = l) : m.setHwmaps cur d l = m := by
  rw [setHwmaps, setCell_eq_self h]

@[simp] theorem setDev_devs (m : Clients) (cur d : Nat) (cfg : Option HwdevCfg) :
    (m.setDev cur d cfg).devs = setCell m.devs cur d cfg := rfl

theorem mapped_setHwmaps_of_ne {l : List Nat} (h : pid ≠ cur) :
    (m.setHwmaps cur d l).mapped pid v = m.mapped pid v := by
  rw [mapped, setHwmaps_hwmaps, setCell_of_ne h, mapped]

theorem mapped_cons (hd : d < maxBusDevs) :
    (m.setHwmaps cur d (va :: m.hwmaps cur d)).mapped cur v =
      m.mapped cur v + (vpn va == v).toNat := by
  rw [mapped, setHwmaps_hwmaps, setCell_self]
  exact shelved_cons (Finset.mem_range.2 hd)

theorem mapped_erase (hd : d < maxBusDevs) (hva : va ∈ m.hwmaps cur d) :
    (m.setHwmaps cur d ((m.hwmaps cur d).erase va)).mapped cur v + (vpn va == v).toNat =
      m.mapped cur v := by
  rw [mapped, setHwmaps_hwmaps, setCell_self]
  exact shelved_erase (p := fun va ↦ vpn va == v) (Finset.mem_range.2 hd) hva

namespace Matched

/-- It holds at boot. -/
theorem boot (h : ClientBoot m) : m.Matched := by
  have hlive : ∀ pid ∈ m.vm.live, pid = m.vm.init := fun pid hpid ↦ by
    rwa [h.dma.vm.live, Finset.mem_singleton] at hpid
  refine ⟨fun pid hpid v _ ↦ ?_, fun pid hpid v _ hi ↦ ?_, fun pid d va hva ↦ ?_,
    fun pid d _ ↦ h.hwmaps pid d, fun pid d hd ↦ ?_, fun pid _ d ↦ h.devs pid d,
    fun pid hpid ↦ ?_, ?_⟩
  · rw [hlive pid hpid, h.dma.vm.blank]
    exact shelved_eq_zero fun d _ ↦ h.hwmaps _ d
  · rw [hlive pid hpid, h.dma.vm.blank] at hi
    cases hi
  · rw [h.hwmaps] at hva
    cases hva
  · rw [h.devs] at hd
    cases hd
  · rw [hlive pid hpid]
    exact h.dma.vm.pid
  · rw [h.dma.vm.zombie]
    exact Finset.empty_subset _

/-- A thread without open descriptors has no records. -/
theorem mapped_eq_zero (h : m.Matched) (hpid : ∀ d, m.devs pid d = none) (v : Nat) :
    m.mapped pid v = 0 :=
  shelved_eq_zero fun d _ ↦ h.shut pid d (hpid d)

/-- Nor has it I/O mappings. -/
theorem not_iomap (h : m.Matched) (hlive : pid ∈ m.vm.live) (hpid : ∀ d, m.devs pid d = none)
    (hv : v ∈ userVpns) : l1eIomap (m.vm.l1 pid v) = false := by
  have he := h.entry pid hlive v hv
  rw [h.mapped_eq_zero hpid] at he
  cases hi : l1eIomap (m.vm.l1 pid v) with
  | false => rfl
  | true =>
      rw [hi] at he
      cases he

/-- What a record says of its entry. -/
theorem record (h : m.Matched) (hva : va ∈ m.hwmaps pid d) :
    pid ∈ m.vm.live ∧ pid ∉ m.vm.zombie ∧ (m.devs pid d).isSome ∧
      l1eIomap (m.vm.l1 pid (vpn va)) := by
  have hdev : m.devs pid d ≠ none := fun hn ↦ by
    rw [h.shut pid d hn] at hva
    cases hva
  have hsome : (m.devs pid d).isSome := Option.isSome_iff_ne_none.2 hdev
  have hlive : pid ∈ m.vm.live := by
    by_contra hl
    exact hdev (h.idle pid (.inl hl) d)
  have hpos : 0 < m.mapped pid (vpn va) :=
    shelved_pos (Finset.mem_range.2 (h.descs pid d hsome)) hva (beq_self_eq_true _)
  rw [h.entry pid hlive _ (vpn_mem_userVpns (h.uaddr pid d va hva))] at hpos
  refine ⟨hlive, fun hz ↦ hdev (h.idle pid (.inr hz) d), hsome, ?_⟩
  by_contra hi
  rw [Bool.eq_false_iff.2 hi] at hpos
  exact absurd hpos (lt_irrefl 0)

/-! ### What leaves the mappings alone -/

/-- Whatever marks and unmarks nothing keeps the agreement. -/
theorem unmoved {N : Nat → Nat → Prop} {dma : Dma} (h : m.Matched)
    (hu : Unmoved .iomap N m.vm dma.vm) (hpids : ∀ pid ∈ dma.vm.live, pid < dma.vm.nextpid)
    (hz : dma.vm.zombie ⊆ dma.vm.live) (hidle : ∀ pid ∈ dma.vm.zombie, ∀ d, m.devs pid d = none) :
    ({ m with toDma := dma } : Clients).Matched := by
  have hnone : ∀ pid, pid ∉ m.vm.live → ∀ v, m.mapped pid v = 0 := fun pid hpid ↦
    h.mapped_eq_zero (h.idle pid (.inl hpid))
  refine ⟨fun pid hpid v hv ↦ ?_, fun pid hpid v hv hi ↦ ?_, h.uaddr, h.shut, h.descs,
    fun pid hpid ↦ ?_, hpids, hz⟩
  · change m.mapped pid v = _
    change _ = (l1eIomap (dma.vm.l1 pid v)).toNat
    cases hi : l1eIomap (dma.vm.l1 pid v) with
    | true =>
        obtain ⟨hlive, hi'⟩ := hu.unmarked pid hpid v hv hi
        have hi' : l1eIomap (m.vm.l1 pid v) = true := hi'
        rw [h.entry pid hlive v hv, hi']
    | false =>
        by_cases hlive : pid ∈ m.vm.live
        · rw [h.entry pid hlive v hv]
          cases hi' : l1eIomap (m.vm.l1 pid v) with
          | false => rfl
          | true =>
              rw [hu.kept pid hlive v hv hi', hi'] at hi
              cases hi
        · exact hnone pid hlive v
  · obtain ⟨hlive, hi'⟩ := hu.unmarked pid hpid v hv hi
    have hsame : dma.vm.l1 pid v = m.vm.l1 pid v := hu.kept pid hlive v hv hi'
    change (dma.vm.db (dma.vm.l1 pid v).pfn).type = _
    rw [hsame]
    exact hu.mmio _ (h.mmio pid hlive v hv hi')
  · rcases hpid with hpid | hpid
    · exact h.idle pid (.inl fun hl ↦ hpid (hu.live hl))
    · exact hidle pid hpid

/-- A call, and what the driver does about exports. -/
theorem calm {dma : Dma} (h : m.Matched) (hc : CalmIo m.vm dma.vm) :
    ({ m with toDma := dma } : Clients).Matched := by
  refine h.unmoved hc.toUnmoved ?_ ?_ ?_
  · rw [hc.threads, hc.nextpid]
    exact h.pids
  · rw [hc.threads, hc.zombie]
    exact h.zombies
  · rw [hc.zombie]
    exact fun pid hpid ↦ h.idle pid (.inr hpid)

/-- A descriptor without records may be plugged, by a thread that runs, and unplugged. -/
theorem setDev (h : m.Matched) (cfg : Option HwdevCfg) (hrun : m.vm.Running cur)
    (hd : d < maxBusDevs) (hnil : m.hwmaps cur d = []) : (m.setDev cur d cfg).Matched where
  entry := h.entry
  mmio := h.mmio
  uaddr := h.uaddr
  shut pid d' hn := by
    rw [setDev_devs, setCell_apply] at hn
    split at hn
    · rename_i hpd
      rw [hpd.1, hpd.2]
      exact hnil
    · exact h.shut pid d' hn
  descs pid d' hs := by
    rw [setDev_devs, setCell_apply] at hs
    split at hs
    · rename_i hpd
      rw [hpd.2]
      exact hd
    · exact h.descs pid d' hs
  idle pid hpid d' := by
    rw [setDev_devs, setCell_apply, if_neg]
    · exact h.idle pid hpid d'
    · rintro ⟨rfl, -⟩
      exact hpid.elim (fun h ↦ h hrun.1) hrun.2
  pids := h.pids
  zombies := h.zombies

end Matched

/-! ## Mapping and unmapping -/

/-- The machine after a page for I/O has been mapped. -/
def ioMapped (m : Clients) (cur d va pfn : Nat) : Clients :=
  { m.setHwmaps cur d (va :: m.hwmaps cur d) with
    vm := m.vm.put cur (vpn va) (l1eMkiomap (mkl1e pfn protUserWr)) }

/-- The machine after a mapping has been ended. -/
def ioUnmapped (m : Clients) (cur d va : Nat) : Clients :=
  { m.setHwmaps cur d ((m.hwmaps cur d).erase va) with vm := m.vm.put cur (vpn va) invalidL1e }

/-- The lists and one entry are written, of a thread that runs. -/
theorem Matched.write {l : List Nat} {e : L1e} (h : m.Matched) (hrun : m.vm.Running cur)
    (hopen : (m.devs cur d).isSome) (huaddr : ∀ va ∈ l, isuaddr va)
    (hmmio : l1eIomap e → (m.vm.db e.pfn).type = .mmio)
    (hv : (m.setHwmaps cur d l).mapped cur v = (l1eIomap e).toNat)
    (hne : ∀ w ∈ userVpns, w ≠ v → (m.setHwmaps cur d l).mapped cur w = m.mapped cur w) :
    ({ m.setHwmaps cur d l with vm := m.vm.put cur v e } : Clients).Matched := by
  have hl1 : ∀ pid w, (m.vm.put cur v e).l1 pid w =
      if pid = cur ∧ w = v then e else m.vm.l1 pid w := fun pid w ↦ by
    rw [Sys.put, Sys.l1_setL1e, Sys.l1_setFlush]
  refine ⟨fun pid hpid w hw ↦ ?_, fun pid hpid w hw hi ↦ ?_, fun pid d' va hva ↦ ?_,
    fun pid d' hn ↦ ?_, h.descs, h.idle, h.pids, h.zombies⟩
  · change (m.setHwmaps cur d l).mapped pid w = (l1eIomap ((m.vm.put cur v e).l1 pid w)).toNat
    rw [hl1]
    by_cases hp : pid = cur
    · subst hp
      by_cases hwv : w = v
      · rw [if_pos ⟨rfl, hwv⟩, hwv, hv]
      · rw [if_neg fun h ↦ hwv h.2, hne w hw hwv, h.entry pid hpid w hw]
    · rw [if_neg fun h ↦ hp h.1, mapped_setHwmaps_of_ne hp, h.entry pid hpid w hw]
  · change l1eIomap ((m.vm.put cur v e).l1 pid w) at hi
    change (m.vm.db ((m.vm.put cur v e).l1 pid w).pfn).type = _
    rw [hl1] at hi ⊢
    split
    · rename_i hpw
      rw [if_pos hpw] at hi
      exact hmmio hi
    · rename_i hpw
      rw [if_neg hpw] at hi
      exact h.mmio pid hpid w hw hi
  · rcases mem_setCell hva with ⟨-, -, hva⟩ | hva
    · exact huaddr va hva
    · exact h.uaddr pid d' va hva
  · have hnone : m.devs pid d' = none := hn
    refine List.eq_nil_iff_forall_not_mem.2 fun va hva ↦ ?_
    rcases mem_setCell hva with ⟨rfl, rfl, -⟩ | hva
    · rw [hnone] at hopen
      cases hopen
    · rw [h.shut pid d' hnone] at hva
      cases hva

/-- Mapping a page at an entry that is not external. -/
theorem Matched.ioMapped (h : m.Matched) (hrun : m.vm.Running cur) (hopen : (m.devs cur d).isSome)
    (hva : isuaddr va) (hx : l1eExternal (m.vm.l1 cur (vpn va)) = false)
    (hmmio : (m.vm.db pfn).type = .mmio) : (m.ioMapped cur d va pfn).Matched := by
  have hd := h.descs cur d hopen
  have hi : l1eIomap (m.vm.l1 cur (vpn va)) = false := Mark.iomap.test_of_not_external hx
  refine h.write hrun hopen (fun w hw ↦ ?_) (fun _ ↦ hmmio) ?_ fun w _ hne ↦ ?_
  · rcases List.mem_cons.1 hw with rfl | hw
    · exact hva
    · exact h.uaddr cur d w hw
  · rw [mapped_cons hd, h.entry cur hrun.1 _ (vpn_mem_userVpns hva), hi]
    simp [l1eIomap, l1eMkiomap, mkl1e, protUserWr]
  · rw [mapped_cons hd, beq_false_of_ne hne.symm, Bool.toNat_false, Nat.add_zero]

/-- Ending a mapping. -/
theorem Matched.ioUnmapped (h : m.Matched) (hrun : m.vm.Running cur) (hva : va ∈ m.hwmaps cur d) :
    (m.ioUnmapped cur d va).Matched := by
  obtain ⟨-, -, hopen, hi⟩ := h.record hva
  have hd := h.descs cur d hopen
  have hu := h.uaddr cur d va hva
  refine h.write hrun hopen (fun w hw ↦ h.uaddr cur d w (List.mem_of_mem_erase hw)) nofun ?_
    fun w _ hne ↦ ?_
  · have he := mapped_erase (v := vpn va) hd hva
    rw [h.entry cur hrun.1 _ (vpn_mem_userVpns hu), hi, beq_self_eq_true] at he
    exact Nat.add_right_cancel (he.trans (Nat.zero_add _).symm)
  · have he := mapped_erase (v := w) hd hva
    rwa [beq_false_of_ne hne.symm, Bool.toNat_false, Nat.add_zero] at he

end Clients

end Mh.Vm
