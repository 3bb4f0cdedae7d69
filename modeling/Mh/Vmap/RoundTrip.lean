import Mh.Vmap.Kvmap
import Mh.Lib.Run

/-!
# Mapping and unmapping

Runs of `kvmap` and `kvunmap` from boot, in any order, with whatever else is done to the page tables
outside the window of the zone.  Two mappings never share a page, so each stays as it was made until
it is unmapped (`Inv.step`).

A page number is 32 bits wide, so a mapping is found at its physical address when that is below
2 ^ 53 (`kvmap_roundtrip`); above, it is found 2 ^ 53 bytes or more too low (`kvmap_wraps`).
-/

namespace Mh.Vmap

open Mh.Lib Mh.Zone Mh.Vm

/-- A mapping that has been made: what `kvmap` was given and what it returned. -/
structure Mapping where
  addr : Nat
  size : Nat
  ptr : Nat
deriving DecidableEq, Repr

/-- The addresses of the pages of a mapping. -/
def Mapping.range (m : Mapping) : Set Nat := mapped (truncPage m.ptr) m.addr m.size

/-- The kernel's mappings, and those that have been made and not unmapped since. -/
structure KvState where
  kvm : Kvm
  maps : List Mapping

/-- The calls.  `other` is what is done to the page tables outside the window. -/
inductive KvOp
  | kvmap (pm addr size : Nat)
  | kvunmap (pm : Nat) (m : Mapping)
  | other (space : Space)

/-- A call that returns.  What is unmapped has been mapped. -/
inductive KvStep (rb : Rb) : KvState → KvOp → KvState → Prop
  | kvmap {s : KvState} {pm addr size p : Nat} {t : Kvm} : addr < 2 ^ 64 → size < 2 ^ 32 →
      Vmap.kvmap rb pm s.kvm addr size = .ok (p, t) →
      KvStep rb s (.kvmap pm addr size) ⟨t, ⟨addr, size, p⟩ :: s.maps⟩
  | kvunmap {s : KvState} {pm : Nat} {m : Mapping} {t : Kvm} : m ∈ s.maps →
      Vmap.kvunmap rb pm s.kvm m.ptr m.size = .ok t →
      KvStep rb s (.kvunmap pm m) ⟨t, s.maps.erase m⟩
  | other {s : KvState} {space : Space} :
      (∀ x ∈ window, space.kern (vpn x) = s.kvm.space.kern (vpn x)) →
      KvStep rb s (.other space) ⟨⟨s.kvm.zone, space⟩, s.maps⟩

/-- The state after `vmap_init` and the `vmap_free` of `sysboot`. -/
structure Booted (rb : Rb) (s : KvState) : Prop where
  zone : vmapFree rb vmapInit kvaSvmap vmapsize = .ok s.kvm.zone
  maps : s.maps = []

/-! ## The invariant -/

/-- A mapping is as it was made, and its pages are not free. -/
structure Mapping.Ok (m : Mapping) (s : Kvm) : Prop where
  size_pos : 0 < m.size
  ptr : m.ptr = truncPage m.ptr + m.addr % pageSize
  window : m.range ⊆ Vmap.window
  taken : Disjoint m.range (freeAddrs s.zone)
  entry : ∀ v, vpn (truncPage m.ptr) ≤ v → v < vpn (truncPage m.ptr) + pages m.addr m.size →
    s.space.kern v = mapL1e m.addr (v - vpn (truncPage m.ptr))

/-- Whole pages are free, and no two mappings share a page. -/
structure KvInv (s : KvState) : Prop where
  zone : ZoneOk s.kvm.zone
  maps : ∀ m ∈ s.maps, m.Ok s.kvm
  apart : s.maps.Pairwise fun m m' ↦ Disjoint m.range m'.range

section Inv

variable {rb : Rb} {s s' : KvState} {m m' : Mapping} {op : KvOp} {va x v : Nat}

theorem dvd_truncPage (a : Nat) : pageSize ∣ truncPage a := Dvd.intro_left _ rfl

/-- The pages of a mapping by the addresses in them. -/
theorem mem_mapped (hva : pageSize ∣ va) {addr size : Nat} :
    v * pageSize ∈ mapped va addr size ↔ vpn va ≤ v ∧ v < vpn va + pages addr size := by
  have hv : vpn (v * pageSize) = v := Nat.mul_div_cancel v pageSize_pos
  rw [mapped, mem_addrs_pages hva, hv]

/-- An entry is that of a mapping only if the first address of its page is. -/
theorem Entered.other {s t : Space} {addr size : Nat} {f : Nat → L1e}
    (h : Entered s t va addr size f) (hva : pageSize ∣ va)
    (hv : v * pageSize ∉ mapped va addr size) :
    t.kern v = s.kern v := by
  rw [h, if_neg fun hin ↦ hv ((mem_mapped hva).2 hin)]

/-- A mapping is not changed by what is done to pages that are not its own. -/
theorem Mapping.Ok.congr {s t : Kvm} (h : m.Ok s) (hd : Disjoint m.range (freeAddrs t.zone))
    (hk : ∀ v, v * pageSize ∈ m.range → t.space.kern v = s.space.kern v) : m.Ok t where
  size_pos := h.size_pos
  ptr := h.ptr
  window := h.window
  taken := hd
  entry v hlo hhi := by
    rw [hk v ((mem_mapped (dvd_truncPage _)).2 ⟨hlo, hhi⟩)]
    exact h.entry v hlo hhi

/-- The zone after boot. -/
theorem ZoneOk.boot {z : VZone} (h : vmapFree rb vmapInit kvaSvmap vmapsize = .ok z) :
    ZoneOk z ∧ freeAddrs z = Vmap.window := by
  have hempty : freeAddrs vmapInit = ∅ := by
    ext x
    exact ⟨fun ⟨_, he, _⟩ ↦ absurd he List.not_mem_nil, fun hx ↦ absurd hx (Set.notMem_empty x)⟩
  have hinit : ZoneOk vmapInit :=
    ⟨vinv_init, by rw [hempty]; exact Set.empty_subset _, fun x y _ hx ↦ by
      rw [hempty] at hx
      exact absurd hx (Set.notMem_empty x)⟩
  have hlen : roundPage vmapsize = 127 * pageSize := by decide
  have hw : addrs kvaSvmap (127 * pageSize) = Vmap.window := by rw [Vmap.window, hlen]
  obtain ⟨t, ht, hok, hf⟩ := hinit.free (show 0 < 127 by decide)
    (show pageSize ∣ kvaSvmap by decide) hw.subset (by rw [hempty]; exact Set.disjoint_empty _) rb
  have hsame : vmapFree rb vmapInit kvaSvmap vmapsize =
      vmapFree rb vmapInit kvaSvmap (127 * pageSize) := by
    rw [vmapFree, vmapFree, hlen, roundPage_mul (by decide)]
  obtain rfl := Except.ok.inj (ht.symm.trans (hsame.symm.trans h))
  rw [hf, hempty, Set.empty_union]
  exact ⟨hok, hw⟩

theorem Booted.inv (h : Booted rb s) : KvInv s where
  zone := (ZoneOk.boot h.zone).1
  maps m hm := absurd (h.maps ▸ hm) List.not_mem_nil
  apart := by
    rw [h.maps]
    exact .nil

/-- The pages of a mapping that has just been made are its own. -/
theorem Kvmapped.ok {s t : Kvm} {addr size : Nat} (h : Kvmapped s t va addr size)
    (hs : ZoneOk s.zone) (hpos : 0 < size) :
    Mapping.Ok ⟨addr, size, va + addr % pageSize⟩ t := by
  have htr := truncPage_add h.aligned (Nat.mod_lt addr pageSize_pos)
  have hr : Mapping.range ⟨addr, size, va + addr % pageSize⟩ = mapped va addr size := by
    rw [Mapping.range, htr]
  refine ⟨hpos, ?_, ?_, ?_, fun v hlo hhi ↦ ?_⟩
  · exact congrArg (· + addr % pageSize) htr.symm
  · rw [hr]
    exact h.free.trans hs.window
  · rw [hr, h.taken]
    exact Set.disjoint_sdiff_right
  · dsimp only at hlo hhi ⊢
    rw [htr] at hlo hhi ⊢
    rw [h.entered, if_pos ⟨hlo, hhi⟩]

/-- A call that returns keeps the invariant. -/
theorem KvInv.step (h : KvInv s) (hst : KvStep rb s op s') : KvInv s' := by
  cases hst with
  | @kvmap pm addr size p t ha hs hk =>
      obtain ⟨va, rfl, hm⟩ := kvmap_ok h.zone ha hs hk
      have hpos : 0 < size := Nat.pos_of_ne_zero fun h0 ↦ by
        rw [Vmap.kvmap, if_pos h0] at hk
        cases hk
      have hr : Mapping.range ⟨addr, size, va + addr % pageSize⟩ = mapped va addr size := by
        rw [Mapping.range, truncPage_add hm.aligned (Nat.mod_lt addr pageSize_pos)]
      have hfar : ∀ m ∈ s.maps, Disjoint (mapped va addr size) m.range := fun m hmem ↦
        ((h.maps m hmem).taken.mono_right hm.free).symm
      refine ⟨hm.zone, fun m hmem ↦ ?_, ?_⟩
      · rcases List.mem_cons.1 hmem with rfl | hmem
        · exact hm.ok h.zone hpos
        · refine (h.maps m hmem).congr ?_ fun v hv ↦ ?_
          · rw [hm.taken]
            exact (h.maps m hmem).taken.mono_right Set.sdiff_subset
          · exact hm.entered.other hm.aligned fun hv' ↦
              Set.disjoint_left.1 (hfar m hmem) hv' hv
      · refine List.pairwise_cons.2 ⟨fun m hmem ↦ ?_, h.apart⟩
        rw [hr]
        exact hfar m hmem
  | @kvunmap pm m t hmem hk =>
      have hm := h.maps m hmem
      have hva := dvd_truncPage m.ptr
      obtain ⟨t', ht, hu⟩ := kvunmap_ok h.zone hva hm.size_pos hm.window hm.taken rb pm
      rw [← hm.ptr] at ht
      obtain rfl := Except.ok.inj (ht.symm.trans hk)
      have hsymm : ∀ {a b : Mapping}, Disjoint a.range b.range → Disjoint b.range a.range :=
        fun hd ↦ hd.symm
      obtain ⟨hfar, hap⟩ := List.pairwise_cons.1
        (((List.perm_cons_erase hmem).pairwise_iff hsymm).1 h.apart)
      refine ⟨hu.zone, fun m' hmem' ↦ ?_, hap⟩
      have hm' := h.maps m' (List.mem_of_mem_erase hmem')
      refine hm'.congr ?_ fun v hv ↦ ?_
      · rw [hu.freed]
        exact Set.disjoint_union_right.2 ⟨hm'.taken, (hfar m' hmem').symm⟩
      · exact hu.cleared.other hva fun hv' ↦ Set.disjoint_left.1 (hfar m' hmem') hv' hv
  | @other space hsame =>
      refine ⟨h.zone, fun m hmem ↦ ?_, h.apart⟩
      refine (h.maps m hmem).congr (h.maps m hmem).taken fun v hv ↦ ?_
      have hx := hsame (v * pageSize) ((h.maps m hmem).window hv)
      rwa [vpn, Nat.mul_div_cancel v pageSize_pos] at hx

end Inv

/-! ## The round trip -/

/-- Mapping the `size` bytes at the physical address `addr` and unmapping them: each byte is found
at its address, only pages of a range that was free are used, and afterwards these pages are not
mapped and the free ranges are what they were. -/
def RoundTrip (rb : Rb) (pm : Nat) (s : Kvm) (addr size : Nat) : Prop :=
  ∃ va t, kvmap rb pm s addr size = .ok (va + addr % pageSize, t) ∧ Kvmapped s t va addr size ∧
    (∀ k < size, translate t.space (va + addr % pageSize + k) = some (addr + k)) ∧
    ∀ pm', ∃ u, kvunmap rb pm' t (va + addr % pageSize) size = .ok u ∧
      Kvunmapped t u va addr size ∧ ranges u.zone = ranges s.zone

/-- A mapping that has been made earlier: its bytes are still found at their addresses, and it can
be unmapped, which clears its pages and frees its range. -/
def Mapping.Held (m : Mapping) (rb : Rb) (s : Kvm) : Prop :=
  (m.addr + m.size ≤ 2 ^ 53 → ∀ k < m.size, translate s.space (m.ptr + k) = some (m.addr + k)) ∧
    ∀ pm, ∃ u, kvunmap rb pm s m.ptr m.size = .ok u ∧
      Kvunmapped s u (truncPage m.ptr) m.addr m.size

section RoundTrip

variable {rb : Rb} {s : Kvm} {m : Mapping} {pm addr size : Nat}

/-- A mapping that is as it was made is found at its physical address. -/
theorem Mapping.Ok.translate (h : m.Ok s) {k : Nat} (hk : k < m.size) :
    Vmap.translate s.space (m.ptr + k) = some ((m.addr + k) % 2 ^ 53) := by
  have he : Entered s.space s.space (truncPage m.ptr) m.addr m.size (mapL1e m.addr) := fun v ↦ by
    split
    · rename_i hv
      exact h.entry v hv.1 hv.2
    · rfl
  rw [h.ptr]
  exact he.translate (dvd_truncPage _) hk

theorem Mapping.Ok.held (h : m.Ok s) (hz : ZoneOk s.zone) (rb : Rb) : m.Held rb s := by
  refine ⟨fun hend k hk ↦ ?_, fun pm ↦ ?_⟩
  · rw [h.translate hk, Nat.mod_eq_of_lt (by omega)]
  · obtain ⟨u, hu, hun⟩ := kvunmap_ok hz (dvd_truncPage m.ptr) h.size_pos h.window h.taken rb pm
    rw [← h.ptr] at hu
    exact ⟨u, hu, hun⟩

theorem ZoneOk.roundTrip (h : ZoneOk s.zone) (hpos : 0 < size) (hs : size < 2 ^ 32)
    (hend : addr + size ≤ 2 ^ 53) (hav : Available s.zone (pages addr size * pageSize)) (rb : Rb)
    (pm : Nat) : RoundTrip rb pm s addr size := by
  have ha : addr < 2 ^ 64 := by omega
  obtain ⟨p, t, hk⟩ := kvmap_returns h ha hs hpos hav rb pm
  obtain ⟨va, rfl, hm⟩ := kvmap_ok h ha hs hk
  refine ⟨va, t, hk, hm, fun k hlt ↦ ?_, fun pm' ↦ ?_⟩
  · rw [hm.entered.translate hm.aligned hlt, Nat.mod_eq_of_lt (by omega)]
  · have hd : Disjoint (mapped va addr size) (freeAddrs t.zone) := by
      rw [hm.taken]
      exact Set.disjoint_sdiff_right
    obtain ⟨u, hu, hun⟩ := kvunmap_ok hm.zone hm.aligned hpos (hm.free.trans h.window) hd rb pm'
    refine ⟨u, hu, hun, hun.zone.vinv.ranges_eq h.vinv ?_⟩
    rw [hun.freed, hm.taken]
    exact Set.sdiff_union_of_subset hm.free

end RoundTrip

/-- Boot, with nothing mapped, and a range for a page. -/
theorem exists_booted : ∃ s, Booted everyNode s ∧ Available s.kvm.zone pageSize := by
  have hz : (vmapFree everyNode vmapInit kvaSvmap vmapsize).toOption.map (·.db.tree) =
      some [⟨0xf0000000, 0xfe00000, .free⟩] := by decide +kernel
  cases h : vmapFree everyNode vmapInit kvaSvmap vmapsize with
  | error e =>
      rw [h] at hz
      cases hz
  | ok z =>
      rw [h] at hz
      have ht : z.db.tree = [⟨0xf0000000, 0xfe00000, .free⟩] := Option.some.inj hz
      refine ⟨⟨⟨z, ⟨demo, fun _ ↦ .zero⟩⟩, []⟩, ⟨h, rfl⟩,
        ⟨0xf0000000, 0xfe00000, .free⟩, ?_, ?_⟩
      · rw [ht]
        exact List.mem_singleton_self _
      · rw [pageSize, Nat.clog_pow 2 pageShift (by decide)]
        decide

/-- In every run from boot, mapping memory below 2 ^ 53 for which there is a range and unmapping it
is a round trip, and the mappings that have been made earlier still hold. -/
theorem kvmap_roundtrip (rb : Rb) (s₀ s : KvState) (ops : List KvOp) (hb : Booted rb s₀)
    (hr : Run (KvStep rb) s₀ ops s) :
    (∀ pm addr size, 0 < size → size < 2 ^ 32 → addr + size ≤ 2 ^ 53 →
      Available s.kvm.zone (pages addr size * pageSize) → RoundTrip rb pm s.kvm addr size) ∧
    ∀ m ∈ s.maps, m.Held rb s.kvm := by
  have hi : KvInv s := Run.invariant (fun _ _ _ hi hst ↦ hi.step hst) hr hb.inv
  exact ⟨fun pm addr size hpos hs hend hav ↦ hi.zone.roundTrip hpos hs hend hav rb pm,
    fun m hm ↦ (hi.maps m hm).held hi.zone rb⟩

/-- The registers of the local APIC. -/
theorem kvmap_roundtrip_lapic : ∃ s, Booted everyNode s ∧
    RoundTrip everyNode 0 s.kvm 0xfee00000 0x1000 := by
  obtain ⟨s, hb, hav⟩ := exists_booted
  have hone : pages 0xfee00000 0x1000 * pageSize = pageSize := by decide
  exact ⟨s, hb, (kvmap_roundtrip everyNode s s [] hb (.nil s)).1 0 0xfee00000 0x1000 (by decide)
    (by decide) (by decide) (hone ▸ hav)⟩

/-- The page of the physical address 2 ^ 53 has the number 2 ^ 32: page 0 is mapped instead. -/
theorem kvmap_wraps : ¬∀ (rb : Rb) (s₀ s : KvState) (ops : List KvOp), Booted rb s₀ →
    Run (KvStep rb) s₀ ops s → ∀ pm addr size, 0 < size → size < 2 ^ 32 →
      addr + size + (pageSize - 1) < 2 ^ 64 →
      Available s.kvm.zone (pages addr size * pageSize) → RoundTrip rb pm s.kvm addr size := by
  intro h
  obtain ⟨s, hb, hav⟩ := exists_booted
  have hone : pages (2 ^ 53) 1 * pageSize = pageSize := by decide
  obtain ⟨va, t, -, hm, htr, -⟩ := h everyNode s s [] hb (.nil s) 0 (2 ^ 53) 1 (by decide)
    (by decide) (by decide) (hone ▸ hav)
  have hbyte := htr 0 Nat.one_pos
  rw [hm.entered.translate hm.aligned Nat.one_pos] at hbyte
  exact absurd (Option.some.inj hbyte) (by decide)

end Mh.Vmap
