import Mh.Vmap.Calls
import Mh.Zone.Fit
import Mh.Vm.Flush

/-!
# Kernel mappings

`vmap_alloc`, `vmap_free`, `kvmap` and `kvunmap` of `vmap.c`, over the zone of kernel ranges and the
kernel's entries in the page tables.

`kvmap` computes its pages from the physical address, in 64 bits, and `kvunmap` from the pointer, in
32 bits.  Both are `pages` (`mapLen_eq`, `unmapLen_eq`), because the pointer keeps the offset of the
address in its page.
-/

namespace Mh.Vmap

open Mh.Lib Mh.Zone Mh.Vm

/-- `KVA_SVMAP`. -/
def kvaSvmap : Nat := 0xf0000000

/-- `KVA_EVMAP`. -/
def kvaEvmap : Nat := 0xffd00000

/-- `VMAPSIZE`. -/
def vmapsize : Nat := kvaEvmap - kvaSvmap

/-- `PROT_GLOBAL | PROT_KERNWR`. -/
def protKvmap : Prot := ⟨true, true, false, true⟩

/-- Why a call does not return: a panic of the zone, no range, an assertion. -/
inductive Stop
  | zone (p : Zone.Panic)
  | oovm
  | assert
deriving DecidableEq, Repr

/-- The zone and the page tables. -/
structure Kvm where
  zone : VZone
  space : Space

/-- `vmap_alloc`. -/
def vmapAlloc (rb : Rb) (z : VZone) (size : Nat) : Except Stop (Nat × VZone) := do
  let (va, z) ← (Zone.alloc (backend rb) z () (roundPage size)).mapError .zone
  if va = 0 then .error .oovm else .ok (va, z)

/-- `vmap_free`. -/
def vmapFree (rb : Rb) (z : VZone) (va size : Nat) : Except Stop VZone :=
  (Zone.free (backend rb) z () va (roundPage size)).mapError .zone

/-- `pmap_kenter`, without the page that was mapped before. -/
def kenter (pm va pfn : Nat) (prot : Prot) (s : Space) : Except Stop Space :=
  (s.pmapKenter pm va pfn prot).elim (.error .assert) fun r ↦ .ok r.2

/-- A loop of `pmap_kenter` over `n` pages from `va` on. -/
def kenters (pm va : Nat) (pfn : Nat → Nat) (prot : Prot) (n : Nat) (s : Space) :
    Except Stop Space :=
  (List.range n).foldlM (fun s i ↦ kenter pm (w32 (va + i * pageSize)) (pfn i) prot s) s

/-- `pmap_commit`. -/
def commit (s : Space) (pm : Nat) : Space := { s with sys := (pmapCommit s.sys pm).2 }

/-- `end - start` of `kvmap`. -/
def mapLen (addr size : Nat) : Nat :=
  w64 (truncPage (w64 (addr + size + (pageSize - 1))) + (2 ^ 64 - truncPage addr))

/-- `end - start` of `kvunmap`. -/
def unmapLen (vaddr size : Nat) : Nat :=
  w32 (roundPage (vaddr + size) + (2 ^ 32 - truncPage vaddr))

/-- `kvmap`, while the processor is in the address space `pm`. -/
def kvmap (rb : Rb) (pm : Nat) (s : Kvm) (addr size : Nat) : Except Stop (Nat × Kvm) :=
  if size = 0 then .error .assert
  else do
    let lobits := addr % pageSize
    let (vaddr, zone) ← vmapAlloc rb s.zone (w32 (mapLen addr size))
    let space ← kenters pm vaddr (fun i ↦ w32 (addr / pageSize + i)) protKvmap
      (mapLen addr size / pageSize) s.space
    return (w32 (vaddr + lobits), ⟨zone, commit space pm⟩)

/-- `kvunmap`. -/
def kvunmap (rb : Rb) (pm : Nat) (s : Kvm) (vaddr size : Nat) : Except Stop Kvm := do
  let start := truncPage vaddr
  let len := unmapLen vaddr size
  let space ← kenters pm start (fun _ ↦ 0) .none (len / pageSize) s.space
  let zone ← vmapFree rb s.zone start len
  return ⟨zone, commit space pm⟩

/-! ## Pages -/

theorem truncPage_add {va off : Nat} (hva : pageSize ∣ va) (hoff : off < pageSize) :
    truncPage (va + off) = va := by
  have hps := pageSize_pos
  obtain ⟨q, rfl⟩ := hva
  rw [truncPage, Nat.mul_add_div hps, Nat.div_eq_of_lt hoff, Nat.add_zero, Nat.mul_comm]

/-- The pages that `size` bytes from `addr` on are in. -/
def pages (addr size : Nat) : Nat := (addr % pageSize + size + (pageSize - 1)) / pageSize

theorem mapLen_eq {addr size : Nat} (ha : addr < 2 ^ 64) (hs : size < 2 ^ 32) :
    mapLen addr size = pages addr size * pageSize := by
  simp only [mapLen, pages, truncPage, w64, pageSize, pageShift]
  omega

theorem unmapLen_eq {va off size : Nat} (hva : pageSize ∣ va) (hoff : off < pageSize)
    (hend : va + pages off size * pageSize ≤ 2 ^ 32 - pageSize) :
    unmapLen (va + off) size = pages off size * pageSize := by
  obtain ⟨q, rfl⟩ := hva
  simp only [unmapLen, pages, roundPage, truncPage, w32, pageSize, pageShift] at hoff hend ⊢
  omega

theorem pages_offset (addr size : Nat) : pages (addr % pageSize) size = pages addr size := by
  rw [pages, Nat.mod_mod, pages]

theorem pages_pos {addr size : Nat} (hs : 0 < size) : 0 < pages addr size := by
  simp only [pages, pageSize, pageShift]
  omega

/-- A length that is a number of pages is not changed by rounding. -/
theorem roundPage_mul {k : Nat} (hk : k * pageSize < 2 ^ 32) :
    roundPage (k * pageSize) = k * pageSize := by
  simp only [roundPage, truncPage, w32, pageSize, pageShift] at hk ⊢
  omega

/-! ## Loops over pages -/

section Loops

variable {pm va n : Nat} {pfn : Nat → Nat} {prot : Prot} {s t : Space}

theorem kenter_ok (h : kenter pm va n prot s = .ok t) : isuaddr va = false ∧
    t.kern = Function.update s.kern (vpn va) (mkl1e n prot) := by
  rw [kenter, Space.pmapKenter] at h
  split at h
  · rename_i hok
    rw [Bool.and_eq_true, Bool.not_eq_true'] at hok
    cases h
    exact ⟨hok.1, rfl⟩
  · cases h

theorem kenter_returns (hprot : prot.u = false) (hk : isuaddr va = false) (pm n : Nat)
    (s : Space) : ∃ t, kenter pm va n prot s = .ok t := by
  have hok : (!isuaddr va && (!prot.p || !prot.u)) = true := by
    rw [hk, hprot, Bool.not_false, Bool.or_true]
    rfl
  rw [kenter, Space.pmapKenter, if_pos hok]
  exact ⟨_, rfl⟩

theorem kenters_succ : kenters pm va pfn prot (n + 1) s = .ok t ↔
    ∃ u, kenters pm va pfn prot n s = .ok u ∧
      kenter pm (w32 (va + n * pageSize)) (pfn n) prot u = .ok t := by
  rw [kenters, List.range_succ, List.foldlM_append, bind_eq_ok]
  refine exists_congr fun u ↦ and_congr_right fun _ ↦ ?_
  rw [List.foldlM_cons, bind_eq_ok]
  exact ⟨fun ⟨_, hw, ht⟩ ↦ Except.ok.inj ht ▸ hw, fun h ↦ ⟨t, h, rfl⟩⟩

/-- No page of the loop is a user page. -/
theorem kenters_kernel (h : kenters pm va pfn prot n s = .ok t) {i : Nat} (hi : i < n) :
    isuaddr (w32 (va + i * pageSize)) = false := by
  induction n generalizing t with
  | zero => exact absurd hi (Nat.not_lt_zero i)
  | succ n ih =>
      obtain ⟨u, hu, ht⟩ := kenters_succ.1 h
      rcases Nat.lt_succ_iff_lt_or_eq.1 hi with hlt | rfl
      · exact ih hu hlt
      · exact (kenter_ok ht).1

/-- What the loop enters, where its pages do not wrap. -/
theorem kenters_kern (h : kenters pm va pfn prot n s = .ok t) (hva : pageSize ∣ va)
    (hend : va + n * pageSize ≤ 2 ^ 32) (v : Nat) :
    t.kern v = if vpn va ≤ v ∧ v < vpn va + n then mkl1e (pfn (v - vpn va)) prot
      else s.kern v := by
  induction n generalizing t with
  | zero =>
      cases h
      rw [if_neg (by omega)]
  | succ n ih =>
      obtain ⟨u, hu, ht⟩ := kenters_succ.1 h
      have hpage : vpn (w32 (va + n * pageSize)) = vpn va + n := by
        obtain ⟨q, rfl⟩ := hva
        simp only [vpn, w32, pageSize, pageShift] at hend ⊢
        omega
      rw [(kenter_ok ht).2, hpage]
      by_cases hv : v = vpn va + n
      · subst hv
        rw [Function.update_self, if_pos (by omega), Nat.add_sub_cancel_left]
      · have hend' : va + n * pageSize ≤ 2 ^ 32 := by
          rw [Nat.succ_mul] at hend
          omega
        rw [Function.update_of_ne hv, ih hu hend']
        by_cases hin : vpn va ≤ v ∧ v < vpn va + n
        · rw [if_pos hin, if_pos ⟨hin.1, Nat.lt_succ_of_lt hin.2⟩]
        · rw [if_neg hin, if_neg (by omega)]

/-- The loop comes to its end if no page is a user page. -/
theorem kenters_returns (hprot : prot.u = false)
    (hk : ∀ i < n, isuaddr (w32 (va + i * pageSize)) = false) (pfn : Nat → Nat) (s : Space) :
    ∃ t, kenters pm va pfn prot n s = .ok t := by
  induction n with
  | zero => exact ⟨s, rfl⟩
  | succ n ih =>
      obtain ⟨u, hu⟩ := ih fun i hi ↦ hk i (Nat.lt_succ_of_lt hi)
      obtain ⟨t, ht⟩ := kenter_returns hprot (hk n (Nat.lt_succ_self n)) pm (pfn n) u
      exact ⟨t, kenters_succ.2 ⟨u, hu, ht⟩⟩

end Loops

/-! ## The zone -/

theorem mapError_eq_ok {ε ε' α : Type} {x : Except ε α} {f : ε → ε'} {a : α} :
    x.mapError f = .ok a ↔ x = .ok a := by
  cases x with
  | error e => exact ⟨nofun, nofun⟩
  | ok b => exact ⟨fun h ↦ congrArg _ (Except.ok.inj h), fun h ↦ congrArg _ (Except.ok.inj h)⟩

/-- The addresses that `sysboot` gives to the zone. -/
def window : Set Nat := addrs kvaSvmap (roundPage vmapsize)

theorem mem_window {x : Nat} : x ∈ window ↔ 0xf0000000 ≤ x ∧ x < 0xffe00000 := Iff.rfl

/-- The zone of the kernel: whole pages of the window are free. -/
structure ZoneOk (z : VZone) : Prop where
  vinv : VInv z
  window : freeAddrs z ⊆ Vmap.window
  paged : ∀ x y, vpn x = vpn y → x ∈ freeAddrs z → y ∈ freeAddrs z

/-- A free range that is large enough, as the allocator counts: up to a power of two. -/
def Available (z : VZone) (n : Nat) : Prop := ∃ e ∈ z.db.tree, 2 ^ Nat.clog 2 n ≤ e.size

section Zone

variable {rb : Rb} {z t : VZone} {e : Vme} {va n k r : Nat}

/-- Pages of a range of pages. -/
theorem mem_addrs_pages (hva : pageSize ∣ va) {x : Nat} :
    x ∈ addrs va (k * pageSize) ↔ vpn va ≤ vpn x ∧ vpn x < vpn va + k := by
  obtain ⟨q, rfl⟩ := hva
  simp only [addrs, Set.mem_ofPred_eq, vpn, pageSize, pageShift]
  omega

namespace ZoneOk

/-- Free ranges begin at pages: the address before one is not free, and is in another page. -/
theorem aligned (h : ZoneOk z) (he : e ∈ z.db.tree) : pageSize ∣ e.addr := by
  by_contra hno
  have hpos := (h.vinv.node e he).pos
  have hfree : e.addr ∈ freeAddrs z := ⟨e, he, le_rfl, by
    have hsz := h.vinv.size_pos he
    omega⟩
  have hprev : e.addr - 1 ∈ freeAddrs z := by
    refine h.paged _ _ ?_ hfree
    simp only [vpn, pageSize, pageShift] at hno ⊢
    omega
  rw [freeAddrs_eq] at hprev
  exact h.vinv.tidy.pred_lo_notMem_cover (mem_ranges he) (Nat.sub_add_cancel hpos) hprev

theorem bounds (h : ZoneOk z) (he : e ∈ z.db.tree) :
    0xf0000000 ≤ e.addr ∧ e.addr + e.size ≤ 0xffe00000 := by
  have hsz := h.vinv.size_pos he
  have hlo := (mem_window.1 (h.window ⟨e, he, le_rfl, Nat.lt_add_of_pos_right hsz⟩)).1
  have hlast : e.addr + e.size - 1 ∈ freeAddrs z :=
    ⟨e, he, Nat.le_sub_one_of_lt (Nat.lt_add_of_pos_right hsz), Nat.sub_one_lt (by omega)⟩
  have hhi := (mem_window.1 (h.window hlast)).2
  omega

/-- `vmap_alloc` of some pages. -/
theorem alloc (h : ZoneOk z) (hlt : k * pageSize < 2 ^ 32)
    (hal : vmapAlloc rb z (k * pageSize) = .ok (va, t)) :
    ZoneOk t ∧ 0 < k ∧ pageSize ∣ va ∧ addrs va (k * pageSize) ⊆ freeAddrs z ∧
      freeAddrs t = freeAddrs z \ addrs va (k * pageSize) := by
  rw [vmapAlloc, roundPage_mul hlt, bind_eq_ok] at hal
  obtain ⟨⟨r, t'⟩, hal, hr⟩ := hal
  rw [mapError_eq_ok] at hal
  dsimp only at hr
  by_cases h0 : r = 0
  · rw [if_pos h0] at hr
    cases hr
  · rw [if_neg h0] at hr
    cases hr
    obtain ⟨e, he, rfl, hpos, hle, hi, hfr⟩ := h.vinv.alloc_node hal h0
    have hpg := h.aligned he
    have hsub : addrs e.addr (k * pageSize) ⊆ freeAddrs z := fun x hx ↦
      ⟨e, he, hx.1, lt_of_lt_of_le hx.2 (Nat.add_le_add_left hle _)⟩
    refine ⟨⟨hi, ?_, fun x y hxy hx ↦ ?_⟩, Nat.pos_of_mul_pos_right hpos, hpg, hsub, hfr⟩
    · rw [hfr]
      exact Set.sdiff_subset.trans h.window
    · rw [hfr] at hx ⊢
      refine ⟨h.paged x y hxy hx.1, fun hy ↦ hx.2 ?_⟩
      rw [mem_addrs_pages hpg] at hy ⊢
      rwa [hxy]

/-- `vmap_alloc` returns where a range is large enough. -/
theorem alloc_returns (h : ZoneOk z) (hk : 0 < k) (hav : Available z (k * pageSize)) (rb : Rb) :
    ∃ va t, vmapAlloc rb z (k * pageSize) = .ok (va, t) := by
  obtain ⟨e, he, hle⟩ := hav
  have hb := h.bounds he
  have hfit := (Nat.le_pow_clog (by decide : 1 < 2) (k * pageSize)).trans hle
  have hlt : k * pageSize < 2 ^ 32 := by omega
  have hpos : 0 < k * pageSize := Nat.mul_pos hk pageSize_pos
  obtain ⟨r, t, hal, hr⟩ : ∃ r t, Zone.alloc (backend rb) z () (k * pageSize) = .ok (r, t) ∧
      r ≠ 0 := by
    generalize k * pageSize = n at hfit hle hlt hpos
    cases hf : findfree z () n with
    | none =>
        refine absurd ⟨e, h.vinv.zinv.listed_iff.2 ⟨he, rfl⟩, ?_⟩
          ((h.vinv.zinv.findfree_eq_none hpos (by omega)).1 hf)
        rwa [Vme.range_len]
    | some e' =>
        obtain ⟨he', -, hle'⟩ := h.vinv.zinv.findfree hf
        rw [Vme.range_len] at hle'
        have hb' := h.bounds he'
        rcases h.vinv.allocFrom rb he' hpos hle' with ⟨t, ht, -⟩ | ⟨-, hbig⟩
        · refine ⟨e'.addr, t, ?_, (h.vinv.node e' he').pos.ne'⟩
          rw [Zone.alloc, if_neg hpos.ne', hf]
          exact ht
        · omega
  refine ⟨r, t, ?_⟩
  rw [vmapAlloc, roundPage_mul hlt, bind_eq_ok]
  exact ⟨(r, t), mapError_eq_ok.2 hal, if_neg hr⟩

/-- `vmap_free` of some pages of the window that are not free. -/
theorem free (h : ZoneOk z) (hk : 0 < k) (hva : pageSize ∣ va)
    (hw : addrs va (k * pageSize) ⊆ Vmap.window)
    (hd : Disjoint (addrs va (k * pageSize)) (freeAddrs z)) (rb : Rb) :
    ∃ t, vmapFree rb z va (k * pageSize) = .ok t ∧ ZoneOk t ∧
      freeAddrs t = freeAddrs z ∪ addrs va (k * pageSize) := by
  have hpos : 0 < k * pageSize := Nat.mul_pos hk pageSize_pos
  have hlo := (mem_window.1 (hw ⟨le_rfl, Nat.lt_add_of_pos_right hpos⟩)).1
  have hhi := (mem_window.1 (hw (show va + k * pageSize - 1 ∈ _ from ⟨by omega, by omega⟩))).2
  have hb := Block.of_disjoint h.vinv (by omega) hpos (by omega) hd
  obtain ⟨t, ht, hi, hf⟩ := h.vinv.free rb hb
  refine ⟨t, ?_, ⟨hi, ?_, fun x y hxy hx ↦ ?_⟩, hf⟩
  · rw [vmapFree, roundPage_mul (by omega), mapError_eq_ok]
    exact ht
  · rw [hf]
    exact Set.union_subset h.window hw
  · rw [hf] at hx ⊢
    refine hx.imp (h.paged x y hxy) fun hx ↦ ?_
    rw [mem_addrs_pages hva] at hx ⊢
    rwa [← hxy]

end ZoneOk

end Zone

/-! ## The calls -/

section Calls

variable {rb : Rb} {pm va off addr size p : Nat} {s t : Kvm}

/-- The addresses of the pages of a mapping. -/
def mapped (va addr size : Nat) : Set Nat := addrs va (pages addr size * pageSize)

/-- The entries of the pages of a mapping are these, and the other entries are those of `s`. -/
def Entered (s t : Space) (va addr size : Nat) (f : Nat → L1e) : Prop :=
  ∀ v, t.kern v = if vpn va ≤ v ∧ v < vpn va + pages addr size then f (v - vpn va) else s.kern v

/-- What `kvmap` enters. -/
def mapL1e (addr i : Nat) : L1e := mkl1e (w32 (addr / pageSize + i)) protKvmap

/-- What a successful `kvmap` does. -/
structure Kvmapped (s t : Kvm) (va addr size : Nat) : Prop where
  aligned : pageSize ∣ va
  free : mapped va addr size ⊆ freeAddrs s.zone
  taken : freeAddrs t.zone = freeAddrs s.zone \ mapped va addr size
  entered : Entered s.space t.space va addr size (mapL1e addr)
  zone : ZoneOk t.zone

/-- What a successful `kvunmap` does. -/
structure Kvunmapped (s t : Kvm) (va addr size : Nat) : Prop where
  freed : freeAddrs t.zone = freeAddrs s.zone ∪ mapped va addr size
  cleared : Entered s.space t.space va addr size fun _ ↦ mkl1e 0 .none
  zone : ZoneOk t.zone

/-- The loop of `kvmap` does not come to its end when there are 2048 pages or more: it would reach
the first user page. -/
theorem pages_lt {pfn : Nat → Nat} {prot : Prot} {k : Nat} {u v : Space} (hva : pageSize ∣ va)
    (hlo : 0xf0000000 ≤ va) (hhi : va < 2 ^ 32) (hk : kenters pm va pfn prot k u = .ok v) :
    k < 2048 := by
  obtain ⟨q, rfl⟩ := hva
  by_contra hge
  have hi : 2049 - q < k := by
    simp only [pageSize, pageShift] at hlo
    omega
  have hno := kenters_kernel hk hi
  have hx : w32 (pageSize * q + (2049 - q) * pageSize) = 2097152 := by
    simp only [w32, pageSize, pageShift] at hlo hhi ⊢
    omega
  rw [hx] at hno
  exact absurd hno (by decide)

theorem mul_pages_lt {k : Nat} (hk : k < 2048) : k * pageSize < 2 ^ 32 := by
  simp only [pageSize, pageShift]
  omega

/-- A `kvmap` that returns. -/
theorem kvmap_ok (h : ZoneOk s.zone) (ha : addr < 2 ^ 64) (hs : size < 2 ^ 32)
    (hk : kvmap rb pm s addr size = .ok (p, t)) :
    ∃ va, p = va + addr % pageSize ∧ Kvmapped s t va addr size := by
  have hps := pageSize_pos
  rw [kvmap, mapLen_eq ha hs, Nat.mul_div_cancel _ hps] at hk
  split at hk
  · cases hk
  · rename_i hsz
    simp only [bind_eq_ok] at hk
    obtain ⟨⟨va, z⟩, hal, u, hu, hk⟩ := hk
    -- The length is passed as a `size_t`, so 2048 pages more are not seen by the allocator.
    have hmod : w32 (pages addr size * pageSize) = pages addr size % 2048 * pageSize := by
      simp only [w32, pageSize, pageShift]
      omega
    rw [hmod] at hal
    obtain ⟨hz, hpos, hva, hsub, hfr⟩ :=
      h.alloc (mul_pages_lt (Nat.mod_lt _ (by decide))) hal
    have hin : va ∈ addrs va (pages addr size % 2048 * pageSize) :=
      ⟨le_rfl, Nat.lt_add_of_pos_right (Nat.mul_pos hpos hps)⟩
    have hlo := mem_window.1 (h.window (hsub hin))
    have hk2048 := pages_lt hva hlo.1 (by omega) hu
    rw [Nat.mod_eq_of_lt hk2048] at hsub hfr hpos
    have hlt := mul_pages_lt hk2048
    have hlast : va + pages addr size * pageSize - 1 ∈ addrs va (pages addr size * pageSize) := by
      have hp := Nat.mul_pos hpos hps
      exact ⟨by omega, by omega⟩
    have hhi := (mem_window.1 (h.window (hsub hlast))).2
    cases hk
    refine ⟨va, ?_, hva, hsub, hfr, fun v ↦ ?_, hz⟩
    · have hoff := Nat.mod_lt addr hps
      have hle := Nat.le_mul_of_pos_left pageSize hpos
      rw [w32, Nat.mod_eq_of_lt]
      omega
    · exact kenters_kern hu hva (by omega) v

/-- A page of the window is not a user page. -/
theorem isuaddr_of_window {n i : Nat} (hw : addrs va (n * pageSize) ⊆ window) (hi : i < n) :
    isuaddr (w32 (va + i * pageSize)) = false := by
  have hm : va + i * pageSize ∈ addrs va (n * pageSize) :=
    ⟨Nat.le_add_right _ _, Nat.add_lt_add_left (Nat.mul_lt_mul_of_pos_right hi pageSize_pos) va⟩
  have hin := mem_window.1 (hw hm)
  rw [w32, Nat.mod_eq_of_lt (by omega), Bool.eq_false_iff, Ne, isuaddr_iff]
  omega

/-- `kvmap` returns where a range is large enough. -/
theorem kvmap_returns (h : ZoneOk s.zone) (ha : addr < 2 ^ 64) (hs : size < 2 ^ 32)
    (hpos : 0 < size) (hav : Available s.zone (pages addr size * pageSize)) (rb : Rb) (pm : Nat) :
    ∃ p t, kvmap rb pm s addr size = .ok (p, t) := by
  have hps := pageSize_pos
  obtain ⟨va, z, hal⟩ := h.alloc_returns (pages_pos hpos) hav rb
  have hlt : pages addr size * pageSize < 2 ^ 32 := by
    obtain ⟨e, he, hle⟩ := hav
    have hb := h.bounds he
    have hfit := (Nat.le_pow_clog (by decide : 1 < 2) (pages addr size * pageSize)).trans hle
    omega
  obtain ⟨-, -, hva, hsub, -⟩ := h.alloc hlt hal
  have hkern : ∀ i < pages addr size, isuaddr (w32 (va + i * pageSize)) = false :=
    fun i hi ↦ isuaddr_of_window (hsub.trans h.window) hi
  obtain ⟨u, hu⟩ : ∃ u, kenters pm va (fun i ↦ w32 (addr / pageSize + i)) protKvmap
      (pages addr size) s.space = .ok u :=
    kenters_returns rfl hkern _ s.space
  refine ⟨w32 (va + addr % pageSize), ⟨z, commit u pm⟩, ?_⟩
  rw [kvmap, mapLen_eq ha hs, Nat.mul_div_cancel _ hps, if_neg hpos.ne', w32, Nat.mod_eq_of_lt hlt]
  simp only [bind_eq_ok]
  exact ⟨(va, z), hal, u, hu, rfl⟩

/-- `kvunmap` of pages of the window that are not free. -/
theorem kvunmap_ok (h : ZoneOk s.zone) (hva : pageSize ∣ va) (hpos : 0 < size)
    (hw : mapped va addr size ⊆ window) (hd : Disjoint (mapped va addr size) (freeAddrs s.zone))
    (rb : Rb) (pm : Nat) :
    ∃ t, kvunmap rb pm s (va + addr % pageSize) size = .ok t ∧ Kvunmapped s t va addr size := by
  have hps := pageSize_pos
  have hoff := Nat.mod_lt addr hps
  have hp : 0 < pages addr size := pages_pos hpos
  have hlast : va + pages addr size * pageSize - 1 ∈ mapped va addr size := by
    have hp := Nat.mul_pos hp hps
    exact ⟨by omega, by omega⟩
  have hhi := (mem_window.1 (hw hlast)).2
  have hstart := truncPage_add hva hoff
  have hlen : unmapLen (va + addr % pageSize) size = pages addr size * pageSize := by
    rw [unmapLen_eq hva hoff ?_, pages_offset]
    rw [pages_offset]
    simp only [pageSize, pageShift] at hhi ⊢
    omega
  have hkern : ∀ i < pages addr size, isuaddr (w32 (va + i * pageSize)) = false :=
    fun i hi ↦ isuaddr_of_window hw hi
  obtain ⟨u, hu⟩ : ∃ u, kenters pm va (fun _ ↦ 0) .none (pages addr size) s.space = .ok u :=
    kenters_returns rfl hkern _ s.space
  obtain ⟨z, hz, hok, hfr⟩ := h.free hp hva hw hd rb
  refine ⟨⟨z, commit u pm⟩, ?_, hfr, fun v ↦ ?_, hok⟩
  · rw [kvunmap, hlen, hstart]
    simp only [bind_eq_ok]
    rw [Nat.mul_div_cancel _ hps]
    exact ⟨u, hu, z, hz, rfl⟩
  · exact kenters_kern hu hva (by omega) v

end Calls

/-! ## Translation -/

/-- The physical address of a byte. -/
def translate (s : Space) (x : Nat) : Option Nat :=
  if (s.kern (vpn x)).p then some ((s.kern (vpn x)).pfn * pageSize + x % pageSize) else none

/-- Each byte of a mapping is found at its physical address, as far as page numbers reach. -/
theorem Entered.translate {s t : Space} {va addr size k : Nat}
    (h : Entered s t va addr size (mapL1e addr)) (hva : pageSize ∣ va) (hk : k < size) :
    Vmap.translate t (va + addr % pageSize + k) = some ((addr + k) % 2 ^ 53) := by
  have hps := pageSize_pos
  obtain ⟨q, rfl⟩ := hva
  have hv : vpn (pageSize * q) = q := Nat.mul_div_cancel_left q hps
  have hx : vpn (pageSize * q + addr % pageSize + k) = q + (addr % pageSize + k) / pageSize := by
    rw [vpn, Nat.add_assoc, Nat.mul_add_div hps]
  have hin : (addr % pageSize + k) / pageSize < pages addr size := by
    simp only [pages, pageSize, pageShift]
    omega
  have he : t.kern (vpn (pageSize * q + addr % pageSize + k)) =
      mapL1e addr ((addr % pageSize + k) / pageSize) := by
    rw [h, hv, hx, if_pos ⟨Nat.le_add_right _ _, Nat.add_lt_add_left hin q⟩,
      Nat.add_sub_cancel_left]
  rw [Vmap.translate, he]
  show some (w32 (addr / pageSize + (addr % pageSize + k) / pageSize) * pageSize +
    (pageSize * q + addr % pageSize + k) % pageSize) = _
  refine congrArg some ?_
  simp only [w32, pageSize, pageShift]
  omega

end Mh.Vmap
