import Mh.Mrg.Space

/-!
# Mapping the memory of a device

`diomap` of `libmrg/dio.c`.  What the calls of `sys_iomap` return is an argument; the pages of the
process before the call are any.
-/

namespace Mh.Dio

open Mh.Lib Mh.Mrg

/-! ## The function -/

/-- `VFNT_MMIO`. -/
def vfntMmio : UInt8 := 6

/-- `trunc_page(base) + (i << PAGE_SHIFT)`. -/
def devPage (base i : Nat) : Nat := w64 (truncPage base + w32 (i * pageSize))

/-- The loop of `diomap`, after so many rounds. -/
def iomapLoop (io : Nat → Int) (base va : Nat) : Nat → Space → Space
  | 0, s => s
  | i + 1, s =>
    (iomapLoop io base va i s).sysIomap (w32 (va + w32 (i * pageSize))) (devPage base i) (io i)

/-- The loop that undoes it, after so many rounds. -/
def iounmapLoop (va : Nat) : Nat → Space → Space
  | 0, s => s
  | j + 1, s => (iounmapLoop va j s).sysIounmap (w32 (va + w32 (j * pageSize)))

variable (rb : Rb) (vmMaxmmap : Nat) (io : Nat → Int)

/-- `diomap`.  `ret` is that of the last round, and is unsigned. -/
def diomap (s : Space) (base len : Nat) : Except Stop (Nat × Space) := do
  let pages := roundPage len / pageSize
  let (va, s) ← s.call rb vmMaxmmap (.alloc len vfntMmio)
  if va = 0 then return (0, s)
  let s := iomapLoop io base va pages s
  let ret := BitVec.ofInt 32 (io (pages - 1))
  if ret < 0 then return (0, iounmapLoop va pages s)
  return (w32 (va + base % pageSize), s)

/-! ## What it is for -/

/-- The address of the device that an address of the process stands for. -/
def device (s : Space) (va : Nat) : Option Nat :=
  match s.page (vpn va) with
  | some (.io a) => some (a + va % pageSize)
  | _ => none

/-- The memory of the device is at the address that is returned, in a range that was handed out for
it; or nothing is left of the call. -/
def DiomapOk (s : Space) (base len : Nat) : Prop :=
  ∃ p s', diomap rb vmMaxmmap io s base len = .ok (p, s') ∧
    (p = 0 ∧ s'.page = s.page ∧ s'.vmap.out = s.vmap.out ∨
      p ≠ 0 ∧
        (∃ a n, (a, n) ∈ s'.vmap.out ∧ (a, n) ∉ s.vmap.out ∧ a ≤ p ∧ p + len ≤ a + n) ∧
        ∀ k < len, device s' (p + k) = some (w64 (base + k)))

/-- Page `i` is mapped at its address: by its call, which has 32 bits of the address, or from
before. -/
def PageOk (s : Space) (base va i : Nat) : Prop :=
  if 0 ≤ io i then devPage base i < 2 ^ 32
  else s.page (vpn va + i) = some (.io (devPage base i))

variable {rb vmMaxmmap io} {s : Space} {base len va m i v : Nat}

/-! ## The loop -/

theorem iomapLoop_vmap (io : Nat → Int) (base va m : Nat) (s : Space) :
    (iomapLoop io base va m s).vmap = s.vmap := by
  induction m with
  | zero => rfl
  | succ m ih => rw [iomapLoop, Space.sysIomap_vmap, ih]

/-- The page of a round. -/
theorem vpn_round (hva : va % pageSize = 0) (hm : va + (i + 1) * pageSize ≤ 2 ^ 32) :
    vpn (w32 (va + w32 (i * pageSize))) = vpn va + i := by
  rw [pageSize_eq] at hva hm
  simp only [vpn, w32, pageSize_eq]
  omega

/-- The pages that the loop leaves. -/
theorem iomapLoop_page (hva : va % pageSize = 0) (hm : va + m * pageSize ≤ 2 ^ 32) (i : Nat) :
    (iomapLoop io base va m s).page (vpn va + i) =
      if i < m ∧ 0 ≤ io i then some (.io (w32 (devPage base i))) else s.page (vpn va + i) := by
  induction m with
  | zero => exact (if_neg fun h ↦ absurd h.1 (Nat.not_lt_zero i)).symm
  | succ m ih =>
      have hle : va + m * pageSize ≤ 2 ^ 32 :=
        (Nat.add_le_add_left (Nat.mul_le_mul_right _ (Nat.le_succ m)) va).trans hm
      rw [iomapLoop, Space.sysIomap_page, vpn_round hva hm, ih hle]
      rcases Nat.lt_trichotomy i m with hlt | rfl | hgt
      · rw [if_neg fun h ↦ hlt.ne (Nat.add_left_cancel h.1)]
        exact if_congr (and_congr_left fun _ ↦ iff_of_true hlt (Nat.lt_succ_of_lt hlt)) rfl rfl
      · rw [if_neg fun h : i < i ∧ _ ↦ absurd h.1 (Nat.lt_irrefl i)]
        exact if_congr (and_congr_left fun _ ↦ iff_of_true rfl (Nat.lt_succ_self i)) rfl rfl
      · rw [if_neg fun h ↦ hgt.ne' (Nat.add_left_cancel h.1),
          if_neg fun h ↦ absurd h.1 (Nat.not_lt.2 hgt.le), if_neg fun h ↦ absurd h.1 (by omega)]

/-- A page is mapped at its address if `PageOk` says so. -/
theorem pageOk_iff (hva : va % pageSize = 0) (hm : va + m * pageSize ≤ 2 ^ 32) (hi : i < m) :
    (iomapLoop io base va m s).page (vpn va + i) = some (.io (devPage base i)) ↔
      PageOk io s base va i := by
  rw [iomapLoop_page hva hm, PageOk]
  by_cases hret : 0 ≤ io i
  · rw [if_pos ⟨hi, hret⟩, if_pos hret, Option.some.injEq, Page.io.injEq]
    exact Nat.mod_eq_iff_lt (Nat.two_pow_pos 32).ne'
  · rw [if_neg fun h ↦ hret h.2, if_neg hret]

/-! ## Addresses and pages -/

/-- The pages of a size are enough for it, and each has a byte of it. -/
theorem roundPage_bounds (hpos : 0 < len) (hle : len ≤ 2 ^ 32 - pageSize) :
    len ≤ roundPage len ∧ roundPage len < len + pageSize ∧
      roundPage len / pageSize * pageSize = roundPage len := by
  rw [pageSize_eq] at hle
  simp only [roundPage, truncPage, w32, pageSize_eq]
  omega

/-- The address of the device at a byte of a page. -/
theorem devPage_add (base : Nat) {k : Nat} (hk : base % pageSize + k < 2 ^ 32) :
    devPage base ((base % pageSize + k) / pageSize) + (base % pageSize + k) % pageSize =
      w64 (base + k) := by
  rw [pageSize_eq] at hk
  simp only [devPage, w64, w32, truncPage, pageSize_eq]
  omega

/-- The byte `x` of a range that starts a page. -/
theorem device_add (s : Space) (hva : va % pageSize = 0) (x : Nat) :
    device s (va + x) =
      match s.page (vpn va + x / pageSize) with
      | some (.io a) => some (a + x % pageSize)
      | _ => none := by
  have hpage : vpn (va + x) = vpn va + x / pageSize := by
    rw [pageSize_eq] at hva
    simp only [vpn, pageSize_eq]
    omega
  have hoff : (va + x) % pageSize = x % pageSize := by
    rw [Nat.add_mod, hva, Nat.zero_add, Nat.mod_mod]
  rw [device, hpage, hoff]

/-- The bytes are those of the device if the pages are. -/
theorem device_iff (s : Space) (hva : va % pageSize = 0) (hpos : 0 < len)
    (hle : len ≤ 2 ^ 32 - pageSize) (hfit : base % pageSize + len ≤ roundPage len) :
    (∀ k < len, device s (va + (base % pageSize + k)) = some (w64 (base + k))) ↔
      ∀ i < roundPage len / pageSize, s.page (vpn va + i) = some (.io (devPage base i)) := by
  obtain ⟨hlen, hround, hmul⟩ := roundPage_bounds hpos hle
  have hlt : roundPage len < 2 ^ 32 := by
    rw [pageSize_eq] at hle hround
    omega
  constructor
  · intro h i hi
    -- a byte of the page: its first one, or that of the buffer
    obtain ⟨k, hk, hki⟩ : ∃ k < len, (base % pageSize + k) / pageSize = i := by
      rw [pageSize_eq] at *
      rcases Nat.eq_zero_or_pos i with rfl | hip
      · exact ⟨0, hpos, by omega⟩
      · exact ⟨i * 2097152 - base % 2097152, by omega, by omega⟩
    have hdev := h k hk
    rw [device_add s hva, hki, ← devPage_add base (by omega), hki] at hdev
    split at hdev
    · rename_i a ha
      rw [ha, Nat.add_right_cancel (Option.some.inj hdev)]
    · cases hdev
  · intro h k hk
    have hi : (base % pageSize + k) / pageSize < roundPage len / pageSize := by
      refine Nat.div_lt_of_lt_mul ?_
      rw [Nat.mul_comm, hmul]
      omega
    rw [device_add s hva, h _ hi]
    exact congrArg some (devPage_add base (by omega))

/-! ## The function -/

/-- `diomap` when the map has a range. -/
theorem diomap_ok (io : Nat → Int) (base : Nat) {v : State}
    (hex : exec rb vmMaxmmap s.vmap (.alloc len vfntMmio) = .ok (va, v)) (hva : va ≠ 0) :
    diomap rb vmMaxmmap io s base len =
      .ok (w32 (va + base % pageSize),
        iomapLoop io base va (roundPage len / pageSize) { s with vmap := v }) := by
  have hcall : s.call rb vmMaxmmap (.alloc len vfntMmio) = .ok (va, { s with vmap := v }) := by
    rw [Space.call, hex]
  have hret : ¬ BitVec.ofInt 32 (io (roundPage len / pageSize - 1)) < 0 := BitVec.not_lt_zero
  rw [diomap, hcall]
  dsimp only [bind, Except.bind, pure, Except.pure]
  rw [if_neg hva, if_neg hret]

/-- `diomap` when it has none. -/
theorem diomap_null (io : Nat → Int) (base : Nat) {v : State}
    (hex : exec rb vmMaxmmap s.vmap (.alloc len vfntMmio) = .ok (0, v)) :
    diomap rb vmMaxmmap io s base len = .ok (0, { s with vmap := v }) := by
  have hcall : s.call rb vmMaxmmap (.alloc len vfntMmio) = .ok (0, { s with vmap := v }) := by
    rw [Space.call, hex]
  rw [diomap, hcall]
  rfl

/-- `diomap` when the map stops the process. -/
theorem diomap_error (io : Nat → Int) (base : Nat) {e : Panic}
    (hex : exec rb vmMaxmmap s.vmap (.alloc len vfntMmio) = .error e) :
    diomap rb vmMaxmmap io s base len = .error (.vmap e) := by
  have hcall : s.call rb vmMaxmmap (.alloc len vfntMmio) = .error (.vmap e) := by
    rw [Space.call, hex]
  rw [diomap, hcall]
  rfl

/-- `diomap` with the range that the map has for it. -/
theorem diomapOk_iff {v : State} (hR : Region vmMaxmmap) (hpos : 0 < len)
    (hle : len ≤ 2 ^ 32 - pageSize)
    (hex : exec rb vmMaxmmap s.vmap (.alloc len vfntMmio) = .ok (va, v)) (hne : va ≠ 0)
    (hh : Handed vmMaxmmap s.vmap.out va (roundPage len))
    (hout : v.out = insert (va, roundPage len) s.vmap.out) :
    DiomapOk rb vmMaxmmap io s base len ↔
      base % pageSize + len ≤ roundPage len ∧
        ∀ i < roundPage len / pageSize, PageOk io s base va i := by
  have hhigh := hh.high
  obtain ⟨hlen, _, hmul⟩ := roundPage_bounds hpos hle
  have hmax : vmMaxmmap < 2 ^ 32 := hR.lt_two_pow
  have hm : va + roundPage len / pageSize * pageSize ≤ 2 ^ 32 := hmul.symm ▸ hhigh.trans hmax.le
  have hp : w32 (va + base % pageSize) = va + base % pageSize := by
    have hoff : base % pageSize < pageSize := Nat.mod_lt _ (by decide)
    have hpage : pageSize ≤ roundPage len :=
      Nat.le_of_dvd hh.pos (Nat.dvd_of_mod_eq_zero hh.size_mod)
    exact Nat.mod_eq_of_lt (by omega)
  have hdone := diomap_ok io base hex hne
  rw [hp] at hdone
  set t : Space := { s with vmap := v } with ht
  have hpages : ∀ i < roundPage len / pageSize,
      ((iomapLoop io base va (roundPage len / pageSize) t).page (vpn va + i) =
        some (.io (devPage base i)) ↔ PageOk io s base va i) := fun i hi ↦
    pageOk_iff (s := t) hh.addr_mod hm hi
  constructor
  · rintro ⟨p, s', hd, hres⟩
    rw [hdone] at hd
    cases hd
    rcases hres with ⟨hz, _⟩ | ⟨_, ⟨a, n, hin, hnin, _, hhi⟩, hdev⟩
    · exact absurd (Nat.eq_zero_of_add_eq_zero_right hz) hne
    · rw [iomapLoop_vmap, ht, hout, Set.mem_insert_iff] at hin
      rcases hin with heq | hin
      · cases heq
        have hfit : base % pageSize + len ≤ roundPage len := by omega
        simp only [Nat.add_assoc] at hdev
        have hall := (device_iff _ hh.addr_mod hpos hle hfit).1 hdev
        exact ⟨hfit, fun i hi ↦ (hpages i hi).1 (hall i hi)⟩
      · exact absurd hin hnin
  · rintro ⟨hfit, hall⟩
    refine ⟨_, _, hdone, .inr ⟨fun hz ↦ hne (Nat.eq_zero_of_add_eq_zero_right hz),
      ⟨va, roundPage len, ?_, hh.fresh, Nat.le_add_right _ _, by omega⟩, ?_⟩⟩
    · rw [iomapLoop_vmap, ht, hout]
      exact Set.mem_insert _ _
    · simp only [Nat.add_assoc]
      exact (device_iff _ hh.addr_mod hpos hle hfit).2 fun i hi ↦ (hpages i hi).2 (hall i hi)

/-- In every state of a run, `diomap` maps what it is asked for or leaves nothing behind if the
size can be rounded, and there is no range, or else the buffer does not reach over the pages of its
size and each of them is mapped at its address. -/
theorem diomap_exact_iff (rb : Rb) {vmMaxmmap : Nat} (hR : Region vmMaxmmap) {ops : List Op}
    {s : Space} (hr : Run (Step rb vmMaxmmap) State.init ops s.vmap) (io : Nat → Int)
    (base : BitVec 64) {len : BitVec 32} (hpos : 0 < len.toNat) :
    DiomapOk rb vmMaxmmap io s base.toNat len.toNat ↔
      len.toNat ≤ 2 ^ 32 - pageSize ∧
        ∀ va v, exec rb vmMaxmmap s.vmap (.alloc len.toNat vfntMmio) = .ok (va, v) → va = 0 ∨
          base.toNat % pageSize + len.toNat ≤ roundPage len.toNat ∧
            ∀ i < roundPage len.toNat / pageSize, PageOk io s base.toNat va i := by
  have hg := Good.run hR hr
  have hty : vfntMmio ≠ vfntFree := by decide
  rcases Nat.lt_or_ge (2 ^ 32 - pageSize) len.toNat with hf | hf
  · have herr := diomap_error io base.toNat (hg.alloc_error rb hR len.isLt hf hty)
    refine iff_of_false ?_ fun h ↦ absurd h.1 (Nat.not_le.2 hf)
    rintro ⟨p, s', hex, _⟩
    rw [herr] at hex
    cases hex
  · obtain ⟨va, v, hex, _, hres⟩ := hg.alloc rb hR hpos hf hty
    rw [and_iff_right hf, forall_exec_iff hex]
    rcases hres with ⟨rfl, hout⟩ | ⟨hne, hh, hout⟩
    · exact iff_of_true ⟨0, _, diomap_null _ _ hex, .inl ⟨rfl, rfl, hout⟩⟩ (.inl rfl)
    · rw [or_iff_right hne]
      exact diomapOk_iff hR hpos hf hex hne hh hout

/-- The registers of a controller, which are in a page. -/
theorem diomap_exact_iff_page :
    DiomapOk everyNode 0xbb800000 (fun _ ↦ 0) emptySpace 0xfebf0000 0x1000 := by
  refine (diomap_exact_iff everyNode region_stack (s := emptySpace) (.nil _) (fun _ ↦ 0) 0xfebf0000
    (by decide : 0 < (0x1000 : BitVec 32).toNat)).2 ⟨by decide, fun va v _ ↦ .inr ⟨by decide, ?_⟩⟩
  intro i hi
  have hone : roundPage 0x1000 / pageSize = 1 := by decide
  obtain rfl : i = 0 := Nat.lt_one_iff.1 (hone ▸ hi)
  rw [PageOk, if_pos (Int.le_refl 0)]
  decide

/-- The registers of a controller, once when the kernel refuses to map them and once when they reach
into the next page: an address is returned all the same. -/
theorem diomap_unmapped :
    ¬ DiomapOk everyNode 0xbb800000 (fun _ ↦ Errno.EPERM.neg) emptySpace 0xfebf0000 0x1000 ∧
      ¬ DiomapOk everyNode 0xbb800000 (fun _ ↦ 0) emptySpace 0xfebff800 0x1000 := by
  have hempty : Run (Step everyNode 0xbb800000) State.init [] emptySpace.vmap := .nil _
  have hty : vfntMmio ≠ vfntFree := by decide
  obtain ⟨va, v, hex, _, hres⟩ :=
    (Good.run region_stack hempty).alloc everyNode region_stack (n := 0x1000) (by decide)
      (by decide) hty
  have hfirst : (exec everyNode 0xbb800000 State.init (.alloc 0x1000 vfntMmio)).toOption.map
      Prod.fst = some 0x60000000 := by decide +kernel
  rw [show State.init = emptySpace.vmap from rfl, hex] at hfirst
  obtain rfl : va = 0x60000000 := Option.some.inj hfirst
  rcases hres with ⟨hz, _⟩ | ⟨hne, hh, hout⟩
  · exact absurd hz (by decide)
  · constructor
    · intro h
      have hpage := ((diomapOk_iff region_stack (by decide) (by decide) hex hne hh hout).1 h).2 0
        (by decide)
      rw [PageOk, if_neg (by decide)] at hpage
      cases hpage
    · intro h
      exact absurd ((diomapOk_iff region_stack (by decide) (by decide) hex hne hh hout).1 h).1
        (by decide)

end Mh.Dio
