import Mh.Mrg.Space
import Mh.Lib.Outcome

/-!
# Buffers in low memory

`dma32_alloc` and `dma32_free` of `libmrg/dma32.c`.  What `vmmap32` returns is an argument; so is
what the variable `i` of `dma32_free` happens to hold, which is never set.
-/

namespace Mh.Mrg

open Mh.Lib

/-! ## The functions -/

/-- `VFNT_MEM32`. -/
def vfntMem32 : UInt8 := 7

namespace Space

/-- The loop of `dma32_alloc` from round `k`, with the number of rounds that are left: `i < len`
holds in so many rounds.  It ends with the round that failed, if there is one. -/
def mapFrom (vm : Nat → Int) (va : Nat) : Nat → Nat → Space → Except Stop (Option Nat × Space)
  | 0, _, s => .ok (none, s)
  | m + 1, k, s => do
    let s ← s.vmmap32 (w32 (va + k * pageSize)) (vm k)
    if vm k ≠ 0 then return (some k, s)
    mapFrom vm va m (k + 1) s

/-- `vmunmap` of each address from `va` on, `n` of them. -/
def unmapBytes (s : Space) (va : Nat) : Nat → Except Stop Space
  | 0 => .ok s
  | j + 1 => do
    let s ← unmapBytes s va j
    s.vmunmap (w32 (va + j))

variable (rb : Rb) (vmMaxmmap : Nat) (vm : Nat → Int)

/-- `dma32_alloc`. -/
def dma32Alloc (s : Space) (len : Nat) : Except Stop (Nat × Space) := do
  let (va, s) ← s.call rb vmMaxmmap (.alloc len vfntMem32)
  if va = 0 then return (0, s)
  let (failed, s) ← mapFrom vm va (roundPage len / pageSize) 0 s
  match failed with
  | none => return (va, s)
  | some k =>
    let s ← s.unmapBytes va (k * pageSize)
    let (_, s) ← s.call rb vmMaxmmap (.free va len)
    return (0, s)

/-- `dma32_free`, with what `i` holds. -/
def dma32Free (s : Space) (i va len : Nat) : Except Stop Space := do
  let s ← s.unmapBytes va i
  let (_, s) ← s.call rb vmMaxmmap (.free va len)
  return s

end Space

/-! ## What they are for -/

/-- The pages of a range. -/
def rangePages (va n : Nat) : Set Nat := Set.Ico (vpn va) (vpn va + n / pageSize)

/-- All of the buffer is mapped, or nothing is left of the range that the map had for it; the other
pages stay. -/
def AllocOk (rb : Rb) (vmMaxmmap : Nat) (vm : Nat → Int) (s : Space) (len : Nat) : Prop :=
  ∃ va v p s', exec rb vmMaxmmap s.vmap (.alloc len vfntMem32) = .ok (va, v) ∧
    s.dma32Alloc rb vmMaxmmap vm len = .ok (p, s') ∧
    (∀ x, (va ≠ 0 → x ∉ rangePages va (roundPage len)) → s'.page x = s.page x) ∧
    (p ≠ 0 ∧ p = va ∧ s'.vmap.out = insert (va, roundPage len) s.vmap.out ∧
        (∀ x ∈ rangePages va (roundPage len), s'.page x = some .mem) ∨
      p = 0 ∧ s'.vmap.out = s.vmap.out ∧
        (va ≠ 0 → ∀ x ∈ rangePages va (roundPage len), s'.page x = none))

/-- A buffer of `dma32_alloc`; some of it may have been exported since. -/
structure Buffer (s : Space) (va len : Nat) : Prop where
  out : (va, roundPage len) ∈ s.vmap.out
  page : ∀ x ∈ rangePages va (roundPage len), s.page x = some .mem ∨ s.page x = some .exported

/-- The pages of the buffer are unmapped, and no others, and the map has its range. -/
def FreeOk (rb : Rb) (vmMaxmmap : Nat) (s : Space) (i va len : Nat) : Prop :=
  ∃ s', s.dma32Free rb vmMaxmmap i va len = .ok s' ∧
    (∀ x ∈ rangePages va (roundPage len), s'.page x = none) ∧
    (∀ x ∉ rangePages va (roundPage len), s'.page x = s.page x) ∧
    s'.vmap.out = s.vmap.out \ {(va, roundPage len)}

variable {rb : Rb} {vmMaxmmap : Nat} {vm : Nat → Int} {s t : Space} {va len n k m j : Nat}

theorem mem_rangePages {x : Nat} :
    x ∈ rangePages va n ↔ vpn va ≤ x ∧ x < vpn va + n / pageSize := Iff.rfl

/-! ## The loops -/

namespace Space

/-- A page of a range. -/
theorem vpn_add_mul (hlt : va + k * pageSize < 2 ^ 32) :
    vpn (w32 (va + k * pageSize)) = vpn va + k := by
  rw [w32, Nat.mod_eq_of_lt hlt, vpn, vpn]
  exact Nat.add_mul_div_right _ _ (by decide)

/-- A range of user addresses. -/
structure User (va n : Nat) : Prop where
  addr_mod : va % pageSize = 0
  low : userBase ≤ va
  high : va + n ≤ userEnd

theorem User.isuaddr (h : User va n) (hj : j < n) : isuaddr (w32 (va + j)) := by
  have hlow := h.low
  have hhigh := h.high
  rw [userEnd_eq] at hhigh
  rw [userBase_eq] at hlow
  rw [w32, Nat.mod_eq_of_lt (by omega), isuaddr_iff]
  omega

theorem User.vpn_add (h : User va n) (hk : k * pageSize < n) :
    vpn (w32 (va + k * pageSize)) = vpn va + k := by
  refine vpn_add_mul ?_
  have hhigh := h.high
  have hend : userEnd < 2 ^ 32 := by decide
  omega

/-- There is room for a round. -/
theorem round_lt (hm : (k + m) * pageSize ≤ n) (hpos : 0 < m) : k * pageSize < n :=
  Nat.lt_of_lt_of_le
    (Nat.mul_lt_mul_of_pos_right (Nat.lt_add_of_pos_right hpos) (by decide)) hm

/-- A round whose page is mapped. -/
theorem mapFrom_succ_ok (h : User va n) (hk : k * pageSize < n) (hret : vm k = 0) :
    mapFrom vm va (m + 1) k s =
      mapFrom vm va m (k + 1) (s.setPage (w32 (va + k * pageSize)) (some .mem)) := by
  rw [mapFrom, vmmap32_ok (h.isuaddr hk), hret]
  rfl

/-- A round whose page is not, or replaced another one. -/
theorem mapFrom_succ_fail (h : User va n) (hk : k * pageSize < n) (hret : vm k ≠ 0) :
    mapFrom vm va (m + 1) k s =
      .ok (some k, if vm k < 0 then s else s.setPage (w32 (va + k * pageSize)) (some .mem)) := by
  rw [mapFrom, vmmap32_ok (h.isuaddr hk)]
  dsimp only [bind, Except.bind]
  rw [if_pos hret]
  rfl

/-- When every page is mapped. -/
theorem mapFrom_ok (h : User va n) (hm : (k + m) * pageSize ≤ n) (hret : ∀ j < m, vm (k + j) = 0) :
    ∃ t, mapFrom vm va m k s = .ok (none, t) ∧ t.vmap = s.vmap ∧
      ∀ x, t.page x = if vpn va + k ≤ x ∧ x < vpn va + (k + m) then some .mem else s.page x := by
  induction m generalizing k s with
  | zero => exact ⟨s, rfl, rfl, fun x ↦ (if_neg fun hx ↦ by omega).symm⟩
  | succ m ih =>
      have hk := round_lt hm m.succ_pos
      have heq : ∀ j, k + 1 + j = k + (j + 1) := fun j ↦ by omega
      obtain ⟨t, ht, hv, hp⟩ := ih (k := k + 1)
        (s := s.setPage (w32 (va + k * pageSize)) (some .mem)) ((heq m).symm ▸ hm)
        fun j hj ↦ (heq j).symm ▸ hret (j + 1) (Nat.succ_lt_succ hj)
      refine ⟨t, (mapFrom_succ_ok h hk (hret 0 m.succ_pos)).trans ht, hv, fun x ↦ ?_⟩
      rw [hp, setPage_page, h.vpn_add hk]
      split_ifs <;> first | rfl | omega

/-- When call `k + j` is the first that does not return 0. -/
theorem mapFrom_fail (h : User va n) (hm : (k + m) * pageSize ≤ n) (hj : j < m)
    (hret : ∀ i < j, vm (k + i) = 0) (hf : vm (k + j) ≠ 0) :
    ∃ t, mapFrom vm va m k s = .ok (some (k + j), t) ∧ t.vmap = s.vmap ∧
      ∀ x, t.page x =
        if vpn va + k ≤ x ∧ x < vpn va + (k + j) ∨ x = vpn va + (k + j) ∧ 0 ≤ vm (k + j) then
          some .mem
        else s.page x := by
  induction m generalizing k s j with
  | zero => exact absurd hj (Nat.not_lt_zero j)
  | succ m ih =>
      have hk := round_lt hm m.succ_pos
      cases j with
      | zero =>
          refine ⟨_, mapFrom_succ_fail h hk hf, ?_, fun x ↦ ?_⟩
          · split_ifs <;> rfl
          · rw [Nat.add_zero] at hf ⊢
            by_cases hneg : vm k < 0
            · rw [if_pos hneg, if_neg]
              omega
            · rw [if_neg hneg, setPage_page, h.vpn_add hk]
              split_ifs <;> first | rfl | omega
      | succ j =>
          have heq : ∀ j, k + 1 + j = k + (j + 1) := fun j ↦ by omega
          obtain ⟨t, ht, hv, hp⟩ := ih (k := k + 1) (j := j)
            (s := s.setPage (w32 (va + k * pageSize)) (some .mem)) ((heq m).symm ▸ hm)
            (Nat.lt_of_succ_lt_succ hj)
            (fun i hi ↦ (heq i).symm ▸ hret (i + 1) (Nat.succ_lt_succ hi)) ((heq j).symm ▸ hf)
          rw [heq j] at ht hp
          refine ⟨t, (mapFrom_succ_ok h hk (hret 0 j.succ_pos)).trans ht, hv, fun x ↦ ?_⟩
          rw [hp, setPage_page, h.vpn_add hk]
          split_ifs <;> first | rfl | omega

/-- When every address is one of a user. -/
theorem unmapBytes_ok (s : Space) (h : ∀ j < n, isuaddr (w32 (va + j))) :
    ∃ t, s.unmapBytes va n = .ok t ∧ t.vmap = s.vmap ∧
      ∀ x, t.page x =
        if ∃ j < n, vpn (w32 (va + j)) = x then unmapped (s.page x) else s.page x := by
  induction n with
  | zero => exact ⟨s, rfl, rfl, fun x ↦ (if_neg fun ⟨j, hj, _⟩ ↦ Nat.not_lt_zero j hj).symm⟩
  | succ n ih =>
      obtain ⟨t, ht, hv, hp⟩ := ih fun j hj ↦ h j (Nat.lt_succ_of_lt hj)
      refine ⟨t.setPage (w32 (va + n)) (unmapped (t.page (vpn (w32 (va + n))))), ?_, hv,
        fun x ↦ ?_⟩
      · rw [unmapBytes]
        exact bind_eq_ok.2 ⟨t, ht, vmunmap_ok (h n (Nat.lt_succ_self n))⟩
      · rw [setPage_page]
        by_cases hx : x = vpn (w32 (va + n))
        · subst hx
          have hin : ∃ j < n + 1, vpn (w32 (va + j)) = vpn (w32 (va + n)) :=
            ⟨n, Nat.lt_succ_self n, rfl⟩
          rw [if_pos rfl, if_pos hin, hp]
          split_ifs
          · exact unmapped_unmapped _
          · rfl
        · rw [if_neg hx, hp]
          refine if_congr ⟨?_, ?_⟩ rfl rfl
          · rintro ⟨j, hj, hjx⟩
            exact ⟨j, Nat.lt_succ_of_lt hj, hjx⟩
          · rintro ⟨j, hj, hjx⟩
            rcases Nat.lt_succ_iff_lt_or_eq.1 hj with hlt | rfl
            · exact ⟨j, hlt, hjx⟩
            · exact absurd hjx.symm hx

/-- Otherwise the process is killed. -/
theorem unmapBytes_isuaddr (h : s.unmapBytes va n = .ok t) (hj : j < n) :
    isuaddr (w32 (va + j)) := by
  induction n generalizing t with
  | zero => exact absurd hj (Nat.not_lt_zero j)
  | succ n ih =>
      rw [unmapBytes] at h
      obtain ⟨t', ht', h⟩ := bind_eq_ok.1 h
      rcases Nat.lt_succ_iff_lt_or_eq.1 hj with hlt | rfl
      · exact ih ht' hlt
      · by_contra hno
        rw [vmunmap_killed hno] at h
        cases h

/-- The pages of the addresses from the beginning of a range on. -/
theorem exists_vpn_iff (h : User va n) (hk : k * pageSize ≤ n) {x : Nat} :
    (∃ j < k * pageSize, vpn (w32 (va + j)) = x) ↔ vpn va ≤ x ∧ x < vpn va + k := by
  have hmod := h.addr_mod
  have hhigh := h.high
  rw [userEnd_eq] at hhigh
  rw [pageSize_eq] at hmod hk ⊢
  simp only [vpn, w32, pageSize_eq]
  constructor
  · rintro ⟨j, hj, rfl⟩
    omega
  · rintro ⟨hlo, hhi⟩
    exact ⟨x * 2097152 - va, by omega, by omega⟩

end Space

/-! ## `dma32_alloc` -/

section Alloc

variable {v w : State} {r : Nat} {u : Space}

theorem Handed.user (hu : vmMaxmmap ≤ userEnd) {out : Set (Nat × Nat)}
    (h : Handed vmMaxmmap out va n) : Space.User va n where
  addr_mod := h.addr_mod
  low := by
    have hlow := h.low
    have hbase : userBase ≤ vmMinmmap := by decide
    omega
  high := h.high.trans hu

theorem Handed.pages {out : Set (Nat × Nat)} (h : Handed vmMaxmmap out va n) :
    n / pageSize * pageSize = n := Nat.div_mul_cancel (Nat.dvd_of_mod_eq_zero h.size_mod)

theorem call_ok {op : Op} (hex : exec rb vmMaxmmap s.vmap op = .ok (r, v)) :
    s.call rb vmMaxmmap op = .ok (r, { s with vmap := v }) := by
  rw [Space.call, hex]

theorem dma32Alloc_null (vm : Nat → Int)
    (hex : exec rb vmMaxmmap s.vmap (.alloc len vfntMem32) = .ok (0, v)) :
    s.dma32Alloc rb vmMaxmmap vm len = .ok (0, { s with vmap := v }) := by
  rw [Space.dma32Alloc, call_ok hex]
  rfl

theorem dma32Alloc_full
    (hex : exec rb vmMaxmmap s.vmap (.alloc len vfntMem32) = .ok (va, v)) (hne : va ≠ 0)
    (ht : Space.mapFrom vm va (roundPage len / pageSize) 0 { s with vmap := v } = .ok (none, t)) :
    s.dma32Alloc rb vmMaxmmap vm len = .ok (va, t) := by
  refine bind_eq_ok.2 ⟨_, call_ok hex, ?_⟩
  dsimp only
  rw [if_neg hne]
  exact bind_eq_ok.2 ⟨_, ht, rfl⟩

theorem dma32Alloc_undo
    (hex : exec rb vmMaxmmap s.vmap (.alloc len vfntMem32) = .ok (va, v)) (hne : va ≠ 0)
    (ht : Space.mapFrom vm va (roundPage len / pageSize) 0 { s with vmap := v } = .ok (some k, t))
    (hu : t.unmapBytes va (k * pageSize) = .ok u)
    (hfree : exec rb vmMaxmmap u.vmap (.free va len) = .ok (r, w)) :
    s.dma32Alloc rb vmMaxmmap vm len = .ok (0, { u with vmap := w }) := by
  refine bind_eq_ok.2 ⟨_, call_ok hex, ?_⟩
  dsimp only
  rw [if_neg hne]
  exact bind_eq_ok.2 ⟨_, ht, bind_eq_ok.2 ⟨_, hu, bind_eq_ok.2 ⟨_, call_ok hfree, rfl⟩⟩⟩

/-- `dma32_alloc` when every page is mapped. -/
theorem dma32Alloc_all (hu : vmMaxmmap ≤ userEnd)
    (hex : exec rb vmMaxmmap s.vmap (.alloc len vfntMem32) = .ok (va, v)) (hne : va ≠ 0)
    (hh : Handed vmMaxmmap s.vmap.out va (roundPage len))
    (hall : ∀ k < roundPage len / pageSize, vm k = 0) :
    ∃ t, s.dma32Alloc rb vmMaxmmap vm len = .ok (va, t) ∧ t.vmap = v ∧
      ∀ x, t.page x =
        if vpn va ≤ x ∧ x < vpn va + roundPage len / pageSize then some .mem else s.page x := by
  obtain ⟨t, ht, htv, htp⟩ := Space.mapFrom_ok (s := { s with vmap := v }) (k := 0) (hh.user hu)
    (by rw [Nat.zero_add, hh.pages]) fun j hj ↦ (Nat.zero_add j).symm ▸ hall j hj
  simp only [Nat.zero_add, Nat.add_zero] at htp
  exact ⟨t, dma32Alloc_full hex hne ht, htv, htp⟩

/-- `dma32_alloc` when call `k` is the first that does not return 0. -/
theorem dma32Alloc_fail (hR : Region vmMaxmmap) (hu : vmMaxmmap ≤ userEnd)
    (hex : exec rb vmMaxmmap s.vmap (.alloc len vfntMem32) = .ok (va, v)) (hne : va ≠ 0)
    (hgood : Good vmMaxmmap v) (hh : Handed vmMaxmmap s.vmap.out va (roundPage len))
    (hout : v.out = insert (va, roundPage len) s.vmap.out) (hk : k < roundPage len / pageSize)
    (hret : ∀ i < k, vm i = 0) (hf : vm k ≠ 0) :
    ∃ s', s.dma32Alloc rb vmMaxmmap vm len = .ok (0, s') ∧ s'.vmap.out = s.vmap.out ∧
      ∀ x, s'.page x =
        if vpn va ≤ x ∧ x < vpn va + k then none
        else if x = vpn va + k ∧ 0 ≤ vm k then some .mem
        else s.page x := by
  have huser := hh.user hu
  have hmul := hh.pages
  obtain ⟨t, ht, htv, htp⟩ := Space.mapFrom_fail (s := { s with vmap := v }) (k := 0) huser
    (by rw [Nat.zero_add, hmul]) hk (fun i hi ↦ (Nat.zero_add i).symm ▸ hret i hi)
    ((Nat.zero_add k).symm ▸ hf)
  rw [Nat.zero_add] at ht htp
  have hkn : k * pageSize ≤ roundPage len := by
    rw [← hmul]
    exact Nat.mul_le_mul_right _ hk.le
  have hall : ∀ j < k * pageSize, isuaddr (w32 (va + j)) := fun j hj ↦
    huser.isuaddr (Nat.lt_of_lt_of_le hj hkn)
  obtain ⟨u, hu', huv, hup⟩ := Space.unmapBytes_ok t hall
  have hin : (va, roundPage len) ∈ v.out := hout ▸ Set.mem_insert _ _
  obtain ⟨w, hfree, _, hwout⟩ := hgood.free rb hR hin
  have huvmap : u.vmap = v := huv.trans htv
  rw [← huvmap] at hfree
  refine ⟨_, dma32Alloc_undo hex hne ht hu' hfree, ?_, fun x ↦ ?_⟩
  · show w.out = s.vmap.out
    rw [hwout, hout, Set.insert_sdiff_self_of_notMem hh.fresh]
  · show u.page x = _
    rw [hup, htp]
    simp only [Space.exists_vpn_iff huser hkn]
    by_cases hx : vpn va ≤ x ∧ x < vpn va + k
    · rw [if_pos hx, if_pos hx, if_pos (.inl hx)]
      rfl
    · rw [if_neg hx, if_neg hx]
      exact if_congr (or_iff_right hx) rfl rfl

/-- When `dma32_alloc` does what it is for, with the range that the map has for it. -/
theorem allocOk_iff (hR : Region vmMaxmmap) (hu : vmMaxmmap ≤ userEnd)
    (hex : exec rb vmMaxmmap s.vmap (.alloc len vfntMem32) = .ok (va, v)) (hne : va ≠ 0)
    (hgood : Good vmMaxmmap v) (hh : Handed vmMaxmmap s.vmap.out va (roundPage len))
    (hout : v.out = insert (va, roundPage len) s.vmap.out) :
    AllocOk rb vmMaxmmap vm s len ↔
      (∀ k < roundPage len / pageSize, vm k = 0) ∨
        ∃ k < roundPage len / pageSize, (∀ i < k, vm i = 0) ∧ vm k < 0 ∧
          ∀ x, k ≤ x → x < roundPage len / pageSize → s.page (vpn va + x) = none := by
  rcases first_fail (fun k ↦ vm k = 0) (roundPage len / pageSize) with hall | ⟨k, hk, hret, hf⟩
  · refine iff_of_true ?_ (.inl hall)
    obtain ⟨t, ht, htv, htp⟩ := dma32Alloc_all hu hex hne hh hall
    exact ⟨va, v, va, t, hex, ht, fun x hx ↦ (htp x).trans (if_neg (hx hne)),
      .inl ⟨hne, rfl, by rw [htv, hout], fun x hx ↦ (htp x).trans (if_pos hx)⟩⟩
  · obtain ⟨s', hs', hs'out, hs'p⟩ := dma32Alloc_fail hR hu hex hne hgood hh hout hk hret hf
    constructor
    · rintro ⟨va', v', p, t, hex', ht, _, hres⟩
      rw [hex] at hex'
      cases hex'
      rw [hs'] at ht
      cases ht
      rcases hres with ⟨hz, _⟩ | ⟨_, _, hnone⟩
      · exact absurd rfl hz
      · have hnone' : ∀ x < roundPage len / pageSize, s'.page (vpn va + x) = none := fun x hx ↦
          hnone hne _ ⟨Nat.le_add_right _ _, Nat.add_lt_add_left hx _⟩
        have hneg : vm k < 0 := by
          by_contra hpos
          have hpage := hnone' k hk
          rw [hs'p, if_neg (by omega), if_pos ⟨rfl, Int.not_lt.1 hpos⟩] at hpage
          cases hpage
        refine .inr ⟨k, hk, hret, hneg, fun x hkx hx ↦ ?_⟩
        have hpage := hnone' x hx
        rwa [hs'p, if_neg (by omega), if_neg (by omega)] at hpage
    · rintro (hall | ⟨k', hk', hret', hneg, hnone⟩)
      · exact absurd (hall k hk) hf
      · obtain rfl : k' = k := by
          rcases Nat.lt_trichotomy k' k with hlt | heq | hgt
          · exact absurd (hret k' hlt) hneg.ne
          · exact heq
          · exact absurd (hret' k hgt) hf
        refine ⟨va, v, 0, s', hex, hs', fun x hx ↦ ?_, .inr ⟨rfl, hs'out, fun _ x hx ↦ ?_⟩⟩
        · have hx' := hx hne
          rw [mem_rangePages] at hx'
          rw [hs'p, if_neg (by omega), if_neg (by omega)]
        · rw [mem_rangePages] at hx
          rw [hs'p]
          by_cases hlt : x < vpn va + k'
          · rw [if_pos ⟨hx.1, hlt⟩]
          · rw [if_neg (by omega), if_neg (by omega)]
            have hpage := hnone (x - vpn va) (by omega) (by omega)
            rwa [Nat.add_sub_cancel' hx.1] at hpage

end Alloc

/-! ## `dma32_free` -/

/-- What `dma32_free` leaves. -/
theorem dma32Free_ok (hR : Region vmMaxmmap) (hgood : Good vmMaxmmap s.vmap)
    (hin : (va, roundPage len) ∈ s.vmap.out) {i : Nat} (hi : ∀ j < i, isuaddr (w32 (va + j))) :
    ∃ s', s.dma32Free rb vmMaxmmap i va len = .ok s' ∧
      s'.vmap.out = s.vmap.out \ {(va, roundPage len)} ∧
      ∀ x, s'.page x =
        if ∃ j < i, vpn (w32 (va + j)) = x then Space.unmapped (s.page x) else s.page x := by
  obtain ⟨t, ht, htv, htp⟩ := Space.unmapBytes_ok s hi
  obtain ⟨w, hfree, _, hwout⟩ := hgood.free rb hR hin
  rw [← htv] at hfree
  exact ⟨{ t with vmap := w },
    bind_eq_ok.2 ⟨t, ht, bind_eq_ok.2 ⟨_, call_ok hfree, rfl⟩⟩, hwout, htp⟩

/-- The addresses from a user address on are user addresses only up to the end of memory. -/
theorem add_lt_of_isuaddr {i : Nat} (hva : va < 2 ^ 32) (h : ∀ j < i, isuaddr (w32 (va + j)))
    (hj : j < i) : va + j < 2 ^ 32 := by
  by_contra hge
  have hzero := h (2 ^ 32 - va) (by omega)
  rw [Nat.add_sub_cancel' hva.le] at hzero
  exact absurd hzero (by decide)

/-- The addresses of a range are in its pages. -/
theorem vpn_mem_rangePages (h : Space.User va n) (hmul : n / pageSize * pageSize = n) (hj : j < n) :
    vpn (w32 (va + j)) ∈ rangePages va n :=
  (Space.exists_vpn_iff h hmul.le).1 ⟨j, hmul.symm ▸ hj, rfl⟩

/-- Those behind it are not. -/
theorem vpn_notMem_rangePages (hva : va % pageSize = 0) (hn : n % pageSize = 0)
    (hlt : va + j < 2 ^ 32) (hle : n ≤ j) : vpn (w32 (va + j)) ∉ rangePages va n := by
  rw [mem_rangePages, w32, Nat.mod_eq_of_lt hlt]
  simp only [vpn, pageSize_eq] at hva hn ⊢
  omega

/-- The first `i` addresses are in all the pages of a range if they reach the last one. -/
theorem forall_exists_vpn_iff (h : Space.User va n) (hpos : 0 < n)
    (hmul : n / pageSize * pageSize = n) {i : Nat} :
    (∀ x ∈ rangePages va n, ∃ j < i, vpn (w32 (va + j)) = x) ↔ n - pageSize < i := by
  have hquot : 0 < n / pageSize :=
    Nat.pos_of_ne_zero fun hz ↦ hpos.ne' (by rw [← hmul, hz, Nat.zero_mul])
  have hlast : (n / pageSize - 1) * pageSize = n - pageSize := by
    rw [Nat.sub_mul, hmul, Nat.one_mul]
  constructor
  · intro hall
    by_contra hle
    obtain ⟨j, hj, hx⟩ := hall (vpn va + (n / pageSize - 1)) ⟨Nat.le_add_right _ _, by omega⟩
    have hlt := ((Space.exists_vpn_iff h (hlast.symm ▸ Nat.sub_le _ _)).1
      ⟨j, hlast.symm ▸ Nat.lt_of_lt_of_le hj (Nat.not_lt.1 hle), hx⟩).2
    omega
  · intro hlt x hx
    obtain ⟨hlo, hhi⟩ := mem_rangePages.1 hx
    have hle : (x - vpn va) * pageSize ≤ n - pageSize := by
      rw [← hlast]
      exact Nat.mul_le_mul_right _ (by omega)
    have hin : (x - vpn va) * pageSize < n :=
      Nat.lt_of_le_of_lt hle (Nat.sub_lt hpos (by decide))
    exact ⟨_, Nat.lt_of_le_of_lt hle hlt, by rw [h.vpn_add hin, Nat.add_sub_cancel' hlo]⟩

/-- The pages of a buffer are unmapped, and no others, if `i` happens to end in the last one or at
its end, or further on where there is no memory, and no page is exported. -/
theorem freeOk_iff (hR : Region vmMaxmmap) (hu : vmMaxmmap ≤ userEnd)
    (hgood : Good vmMaxmmap s.vmap) (hbuf : Buffer s va len) (i : Nat) :
    FreeOk rb vmMaxmmap s i va len ↔
      roundPage len - pageSize < i ∧
        (∀ j < i, roundPage len ≤ j →
          isuaddr (w32 (va + j)) ∧ s.page (vpn (w32 (va + j))) ≠ some .mem) ∧
        ∀ x ∈ rangePages va (roundPage len), s.page x = some .mem := by
  have hh := hgood.handed hbuf.out
  have huser := hh.user hu
  have htouch := forall_exists_vpn_iff huser hh.pos hh.pages (i := i)
  constructor
  · rintro ⟨s', hs', hnone, hsame, _⟩
    obtain ⟨t, ht, _⟩ := bind_eq_ok.1 hs'
    have hall : ∀ j < i, isuaddr (w32 (va + j)) := fun j hj ↦ Space.unmapBytes_isuaddr ht hj
    obtain ⟨t', ht', _, hp⟩ := dma32Free_ok hR hgood hbuf.out hall
    rw [hs'] at ht'
    cases ht'
    have hpage : ∀ x ∈ rangePages va (roundPage len),
        s.page x = some .mem ∧ ∃ j < i, vpn (w32 (va + j)) = x := by
      intro x hx
      have hx' := hnone x hx
      rw [hp] at hx'
      rcases hbuf.page x hx with hmem | hexp
      · refine ⟨hmem, ?_⟩
        by_contra hno
        rw [if_neg hno, hmem] at hx'
        cases hx'
      · rw [hexp] at hx'
        split_ifs at hx'
        exact absurd hx' (by decide)
    refine ⟨htouch.1 fun x hx ↦ (hpage x hx).2, fun j hj hle ↦ ⟨hall j hj, ?_⟩,
      fun x hx ↦ (hpage x hx).1⟩
    have hva : va < 2 ^ 32 := by
      have hhigh := hh.high
      have hmax := hR.lt_two_pow
      omega
    have hx := hsame _ (vpn_notMem_rangePages hh.addr_mod hh.size_mod
      (add_lt_of_isuaddr hva hall hj) hle)
    rw [hp, if_pos ⟨j, hj, rfl⟩] at hx
    exact Space.unmapped_eq_self_iff.1 hx
  · rintro ⟨hlt, hbeyond, hmem⟩
    have hall : ∀ j < i, isuaddr (w32 (va + j)) := by
      intro j hj
      rcases Nat.lt_or_ge j (roundPage len) with hin | hge
      · exact huser.isuaddr hin
      · exact (hbeyond j hj hge).1
    obtain ⟨s', hs', hout, hp⟩ := dma32Free_ok hR hgood hbuf.out hall
    refine ⟨s', hs', fun x hx ↦ ?_, fun x hx ↦ ?_, hout⟩
    · rw [hp, if_pos (htouch.2 hlt x hx), hmem x hx]
      rfl
    · rw [hp]
      split_ifs with hj
      · obtain ⟨j, hj, rfl⟩ := hj
        have hge : roundPage len ≤ j := Nat.not_lt.1 fun hin ↦
          hx (vpn_mem_rangePages huser hh.pages hin)
        exact Space.unmapped_eq_self_iff.2 (hbeyond j hj hge).2
      · rfl

/-- In every state of a run: `dma32_alloc` maps a whole buffer or leaves nothing behind if the size
can be rounded, and there is no range, or every page is new, or the first that is not was refused
and nothing was mapped from there on; and what `dma32_free` does to a buffer depends on what `i`
holds. -/
theorem dma32_exact_iff (rb : Rb) {vmMaxmmap : Nat} (hR : Region vmMaxmmap)
    (hu : vmMaxmmap ≤ userEnd) {ops : List Op} {s : Space}
    (hr : Run (Step rb vmMaxmmap) State.init ops s.vmap) :
    (∀ (vm : Nat → Int) (len : BitVec 32), 0 < len.toNat →
      (AllocOk rb vmMaxmmap vm s len.toNat ↔
        len.toNat ≤ 2 ^ 32 - pageSize ∧
          ∀ va v, exec rb vmMaxmmap s.vmap (.alloc len.toNat vfntMem32) = .ok (va, v) →
            va = 0 ∨ (∀ k < roundPage len.toNat / pageSize, vm k = 0) ∨
              ∃ k < roundPage len.toNat / pageSize, (∀ i < k, vm i = 0) ∧ vm k < 0 ∧
                ∀ x, k ≤ x → x < roundPage len.toNat / pageSize →
                  s.page (vpn va + x) = none)) ∧
    ∀ (i : BitVec 32) (va len : Nat), Buffer s va len →
      (FreeOk rb vmMaxmmap s i.toNat va len ↔
        roundPage len - pageSize < i.toNat ∧
          (∀ j < i.toNat, roundPage len ≤ j →
            isuaddr (w32 (va + j)) ∧ s.page (vpn (w32 (va + j))) ≠ some .mem) ∧
          ∀ x ∈ rangePages va (roundPage len), s.page x = some .mem) := by
  have hg := Good.run hR hr
  have hty : vfntMem32 ≠ vfntFree := by decide
  refine ⟨fun vm len hpos ↦ ?_, fun i va len hbuf ↦ freeOk_iff hR hu hg hbuf i.toNat⟩
  rcases Nat.lt_or_ge (2 ^ 32 - pageSize) len.toNat with hf | hf
  · refine iff_of_false ?_ fun h ↦ absurd h.1 (Nat.not_le.2 hf)
    rintro ⟨va, v, _, _, hex, _⟩
    rw [hg.alloc_error rb hR len.isLt hf hty] at hex
    cases hex
  · obtain ⟨va, v, hex, hgv, hres⟩ := hg.alloc rb hR hpos hf hty
    rw [and_iff_right hf, forall_exec_iff hex]
    rcases hres with ⟨rfl, hout⟩ | ⟨hne, hh, hout⟩
    · exact iff_of_true ⟨0, v, 0, _, hex, dma32Alloc_null vm hex, fun _ _ ↦ rfl,
        .inr ⟨rfl, hout, fun h ↦ absurd rfl h⟩⟩ (.inl rfl)
    · rw [or_iff_right hne]
      exact allocOk_iff hR hu hex hne hgv hh hout

/-- A new process asks the map for a page. -/
theorem alloc_empty : ∃ v,
    exec everyNode 0xbb800000 State.init (.alloc 0x1000 vfntMem32) = .ok (0x60000000, v) ∧
      Good 0xbb800000 v ∧ Handed 0xbb800000 State.init.out 0x60000000 (roundPage 0x1000) ∧
      v.out = insert (0x60000000, roundPage 0x1000) State.init.out := by
  have hempty : Run (Step everyNode 0xbb800000) State.init [] State.init := .nil _
  have hty : vfntMem32 ≠ vfntFree := by decide
  obtain ⟨va, v, hex, hg, hres⟩ :=
    (Good.run region_stack hempty).alloc everyNode region_stack (n := 0x1000) (by decide)
      (by decide) hty
  have hfirst : (exec everyNode 0xbb800000 State.init (.alloc 0x1000 vfntMem32)).toOption.map
      Prod.fst = some 0x60000000 := by decide +kernel
  rw [hex] at hfirst
  obtain rfl : va = 0x60000000 := Option.some.inj hfirst
  rcases hres with ⟨hz, _⟩ | ⟨_, hh, hout⟩
  · exact absurd hz (by decide)
  · exact ⟨v, hex, hg, hh, hout⟩

/-- A process with a buffer of a page. -/
theorem exists_buffer : ∃ s, Buffer s 0x60000000 0x1000 ∧
    (∀ x ∈ rangePages 0x60000000 (roundPage 0x1000), s.page x = some .mem) ∧
    ∃ ops, Run (Step everyNode 0xbb800000) State.init ops s.vmap := by
  obtain ⟨v, hex, _, _, hout⟩ := alloc_empty
  have ha : Allowed State.init (.alloc 0x1000 vfntMem32) := ⟨by decide, by decide, by decide⟩
  have hempty : Run (Step everyNode 0xbb800000) State.init [] State.init := .nil _
  refine ⟨⟨v, fun _ ↦ some .mem⟩, ⟨?_, fun _ _ ↦ .inl rfl⟩, fun _ _ ↦ rfl, _,
    hempty.snoc ⟨ha, _, hex⟩⟩
  show (0x60000000, roundPage 0x1000) ∈ v.out
  rw [hout]
  exact Set.mem_insert _ _

/-- A new process gets a buffer of a page, and it is gone if `i` holds the size of a page. -/
theorem dma32_exact_iff_page :
    AllocOk everyNode 0xbb800000 (fun _ ↦ 0) emptySpace 0x1000 ∧
      ∃ s, Buffer s 0x60000000 0x1000 ∧
        FreeOk everyNode 0xbb800000 s 0x200000 0x60000000 0x1000 := by
  have hu : 0xbb800000 ≤ userEnd := by decide
  obtain ⟨s, hbuf, hmem, ops, hr⟩ := exists_buffer
  refine ⟨((dma32_exact_iff everyNode region_stack hu (s := emptySpace) (.nil _)).1 (fun _ ↦ 0)
    0x1000 (by decide)).2 ⟨by decide, fun _ _ _ ↦ .inr (.inl fun _ _ ↦ rfl)⟩, s, hbuf, ?_⟩
  refine ((dma32_exact_iff everyNode region_stack hu hr).2 0x200000 _ _ hbuf).2 ⟨by decide,
    fun j hj hle ↦ ?_, hmem⟩
  have hround : roundPage 0x1000 = 0x200000 := by decide
  rw [hround] at hle
  exact absurd hj (Nat.not_lt.2 hle)

/-- The first page replaces an old one: nothing is returned and the new page stays.  And `i` holds 0
when a buffer is freed: its memory stays. -/
theorem dma32_leaks :
    ¬ AllocOk everyNode 0xbb800000 (fun _ ↦ 1) ⟨State.init, fun _ ↦ some .mem⟩ 0x1000 ∧
      ∃ s, Buffer s 0x60000000 0x1000 ∧
        ¬ FreeOk everyNode 0xbb800000 s 0 0x60000000 0x1000 := by
  have hu : 0xbb800000 ≤ userEnd := by decide
  constructor
  · intro h
    obtain ⟨v, hex, hg, hh, hout⟩ := alloc_empty
    rcases (allocOk_iff (s := ⟨State.init, fun _ ↦ some .mem⟩) region_stack hu hex (by decide) hg
      hh hout).1 h with hall | ⟨k, _, _, hneg, _⟩
    · exact absurd (hall 0 (by decide)) (by decide)
    · exact absurd hneg (by decide)
  · obtain ⟨s, hbuf, _, _, hr⟩ := exists_buffer
    refine ⟨s, hbuf, fun h ↦ ?_⟩
    exact absurd ((freeOk_iff region_stack hu (Good.run region_stack hr) hbuf 0).1 h).1
      (Nat.not_lt_zero _)

end Mh.Mrg
