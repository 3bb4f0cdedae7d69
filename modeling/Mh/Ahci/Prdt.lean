import Mh.Param
import Mh.Lib.Outcome
import Mathlib.Data.List.Perm.Basic

/-!
# The exported pages of an AHCI command

`ahci_port_set_prdt`, `ahci_port_unset_prdt` and `ahci_port_issue_qop` of `libahci/ahci.c`, up to
the registers of the port.  A page of a buffer is exported to the controller for as long as the
command runs.  What the driver asks of the kernel is a list of `DmaCall`s; what the `k`-th call of
`dexport` returns and stores, `dx k`, is an argument.
-/

namespace Mh.Ahci

/-- A call of `dexport`, with what it returns, or of `dunexport`. -/
inductive DmaCall
  | dexport (va sz : Nat) (ret : Int)
  | dunexport (va : Nat)
deriving DecidableEq, Repr

/-- The address that a call exports. -/
def DmaCall.exports : DmaCall → Option Nat
  | .dexport va _ ret => if ret = 0 then some va else none
  | .dunexport _ => none

/-- The address that a call unexports. -/
def DmaCall.unexports : DmaCall → Option Nat
  | .dexport .. => none
  | .dunexport va => some va

/-- The addresses that were exported. -/
def exported (l : List DmaCall) : List Nat := l.filterMap DmaCall.exports

/-- The addresses that were to be unexported. -/
def unexported (l : List DmaCall) : List Nat := l.filterMap DmaCall.unexports

/-- `struct blk_ahci_hw_prdt`, without the interrupt bit of the last one. -/
structure Prdt where
  dba : Nat
  dbau : Nat
  dbc : Nat
deriving DecidableEq, Repr

/-- What is written for `chunk` bytes at `iova`. -/
def entry (iova chunk : Nat) : Prdt := ⟨w32 iova, iova / 2 ^ 32, w32 (chunk + (2 ^ 32 - 1))⟩

/-- `AHCI_PORT_PRDT_SIZE`. -/
def portPrdtSize : Nat := 8

/-- `AHCI_PORT_DMA_MAXSIZE`. -/
def portDmaMaxsize : Nat := (portPrdtSize - 1) * pageSize

/-- The number of rounds: `(round_page(addr + sz) - trunc_page(addr)) >> PAGE_SHIFT`. -/
def npages (addr sz : Nat) : Nat :=
  w32 (roundPage (w32 (addr + sz)) + 2 ^ 32 - truncPage addr) / pageSize

/-- The size of the piece at `addr`.  `sz` is the size of the whole buffer in every round. -/
def chunk (addr sz : Nat) : Nat := min (pageSize - addr % pageSize) sz

/-- What a function returns, what it asked of the kernel, and the table that it filled in. -/
structure Setup where
  ret : Int
  calls : List DmaCall
  prdt : List Prdt
deriving DecidableEq, Repr

variable (dx : Nat → Int × Nat)

/-- The loop of `ahci_port_set_prdt` from round `k`, with the number of rounds that are left.
`addr` moves on, and what is undone after a failure is counted from where it stands. -/
def setPrdtFrom : Nat → Nat → Nat → Nat → Setup
  | 0, _, _, _ => ⟨0, [], []⟩
  | m + 1, k, addr, sz =>
    let c := chunk addr sz
    let (ret, iova) := dx k
    if ret ≠ 0 then
      ⟨ret, .dexport addr c ret ::
        (List.range k).map fun l ↦ .dunexport (w32 (addr + l * pageSize)), []⟩
    else
      let r := setPrdtFrom m (k + 1) (w32 (addr + c)) sz
      ⟨r.ret, .dexport addr c 0 :: r.calls, entry iova c :: r.prdt⟩

/-- `ahci_port_set_prdt`; without a round it writes through a pointer that was never set. -/
def setPrdt (addr sz : Nat) : Option Setup :=
  if portDmaMaxsize ≤ sz then some ⟨Errno.ENOMEM.neg, [], []⟩
  else if npages addr sz = 0 then none
  else some (setPrdtFrom dx (npages addr sz) 0 addr sz)

/-- `ahci_port_unset_prdt`. -/
def unsetPrdt (addr sz : Nat) : List DmaCall :=
  (List.range (npages addr sz)).map fun _ ↦ .dunexport addr

/-- What `ahci_port_set_fis` returns: 0 is `BLK_OP_READ`, 1 is `BLK_OP_WRITE`. -/
def setFis (op : Nat) : Int := if op ≤ 1 then 0 else Errno.ENODEV.neg

/-- `ahci_port_issue_qop` up to the registers. -/
def issueSetup (op addr sz : Nat) : Option Setup := do
  let r ← setPrdt dx addr sz
  if r.ret ≠ 0 then return r
  if setFis op ≠ 0 then return ⟨setFis op, r.calls, r.prdt⟩
  return r

/-! ## What the caller relies on -/

/-- The pages of a buffer. -/
def HasPage (addr sz p : Nat) : Prop := ∃ i < sz, vpn (w32 (addr + i)) = p

/-- Each page of the buffer is exported once, or nothing stays exported. -/
def SetOk (addr sz : Nat) (r : Setup) : Prop :=
  r.ret = 0 ∧ unexported r.calls = [] ∧ ((exported r.calls).map vpn).Nodup ∧
      (∀ p, p ∈ (exported r.calls).map vpn ↔ HasPage addr sz p) ∨
    r.ret ≠ 0 ∧ (unexported r.calls).Perm (exported r.calls)

/-- The completion of a command undoes its exports, and so does a command that is not issued. -/
def IssueOk (addr sz : Nat) (r : Setup) : Prop :=
  if r.ret = 0 then (unexported (unsetPrdt addr sz)).Perm (exported r.calls)
  else (unexported r.calls).Perm (exported r.calls)

/-- Both, for the buffer and the operation of a request. -/
def Balanced (op addr sz : Nat) : Prop :=
  (∃ r, setPrdt dx addr sz = some r ∧ SetOk addr sz r) ∧
    ∃ r, issueSetup dx op addr sz = some r ∧ IssueOk addr sz r

/-! ## Pages and rounds -/

variable {dx} {addr sz k m op : Nat}

theorem portDmaMaxsize_eq : portDmaMaxsize = 14680064 := by decide

/-- The number of rounds is that of the pages from the first byte to the last. -/
theorem npages_eq (ha : addr < 2 ^ 32) (hs : sz < portDmaMaxsize) :
    npages addr sz = (addr % pageSize + sz + (pageSize - 1)) / pageSize := by
  rw [portDmaMaxsize_eq] at hs
  simp only [npages, roundPage, truncPage, w32, pageSize_eq]
  omega

/-- The address of the next round. -/
def next (sz addr : Nat) : Nat := w32 (addr + chunk addr sz)

/-- The address of a round: the beginning of its page, after the first. -/
theorem next_iterate (ha : addr < 2 ^ 32) (hs : sz < portDmaMaxsize) (hk : k + 1 < npages addr sz) :
    (next sz)^[k + 1] addr = w32 (truncPage addr + (k + 1) * pageSize) := by
  rw [npages_eq ha hs] at hk
  rw [portDmaMaxsize_eq] at hs
  rw [pageSize_eq] at hk
  induction k with
  | zero =>
      simp only [Function.iterate_succ, Function.iterate_zero, Function.comp_apply, id_eq, next,
        chunk, w32, truncPage, pageSize_eq]
      omega
  | succ k ih =>
      rw [Function.iterate_succ_apply', ih (by omega)]
      simp only [next, chunk, w32, truncPage, pageSize_eq]
      omega

/-- The page of a round. -/
theorem vpn_iterate (ha : addr < 2 ^ 32) (hs : sz < portDmaMaxsize) (hk : k < npages addr sz) :
    vpn ((next sz)^[k] addr) = (vpn addr + k) % 2048 := by
  cases k with
  | zero =>
      simp only [Function.iterate_zero, id_eq, vpn, pageSize_eq]
      omega
  | succ k =>
      rw [next_iterate ha hs hk]
      simp only [vpn, w32, truncPage, pageSize_eq]
      omega

/-- There are less than nine rounds. -/
theorem npages_le (ha : addr < 2 ^ 32) (hs : sz < portDmaMaxsize) : npages addr sz ≤ 8 := by
  rw [npages_eq ha hs]
  rw [portDmaMaxsize_eq] at hs
  simp only [pageSize_eq]
  omega

/-! ## The loop -/

/-- The addresses of `m` rounds. -/
def addrs (sz m addr : Nat) : List Nat := (List.range m).map fun j ↦ (next sz)^[j] addr

theorem addrs_succ (sz m addr : Nat) :
    addrs sz (m + 1) addr = addr :: addrs sz m (next sz addr) := by
  rw [addrs, addrs, List.range_succ_eq_map, List.map_cons, List.map_map]
  rfl

/-- A round whose page is exported. -/
theorem setPrdtFrom_succ_ok (h : (dx k).1 = 0) :
    setPrdtFrom dx (m + 1) k addr sz =
      ⟨(setPrdtFrom dx m (k + 1) (next sz addr) sz).ret,
        .dexport addr (chunk addr sz) 0 :: (setPrdtFrom dx m (k + 1) (next sz addr) sz).calls,
        entry (dx k).2 (chunk addr sz) :: (setPrdtFrom dx m (k + 1) (next sz addr) sz).prdt⟩ := by
  rw [setPrdtFrom]
  exact if_neg (not_not_intro h)

/-- A round whose page is not. -/
theorem setPrdtFrom_succ_fail (h : (dx k).1 ≠ 0) :
    setPrdtFrom dx (m + 1) k addr sz =
      ⟨(dx k).1, .dexport addr (chunk addr sz) (dx k).1 ::
        (List.range k).map fun l ↦ .dunexport (w32 (addr + l * pageSize)), []⟩ := by
  rw [setPrdtFrom]
  exact if_pos h

/-- What is undone is not exported again. -/
theorem exported_undo (l : List Nat) : exported (l.map .dunexport) = [] := by
  induction l with
  | nil => rfl
  | cons a l ih => exact ih

theorem unexported_undo (l : List Nat) : unexported (l.map .dunexport) = l := by
  induction l with
  | nil => rfl
  | cons a l ih => exact congrArg (a :: ·) ih

/-- When every call succeeds. -/
theorem setPrdtFrom_ok (dx : Nat → Int × Nat) (m k addr sz : Nat)
    (h : ∀ j < m, (dx (k + j)).1 = 0) :
    (setPrdtFrom dx m k addr sz).ret = 0 ∧
      exported (setPrdtFrom dx m k addr sz).calls = addrs sz m addr ∧
      unexported (setPrdtFrom dx m k addr sz).calls = [] := by
  induction m generalizing k addr with
  | zero => exact ⟨rfl, rfl, rfl⟩
  | succ m ih =>
      have h₀ : (dx k).1 = 0 := h 0 (Nat.succ_pos m)
      obtain ⟨hret, hex, hun⟩ := ih (k + 1) (next sz addr) fun j hj ↦ by
        rw [Nat.add_assoc, Nat.add_comm 1]
        exact h (j + 1) (Nat.succ_lt_succ hj)
      rw [setPrdtFrom_succ_ok h₀, addrs_succ, ← hex]
      exact ⟨hret, rfl, hun⟩

/-- What is undone when the loop stops at `addr` in round `k`. -/
def undone (k addr : Nat) : List Nat := (List.range k).map fun l ↦ w32 (addr + l * pageSize)

/-- When call `k + j` is the first that fails. -/
theorem setPrdtFrom_fail (dx : Nat → Int × Nat) (k addr sz : Nat) {j : Nat} (hj : j < m)
    (h : ∀ i < j, (dx (k + i)).1 = 0) (hf : (dx (k + j)).1 ≠ 0) :
    (setPrdtFrom dx m k addr sz).ret ≠ 0 ∧
      exported (setPrdtFrom dx m k addr sz).calls = addrs sz j addr ∧
      unexported (setPrdtFrom dx m k addr sz).calls = undone (k + j) ((next sz)^[j] addr) := by
  induction m generalizing k addr j with
  | zero => exact absurd hj (Nat.not_lt_zero j)
  | succ m ih =>
      cases j with
      | zero =>
          rw [Nat.add_zero] at hf
          have hmap : (List.range k).map (fun l ↦ DmaCall.dunexport (w32 (addr + l * pageSize))) =
              (undone k addr).map .dunexport := List.map_map.symm
          rw [setPrdtFrom_succ_fail hf, hmap]
          refine ⟨hf, ?_, unexported_undo _⟩
          rw [exported, List.filterMap_cons, DmaCall.exports, if_neg hf]
          exact exported_undo _
      | succ j =>
          have h₀ : (dx k).1 = 0 := h 0 (Nat.succ_pos j)
          have heq : ∀ i, k + 1 + i = k + (i + 1) := fun i ↦ by omega
          obtain ⟨hret, hex, hun⟩ := ih (k + 1) (next sz addr)
            (Nat.lt_of_succ_lt_succ hj)
            (fun i hi ↦ heq i ▸ h (i + 1) (Nat.succ_lt_succ hi)) (heq j ▸ hf)
          rw [setPrdtFrom_succ_ok h₀, addrs_succ, ← hex, Function.iterate_succ_apply, ← heq j,
            ← hun]
          exact ⟨hret, rfl, rfl⟩

/-! ## Which pages are exported -/

/-- The first page is among those that are exported. -/
theorem mem_addrs_zero (hm : 0 < m) : addr ∈ addrs sz m addr :=
  List.mem_map.2 ⟨0, List.mem_range.2 hm, rfl⟩

/-- The pages that are undone in round `k` are those from there on. -/
theorem vpn_of_mem_undone {a j : Nat} (ha : addr < 2 ^ 32) (hs : sz < portDmaMaxsize)
    (hk : k < npages addr sz) (h : a ∈ undone j ((next sz)^[k] addr)) :
    ∃ l < j, vpn a = (vpn addr + k + l) % 2048 := by
  obtain ⟨l, hl, rfl⟩ := List.mem_map.1 h
  refine ⟨l, List.mem_range.1 hl, ?_⟩
  have hv : vpn (w32 ((next sz)^[k] addr + l * pageSize)) =
      (vpn ((next sz)^[k] addr) + l) % 2048 := by
    simp only [vpn, w32, pageSize_eq]
    omega
  rw [hv, vpn_iterate ha hs hk]
  omega

/-- A failure after the first page undoes the wrong ones. -/
theorem undone_not_perm (ha : addr < 2 ^ 32) (hs : sz < portDmaMaxsize) (hk : k < npages addr sz)
    (hpos : 0 < k) : ¬ (undone k ((next sz)^[k] addr)).Perm (addrs sz k addr) := by
  intro hp
  obtain ⟨l, hl, hv⟩ := vpn_of_mem_undone ha hs hk (hp.symm.subset (mem_addrs_zero hpos))
  have hle := npages_le ha hs
  have hlt : vpn addr < 2048 := by
    rw [vpn, pageSize_eq]
    omega
  omega

/-- The completion of a command with several pages does not undo the second one. -/
theorem unset_not_perm (ha : addr < 2 ^ 32) (hs : sz < portDmaMaxsize) (hn : 1 < npages addr sz) :
    ¬ (unexported (unsetPrdt addr sz)).Perm (addrs sz (npages addr sz) addr) := by
  intro hp
  have hmem : (next sz)^[1] addr ∈ addrs sz (npages addr sz) addr :=
    List.mem_map.2 ⟨1, List.mem_range.2 hn, rfl⟩
  have hun : unexported (unsetPrdt addr sz) = (List.range (npages addr sz)).map fun _ ↦ addr := by
    rw [← unexported_undo ((List.range (npages addr sz)).map fun _ ↦ addr), List.map_map]
    rfl
  rw [hun] at hp
  obtain ⟨_, _, heq⟩ := List.mem_map.1 (hp.symm.subset hmem)
  have hv := vpn_iterate ha hs hn
  rw [← heq] at hv
  have hlt : vpn addr < 2048 := by
    rw [vpn, pageSize_eq]
    omega
  omega

/-- A buffer within a page has that page. -/
theorem hasPage_one (ha : addr < 2 ^ 32) (hpos : 0 < sz) (hone : addr % pageSize + sz ≤ pageSize)
    (p : Nat) : HasPage addr sz p ↔ p = vpn addr := by
  have hv : ∀ i < sz, vpn (w32 (addr + i)) = vpn addr := by
    intro i hi
    rw [pageSize_eq] at hone
    simp only [vpn, w32, pageSize_eq]
    omega
  constructor
  · rintro ⟨i, hi, rfl⟩
    exact hv i hi
  · rintro rfl
    exact ⟨0, hpos, hv 0 hpos⟩

/-- There is a round, unless the buffer is empty and starts a page. -/
theorem npages_ne_zero (ha : addr < 2 ^ 32) (hs : sz < portDmaMaxsize) :
    npages addr sz ≠ 0 ↔ 0 < sz ∨ addr % pageSize ≠ 0 := by
  rw [npages_eq ha hs, pageSize_eq]
  omega

/-- There is one round for a buffer within a page. -/
theorem npages_le_one (ha : addr < 2 ^ 32) (hs : sz < portDmaMaxsize) :
    npages addr sz ≤ 1 ↔ addr % pageSize + sz ≤ pageSize := by
  rw [npages_eq ha hs, pageSize_eq]
  omega

/-! ## The functions -/

theorem setPrdt_some (dx : Nat → Int × Nat) (hs : sz < portDmaMaxsize) (hn : npages addr sz ≠ 0) :
    setPrdt dx addr sz = some (setPrdtFrom dx (npages addr sz) 0 addr sz) := by
  rw [setPrdt, if_neg (Nat.not_le.2 hs), if_neg hn]

theorem setPrdt_zero (hs : sz < portDmaMaxsize) (hn : npages addr sz = 0) :
    setPrdt dx addr sz = none := by
  rw [setPrdt, if_neg (Nat.not_le.2 hs), if_pos hn]

/-- A command whose buffer is not exported is not issued. -/
theorem issueSetup_fail {r : Setup} (hset : setPrdt dx addr sz = some r) (hret : r.ret ≠ 0) :
    issueSetup dx op addr sz = some r := by
  rw [issueSetup, hset, Option.bind_eq_bind, Option.bind_some, if_pos hret]
  rfl

/-- A command whose buffer is exported. -/
theorem issueSetup_ok {r : Setup} (hset : setPrdt dx addr sz = some r) (hret : r.ret = 0) :
    issueSetup dx op addr sz =
      some (if op ≤ 1 then r else ⟨Errno.ENODEV.neg, r.calls, r.prdt⟩) := by
  rw [issueSetup, hset, Option.bind_eq_bind, Option.bind_some, if_neg (not_not_intro hret)]
  by_cases hop : op ≤ 1
  · rw [setFis, if_pos hop, if_pos hop]
    rfl
  · rw [setFis, if_neg hop, if_neg hop]
    rfl

/-- A command of an unknown operation has to undo its exports at once. -/
theorem IssueOk.of_enodev {r : Setup}
    (h : IssueOk addr sz ⟨Errno.ENODEV.neg, r.calls, r.prdt⟩) :
    (unexported r.calls).Perm (exported r.calls) := by
  have hno : Errno.ENODEV.neg ≠ 0 := by decide
  rw [IssueOk, if_neg hno] at h
  exact h

/-! ## When the exports balance -/

/-- A buffer that is too large is not exported. -/
theorem Balanced.of_large (hs : portDmaMaxsize ≤ sz) : Balanced dx op addr sz := by
  have hset : setPrdt dx addr sz = some ⟨Errno.ENOMEM.neg, [], []⟩ := by
    rw [setPrdt, if_pos hs]
  have hret : Errno.ENOMEM.neg ≠ 0 := by decide
  exact ⟨⟨_, hset, .inr ⟨hret, .refl _⟩⟩, _, issueSetup_fail hset hret, by
    rw [IssueOk, if_neg hret]
    exact .refl _⟩

/-- A buffer whose first page is not exported has nothing to undo. -/
theorem Balanced.of_fail (hs : sz < portDmaMaxsize) (hn : npages addr sz ≠ 0)
    (hf : (dx 0).1 ≠ 0) : Balanced dx op addr sz := by
  have hset := setPrdt_some dx hs hn
  obtain ⟨hret, hex, hun⟩ := setPrdtFrom_fail dx 0 addr sz (j := 0)
    (Nat.pos_of_ne_zero hn) (fun i hi ↦ absurd hi (Nat.not_lt_zero i)) hf
  have hperm : (unexported (setPrdtFrom dx (npages addr sz) 0 addr sz).calls).Perm
      (exported (setPrdtFrom dx (npages addr sz) 0 addr sz).calls) := by
    rw [hex, hun]
    exact List.Perm.nil
  refine ⟨⟨_, hset, .inr ⟨hret, hperm⟩⟩, _, issueSetup_fail hset hret, ?_⟩
  rw [IssueOk, if_neg hret]
  exact hperm

/-- A read or a write of a buffer within a page. -/
theorem Balanced.of_one (ha : addr < 2 ^ 32) (hs : sz < portDmaMaxsize) (hpos : 0 < sz)
    (hone : addr % pageSize + sz ≤ pageSize) (hop : op ≤ 1) (h₀ : (dx 0).1 = 0) :
    Balanced dx op addr sz := by
  have hn : npages addr sz = 1 := Nat.le_antisymm ((npages_le_one ha hs).2 hone)
    (Nat.pos_of_ne_zero ((npages_ne_zero ha hs).2 (.inl hpos)))
  have hset := setPrdt_some dx hs (hn.trans_ne Nat.one_ne_zero)
  obtain ⟨hret, hex, hun⟩ := setPrdtFrom_ok dx (npages addr sz) 0 addr sz
    fun j hj ↦ by
      rw [hn, Nat.lt_one_iff] at hj
      rw [hj]
      exact h₀
  have haddrs : addrs sz (npages addr sz) addr = [addr] := by
    rw [hn]
    rfl
  rw [haddrs] at hex
  refine ⟨⟨_, hset, .inl ⟨hret, hun, ?_, fun p ↦ ?_⟩⟩, _, issueSetup_ok hset hret, ?_⟩
  · rw [hex]
    exact List.nodup_singleton _
  · rw [hex, hasPage_one ha hpos hone p]
    exact List.mem_singleton
  · rw [if_pos hop, IssueOk, if_pos hret, hex, unsetPrdt, hn]
    exact .refl _

/-- When the first page is exported, the buffer is within a page and the operation is known. -/
theorem Balanced.one (ha : addr < 2 ^ 32) (hs : sz < portDmaMaxsize) (h₀ : (dx 0).1 = 0)
    (h : Balanced dx op addr sz) : 0 < sz ∧ addr % pageSize + sz ≤ pageSize ∧ op ≤ 1 := by
  obtain ⟨⟨r, hr, hok⟩, r', hr', hissue⟩ := h
  have hn : npages addr sz ≠ 0 := by
    intro hn
    rw [setPrdt_zero hs hn] at hr
    exact Option.some_ne_none r hr.symm
  have hset := setPrdt_some dx hs hn
  rcases Lib.first_fail (fun j ↦ (dx j).1 = 0) (npages addr sz) with hall | ⟨j, hj, hfirst, hf⟩
  · obtain ⟨hret, hex, hun⟩ := setPrdtFrom_ok dx (npages addr sz) 0 addr sz
      fun j hj ↦ by
        rw [Nat.zero_add]
        exact hall j hj
    rw [hset, Option.some.injEq] at hr
    rw [issueSetup_ok hset hret, Option.some.injEq] at hr'
    subst hr hr'
    have hpos : 0 < sz := by
      rcases hok with ⟨_, _, _, hpage⟩ | ⟨hne, _⟩
      · rw [hex] at hpage
        obtain ⟨i, hi, _⟩ := (hpage _).1
          (List.mem_map_of_mem (mem_addrs_zero (Nat.pos_of_ne_zero hn)))
        exact Nat.zero_lt_of_lt hi
      · exact absurd hret hne
    by_cases hop : op ≤ 1
    · rw [if_pos hop, IssueOk, if_pos hret, hex] at hissue
      refine ⟨hpos, (npages_le_one ha hs).1 (Nat.not_lt.1 fun hlt ↦ ?_), hop⟩
      exact unset_not_perm ha hs hlt hissue
    · rw [if_neg hop] at hissue
      have hperm := hissue.of_enodev
      rw [hun, hex] at hperm
      have hmem : addr ∈ [] := hperm.mem_iff.2 (mem_addrs_zero (Nat.pos_of_ne_zero hn))
      exact absurd hmem List.not_mem_nil
  · have hj₀ : 0 < j := Nat.pos_of_ne_zero fun hz ↦ hf (hz ▸ h₀)
    obtain ⟨hret, hex, hun⟩ := setPrdtFrom_fail dx 0 addr sz hj
      (fun i hi ↦ by
        rw [Nat.zero_add]
        exact hfirst i hi)
      (by
        rw [Nat.zero_add]
        exact hf)
    rw [hset, Option.some.injEq] at hr
    subst hr
    rcases hok with ⟨hz, _⟩ | ⟨_, hperm⟩
    · exact absurd hz hret
    · rw [hex, hun, Nat.zero_add] at hperm
      exact absurd hperm (undone_not_perm ha hs hj hj₀)

/-- The exports of a request balance when it has nothing to undo, and when it has one page and is
known to `ahci_port_set_fis`. -/
theorem prdt_balanced_iff (dx : Nat → Int × Nat) (op : Nat) (addr sz : BitVec 32) :
    Balanced dx op addr.toNat sz.toNat ↔
      portDmaMaxsize ≤ sz.toNat ∨
        (0 < sz.toNat ∨ addr.toNat % pageSize ≠ 0) ∧ (dx 0).1 ≠ 0 ∨
        0 < sz.toNat ∧ addr.toNat % pageSize + sz.toNat ≤ pageSize ∧ op ≤ 1 := by
  have ha : addr.toNat < 2 ^ 32 := addr.isLt
  rcases Nat.lt_or_ge sz.toNat portDmaMaxsize with hs | hs
  · by_cases h₀ : (dx 0).1 = 0
    · constructor
      · exact fun h ↦ .inr (.inr (h.one ha hs h₀))
      · rintro (hlarge | ⟨_, hf⟩ | ⟨hpos, hone, hop⟩)
        · exact .of_large hlarge
        · exact absurd h₀ hf
        · exact .of_one ha hs hpos hone hop h₀
    · constructor
      · rintro ⟨⟨r, hr, _⟩, _⟩
        refine .inr (.inl ⟨(npages_ne_zero ha hs).1 fun hn ↦ ?_, h₀⟩)
        rw [setPrdt_zero hs hn] at hr
        exact Option.some_ne_none r hr.symm
      · rintro (hlarge | ⟨hsome, _⟩ | ⟨hpos, _⟩)
        · exact .of_large hlarge
        · exact .of_fail hs ((npages_ne_zero ha hs).2 hsome) h₀
        · exact .of_fail hs ((npages_ne_zero ha hs).2 (.inl hpos)) h₀
  · exact ⟨fun _ ↦ .inl hs, fun _ ↦ .of_large hs⟩

/-- A read into two pages that are both exported: the first is undone twice, the second never. -/
theorem prdt_two_pages :
    issueSetup (fun k ↦ (0, (k + 1) * 0x200000)) 0 0x400000 0x400000 =
        some ⟨0, [.dexport 0x400000 0x200000 0, .dexport 0x600000 0x200000 0],
          [⟨0x200000, 0, 0x1fffff⟩, ⟨0x400000, 0, 0x1fffff⟩]⟩ ∧
      unsetPrdt 0x400000 0x400000 = [.dunexport 0x400000, .dunexport 0x400000] ∧
      ¬ Balanced (fun k ↦ (0, (k + 1) * 0x200000)) 0 0x400000 0x400000 := by
  refine ⟨by decide +kernel, by decide +kernel, fun h ↦ ?_⟩
  exact absurd (h.one (by decide) (by decide) rfl).2.1 (by decide)

/-- The second page is not exported: it is the one that is undone, and the first stays. -/
example :
    setPrdt (fun k ↦ (if k = 0 then 0 else Errno.ENOMEM.neg, 0)) 0x400000 0x400000 =
      some ⟨Errno.ENOMEM.neg, [.dexport 0x400000 0x200000 0,
        .dexport 0x600000 0x200000 Errno.ENOMEM.neg, .dunexport 0x600000],
        [⟨0, 0, 0x1fffff⟩]⟩ := by
  decide +kernel

end Mh.Ahci
