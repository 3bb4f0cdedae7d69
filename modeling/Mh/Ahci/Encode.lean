import Mh.Ahci.Prdt
import Mathlib.Algebra.GroupWithZero.Nat
import Mathlib.Data.Nat.Digits.Defs
import Mathlib.Tactic.IntervalCases
import Mathlib.Algebra.BigOperators.Group.List.Basic

/-!
# What an AHCI command says

`ahci_port_issue_qop` with the memory that it fills in for the controller: the command header, the
command FIS and the table of `ahci_port_set_prdt`, as `libahci/ahci.c` and `libahci/ahci_hw.h` lay
them out.  What the controller reads out of them is compared with the request.
-/

namespace Mh.Ahci

/-- The mask and the shift of a field, `_n##_MASK` and `_n##_SHIFT`. -/
structure BitFld where
  mask : BitVec 32
  shift : Nat

/-- `bitfld_set`. -/
def bitfldSet (v : BitVec 32) (n : BitFld) (f : BitVec 32) : BitVec 32 :=
  v &&& ~~~n.mask ||| f <<< n.shift &&& n.mask

/-- `bitfld_get`. -/
def bitfldGet (v : BitVec 32) (n : BitFld) : BitVec 32 := (v &&& n.mask) >>> n.shift

/-- `CMDHDR_PRDTL`. -/
def cmdhdrPrdtl : BitFld := ⟨0xffff0000, 16⟩

/-- `CMDHDR_CFL`. -/
def cmdhdrCfl : BitFld := ⟨0x0000001f, 0⟩

/-- `CMDHDR_W`. -/
def cmdhdrW : BitVec 32 := 1#32 <<< 6

/-- `struct blk_ahci_hw_cmdhdr`, without the reserved words. -/
structure CmdHdr where
  opts : BitVec 32
  prdbc : BitVec 32
  ctba : BitVec 32
  ctbau : BitVec 32
deriving DecidableEq, Repr

/-- `struct fis_reg_h2d`, without the word that must be zero. -/
structure FisRegH2d where
  fis : BitVec 8 := 0
  flags : BitVec 8 := 0
  cmd : BitVec 8 := 0
  feature1 : BitVec 8 := 0
  lba0 : BitVec 8 := 0
  lba1 : BitVec 8 := 0
  lba2 : BitVec 8 := 0
  dev : BitVec 8 := 0
  lba3 : BitVec 8 := 0
  lba4 : BitVec 8 := 0
  lba5 : BitVec 8 := 0
  feature2 : BitVec 8 := 0
  count1 : BitVec 8 := 0
  count2 : BitVec 8 := 0
  icc : BitVec 8 := 0
  control : BitVec 8 := 0
deriving DecidableEq, Repr

/-- `v & 0xff`, stored in a byte. -/
def lowByte {w : Nat} (v : BitVec w) : BitVec 8 := (v &&& 0xff).setWidth 8

/-- What `ahci_port_issue_qop` reads of a `struct blk_ahci_qop` before the registers of the port. -/
structure QopData where
  op : BitVec 32
  data : BitVec 32
  sz : BitVec 32
  blkid : BitVec 64
  nblks : BitVec 32
deriving DecidableEq, Repr

/-- The `switch` of `ahci_port_set_fis`: the command of an operation, and what it adds to the
options of the header. -/
def fisCmd (op : BitVec 32) : Option (BitVec 8 × BitVec 32) :=
  if op = 0 then some (0x25, 0) else if op = 1 then some (0x35, cmdhdrW) else none

/-- `ahci_port_set_fis`: what it returns, the header and the FIS. -/
def portSetFis (ch : CmdHdr) (op : BitVec 32) (blkid : BitVec 64) (nblks : BitVec 32) :
    Int × CmdHdr × FisRegH2d :=
  let cfis : FisRegH2d := { fis := 0x27, flags := 0x80, dev := 1#8 <<< 6 }
  match fisCmd op with
  | none => (Errno.ENODEV.neg, ch, cfis)
  | some (cmd, w) =>
    let opts := ch.opts ||| w
    (0, { ch with opts := opts ||| bitfldSet opts cmdhdrCfl 5 },
      { cfis with
        cmd
        lba0 := lowByte blkid
        lba1 := lowByte (blkid >>> 8)
        lba2 := lowByte (blkid >>> 16)
        lba3 := lowByte (blkid >>> 24)
        lba4 := lowByte (blkid >>> 32)
        lba5 := lowByte (blkid >>> 40)
        count1 := lowByte nblks
        count2 := lowByte (nblks >>> 8) })

/-- `prdt->dbc |= PRDT_DBC_I`, for the last entry. -/
def markLast : List Prdt → List Prdt
  | [] => []
  | [e] => [{ e with dbc := e.dbc ||| 2 ^ 31 }]
  | e :: e' :: l => e :: markLast (e' :: l)

/-- What `ahci_port_issue_qop` returns, what it asked of the kernel, and what it filled in.  The
FIS is there if `ahci_port_set_fis` was reached. -/
structure Cmd where
  ret : Int
  calls : List DmaCall
  ch : CmdHdr
  cfis : Option FisRegH2d
  prdt : List Prdt
deriving DecidableEq, Repr

/-- `blk_ahci_ctba_iova`. -/
def ctbaIova (memIova : BitVec 64) (i j : Nat) : BitVec 64 :=
  memIova + .ofNat 64 (40 <<< 10) + .ofNat 64 (i <<< 13) + .ofNat 64 (j <<< 8)

/-- The header before `ahci_port_set_prdt`. -/
def newHdr (memIova : BitVec 64) (i j : Nat) : CmdHdr :=
  ⟨0, 0, (ctbaIova memIova i j).setWidth 32, (ctbaIova memIova i j >>> 32).setWidth 32⟩

/-- The end of `ahci_port_set_prdt`: the header has the number of rounds. -/
def CmdHdr.setPrdtl (ch : CmdHdr) (n : Nat) : CmdHdr :=
  { ch with opts := ch.opts ||| bitfldSet ch.opts cmdhdrPrdtl (.ofNat 32 n) }

/-- `ahci_port_issue_qop` up to the registers of the port. -/
def issueQop (dx : Nat → Int × Nat) (memIova : BitVec 64) (i j : Nat) (q : QopData) :
    Option Cmd := do
  let ch := newHdr memIova i j
  let r ← setPrdt dx q.data.toNat q.sz.toNat
  if r.ret ≠ 0 then return ⟨r.ret, r.calls, ch, none, r.prdt⟩
  let (ret, ch, cfis) :=
    portSetFis (ch.setPrdtl (npages q.data.toNat q.sz.toNat)) q.op q.blkid q.nblks
  return ⟨ret, r.calls, ch, some cfis, markLast r.prdt⟩

/-! ## What the controller reads -/

/-- The device address of an entry. -/
def Prdt.iova (e : Prdt) : Nat := e.dbau * 2 ^ 32 + e.dba

/-- The number of bytes of an entry: one more than the count, whatever the interrupt bit is. -/
def Prdt.len (e : Prdt) : Nat := e.dbc % 2 ^ 31 + 1

/-- The block number of a FIS. -/
def FisRegH2d.lba (f : FisRegH2d) : Nat :=
  Nat.ofDigits 256 [f.lba0.toNat, f.lba1.toNat, f.lba2.toNat, f.lba3.toNat, f.lba4.toNat,
    f.lba5.toNat]

/-- The count of a FIS. -/
def FisRegH2d.count (f : FisRegH2d) : Nat := Nat.ofDigits 256 [f.count1.toNat, f.count2.toNat]

/-- The addresses of `n` bytes. -/
def span (addr n : Nat) : List Nat := (List.range n).map fun i ↦ w32 (addr + i)

/-- The pieces that a command describes: what was exported for each entry, and its length. -/
def Cmd.pieces (c : Cmd) : List (Nat × Nat) := (exported c.calls).zip (c.prdt.map Prdt.len)

/-- The command is the request: its entries are the bytes of the buffer. -/
structure Encodes (dx : Nat → Int × Nat) (q : QopData) (c : Cmd) : Prop where
  exports : (exported c.calls).length = c.prdt.length
  iova : c.prdt.map Prdt.iova = (List.range c.prdt.length).map fun k ↦ (dx k).2
  bytes : c.pieces.flatMap (fun e ↦ span e.1 e.2) = span q.data.toNat q.sz.toNat
  page : ∀ e ∈ c.pieces, e.1 % pageSize + e.2 ≤ pageSize
  total : (c.prdt.map Prdt.len).sum = q.sz.toNat
  room : c.prdt.length ≤ portPrdtSize
  prdtl : (bitfldGet c.ch.opts cmdhdrPrdtl).toNat = c.prdt.length
  lba : c.cfis.map FisRegH2d.lba = some q.blkid.toNat
  count : c.cfis.map FisRegH2d.count = some q.nblks.toNat

variable {dx : Nat → Int × Nat} {addr sz k m n i j : Nat} {q : QopData} {c : Cmd} {ch : CmdHdr}
  {memIova : BitVec 64}

/-! ## Fields of a word -/

theorem bitfldGet_or (v w : BitVec 32) (n : BitFld) :
    bitfldGet (v ||| w) n = bitfldGet v n ||| bitfldGet w n := by
  rw [bitfldGet, bitfldGet, bitfldGet, BitVec.and_comm, BitVec.and_or_distrib_left,
    BitVec.ushiftRight_or_distrib, BitVec.and_comm v, BitVec.and_comm w]

/-- A field keeps its value when another one is set. -/
theorem bitfldGet_set_of_disjoint {n n' : BitFld} (v f : BitVec 32) (h : n.mask &&& n'.mask = 0) :
    bitfldGet (bitfldSet v n f) n' = bitfldGet v n' := by
  rw [bitfldGet, bitfldGet]
  congr 1
  ext i hi
  have hbit : (n.mask &&& n'.mask)[i] = false := by
    rw [h]
    exact BitVec.getElem_zero hi
  rw [BitVec.getElem_and, Bool.and_eq_false_iff] at hbit
  rcases hbit with hn | hn'
  · simp [bitfldSet, hn]
  · simp [hn']

/-- The number of rounds is what the header says. -/
theorem bitfldGet_setPrdtl (hch : ch.opts = 0) (hn : n ≤ 8) :
    bitfldGet (ch.setPrdtl n).opts cmdhdrPrdtl = .ofNat 32 n := by
  have hall : ∀ n ≤ 8,
      bitfldGet (0 ||| bitfldSet 0 cmdhdrPrdtl (.ofNat 32 n)) cmdhdrPrdtl = .ofNat 32 n := by decide
  rw [CmdHdr.setPrdtl, hch]
  exact hall n hn

/-! ## The header and the FIS -/

theorem toNat_lowByte {w : Nat} (v : BitVec w) (hw : 8 ≤ w) :
    (lowByte v).toNat = v.toNat % 256 := by
  have hlt : 255 < 2 ^ w := Nat.lt_of_lt_of_le (by decide) (Nat.pow_le_pow_right Nat.two_pos hw)
  have hmask : (0xff : BitVec w).toNat = 2 ^ 8 - 1 := Nat.mod_eq_of_lt hlt
  rw [lowByte, BitVec.toNat_setWidth, BitVec.toNat_and, hmask, Nat.and_two_pow_sub_one_eq_mod,
    Nat.mod_mod]

/-- The options that an operation adds leave the number of rounds alone. -/
theorem fisCmd_opts {op : BitVec 32} {p : BitVec 8 × BitVec 32} (h : fisCmd op = some p) :
    bitfldGet p.2 cmdhdrPrdtl = 0 := by
  rw [fisCmd] at h
  split_ifs at h
  · rw [← Option.some.inj h]
    rfl
  · rw [← Option.some.inj h]
    decide

/-- What `ahci_port_set_fis` returns. -/
theorem portSetFis_ret (ch : CmdHdr) (op : BitVec 32) (blkid : BitVec 64) (nblks : BitVec 32) :
    (portSetFis ch op blkid nblks).1 = setFis op.toNat := by
  rw [portSetFis, fisCmd, setFis]
  by_cases h₀ : op = 0
  · rw [if_pos h₀, h₀]
    rfl
  · rw [if_neg h₀]
    by_cases h₁ : op = 1
    · rw [if_pos h₁, h₁]
      rfl
    · rw [if_neg h₁, if_neg]
      intro hle
      interval_cases hop : op.toNat
      · exact h₀ (BitVec.eq_of_toNat_eq hop)
      · exact h₁ (BitVec.eq_of_toNat_eq hop)

/-- What it fills in, for an operation that it knows. -/
theorem portSetFis_ok {op : BitVec 32} {blkid : BitVec 64} {nblks : BitVec 32}
    (h : (portSetFis ch op blkid nblks).1 = 0) :
    (portSetFis ch op blkid nblks).2.2.lba = blkid.toNat % 2 ^ 48 ∧
      (portSetFis ch op blkid nblks).2.2.count = nblks.toNat % 2 ^ 16 ∧
      bitfldGet (portSetFis ch op blkid nblks).2.1.opts cmdhdrPrdtl =
        bitfldGet ch.opts cmdhdrPrdtl := by
  cases hcmd : fisCmd op with
  | none =>
      have hno : Errno.ENODEV.neg ≠ 0 := by decide
      rw [portSetFis, hcmd] at h
      exact absurd h hno
  | some p =>
      rw [portSetFis, hcmd]
      refine ⟨?_, ?_, ?_⟩
      · simp only [FisRegH2d.lba, Nat.ofDigits_cons, Nat.ofDigits_nil, BitVec.toNat_ushiftRight,
          toNat_lowByte _ (by decide : 8 ≤ 64), Nat.shiftRight_eq_div_pow]
        omega
      · simp only [FisRegH2d.count, Nat.ofDigits_cons, Nat.ofDigits_nil, BitVec.toNat_ushiftRight,
          toNat_lowByte _ (by decide : 8 ≤ 32), Nat.shiftRight_eq_div_pow]
        omega
      · have hdisj : cmdhdrCfl.mask &&& cmdhdrPrdtl.mask = 0 := by decide
        rw [bitfldGet_or, bitfldGet_set_of_disjoint _ _ hdisj, BitVec.or_self, bitfldGet_or,
          fisCmd_opts hcmd]
        exact BitVec.or_zero

/-! ## The entries -/

theorem iova_entry (iova c : Nat) : (entry iova c).iova = iova := by
  rw [Prdt.iova, entry, w32]
  exact Nat.div_add_mod' iova (2 ^ 32)

/-- A piece that is not empty has its own length. -/
theorem len_entry {c : Nat} (iova : Nat) (hpos : 0 < c) (hc : c ≤ pageSize) :
    (entry iova c).len = c := by
  rw [pageSize_eq] at hc
  change w32 (c + (2 ^ 32 - 1)) % 2 ^ 31 + 1 = c
  rw [w32]
  omega

/-- The interrupt bit of the last entry changes neither the address nor the length of one. -/
theorem markLast_map {β : Type} {f : Prdt → β}
    (h : ∀ e : Prdt, f { e with dbc := e.dbc ||| 2 ^ 31 } = f e) (l : List Prdt) :
    (markLast l).map f = l.map f := by
  induction l with
  | nil => rfl
  | cons e l ih =>
      cases l with
      | nil => exact congrArg (· :: []) (h e)
      | cons e' l => exact congrArg (f e :: ·) ih

theorem markLast_iova (l : List Prdt) : (markLast l).map Prdt.iova = l.map Prdt.iova :=
  markLast_map (fun _ ↦ rfl) l

theorem markLast_len (l : List Prdt) : (markLast l).map Prdt.len = l.map Prdt.len := by
  refine markLast_map (fun e ↦ ?_) l
  rw [Prdt.len, Prdt.len, Nat.or_mod_two_pow, Nat.mod_self, Nat.or_zero]

/-- The table when every call succeeds. -/
theorem setPrdtFrom_prdt (dx : Nat → Int × Nat) (m k addr sz : Nat)
    (h : ∀ j < m, (dx (k + j)).1 = 0) :
    (setPrdtFrom dx m k addr sz).prdt =
      (List.range m).map fun j ↦ entry (dx (k + j)).2 (chunk ((next sz)^[j] addr) sz) := by
  induction m generalizing k addr with
  | zero => rfl
  | succ m ih =>
      have heq : ∀ j, k + 1 + j = k + (j + 1) := fun j ↦ by omega
      have h₀ : (dx k).1 = 0 := h 0 (Nat.succ_pos m)
      rw [setPrdtFrom_succ_ok h₀,
        ih (k + 1) (next sz addr) fun j hj ↦ heq j ▸ h (j + 1) (Nat.succ_lt_succ hj),
        List.range_succ_eq_map, List.map_cons, Nat.add_zero, Function.iterate_zero, id_eq,
        List.map_map]
      refine congrArg (entry (dx k).2 (chunk addr sz) :: ·) (List.map_congr_left fun j _ ↦ ?_)
      rw [heq j]
      rfl

/-! ## The bytes of the rounds -/

theorem span_append (addr m n : Nat) :
    span addr (m + n) = span addr m ++ span (w32 (addr + m)) n := by
  rw [span, span, span, List.range_add, List.map_append, List.map_map]
  congr 1
  apply List.map_congr_left
  intro i _
  rw [Function.comp_apply, w32, w32, w32, Nat.mod_add_mod, Nat.add_assoc]

/-- The pieces of the rounds follow each other. -/
theorem flatMap_addrs (sz m addr : Nat) :
    (addrs sz m addr).flatMap (fun a ↦ span a (chunk a sz)) =
      span addr ((addrs sz m addr).map (chunk · sz)).sum := by
  induction m generalizing addr with
  | zero => rfl
  | succ m ih =>
      rw [addrs_succ, List.flatMap_cons, ih, List.map_cons, List.sum_cons, span_append]
      rfl

theorem chunk_pos (hpos : 0 < sz) : 0 < chunk addr sz := by
  have hlt : addr % pageSize < pageSize := Nat.mod_lt _ (by decide)
  exact Nat.lt_min.2 ⟨Nat.sub_pos_of_lt hlt, hpos⟩

theorem chunk_le (addr sz : Nat) : chunk addr sz ≤ pageSize :=
  (Nat.min_le_left _ _).trans (Nat.sub_le _ _)

/-- A round after the first has a whole page, or what the size of the buffer is. -/
theorem chunk_iterate (ha : addr < 2 ^ 32) (hs : sz < portDmaMaxsize)
    (hk : k + 1 < npages addr sz) : chunk ((next sz)^[k + 1] addr) sz = min pageSize sz := by
  have hpage : (next sz)^[k + 1] addr % pageSize = 0 := by
    rw [next_iterate ha hs hk, w32, truncPage, pageSize_eq]
    omega
  rw [chunk, hpage, Nat.sub_zero]

/-- The bytes of `m + 1` rounds. -/
theorem sum_addrs (ha : addr < 2 ^ 32) (hs : sz < portDmaMaxsize) (hm : m < npages addr sz) :
    ((addrs sz (m + 1) addr).map (chunk · sz)).sum = chunk addr sz + m * min pageSize sz := by
  induction m with
  | zero => exact congrArg (chunk addr sz + ·) (Nat.zero_mul (min pageSize sz)).symm
  | succ m ih =>
      have happ : addrs sz (m + 1 + 1) addr =
          addrs sz (m + 1) addr ++ [(next sz)^[m + 1] addr] := by
        rw [addrs, addrs, List.range_succ, List.map_append, List.map_singleton]
      rw [happ, List.map_append, List.sum_append, ih (Nat.lt_of_succ_lt hm), List.map_singleton,
        List.sum_singleton, chunk_iterate ha hs hm, Nat.add_assoc, Nat.succ_mul]

/-- The rounds have the bytes of the buffer if it is within a page, or ends one. -/
theorem sum_addrs_eq_iff (ha : addr < 2 ^ 32) (hs : sz < portDmaMaxsize) (hpos : 0 < sz) :
    ((addrs sz (npages addr sz) addr).map (chunk · sz)).sum = sz ↔
      addr % pageSize + sz ≤ pageSize ∨ (addr + sz) % pageSize = 0 := by
  obtain ⟨m, hm⟩ := Nat.exists_eq_succ_of_ne_zero ((npages_ne_zero ha hs).2 (.inl hpos))
  have hsum := sum_addrs ha hs (hm ▸ Nat.lt_succ_self m)
  rw [npages_eq ha hs] at hm
  rw [npages_eq ha hs, hm, hsum, chunk]
  rw [pageSize_eq] at *
  rw [portDmaMaxsize_eq] at hs
  have hle : m ≤ 7 := by omega
  interval_cases m <;> omega

/-! ## The command -/

/-- What is returned, and what is asked of the kernel, is that of `issueSetup`. -/
theorem issueQop_issueSetup (dx : Nat → Int × Nat) (memIova : BitVec 64) (i j : Nat)
    (q : QopData) :
    (issueQop dx memIova i j q).map (fun c ↦ (c.ret, c.calls)) =
      (issueSetup dx q.op.toNat q.data.toNat q.sz.toNat).map fun r ↦ (r.ret, r.calls) := by
  rw [issueQop, issueSetup]
  cases setPrdt dx q.data.toNat q.sz.toNat with
  | none => rfl
  | some r =>
      simp only [Option.bind_eq_bind, Option.bind_some, portSetFis_ret]
      by_cases hr : r.ret = 0
      · by_cases hf : setFis q.op.toNat = 0
        · simp only [hr, hf, ne_eq, not_true_eq_false, if_false, Option.pure_def, Option.map_some]
        · simp only [hr, hf, ne_eq, not_true_eq_false, not_false_eq_true, if_false, if_true,
            Option.pure_def, Option.map_some]
      · simp only [ne_eq, hr, not_false_eq_true, if_true, Option.pure_def, Option.map_some]

/-- A table that is complete: every page was exported. -/
theorem setPrdt_ok {r : Setup} (h : setPrdt dx addr sz = some r) (hret : r.ret = 0) :
    sz < portDmaMaxsize ∧ npages addr sz ≠ 0 ∧ exported r.calls = addrs sz (npages addr sz) addr ∧
      r.prdt = (List.range (npages addr sz)).map fun j ↦
        entry (dx j).2 (chunk ((next sz)^[j] addr) sz) := by
  rcases Nat.lt_or_ge sz portDmaMaxsize with hs | hs
  · have hn : npages addr sz ≠ 0 := by
      intro hn
      rw [setPrdt_zero hs hn] at h
      exact Option.some_ne_none r h.symm
    rw [setPrdt_some dx hs hn, Option.some.injEq] at h
    rcases Lib.first_fail (fun j ↦ (dx j).1 = 0) (npages addr sz) with hall | ⟨l, hl, hfirst, hf⟩
    · have hall' : ∀ j < npages addr sz, (dx (0 + j)).1 = 0 := fun j hj ↦
        (Nat.zero_add j).symm ▸ hall j hj
      obtain ⟨_, hex, _⟩ := setPrdtFrom_ok dx _ 0 addr sz hall'
      have hprdt := setPrdtFrom_prdt dx _ 0 addr sz hall'
      simp only [Nat.zero_add] at hprdt
      rw [← h]
      exact ⟨hs, hn, hex, hprdt⟩
    · obtain ⟨hne, _⟩ := setPrdtFrom_fail dx 0 addr sz hl
        (fun i hi ↦ (Nat.zero_add i).symm ▸ hfirst i hi) ((Nat.zero_add l).symm ▸ hf)
      rw [← h] at hret
      exact absurd hret hne
  · have hno : Errno.ENOMEM.neg ≠ 0 := by decide
    rw [setPrdt, if_pos hs] at h
    rw [← Option.some.inj h] at hret
    exact absurd hret hno

/-- What a command that is issued consists of. -/
theorem issueQop_ok (h : issueQop dx memIova i j q = some c) (hret : c.ret = 0) :
    ∃ r, setPrdt dx q.data.toNat q.sz.toNat = some r ∧ r.ret = 0 ∧
      ∃ f, portSetFis ((newHdr memIova i j).setPrdtl (npages q.data.toNat q.sz.toNat)) q.op q.blkid
          q.nblks = f ∧ f.1 = 0 ∧ c = ⟨0, r.calls, f.2.1, some f.2.2, markLast r.prdt⟩ := by
  rw [issueQop, Option.bind_eq_bind, Option.bind_eq_some_iff] at h
  obtain ⟨r, hr, hc⟩ := h
  refine ⟨r, hr, ?_⟩
  split_ifs at hc with hne
  · rw [← Option.some.inj hc] at hret
    exact absurd hret hne
  · refine ⟨not_not.1 hne, _, rfl, ?_⟩
    rw [← Option.some.inj hc] at hret ⊢
    exact ⟨hret, congrArg (Cmd.mk · _ _ _ _) hret⟩

/-- What the controller reads out of a command that is issued. -/
structure Issued (dx : Nat → Int × Nat) (q : QopData) (c : Cmd) : Prop where
  small : q.sz.toNat < portDmaMaxsize
  rounds : npages q.data.toNat q.sz.toNat ≠ 0
  exported : exported c.calls = addrs q.sz.toNat (npages q.data.toNat q.sz.toNat) q.data.toNat
  iova : c.prdt.map Prdt.iova =
    (List.range (npages q.data.toNat q.sz.toNat)).map fun k ↦ (dx k).2
  len : 0 < q.sz.toNat → c.prdt.map Prdt.len =
    (addrs q.sz.toNat (npages q.data.toNat q.sz.toNat) q.data.toNat).map (chunk · q.sz.toNat)
  prdtl : bitfldGet c.ch.opts cmdhdrPrdtl = .ofNat 32 (npages q.data.toNat q.sz.toNat)
  lba : c.cfis.map FisRegH2d.lba = some (q.blkid.toNat % 2 ^ 48)
  count : c.cfis.map FisRegH2d.count = some (q.nblks.toNat % 2 ^ 16)

theorem issueQop_issued (h : issueQop dx memIova i j q = some c) (hret : c.ret = 0) :
    Issued dx q c := by
  obtain ⟨r, hr, hr₀, f, rfl, hf₀, rfl⟩ := issueQop_ok h hret
  obtain ⟨hs, hn, hex, hprdt⟩ := setPrdt_ok hr hr₀
  obtain ⟨hlba, hcount, hopts⟩ := portSetFis_ok hf₀
  exact
    { small := hs
      rounds := hn
      exported := hex
      iova := by
        rw [markLast_iova, hprdt, List.map_map]
        exact List.map_congr_left fun k _ ↦ iova_entry _ _
      len := fun hpos ↦ by
        rw [markLast_len, hprdt, addrs, List.map_map, List.map_map]
        exact List.map_congr_left fun k _ ↦ len_entry _ (chunk_pos hpos) (chunk_le _ _)
      prdtl := by
        rw [hopts, bitfldGet_setPrdtl rfl (npages_le q.data.isLt hs)]
      lba := congrArg some hlba
      count := congrArg some hcount }

theorem Issued.length_prdt (h : Issued dx q c) :
    c.prdt.length = npages q.data.toNat q.sz.toNat := by
  rw [← List.length_map (f := Prdt.iova), h.iova, List.length_map, List.length_range]

theorem Issued.length_exported (h : Issued dx q c) :
    (Mh.Ahci.exported c.calls).length = c.prdt.length := by
  rw [h.exported, h.length_prdt, addrs, List.length_map, List.length_range]

/-- The pieces are those of the rounds. -/
theorem Issued.pieces (h : Issued dx q c) (hpos : 0 < q.sz.toNat) :
    c.pieces = (addrs q.sz.toNat (npages q.data.toNat q.sz.toNat) q.data.toNat).map fun a ↦
      (a, chunk a q.sz.toNat) := by
  rw [Cmd.pieces, h.len hpos, h.exported, List.map_prod_left_eq_zip]

/-- An entry has a byte at least. -/
theorem Issued.total_pos (h : Issued dx q c) : 0 < (c.prdt.map Prdt.len).sum := by
  cases hl : c.prdt with
  | nil =>
      have hlen := h.length_prdt
      rw [hl] at hlen
      exact absurd hlen.symm h.rounds
  | cons e l =>
      rw [List.map_cons, List.sum_cons]
      exact Nat.add_pos_left (Nat.succ_pos _) _

/-- A command that is issued says what was asked for if the buffer is within a page, or ends one,
and the numbers fit in the FIS. -/
theorem command_encodes_iff (dx : Nat → Int × Nat) (memIova : BitVec 64) (i j : Nat) (q : QopData)
    {c : Cmd} (h : issueQop dx memIova i j q = some c) (hret : c.ret = 0) :
    Encodes dx q c ↔
      0 < q.sz.toNat ∧
        (q.data.toNat % pageSize + q.sz.toNat ≤ pageSize ∨
          (q.data.toNat + q.sz.toNat) % pageSize = 0) ∧
        q.blkid.toNat < 2 ^ 48 ∧ q.nblks.toNat < 2 ^ 16 := by
  have hi := issueQop_issued h hret
  constructor
  · intro he
    have hpos : 0 < q.sz.toNat := he.total ▸ hi.total_pos
    have hsum := he.total
    have hlba := he.lba
    have hcount := he.count
    rw [hi.len hpos] at hsum
    rw [hi.lba, Option.some.injEq] at hlba
    rw [hi.count, Option.some.injEq] at hcount
    refine ⟨hpos, (sum_addrs_eq_iff q.data.isLt hi.small hpos).1 hsum, ?_, ?_⟩
    · exact hlba ▸ Nat.mod_lt _ (Nat.two_pow_pos 48)
    · exact hcount ▸ Nat.mod_lt _ (Nat.two_pow_pos 16)
  · rintro ⟨hpos, hfit, hlba, hcount⟩
    have hsum := (sum_addrs_eq_iff q.data.isLt hi.small hpos).2 hfit
    have hle := npages_le q.data.isLt hi.small
    exact
      { exports := hi.length_exported
        iova := by rw [hi.iova, hi.length_prdt]
        bytes := by
          rw [hi.pieces hpos, List.flatMap_map, flatMap_addrs, hsum]
        page := by
          rw [hi.pieces hpos]
          intro e he
          obtain ⟨a, _, rfl⟩ := List.mem_map.1 he
          have hlt : a % pageSize < pageSize := Nat.mod_lt _ (by decide)
          have hc : chunk a q.sz.toNat ≤ pageSize - a % pageSize := Nat.min_le_left _ _
          exact (Nat.le_sub_iff_add_le' hlt.le).1 hc
        total := by rw [hi.len hpos, hsum]
        room := hi.length_prdt ▸ hle
        prdtl := by
          rw [hi.prdtl, hi.length_prdt, BitVec.toNat_ofNat, Nat.mod_eq_of_lt (by omega)]
        lba := by rw [hi.lba, Nat.mod_eq_of_lt hlba]
        count := by rw [hi.count, Nat.mod_eq_of_lt hcount] }

/-- A read of a block. -/
theorem command_encodes_iff_block :
    Encodes (fun _ ↦ (0, 0x7000000)) ⟨0, 0x400000, 512, 0x123456789a, 1⟩
      ⟨0, [.dexport 0x400000 512 0], ⟨0x10005, 0, 0x100a000, 0⟩,
        some { fis := 0x27, flags := 0x80, cmd := 0x25, lba0 := 0x9a, lba1 := 0x78, lba2 := 0x56,
               dev := 0x40, lba3 := 0x34, lba4 := 0x12, count1 := 1 },
        [⟨0x7000000, 0, 0x800001ff⟩]⟩ :=
  (command_encodes_iff _ 0x1000000 0 0 _ (by decide +kernel) rfl).2 (by decide)

/-- A read of a page and a block more: the second entry is a whole page, of which the buffer has a
block.  A block number of more than 48 bits is another one in the FIS. -/
theorem command_overrun :
    (∃ c, issueQop (fun k ↦ (0, (k + 1) * 0x200000)) 0x1000000 0 0
          ⟨0, 0x400000, 0x200200, 0, 0x1001⟩ = some c ∧
        c.ret = 0 ∧ c.pieces = [(0x400000, 0x200000), (0x600000, 0x200000)] ∧
        ¬ Encodes (fun k ↦ (0, (k + 1) * 0x200000)) ⟨0, 0x400000, 0x200200, 0, 0x1001⟩ c) ∧
      ∃ c, issueQop (fun _ ↦ (0, 0x7000000)) 0x1000000 0 0
          ⟨0, 0x400000, 512, 0x1000000000000, 1⟩ = some c ∧
        c.ret = 0 ∧ c.cfis.map FisRegH2d.lba = some 0 ∧
        ¬ Encodes (fun _ ↦ (0, 0x7000000)) ⟨0, 0x400000, 512, 0x1000000000000, 1⟩ c := by
  refine ⟨⟨⟨0, [.dexport 0x400000 0x200000 0, .dexport 0x600000 0x200000 0],
      ⟨0x20005, 0, 0x100a000, 0⟩,
      some { fis := 0x27, flags := 0x80, cmd := 0x25, dev := 0x40, count1 := 1, count2 := 0x10 },
      [⟨0x200000, 0, 0x1fffff⟩, ⟨0x400000, 0, 0x801fffff⟩]⟩,
      by decide +kernel, rfl, by decide, fun he ↦ absurd he.total (by decide)⟩,
    ⟨0, [.dexport 0x400000 512 0], ⟨0x10005, 0, 0x100a000, 0⟩,
      some { fis := 0x27, flags := 0x80, cmd := 0x25, dev := 0x40, count1 := 1 },
      [⟨0x7000000, 0, 0x800001ff⟩]⟩,
    by decide +kernel, rfl, by decide, fun he ↦ absurd he.lba (by decide)⟩

end Mh.Ahci
