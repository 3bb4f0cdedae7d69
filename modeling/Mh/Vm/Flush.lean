import Mh.Vm.Refs

/-!
# TLB flush accounting

The page-table operations note in `tlbflush` what `pmap_commit` has to flush.  Here this
word is followed over the operations on one address space, with `pmap_kenter` among them:
`Space` adds to the system the entries outside the user range, as this address space has
them.

Most operations *assign* the word that their own entries call for, and `__tlbflushp` is
null when the old entry was never written.  So the clearing of a page that was mapped is
forgotten when the next page of the batch was not.  `FlushSafe` is the condition that what
is assigned covers what was pending; under it no change of a present entry since the last
commit is lost (`flush_accounted`).
-/

namespace Mh.Vm

open Mh.Lib

/-! ## The operations -/

/-- The system, and the entries outside the user range. -/
structure Space where
  sys : Sys
  kern : Nat → L1e

/-- The operations on a page table; `pmap_kclear` and `pmap_uclear` are `pmap_kenter` and
`pmap_uenter` with page 0 and no protection.  `other` stands for what is done to other
address spaces, and to the kernel's entries through them. -/
inductive PmapOp
  | kenter (va pfn : Nat) (prot : Prot)
  | uenter (va pfn : Nat) (prot : Prot)
  | uiomap (va pfn : Nat) (prot : Prot)
  | uiounmap (va : Nat)
  | uchaddr (va newva : Nat)
  | uchprot (va : Nat) (prot : Prot)
  | uwire (va : Nat)
  | uunwire (va : Nat)
  | copy (new : Nat) (stale : Tlbf)
  | other

namespace Space

/-- The entry of a page in an address space. -/
def entry (s : Space) (pm v : Nat) : L1e := if v ∈ userVpns then s.sys.l1 pm v else s.kern v

/-- The word that the next commit goes by. -/
def pending (s : Space) (pm : Nat) : Tlbf := (s.sys.pmap pm).tlbflush

/-- `pmap_kenter`, with the page that was mapped; `none` when an assertion fails. -/
def pmapKenter (s : Space) (pm va pfn : Nat) (prot : Prot) : Option (Option Nat × Space) :=
  if !isuaddr va && (!prot.p || !prot.u) then
    let nl1e := mkl1e pfn prot
    let ol1e := s.kern (vpn va)
    some (if ol1e.p then some ol1e.pfn else none,
      { sys := s.sys.setFlush pm (tlbflushp ol1e nl1e)
        kern := Function.update s.kern (vpn va) nl1e })
  else none

end Space

/-- A step: an operation on the address space `pm` that returns. -/
inductive PmapStep (pm : Nat) : Space → PmapOp → Space → Prop
  | kenter {s s' : Space} {va pfn : Nat} {prot : Prot} {opfn : Option Nat} :
      s.pmapKenter pm va pfn prot = some (opfn, s') → PmapStep pm s (.kenter va pfn prot) s'
  | uenter {s : Space} {sys : Sys} {va pfn : Nat} {prot : Prot} {ret : Int} {opfn : Option Nat} :
      pmapUenter s.sys pm va pfn prot = .ok (ret, opfn, sys) →
      PmapStep pm s (.uenter va pfn prot) ⟨sys, s.kern⟩
  | uiomap {s : Space} {sys : Sys} {va pfn : Nat} {prot : Prot} {ret : Int} {opfn : Option Nat} :
      pmapUiomap s.sys pm va pfn prot = .ok (ret, opfn, sys) →
      PmapStep pm s (.uiomap va pfn prot) ⟨sys, s.kern⟩
  | uiounmap {s : Space} {sys : Sys} {va : Nat} {ret : Int} :
      pmapUiounmap s.sys pm va = .ok (ret, sys) → PmapStep pm s (.uiounmap va) ⟨sys, s.kern⟩
  | uchaddr {s : Space} {sys : Sys} {va newva : Nat} {ret : Int} {opfn : Option Nat} :
      pmapUchaddr s.sys pm va newva = .ok (ret, opfn, sys) →
      PmapStep pm s (.uchaddr va newva) ⟨sys, s.kern⟩
  | uchprot {s : Space} {sys : Sys} {va : Nat} {prot : Prot} {ret : Int} :
      pmapUchprot s.sys pm va prot = .ok (ret, sys) →
      PmapStep pm s (.uchprot va prot) ⟨sys, s.kern⟩
  | uwire {s : Space} {sys : Sys} {va : Nat} {ret : Int} :
      pmapUwire s.sys pm va = .ok (ret, sys) → PmapStep pm s (.uwire va) ⟨sys, s.kern⟩
  | uunwire {s : Space} {sys : Sys} {va : Nat} {ret : Int} :
      pmapUunwire s.sys pm va = .ok (ret, sys) → PmapStep pm s (.uunwire va) ⟨sys, s.kern⟩
  | copy {s : Space} {sys : Sys} {new : Nat} {stale : Tlbf} : new ≠ pm →
      pmapCopy s.sys pm new stale = .ok sys → PmapStep pm s (.copy new stale) ⟨sys, s.kern⟩
  | other {s s' : Space} : s'.sys.pmap pm = s.sys.pmap pm → PmapStep pm s .other s'

/-! ## What is pending -/

/-- What `t` has a commit flush, `t'` has it flush too. -/
structure Tlbf.Le (t t' : Tlbf) : Prop where
  global : t.global = true → t'.global = true
  normal : t.normal = true → t'.normal = true ∨ t'.global = true

/-- What `t` has a commit flush covers the change of one entry to another. -/
structure Tlbf.Covers (t : Tlbf) (ol1e nl1e : L1e) : Prop where
  flush : t.normal = true ∨ t.global = true
  global : ol1e.g = true ∨ nl1e.g = true → t.global = true

namespace Tlbf

variable {t t' : Tlbf} {ol1e nl1e : L1e}

theorem Le.refl (t : Tlbf) : t.Le t := ⟨id, .inl⟩

theorem le_or_left (t t' : Tlbf) : t.Le (t.or t') :=
  ⟨fun h ↦ by simp [Tlbf.or, h], fun h ↦ by simp [Tlbf.or, h]⟩

theorem le_or_right (t t' : Tlbf) : t'.Le (t.or t') :=
  ⟨fun h ↦ by simp [Tlbf.or, h], fun h ↦ by simp [Tlbf.or, h]⟩

theorem Le.trans {t'' : Tlbf} (h : t.Le t') (h' : t'.Le t'') : t.Le t'' :=
  ⟨fun hg ↦ h'.global (h.global hg),
    fun hn ↦ (h.normal hn).elim h'.normal fun hg ↦ .inr (h'.global hg)⟩

theorem Covers.mono (h : t.Covers ol1e nl1e) (hle : t.Le t') : t'.Covers ol1e nl1e :=
  ⟨h.flush.elim hle.normal fun hg ↦ .inr (hle.global hg), fun hg ↦ hle.global (h.global hg)⟩

/-- `__tlbflushp` covers the change of a present entry. -/
theorem covers_tlbflushp (hp : ol1e.p = true) : (tlbflushp ol1e nl1e).Covers ol1e nl1e := by
  have hf : l1eFlagged ol1e = true := by simp [l1eFlagged, hp]
  unfold tlbflushp
  rw [hf]
  split
  · rename_i hn
    cases hn
  · split
    · exact ⟨.inr rfl, fun _ ↦ rfl⟩
    · rename_i hg
      refine ⟨.inl rfl, fun h ↦ absurd ?_ hg⟩
      rwa [Bool.or_eq_true]

end Tlbf

namespace Space

variable {s s' : Space} {pm v : Nat}

/-- The entry that an operation assigns `tlbflush` for, and what it writes there.  An
operation that refuses, or writes nothing, has none; nor has `pmap_uchaddr`, which
accumulates. -/
def writes (s : Space) (pm : Nat) : PmapOp → Option (Nat × L1e)
  | .kenter va pfn prot => some (vpn va, mkl1e pfn prot)
  | .uenter va pfn prot =>
    if l1eExternal (s.sys.l1 pm (vpn va)) then none
    else some (vpn va, l1eMknormal (mkl1e pfn prot))
  | .uiomap va pfn prot =>
    if l1eExternal (s.sys.l1 pm (vpn va)) then none
    else some (vpn va, l1eMkiomap (mkl1e pfn prot))
  | .uiounmap va => if l1eIomap (s.sys.l1 pm (vpn va)) then some (vpn va, invalidL1e) else none
  | .uchprot va prot =>
    let ol1e := s.sys.l1 pm (vpn va)
    if l1eNormal ol1e then some (vpn va, l1eMknormal (mkl1e ol1e.pfn prot)) else none
  | .uwire va =>
    let ol1e := s.sys.l1 pm (vpn va)
    if l1eIomap ol1e then none else some (vpn va, l1eMkwired ol1e)
  | .uunwire va =>
    let ol1e := s.sys.l1 pm (vpn va)
    if l1eWired ol1e ∧ decCount (s.sys.db ol1e.pfn).wir = 0 then some (vpn va, l1eMknormal ol1e)
    else none
  | .uchaddr .. | .copy .. | .other => none

/-- What an operation assigns to `tlbflush` covers what was pending; and `pmap_copy` makes
no global entry copy-on-write, unless a global flush is pending already. -/
structure FlushSafe (s : Space) (pm : Nat) (op : PmapOp) : Prop where
  writes : ∀ v nl1e, s.writes pm op = some (v, nl1e) →
    (s.pending pm).Le (tlbflushp (s.entry pm v) nl1e)
  copy : ∀ new stale, op = .copy new stale → ∀ v ∈ cowVpns, (s.sys.l1 pm v).p = true →
    l1eExternal (s.sys.l1 pm v) = false → l1eMkcow (s.sys.l1 pm v) ≠ s.sys.l1 pm v →
    (s.sys.l1 pm v).g = true → (s.pending pm).global = true

theorem entry_user (hv : v ∈ userVpns) : s.entry pm v = s.sys.l1 pm v := if_pos hv

/-- What an operation that has one entry to write does: nothing, or write that entry and
assign the flush for it. -/
def Wrote (s : Space) (pm : Nat) (op : PmapOp) (s' : Space) : Prop :=
  s'.pending pm = s.pending pm ∧ s'.entry pm = s.entry pm ∨
    ∃ v nl1e, s.writes pm op = some (v, nl1e) ∧
      s'.pending pm = tlbflushp (s.entry pm v) nl1e ∧
      s'.entry pm = Function.update (s.entry pm) v nl1e

end Space

/-! ## One entry at a time -/

namespace Sys

@[simp] theorem tlbflush_setL1e (s : Sys) (p pm v : Nat) (n : L1e) :
    ((s.setL1e p v n).pmap pm).tlbflush = (s.pmap pm).tlbflush := by
  by_cases h : pm = p
  · subst h
    simp [setL1e]
  · simp [setL1e, h]

@[simp] theorem tlbflush_setFlush (s : Sys) (pm : Nat) (f : Tlbf) :
    ((s.setFlush pm f).pmap pm).tlbflush = f := by
  simp [setFlush]

end Sys

section Wrote

variable {s : Space} {sys : Sys} {op : PmapOp} {pm va pfn : Nat} {prot : Prot} {nl1e : L1e}
  {ret : Int} {opfn : Option Nat}

/-- The table of the address space stays as it is. -/
theorem wrote_of_same (h : sys.pmap pm = s.sys.pmap pm) : s.Wrote pm op ⟨sys, s.kern⟩ := by
  refine .inl ⟨congrArg Pmap.tlbflush h, ?_⟩
  funext v
  show (if v ∈ userVpns then (sys.pmap pm).l1s v else s.kern v) = _
  rw [h]
  rfl

theorem Sys.put_pmap (s : Sys) (pm v : Nat) (n : L1e) : (s.put pm v n).pmap pm =
    ⟨Function.update (s.pmap pm).l1s v n, tlbflushp (s.l1 pm v) n⟩ := by
  simp [Sys.put, Sys.setL1e, Sys.setFlush]

/-- A user entry was written with its flush. -/
theorem wrote_of_put (hva : isuaddr va) (hw : s.writes pm op = some (vpn va, nl1e))
    (h : sys.pmap pm = (s.sys.put pm (vpn va) nl1e).pmap pm) : s.Wrote pm op ⟨sys, s.kern⟩ := by
  have hv : vpn va ∈ userVpns := vpn_mem_userVpns hva
  rw [Sys.put_pmap] at h
  refine .inr ⟨vpn va, nl1e, hw, ?_, ?_⟩
  · rw [Space.entry_user hv]
    exact congrArg Pmap.tlbflush h
  · funext v
    have hl : (sys.pmap pm).l1s = Function.update (s.sys.pmap pm).l1s (vpn va) nl1e :=
      congrArg Pmap.l1s h
    show (if v ∈ userVpns then (sys.pmap pm).l1s v else s.kern v) = _
    rw [hl]
    by_cases hvv : v = vpn va
    · subst hvv
      rw [if_pos hv, Function.update_self, Function.update_self]
    · rw [Function.update_of_ne hvv, Function.update_of_ne hvv]
      rfl

/-- Giving up the old entry leaves the tables alone. -/
theorem dropL1e_pmap {s s' : Sys} {o : L1e} (h : dropL1e s o = .ok (opfn, s')) :
    s'.pmap = s.pmap := by
  rcases dropL1e_ok h with ⟨_, _, rfl⟩ | ⟨_, _, rfl, _⟩ <;> rfl

theorem Sys.take_pmap (s : Sys) (n : L1e) : (s.take n).pmap = s.pmap := by
  unfold Sys.take
  split <;> rfl

/-- The tables alone count. -/
theorem Sys.put_congr {s s' : Sys} (h : s'.pmap pm = s.pmap pm) (v : Nat) (n : L1e) :
    (s'.put pm v n).pmap pm = (s.put pm v n).pmap pm := by
  rw [put_pmap, put_pmap]
  unfold Sys.l1
  rw [h]

theorem wrote_uenter (h : pmapUenter s.sys pm va pfn prot = .ok (ret, opfn, sys)) :
    s.Wrote pm (.uenter va pfn prot) ⟨sys, s.kern⟩ := by
  obtain ⟨hva, -, ⟨-, -, -, rfl⟩ | ⟨hx, -, hd⟩⟩ := pmapUenter_ok h
  · exact wrote_of_same rfl
  · refine wrote_of_put hva (if_neg (by simp [hx])) ?_
    rw [dropL1e_pmap hd]
    exact Sys.put_congr (congrFun (Sys.take_pmap _ _) pm) _ _

theorem wrote_uiomap (h : pmapUiomap s.sys pm va pfn prot = .ok (ret, opfn, sys)) :
    s.Wrote pm (.uiomap va pfn prot) ⟨sys, s.kern⟩ := by
  obtain ⟨hva, ⟨-, -, rfl⟩ | ⟨hx, -, hd⟩⟩ := pmapUiomap_ok h
  · exact wrote_of_same rfl
  · refine wrote_of_put hva (if_neg (by simp [hx])) ?_
    rw [dropL1e_pmap hd]

theorem wrote_uiounmap (h : pmapUiounmap s.sys pm va = .ok (ret, sys)) :
    s.Wrote pm (.uiounmap va) ⟨sys, s.kern⟩ := by
  obtain ⟨hva, rfl | ⟨hx, rfl⟩⟩ := pmapUiounmap_ok h
  · exact wrote_of_same rfl
  · exact wrote_of_put hva (if_pos hx) rfl

theorem wrote_uchprot (h : pmapUchprot s.sys pm va prot = .ok (ret, sys)) :
    s.Wrote pm (.uchprot va prot) ⟨sys, s.kern⟩ := by
  obtain ⟨hva, -, -, rfl | ⟨hx, rfl⟩⟩ := pmapUchprot_ok h
  · exact wrote_of_same rfl
  · exact wrote_of_put hva (if_pos hx) rfl

theorem wrote_uwire (h : pmapUwire s.sys pm va = .ok (ret, sys)) :
    s.Wrote pm (.uwire va) ⟨sys, s.kern⟩ := by
  obtain ⟨hva, rfl | ⟨wir, hx, -, rfl⟩⟩ := pmapUwire_ok h
  · exact wrote_of_same rfl
  · exact wrote_of_put hva (if_neg (by simp [hx])) (Sys.put_congr rfl _ _)

/-- `pmap_uunwire` writes the entry when the last wiring of the page is undone. -/
theorem wrote_uunwire (h : pmapUunwire s.sys pm va = .ok (ret, sys)) :
    s.Wrote pm (.uunwire va) ⟨sys, s.kern⟩ := by
  simp only [pmapUunwire, bind_eq_ok, kassert_eq_ok] at h
  obtain ⟨_, hva, h⟩ := h
  split at h
  · cases h
    exact wrote_of_same rfl
  · rename_i hx
    rw [bind_eq_ok] at h
    obtain ⟨⟨wir, s₁⟩, h₁, h₂⟩ := h
    simp only [pfndbDecwir, bind_eq_ok] at h₁
    obtain ⟨e, he, hs₁⟩ := h₁
    obtain ⟨_, _, rfl⟩ := pfndbUser_ok he
    obtain ⟨rfl, rfl⟩ := Prod.mk.inj (Except.ok.inj hs₁)
    dsimp only at h₂
    split at h₂
    · rename_i hz
      cases h₂
      refine wrote_of_put hva (if_pos ⟨by simpa using hx, hz⟩) ?_
      exact Sys.put_congr rfl _ _
    · cases h₂
      exact wrote_of_same rfl

theorem wrote_kenter {s' : Space} (h : s.pmapKenter pm va pfn prot = some (opfn, s')) :
    s.Wrote pm (.kenter va pfn prot) s' := by
  unfold Space.pmapKenter at h
  split at h
  · rename_i hk
    have hv : vpn va ∉ userVpns := fun hv ↦ by
      rw [isuaddr_iff_vpn.2 hv] at hk
      simp at hk
    obtain ⟨-, rfl⟩ := Prod.mk.inj (Option.some.inj h)
    refine .inr ⟨vpn va, mkl1e pfn prot, rfl, ?_, ?_⟩
    · have he : s.entry pm (vpn va) = s.kern (vpn va) := if_neg hv
      rw [he]
      simp [Space.pending, Sys.setFlush]
    · funext v
      show (if v ∈ userVpns then (s.sys.setFlush pm _).l1 pm v
        else Function.update s.kern (vpn va) _ v) = _
      rw [Sys.l1_setFlush]
      by_cases hvv : v = vpn va
      · subst hvv
        rw [if_neg hv, Function.update_self, Function.update_self]
      · rw [Function.update_of_ne hvv, Function.update_of_ne hvv]
        rfl
  · cases h

end Wrote

/-! ## What one operation accounts for -/

/-- From `s` to `t` nothing that was pending is lost, and the change of every entry that was
present is covered by what is pending. -/
structure Space.Accounts (s : Space) (pm : Nat) (t : Space) : Prop where
  kept : (s.pending pm).Le (t.pending pm)
  covers : ∀ v, (s.entry pm v).p = true → t.entry pm v ≠ s.entry pm v →
    (t.pending pm).Covers (s.entry pm v) (t.entry pm v)

section Accounts

variable {s t : Space} {sys : Sys} {op : PmapOp} {pm va newva : Nat} {ret : Int}
  {opfn : Option Nat}

/-- An operation with one entry to write accounts for it when it is safe. -/
theorem Space.Wrote.accounts (h : s.Wrote pm op t) (hf : s.FlushSafe pm op) :
    s.Accounts pm t := by
  obtain ⟨hpend, hentry⟩ | ⟨v, nl1e, hw, hpend, hentry⟩ := h
  · refine ⟨hpend ▸ .refl _, fun v _ hne ↦ absurd ?_ hne⟩
    rw [hentry]
  · refine ⟨hpend ▸ hf.writes v nl1e hw, fun w hp hne ↦ ?_⟩
    rw [hentry] at hne ⊢
    by_cases hwv : w = v
    · subst hwv
      rw [Function.update_self, hpend]
      exact Tlbf.covers_tlbflushp hp
    · exact absurd (Function.update_of_ne hwv _ _) hne

/-- `pmap_uchaddr` accumulates, so it accounts for both its entries. -/
theorem accounts_uchaddr (h : pmapUchaddr s.sys pm va newva = .ok (ret, opfn, sys)) :
    s.Accounts pm ⟨sys, s.kern⟩ := by
  obtain ⟨hva, hnva, ⟨-, -, -, rfl⟩ | ⟨-, -, -, hd⟩⟩ := pmapUchaddr_ok h
  · exact ⟨.refl _, fun v _ hne ↦ absurd rfl hne⟩
  · have hpm := dropL1e_pmap hd
    have hpend : (⟨sys, s.kern⟩ : Space).pending pm =
        ((s.pending pm).or (tlbflushp (s.sys.l1 pm (vpn newva)) (s.sys.l1 pm (vpn va)))).or
          (tlbflushp (s.sys.l1 pm (vpn va)) invalidL1e) := by
      show (sys.pmap pm).tlbflush = _
      rw [hpm]
      simp [Sys.moved, Sys.setFlush, Space.pending]
    have hl1 (v : Nat) (hv : v ∈ userVpns) : (⟨sys, s.kern⟩ : Space).entry pm v =
        if v = vpn newva then s.sys.l1 pm (vpn va)
        else if v = vpn va then mkl1e pfnInvalid .none else s.entry pm v := by
      rw [Space.entry_user hv, Space.entry_user hv]
      show (sys.pmap pm).l1s v = _
      rw [hpm]
      show (s.sys.moved pm va newva).l1 pm v = _
      rw [Sys.moved, Sys.l1_setFlush, Sys.l1_setL1e, Sys.l1_setL1e]
      simp
    refine ⟨hpend ▸ (Tlbf.le_or_left _ _).trans (Tlbf.le_or_left _ _), fun v hp hne ↦ ?_⟩
    by_cases hv : v ∈ userVpns
    · rw [hl1 v hv] at hne ⊢
      rw [hpend]
      by_cases hn : v = vpn newva
      · -- the entry that is overwritten
        subst hn
        rw [if_pos rfl, Space.entry_user hv]
        rw [Space.entry_user hv] at hp
        exact (Tlbf.covers_tlbflushp hp).mono
          ((Tlbf.le_or_right _ _).trans (Tlbf.le_or_left _ _))
      · rw [if_neg hn] at hne ⊢
        by_cases ho : v = vpn va
        · -- the entry that moves away
          subst ho
          rw [if_pos rfl, Space.entry_user hv]
          rw [Space.entry_user hv] at hp
          exact (Tlbf.covers_tlbflushp hp).mono (Tlbf.le_or_right _ _)
        · exact absurd (if_neg ho) hne
    · refine absurd ?_ hne
      rw [Space.entry, Space.entry, if_neg hv, if_neg hv]

/-- One iteration of `pmap_copy` accumulates, and has what it makes copy-on-write flushed. -/
theorem pmapCopyCow_pending {s s' : Sys} {new v : Nat}
    (h : pmapCopyCow pm new s v = .ok s') :
    ((s.pmap pm).tlbflush).Le (s'.pmap pm).tlbflush ∧
      ((s.l1 pm v).p = true → l1eExternal (s.l1 pm v) = false →
        (s'.pmap pm).tlbflush.normal = true) := by
  simp only [pmapCopyCow] at h
  split at h
  · rename_i hp
    cases h
    rw [Sys.tlbflush_setL1e]
    exact ⟨.refl _, fun hp' ↦ absurd hp' (by simpa using hp)⟩
  · split at h
    · rename_i hx
      cases h
      rw [Sys.tlbflush_setL1e]
      exact ⟨.refl _, fun _ hx' ↦ absurd hx (by simp [hx'])⟩
    · simp only [bind_eq_ok, kassert_eq_ok] at h
      obtain ⟨_, _, s₁, h₁, h₂⟩ := h
      obtain ⟨_, rfl⟩ := pfndbIncref_ok h₁
      cases h₂
      rw [Sys.tlbflush_setFlush, Sys.tlbflush_setL1e, Sys.tlbflush_setL1e]
      exact ⟨Tlbf.le_or_left _ _, fun _ _ ↦ by simp [Tlbf.or]⟩

/-- The loop accumulates the flushes of all its iterations. -/
theorem copyLoop_pending {s t : Sys} {new : Nat} {l : List Nat} (hne : new ≠ pm) (hl : l.Nodup)
    (h : l.foldlM (pmapCopyCow pm new) s = .ok t) :
    ((s.pmap pm).tlbflush).Le (t.pmap pm).tlbflush ∧
      ∀ v ∈ l, (s.l1 pm v).p = true → l1eExternal (s.l1 pm v) = false →
        (t.pmap pm).tlbflush.normal = true ∨ (t.pmap pm).tlbflush.global = true := by
  induction l generalizing s with
  | nil =>
      cases h
      exact ⟨.refl _, fun v hv ↦ absurd hv List.not_mem_nil⟩
  | cons w l ih =>
      rw [List.foldlM_cons, bind_eq_ok] at h
      obtain ⟨s₁, h₁, h₂⟩ := h
      rw [List.nodup_cons] at hl
      obtain ⟨hle, hnorm⟩ := pmapCopyCow_pending h₁
      obtain ⟨hle', hrest⟩ := ih hl.2 h₂
      refine ⟨hle.trans hle', fun v hv hp hx ↦ ?_⟩
      rcases List.mem_cons.1 hv with rfl | hv
      · exact hle'.normal (hnorm hp hx)
      · have hvw : v ≠ w := ne_of_mem_of_not_mem hv hl.1
        have hkeep : s₁.l1 pm v = s.l1 pm v := by
          rw [pmapCopyCow_l1 hne.symm h₁, if_neg (fun h ↦ hvw h.1), if_neg (fun h ↦ hvw h.1)]
        exact hrest v hv (hkeep ▸ hp) (hkeep ▸ hx)

/-- `pmap_copy` has the entries flushed that it makes copy-on-write, the global ones on the
strength of what is pending already. -/
theorem accounts_copy {new : Nat} {stale : Tlbf} (hne : new ≠ pm)
    (h : pmapCopy s.sys pm new stale = .ok sys) (hf : s.FlushSafe pm (.copy new stale)) :
    s.Accounts pm ⟨sys, s.kern⟩ := by
  simp only [pmapCopy, bind_eq_ok] at h
  obtain ⟨s₁, h₁, h₂⟩ := h
  -- clearing the entry of the page that is copied at once leaves `pm` alone
  have hpm : s₁.pmap pm = s.sys.pmap pm := by
    refine foldlM_invariant (I := fun t : Sys ↦ t.pmap pm = s.sys.pmap pm)
      (fun a v b _ ha hb ↦ ?_) h₁ (Function.update_of_ne hne.symm _ _)
    cases hb
    rw [← ha]
    exact Function.update_of_ne hne.symm _ _
  have hl1 (v : Nat) : s₁.l1 pm v = s.sys.l1 pm v := congrFun (congrArg Pmap.l1s hpm) v
  obtain ⟨hle, hnorm⟩ := copyLoop_pending hne nodup_cowVpns h₂
  rw [hpm] at hle
  refine ⟨hle, fun v hp hch ↦ ?_⟩
  by_cases hv : v ∈ userVpns
  · rw [Space.entry_user hv, Space.entry_user hv] at hch
    rw [Space.entry_user hv] at hp
    rw [Space.entry_user hv, Space.entry_user hv]
    dsimp only at hch ⊢
    rw [copyLoop_l1 hne.symm nodup_cowVpns h₂, hl1] at hch ⊢
    by_cases hc : v ∈ cowVpns
    · rw [if_pos ⟨hc, rfl⟩] at hch ⊢
      have hx : l1eExternal (s.sys.l1 pm v) = false := by
        by_contra hx
        exact hch (by simp [cowParent, hx])
      have hcow : cowParent (s.sys.l1 pm v) = l1eMkcow (s.sys.l1 pm v) := by
        simp [cowParent, hp, hx]
      rw [hcow] at hch ⊢
      refine ⟨hnorm v hc (hl1 v ▸ hp) (hl1 v ▸ hx), fun hg ↦ hle.global ?_⟩
      exact hf.copy new stale rfl v hc hp hx hch (hg.elim id id)
    · rw [if_neg (fun h ↦ hc h.1), if_neg (fun h ↦ hc h.1)] at hch
      exact absurd rfl hch
  · refine absurd ?_ hch
    rw [Space.entry, Space.entry, if_neg hv, if_neg hv]

/-- Every safe operation on the address space accounts for what it does. -/
theorem PmapStep.accounts (h : PmapStep pm s op t) (hop : op ≠ .other)
    (hf : s.FlushSafe pm op) : s.Accounts pm t := by
  cases h with
  | kenter h => exact (wrote_kenter h).accounts hf
  | uenter h => exact (wrote_uenter h).accounts hf
  | uiomap h => exact (wrote_uiomap h).accounts hf
  | uiounmap h => exact (wrote_uiounmap h).accounts hf
  | uchaddr h => exact accounts_uchaddr h
  | uchprot h => exact (wrote_uchprot h).accounts hf
  | uwire h => exact (wrote_uwire h).accounts hf
  | uunwire h => exact (wrote_uunwire h).accounts hf
  | copy hne h => exact accounts_copy hne h hf
  | other h => exact absurd rfl hop

/-- Nothing that is pending is lost in a step that is safe. -/
theorem PmapStep.kept (h : PmapStep pm s op t) (hf : s.FlushSafe pm op) :
    (s.pending pm).Le (t.pending pm) := by
  by_cases hop : op = .other
  · subst hop
    cases h with
    | other h =>
        have hpend : t.pending pm = s.pending pm := congrArg Pmap.tlbflush h
        exact hpend ▸ .refl _
  · exact (h.accounts hop hf).kept

end Accounts

/-! ## Batches -/

/-- What is covered by what is pending is flushed by the next commit. -/
theorem Tlbf.Covers.commit {s : Sys} {pm : Nat} {ol1e nl1e : L1e}
    (h : (s.pmap pm).tlbflush.Covers ol1e nl1e) :
    (pmapCommit s pm).1 ≠ .none ∧
      (ol1e.g = true ∨ nl1e.g = true → (pmapCommit s pm).1 = .all) := by
  refine ⟨?_, fun hg ↦ if_pos (h.global hg)⟩
  show (if (s.pmap pm).tlbflush.global then Flush.all
    else if (s.pmap pm).tlbflush.normal then .cpus else .none) ≠ .none
  split
  · exact Flush.noConfusion
  · rename_i hg
    rw [if_pos (h.flush.resolve_right hg)]
    exact Flush.noConfusion

/-- A present entry that one operation of a batch changes is flushed by the commit, globally
when the old or the new entry is global, if the operations from there on are safe: what they
assign to `tlbflush` covers what was pending. -/
theorem flush_accounted {pm v : Nat} {s t u : Space} {op : PmapOp} {ops : List PmapOp}
    (hstep : PmapStep pm s op t) (hop : op ≠ .other) (hsafe : s.FlushSafe pm op)
    (hrun : Run (fun a o b ↦ a.FlushSafe pm o ∧ PmapStep pm a o b) t ops u)
    (hp : (s.entry pm v).p = true) (hne : t.entry pm v ≠ s.entry pm v) :
    (pmapCommit u.sys pm).1 ≠ .none ∧
      ((s.entry pm v).g = true ∨ (t.entry pm v).g = true → (pmapCommit u.sys pm).1 = .all) := by
  have hcov := (hstep.accounts hop hsafe).covers v hp hne
  have hrest : (u.pending pm).Covers (s.entry pm v) (t.entry pm v) :=
    hrun.invariant (I := fun a ↦ (a.pending pm).Covers (s.entry pm v) (t.entry pm v))
      (fun a o b ha hab ↦ ha.mono (hab.2.kept hab.1)) hcov
  exact hrest.commit

/-- The machine of the demonstration, whose kernel entries do not matter. -/
def demoSpace : Space := ⟨demoMapped, fun _ ↦ .zero⟩

/-- The clearing of the page that is mapped there changes a present entry. -/
theorem demoSpace_cleared {sys : Sys} (h : sys.l1 1 2 = l1eMknormal (mkl1e 0 .none)) :
    (demoSpace.entry 1 2).p = true ∧
      (⟨sys, demoSpace.kern⟩ : Space).entry 1 2 ≠ demoSpace.entry 1 2 := by
  have hv : 2 ∈ userVpns := by rw [mem_userVpns]; omega
  have hold : demoSpace.entry 1 2 = mkl1e 1 protUserWr := by
    rw [Space.entry_user hv, demoSpace, demoMapped_l1]
    rfl
  rw [hold, Space.entry_user hv, h]
  decide

/-- Two pages are cleared, the first of which was mapped. -/
theorem demoMapped_uclear : ∃ r r', pmapUenter demoMapped 1 0x400000 0 .none = .ok r ∧
    pmapUenter r.2.2 1 0x600000 0 .none = .ok r' ∧
    r.2.2.l1 1 2 = l1eMknormal (mkl1e 0 .none) ∧ (pmapCommit r'.2.2 1).1 = .none := by
  obtain ⟨a, h, hg⟩ := exists_eq_ok (x := (do
      let r ← pmapUenter demoMapped 1 0x400000 0 .none
      let r' ← pmapUenter r.2.2 1 0x600000 0 .none
      return (r, r')))
    (g := fun a ↦ (a.1.2.2.l1 1 2, (pmapCommit a.2.2.2 1).1))
    (b := (l1eMknormal (mkl1e 0 .none), .none)) (by decide +kernel)
  simp only [bind_eq_ok] at h
  obtain ⟨r, hr, r', hr', ha⟩ := h
  cases ha
  exact ⟨r, r', hr, hr', congrArg Prod.fst hg, congrArg Prod.snd hg⟩

/-- The page is cleared, and an entry is moved. -/
theorem demoMapped_uchaddr : ∃ r r', pmapUenter demoMapped 1 0x400000 0 .none = .ok r ∧
    pmapUchaddr r.2.2 1 0x600000 0x800000 = .ok r' ∧
    r.2.2.l1 1 2 = l1eMknormal (mkl1e 0 .none) := by
  obtain ⟨a, h, hg⟩ := exists_eq_ok (x := (do
      let r ← pmapUenter demoMapped 1 0x400000 0 .none
      let r' ← pmapUchaddr r.2.2 1 0x600000 0x800000
      return (r, r')))
    (g := fun a ↦ a.1.2.2.l1 1 2) (b := l1eMknormal (mkl1e 0 .none)) (by decide +kernel)
  simp only [bind_eq_ok] at h
  obtain ⟨r, hr, r', hr', ha⟩ := h
  cases ha
  exact ⟨r, r', hr, hr', hg⟩

/-- In general a change can be lost: a page that was mapped is cleared, the next page of the
batch never was mapped, and the commit flushes nothing. -/
theorem flush_lost : ¬∀ (pm v : Nat) (s t u : Space) (op : PmapOp) (ops : List PmapOp),
    s.pending pm = .null → PmapStep pm s op t → op ≠ .other → Run (PmapStep pm) t ops u →
    (s.entry pm v).p = true → t.entry pm v ≠ s.entry pm v →
    (pmapCommit u.sys pm).1 ≠ .none := by
  intro h
  obtain ⟨r, r', hr, hr', hl1, hfl⟩ := demoMapped_uclear
  have hstep : PmapStep 1 demoSpace (.uenter 0x400000 0 .none) ⟨r.2.2, demoSpace.kern⟩ :=
    .uenter hr
  obtain ⟨hp, hne⟩ := demoSpace_cleared hl1
  exact h 1 2 _ _ _ _ _ rfl hstep (by simp) (.cons (.uenter hr') (.nil _)) hp hne hfl

/-- The page is cleared, an entry is moved, and the commit flushes. -/
theorem flush_accounted_demo : ∃ t u : Space,
    PmapStep 1 demoSpace (.uenter 0x400000 0 .none) t ∧
    Run (PmapStep 1) t [.uchaddr 0x600000 0x800000] u ∧ (pmapCommit u.sys 1).1 ≠ .none := by
  obtain ⟨r, r', hr, hr', hl1⟩ := demoMapped_uchaddr
  have hstep : PmapStep 1 demoSpace (.uenter 0x400000 0 .none) ⟨r.2.2, demoSpace.kern⟩ :=
    .uenter hr
  obtain ⟨hp, hne⟩ := demoSpace_cleared hl1
  -- nothing is pending before the batch, and `pmap_uchaddr` assigns nothing
  have hsafe : demoSpace.FlushSafe 1 (.uenter 0x400000 0 .none) :=
    ⟨fun _ _ _ ↦ ⟨fun h ↦ (by cases h), fun h ↦ (by cases h)⟩, fun _ _ h ↦ (by cases h)⟩
  have hsafe' : (⟨r.2.2, demoSpace.kern⟩ : Space).FlushSafe 1 (.uchaddr 0x600000 0x800000) :=
    ⟨fun _ _ h ↦ (by cases h), fun _ _ h ↦ (by cases h)⟩
  refine ⟨_, _, hstep, .cons (.uchaddr hr') (.nil _), ?_⟩
  exact (flush_accounted hstep (by simp) hsafe (.cons ⟨hsafe', .uchaddr hr'⟩ (.nil _)) hp hne).1

end Mh.Vm
