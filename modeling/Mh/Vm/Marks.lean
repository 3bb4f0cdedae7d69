import Mh.Vm.Move
import Mh.Vm.Dma

/-!
# The calls leave external entries alone

The entries that the devices have marked, as wired or as I/O mappings, are external: the calls of
`kern.c` leave them as they are, and mark no others.  `Unmoved M N s s'` says so for the mark `M` of
the way from `s` to `s'`; on it a user page keeps its wire count, unless `N` says otherwise, and
memory for I/O stays what it is.  It is proved for each call of `kern.c`, and composes.
-/

namespace Mh.Vm

open Mh.Lib

/-- A mark that makes an entry external. -/
structure Mark where
  test : L1e → Bool
  external : ∀ {e}, test e → l1eExternal e

/-- `PG_AVAIL_WIRED` -/
def Mark.wired : Mark := ⟨l1eWired, fun h ↦ l1eExternal_iff.2 (.inl h)⟩

/-- `PG_AVAIL_IOMAP` -/
def Mark.iomap : Mark := ⟨l1eIomap, fun h ↦ l1eExternal_iff.2 (.inr h)⟩

variable {M : Mark} {N : Nat → Nat → Prop} {s s' t : Sys} {cur va pfn pid v : Nat} {e : L1e}

/-- From `s` to `s'` the marked entries stay as they are, no entry is marked, the wire counts of
user pages change as `N` says, and memory for I/O stays that. -/
structure Unmoved (M : Mark) (N : Nat → Nat → Prop) (s s' : Sys) : Prop where
  live : s.live ⊆ s'.live
  kept : ∀ pid ∈ s.live, ∀ v ∈ userVpns, M.test (s.l1 pid v) → s'.l1 pid v = s.l1 pid v
  unmarked : ∀ pid ∈ s'.live, ∀ v ∈ userVpns, M.test (s'.l1 pid v) →
    pid ∈ s.live ∧ M.test (s.l1 pid v)
  page : ∀ q, (s'.db q).type = .user →
    ((s.db q).type = .user ∧ (s'.db q).wir = (s.db q).wir) ∨ N q (s'.db q).wir
  mmio : ∀ q, (s.db q).type = .mmio → (s'.db q).type = .mmio

namespace Unmoved

protected theorem refl (s : Sys) : Unmoved M N s s where
  live := Finset.Subset.refl _
  kept _ _ _ _ _ := rfl
  unmarked _ hpid _ _ hw := ⟨hpid, hw⟩
  page _ hu := .inl ⟨hu, rfl⟩
  mmio _ hm := hm

protected theorem trans (h : Unmoved M N s t) (h' : Unmoved M N t s') : Unmoved M N s s' where
  live := h.live.trans h'.live
  kept pid hpid v hv hw := by
    have h₁ := h.kept pid hpid v hv hw
    rw [h'.kept pid (h.live hpid) v hv (by rwa [h₁]), h₁]
  unmarked pid hpid v hv hw :=
    have ⟨hpid₁, hw₁⟩ := h'.unmarked pid hpid v hv hw
    h.unmarked pid hpid₁ v hv hw₁
  page q hu := by
    rcases h'.page q hu with ⟨hu₁, hw₁⟩ | hn
    · rw [hw₁]
      exact h.page q hu₁
    · exact .inr hn
  mmio q hm := h'.mmio q (h.mmio q hm)

end Unmoved

/-- `Calm M N s s'`: so does a call, which leaves the threads alone as well. -/
structure Calm (M : Mark) (N : Nat → Nat → Prop) (s s' : Sys) : Prop extends Unmoved M N s s' where
  threads : s'.live = s.live
  zombie : s'.zombie = s.zombie
  nextpid : s'.nextpid = s.nextpid

namespace Calm

protected theorem refl (s : Sys) : Calm M N s s := ⟨.refl s, rfl, rfl, rfl⟩

protected theorem trans (h : Calm M N s t) (h' : Calm M N t s') : Calm M N s s' where
  toUnmoved := h.toUnmoved.trans h'.toUnmoved
  threads := h'.threads.trans h.threads
  zombie := h'.zombie.trans h.zombie
  nextpid := h'.nextpid.trans h.nextpid

/-! ## The primitives -/

theorem setFlush (pid : Nat) (f : Tlbf) : Calm M N s (s.setFlush pid f) where
  live := Finset.Subset.refl _
  kept p _ w _ _ := s.l1_setFlush pid p w f
  unmarked p hp w _ hw := by
    rw [Sys.l1_setFlush] at hw
    exact ⟨hp, hw⟩
  page _ hu := .inl ⟨hu, rfl⟩
  mmio _ hm := hm
  threads := rfl
  zombie := rfl
  nextpid := rfl

theorem setMem (c : Nat → UInt8) : Calm M N s (s.setMem pfn c) where
  live := Finset.Subset.refl _
  kept _ _ _ _ _ := rfl
  unmarked _ hp _ _ hw := ⟨hp, hw⟩
  page _ hu := .inl ⟨hu, rfl⟩
  mmio _ hm := hm
  threads := rfl
  zombie := rfl
  nextpid := rfl

/-- An entry that is not marked gives way to one that is not. -/
theorem setL1e (h : M.test (s.l1 pid v) = false) (he : M.test e = false) :
    Calm M N s (s.setL1e pid v e) where
  live := Finset.Subset.refl _
  kept p _ w _ hw := by
    rw [Sys.l1_setL1e, if_neg]
    rintro ⟨rfl, rfl⟩
    rw [h] at hw
    cases hw
  unmarked p hp w _ hw := by
    refine ⟨hp, ?_⟩
    rw [Sys.l1_setL1e] at hw
    split at hw
    · rw [he] at hw
      cases hw
    · exact hw
  page _ hu := .inl ⟨hu, rfl⟩
  mmio _ hm := hm
  threads := rfl
  zombie := rfl
  nextpid := rfl

/-- A page whose count stays, or is as `N` says, and that does not cease to be memory for I/O. -/
theorem setDb {x : Ipfn} (h : x.type = .user →
    ((s.db pfn).type = .user ∧ x.wir = (s.db pfn).wir) ∨ N pfn x.wir)
    (hm : (s.db pfn).type = .mmio → x.type = .mmio) : Calm M N s (s.setDb pfn x) where
  live := Finset.Subset.refl _
  kept _ _ _ _ _ := rfl
  unmarked _ hp _ _ hw := ⟨hp, hw⟩
  page q hu := by
    by_cases hq : q = pfn
    · subst hq
      rw [Sys.setDb_db_self] at hu ⊢
      exact h hu
    · rw [Sys.setDb_db_of_ne _ hq] at hu ⊢
      exact .inl ⟨hu, rfl⟩
  mmio q hq := by
    by_cases hqp : q = pfn
    · subst hqp
      rw [Sys.setDb_db_self]
      exact hm hq
    · rwa [Sys.setDb_db_of_ne _ hqp]
  threads := rfl
  zombie := rfl
  nextpid := rfl

theorem put (h : M.test (s.l1 pid v) = false) (he : M.test e = false) :
    Calm M N s (s.put pid v e) :=
  (setFlush pid _).trans (setL1e (by rwa [Sys.l1_setFlush]) he)

theorem take (n : L1e) : Calm M N s (s.take n) := by
  unfold Sys.take
  split
  · exact setDb (fun hu ↦ .inl ⟨hu, rfl⟩) id
  · exact .refl s

theorem free {q : Nat} (h : (s.db q).type ≠ .mmio) : Calm M N s (s.free q) :=
  setDb nofun fun hm ↦ absurd hm h

theorem drop {o : L1e} {opfn : Option Nat} (h : dropL1e s o = .ok (opfn, s')) :
    Calm M N s (s'.freed opfn) := by
  rcases dropL1e_ok h with ⟨_, rfl, rfl⟩ | ⟨_, hu, rfl, rfl⟩
  · exact .refl s'
  · have hty : ((s.decref o.pfn).db o.pfn).type ≠ .mmio := by
      rw [(s.decref_db o.pfn o.pfn).type, hu]
      decide
    have hdec : Calm M N s (s.decref o.pfn) := setDb (fun hu ↦ .inl ⟨hu, rfl⟩) id
    split
    · exact hdec.trans (free hty)
    · exact hdec

/-- A page handed out, with no count left over. -/
theorem alloc (hf : s.Free pfn) (hn : N pfn 0) : Calm M N s (s.alloc pfn 0) :=
  setDb (fun _ ↦ .inr hn) fun hm ↦ absurd hm hf.type_ne_mmio

/-- A page handed out and given back. -/
theorem refund (hf : s.Free pfn) (wir : Nat) : Calm M N s ((s.alloc pfn wir).free pfn) := by
  rw [Sys.free, Sys.alloc, Sys.setDb_setDb]
  refine setDb (fun hu ↦ ?_) fun hm ↦ absurd hm hf.type_ne_mmio
  rw [Sys.setDb_db_self] at hu
  cases hu

end Calm

/-! ## The page-table operations -/

namespace Mark

/-- What is not external is not marked. -/
theorem test_of_not_external (M : Mark) (h : l1eExternal e = false) : M.test e = false := by
  by_contra ht
  rw [M.external (by simpa using ht)] at h
  cases h

/-- Neither is a normal entry. -/
theorem test_of_normal (M : Mark) (h : e.avail = .normal) : M.test e = false :=
  M.test_of_not_external (by simp [l1eExternal, l1eWired, l1eIomap, h])

/-- Nor one that is copied on write. -/
theorem test_of_cow (M : Mark) (h : e.avail = .cow) : M.test e = false :=
  M.test_of_not_external (by simp [l1eExternal, l1eWired, l1eIomap, h])

theorem test_mkl1e (M : Mark) (pfn : Nat) (prot : Prot) : M.test (mkl1e pfn prot) = false :=
  M.test_of_normal rfl

end Mark

/-- `pmap_uenter`, with the page that it gives up. -/
theorem Calm.uenter {prot : Prot} {r : Int} {opfn : Option Nat}
    (h : pmapUenter s cur va pfn prot = .ok (r, opfn, s')) :
    Calm M N s (s'.freed opfn) ∧ (r < 0 → opfn = none) := by
  obtain ⟨-, -, ⟨_, _, rfl, rfl⟩ | ⟨hx, rfl, hd⟩⟩ := pmapUenter_ok h
  · exact ⟨.refl s', fun _ ↦ rfl⟩
  · refine ⟨?_, fun hr ↦ absurd hr (lt_irrefl 0)⟩
    refine ((Calm.take _).trans (put ?_ (M.test_mkl1e pfn prot))).trans (drop hd)
    rw [Sys.l1_take]
    exact M.test_of_not_external hx

/-- `pmap_uchaddr`. -/
theorem Calm.uchaddr {newva : Nat} {r : Int} {opfn : Option Nat}
    (h : pmapUchaddr s cur va newva = .ok (r, opfn, s')) :
    Calm M N s (s'.freed opfn) ∧ (r < 0 → opfn = none) := by
  obtain ⟨-, -, ⟨_, _, rfl, rfl⟩ | ⟨hx, hx', rfl, hd⟩⟩ := pmapUchaddr_ok h
  · exact ⟨.refl s', fun _ ↦ rfl⟩
  · refine ⟨Calm.trans ?_ (drop hd), fun hr ↦ absurd hr (lt_irrefl 0)⟩
    have h₁ : Calm M N s (s.setL1e cur (vpn va) (mkl1e pfnInvalid .none)) :=
      setL1e (M.test_of_not_external hx) (M.test_mkl1e _ _)
    refine (h₁.trans (setL1e ?_ (M.test_of_not_external hx))).trans (setFlush cur _)
    rw [Sys.l1_setL1e]
    split
    · exact M.test_mkl1e _ _
    · exact M.test_of_not_external hx'

/-- `pmap_uchprot`. -/
theorem Calm.uchprot {prot : Prot} {r : Int} (h : pmapUchprot s cur va prot = .ok (r, s')) :
    Calm M N s s' := by
  obtain ⟨-, -, -, rfl | ⟨hn, rfl⟩⟩ := pmapUchprot_ok h
  · exact .refl s'
  · exact put (M.test_of_normal (l1eNormal_iff.1 hn).2) (M.test_mkl1e _ _)

/-- `_pmap_fault`. -/
theorem Calm.fault {err : Pferr} {x : Option Xcpterr} (h : pmapFault s cur va err = .ok (x, s')) :
    Calm M N s s' := by
  obtain ⟨rfl, _⟩ | ⟨-, _, hc, _, _, rfl⟩ := pmapFault_ok h
  · exact .refl s'
  · exact setL1e (M.test_of_cow (l1eCow_iff.1 hc).2) (M.test_of_normal rfl)

/-! ## The calls -/

/-- What `iomap` has done where it returns: it has failed, or marked the entry, and given up the
page of the entry before. -/
theorem iomap_put {prot : Prot} {r : Int} (M : Mark) (N : Nat → Nat → Prop)
    (h : iomap s cur va pfn prot = .ok (r, s')) :
    (r < 0 ∧ Calm M N s s') ∨
    (0 ≤ r ∧ isuaddr va ∧ (s.db pfn).type = .mmio ∧ l1eExternal (s.l1 cur (vpn va)) = false ∧
      Calm M N (s.put cur (vpn va) (l1eMkiomap (mkl1e pfn prot))) s') := by
  simp only [Vm.iomap, bind_eq_ok] at h
  obtain ⟨ty, hty, h⟩ := h
  obtain ⟨-, rfl⟩ := pfndbType_ok hty
  split at h
  · cases h
    exact .inl ⟨Errno.neg_lt_zero .EINVAL, .refl s⟩
  · rename_i hmmio
    rw [bind_eq_ok] at h
    obtain ⟨⟨r₁, opfn, s₁⟩, h₁, h₂⟩ := h
    obtain ⟨hva, ⟨rfl, rfl, rfl⟩ | ⟨hx, rfl, hd⟩⟩ := pmapUiomap_ok h₁
    · rw [if_pos (Errno.neg_lt_zero .EBUSY)] at h₂
      cases h₂
      exact .inl ⟨Errno.neg_lt_zero .EBUSY, .setFlush cur _⟩
    · rw [if_neg (lt_irrefl 0)] at h₂
      obtain ⟨rfl, hr⟩ := freeOld_ok h₂
      refine .inr ⟨hr, hva, by simpa using hmmio, hx, ?_⟩
      rw [pmapCommit_snd, Sys.setFlush_freed]
      exact (Calm.drop hd).trans (.setFlush cur _)

/-- What `iounmap` has done: it has unmapped an I/O mapping, if there is one. -/
theorem iounmap_put {r : Int} (h : iounmap s cur va = .ok (r, s')) : isuaddr va ∧
    s' = (if l1eIomap (s.l1 cur (vpn va)) then s.put cur (vpn va) invalidL1e else s).setFlush cur
      .null := by
  simp only [Vm.iounmap, bind_eq_ok] at h
  obtain ⟨⟨r₁, s₁⟩, h₁, h₂⟩ := h
  simp only [pmapUiounmap, bind_eq_ok, kassert_eq_ok] at h₁
  obtain ⟨_, hva, h₁⟩ := h₁
  cases h₂
  refine ⟨hva, ?_⟩
  split at h₁
  · rename_i hi
    cases h₁
    rw [if_neg (by simpa using hi)]
    rfl
  · rename_i hi
    cases h₁
    rw [if_pos (by simpa using hi)]
    rfl

/-- `iomap` wires nothing. -/
theorem Calm.iomap {prot : Prot} {r : Int} (h : iomap s cur va pfn prot = .ok (r, s')) :
    Calm .wired N s s' := by
  obtain ⟨_, hc⟩ | ⟨_, _, _, hx, hc⟩ := iomap_put .wired N h
  · exact hc
  · refine (put (Mark.test_of_not_external _ hx) ?_).trans hc
    simp [Mark.wired, l1eWired, l1eMkiomap]

/-- `iounmap` unwires nothing. -/
theorem Calm.iounmap {r : Int} (h : iounmap s cur va = .ok (r, s')) : Calm .wired N s s' := by
  obtain ⟨-, rfl⟩ := iounmap_put h
  refine Calm.trans ?_ (setFlush cur _)
  split
  · rename_i hi
    refine put ?_ (Mark.test_mkl1e _ _ _)
    simp [Mark.wired, l1eWired, (l1eIomap_iff.1 hi).2]
  · exact .refl s

/-- `vmmap32`: only an entry that is not external gets the new page. -/
theorem Calm.vmmap32 {prot : Prot} {pg : Page} {r : Int}
    (hn : l1eExternal (s.l1 cur (vpn va)) = false → N pg.pfn 0)
    (h : vmmap32 s cur va prot pg = .ok (r, s')) : Calm M N s s' := by
  simp only [Vm.vmmap32, bind_eq_ok] at h
  obtain ⟨s₁, h₁, ⟨r₁, opfn, s₂⟩, h₂, h₃⟩ := h
  obtain ⟨hf, rfl⟩ := allocuser_ok h₁
  have hcalm : Calm M N (s.alloc pg.pfn 0) _ := (Calm.uenter h₂).1
  obtain ⟨-, -, ⟨_, rfl, _, rfl⟩ | ⟨hx, rfl, _⟩⟩ := pmapUenter_ok h₂
  · rw [if_pos (Errno.neg_lt_zero .EBUSY), bind_eq_ok] at h₃
    obtain ⟨s₃, h₄, h₅⟩ := h₃
    cases h₅
    rw [pgfree_ok h₄]
    exact (refund hf 0).trans (setFlush cur .null)
  · simp only [lt_irrefl, if_false] at h₃
    rw [(freeOld_ok h₃).1, pmapCommit_snd, Sys.setFlush_freed]
    exact ((alloc hf (hn hx)).trans hcalm).trans (setFlush cur _)

/-- `vmmap`. -/
theorem Calm.vmmap {prot : Prot} {pg : Page} {r : Int}
    (hn : l1eExternal (s.l1 cur (vpn va)) = false → N pg.pfn 0)
    (h : vmmap s cur va prot pg = .ok (r, s')) : Calm M N s s' := by
  simp only [Vm.vmmap, bind_eq_ok] at h
  obtain ⟨⟨r₁, s₁⟩, h₁, h₂⟩ := h
  have hcalm : Calm M N s s₁ := .vmmap32 hn h₁
  split at h₂
  · cases h₂
    exact hcalm
  · rw [bind_eq_ok] at h₂
    obtain ⟨s₂, h₃, h₄⟩ := h₂
    cases h₄
    obtain ⟨_, _, rfl⟩ := kernelFill_ok h₃
    exact hcalm.trans (setMem _)

/-- `vmunmap`. -/
theorem Calm.vmunmap {r : Int} (h : vmunmap s cur va = .ok (r, s')) : Calm M N s s' := by
  simp only [Vm.vmunmap, bind_eq_ok] at h
  obtain ⟨⟨r₁, opfn, s₁⟩, h₁, h₂⟩ := h
  obtain ⟨hcalm, hneg⟩ := Calm.uenter h₁
  rw [finish_ok h₂ hneg]
  exact hcalm.trans (setFlush cur _)

/-- `vmmove`. -/
theorem Calm.vmmove {dst src : Nat} {r : Int} (h : vmmove s cur dst src = .ok (r, s')) :
    Calm M N s s' := by
  simp only [Vm.vmmove, bind_eq_ok] at h
  obtain ⟨⟨r₁, opfn, s₁⟩, h₁, h₂⟩ := h
  obtain ⟨hcalm, hneg⟩ := Calm.uchaddr h₁
  rw [finish_ok h₂ hneg]
  exact hcalm.trans (setFlush cur _)

/-- `vmchprot`. -/
theorem Calm.vmchprot {prot : Prot} {r : Int} (h : vmchprot s cur va prot = .ok (r, s')) :
    Calm M N s s' := by
  simp only [Vm.vmchprot, bind_eq_ok] at h
  obtain ⟨⟨r₁, s₁⟩, h₁, h₂⟩ := h
  cases h₂
  exact (Calm.uchprot h₁).trans (setFlush cur _)

/-- `vmclear`. -/
theorem Calm.vmclear {addr sz : Nat} (h : vmclear s cur addr sz = .ok s') : Calm M N s s' := by
  simp only [Vm.vmclear, bind_eq_ok] at h
  obtain ⟨s₁, h₁, h₂⟩ := h
  cases h₂
  refine Calm.trans ?_ (setFlush cur _)
  refine foldlM_invariant (I := Calm M N s) ?_ h₁ (.refl s)
  rintro u i u' - hu hstep
  simp only [vmclearPage, bind_eq_ok] at hstep
  obtain ⟨⟨r, opfn, s₂⟩, h₂, ⟨r', s₃⟩, h₃, h₄⟩ := hstep
  cases h₄
  rw [(freeOld_ok h₃).1]
  exact hu.trans (Calm.uenter h₂).1

/-! ## Fork -/

/-- The page that the loop of `thfork` takes: it is given back, or keeps the wire count it came
with. -/
theorem thforkZcow_wir {new : Nat} {pick : Nat → Page} (h : thforkZcow cur new pick s v = .ok s') :
    ((s.l1 cur v).p = false ∧ (s'.db (pick v).pfn).type = .free) ∨
    ((s.l1 cur v).p ∧ (s'.db (pick v).pfn).type = .user ∧
      (s'.db (pick v).pfn).wir = (pick v).wir) := by
  obtain ⟨_, ⟨hp, rfl⟩ | ⟨hp, hu⟩⟩ := thforkZcow_ok h
  · refine .inl ⟨hp, ?_⟩
    rw [Sys.free, Sys.setDb_db_self]
  · refine .inr ⟨hp, ?_⟩
    obtain ⟨-, -, ⟨_, hr, _⟩ | ⟨_, _, hd⟩⟩ := pmapUenter_ok hu
    · exact absurd hr (by decide)
    · have hdrop := dropL1e_db hd (pick v).pfn
      rw [Sys.put, Sys.setL1e_db, Sys.setFlush_db] at hdrop
      have hsame := (Sys.take_db _ _ _).trans hdrop
      rw [Sys.alloc, Sys.setDb_db_self] at hsame
      exact ⟨hsame.type, hsame.wir⟩

/-- The copy marks no entry of the parent. -/
theorem Mark.test_cowParent (M : Mark) {e : L1e} (h : M.test (cowParent e)) : M.test e := by
  unfold cowParent at h
  split at h
  · rw [M.test_of_cow rfl] at h
    cases h
  · exact h

/-- Nor does it change one that is marked. -/
theorem Mark.cowParent (M : Mark) {e : L1e} (h : M.test e) : cowParent e = e := by
  simp [Vm.cowParent, M.external h]

/-- The child has no marked entry. -/
theorem Mark.test_cowChild (M : Mark) (e : L1e) : M.test (cowChild e) = false := by
  refine M.test_of_not_external ?_
  unfold cowChild
  split
  · simp_all [l1eExternal, l1eWired, l1eIomap]
  · split
    · rfl
    · simp [l1eExternal, l1eWired, l1eIomap, l1eMkcow]

theorem mem_cowVpns_of_ne {v : Nat} (hv : v ∈ userVpns) (h : v ≠ 1) : v ∈ cowVpns := by
  rw [mem_userVpns] at hv
  rw [mem_cowVpns]
  omega

/-- The page that `thfork` takes for a page it copies at once. -/
theorem thfork_wir {stale : Tlbf} {pick : Nat → Page} (hne : cur ≠ s.nextpid)
    (h : thfork s cur stale pick = .ok s') :
    ((s.l1 cur 1).p = false ∧ (s'.db (pick 1).pfn).type = .free) ∨
    ((s.l1 cur 1).p ∧ (s'.db (pick 1).pfn).type = .user ∧
      (s'.db (pick 1).pfn).wir = (pick 1).wir) := by
  obtain ⟨t, t', ht, ht', rfl⟩ := thfork_ok h
  have hcur1 : t.l1 cur 1 = s.l1 cur 1 := by
    rw [thforkCopy_l1 hne ht, if_neg hne, if_neg fun h ↦ one_notMem_cowVpns h.1]
  have hwir := thforkZcow_wir ht'
  rwa [hcur1] at hwir

/-- `thfork`, when `N` allows the wire count that the page it takes has left over. -/
theorem Unmoved.thfork {stale : Tlbf} {pick : Nat → Page} (hlt : ∀ pid ∈ s.live, pid < s.nextpid)
    (hcur : cur ∈ s.live) (hn : (s.l1 cur 1).p → N (pick 1).pfn (pick 1).wir)
    (h : thfork s cur stale pick = .ok s') : Unmoved M N s s' := by
  have hne : cur ≠ s.nextpid := (hlt cur hcur).ne
  have hf := thfork_forked hne h
  refine ⟨?_, fun pid hpid v hv hw ↦ ?_, fun pid hpid v hv hw ↦ ?_, fun q hu ↦ ?_,
    fun q hm ↦ ?_⟩
  · rw [hf.live]
    exact Finset.subset_insert _ _
  · by_cases hc : pid = cur
    · subst hc
      by_cases h1 : v = 1
      · rw [h1]
        exact hf.own
      · rw [hf.parent v (mem_cowVpns_of_ne hv h1), M.cowParent hw]
    · exact hf.other pid hc (hlt pid hpid).ne v
  · by_cases hnew : pid = s.nextpid
    · -- the child has no marked entry
      exfalso
      subst hnew
      by_cases h1 : v = 1
      · subst h1
        rcases hf.copy with ⟨_, hp, _⟩ | ⟨_, he, _⟩
        · rw [M.test_of_not_external (by simp [l1eExternal, l1eWired, l1eIomap, hp])] at hw
          cases hw
        · rw [he, M.test_mkl1e] at hw
          cases hw
      · rw [hf.child v (mem_cowVpns_of_ne hv h1), M.test_cowChild] at hw
        cases hw
    · rw [hf.live, Finset.mem_insert] at hpid
      refine ⟨hpid.resolve_left hnew, ?_⟩
      by_cases hc : pid = cur
      · subst hc
        by_cases h1 : v = 1
        · subst h1
          rwa [hf.own] at hw
        · rw [hf.parent v (mem_cowVpns_of_ne hv h1)] at hw
          exact M.test_cowParent hw
      · rwa [hf.other pid hc hnew] at hw
  · by_cases hq : q = (pick 1).pfn
    · subst hq
      rcases thfork_wir hne h with ⟨_, hty⟩ | ⟨hp, _, hw⟩
      · rw [hty] at hu
        cases hu
      · rw [hw]
        exact .inr (hn hp)
    · have hdb := hf.db q hq
      rw [hdb.type] at hu
      exact .inl ⟨hu, hdb.wir⟩
  · have hq : q ≠ (pick 1).pfn := by
      rintro rfl
      exact hf.free.type_ne_mmio hm
    rw [(hf.db q hq).type, hm]

/-! ## What an operation does -/

/-- `__exit`, of which only the thread that dies is not left alone. -/
theorem Unmoved.exit (h : exit s cur = .ok s') : Unmoved M N s s' ∧ s'.live = s.live ∧
    s'.zombie = insert cur s.zombie ∧ s'.nextpid = s.nextpid := by
  obtain ⟨_, t, ht, rfl⟩ := exit_ok h
  have hc : Calm M N s t := .vmclear ht
  refine ⟨hc.toUnmoved.trans ?_, hc.threads, congrArg (insert cur) hc.zombie, hc.nextpid⟩
  exact ⟨Finset.Subset.refl _, fun _ _ _ _ _ ↦ rfl, fun _ hpid _ _ hw ↦ ⟨hpid, hw⟩,
    fun _ hu ↦ .inl ⟨hu, rfl⟩, fun _ hm ↦ hm⟩

/-- The operation is one of the drivers. -/
def Op.driven : Op → Bool
  | .iomap .. | .iounmap _ | .wire _ | .unwire _ => true
  | _ => false

/-- What an operation of a thread has done that is not one of the drivers. -/
inductive Did (M : Mark) (N : Nat → Nat → Prop) (s : Sys) (cur : Nat) : Op → Sys → Prop
  | /-- It has left the marked entries and the threads alone. -/
    calm {op : Op} {s' : Sys} (hk : op.kills = false) (h : Calm M N s s') : Did M N s cur op s'
  | /-- It has ended in `__exit`. -/
    exit {op : Op} {s' : Sys} (hk : op.kills) (h : Vm.exit s cur = .ok s') : Did M N s cur op s'
  | fork {stale : Tlbf} {pick : Nat → Page} {s' : Sys} (h : thfork s cur stale pick = .ok s') :
    Did M N s cur (.fork stale pick) s'
  | thfree {th : Nat} (h : th ∈ s.zombie) : Did M N s cur (.thfree th) (thfree s th)

/-- `SYS_MAP`. -/
theorem Did.sysMap {perm : Nat} {root : Bool} {pg : Page} {r : Int}
    (hn : (Op.map va perm root pg).kills = false →
      (∃ prot, mapCall perm root = .vmmap prot ∨ mapCall perm root = .vmmap32 prot) →
      l1eExternal (s.l1 cur (vpn va)) = false → N pg.pfn 0)
    (h : sysMap s cur va perm root pg = .ok (r, s')) :
    Did M N s cur (.map va perm root pg) s' := by
  unfold Vm.sysMap at h
  split at h
  · rename_i hva
    rw [bind_eq_ok] at h
    obtain ⟨s₁, h₁, h₂⟩ := h
    cases h₂
    exact .exit hva h₁
  · rename_i hva
    have hk : (Op.map va perm root pg).kills = false := by simpa [Op.kills] using hva
    split at h
    · cases h
      exact .calm hk (.refl s)
    · rename_i prot hm
      exact .calm hk (.vmmap (hn hk ⟨prot, .inl hm⟩) h)
    · rename_i prot hm
      exact .calm hk (.vmmap32 (hn hk ⟨prot, .inr hm⟩) h)
    · exact .calm hk (.vmunmap h)
    · exact .calm hk (.vmchprot h)

/-- `SYS_MOVE`. -/
theorem Did.sysMove {dst src : Nat} {r : Int} (h : sysMove s cur dst src = .ok (r, s')) :
    Did M N s cur (.move dst src) s' := by
  unfold Vm.sysMove at h
  split at h
  · rename_i hva
    rw [bind_eq_ok] at h
    obtain ⟨s₁, h₁, h₂⟩ := h
    cases h₂
    exact .exit hva h₁
  · rename_i hva
    exact .calm (by simpa [Op.kills] using hva) (.vmmove h)

/-- An operation that returns, with `N` true of the page that `SYS_MAP` takes. -/
theorem exec_did {op : Op} (hd : op.driven = false)
    (hn : ∀ va perm root pg, op = .map va perm root pg → op.kills = false →
      (∃ prot, mapCall perm root = .vmmap prot ∨ mapCall perm root = .vmmap32 prot) →
      l1eExternal (s.l1 cur (vpn va)) = false → N pg.pfn 0)
    (h : exec s cur op = .ok s') : Did M N s cur op s' := by
  cases op with
  | map va perm root pg =>
      simp only [Vm.exec, bind_eq_ok] at h
      obtain ⟨⟨r, s₁⟩, h₁, h₂⟩ := h
      cases h₂
      exact .sysMap (hn va perm root pg rfl) h₁
  | move dst src =>
      simp only [Vm.exec, bind_eq_ok] at h
      obtain ⟨⟨r, s₁⟩, h₁, h₂⟩ := h
      cases h₂
      exact .sysMove h₁
  | iomap va mmiopfn => cases hd
  | iounmap va => cases hd
  | wire va => cases hd
  | unwire va => cases hd
  | fork stale pick => exact .fork h
  | fault va err =>
      simp only [Vm.exec, bind_eq_ok] at h
      obtain ⟨⟨r, s₁⟩, h₁, h₂⟩ := h
      cases h₂
      exact .calm rfl (.fault h₁)
  | exit => exact .exit rfl h
  | thfree th =>
      simp only [Vm.exec] at h
      cases h
      split
      · exact .thfree ‹_›
      · exact .calm rfl (.refl s)

end Mh.Vm
