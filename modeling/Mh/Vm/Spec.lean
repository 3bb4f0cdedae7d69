import Mh.Vm.Kern

/-!
# What each operation can do

One inversion lemma for each function of `pfndb.c`, `pmap.c` and `kern.c` in the
model: a call that returns without a panic passed the assertions on its way, and
ends in a state written out in terms of `setL1e`, `setDb` and `setFlush`.  The
invariants are derived from these lemmas, never from the definitions.
-/

namespace Mh.Vm

open Mh.Lib

variable {s s' : Sys} {pm va pfn : Nat}

/-! ## The page database -/

/-- The database entry with its reference count raised. -/
def Sys.incref (s : Sys) (pfn : Nat) : Sys :=
  s.setDb pfn { s.db pfn with ref := incCount (s.db pfn).ref }

/-- The database entry with its reference count lowered. -/
def Sys.decref (s : Sys) (pfn : Nat) : Sys :=
  s.setDb pfn { s.db pfn with ref := decCount (s.db pfn).ref }

/-- Two database entries that differ in the reference count only. -/
structure Ipfn.SameUpToRef (x y : Ipfn) : Prop where
  type : y.type = x.type
  wir : y.wir = x.wir

protected theorem Ipfn.SameUpToRef.refl (x : Ipfn) : x.SameUpToRef x := ⟨rfl, rfl⟩

protected theorem Ipfn.SameUpToRef.trans {x y z : Ipfn} (h : x.SameUpToRef y)
    (h' : y.SameUpToRef z) : x.SameUpToRef z :=
  ⟨h'.type.trans h.type, h'.wir.trans h.wir⟩

theorem Sys.setDb_ref_db (s : Sys) (pfn ref q : Nat) :
    (s.db q).SameUpToRef ((s.setDb pfn { s.db pfn with ref := ref }).db q) := by
  by_cases hq : q = pfn
  · subst hq
    rw [setDb_db_self]
    exact ⟨rfl, rfl⟩
  · rw [s.setDb_db_of_ne hq]
    exact .refl _

theorem Sys.incref_db (s : Sys) (pfn q : Nat) : (s.db q).SameUpToRef ((s.incref pfn).db q) :=
  s.setDb_ref_db pfn _ q

theorem Sys.decref_db (s : Sys) (pfn q : Nat) : (s.db q).SameUpToRef ((s.decref pfn).db q) :=
  s.setDb_ref_db pfn _ q

/-- The database entry of a page handed out for a user mapping. -/
def Sys.alloc (s : Sys) (pfn wir : Nat) : Sys := s.setDb pfn ⟨.user, 0, wir⟩

/-- The database entry of a page given back. -/
def Sys.free (s : Sys) (pfn : Nat) : Sys := s.setDb pfn { s.db pfn with type := .free }

theorem pfndbType_ok {t : PfnType} (h : pfndbType s pfn = .ok t) :
    pfn ≤ s.pfndbMax ∧ t = (s.db pfn).type := by
  simp only [pfndbType, bind_eq_ok, kassert_eq_ok, decide_eq_true_eq] at h
  obtain ⟨_, hle, ht⟩ := h
  cases ht
  exact ⟨hle, rfl⟩

theorem pfndbUser_ok {e : Ipfn} (h : pfndbUser s pfn = .ok e) :
    pfn ≤ s.pfndbMax ∧ (s.db pfn).type = .user ∧ e = s.db pfn := by
  simp only [pfndbUser, bind_eq_ok, kassert_eq_ok, decide_eq_true_eq, beq_iff_eq] at h
  obtain ⟨_, hle, _, hu, he⟩ := h
  cases he
  exact ⟨hle, hu, rfl⟩

theorem pfndbIncref_ok (h : pfndbIncref s pfn = .ok s') :
    (s.db pfn).type = .user ∧ s' = s.incref pfn := by
  simp only [pfndbIncref, bind_eq_ok] at h
  obtain ⟨e, he, hs⟩ := h
  obtain ⟨_, hu, rfl⟩ := pfndbUser_ok he
  cases hs
  exact ⟨hu, rfl⟩

theorem pfndbDecref_ok {ref : Nat} (h : pfndbDecref s pfn = .ok (ref, s')) :
    (s.db pfn).type = .user ∧ s' = s.decref pfn ∧ ref = (s'.db pfn).ref := by
  simp only [pfndbDecref, bind_eq_ok] at h
  obtain ⟨e, he, hs⟩ := h
  obtain ⟨_, hu, rfl⟩ := pfndbUser_ok he
  obtain ⟨hr, rfl⟩ := Prod.mk.inj (Except.ok.inj hs)
  refine ⟨hu, rfl, ?_⟩
  rw [Sys.setDb_db_self, ← hr]

theorem pfndbGetref_ok {ref : Nat} (h : pfndbGetref s pfn = .ok ref) :
    (s.db pfn).type = .user ∧ ref = (s.db pfn).ref := by
  simp only [pfndbGetref, bind_eq_ok] at h
  obtain ⟨e, he, hs⟩ := h
  obtain ⟨_, hu, rfl⟩ := pfndbUser_ok he
  cases hs
  exact ⟨hu, rfl⟩

theorem pfndbIncwir_ok (h : pfndbIncwir s pfn = .ok s') :
    (s.db pfn).type = .user ∧ ∃ wir, s' = s.setDb pfn { s.db pfn with wir := wir } := by
  simp only [pfndbIncwir, bind_eq_ok] at h
  obtain ⟨e, he, hs⟩ := h
  obtain ⟨_, hu, rfl⟩ := pfndbUser_ok he
  cases hs
  exact ⟨hu, _, rfl⟩

theorem pfndbDecwir_ok {wir : Nat} (h : pfndbDecwir s pfn = .ok (wir, s')) :
    (s.db pfn).type = .user ∧ s' = s.setDb pfn { s.db pfn with wir := wir } := by
  simp only [pfndbDecwir, bind_eq_ok] at h
  obtain ⟨e, he, hs⟩ := h
  obtain ⟨_, hu, rfl⟩ := pfndbUser_ok he
  obtain ⟨hw, rfl⟩ := Prod.mk.inj (Except.ok.inj hs)
  rw [hw]
  exact ⟨hu, rfl⟩

/-- A page that `pgalloc` can hand out. -/
def Sys.Free (s : Sys) (pfn : Nat) : Prop :=
  pfn ≠ 0 ∧ pfn < s.pfndbMax ∧ (s.db pfn).type.isPgzfree

theorem Sys.Free.type_ne {s : Sys} {pfn : Nat} (h : s.Free pfn) : (s.db pfn).type ≠ .user := by
  intro hu
  have := h.2.2
  rw [hu] at this
  cases this

theorem Sys.Free.type_ne_mmio {s : Sys} {pfn : Nat} (h : s.Free pfn) :
    (s.db pfn).type ≠ .mmio := by
  intro hu
  have := h.2.2
  rw [hu] at this
  cases this

theorem pgalloc_ok {pg : Page} (h : pgalloc s pg = .ok s') :
    s.Free pg.pfn ∧ s' = s.setDb pg.pfn ⟨.user, pg.ref, pg.wir⟩ := by
  simp only [pgalloc, bind_eq_ok, kassert_eq_ok, Bool.and_eq_true, bne_iff_ne,
    decide_eq_true_eq] at h
  obtain ⟨_, ⟨⟨h0, hlt⟩, hf⟩, hs⟩ := h
  cases hs
  exact ⟨⟨h0, hlt, hf⟩, rfl⟩

theorem Sys.setDb_setDb (s : Sys) (pfn : Nat) (e e' : Ipfn) :
    (s.setDb pfn e).setDb pfn e' = s.setDb pfn e' := by
  simp [setDb]

/-- `pgalloc` followed by `pfndb_clrref`. -/
theorem pgalloc_clrref_ok {pg : Page} {s₁ : Sys} (h : pgalloc s pg = .ok s₁)
    (h' : pfndbClrref s₁ pg.pfn = .ok s') : s.Free pg.pfn ∧ s' = s.alloc pg.pfn pg.wir := by
  obtain ⟨hf, rfl⟩ := pgalloc_ok h
  simp only [pfndbClrref, bind_eq_ok] at h'
  obtain ⟨e, he, hs⟩ := h'
  obtain ⟨_, _, rfl⟩ := pfndbUser_ok he
  cases hs
  refine ⟨hf, ?_⟩
  simp [Sys.alloc, Sys.setDb_setDb]

theorem allocuser_ok {pg : Page} (h : allocuser s pg = .ok s') :
    s.Free pg.pfn ∧ s' = s.alloc pg.pfn 0 := by
  simp only [allocuser, bind_eq_ok] at h
  obtain ⟨s₁, h₁, s₂, h₂, h₃⟩ := h
  obtain ⟨hf, rfl⟩ := pgalloc_clrref_ok h₁ h₂
  simp only [pfndbClrwir, bind_eq_ok] at h₃
  obtain ⟨e, he, hs⟩ := h₃
  obtain ⟨_, _, rfl⟩ := pfndbUser_ok he
  cases hs
  refine ⟨hf, ?_⟩
  simp [Sys.alloc, Sys.setDb_setDb]

theorem pgfree_ok (h : pgfree s pfn = .ok s') : s' = s.free pfn := by
  simp only [pgfree, bind_eq_ok] at h
  obtain ⟨_, _, hs⟩ := h
  cases hs
  rfl

/-- The state after `freeOld`. -/
def Sys.freed (s : Sys) : Option Nat → Sys
  | none => s
  | some q => s.free q

theorem freeOld_ok {opfn : Option Nat} {ret : Int} (h : freeOld s opfn = .ok (ret, s')) :
    s' = s.freed opfn ∧ 0 ≤ ret := by
  cases opfn with
  | none =>
      cases h
      exact ⟨rfl, le_rfl⟩
  | some q =>
      simp only [freeOld, bind_eq_ok] at h
      obtain ⟨s₁, h₁, h₂⟩ := h
      cases h₂
      exact ⟨pgfree_ok h₁, Int.one_nonneg⟩

@[simp] theorem Sys.setFlush_freed (s : Sys) (pid : Nat) (f : Tlbf) (opfn : Option Nat) :
    (s.setFlush pid f).freed opfn = (s.freed opfn).setFlush pid f := by
  cases opfn <;> rfl

@[simp] theorem Sys.l1_freed (s : Sys) (opfn : Option Nat) (pid v : Nat) :
    (s.freed opfn).l1 pid v = s.l1 pid v := by
  cases opfn <;> rfl

@[simp] theorem Sys.freed_mem (s : Sys) (opfn : Option Nat) : (s.freed opfn).mem = s.mem := by
  cases opfn <;> rfl

/-! ## Page tables -/

theorem dropL1e_ok {o : L1e} {opfn : Option Nat} (h : dropL1e s o = .ok (opfn, s')) :
    (l1eNormal o = false ∧ opfn = none ∧ s' = s) ∨
    (l1eNormal o ∧ (s.db o.pfn).type = .user ∧ s' = s.decref o.pfn ∧
      opfn = if (s'.db o.pfn).ref = 0 then some o.pfn else none) := by
  unfold dropL1e at h
  split at h
  · rename_i hn
    rw [bind_eq_ok] at h
    obtain ⟨⟨ref, s₁⟩, h₁, h₂⟩ := h
    obtain ⟨hu, rfl, rfl⟩ := pfndbDecref_ok h₁
    cases h₂
    exact .inr ⟨hn, hu, rfl, rfl⟩
  · rename_i hn
    cases h
    exact .inl ⟨by simpa using hn, rfl, rfl⟩

/-- Giving up an entry leaves the tables alone. -/
theorem dropL1e_l1 {o : L1e} {opfn : Option Nat} (h : dropL1e s o = .ok (opfn, s')) :
    s'.l1 = s.l1 := by
  rcases dropL1e_ok h with ⟨_, _, rfl⟩ | ⟨_, _, rfl, _⟩ <;> rfl

/-- Giving up an entry leaves the contents of pages alone. -/
theorem dropL1e_mem {o : L1e} {opfn : Option Nat} (h : dropL1e s o = .ok (opfn, s')) :
    s'.mem = s.mem := by
  rcases dropL1e_ok h with ⟨_, _, rfl⟩ | ⟨_, _, rfl, _⟩ <;> rfl

/-- Giving up an entry changes counts only. -/
theorem dropL1e_db {o : L1e} {opfn : Option Nat} (h : dropL1e s o = .ok (opfn, s')) (q : Nat) :
    (s.db q).SameUpToRef (s'.db q) := by
  rcases dropL1e_ok h with ⟨_, _, rfl⟩ | ⟨_, _, rfl, _⟩
  · exact .refl _
  · exact s.decref_db o.pfn q

/-- The table after an entry was written with its flush recorded. -/
def Sys.put (s : Sys) (pm v : Nat) (n : L1e) : Sys :=
  (s.setFlush pm (tlbflushp (s.l1 pm v) n)).setL1e pm v n

theorem protCheck_ok {prot : Prot} {type : PfnType} {e : Panic} {x : Unit}
    (h : protCheck s pfn prot type e = .ok x) (hp : prot.p) :
    prot.u ∧ (s.db pfn).type = type := by
  simp only [protCheck, hp, if_true, bind_eq_ok, kassert_eq_ok, beq_iff_eq] at h
  obtain ⟨_, hu, t, ht, rfl⟩ := h
  exact ⟨hu, (pfndbType_ok ht).2.symm⟩

/-- Taking the reference of a new entry. -/
def Sys.take (s : Sys) (n : L1e) : Sys := if n.p then s.incref n.pfn else s

theorem takeL1e_ok {n : L1e} (h : takeL1e s n = .ok s') : s' = s.take n := by
  unfold takeL1e at h
  unfold Sys.take
  split at h
  · rename_i hp
    rw [if_pos hp]
    exact (pfndbIncref_ok h).2
  · rename_i hp
    cases h
    rw [if_neg hp]

@[simp] theorem Sys.l1_take (s : Sys) (n : L1e) (pid v : Nat) :
    (s.take n).l1 pid v = s.l1 pid v := by
  unfold take; split <;> rfl

@[simp] theorem Sys.take_mem (s : Sys) (n : L1e) : (s.take n).mem = s.mem := by
  unfold take; split <;> rfl

theorem Sys.take_db (s : Sys) (n : L1e) (q : Nat) : (s.db q).SameUpToRef ((s.take n).db q) := by
  unfold take
  split
  · exact s.incref_db n.pfn q
  · exact .refl _

/-- What `pmap_uenter` can do: refuse an external entry, or replace the entry,
taking a reference for the new page before it gives up the old one. -/
theorem pmapUenter_ok {prot : Prot} {ret : Int} {opfn : Option Nat}
    (h : pmapUenter s pm va pfn prot = .ok (ret, opfn, s')) :
    isuaddr va ∧ (prot.p → prot.u ∧ (s.db pfn).type = .user) ∧
    ((l1eExternal (s.l1 pm (vpn va)) ∧ ret = Errno.EBUSY.neg ∧ opfn = none ∧ s' = s) ∨
     (l1eExternal (s.l1 pm (vpn va)) = false ∧ ret = 0 ∧
      dropL1e ((s.take (mkl1e pfn prot)).put pm (vpn va) (mkl1e pfn prot))
        (s.l1 pm (vpn va)) = .ok (opfn, s'))) := by
  simp only [pmapUenter, bind_eq_ok, kassert_eq_ok] at h
  obtain ⟨_, hva, _, hprot, h⟩ := h
  refine ⟨hva, protCheck_ok hprot, ?_⟩
  split at h
  · rename_i hx
    cases h
    exact .inl ⟨hx, rfl, rfl, rfl⟩
  · rename_i hx
    simp only [bind_eq_ok] at h
    obtain ⟨s₁, h₁, ⟨o, s₂⟩, h₂, h₃⟩ := h
    cases takeL1e_ok h₁
    cases h₃
    refine .inr ⟨by simpa using hx, rfl, ?_⟩
    rw [Sys.put, Sys.l1_take]
    exact h₂

/-- What `pmap_uiomap` can do. -/
theorem pmapUiomap_ok {prot : Prot} {ret : Int} {opfn : Option Nat}
    (h : pmapUiomap s pm va pfn prot = .ok (ret, opfn, s')) :
    isuaddr va ∧
    ((ret = Errno.EBUSY.neg ∧ opfn = none ∧ s' = s) ∨
     (l1eExternal (s.l1 pm (vpn va)) = false ∧ ret = 0 ∧
      dropL1e (s.put pm (vpn va) (l1eMkiomap (mkl1e pfn prot))) (s.l1 pm (vpn va)) =
        .ok (opfn, s'))) := by
  simp only [pmapUiomap, bind_eq_ok, kassert_eq_ok] at h
  obtain ⟨_, hva, _, _, h⟩ := h
  refine ⟨hva, ?_⟩
  split at h
  · cases h
    exact .inl ⟨rfl, rfl, rfl⟩
  · rename_i hx
    rw [bind_eq_ok] at h
    obtain ⟨⟨o, s₂⟩, h₂, h₃⟩ := h
    cases h₃
    exact .inr ⟨by simpa using hx, rfl, h₂⟩

/-- What `pmap_uiounmap` can do. -/
theorem pmapUiounmap_ok {ret : Int} (h : pmapUiounmap s pm va = .ok (ret, s')) :
    isuaddr va ∧ (s' = s ∨
      (l1eIomap (s.l1 pm (vpn va)) ∧ s' = s.put pm (vpn va) invalidL1e)) := by
  simp only [pmapUiounmap, bind_eq_ok, kassert_eq_ok] at h
  obtain ⟨_, hva, h⟩ := h
  refine ⟨hva, ?_⟩
  split at h
  · cases h
    exact .inl rfl
  · rename_i hx
    cases h
    exact .inr ⟨by simpa using hx, rfl⟩

/-- The two table writes of `pmap_uchaddr`. -/
def Sys.moved (s : Sys) (pm va newva : Nat) : Sys :=
  let n := s.l1 pm (vpn va)
  ((s.setL1e pm (vpn va) (mkl1e pfnInvalid .none)).setL1e pm (vpn newva) n).setFlush pm
    (((s.pmap pm).tlbflush.or (tlbflushp (s.l1 pm (vpn newva)) n)).or (tlbflushp n invalidL1e))

/-- What `pmap_uchaddr` can do. -/
theorem pmapUchaddr_ok {newva : Nat} {ret : Int} {opfn : Option Nat}
    (h : pmapUchaddr s pm va newva = .ok (ret, opfn, s')) :
    isuaddr va ∧ isuaddr newva ∧
    (((l1eExternal (s.l1 pm (vpn va)) ∨ l1eExternal (s.l1 pm (vpn newva))) ∧
        ret = Errno.EBUSY.neg ∧ opfn = none ∧ s' = s) ∨
     (l1eExternal (s.l1 pm (vpn va)) = false ∧ l1eExternal (s.l1 pm (vpn newva)) = false ∧
      ret = 0 ∧ dropL1e (s.moved pm va newva) (s.l1 pm (vpn newva)) = .ok (opfn, s'))) := by
  simp only [pmapUchaddr, bind_eq_ok, kassert_eq_ok] at h
  obtain ⟨_, hva, _, hnva, h⟩ := h
  refine ⟨hva, hnva, ?_⟩
  split at h
  · rename_i hx
    cases h
    exact .inl ⟨.inl hx, rfl, rfl, rfl⟩
  · rename_i hx
    split at h
    · rename_i hx'
      cases h
      exact .inl ⟨.inr hx', rfl, rfl, rfl⟩
    · rename_i hx'
      rw [bind_eq_ok] at h
      obtain ⟨⟨o, s₂⟩, h₂, h₃⟩ := h
      cases h₃
      exact .inr ⟨by simpa using hx, by simpa using hx', rfl, h₂⟩

/-- What `pmap_uchprot` can do: only a normal entry is changed. -/
theorem pmapUchprot_ok {prot : Prot} {ret : Int} (h : pmapUchprot s pm va prot = .ok (ret, s')) :
    isuaddr va ∧ prot.p ∧ prot.u ∧ (s' = s ∨ (l1eNormal (s.l1 pm (vpn va)) ∧
      s' = s.put pm (vpn va) (mkl1e (s.l1 pm (vpn va)).pfn prot))) := by
  simp only [pmapUchprot, bind_eq_ok, kassert_eq_ok] at h
  obtain ⟨_, hp, _, hu, _, hva, h⟩ := h
  refine ⟨hva, hp, hu, ?_⟩
  split at h
  · cases h; exact .inl rfl
  split at h
  · cases h; exact .inl rfl
  split at h
  · cases h; exact .inl rfl
  simp only [bind_eq_ok, kassert_eq_ok] at h
  obtain ⟨_, hn, h⟩ := h
  cases h
  exact .inr ⟨hn, rfl⟩

/-- What `pmap_uwire` can do: the marker of a copy-on-write entry is lost. -/
theorem pmapUwire_ok {ret : Int} (h : pmapUwire s pm va = .ok (ret, s')) :
    isuaddr va ∧ (s' = s ∨ ∃ wir,
      l1eIomap (s.l1 pm (vpn va)) = false ∧ (s.db (s.l1 pm (vpn va)).pfn).type = .user ∧
      s' = (s.setDb (s.l1 pm (vpn va)).pfn { s.db (s.l1 pm (vpn va)).pfn with wir := wir }).put pm
        (vpn va) (l1eMkwired (s.l1 pm (vpn va)))) := by
  simp only [pmapUwire, bind_eq_ok, kassert_eq_ok] at h
  obtain ⟨_, hva, h⟩ := h
  refine ⟨hva, ?_⟩
  split at h
  · cases h; exact .inl rfl
  · rename_i hx
    rw [bind_eq_ok] at h
    obtain ⟨s₁, h₁, h₂⟩ := h
    obtain ⟨hu, wir, rfl⟩ := pfndbIncwir_ok h₁
    cases h₂
    exact .inr ⟨wir, by simpa using hx, hu, rfl⟩

/-- What `pmap_uunwire` can do. -/
theorem pmapUunwire_ok {ret : Int} (h : pmapUunwire s pm va = .ok (ret, s')) :
    isuaddr va ∧ (s' = s ∨ ∃ wir, l1eWired (s.l1 pm (vpn va)) ∧
      (s.db (s.l1 pm (vpn va)).pfn).type = .user ∧
      let s₁ := s.setDb (s.l1 pm (vpn va)).pfn { s.db (s.l1 pm (vpn va)).pfn with wir := wir }
      (s' = s₁ ∨ s' = s₁.put pm (vpn va) (l1eMknormal (s.l1 pm (vpn va))))) := by
  simp only [pmapUunwire, bind_eq_ok, kassert_eq_ok] at h
  obtain ⟨_, hva, h⟩ := h
  refine ⟨hva, ?_⟩
  split at h
  · cases h; exact .inl rfl
  · rename_i hx
    rw [bind_eq_ok] at h
    obtain ⟨⟨wir, s₁⟩, h₁, h₂⟩ := h
    obtain ⟨hu, rfl⟩ := pfndbDecwir_ok h₁
    refine .inr ⟨wir, by simpa using hx, hu, ?_⟩
    simp only at h₂
    split at h₂ <;> cases h₂
    · exact .inr rfl
    · exact .inl rfl

/-- What `_pmap_fault` can do: nothing, or make the last copy-on-write entry of a
page normal. -/
theorem pmapFault_ok {err : Pferr} {x : Option Xcpterr} (h : pmapFault s pm va err = .ok (x, s')) :
    (s' = s ∧ ∃ l1e, (l1e = if isuaddr va then s.l1 pm (vpn va) else .zero) ∧
        x = some ⟨err.p, l1eCow l1e, err.w⟩) ∨
    (isuaddr va ∧ x = none ∧ l1eCow (s.l1 pm (vpn va)) ∧
      (s.db (s.l1 pm (vpn va)).pfn).type = .user ∧ (s.db (s.l1 pm (vpn va)).pfn).ref = 1 ∧
      s' = s.setL1e pm (vpn va) (l1eMknormal (s.l1 pm (vpn va)))) := by
  simp only [pmapFault, bind_eq_ok] at h
  obtain ⟨last, hlast, h⟩ := h
  split at h
  · rename_i hl
    subst hl
    cases h
    have hua : isuaddr va := by
      by_contra hua
      simp only [hua, lastCow, l1eCow, L1e.zero] at hlast
      cases hlast
    rw [if_pos hua] at hlast
    refine .inr ⟨hua, rfl, ?_⟩
    rw [if_pos hua]
    unfold lastCow at hlast
    split at hlast
    · rename_i hc
      rw [bind_eq_ok] at hlast
      obtain ⟨ref, hr, h1⟩ := hlast
      obtain ⟨hu, rfl⟩ := pfndbGetref_ok hr
      injection h1 with h1
      exact ⟨hc, hu, by simpa using h1, rfl⟩
    · cases hlast
  · rw [bind_eq_ok] at h
    obtain ⟨_, _, h⟩ := h
    cases h
    exact .inl ⟨rfl, _, rfl, rfl⟩

/-- One iteration of the copy-on-write loop: an entry that is not present is
copied, an external one is left out, and any other page is shared by both
tables. -/
theorem pmapCopyCow_ok {new v : Nat} (h : pmapCopyCow pm new s v = .ok s') :
    ((s.l1 pm v).p = false ∧ s' = s.setL1e new v (s.l1 pm v)) ∨
    ((s.l1 pm v).p ∧ l1eExternal (s.l1 pm v) ∧ s' = s.setL1e new v .zero) ∨
    (∃ fl, (s.l1 pm v).p ∧ l1eExternal (s.l1 pm v) = false ∧
      (s.db (s.l1 pm v).pfn).type = .user ∧
      s' = (((s.incref (s.l1 pm v).pfn).setL1e pm v (l1eMkcow (s.l1 pm v))).setL1e new v
        (l1eMkcow (s.l1 pm v))).setFlush pm fl) := by
  simp only [pmapCopyCow] at h
  split at h
  · rename_i hp
    cases h
    exact .inl ⟨by simpa using hp, rfl⟩
  · rename_i hp
    split at h
    · rename_i hx
      cases h
      exact .inr (.inl ⟨by simpa using hp, hx, rfl⟩)
    · rename_i hx
      simp only [bind_eq_ok, kassert_eq_ok] at h
      obtain ⟨_, _, s₁, h₁, h₂⟩ := h
      obtain ⟨ht, rfl⟩ := pfndbIncref_ok h₁
      cases h₂
      exact .inr (.inr ⟨_, by simpa using hp, by simpa using hx, ht, rfl⟩)

/-! ## System calls -/

theorem kernelFill_ok {cur : Nat} {c : Nat → UInt8} (h : kernelFill s cur va c = .ok s') :
    (s.l1 cur (vpn va)).p ∧ (s.l1 cur (vpn va)).w ∧ s' = s.setMem (s.l1 cur (vpn va)).pfn c := by
  simp only [kernelFill, bind_eq_ok, kassert_eq_ok, Bool.and_eq_true] at h
  obtain ⟨_, ⟨hp, hw⟩, h⟩ := h
  cases h
  exact ⟨hp, hw, rfl⟩

theorem pmapCommit_snd (s : Sys) (cur : Nat) : (pmapCommit s cur).2 = s.setFlush cur .null := rfl

/-- The end that `iomap`, `vmunmap` and `vmmove` share: commit, and free the page
that was given up unless the call failed. -/
theorem finish_ok {cur : Nat} {r ret : Int} {opfn : Option Nat}
    (h : (if r < 0 then (pure (r, (pmapCommit s cur).2) : Except Panic (Int × Sys))
      else freeOld (pmapCommit s cur).2 opfn) = .ok (ret, s')) (hr : r < 0 → opfn = none) :
    s' = (s.freed opfn).setFlush cur .null := by
  split at h
  · rename_i hneg
    cases h
    rw [hr hneg]
    rfl
  · rw [(freeOld_ok h).1]
    exact s.setFlush_freed cur .null opfn

theorem exit_ok {cur : Nat} (h : exit s cur = .ok s') :
    cur ≠ s.init ∧ ∃ t, vmclear s cur userBase (userEnd - userBase) = .ok t ∧
      s' = { t with zombie := insert cur t.zombie } := by
  simp only [exit, bind_eq_ok, kassert_eq_ok, bne_iff_ne] at h
  obtain ⟨_, hne, t, ht, h⟩ := h
  cases h
  exact ⟨hne, t, ht, rfl⟩

/-- `sys_map` only asks for new pages that are present. -/
theorem mapCall_present {perm : Nat} {root : Bool} {prot : Prot}
    (h : mapCall perm root = .vmmap prot ∨ mapCall perm root = .vmmap32 prot) : prot.p := by
  unfold mapCall at h
  split at h
  · simp at h
  · split at h
    · rename_i hp
      simp only [MapCall.vmmap.injEq, reduceCtorEq, or_false] at h
      rw [Bool.and_eq_true] at hp
      exact h ▸ hp.1
    · split at h
      · rename_i hp
        rw [Bool.and_eq_true] at hp
        split at h
        · simp only [MapCall.vmmap32.injEq, reduceCtorEq, false_or] at h
          exact h ▸ hp.1
        · simp at h
      · split at h <;> simp at h

/-- Entering a user page where nothing is mapped succeeds. -/
theorem pmapUenter_fresh {prot : Prot} (hva : isuaddr va) (hle : pfn ≤ s.pfndbMax)
    (hty : (s.db pfn).type = .user) (hp : prot.p) (hu : prot.u)
    (habs : (s.l1 pm (vpn va)).p = false) :
    pmapUenter s pm va pfn prot =
      .ok (0, none, (s.incref pfn).put pm (vpn va) (mkl1e pfn prot)) := by
  have hx : l1eExternal (s.l1 pm (vpn va)) = false := by
    simp [l1eExternal, l1eWired, l1eIomap, habs]
  have hn : l1eNormal (s.l1 pm (vpn va)) = false := by simp [l1eNormal, habs]
  simp [pmapUenter, kassert, hva, protCheck, hp, hu, pfndbType, hle, hty, hx, takeL1e, mkl1e,
    l1eMknormal, pfndbIncref, pfndbUser, dropL1e, hn, bind, pure, Except.bind, Except.pure,
    Sys.put, Sys.incref]

/-- Mapping a new writable page where nothing is mapped succeeds. -/
theorem vmmap_fresh {cur : Nat} {prot : Prot} {pg : Page} (hva : isuaddr va) (hf : s.Free pg.pfn)
    (hp : prot.p) (hw : prot.w) (hu : prot.u) (habs : (s.l1 cur (vpn va)).p = false) :
    vmmap s cur va prot pg =
      .ok (0, ((((s.alloc pg.pfn 0).incref pg.pfn).put cur (vpn va) (mkl1e pg.pfn prot)).setFlush
        cur .null).setMem pg.pfn fun _ ↦ 0) := by
  obtain ⟨h0, hlt, hfree⟩ := hf
  have halloc : allocuser s pg = .ok (s.alloc pg.pfn 0) := by
    simp [allocuser, pgalloc, pfndbClrref, pfndbClrwir, pfndbUser, kassert, h0, hlt, hlt.le, hfree,
      Sys.alloc, Sys.setDb_setDb, bind, pure, Except.bind, Except.pure]
  have henter : pmapUenter (s.alloc pg.pfn 0) cur va pg.pfn prot =
      .ok (0, none, ((s.alloc pg.pfn 0).incref pg.pfn).put cur (vpn va) (mkl1e pg.pfn prot)) :=
    pmapUenter_fresh hva (by simpa [Sys.alloc] using hlt.le) (by simp [Sys.alloc]) hp hu habs
  have hfill : ∀ c, kernelFill ((((s.alloc pg.pfn 0).incref pg.pfn).put cur (vpn va)
      (mkl1e pg.pfn prot)).setFlush cur .null) cur va c =
      .ok (((((s.alloc pg.pfn 0).incref pg.pfn).put cur (vpn va)
        (mkl1e pg.pfn prot)).setFlush cur .null).setMem pg.pfn c) := fun c ↦ by
    simp [kernelFill, kassert, Sys.put, mkl1e, hp, hw, bind, pure, Except.bind, Except.pure]
  simp [vmmap, vmmap32, halloc, henter, freeOld, pmapCommit_snd, hfill, bind, pure, Except.bind,
    Except.pure]

end Mh.Vm
