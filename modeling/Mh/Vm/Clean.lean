import Mh.Lib.Outcome
import Mh.Vm.Move

/-!
# New pages

What `SYS_MAP` promises with `MAP_NEW` and `MAP_NEW32`, and when it keeps the promise.  `vmmap`
clears the page through the mapping that it has just installed, so that the mapping has to be
writable; `vmmap32` does not clear the page at all.
-/

namespace Mh.Vm

open Mh.Lib

/-- The flag word asks for a new page, with one of the four permissions. -/
def AsksNew (perm : Nat) : Prop :=
  (∃ prot, protOfPerm (perm - (perm &&& (mapNew + mapNew32))) = some prot ∧ prot.p) ∧
    perm &&& (mapNew + mapNew32) ≠ 0

/-- The page was free, is now a user page mapped at `va`, and reads as zero. -/
structure NewPage (s : Sys) (cur va pfn : Nat) (s' : Sys) : Prop where
  fresh : s.Free pfn
  allocated : (s'.db pfn).type = .user
  mapped : (s'.l1 cur (vpn va)).maps pfn
  clean : ∀ i < pageSize, s'.mem pfn i = 0

/-- What the caller may rely on: the write that clears the page does not fault, a call that succeeds
maps a clean page, and one that fails changes no entry and gives its page back. -/
def NewPageOk (s : Sys) (cur va perm : Nat) (root : Bool) (pg : Page) : Prop :=
  sysMap s cur va perm root pg ≠ .error .kernelFault ∧
    ∀ ret s', sysMap s cur va perm root pg = .ok (ret, s') →
      (0 ≤ ret → NewPage s cur va pg.pfn s') ∧
      (ret < 0 → s'.l1 = s.l1 ∧ ∀ q, s.Free q → s'.Free q)

/-- The reference of the entry can be given up. -/
structure Droppable (s : Sys) (e : L1e) : Prop where
  range : e.pfn ≤ s.pfndbMax
  user : (s.db e.pfn).type = .user
  last : decCount (s.db e.pfn).ref = 0 → e.pfn ≠ 0

/-- The new page takes the place of the old entry: there is a free page, the entry is not external,
and if it is normal its reference can be given up. -/
structure Replaces (s : Sys) (cur va pfn : Nat) : Prop where
  free : s.Free pfn
  notExternal : l1eExternal (s.l1 cur (vpn va)) = false
  drop : l1eNormal (s.l1 cur (vpn va)) → (s.l1 cur (vpn va)).pfn ≠ pfn →
    Droppable s (s.l1 cur (vpn va))

/-- The old entry holds the reference of the page that was handed out as free. -/
def Dangling (s : Sys) (cur va pfn : Nat) : Prop :=
  l1eNormal (s.l1 cur (vpn va)) ∧ (s.l1 cur (vpn va)).pfn = pfn

/-- When the promise is kept.  A page that takes the place of the old entry is mapped writable by
`vmmap`, and holds zeroes already for `vmmap32`. -/
def NewPageSafe (s : Sys) (cur va perm : Nat) (root : Bool) (pg : Page) : Prop :=
  match mapCall perm root with
  | .vmmap prot => Replaces s cur va pg.pfn → ¬Dangling s cur va pg.pfn ∧ prot.w
  | .vmmap32 _ =>
      Replaces s cur va pg.pfn → ¬Dangling s cur va pg.pfn ∧ ∀ i < pageSize, s.mem pg.pfn i = 0
  | _ => True

variable {s s' : Sys} {cur va perm pfn : Nat} {root : Bool} {prot : Prot} {pg : Page}

/-! ## The call -/

/-- A flag word that asks for a new page leads to one of the two functions, or is refused. -/
theorem AsksNew.cases (h : AsksNew perm) (root : Bool) :
    (∃ prot, mapCall perm root = .vmmap prot ∧ prot.p ∧ prot.u) ∨
    (∃ prot, mapCall perm root = .vmmap32 prot ∧ prot.p ∧ prot.u) ∨
    mapCall perm root = .fail .EPERM := by
  obtain ⟨⟨prot, hprot, hp⟩, hnew⟩ := h
  have hu : prot.u := by
    unfold protOfPerm at hprot
    split at hprot
    · cases hprot
      cases hp
    all_goals cases hprot
    all_goals rfl
  simp only [mapCall, hprot, hp, Bool.true_and, bne_iff_ne]
  by_cases hn : perm &&& mapNew = 0
  · have hn32 : perm &&& mapNew32 ≠ 0 := by
      intro h32
      refine hnew ?_
      have hor : mapNew + mapNew32 = mapNew ||| mapNew32 := by decide
      rw [hor, Nat.and_or_distrib_left, hn, h32]
      rfl
    rw [if_neg (not_not.2 hn), if_pos hn32]
    cases root with
    | true => exact .inr (.inl ⟨prot, rfl, hp, hu⟩)
    | false => exact .inr (.inr rfl)
  · rw [if_pos hn]
    exact .inl ⟨prot, rfl, hp, hu⟩

/-- The page has its first reference, and the new entry is written. -/
def Sys.install (s : Sys) (cur va pfn : Nat) (prot : Prot) : Sys :=
  ((s.alloc pfn 0).incref pfn).put cur (vpn va) (mkl1e pfn prot)

theorem allocuser_eq (hf : s.Free pg.pfn) : allocuser s pg = .ok (s.alloc pg.pfn 0) := by
  obtain ⟨h0, hlt, hfree⟩ := hf
  simp [allocuser, pgalloc, pfndbClrref, pfndbClrwir, pfndbUser, kassert, h0, hlt, hlt.le, hfree,
    Sys.alloc, Sys.setDb_setDb, bind, pure, Except.bind, Except.pure]

/-- No page is free. -/
theorem allocuser_oom (hf : ¬s.Free pg.pfn) : allocuser s pg = .error .oom := by
  have hb : (pg.pfn != 0 && pg.pfn < s.pfndbMax && (s.db pg.pfn).type.isPgzfree) = false := by
    rw [← Bool.not_eq_true, Bool.and_eq_true, Bool.and_eq_true, bne_iff_ne, decide_eq_true_eq]
    exact fun h ↦ hf ⟨h.1.1, h.1.2, h.2⟩
  simp only [allocuser, pgalloc, hb]
  rfl

/-- The old entry is external: the page is given back. -/
theorem vmmap32_refused (hva : isuaddr va) (hf : s.Free pg.pfn) (hp : prot.p) (hu : prot.u)
    (hx : l1eExternal (s.l1 cur (vpn va))) :
    vmmap32 s cur va prot pg =
      .ok (Errno.EBUSY.neg, ((s.alloc pg.pfn 0).setFlush cur .null).free pg.pfn) := by
  have htype : ((s.alloc pg.pfn 0).db pg.pfn).type = .user := by rw [Sys.alloc, Sys.setDb_db_self]
  have hl1 : (s.alloc pg.pfn 0).l1 cur (vpn va) = s.l1 cur (vpn va) := rfl
  have henter : pmapUenter (s.alloc pg.pfn 0) cur va pg.pfn prot =
      .ok (Errno.EBUSY.neg, none, s.alloc pg.pfn 0) := by
    simp [pmapUenter, kassert, hva, protCheck, hp, hu, pfndbType, htype, hl1, hx, bind, pure,
      Except.bind, Except.pure, show pg.pfn ≤ (s.alloc pg.pfn 0).pfndbMax from hf.2.1.le]
  simp only [vmmap32, allocuser_eq hf, henter, bind, Except.bind, pure, Except.pure,
    Errno.neg_lt_zero, if_true, pgfree, kassert, bne_iff_ne.2 hf.1]
  rfl

/-- Otherwise the old entry is given up once the new one is in its place. -/
theorem vmmap32_eq (hva : isuaddr va) (hf : s.Free pg.pfn) (hp : prot.p) (hu : prot.u)
    (hx : l1eExternal (s.l1 cur (vpn va)) = false) :
    vmmap32 s cur va prot pg = (do
      let (opfn, t) ← dropL1e (s.install cur va pg.pfn prot) (s.l1 cur (vpn va))
      freeOld (t.setFlush cur .null) opfn) := by
  have htype : ((s.alloc pg.pfn 0).db pg.pfn).type = .user := by rw [Sys.alloc, Sys.setDb_db_self]
  have hmax : pg.pfn ≤ (s.alloc pg.pfn 0).pfndbMax := hf.2.1.le
  have hl1 : (s.alloc pg.pfn 0).l1 cur (vpn va) = s.l1 cur (vpn va) := rfl
  have htake : takeL1e (s.alloc pg.pfn 0) (mkl1e pg.pfn prot) =
      .ok ((s.alloc pg.pfn 0).incref pg.pfn) := by
    simp [takeL1e, mkl1e, hp, pfndbIncref, pfndbUser, kassert, hmax, htype, bind, pure, Except.bind,
      Except.pure, Sys.incref]
  have henter : pmapUenter (s.alloc pg.pfn 0) cur va pg.pfn prot = (do
      let (opfn, t) ← dropL1e (s.install cur va pg.pfn prot) (s.l1 cur (vpn va))
      pure ((0 : Int), opfn, t)) := by
    have hmk : l1eMknormal (mkl1e pg.pfn prot) = mkl1e pg.pfn prot := rfl
    simp only [pmapUenter, kassert, hva, protCheck, hp, hu, pfndbType, hmax, htype, hl1, hx, hmk,
      htake, if_true, decide_true, beq_self_eq_true, bind, Except.bind, pure, Except.pure,
      Bool.false_eq_true, if_false]
    rfl
  rw [vmmap32, allocuser_eq hf]
  change (do
    let r ← pmapUenter (s.alloc pg.pfn 0) cur va pg.pfn prot
    if r.1 < 0 then return (r.1, ← pgfree (pmapCommit r.2.2 cur).2 pg.pfn)
    else freeOld (pmapCommit r.2.2 cur).2 r.2.1) = _
  rw [henter]
  cases dropL1e (s.install cur va pg.pfn prot) (s.l1 cur (vpn va)) <;> rfl

/-! ## What a call that gets its page leaves behind -/

theorem Sys.install_l1 (s : Sys) (cur va pfn : Nat) (prot : Prot) :
    (s.install cur va pfn prot).l1 cur (vpn va) = mkl1e pfn prot := Sys.l1_setL1e_self ..

theorem Sys.install_mem (s : Sys) (cur va pfn : Nat) (prot : Prot) :
    (s.install cur va pfn prot).mem = s.mem := rfl

theorem Sys.install_db_self (s : Sys) (cur va pfn : Nat) (prot : Prot) :
    (s.install cur va pfn prot).db pfn = ⟨.user, incCount 0, 0⟩ := by
  show ((s.alloc pfn 0).incref pfn).db pfn = _
  rw [Sys.incref, Sys.setDb_db_self, Sys.alloc, Sys.setDb_db_self]

theorem Sys.install_db_of_ne {q : Nat} (h : q ≠ pfn) :
    (s.install cur va pfn prot).db q = s.db q := by
  show ((s.alloc pfn 0).incref pfn).db q = _
  rw [Sys.incref, Sys.setDb_db_of_ne _ h, Sys.alloc, Sys.setDb_db_of_ne _ h]

/-- The new entry is in its place over pages that have not been written, and the page is a user page
unless the old entry was dangling. -/
structure Installed (s : Sys) (cur va pfn : Nat) (prot : Prot) (s' : Sys) : Prop where
  l1 : s'.l1 cur (vpn va) = mkl1e pfn prot
  mem : s'.mem = s.mem
  user : (s'.db pfn).type = .user ↔ ¬Dangling s cur va pfn

/-- `vmmap32` where the new page takes the place of the old entry. -/
theorem vmmap32_replaces (hva : isuaddr va) (hp : prot.p) (hu : prot.u)
    (h : Replaces s cur va pg.pfn) : ∃ ret s', vmmap32 s cur va prot pg = .ok (ret, s') ∧
      0 ≤ ret ∧ Installed s cur va pg.pfn prot s' := by
  rw [vmmap32_eq hva h.free hp hu h.notExternal]
  have hl1 := s.install_l1 cur va pg.pfn prot
  have hself := s.install_db_self cur va pg.pfn prot
  have hmax : (s.install cur va pg.pfn prot).pfndbMax = s.pfndbMax := rfl
  have hmem := s.install_mem cur va pg.pfn prot
  have hother := @Sys.install_db_of_ne s cur va pg.pfn prot
  generalize s.install cur va pg.pfn prot = u at hl1 hself hmax hmem hother
  by_cases hn : l1eNormal (s.l1 cur (vpn va))
  swap
  · -- The old entry holds no reference.
    rw [dropL1e, if_neg hn]
    refine ⟨0, _, rfl, le_rfl, (Sys.l1_setFlush ..).trans hl1, hmem, ?_⟩
    refine iff_of_true ?_ fun hd ↦ hn hd.1
    rw [Sys.setFlush_db, hself]
  rw [dropL1e, if_pos hn]
  by_cases heq : (s.l1 cur (vpn va)).pfn = pg.pfn
  · -- The old entry takes the new page with it.
    have hdec : pfndbDecref u pg.pfn = .ok (decCount (incCount 0), u.decref pg.pfn) := by
      rw [pfndbDecref_eq (hmax ▸ h.free.2.1.le) (by rw [hself]), hself]
    have hzero : decCount (incCount 0) = 0 := by decide
    rw [hzero] at hdec
    simp only [heq, hdec, bind, Except.bind, pure, Except.pure, if_true, freeOld_some _ h.free.1]
    refine ⟨1, _, rfl, Int.one_nonneg, ?_, hmem, iff_of_false ?_ (not_not.2 ⟨hn, heq⟩)⟩
    · exact (Sys.l1_setFlush ..).trans hl1
    · rw [Sys.free, Sys.setDb_db_self]
      exact fun h ↦ by cases h
  · have hd := h.drop hn heq
    have hdec : pfndbDecref u (s.l1 cur (vpn va)).pfn =
        .ok (decCount (s.db (s.l1 cur (vpn va)).pfn).ref, u.decref (s.l1 cur (vpn va)).pfn) := by
      rw [pfndbDecref_eq (hmax ▸ hd.range) (by rw [hother heq]; exact hd.user), hother heq]
    have htype : ((u.decref (s.l1 cur (vpn va)).pfn).db pg.pfn).type = .user := by
      rw [(u.decref_db _ pg.pfn).type, hself]
    simp only [hdec, bind, Except.bind, pure, Except.pure]
    by_cases hlast : decCount (s.db (s.l1 cur (vpn va)).pfn).ref = 0
    · rw [if_pos hlast, freeOld_some _ (hd.last hlast)]
      refine ⟨1, _, rfl, Int.one_nonneg, (Sys.l1_setFlush ..).trans hl1, hmem, ?_⟩
      refine iff_of_true ?_ fun hdangling ↦ heq hdangling.2
      rw [Sys.free, Sys.setDb_db_of_ne _ (Ne.symm heq), Sys.setFlush_db, htype]
    · rw [if_neg hlast, freeOld_none]
      refine ⟨0, _, rfl, le_rfl, (Sys.l1_setFlush ..).trans hl1, hmem, ?_⟩
      refine iff_of_true ?_ fun hdangling ↦ heq hdangling.2
      rw [Sys.setFlush_db, htype]

/-- A call of `vmmap32` that returns has replaced the old entry, or has changed no entry and kept no
page. -/
theorem vmmap32_ok {ret : Int} (hva : isuaddr va) (hp : prot.p) (hu : prot.u)
    (h : vmmap32 s cur va prot pg = .ok (ret, s')) :
    Replaces s cur va pg.pfn ∨ ret < 0 ∧ s'.l1 = s.l1 ∧ ∀ q, s.Free q → s'.Free q := by
  by_cases hf : s.Free pg.pfn
  swap
  · rw [vmmap32, allocuser_oom hf] at h
    cases h
  by_cases hx : l1eExternal (s.l1 cur (vpn va))
  · -- The page is given back.
    rw [vmmap32_refused hva hf hp hu hx] at h
    cases h
    refine .inr ⟨Errno.neg_lt_zero _, ?_, fun q hq ↦ ⟨hq.1, hq.2.1, ?_⟩⟩
    · funext pid v
      exact (s.alloc pg.pfn 0).l1_setFlush cur pid v .null
    · by_cases hqp : q = pg.pfn
      · subst hqp
        rw [Sys.free, Sys.setDb_db_self]
        rfl
      · rw [Sys.free, Sys.setDb_db_of_ne _ hqp, Sys.setFlush_db, Sys.alloc,
          Sys.setDb_db_of_ne _ hqp]
        exact hq.2.2
  rw [Bool.not_eq_true] at hx
  refine .inl ⟨hf, hx, fun hn heq ↦ ?_⟩
  rw [vmmap32_eq hva hf hp hu hx, dropL1e, if_pos hn, bind_assoc, bind_eq_ok] at h
  obtain ⟨⟨ref, t⟩, hdec, hfree⟩ := h
  obtain ⟨hr, huser⟩ := pfndbDecref_range hdec
  rw [Sys.install_db_of_ne heq] at huser
  refine ⟨hr, huser, fun hlast hzero ↦ ?_⟩
  rw [pfndbDecref_eq hr (by rw [Sys.install_db_of_ne heq, huser]), Sys.install_db_of_ne heq,
    hlast] at hdec
  obtain ⟨rfl, rfl⟩ := Prod.mk.inj (Except.ok.inj hdec)
  simp only [bind, Except.bind, pure, Except.pure, if_true, hzero] at hfree
  exact freeOld_zero _ _ hfree

/-! ## The write that clears the page -/

/-- An assertion is not a fault. -/
theorem kassert_ends {b : Bool} {e : Panic} (h : e ≠ .kernelFault) :
    Ends (fun _ ↦ True) (· ≠ .kernelFault) (kassert b e) := by
  cases b with
  | true => exact trivial
  | false => exact h

theorem pfndbUser_ends (s : Sys) (pfn : Nat) :
    Ends (fun _ ↦ True) (· ≠ Panic.kernelFault) (pfndbUser s pfn) := by
  refine (kassert_ends (e := .pfnRange) nofun).bind fun _ _ ↦ ?_
  refine (kassert_ends (e := .pfnNotUser) nofun).bind fun _ _ ↦ ?_
  exact trivial

theorem dropL1e_ends (s : Sys) (e : L1e) :
    Ends (fun _ ↦ True) (· ≠ Panic.kernelFault) (dropL1e s e) := by
  rw [dropL1e]
  split
  · refine Ends.bind (P := fun _ ↦ True) ?_ fun _ _ ↦ ?_
    · refine (pfndbUser_ends s e.pfn).bind fun _ _ ↦ ?_
      exact trivial
    · exact trivial
  · exact trivial

theorem freeOld_ends (s : Sys) (opfn : Option Nat) :
    Ends (fun _ ↦ True) (· ≠ Panic.kernelFault) (freeOld s opfn) := by
  cases opfn with
  | none => exact trivial
  | some q =>
      refine Ends.bind (P := fun _ ↦ True) ?_ fun _ _ ↦ ?_
      · refine (kassert_ends (e := .pfnZero) nofun).bind fun _ _ ↦ ?_
        exact trivial
      · exact trivial

/-- `vmmap32` writes to no page, so that it does not fault. -/
theorem vmmap32_ends (hva : isuaddr va) (hp : prot.p) (hu : prot.u) :
    Ends (fun _ ↦ True) (· ≠ Panic.kernelFault) (vmmap32 s cur va prot pg) := by
  by_cases hf : s.Free pg.pfn
  · by_cases hx : l1eExternal (s.l1 cur (vpn va))
    · rw [vmmap32_refused hva hf hp hu hx]
      exact trivial
    · rw [vmmap32_eq hva hf hp hu (by simpa using hx)]
      exact (dropL1e_ends _ _).bind fun r _ ↦ freeOld_ends _ r.1
  · rw [vmmap32, allocuser_oom hf]
    exact fun h ↦ by cases h

/-- `vmmap` clears what `vmmap32` has mapped, or faults. -/
theorem vmmap_eq {ret : Int} (hp : prot.p) (h : vmmap32 s cur va prot pg = .ok (ret, s'))
    (hret : 0 ≤ ret) (hl1 : s'.l1 cur (vpn va) = mkl1e pfn prot) :
    vmmap s cur va prot pg =
      if prot.w then .ok (ret, s'.setMem pfn fun _ ↦ 0) else .error .kernelFault := by
  have hfill : kernelFill s' cur va (fun _ ↦ 0) =
      if prot.w then .ok (s'.setMem pfn fun _ ↦ 0) else .error .kernelFault := by
    rw [kernelFill, hl1]
    cases hw : prot.w <;> simp [kassert, mkl1e, hp, hw, bind, pure, Except.bind, Except.pure]
  simp only [vmmap, h, bind, Except.bind, if_neg (Int.not_lt.2 hret), hfill]
  cases prot.w <;> rfl

/-- A page that is mapped where the old entry was, cleared or not. -/
theorem Installed.newPage {c : Sys} (h : Installed s cur va pfn prot s') (hp : prot.p)
    (hf : s.Free pfn) (hd : ¬Dangling s cur va pfn) (hl1 : c.l1 = s'.l1) (hdb : c.db = s'.db)
    (hclean : ∀ i < pageSize, c.mem pfn i = 0) : NewPage s cur va pfn c where
  fresh := hf
  allocated := by
    rw [hdb]
    exact h.user.2 hd
  mapped := by
    rw [hl1, h.l1, maps_mkl1e, hp, beq_self_eq_true]
    rfl
  clean := hclean

/-! ## When the promise is kept -/

/-- A call of `vmmap`. -/
theorem vmmap_clean_iff (hva : isuaddr va) (hp : prot.p) (hu : prot.u) :
    (vmmap s cur va prot pg ≠ .error .kernelFault ∧
      ∀ ret s', vmmap s cur va prot pg = .ok (ret, s') →
        (0 ≤ ret → NewPage s cur va pg.pfn s') ∧
        (ret < 0 → s'.l1 = s.l1 ∧ ∀ q, s.Free q → s'.Free q)) ↔
      (Replaces s cur va pg.pfn → ¬Dangling s cur va pg.pfn ∧ prot.w) := by
  by_cases hrep : Replaces s cur va pg.pfn
  · obtain ⟨ret, t, hcall, hret, hi⟩ := vmmap32_replaces hva hp hu hrep
    rw [vmmap_eq hp hcall hret hi.l1]
    by_cases hw : prot.w
    · rw [if_pos hw]
      constructor
      · rintro ⟨_, h⟩ _
        have hu := ((h _ _ rfl).1 hret).allocated
        exact ⟨hi.user.1 hu, hw⟩
      · intro h
        refine ⟨nofun, fun ret' s' hr ↦ ?_⟩
        cases hr
        refine ⟨fun _ ↦ hi.newPage hp hrep.free (h hrep).1 rfl rfl fun i _ ↦ ?_,
          fun hneg ↦ absurd hret (Int.not_le.2 hneg)⟩
        simp [Sys.setMem]
    · rw [if_neg hw]
      exact iff_of_false (fun h ↦ h.1 rfl) fun h ↦ hw (h hrep).2
  · -- The call fails, or does not return.
    refine iff_of_true ⟨fun hc ↦ ?_, fun ret s' hr ↦ ?_⟩ fun h ↦ absurd h hrep
    · cases hcall : vmmap32 s cur va prot pg with
      | error e =>
          rw [vmmap, hcall] at hc
          obtain rfl : e = .kernelFault := by cases hc; rfl
          exact (vmmap32_ends hva hp hu).of_error hcall rfl
      | ok r =>
          have hneg := ((vmmap32_ok hva hp hu hcall).resolve_left hrep).1
          simp only [vmmap, hcall, bind, Except.bind, if_pos hneg] at hc
          cases hc
    · simp only [vmmap, bind_eq_ok] at hr
      obtain ⟨⟨r, t⟩, hcall, hr⟩ := hr
      obtain ⟨hneg, hkept⟩ := (vmmap32_ok hva hp hu hcall).resolve_left hrep
      rw [if_pos hneg] at hr
      cases hr
      exact ⟨fun hret ↦ absurd hret (Int.not_le.2 hneg), fun _ ↦ hkept⟩

/-- A call of `vmmap32`. -/
theorem vmmap32_clean_iff (hva : isuaddr va) (hp : prot.p) (hu : prot.u) :
    (vmmap32 s cur va prot pg ≠ .error .kernelFault ∧
      ∀ ret s', vmmap32 s cur va prot pg = .ok (ret, s') →
        (0 ≤ ret → NewPage s cur va pg.pfn s') ∧
        (ret < 0 → s'.l1 = s.l1 ∧ ∀ q, s.Free q → s'.Free q)) ↔
      (Replaces s cur va pg.pfn →
        ¬Dangling s cur va pg.pfn ∧ ∀ i < pageSize, s.mem pg.pfn i = 0) := by
  have hfault : vmmap32 s cur va prot pg ≠ .error .kernelFault :=
    fun hc ↦ (vmmap32_ends hva hp hu).of_error hc rfl
  by_cases hrep : Replaces s cur va pg.pfn
  · obtain ⟨ret, t, hcall, hret, hi⟩ := vmmap32_replaces hva hp hu hrep
    constructor
    · rintro ⟨_, h⟩ _
      have hnew := (h _ _ hcall).1 hret
      refine ⟨hi.user.1 hnew.allocated, fun i hlt ↦ ?_⟩
      rw [← hi.mem]
      exact hnew.clean i hlt
    · intro h
      refine ⟨hfault, fun ret' s' hr ↦ ?_⟩
      obtain ⟨rfl, rfl⟩ := Prod.mk.inj (Except.ok.inj (hcall.symm.trans hr))
      refine ⟨fun _ ↦ hi.newPage hp hrep.free (h hrep).1 rfl rfl fun i hlt ↦ ?_,
        fun hneg ↦ absurd hret (Int.not_le.2 hneg)⟩
      rw [hi.mem]
      exact (h hrep).2 i hlt
  · refine iff_of_true ⟨hfault, fun ret s' hr ↦ ?_⟩ fun h ↦ absurd h hrep
    obtain ⟨hneg, hkept⟩ := (vmmap32_ok hva hp hu hr).resolve_left hrep
    exact ⟨fun hret ↦ absurd hret (Int.not_le.2 hneg), fun _ ↦ hkept⟩

/-- When new pages are clean: for every state, every user address and every flag word. -/
theorem newpage_clean_iff (s : Sys) (cur va perm : Nat) (root : Bool) (pg : Page)
    (hva : chkuaddr (truncPage va) pageSize) (hperm : AsksNew perm) :
    NewPageOk s cur va perm root pg ↔ NewPageSafe s cur va perm root pg := by
  have hua := isuaddr_of_chkuaddr hva
  simp only [NewPageOk, NewPageSafe, sysMap, hva, Bool.not_true, Bool.false_eq_true, if_false]
  obtain ⟨prot, hcall, hp, hu⟩ | ⟨prot, hcall, hp, hu⟩ | hcall := hperm.cases root
  · rw [hcall]
    exact vmmap_clean_iff hua hp hu
  · rw [hcall]
    exact vmmap32_clean_iff hua hp hu
  · -- Refused: nothing has been done yet.
    rw [hcall]
    refine iff_of_true ⟨fun hfault ↦ ?_, fun ret s' hr ↦ ?_⟩ trivial
    · cases hfault
    · cases hr
      exact ⟨fun hret ↦ absurd hret (Int.not_le.2 (Errno.neg_lt_zero _)),
        fun _ ↦ ⟨rfl, fun _ h ↦ h⟩⟩

/-- A page mapped writable is clean. -/
theorem newpage_clean_demo : NewPageOk demo 1 0x400000 (3 + mapNew) false ⟨1, 0, 0⟩ := by
  have hperm : AsksNew (3 + mapNew) := ⟨⟨protUserWr, by decide, rfl⟩, by decide⟩
  refine (newpage_clean_iff demo 1 0x400000 (3 + mapNew) false ⟨1, 0, 0⟩ (by decide) hperm).2 ?_
  have hcall : mapCall (3 + mapNew) false = .vmmap protUserWr := by decide
  rw [NewPageSafe, hcall]
  exact fun _ ↦ ⟨fun h ↦ Bool.false_ne_true h.1, rfl⟩

/-- The first thread asks for a new page that is to be read-only: the kernel faults when it clears
the page. -/
theorem newpage_faults : ¬∀ s cur va perm root pg, Boot s → s.Running cur →
    chkuaddr (truncPage va) pageSize → AsksNew perm → NewPageOk s cur va perm root pg := by
  intro h
  have hperm : AsksNew (1 + mapNew) := ⟨⟨protUser, by decide, rfl⟩, by decide⟩
  have hok := h demo 1 0x400000 (1 + mapNew) false ⟨1, 0, 0⟩ demo_boot (by decide) (by decide) hperm
  have hcall : mapCall (1 + mapNew) false = .vmmap protUser := by decide
  simp only [NewPageOk, sysMap, show chkuaddr (truncPage 0x400000) pageSize = true by decide,
    Bool.not_true, Bool.false_eq_true, if_false, hcall] at hok
  have hiff := @vmmap_clean_iff demo 1 0x400000 protUser ⟨1, 0, 0⟩ (by decide) rfl rfl
  have hrep : Replaces demo 1 0x400000 1 :=
    ⟨⟨by decide, by decide, rfl⟩, rfl, fun hn ↦ by cases hn⟩
  cases (hiff.1 hok hrep).2

end Mh.Vm
