import Mh.Vm.Steps

/-!
# Fork

What `pmap_copy` and `thfork` do to the two address spaces.  `pmap_copy` walks the
copy-on-write area once; `cowParent` and `cowChild` say what becomes of an entry
in the table of the parent and in that of the child, and the loop does this to
every entry of the area and nothing else (`pmapCopy_l1`).  The page that is copied
at once is handled by `thfork` itself.
-/

namespace Mh.Vm

open Mh.Lib

variable {X : Prop} {B : Nat} {s s' t : Sys} {cur pm new v : Nat}

/-- The parent's entry after the copy. -/
def cowParent (e : L1e) : L1e := if e.p && !l1eExternal e then l1eMkcow e else e

/-- The child's entry after the copy. -/
def cowChild (e : L1e) : L1e :=
  if !e.p then e else if l1eExternal e then .zero else l1eMkcow e

/-- `Same s s'`: from `s` to `s'` only tables and counts change. -/
structure Same (s s' : Sys) : Prop where
  mem : s'.mem = s.mem
  live : s'.live = s.live
  zombie : s'.zombie = s.zombie
  init : s'.init = s.init
  nextpid : s'.nextpid = s.nextpid
  pfndbMax : s'.pfndbMax = s.pfndbMax
  db : ∀ q, (s.db q).SameUpToRef (s'.db q)

namespace Same

protected theorem refl (s : Sys) : Same s s := ⟨rfl, rfl, rfl, rfl, rfl, rfl, fun _ ↦ .refl _⟩

protected theorem trans (h : Same s t) (h' : Same t s') : Same s s' :=
  ⟨h'.mem.trans h.mem, h'.live.trans h.live, h'.zombie.trans h.zombie, h'.init.trans h.init,
    h'.nextpid.trans h.nextpid, h'.pfndbMax.trans h.pfndbMax,
    fun q ↦ (h.db q).trans (h'.db q)⟩

theorem setL1e (pid v : Nat) (e : L1e) : Same s (s.setL1e pid v e) :=
  ⟨rfl, rfl, rfl, rfl, rfl, rfl, fun _ ↦ .refl _⟩

theorem setFlush (pid : Nat) (f : Tlbf) : Same s (s.setFlush pid f) :=
  ⟨rfl, rfl, rfl, rfl, rfl, rfl, fun _ ↦ .refl _⟩

theorem incref (q : Nat) : Same s (s.incref q) :=
  ⟨rfl, rfl, rfl, rfl, rfl, rfl, s.incref_db q⟩

end Same

/-! ## One entry -/

theorem pmapCopyCow_same (h : pmapCopyCow pm new s v = .ok s') : Same s s' := by
  rcases pmapCopyCow_ok h with ⟨_, rfl⟩ | ⟨_, _, rfl⟩ | ⟨fl, _, _, _, rfl⟩
  · exact .setL1e ..
  · exact .setL1e ..
  · exact (((Same.incref _).trans (.setL1e ..)).trans (.setL1e ..)).trans (.setFlush ..)

/-- One iteration changes the entry in both tables. -/
theorem pmapCopyCow_l1 (hne : pm ≠ new) (h : pmapCopyCow pm new s v = .ok s') (p w : Nat) :
    s'.l1 p w =
      if w = v ∧ p = pm then cowParent (s.l1 pm v)
      else if w = v ∧ p = new then cowChild (s.l1 pm v) else s.l1 p w := by
  rcases pmapCopyCow_ok h with ⟨hp, rfl⟩ | ⟨hp, hx, rfl⟩ | ⟨fl, hp, hx, _, rfl⟩
  · rw [Sys.l1_setL1e]
    by_cases hw : w = v
    · by_cases h₁ : p = pm
      · simp [hw, h₁, hne, cowParent, hp]
      · simp [hw, h₁, cowChild, hp]
    · simp [hw]
  · rw [Sys.l1_setL1e]
    by_cases hw : w = v
    · by_cases h₁ : p = pm
      · simp [hw, h₁, hne, cowParent, hp, hx]
      · simp [hw, h₁, cowChild, hp, hx]
    · simp [hw]
  · rw [Sys.l1_setFlush, Sys.l1_setL1e, Sys.l1_setL1e]
    by_cases hw : w = v
    · by_cases h₁ : p = pm
      · simp [hw, h₁, hne, cowParent, hp, hx]
      · simp [hw, h₁, cowChild, hp, hx, Sys.incref]
    · simp [hw, Sys.incref]

theorem Bal.mono {B' : Nat} {fl : List L1e} (h : Bal X B fl s) (hB : B ≤ B') : Bal X B' fl s where
  pages q :=
    have hq := h.pages q
    ⟨hq.user, hq.sole, hq.cover, fun hu ↦ (hq.bound hu).trans hB, hq.exact⟩
  entries := h.entries
  flight := h.flight

/-- One iteration takes one more reference at most. -/
theorem Bal.copyCow (h : Bal X B [] s) (hB : B + 1 < 2 ^ 64) (hpm : pm ∈ s.live)
    (hnew : new ∈ s.live) (hne : pm ≠ new) (hv : v ∈ userVpns) (habs : (s.l1 new v).p = false)
    (hu : pmapCopyCow pm new s v = .ok s') : Bal X (B + 1) [] s' := by
  have hm : ∀ q, (s.l1 new v).maps q = false := fun q ↦ L1e.maps_of_not_present habs
  rcases pmapCopyCow_ok hu with ⟨hp, rfl⟩ | ⟨_, _, rfl⟩ | ⟨fl, hp, hx, hty, rfl⟩
  · exact (((h.cons_absent hp).swap hnew hv).of_cons_absent hm).mono (Nat.le_succ B)
  · exact (((h.cons_absent rfl).swap hnew hv).of_cons_absent hm).mono (Nat.le_succ B)
  · -- take the parent's entry out, share it, and write it to both tables
    have h₁ : Bal X B [s.l1 pm v] (s.setL1e pm v .zero) := (h.cons_absent rfl).swap hpm hv
    have h₂ := h₁.share hB hp hx hty
    have hpm' : pm ∈ ((s.setL1e pm v .zero).incref (s.l1 pm v).pfn).live := hpm
    have h₃ := h₂.swap hpm' hv
    have hzero : ((s.setL1e pm v .zero).incref (s.l1 pm v).pfn).l1 pm v = .zero :=
      s.l1_setL1e_self pm v .zero
    have hset : ((s.setL1e pm v .zero).incref (s.l1 pm v).pfn).setL1e pm v
        (l1eMkcow (s.l1 pm v)) =
        (s.incref (s.l1 pm v).pfn).setL1e pm v (l1eMkcow (s.l1 pm v)) :=
      (s.incref (s.l1 pm v).pfn).setL1e_setL1e pm v .zero _
    rw [hzero, hset] at h₃
    have h₄ := h₃.of_cons_absent fun q ↦ L1e.maps_of_not_present rfl
    have hnew' : new ∈ ((s.incref (s.l1 pm v).pfn).setL1e pm v (l1eMkcow (s.l1 pm v))).live := hnew
    have h₅ := h₄.swap hnew' hv
    rw [Sys.l1_setL1e_of_ne _ (.inl hne.symm)] at h₅
    exact (h₅.of_cons_absent hm).setFlush pm fl

/-! ## The loop -/

theorem copyLoop_same {l : List Nat} (h : l.foldlM (pmapCopyCow pm new) s = .ok t) : Same s t :=
  foldlM_invariant (I := fun t ↦ Same s t) (fun _ _ _ _ hs ht ↦ hs.trans (pmapCopyCow_same ht)) h
    (.refl s)

/-- The loop does to every entry of its area what one iteration does. -/
theorem copyLoop_l1 {l : List Nat} (hne : pm ≠ new) (hl : l.Nodup)
    (h : l.foldlM (pmapCopyCow pm new) s = .ok t) (p w : Nat) :
    t.l1 p w =
      if w ∈ l ∧ p = pm then cowParent (s.l1 pm w)
      else if w ∈ l ∧ p = new then cowChild (s.l1 pm w) else s.l1 p w := by
  induction l generalizing s with
  | nil =>
      cases h
      simp
  | cons v l ih =>
      rw [List.foldlM_cons, bind_eq_ok] at h
      obtain ⟨s₁, h₁, h₂⟩ := h
      rw [List.nodup_cons] at hl
      rw [ih hl.2 h₂, pmapCopyCow_l1 hne h₁, pmapCopyCow_l1 hne h₁]
      by_cases hw : w = v
      · subst hw
        simp [hl.1]
      · simp [hw]

theorem Bal.copyLoop {l : List Nat} (h : Bal X B [] s) (hB : B + l.length < 2 ^ 64)
    (hpm : pm ∈ s.live) (hnew : new ∈ s.live) (hne : pm ≠ new) (hl : l.Nodup)
    (huv : ∀ v ∈ l, v ∈ userVpns) (habs : ∀ v ∈ l, (s.l1 new v).p = false)
    (hu : l.foldlM (pmapCopyCow pm new) s = .ok t) : Bal X (B + l.length) [] t := by
  induction l generalizing s B with
  | nil =>
      cases hu
      exact h
  | cons v l ih =>
      rw [List.foldlM_cons, bind_eq_ok] at hu
      obtain ⟨s₁, h₁, h₂⟩ := hu
      rw [List.nodup_cons] at hl
      rw [List.length_cons] at hB
      have hlive := (pmapCopyCow_same h₁).live
      have hbal := h.copyCow (by omega) hpm hnew hne (huv v (.head _)) (habs v (.head _)) h₁
      have := ih hbal (by omega) (by rwa [hlive]) (by rwa [hlive]) hl.2
        (fun w hw ↦ huv w (.tail _ hw)) (fun w hw ↦ ?_) h₂
      · rw [List.length_cons]
        rwa [Nat.add_right_comm] at this
      · have hwv : w ≠ v := by
          rintro rfl
          exact hl.1 hw
        rw [pmapCopyCow_l1 hne h₁]
        simp only [hwv, false_and, if_false]
        exact habs w (.tail _ hw)

/-! ## The new address space -/

theorem nodup_cowVpns : cowVpns.Nodup := List.nodup_range'

theorem length_cowVpns : cowVpns.length = 1530 := by
  rw [cowVpns, List.length_range', vpn_zcowEnd, vpn_userEnd]

/-- A new thread with an empty table. -/
def Sys.spawn (s : Sys) (stale : Tlbf) : Sys :=
  pmapAlloc { s with nextpid := s.nextpid + 1, live := insert s.nextpid s.live } s.nextpid stale

theorem Sys.l1_spawn (s : Sys) (stale : Tlbf) (p w : Nat) :
    (s.spawn stale).l1 p w = if p = s.nextpid then .zero else s.l1 p w := by
  by_cases h : p = s.nextpid
  · subst h
    simp [spawn, pmapAlloc, l1]
  · simp [spawn, pmapAlloc, l1, h]

/-- An empty table adds nothing to the counts. -/
theorem Sys.count_spawn (s : Sys) (stale : Tlbf) (hnew : s.nextpid ∉ s.live) {p : L1e → Bool}
    (hp : p .zero = false) : (s.spawn stale).count p = s.count p := by
  have hzero : tally userVpns p (fun _ ↦ L1e.zero) = 0 := tally_eq_zero.2 fun _ _ ↦ hp
  simp only [count, spawn, pmapAlloc]
  rw [Finset.sum_insert hnew, Function.update_self, hzero, Nat.zero_add]
  refine Finset.sum_congr rfl fun q hq ↦ ?_
  rw [Function.update_of_ne (ne_of_mem_of_not_mem hq hnew)]

theorem Bal.spawn (h : Bal X B [] s) (stale : Tlbf) (hnew : s.nextpid ∉ s.live) :
    Bal X B [] (s.spawn stale) := by
  refine h.congr rfl (fun q ↦ ?_) (fun q ↦ ?_) (fun p hp w hw ↦ ?_) h.flight
  · simp only [Sys.held_nil]
    exact s.count_spawn stale hnew rfl
  · simp only [Sys.held_nil]
    exact s.count_spawn stale hnew rfl
  · rw [Sys.l1_spawn]
    split
    · exact .of_absent rfl
    · rename_i hne
      refine h.entries p ?_ w hw
      exact (Finset.mem_insert.1 hp).resolve_left hne

/-- `getnewpid` and `pmap_copy` give the child an empty table and run the loop. -/
theorem thforkCopy_ok {stale : Tlbf} (h : thforkCopy s cur stale = .ok t) :
    s.nextpid + 1 ≠ 2 ^ 32 ∧ cowVpns.foldlM (pmapCopyCow cur s.nextpid)
      ((s.spawn stale).setL1e s.nextpid 1 .zero) = .ok t := by
  have hz : zcowVpns = [1] := by decide
  simp only [thforkCopy, pmapCopy, hz, bind_eq_ok, kassert_eq_ok, bne_iff_ne] at h
  obtain ⟨_, hne, s₁, h₁, h₂⟩ := h
  cases h₁
  exact ⟨hne, h₂⟩

/-- The tables after the copy. -/
theorem thforkCopy_l1 {stale : Tlbf} (hcur : cur ≠ s.nextpid) (h : thforkCopy s cur stale = .ok t)
    (p w : Nat) :
    t.l1 p w =
      if p = s.nextpid then (if w ∈ cowVpns then cowChild (s.l1 cur w) else .zero)
      else if w ∈ cowVpns ∧ p = cur then cowParent (s.l1 cur w) else s.l1 p w := by
  rw [copyLoop_l1 hcur nodup_cowVpns (thforkCopy_ok h).2]
  have hpar : ∀ w, ((s.spawn stale).setL1e s.nextpid 1 .zero).l1 cur w = s.l1 cur w := fun w ↦ by
    rw [Sys.l1_setL1e_of_ne _ (.inl hcur), Sys.l1_spawn, if_neg hcur]
  rw [hpar]
  by_cases hp : p = s.nextpid
  · subst hp
    have hl : ((s.spawn stale).setL1e s.nextpid 1 .zero).l1 s.nextpid w = .zero := by
      rw [Sys.l1_setL1e, Sys.l1_spawn, if_pos rfl, ite_self]
    simp only [hl, hcur.symm, and_false, if_false, and_true, if_true]
  · have hl : ((s.spawn stale).setL1e s.nextpid 1 .zero).l1 p w = s.l1 p w := by
      rw [Sys.l1_setL1e_of_ne _ (.inl hp), Sys.l1_spawn, if_neg hp]
    simp only [hl, hp, and_false, if_false]

theorem thforkCopy_same {stale : Tlbf} (h : thforkCopy s cur stale = .ok t) :
    Same { s with nextpid := s.nextpid + 1, live := insert s.nextpid s.live } t := by
  have h₁ : Same (s.spawn stale) t :=
    (Same.setL1e s.nextpid 1 .zero).trans (copyLoop_same (thforkCopy_ok h).2)
  exact ⟨h₁.mem, h₁.live, h₁.zombie, h₁.init, h₁.nextpid, h₁.pfndbMax, h₁.db⟩

theorem Bal.thforkCopy {stale : Tlbf} (h : Bal X B [] s) (hB : B + 1530 < 2 ^ 64)
    (hlt : ∀ pid ∈ s.live, pid < s.nextpid) (hcur : cur ∈ s.live)
    (hu : thforkCopy s cur stale = .ok t) : Bal X (B + 1530) [] t := by
  have hnew : s.nextpid ∉ s.live := fun hm ↦ absurd (hlt _ hm) (lt_irrefl _)
  have hlive : s.nextpid ∈ (s.spawn stale).live := Finset.mem_insert_self ..
  have hone : (1 : Nat) ∈ userVpns := by simp
  have hbal : Bal X B [] ((s.spawn stale).setL1e s.nextpid 1 .zero) :=
    (h.spawn stale hnew).modify hlive hone fun t _ ht ↦
      (ht.of_cons_absent fun q ↦ by
        rw [Sys.l1_spawn, if_pos rfl]
        exact L1e.maps_of_not_present rfl).cons_absent rfl
  have := hbal.copyLoop (by rwa [length_cowVpns]) (Finset.mem_insert_of_mem hcur) hlive
    (ne_of_mem_of_not_mem hcur hnew) nodup_cowVpns (fun w hw ↦ ?_) (fun w hw ↦ ?_)
    (thforkCopy_ok hu).2
  · rwa [length_cowVpns] at this
  · rw [mem_cowVpns] at hw
    rw [mem_userVpns]
    omega
  · rw [Sys.l1_setL1e, Sys.l1_spawn, if_pos rfl, ite_self]
    rfl

/-! ## The page copied at once -/

theorem vpn_mul (v : Nat) : vpn (v * pageSize) = v :=
  Nat.mul_div_cancel v (by decide)

/-- What the loop of `thfork` does: take a page and give it back when there is
nothing to copy, or copy into it and enter it in the child's table. -/
theorem thforkZcow_ok {pick : Nat → Page} (h : thforkZcow cur new pick s v = .ok s') :
    s.Free (pick v).pfn ∧
    (((s.l1 cur v).p = false ∧ s' = (s.alloc (pick v).pfn (pick v).wir).free (pick v).pfn) ∨
     ((s.l1 cur v).p ∧
      pmapUenter ((s.setMem (pick v).pfn (s.mem (s.l1 cur v).pfn)).alloc (pick v).pfn
        (pick v).wir) new (v * pageSize) (pick v).pfn protUserWr = .ok (0, none, s'))) := by
  simp only [thforkZcow, bind_eq_ok] at h
  obtain ⟨s₁, h₁, s₂, h₂, h₃⟩ := h
  obtain ⟨hf, rfl⟩ := pgalloc_clrref_ok h₁ h₂
  refine ⟨hf, ?_⟩
  split at h₃
  · rename_i hp
    exact .inl ⟨by simpa [Sys.alloc] using hp, pgfree_ok h₃⟩
  · rename_i hp
    simp only [bind_eq_ok, kassert_eq_ok, Bool.and_eq_true, beq_iff_eq] at h₃
    obtain ⟨⟨r, opfn, s₃⟩, h₄, _, ⟨hr, ho⟩, h₅⟩ := h₃
    simp only at hr ho
    subst hr ho
    cases h₅
    exact .inr ⟨by simpa [Sys.alloc] using hp, h₄⟩

/-- The loop of `thfork` writes one entry of the child's table. -/
theorem thforkZcow_frame {pick : Nat → Page} (h : thforkZcow cur new pick s v = .ok s') :
    Frame new s s' ∧ (∀ p w, w ≠ v → s'.l1 p w = s.l1 p w) ∧
      ∀ q, q ≠ (pick v).pfn → (s.db q).SameUpToRef (s'.db q) := by
  obtain ⟨_, ⟨_, rfl⟩ | ⟨_, hu⟩⟩ := thforkZcow_ok h
  · refine ⟨(Frame.setDb _).trans (.setDb _), fun _ _ _ ↦ rfl, fun q hq ↦ ?_⟩
    rw [Sys.free, Sys.setDb_db_of_ne _ hq, Sys.alloc, Sys.setDb_db_of_ne _ hq]
    exact .refl _
  · obtain ⟨-, -, ⟨_, hr, _⟩ | ⟨_, _, hd⟩⟩ := pmapUenter_ok hu
    · exact absurd hr (by decide)
    · refine ⟨((((Frame.setMem _).trans (.setDb _)).trans (.take _)).trans (.put _ _)).trans
        (.drop hd), fun p w hw ↦ ?_, fun q hq ↦ ?_⟩
      · have hw' : w ≠ vpn (v * pageSize) := by rwa [vpn_mul]
        have hl : s'.l1 p w = _ := congrFun (congrFun (dropL1e_l1 hd) p) w
        rw [hl, Sys.put, Sys.l1_setL1e_of_ne _ (.inr hw'), Sys.l1_setFlush, Sys.l1_take]
        rfl
      · have halloc : ((s.setMem (pick v).pfn (s.mem (s.l1 cur v).pfn)).alloc (pick v).pfn
            (pick v).wir).db q = s.db q := Sys.setDb_db_of_ne _ hq _
        have htake := Sys.take_db ((s.setMem (pick v).pfn (s.mem (s.l1 cur v).pfn)).alloc
          (pick v).pfn (pick v).wir) (mkl1e (pick v).pfn protUserWr) q
        rw [halloc] at htake
        exact htake.trans (dropL1e_db hd q)

/-- The child's entry and its page. -/
theorem thforkZcow_page {pick : Nat → Page} (h : thforkZcow cur new pick s v = .ok s') :
    s.Free (pick v).pfn ∧
    (((s.l1 cur v).p = false ∧ s'.l1 new v = s.l1 new v ∧ s'.mem = s.mem) ∨
     ((s.l1 cur v).p ∧ s'.l1 new v = mkl1e (pick v).pfn protUserWr ∧
      s'.mem = Function.update s.mem (pick v).pfn (s.mem (s.l1 cur v).pfn))) := by
  obtain ⟨hf, ⟨hp, rfl⟩ | ⟨hp, hu⟩⟩ := thforkZcow_ok h
  · exact ⟨hf, .inl ⟨hp, rfl, rfl⟩⟩
  · refine ⟨hf, .inr ⟨hp, ?_⟩⟩
    obtain ⟨-, -, ⟨_, hr, _⟩ | ⟨_, _, hd⟩⟩ := pmapUenter_ok hu
    · exact absurd hr (by decide)
    · refine ⟨?_, ?_⟩
      · have hl : s'.l1 new v = _ := congrFun (congrFun (dropL1e_l1 hd) new) v
        rw [hl, vpn_mul, Sys.put, Sys.l1_setL1e_self]
      · rw [dropL1e_mem hd, Sys.put, Sys.setL1e_mem, Sys.setFlush_mem, Sys.take_mem]
        rfl

theorem Bal.thforkZcow {pick : Nat → Page} (h : Bal X B [] s) (hB : B < 2 ^ 64) (hB0 : 0 < B)
    (hnew : new ∈ s.live) (habs : (s.l1 new v).p = false)
    (hu : thforkZcow cur new pick s v = .ok s') : Bal X B [] s' := by
  obtain ⟨hf, ⟨_, rfl⟩ | ⟨_, hu⟩⟩ := thforkZcow_ok hu
  · exact h.refund hf
  · have hf' : (s.setMem (pick v).pfn (s.mem (s.l1 cur v).pfn)).Free (pick v).pfn := hf
    have hcow : l1eCow (s.l1 new v) = false := by simp [l1eCow, habs]
    have hc : X → l1eCow ((s.setMem (pick v).pfn (s.mem (s.l1 cur v).pfn)).l1 new
        (vpn (v * pageSize))) = false := fun _ ↦ by rwa [vpn_mul, Sys.l1_setMem]
    rcases (h.setMem _).uenter_page hB hB0 hnew hf' rfl hc hu with ⟨hr, _⟩ | ⟨_, hbal, _⟩
    · exact absurd hr (lt_irrefl _)
    · exact hbal

/-- `thfork` as the copy followed by the page copied at once. -/
theorem thfork_ok {stale : Tlbf} {pick : Nat → Page} (h : thfork s cur stale pick = .ok s') :
    ∃ t t', thforkCopy s cur stale = .ok t ∧ thforkZcow cur s.nextpid pick t 1 = .ok t' ∧
      s' = t'.setFlush cur .null := by
  have hz : zcowVpns = [1] := by decide
  simp only [thfork, hz, bind_eq_ok] at h
  obtain ⟨t, ht, t', ht', hs'⟩ := h
  rw [List.foldlM_cons, bind_eq_ok] at ht'
  obtain ⟨t₁, ht₁, ht₂⟩ := ht'
  cases ht₂
  cases hs'
  exact ⟨t, t', ht, ht₁, rfl⟩

/-- What `thfork` changes: a new thread, the parent's table and the child's. -/
structure Forked (cur : Nat) (pg : Page) (s s' : Sys) : Prop where
  live : s'.live = insert s.nextpid s.live
  zombie : s'.zombie = s.zombie
  nextpid : s'.nextpid = s.nextpid + 1
  wrap : s.nextpid + 1 ≠ 2 ^ 32
  pfndbMax : s'.pfndbMax = s.pfndbMax
  parent : ∀ v ∈ cowVpns, s'.l1 cur v = cowParent (s.l1 cur v)
  child : ∀ v ∈ cowVpns, s'.l1 s.nextpid v = cowChild (s.l1 cur v)
  other : ∀ p, p ≠ cur → p ≠ s.nextpid → ∀ v, s'.l1 p v = s.l1 p v
  db : ∀ q, q ≠ pg.pfn → (s.db q).SameUpToRef (s'.db q)
  /-- the page copied at once stays the parent's -/
  own : s'.l1 cur 1 = s.l1 cur 1
  free : s.Free pg.pfn
  /-- and the child gets a copy, if there is one -/
  copy : ((s.l1 cur 1).p = false ∧ (s'.l1 s.nextpid 1).p = false ∧ s'.mem = s.mem) ∨
    ((s.l1 cur 1).p ∧ s'.l1 s.nextpid 1 = mkl1e pg.pfn protUserWr ∧
      s'.mem = Function.update s.mem pg.pfn (s.mem (s.l1 cur 1).pfn))

theorem one_notMem_cowVpns : (1 : Nat) ∉ cowVpns := by
  rw [mem_cowVpns]
  omega

theorem thfork_forked {stale : Tlbf} {pick : Nat → Page} (hcur : cur ≠ s.nextpid)
    (h : thfork s cur stale pick = .ok s') : Forked cur (pick 1) s s' := by
  obtain ⟨t, t', ht, ht', rfl⟩ := thfork_ok h
  have hsame := thforkCopy_same ht
  obtain ⟨hf, hl1, hdb⟩ := thforkZcow_frame ht'
  have hpage := thforkZcow_page ht'
  have hcur1 : t.l1 cur 1 = s.l1 cur 1 := by
    rw [thforkCopy_l1 hcur ht, if_neg hcur, if_neg fun h ↦ one_notMem_cowVpns h.1]
  have hne1 : ∀ v ∈ cowVpns, v ≠ 1 := fun v hv ↦ ne_of_mem_of_not_mem hv one_notMem_cowVpns
  refine ⟨hf.live.trans hsame.live, hf.zombie.trans hsame.zombie, hf.nextpid.trans hsame.nextpid,
    (thforkCopy_ok ht).1, hf.pfndbMax.trans hsame.pfndbMax, fun v hv ↦ ?_, fun v hv ↦ ?_,
    fun p hp hp' v ↦ ?_, fun q hq ↦ (hsame.db q).trans (hdb q hq), ?_, ?_, ?_⟩
  · rw [Sys.l1_setFlush, hl1 _ _ (hne1 v hv), thforkCopy_l1 hcur ht, if_neg hcur, if_pos ⟨hv, rfl⟩]
  · rw [Sys.l1_setFlush, hl1 _ _ (hne1 v hv), thforkCopy_l1 hcur ht, if_pos rfl, if_pos hv]
  · rw [Sys.l1_setFlush, hf.l1 p hp', thforkCopy_l1 hcur ht, if_neg hp', if_neg fun h ↦ hp h.2]
  · rw [Sys.l1_setFlush, hf.l1 cur hcur, hcur1]
  · obtain ⟨h0, hlt, hfree⟩ := hpage.1
    rw [hsame.pfndbMax] at hlt
    rw [(hsame.db _).type] at hfree
    exact ⟨h0, hlt, hfree⟩
  · have hnew1 : (t.l1 s.nextpid 1).p = false := by
      rw [thforkCopy_l1 hcur ht, if_pos rfl, if_neg one_notMem_cowVpns]
      rfl
    have hcopy := hpage.2
    rw [hcur1, hsame.mem] at hcopy
    rw [Sys.l1_setFlush, Sys.setFlush_mem]
    rcases hcopy with ⟨hp, hl, hmem⟩ | hcopy
    · rw [← hl] at hnew1
      exact .inl ⟨hp, hnew1, hmem⟩
    · exact .inr hcopy

/-- `thfork`: the accounting carries over, with a larger bound. -/
theorem Bal.thfork {stale : Tlbf} {pick : Nat → Page} (h : Bal X B [] s)
    (hB : B + 1530 < 2 ^ 64) (hlt : ∀ pid ∈ s.live, pid < s.nextpid) (hcur : cur ∈ s.live)
    (hu : thfork s cur stale pick = .ok s') : Bal X (B + 1530) [] s' := by
  obtain ⟨t, t', ht, ht', rfl⟩ := thfork_ok hu
  have hbal := h.thforkCopy hB hlt hcur ht
  have hnew : s.nextpid ∈ t.live := by
    rw [(thforkCopy_same ht).live]
    exact Finset.mem_insert_self ..
  have habs : (t.l1 s.nextpid 1).p = false := by
    rw [thforkCopy_l1 (hlt _ hcur).ne ht, if_pos rfl, if_neg one_notMem_cowVpns]
    rfl
  exact (hbal.thforkZcow hB (by omega) hnew habs ht').setFlush cur .null

/-! ## Fork does not panic

A fork can stop the kernel only for want of a page or of a pid: the assertions of
the copy hold of every table whose entries are user mappings of user pages. -/

/-- The entry can be shared. -/
def Sys.Shareable (s : Sys) (e : L1e) : Prop :=
  e.p → l1eExternal e = false → e.u ∧ e.pfn ≤ s.pfndbMax ∧ (s.db e.pfn).type = .user

theorem pmapCopyCow_total (new : Nat) (h : s.Shareable (s.l1 pm v)) :
    ∃ t, pmapCopyCow pm new s v = .ok t := by
  simp only [pmapCopyCow]
  split
  · exact ⟨_, rfl⟩
  · split
    · exact ⟨_, rfl⟩
    · rename_i hp hx
      obtain ⟨hu, hle, hty⟩ := h (by simpa using hp) (by simpa using hx)
      simp [pfndbIncref, pfndbUser, kassert, hu, hle, hty, bind, pure, Except.bind, Except.pure]

theorem copyLoop_total {l : List Nat} (hne : pm ≠ new) (hl : l.Nodup)
    (h : ∀ v ∈ l, s.Shareable (s.l1 pm v)) :
    ∃ t, l.foldlM (pmapCopyCow pm new) s = .ok t := by
  induction l generalizing s with
  | nil => exact ⟨s, rfl⟩
  | cons v l ih =>
      rw [List.nodup_cons] at hl
      obtain ⟨s₁, h₁⟩ := pmapCopyCow_total new (h v (.head _))
      have hsame := pmapCopyCow_same h₁
      obtain ⟨t, ht⟩ := ih (s := s₁) hl.2 fun w hw ↦ by
        have hwv : w ≠ v := by
          rintro rfl
          exact hl.1 hw
        rw [pmapCopyCow_l1 hne h₁]
        simp only [hwv, false_and, if_false]
        intro hp hx
        rw [hsame.pfndbMax, (hsame.db _).type]
        exact h w (.tail _ hw) hp hx
      refine ⟨t, ?_⟩
      rw [List.foldlM_cons, bind_eq_ok]
      exact ⟨s₁, h₁, ht⟩

theorem thforkCopy_total (stale : Tlbf) (hcur : cur ≠ s.nextpid) (hpid : s.nextpid + 1 ≠ 2 ^ 32)
    (h : ∀ v ∈ cowVpns, s.Shareable (s.l1 cur v)) : ∃ t, thforkCopy s cur stale = .ok t := by
  have hz : zcowVpns = [1] := by decide
  have hpar : ∀ w, ((s.spawn stale).setL1e s.nextpid 1 .zero).l1 cur w = s.l1 cur w := fun w ↦ by
    rw [Sys.l1_setL1e_of_ne _ (.inl hcur), Sys.l1_spawn, if_neg hcur]
  obtain ⟨t, ht⟩ := copyLoop_total (s := (s.spawn stale).setL1e s.nextpid 1 .zero) hcur
    nodup_cowVpns fun w hw ↦ by
      rw [hpar]
      exact h w hw
  refine ⟨t, ?_⟩
  simp only [thforkCopy, pmapCopy, hz, bind_eq_ok, kassert_eq_ok, bne_iff_ne]
  exact ⟨(), hpid, _, rfl, ht⟩

/-- A fork of a table with nothing in the page that is copied at once. -/
theorem thfork_total {stale : Tlbf} {pick : Nat → Page} (hcur : cur ≠ s.nextpid)
    (hpid : s.nextpid + 1 ≠ 2 ^ 32) (h : ∀ v ∈ cowVpns, s.Shareable (s.l1 cur v))
    (hz : (s.l1 cur 1).p = false) (hf : s.Free (pick 1).pfn) :
    ∃ t, thfork s cur stale pick = .ok t := by
  obtain ⟨t, ht⟩ := thforkCopy_total stale hcur hpid h
  have hsame := thforkCopy_same ht
  have hl1 : (t.l1 cur 1).p = false := by
    rw [thforkCopy_l1 hcur ht, if_neg hcur, if_neg fun h ↦ one_notMem_cowVpns h.1]
    exact hz
  have hf' : t.Free (pick 1).pfn := by
    refine ⟨hf.1, ?_, ?_⟩
    · rw [hsame.pfndbMax]
      exact hf.2.1
    · rw [(hsame.db _).type]
      exact hf.2.2
  have hzv : zcowVpns = [1] := by decide
  refine ⟨((t.alloc (pick 1).pfn (pick 1).wir).free (pick 1).pfn).setFlush cur .null, ?_⟩
  obtain ⟨h0, hlt, hfree⟩ := hf'
  have hz1 : thforkZcow cur s.nextpid pick t 1 =
      .ok ((t.alloc (pick 1).pfn (pick 1).wir).free (pick 1).pfn) := by
    simp [thforkZcow, pgalloc, pfndbClrref, pfndbUser, pgfree, kassert, h0, hlt, hlt.le, hfree,
      hl1, Sys.alloc, Sys.free, Sys.setDb_setDb, bind, pure, Except.bind, Except.pure]
  simp only [thfork, hzv, bind_eq_ok]
  refine ⟨t, ht, _, ?_, rfl⟩
  rw [List.foldlM_cons, bind_eq_ok]
  exact ⟨_, hz1, rfl⟩

/-- A fork of a table with a page to copy at once. -/
theorem thfork_total_copy {stale : Tlbf} {pick : Nat → Page} (hcur : cur ≠ s.nextpid)
    (hpid : s.nextpid + 1 ≠ 2 ^ 32) (h : ∀ v ∈ cowVpns, s.Shareable (s.l1 cur v))
    (hz : (s.l1 cur 1).p) (hf : s.Free (pick 1).pfn) :
    ∃ t, thfork s cur stale pick = .ok t := by
  obtain ⟨t, ht⟩ := thforkCopy_total stale hcur hpid h
  have hsame := thforkCopy_same ht
  have hl1 : (t.l1 cur 1).p := by
    rw [thforkCopy_l1 hcur ht, if_neg hcur, if_neg fun h ↦ one_notMem_cowVpns h.1]
    exact hz
  have hnew : (t.l1 s.nextpid 1).p = false := by
    rw [thforkCopy_l1 hcur ht, if_pos rfl, if_neg one_notMem_cowVpns]
    rfl
  have hlt : (pick 1).pfn < t.pfndbMax := by
    rw [hsame.pfndbMax]
    exact hf.2.1
  have hfree : (t.db (pick 1).pfn).type.isPgzfree := by
    rw [(hsame.db _).type]
    exact hf.2.2
  have hzv : zcowVpns = [1] := by decide
  obtain ⟨t', henter⟩ : ∃ t', pmapUenter
      ((t.setMem (pick 1).pfn (t.mem (t.l1 cur 1).pfn)).alloc (pick 1).pfn (pick 1).wir) s.nextpid
      (1 * pageSize) (pick 1).pfn protUserWr = .ok (0, none, t') :=
    ⟨_, pmapUenter_fresh (by decide) (by simpa [Sys.alloc] using hlt.le) (by simp [Sys.alloc]) rfl
      rfl (by rw [vpn_mul]; exact hnew)⟩
  have h₁ : pgalloc t (pick 1) =
      .ok (t.setDb (pick 1).pfn ⟨.user, (pick 1).ref, (pick 1).wir⟩) := by
    simp [pgalloc, kassert, hf.1, hlt, hfree, bind, pure, Except.bind, Except.pure]
  have h₂ : pfndbClrref (t.setDb (pick 1).pfn ⟨.user, (pick 1).ref, (pick 1).wir⟩) (pick 1).pfn =
      .ok (t.alloc (pick 1).pfn (pick 1).wir) := by
    simp [pfndbClrref, pfndbUser, kassert, hlt.le, Sys.alloc, Sys.setDb_setDb, bind, pure,
      Except.bind, Except.pure]
  have hz1 : thforkZcow cur s.nextpid pick t 1 = .ok t' := by
    simp only [thforkZcow, bind_eq_ok]
    refine ⟨_, h₁, _, h₂, ?_⟩
    rw [if_neg (by simpa [Sys.alloc] using hl1)]
    simp only [bind_eq_ok]
    exact ⟨_, henter, (), rfl, rfl⟩
  refine ⟨t'.setFlush cur .null, ?_⟩
  simp only [thfork, hzv, bind_eq_ok]
  refine ⟨t, ht, t', ?_, rfl⟩
  rw [List.foldlM_cons, bind_eq_ok]
  exact ⟨t', hz1, rfl⟩

end Mh.Vm
