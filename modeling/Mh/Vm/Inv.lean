import Mh.Vm.Spec

/-!
# The page accounting invariant

The invariant behind reference counting and copy-on-write.  For every physical
page it compares four numbers: the type and the reference count kept in the page
database, the number of entries that map the page, and the number of entries that
own it, that is, map it without the copy-on-write marker.

In the middle of an operation an entry may have left a page table without its
reference being given up yet, or own a reference before it is written to a table.
Such entries are *in flight*.  `Bal X B fl s` counts the list `fl` of entries in
flight as if they were in a table, so that writing an entry only exchanges it with
the one it replaces (`Bal.swap`), and every other rule is about the front of the
list.

The parameter `X` selects the strong form, where the counts are exact; without it
a reference may be lost (`Bal.leak`), which is what happens to the entries that
`pmap_uenter` and `pmap_uchaddr` overwrite when they are copy-on-write.  `B`
bounds the reference counts, which therefore never wrap around.
-/

namespace Mh.Vm

open Mh.Lib

variable {X : Prop} {B : Nat} {fl : List L1e} {s s' : Sys} {pid v pfn : Nat} {e n o : L1e}

/-- The number of entries with the property `p`, those in flight included. -/
def Sys.held (s : Sys) (fl : List L1e) (p : L1e → Bool) : Nat := s.count p + fl.countP p

namespace Sys

@[simp] theorem held_nil (p : L1e → Bool) : s.held [] p = s.count p := rfl

theorem held_cons (p : L1e → Bool) : s.held (e :: fl) p = s.held fl p + (p e).toNat := by
  cases h : p e <;> simp [held, h, Nat.add_assoc]

@[simp] theorem held_setDb (x : Ipfn) (p : L1e → Bool) : (s.setDb pfn x).held fl p = s.held fl p :=
  rfl

@[simp] theorem held_setFlush (f : Tlbf) (p : L1e → Bool) :
    (s.setFlush pid f).held fl p = s.held fl p := by
  simp [held]

/-- Writing an entry exchanges it with the one it replaces. -/
theorem held_setL1e (hpid : pid ∈ s.live) (hv : v ∈ userVpns) (p : L1e → Bool) :
    (s.setL1e pid v n).held (s.l1 pid v :: fl) p = s.held (n :: fl) p := by
  have h := s.count_setL1e hpid hv n p
  rw [held_cons, held_cons]
  simp only [held]
  omega

theorem held_mono {p q : L1e → Bool} (hpq : ∀ e, p e → q e) : s.held fl p ≤ s.held fl q :=
  Nat.add_le_add (count_mono hpq) (List.countP_mono_left fun e _ ↦ hpq e)

/-- Every owner of a page maps it. -/
theorem held_owns_le (q : Nat) : s.held fl (L1e.owns q) ≤ s.held fl (L1e.maps q) :=
  held_mono fun _ ↦ L1e.maps_of_owns

end Sys

/-- What a single entry must satisfy: a copy-on-write entry is read-only and an
I/O mapping is of a device page.  In the strong form no entry is wired. -/
structure EntryOk (X : Prop) (db : Nat → Ipfn) (e : L1e) : Prop where
  cowRo : l1eCow e → e.w = false
  iomap : l1eIomap e → (db e.pfn).type = .mmio
  notWired : X → l1eWired e = false

/-- An entry that is not present satisfies every condition. -/
theorem EntryOk.of_absent {db : Nat → Ipfn} (h : e.p = false) : EntryOk X db e where
  cowRo hc := by simp [l1eCow, h] at hc
  iomap hi := by simp [l1eIomap, h] at hi
  notWired _ := by simp [l1eWired, h]

/-- A normal entry satisfies every condition. -/
theorem EntryOk.of_normal {db : Nat → Ipfn} (h : e.avail = .normal) : EntryOk X db e where
  cowRo hc := by simp [l1eCow, h] at hc
  iomap hi := by simp [l1eIomap, h] at hi
  notWired _ := by simp [l1eWired, h]

theorem EntryOk.mkcow {db : Nat → Ipfn} : EntryOk X db (l1eMkcow e) where
  cowRo _ := rfl
  iomap hi := by simp [l1eIomap, l1eMkcow] at hi
  notWired _ := by simp [l1eWired, l1eMkcow]

theorem EntryOk.mono {db db' : Nat → Ipfn} (h : EntryOk X db e)
    (hdb : ∀ q, (db q).type = .mmio → (db' q).type = .mmio) : EntryOk X db' e where
  cowRo := h.cowRo
  iomap hi := hdb _ (h.iomap hi)
  notWired := h.notWired

/-- The accounting of one page: its database entry `x` against the number `m` of
entries that map it and the number `w` of entries that own it. -/
structure PageOk (X : Prop) (B : Nat) (x : Ipfn) (m w : Nat) : Prop where
  /-- only user pages are mapped -/
  user : 0 < m → x.type = .user
  /-- an owner is alone -/
  sole : w = 0 ∨ m = 1
  /-- every mapping is counted -/
  cover : x.type = .user → m ≤ x.ref
  /-- the counts are bounded -/
  bound : x.type = .user → x.ref ≤ B
  /-- in the strong form, the count is exact and no page is left unmapped -/
  exact : X → x.type = .user → x.ref = m ∧ 0 < m

/-- A page that is not a user page and that nobody maps. -/
theorem PageOk.unmapped {x : Ipfn} (h : x.type ≠ .user) : PageOk X B x 0 0 where
  user hp := absurd hp (lt_irrefl _)
  sole := .inl rfl
  cover hu := absurd hu h
  bound hu := absurd hu h
  exact _ hu := absurd hu h

/-- The page accounting invariant, with the entries `fl` in flight. -/
structure Bal (X : Prop) (B : Nat) (fl : List L1e) (s : Sys) : Prop where
  pages : ∀ q, PageOk X B (s.db q) (s.held fl (L1e.maps q)) (s.held fl (L1e.owns q))
  entries : ∀ pid ∈ s.live, ∀ v ∈ userVpns, EntryOk X s.db (s.l1 pid v)
  flight : ∀ e ∈ fl, EntryOk X s.db e

namespace Bal

/-! ## Rules that leave the page database alone -/

/-- The invariant depends on the tables only through the counts and the entries. -/
theorem congr {fl' : List L1e} (h : Bal X B fl s) (hdb : s'.db = s.db)
    (hmaps : ∀ q, s'.held fl' (L1e.maps q) = s.held fl (L1e.maps q))
    (howns : ∀ q, s'.held fl' (L1e.owns q) = s.held fl (L1e.owns q))
    (hent : ∀ pid ∈ s'.live, ∀ v ∈ userVpns, EntryOk X s.db (s'.l1 pid v))
    (hfl : ∀ e ∈ fl', EntryOk X s.db e) : Bal X B fl' s' where
  pages q := by
    rw [hdb, hmaps, howns]
    exact h.pages q
  entries := by rwa [hdb]
  flight := by rwa [hdb]

theorem setFlush (h : Bal X B fl s) (pid : Nat) (f : Tlbf) : Bal X B fl (s.setFlush pid f) :=
  h.congr rfl (fun _ ↦ Sys.held_setFlush f _) (fun _ ↦ Sys.held_setFlush f _)
    (fun pid hpid v hv ↦ by simpa using h.entries pid hpid v hv) h.flight

theorem setMem (h : Bal X B fl s) (c : Nat → UInt8) : Bal X B fl (s.setMem pfn c) :=
  h.congr rfl (fun _ ↦ rfl) (fun _ ↦ rfl) h.entries h.flight

/-- An entry in flight may be replaced by one that maps and owns the same page. -/
theorem mark (h : Bal X B (e :: fl) s) (hmaps : ∀ q, n.maps q = e.maps q)
    (howns : ∀ q, n.owns q = e.owns q) (hn : EntryOk X s.db n) : Bal X B (n :: fl) s := by
  refine h.congr rfl (fun q ↦ ?_) (fun q ↦ ?_) h.entries ?_
  · rw [Sys.held_cons, Sys.held_cons, hmaps]
  · rw [Sys.held_cons, Sys.held_cons, howns]
  · rintro e' (_ | ⟨_, he'⟩)
    · exact hn
    · exact h.flight e' (.tail _ he')

/-- An entry that maps nothing may be taken into flight. -/
theorem cons_absent (h : Bal X B fl s) (he : e.p = false) : Bal X B (e :: fl) s := by
  have hm : ∀ q, e.maps q = false := fun q ↦ L1e.maps_of_not_present he
  refine h.congr rfl (fun q ↦ ?_) (fun q ↦ ?_) h.entries ?_
  · rw [Sys.held_cons, hm]; rfl
  · rw [Sys.held_cons, L1e.owns_of_maps_false (hm q)]; rfl
  · rintro e' (_ | ⟨_, he'⟩)
    · exact .of_absent he
    · exact h.flight e' he'

/-- An entry in flight that maps nothing may be forgotten. -/
theorem of_cons_absent (h : Bal X B (e :: fl) s) (hm : ∀ q, e.maps q = false) :
    Bal X B fl s := by
  refine h.congr rfl (fun q ↦ ?_) (fun q ↦ ?_) h.entries fun e' he' ↦ h.flight e' (.tail _ he')
  · rw [Sys.held_cons, hm]; rfl
  · rw [Sys.held_cons, L1e.owns_of_maps_false (hm q)]; rfl

/-- Writing an entry in flight to a table takes the entry there into flight. -/
theorem swap (h : Bal X B (n :: fl) s) (hpid : pid ∈ s.live) (hv : v ∈ userVpns) :
    Bal X B (s.l1 pid v :: fl) (s.setL1e pid v n) := by
  refine h.congr rfl (fun q ↦ Sys.held_setL1e hpid hv _) (fun q ↦ Sys.held_setL1e hpid hv _) ?_ ?_
  · intro pid' hpid' v' hv'
    rw [Sys.l1_setL1e]
    split
    · exact h.flight n (.head _)
    · exact h.entries pid' hpid' v' hv'
  · rintro e' (_ | ⟨_, he'⟩)
    · exact h.entries pid hpid v hv
    · exact h.flight e' (.tail _ he')

/-! ## Losing a reference -/

/-- A copy-on-write entry in flight is not an owner, so its page has none. -/
theorem owners_of_cow (h : Bal X B (e :: fl) s) (he : l1eCow e) :
    s.held fl (L1e.owns e.pfn) = 0 := by
  rw [l1eCow_iff] at he
  have hm : e.maps e.pfn = true := L1e.maps_iff.2 ⟨he.1, by simp [he.2], rfl⟩
  have ho : e.owns e.pfn = false := by simp [L1e.owns, he.2]
  have hle : s.held fl (L1e.owns e.pfn) ≤ s.held fl (L1e.maps e.pfn) := s.held_owns_le e.pfn
  have hsole := (h.pages e.pfn).sole
  rw [Sys.held_cons, Sys.held_cons, hm, ho] at hsole
  simp only [Bool.toNat_true, Bool.toNat_false, Nat.add_zero] at hsole
  omega

/-- Without exactness, a copy-on-write entry in flight may be forgotten. -/
theorem leak (h : Bal X B (e :: fl) s) (he : l1eCow e) (hX : ¬X) : Bal X B fl s where
  pages q := by
    have hq := h.pages q
    have hc := h.owners_of_cow he
    by_cases hm : e.maps q
    · obtain rfl : e.pfn = q := (L1e.maps_iff.1 hm).2.2
      rw [Sys.held_cons, Sys.held_cons, hm] at hq
      exact ⟨fun hp ↦ hq.user (by omega), .inl hc, fun hu ↦ Nat.le_of_succ_le (hq.cover hu),
        hq.bound, fun x ↦ absurd x hX⟩
    · have hm' : e.maps q = false := by simpa using hm
      rw [Sys.held_cons, Sys.held_cons, hm', L1e.owns_of_maps_false hm'] at hq
      exact hq
  entries := h.entries
  flight e' he' := h.flight e' (.tail _ he')

/-- A copy-on-write entry in flight whose page is referenced once may be made
normal. -/
theorem lastCow (h : Bal X B (e :: fl) s) (he : l1eCow e) (hu : (s.db e.pfn).type = .user)
    (href : (s.db e.pfn).ref = 1) : Bal X B (l1eMknormal e :: fl) s where
  pages q := by
    have hq := h.pages q
    have hc := h.owners_of_cow he
    rw [l1eCow_iff] at he
    have hmaps : (l1eMknormal e).maps q = e.maps q := by
      rw [maps_mknormal, maps_of_avail_ne (by simp [he.2])]
    rw [Sys.held_cons] at hq
    rw [Sys.held_cons, Sys.held_cons, hmaps]
    refine ⟨hq.user, ?_, hq.cover, hq.bound, hq.exact⟩
    by_cases hm : e.maps q
    · obtain rfl : e.pfn = q := (L1e.maps_iff.1 hm).2.2
      have hcov := hq.cover hu
      simp only [hm, Bool.toNat_true] at hcov ⊢
      right
      omega
    · have hm' : e.maps q = false := by simpa using hm
      rw [Sys.held_cons, hm', L1e.owns_of_maps_false hm'] at hq
      rw [L1e.owns_of_maps_false (hmaps.trans hm'), hm']
      exact hq.sole
  entries := h.entries
  flight := by
    rintro e' (_ | ⟨_, he'⟩)
    · exact .of_normal rfl
    · exact h.flight e' (.tail _ he')

/-! ## Rules for the page database -/

/-- Changing the database entry of one page, which is not a device page. -/
theorem setDb {fl' : List L1e} {B' : Nat} {x : Ipfn} (h : Bal X B fl s) (hB : B ≤ B')
    (hmaps : ∀ q, q ≠ pfn → s.held fl' (L1e.maps q) = s.held fl (L1e.maps q))
    (howns : ∀ q, q ≠ pfn → s.held fl' (L1e.owns q) = s.held fl (L1e.owns q))
    (hpfn : PageOk X B' x (s.held fl' (L1e.maps pfn)) (s.held fl' (L1e.owns pfn)))
    (hty : (s.db pfn).type ≠ .mmio) (hfl : ∀ e ∈ fl', EntryOk X s.db e) :
    Bal X B' fl' (s.setDb pfn x) := by
  have hmmio : ∀ q, (s.db q).type = .mmio → ((s.setDb pfn x).db q).type = .mmio := by
    intro q hq
    have hne : q ≠ pfn := by rintro rfl; exact hty hq
    rwa [s.setDb_db_of_ne hne]
  refine ⟨fun q ↦ ?_, fun pid hpid v hv ↦ (h.entries pid hpid v hv).mono hmmio,
    fun e he ↦ (hfl e he).mono hmmio⟩
  by_cases hq : q = pfn
  · subst hq
    simpa using hpfn
  · have hp := h.pages q
    rw [s.setDb_db_of_ne hq, Sys.held_setDb, Sys.held_setDb, hmaps q hq, howns q hq]
    exact ⟨hp.user, hp.sole, hp.cover, fun hu ↦ (hp.bound hu).trans hB, hp.exact⟩

/-- A page that is not a user page is not mapped. -/
theorem unmapped (h : Bal X B fl s) (hty : (s.db pfn).type ≠ .user) :
    s.held fl (L1e.maps pfn) = 0 ∧ s.held fl (L1e.owns pfn) = 0 := by
  have hm : s.held fl (L1e.maps pfn) = 0 := by
    by_contra hne
    exact hty ((h.pages pfn).user (Nat.pos_of_ne_zero hne))
  exact ⟨hm, Nat.le_zero.1 (hm ▸ s.held_owns_le pfn)⟩

theorem flight_cons (h : Bal X B fl s) (hn : EntryOk X s.db n) :
    ∀ e ∈ n :: fl, EntryOk X s.db e := by
  rintro e' (_ | ⟨_, he'⟩)
  · exact hn
  · exact h.flight e' he'

/-- Allocating a page and taking a first reference to it for a normal entry. -/
theorem alloc {prot : Prot} (h : Bal X B fl s) (wir : Nat) (hf : s.Free pfn) (hp : prot.p)
    (hB : 0 < B) :
    Bal X B (mkl1e pfn prot :: fl) ((s.alloc pfn wir).incref pfn) := by
  obtain ⟨hm, hw⟩ := h.unmapped hf.type_ne
  rw [Sys.incref, Sys.alloc, Sys.setDb_setDb, Sys.setDb_db_self]
  refine h.setDb le_rfl (fun q hq ↦ ?_) (fun q hq ↦ ?_) ?_ hf.type_ne_mmio
    (h.flight_cons (.of_normal rfl))
  · simp [Sys.held_cons, hq.symm]
  · simp [Sys.held_cons, hq.symm]
  · rw [Sys.held_cons, Sys.held_cons, hm, hw, maps_mkl1e, owns_mkl1e]
    simp only [hp, beq_self_eq_true, Bool.and_self, Bool.toNat_true, Nat.zero_add]
    exact ⟨fun _ ↦ rfl, .inr rfl, fun _ ↦ le_rfl, fun _ ↦ hB, fun _ _ ↦ ⟨rfl, Nat.one_pos⟩⟩

/-- Allocating a page and giving it back at once. -/
theorem refund {wir : Nat} (h : Bal X B fl s) (hf : s.Free pfn) :
    Bal X B fl ((s.alloc pfn wir).free pfn) := by
  obtain ⟨hm, hw⟩ := h.unmapped hf.type_ne
  rw [Sys.free, Sys.alloc, Sys.setDb_setDb, Sys.setDb_db_self]
  refine h.setDb le_rfl (fun q _ ↦ rfl) (fun q _ ↦ rfl) ?_ hf.type_ne_mmio h.flight
  rw [hm, hw]
  exact .unmapped (by simp)

/-- Changing the wire count of a user page. -/
theorem setWir {wir : Nat} (h : Bal X B fl s) (hu : (s.db pfn).type = .user) :
    Bal X B fl (s.setDb pfn { s.db pfn with wir := wir }) := by
  have hp := h.pages pfn
  exact h.setDb le_rfl (fun _ _ ↦ rfl) (fun _ _ ↦ rfl)
    ⟨hp.user, hp.sole, hp.cover, hp.bound, hp.exact⟩ (by simp [hu]) h.flight

/-- A normal entry in flight is alone. -/
theorem alone_of_normal (h : Bal X B (e :: fl) s) (he : l1eNormal e) :
    s.held fl (L1e.maps e.pfn) = 0 ∧ s.held fl (L1e.owns e.pfn) = 0 := by
  rw [l1eNormal_iff] at he
  have hm : e.maps e.pfn = true := by simp [maps_of_avail_ne, he]
  have hw : e.owns e.pfn = true := by simp [owns_of_avail_ne, he]
  have hle : s.held fl (L1e.owns e.pfn) ≤ s.held fl (L1e.maps e.pfn) := s.held_owns_le e.pfn
  have hsole := (h.pages e.pfn).sole
  rw [Sys.held_cons, Sys.held_cons, hm, hw] at hsole
  simp only [Bool.toNat_true] at hsole
  omega

/-- Giving up the entry in flight that was replaced: the reference of a normal
entry is dropped, and its page freed when that was the last; a copy-on-write entry
is forgotten with its reference. -/
theorem drop {opfn : Option Nat} (h : Bal X B (o :: fl) s) (hB : B < 2 ^ 64)
    (hd : dropL1e s o = .ok (opfn, s')) (hx : l1eExternal o = false)
    (hc : X → l1eCow o = false) : Bal X B fl (s'.freed opfn) := by
  rcases dropL1e_ok hd with ⟨hn, rfl, rfl⟩ | ⟨hn, hu, rfl, rfl⟩
  · cases hp : o.p with
    | false => exact h.of_cons_absent fun q ↦ L1e.maps_of_not_present hp
    | true =>
        have hcow : l1eCow o := by
          rcases normal_or_cow hp hx with h | h
          · rw [hn] at h; cases h
          · exact h
        exact h.leak hcow fun x ↦ by rw [hc x] at hcow; cases hcow
  · obtain ⟨hm, hw⟩ := h.alone_of_normal hn
    have hpage := h.pages o.pfn
    have hmo : o.maps o.pfn = true := by
      rw [l1eNormal_iff] at hn
      simp [maps_of_avail_ne, hn]
    rw [Sys.held_cons, hm, hmo] at hpage
    have h1 : 1 ≤ (s.db o.pfn).ref := hpage.cover hu
    have hle : (s.db o.pfn).ref ≤ B := hpage.bound hu
    have hdec : decCount (s.db o.pfn).ref = (s.db o.pfn).ref - 1 := by
      simp only [decCount]
      omega
    have hother : ∀ q, q ≠ o.pfn → o.maps q = false := fun q hq ↦ L1e.maps_of_ne hq.symm
    have hfl : ∀ e ∈ fl, EntryOk X s.db e := fun e he ↦ h.flight e (.tail _ he)
    have hty : (s.db o.pfn).type ≠ .mmio := by simp [hu]
    have key : ∀ x : Ipfn, PageOk X B x 0 0 → Bal X B fl (s.setDb o.pfn x) := by
      intro x hx
      refine h.setDb le_rfl (fun q hq ↦ ?_) (fun q hq ↦ ?_) (by rwa [hm, hw]) hty hfl
      · rw [Sys.held_cons, hother q hq]; rfl
      · rw [Sys.held_cons, L1e.owns_of_maps_false (hother q hq)]; rfl
    rw [Sys.decref, Sys.setDb_db_self]
    simp only [hdec]
    split
    · rw [Sys.freed, Sys.free, Sys.setDb_setDb]
      exact key _ (.unmapped (by simp))
    · rename_i hne
      refine key _ ⟨fun hp ↦ absurd hp (lt_irrefl _), .inl rfl, fun _ ↦ Nat.zero_le _,
        fun _ ↦ (Nat.sub_le _ _).trans hle, fun x _ ↦ absurd ?_ hne⟩
      have := (hpage.exact x hu).1
      simp only [Bool.toNat_true, Nat.zero_add] at this
      simp [this]

/-- Sharing the page of an entry in flight between two copy-on-write entries. -/
theorem share (h : Bal X B (e :: fl) s) (hB : B + 1 < 2 ^ 64) (hp : e.p)
    (hx : l1eExternal e = false) (hu : (s.db e.pfn).type = .user) :
    Bal X (B + 1) (l1eMkcow e :: l1eMkcow e :: fl) (s.incref e.pfn) := by
  have hw : s.held fl (L1e.owns e.pfn) = 0 := by
    rcases normal_or_cow hp hx with h' | h'
    · exact (h.alone_of_normal h').2
    · exact h.owners_of_cow h'
  have hav : e.avail ≠ .iomap := by
    intro hav
    simp [l1eExternal, l1eIomap, hp, hav] at hx
  have hm : e.maps e.pfn = true := by simp [maps_of_avail_ne hav, hp]
  have hpage := h.pages e.pfn
  rw [Sys.held_cons, hm] at hpage
  simp only [Bool.toNat_true] at hpage
  have hcov := hpage.cover hu
  have hle := hpage.bound hu
  have hinc : incCount (s.db e.pfn).ref = (s.db e.pfn).ref + 1 := by
    simp only [incCount]
    omega
  refine h.setDb (Nat.le_succ B) (fun q hq ↦ ?_) (fun q hq ↦ ?_) ?_ (by simp [hu]) ?_
  · simp [Sys.held_cons, beq_false_of_ne hq.symm, L1e.maps_of_ne hq.symm]
  · simp [Sys.held_cons, L1e.owns_of_maps_false (L1e.maps_of_ne hq.symm)]
  · simp only [Sys.held_cons, maps_mkcow, owns_mkcow, hp, hw, hinc, beq_self_eq_true,
      Bool.and_self, Bool.toNat_true, Bool.toNat_false]
    refine ⟨fun _ ↦ hu, .inl rfl, fun _ ↦ ?_, fun _ ↦ ?_, fun x _ ↦ ?_⟩
    · exact Nat.add_le_add_right hcov 1
    · exact Nat.add_le_add_right hle 1
    · have := (hpage.exact x hu).1
      exact ⟨by simp only; omega, by omega⟩
  · rintro e' (_ | ⟨_, _ | ⟨_, he'⟩⟩)
    · exact .mkcow
    · exact .mkcow
    · exact h.flight e' (.tail _ he')

/-! ## Changing an entry in place -/

/-- Changing an entry of a table by a rule for entries in flight. -/
theorem modify (h : Bal X B fl s) (hpid : pid ∈ s.live) (hv : v ∈ userVpns)
    (hmod : ∀ t : Sys, t.db = s.db → Bal X B (s.l1 pid v :: fl) t → Bal X B (n :: fl) t) :
    Bal X B fl (s.setL1e pid v n) := by
  have h₁ : Bal X B (s.l1 pid v :: fl) (s.setL1e pid v .zero) :=
    (h.cons_absent (e := .zero) rfl).swap hpid hv
  have hpid' : pid ∈ (s.setL1e pid v .zero).live := hpid
  have h₂ := (hmod (s.setL1e pid v .zero) rfl h₁).swap hpid' hv
  rw [Sys.l1_setL1e_self, Sys.setL1e_setL1e] at h₂
  exact h₂.of_cons_absent fun q ↦ L1e.maps_of_not_present rfl

end Bal

end Mh.Vm
