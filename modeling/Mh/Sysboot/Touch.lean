import Mh.Sysboot.Classify
import Mh.Lib.Traced
import Mathlib.Data.List.TakeWhile

/-!
# The entries that the marking looks at

The marking of `sysboot` once more, with a note of the index of every entry of `pfndb` that it reads
or writes.  Its loops go on until an assertion stops them: what they have looked at until then is
what they were to mark, up to the first page beyond `pfndb_max` (`log_marks`).

Without the notes these are the functions of `Mh.Sysboot.Model` (`res_sysbootMark`).
-/

namespace Mh.Sysboot.Touch

open Mh.Lib

/-- A function that notes the entries that it reads and writes. -/
abbrev Acc := Traced Nat Stop

/-- `pfndb_setup`. -/
def pfndbSetup (stale : Nat → Nat) (maxpfn : Nat) : Acc Pfndb := do
  Traced.note (List.range maxpfn)
  return Sysboot.pfndbSetup stale maxpfn

/-- `pfndb_add`. -/
def pfndbAdd (db : Pfndb) (pfn t : Nat) : Acc Pfndb :=
  if db.max < pfn then Traced.lift (.error .pfn)
  else do
    Traced.note [pfn]
    return if t < db.type pfn then db else { db with type := Function.update db.type pfn t }

/-- `pfndb_add` of one type to each page of a loop. -/
def pfndbAdds (db : Pfndb) (pfns : List Nat) (t : Nat) : Acc Pfndb :=
  pfns.foldlM (fun db pfn ↦ pfndbAdd db pfn t) db

/-- `pfndb_subst`. -/
def pfndbSubst (db : Pfndb) (t1 t2 : Nat) : Acc Pfndb := do
  Traced.note (List.range db.max)
  return Sysboot.pfndbSubst db t1 t2

/-- The marking of `sysboot`. -/
def sysbootMark (map : List E820e) (ukernEnd : Nat) (stale : Nat → Nat) : Acc Pfndb :=
  let max := pfnMaxaddr map
  if 2 ^ 32 < lpfndb ukernEnd max then Traced.lift (.error .fault)
  else do
    let db ← pfndbSetup stale max
    let db ← (e820Foreach map).foldlM (fun db p ↦ pfndbAdds db p.pfns p.pfnt) db
    let db ← pfndbSubst db pfntInvalid pfntMmio
    let db ← pfndbAdds db (kernelPfns ukernEnd) pfntSystem
    pfndbAdds db (pfndbPfns ukernEnd max) pfntSystem

variable {A : Type} {db db' : Pfndb} {map : List E820e} {es : List A} {ukernEnd p t : Nat}
  {stale : Nat → Nat} {pfns : List Nat} {f : A → List Nat} {g : A → Nat}

/-! ## Without the notes -/

@[simp] theorem res_pfndbAdd (db : Pfndb) (p t : Nat) :
    (pfndbAdd db p t).res = Sysboot.pfndbAdd db p t := by
  rw [pfndbAdd, Sysboot.pfndbAdd]
  split
  · rfl
  · rw [Traced.res_note_bind, Traced.res_pure]
    split <;> rfl

@[simp] theorem res_pfndbAdds (db : Pfndb) (pfns : List Nat) (t : Nat) :
    (pfndbAdds db pfns t).res = Sysboot.pfndbAdds db pfns t :=
  Traced.res_foldlM (fun db p ↦ res_pfndbAdd db p t) pfns db

/-- The loops over the regions, whatever their pages. -/
theorem res_marks (f : A → List Nat) (g : A → Nat) (es : List A) (db : Pfndb) :
    (es.foldlM (fun db e ↦ pfndbAdds db (f e) (g e)) db).res =
      es.foldlM (fun db e ↦ Sysboot.pfndbAdds db (f e) (g e)) db :=
  Traced.res_foldlM (fun db e ↦ res_pfndbAdds db (f e) (g e)) es db

theorem res_pfndbSetup (stale : Nat → Nat) (n : Nat) :
    (pfndbSetup stale n).res = .ok (Sysboot.pfndbSetup stale n) := rfl

theorem res_pfndbSubst (db : Pfndb) (t t' : Nat) :
    (pfndbSubst db t t').res = .ok (Sysboot.pfndbSubst db t t') := rfl

/-- The marking without the notes. -/
theorem res_sysbootMark (map : List E820e) (ukernEnd : Nat) (stale : Nat → Nat) :
    (sysbootMark map ukernEnd stale).res = Sysboot.sysbootMark map ukernEnd stale := by
  -- the loops after the regions, whatever their pages
  have hlast : ∀ (kernel pfns : List Nat) (t t₁ t₂ : Nat) (db : Pfndb),
      (pfndbSubst db t₁ t₂ >>= fun db ↦ pfndbAdds db kernel t >>= fun db ↦
        pfndbAdds db pfns t).res =
      Sysboot.pfndbAdds (Sysboot.pfndbSubst db t₁ t₂) kernel t >>= fun db ↦
        Sysboot.pfndbAdds db pfns t := by
    intro kernel pfns t t₁ t₂ db
    rw [Traced.res_bind, res_pfndbSubst, Traced.ok_bind, Traced.res_bind, res_pfndbAdds]
    exact bind_congr fun db ↦ res_pfndbAdds db pfns t
  rw [sysbootMark, Sysboot.sysbootMark]
  dsimp only
  split
  · rfl
  · rw [Traced.res_bind, res_pfndbSetup, Traced.ok_bind, Traced.res_bind, res_marks]
    exact bind_congr fun db ↦ hlast _ _ _ _ _ db

/-! ## What the loops look at -/

theorem log_pfndbAdd (db : Pfndb) (p t : Nat) :
    (pfndbAdd db p t).log = if p ≤ db.max then [p] else [] := by
  rw [pfndbAdd]
  split
  · rw [if_neg (Nat.not_le.2 ‹_›)]
    rfl
  · rw [if_pos (Nat.not_lt.1 ‹_›)]
    rfl

theorem pfndbAdd_error (h : db.max < p) (t : Nat) :
    Sysboot.pfndbAdd db p t = .error .pfn := if_pos h

theorem pfndbAdd_returns (h : p ≤ db.max) (t : Nat) :
    ∃ db', Sysboot.pfndbAdd db p t = .ok db' ∧ db'.max = db.max := by
  have hle : ∀ q ∈ [p], q ≤ db.max := fun q hq ↦ (List.mem_singleton.1 hq).symm ▸ h
  obtain ⟨db', h'⟩ := pfndbAdds_returns hle t
  rw [Sysboot.pfndbAdds, List.foldlM_cons] at h'
  obtain ⟨db₁, h₁, h₂⟩ := bind_eq_ok.1 h'
  cases h₂
  exact ⟨db', h₁, (pfndbAdd_ok h₁).1⟩

/-- A loop looks at its pages until one is beyond the database. -/
theorem log_pfndbAdds (pfns : List Nat) (db : Pfndb) (t : Nat) :
    (pfndbAdds db pfns t).log = pfns.takeWhile (· ≤ db.max) := by
  induction pfns generalizing db with
  | nil => rfl
  | cons p pfns ih =>
      rw [pfndbAdds, List.foldlM_cons]
      by_cases hp : p ≤ db.max
      · obtain ⟨db', h', hmax⟩ := pfndbAdd_returns hp t
        rw [List.takeWhile_cons, if_pos (decide_eq_true hp),
          Traced.log_bind ((res_pfndbAdd db p t).trans h'), log_pfndbAdd, if_pos hp]
        show p :: (pfndbAdds db' pfns t).log = _
        rw [ih, hmax]
      · rw [List.takeWhile_cons, if_neg fun h ↦ hp (of_decide_eq_true h),
          Traced.log_bind_error ((res_pfndbAdd db p t).trans
            (pfndbAdd_error (Nat.not_le.1 hp) t)), log_pfndbAdd, if_neg hp]

/-- A loop comes to its end just when its pages are in the database, or the entry after it. -/
theorem pfndbAdds_le (h : Sysboot.pfndbAdds db pfns t = .ok db') : ∀ p ∈ pfns, p ≤ db.max := by
  induction pfns generalizing db with
  | nil => exact fun p hp ↦ absurd hp List.not_mem_nil
  | cons q pfns ih =>
      rw [Sysboot.pfndbAdds, List.foldlM_cons] at h
      obtain ⟨db₁, h₁, h₂⟩ := bind_eq_ok.1 h
      have hq : q ≤ db.max := by
        by_contra hq
        rw [pfndbAdd_error (Nat.not_le.1 hq) t] at h₁
        cases h₁
      intro p hp
      rcases List.mem_cons.1 hp with rfl | hp
      · exact hq
      · exact (pfndbAdd_ok h₁).1 ▸ ih h₂ p hp

theorem marks_le (h : es.foldlM (fun db e ↦ Sysboot.pfndbAdds db (f e) (g e)) db = .ok db') :
    db'.max = db.max ∧ ∀ p ∈ es.flatMap f, p ≤ db.max := by
  induction es generalizing db with
  | nil =>
      cases h
      exact ⟨rfl, fun p hp ↦ absurd hp List.not_mem_nil⟩
  | cons e es ih =>
      rw [List.foldlM_cons] at h
      obtain ⟨db₁, h₁, h₂⟩ := bind_eq_ok.1 h
      have hmax := (pfndbAdds_ok h₁).1
      obtain ⟨hm, hle⟩ := ih h₂
      refine ⟨hm.trans hmax, fun p hp ↦ ?_⟩
      rw [List.flatMap_cons, List.mem_append] at hp
      exact hp.elim (pfndbAdds_le h₁ p) fun hp ↦ hmax ▸ hle p hp

/-- The loops over the regions do so one after the other. -/
theorem log_marks (f : A → List Nat) (g : A → Nat) (es : List A) (db : Pfndb) :
    (es.foldlM (fun db e ↦ pfndbAdds db (f e) (g e)) db).log =
      (es.flatMap f).takeWhile (· ≤ db.max) := by
  induction es generalizing db with
  | nil => rfl
  | cons e es ih =>
      rw [List.foldlM_cons, List.flatMap_cons]
      cases h : Sysboot.pfndbAdds db (f e) (g e) with
      | ok db₁ =>
          have hle := pfndbAdds_le h
          rw [Traced.log_bind ((res_pfndbAdds db (f e) (g e)).trans h), log_pfndbAdds, ih,
            (pfndbAdds_ok h).1, List.takeWhile_append_of_pos fun p hp ↦ decide_eq_true (hle p hp),
            List.takeWhile_eq_self_iff.2 fun p hp ↦ decide_eq_true (hle p hp)]
      | error err =>
          rw [Traced.log_bind_error ((res_pfndbAdds db (f e) (g e)).trans h), log_pfndbAdds,
            List.takeWhile_append, if_neg]
          -- if all the pages had been taken, the loop would have come to its end
          intro hlen
          have hall : ∀ p ∈ f e, p ≤ db.max := by
            have hself := (List.takeWhile_prefix _).eq_of_length hlen
            exact fun p hp ↦ of_decide_eq_true (List.takeWhile_eq_self_iff.1 hself p hp)
          obtain ⟨db₁, h₁⟩ := pfndbAdds_returns hall (g e)
          cases h₁.symm.trans h

/-- The loops over the regions come to their end just when their pages are in the database, or the
entry after it. -/
theorem marks_returns (hle : ∀ p ∈ es.flatMap f, p ≤ db.max) :
    ∃ db', es.foldlM (fun db e ↦ Sysboot.pfndbAdds db (f e) (g e)) db = .ok db' := by
  induction es generalizing db with
  | nil => exact ⟨db, rfl⟩
  | cons e es ih =>
      rw [List.flatMap_cons] at hle
      obtain ⟨db₁, h₁⟩ := pfndbAdds_returns
        (fun p hp ↦ hle p (List.mem_append_left _ hp)) (g e)
      have hle₁ : ∀ p ∈ es.flatMap f, p ≤ db₁.max := fun p hp ↦
        (pfndbAdds_ok h₁).1.symm ▸ hle p (List.mem_append_right _ hp)
      obtain ⟨db', h'⟩ := ih hle₁
      refine ⟨db', ?_⟩
      rw [List.foldlM_cons, h₁]
      exact h'

/-- The loops of the marking come to their end just when all their pages are in the database, or the
entry after it. -/
theorem loops_return_iff (f : A → List Nat) (g : A → Nat) (es : List A) (kernel pfns : List Nat)
    (t t₁ t₂ : Nat) (db : Pfndb) :
    (∃ db', (es.foldlM (fun db e ↦ Sysboot.pfndbAdds db (f e) (g e)) db >>= fun db ↦
      Sysboot.pfndbAdds (Sysboot.pfndbSubst db t₁ t₂) kernel t >>= fun db ↦
        Sysboot.pfndbAdds db pfns t) = .ok db') ↔
      ∀ p ∈ es.flatMap f ++ (kernel ++ pfns), p ≤ db.max := by
  simp only [List.mem_append, or_imp, forall_and]
  constructor
  · rintro ⟨db', h⟩
    obtain ⟨db₁, h₁, h⟩ := bind_eq_ok.1 h
    obtain ⟨db₂, h₂, h₃⟩ := bind_eq_ok.1 h
    obtain ⟨hm₁, hle₁⟩ := marks_le h₁
    have hm₂ : db₂.max = db.max := (pfndbAdds_ok h₂).1.trans hm₁
    exact ⟨hle₁, fun p hp ↦ (pfndbAdds_le h₂ p hp).trans hm₁.le, fun p hp ↦
      (pfndbAdds_le h₃ p hp).trans hm₂.le⟩
  · rintro ⟨hle₁, hle₂, hle₃⟩
    obtain ⟨db₁, h₁⟩ := marks_returns (g := g) hle₁
    have hm₁ : (Sysboot.pfndbSubst db₁ t₁ t₂).max = db.max := (marks_le h₁).1
    obtain ⟨db₂, h₂⟩ := pfndbAdds_returns (fun p hp ↦ (hle₂ p hp).trans hm₁.ge) t
    have hm₂ : db₂.max = db.max := (pfndbAdds_ok h₂).1.trans hm₁
    obtain ⟨db₃, h₃⟩ := pfndbAdds_returns (fun p hp ↦ (hle₃ p hp).trans hm₂.ge) t
    exact ⟨db₃, bind_eq_ok.2 ⟨db₁, h₁, bind_eq_ok.2 ⟨db₂, h₂, h₃⟩⟩⟩

/-! ## Looking beyond the database -/

theorem forall_takeWhile_iff {m : Nat} {l : List Nat} :
    (∀ i ∈ l.takeWhile (· ≤ m), i < m) ↔ m ∉ l.takeWhile (· ≤ m) := by
  constructor
  · exact fun h hm ↦ Nat.lt_irrefl m (h m hm)
  · intro h i hi
    have hle := List.mem_takeWhile_imp (p := fun x ↦ decide (x ≤ m)) hi
    refine lt_of_le_of_ne (of_decide_eq_true hle) ?_
    rintro rfl
    exact h hi

theorem notMem_takeWhile_append {m : Nat} {l l' : List Nat} :
    m ∉ (l ++ l').takeWhile (· ≤ m) ↔
      m ∉ l.takeWhile (· ≤ m) ∧ ((∀ p ∈ l, p ≤ m) → m ∉ l'.takeWhile (· ≤ m)) := by
  by_cases hall : ∀ p ∈ l, p ≤ m
  · have hself : l.takeWhile (· ≤ m) = l :=
      List.takeWhile_eq_self_iff.2 fun p hp ↦ decide_eq_true (hall p hp)
    rw [List.takeWhile_append_of_pos fun p hp ↦ decide_eq_true (hall p hp), List.mem_append, not_or,
      hself]
    exact and_congr_right fun _ ↦ ⟨fun h _ ↦ h, fun h ↦ h hall⟩
  · have hshort : ¬(l.takeWhile (· ≤ m)).length = l.length := fun hlen ↦ by
      have hself := (List.takeWhile_prefix fun x ↦ decide (x ≤ m)).eq_of_length hlen
      exact hall fun p hp ↦ of_decide_eq_true (List.takeWhile_eq_self_iff.1 hself p hp)
    rw [List.takeWhile_append, if_neg hshort]
    exact ⟨fun h ↦ ⟨h, fun ha ↦ absurd ha hall⟩, fun h ↦ h.1⟩

theorem pfndbAdds_inside_iff (db : Pfndb) (pfns : List Nat) (t : Nat) :
    Traced.Within (· < db.max) (pfndbAdds db pfns t) ↔
      db.max ∉ pfns.takeWhile (· ≤ db.max) := by
  rw [Traced.Within, log_pfndbAdds]
  exact forall_takeWhile_iff

/-- The last two loops. -/
theorem kernel_inside_iff (db : Pfndb) (kernel pfns : List Nat) (t : Nat) :
    Traced.Within (· < db.max) (pfndbAdds db kernel t >>= fun db ↦ pfndbAdds db pfns t) ↔
      db.max ∉ (kernel ++ pfns).takeWhile (· ≤ db.max) := by
  rw [Traced.within_bind_iff, pfndbAdds_inside_iff, notMem_takeWhile_append]
  refine and_congr_right fun _ ↦ ⟨fun h hall ↦ ?_, fun h db' h' ↦ ?_⟩
  · obtain ⟨db', h'⟩ := pfndbAdds_returns hall t
    have hin := h db' ((res_pfndbAdds db kernel t).trans h')
    rwa [← (pfndbAdds_ok h').1, pfndbAdds_inside_iff, (pfndbAdds_ok h').1] at hin
  · rw [res_pfndbAdds] at h'
    rw [← (pfndbAdds_ok h').1, pfndbAdds_inside_iff, (pfndbAdds_ok h').1]
    exact h (pfndbAdds_le h')

/-- The loops of the marking look beyond the database just when they come to the page after it. -/
theorem loops_inside_iff (f : A → List Nat) (g : A → Nat) (es : List A) (kernel pfns : List Nat)
    (t t₁ t₂ : Nat) (db : Pfndb) :
    Traced.Within (· < db.max)
      (es.foldlM (fun db e ↦ pfndbAdds db (f e) (g e)) db >>= fun db ↦
        pfndbSubst db t₁ t₂ >>= fun db ↦ pfndbAdds db kernel t >>= fun db ↦
          pfndbAdds db pfns t) ↔
      db.max ∉ (es.flatMap f ++ (kernel ++ pfns)).takeWhile (· ≤ db.max) := by
  have hmarks : Traced.Within (· < db.max)
      (es.foldlM (fun db e ↦ pfndbAdds db (f e) (g e)) db) ↔
        db.max ∉ (es.flatMap f).takeWhile (· ≤ db.max) := by
    rw [Traced.Within, log_marks]
    exact forall_takeWhile_iff
  -- what the loops look at after those over the regions
  have hlast : ∀ db₁ : Pfndb, db₁.max = db.max →
      (Traced.Within (· < db.max) (pfndbSubst db₁ t₁ t₂ >>= fun db ↦
        pfndbAdds db kernel t >>= fun db ↦ pfndbAdds db pfns t) ↔
      db.max ∉ (kernel ++ pfns).takeWhile (· ≤ db.max)) := by
    intro db₁ hm
    have hsub : (Sysboot.pfndbSubst db₁ t₁ t₂).max = db₁.max := rfl
    have hnote : Traced.Within (· < db₁.max) (pfndbSubst db₁ t₁ t₂) :=
      Traced.Within.note_bind (fun i hi ↦ List.mem_range.1 hi) Traced.Within.pure
    have hkernel := kernel_inside_iff (Sysboot.pfndbSubst db₁ t₁ t₂) kernel pfns t
    rw [hsub] at hkernel
    rw [← hm, Traced.within_bind_iff, ← hkernel]
    refine ⟨fun h ↦ h.2 _ (res_pfndbSubst db₁ t₁ t₂), fun h ↦ ⟨hnote, fun db₂ h₂ ↦ ?_⟩⟩
    rwa [← Except.ok.inj ((res_pfndbSubst db₁ t₁ t₂).symm.trans h₂)]
  rw [notMem_takeWhile_append, Traced.within_bind_iff, hmarks]
  refine and_congr_right fun _ ↦ ⟨fun h hall ↦ ?_, fun h db₁ h₁ ↦ ?_⟩
  · obtain ⟨db₁, h₁⟩ := marks_returns hall
    exact (hlast db₁ (marks_le h₁).1).1 (h db₁ ((res_marks f g es db).trans h₁))
  · rw [res_marks] at h₁
    obtain ⟨hm, hle⟩ := marks_le h₁
    exact (hlast db₁ hm).2 (h hle)

end Mh.Sysboot.Touch
