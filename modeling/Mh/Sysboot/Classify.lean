import Mh.Sysboot.Model
import Mh.Lib.Run

/-!
# What the marking makes of the firmware's map

Marks are joined by a maximum, so the types after the marking are known by their lower bounds: one
lemma for a loop of marks (`pfndbAdds_ok`), one for the map (`marks_ok`), and from them the types of
the pages (`sysbootMark_type`).

The outcome is right exactly when the map keeps two promises (`sysboot_classifies_iff`): the pages
of the kernel and of the database are reached by regions of memory, and by no other; and every other
page that is reached by regions of memory only is full of memory.  Firmware keeps neither: the first
two megabytes, which hold the beginning of the kernel, always have reserved regions in them.
-/

namespace Mh.Sysboot

open Mh.Lib

variable {db db' : Pfndb} {map : List E820e} {ukernEnd p t : Nat} {stale : Nat → Nat}

/-! ## Marks -/

theorem pfndbAdd_ok {pfn : Nat} (h : pfndbAdd db pfn t = .ok db') :
    db'.max = db.max ∧ ∀ p u, u ≤ db'.type p ↔ u ≤ db.type p ∨ p = pfn ∧ u ≤ t := by
  rw [pfndbAdd] at h
  split at h
  · cases h
  · split at h
    · rename_i hlt
      cases h
      refine ⟨rfl, fun p u ↦ ⟨.inl, ?_⟩⟩
      rintro (hu | ⟨rfl, hu⟩)
      · exact hu
      · exact hu.trans hlt.le
    · rename_i hle
      cases h
      refine ⟨rfl, fun p u ↦ ?_⟩
      show u ≤ Function.update db.type pfn t p ↔ _
      by_cases hp : p = pfn
      · subst hp
        rw [Function.update_self]
        exact ⟨fun hu ↦ .inr ⟨rfl, hu⟩,
          fun hu ↦ hu.elim (fun hu ↦ hu.trans (Nat.not_lt.1 hle)) fun hu ↦ hu.2⟩
      · rw [Function.update_of_ne hp]
        exact ⟨.inl, fun hu ↦ hu.elim (fun hu ↦ hu) fun hu ↦ absurd hu.1 hp⟩

/-- A loop of marks of one type. -/
theorem pfndbAdds_ok {pfns : List Nat} (h : pfndbAdds db pfns t = .ok db') :
    db'.max = db.max ∧ ∀ p u, u ≤ db'.type p ↔ u ≤ db.type p ∨ p ∈ pfns ∧ u ≤ t := by
  induction pfns generalizing db with
  | nil =>
      cases h
      exact ⟨rfl, fun p u ↦ ⟨.inl, fun hu ↦ hu.elim (fun hu ↦ hu) fun hu ↦ absurd hu.1 (by simp)⟩⟩
  | cons pfn pfns ih =>
      rw [pfndbAdds, List.foldlM_cons, bind_eq_ok] at h
      obtain ⟨db₁, h₁, h⟩ := h
      obtain ⟨hm₁, ht₁⟩ := pfndbAdd_ok h₁
      obtain ⟨hm, ht⟩ := ih h
      refine ⟨hm.trans hm₁, fun p u ↦ ?_⟩
      rw [ht, ht₁, List.mem_cons, or_and_right, or_assoc]

/-- A loop of marks does not stop at pages of the database. -/
theorem pfndbAdds_returns {pfns : List Nat} (hle : ∀ pfn ∈ pfns, pfn ≤ db.max) (t : Nat) :
    ∃ db', pfndbAdds db pfns t = .ok db' := by
  induction pfns generalizing db with
  | nil => exact ⟨db, rfl⟩
  | cons pfn pfns ih =>
      obtain ⟨db₁, h₁⟩ : ∃ db₁, pfndbAdd db pfn t = .ok db₁ := by
        rw [pfndbAdd, if_neg (Nat.not_lt.2 (hle pfn List.mem_cons_self))]
        split
        · exact ⟨_, rfl⟩
        · exact ⟨_, rfl⟩
      have hm₁ := (pfndbAdd_ok h₁).1
      obtain ⟨db', h'⟩ : ∃ db', pfndbAdds db₁ pfns t = .ok db' :=
        ih fun q hq ↦ hm₁ ▸ hle q (List.mem_cons_of_mem pfn hq)
      exact ⟨db', by rw [pfndbAdds, List.foldlM_cons, h₁]; exact h'⟩

/-- The marks of the regions. -/
theorem marks_ok {es : List E820e}
    (h : es.foldlM (fun db e ↦ pfndbAdds db e.pfns e.pfnt) db = .ok db') :
    db'.max = db.max ∧
      ∀ p u, u ≤ db'.type p ↔ u ≤ db.type p ∨ ∃ e ∈ es, p ∈ e.pfns ∧ u ≤ e.pfnt := by
  induction es generalizing db with
  | nil =>
      cases h
      exact ⟨rfl, fun p u ↦ ⟨.inl, fun hu ↦ hu.elim (fun hu ↦ hu) (by simp)⟩⟩
  | cons e es ih =>
      rw [List.foldlM_cons, bind_eq_ok] at h
      obtain ⟨db₁, h₁, h⟩ := h
      obtain ⟨hm₁, ht₁⟩ := pfndbAdds_ok h₁
      obtain ⟨hm, ht⟩ := ih h
      refine ⟨hm.trans hm₁, fun p u ↦ ?_⟩
      rw [ht, ht₁, or_assoc, List.exists_mem_cons_iff]

/-! ## The types after the marking -/

/-- Some region of memory reaches the page. -/
def IsMemory (map : List E820e) (p : Nat) : Prop := ∃ e ∈ e820Foreach map, e.type = 1 ∧ p ∈ e.pfns

/-- Some region that is not memory reaches the page. -/
def IsOther (map : List E820e) (p : Nat) : Prop := ∃ e ∈ e820Foreach map, e.type ≠ 1 ∧ p ∈ e.pfns

/-- The page is marked for the kernel or for the database. -/
def IsSystem (ukernEnd max p : Nat) : Prop := p ∈ kernelPfns ukernEnd ∨ p ∈ pfndbPfns ukernEnd max

/-- The types that the map gives, by their lower bounds. -/
theorem le_pfnt_iff {u : Nat} : (∃ e ∈ e820Foreach map, p ∈ e.pfns ∧ u ≤ e.pfnt) ↔
    IsMemory map p ∧ u ≤ pfntFree ∨ IsOther map p ∧ u ≤ pfntMmio := by
  constructor
  · rintro ⟨e, he, hp, hu⟩
    by_cases h1 : e.type = 1
    · rw [E820e.pfnt, if_pos h1] at hu
      exact .inl ⟨⟨e, he, h1, hp⟩, hu⟩
    · rw [E820e.pfnt, if_neg h1] at hu
      exact .inr ⟨⟨e, he, h1, hp⟩, hu⟩
  · rintro (⟨⟨e, he, h1, hp⟩, hu⟩ | ⟨⟨e, he, h1, hp⟩, hu⟩)
    · exact ⟨e, he, hp, by rwa [E820e.pfnt, if_pos h1]⟩
    · exact ⟨e, he, hp, by rwa [E820e.pfnt, if_neg h1]⟩

/-- The type of a page after the map has been gone through, and what nothing has marked has been
made I/O memory. -/
theorem sysbootMark_ok (h : sysbootMark map ukernEnd stale = .ok db) :
    lpfndb ukernEnd db.max ≤ 2 ^ 32 ∧ db.max = pfnMaxaddr map ∧
      ∃ ty : Nat → Nat,
        (∀ p u, u ≤ ty p ↔ u ≤ (pfndbSetup stale db.max).type p ∨
          IsMemory map p ∧ u ≤ pfntFree ∨ IsOther map p ∧ u ≤ pfntMmio) ∧
        ∀ p u, u ≤ db.type p ↔
          u ≤ (if p < db.max ∧ ty p = pfntInvalid then pfntMmio else ty p) ∨
          IsSystem ukernEnd db.max p ∧ u ≤ pfntSystem := by
  rw [sysbootMark] at h
  simp only at h
  split at h
  · cases h
  · rename_i hfit
    simp only [bind_eq_ok] at h
    obtain ⟨db₁, h₁, db₂, h₂, h₃⟩ := h
    obtain ⟨hm₁, ht₁⟩ := marks_ok h₁
    obtain ⟨hm₂, ht₂⟩ := pfndbAdds_ok h₂
    obtain ⟨hm₃, ht₃⟩ := pfndbAdds_ok h₃
    have hmax₁ : db₁.max = pfnMaxaddr map := hm₁
    have hmax₂ : db₂.max = pfnMaxaddr map := hm₂.trans hmax₁
    have hmax : db.max = pfnMaxaddr map := hm₃.trans hmax₂
    rw [← hmax] at hfit h₁ ht₁ ht₃
    refine ⟨Nat.not_lt.1 hfit, hmax, db₁.type, fun p u ↦ ?_, fun p u ↦ ?_⟩
    · rw [ht₁, le_pfnt_iff]
    · rw [ht₃, ht₂, hmax, ← hmax₁, or_assoc, ← or_and_right]
      exact Iff.rfl

/-- The pages that are left free: those that only regions of memory reach, and no kernel.  The entry
after the last one keeps the byte it had, if that is larger. -/
def LeftFree (map : List E820e) (ukernEnd : Nat) (stale : Nat → Nat) (p : Nat) : Prop :=
  ¬IsSystem ukernEnd (pfnMaxaddr map) p ∧ ¬IsOther map p ∧
    if p < pfnMaxaddr map then IsMemory map p
    else stale p = pfntFree ∨ stale p < pfntFree ∧ IsMemory map p

/-- Marking a page for the kernel makes it a system page: it must be memory, as holes are I/O
memory by then. -/
def LeftSystem (map : List E820e) (stale : Nat → Nat) (p : Nat) : Prop :=
  ¬IsOther map p ∧ if p < pfnMaxaddr map then IsMemory map p else stale p ≤ pfntSystem

/-- The type of a page below the last, by what has marked it. -/
theorem type_of_lt (h : sysbootMark map ukernEnd stale = .ok db) (hp : p < db.max) (u : Nat) :
    u ≤ db.type p ↔ u ≤ pfntFree ∧ IsMemory map p ∨
      u ≤ pfntMmio ∧ (IsOther map p ∨ ¬IsMemory map p) ∨
      u ≤ pfntSystem ∧ IsSystem ukernEnd db.max p := by
  obtain ⟨-, -, ty, hty, hdb⟩ := sysbootMark_ok h
  have hinit : (pfndbSetup stale db.max).type p = 0 := if_pos hp
  have hzero : ty p = 0 ↔ ¬IsMemory map p ∧ ¬IsOther map p := by
    have h1 := hty p 1
    rw [hinit] at h1
    constructor
    · intro h0
      have hn : ¬1 ≤ ty p := by omega
      rw [h1] at hn
      exact ⟨fun hm ↦ hn (.inr (.inl ⟨hm, by decide⟩)), fun ho ↦ hn (.inr (.inr ⟨ho, by decide⟩))⟩
    · rintro ⟨hm, ho⟩
      by_contra h0
      rcases h1.1 (Nat.pos_of_ne_zero h0) with hlt | hm' | ho'
      · exact absurd hlt (by decide)
      · exact hm hm'.1
      · exact ho ho'.1
  have hu := hty p u
  rw [hinit] at hu
  rw [hdb]
  by_cases h0 : ty p = pfntInvalid
  · rw [if_pos ⟨hp, h0⟩]
    obtain ⟨hm, ho⟩ := hzero.1 h0
    simp only [hm, ho, not_false_eq_true, or_true, and_true, and_false, false_or]
    exact or_congr_right and_comm
  · rw [if_neg fun hc ↦ h0 hc.2, hu]
    have hsome : IsMemory map p ∨ IsOther map p := by
      by_contra hno
      exact h0 (hzero.2 (not_or.1 hno))
    by_cases hm : IsMemory map p <;> by_cases ho : IsOther map p <;>
      by_cases hs : IsSystem ukernEnd db.max p <;>
      simp only [hm, ho, hs, pfntFree, pfntMmio, pfntSystem, true_and, and_true, false_and,
        and_false, or_false, false_or, or_self, not_true_eq_false,
        not_false_eq_true] at hsome ⊢ <;>
      omega

/-- The type of the entry after the last one. -/
theorem type_of_ge (h : sysbootMark map ukernEnd stale = .ok db) (hp : db.max ≤ p) (u : Nat) :
    u ≤ db.type p ↔ u ≤ stale p ∨ u ≤ pfntFree ∧ IsMemory map p ∨ u ≤ pfntMmio ∧ IsOther map p ∨
      u ≤ pfntSystem ∧ IsSystem ukernEnd db.max p := by
  obtain ⟨-, -, ty, hty, hdb⟩ := sysbootMark_ok h
  have hinit : (pfndbSetup stale db.max).type p = stale p := if_neg (Nat.not_lt.2 hp)
  rw [hdb, if_neg fun hc ↦ Nat.not_lt.2 hp hc.1, hty, hinit, or_assoc, or_assoc]
  refine or_congr_right (or_congr and_comm (or_congr and_comm and_comm))

theorem eq_free_iff {n : Nat} : n = pfntFree ↔ pfntFree ≤ n ∧ ¬pfntSystem ≤ n := by
  rw [pfntFree, pfntSystem]
  omega

theorem eq_system_iff {n : Nat} : n = pfntSystem ↔ pfntSystem ≤ n ∧ ¬pfntMmio ≤ n := by
  rw [pfntSystem, pfntMmio]
  omega

/-- Which pages are free after the marking. -/
theorem type_eq_free (h : sysbootMark map ukernEnd stale = .ok db) :
    db.type p = pfntFree ↔ LeftFree map ukernEnd stale p := by
  have hmax := (sysbootMark_ok h).2.1
  have h₁ : pfntSystem ≤ pfntFree ↔ False := by decide
  have h₂ : pfntSystem ≤ pfntMmio ↔ True := by decide
  have h₃ : pfntFree ≤ pfntMmio ↔ True := by decide
  have h₄ : pfntFree ≤ pfntSystem ↔ True := by decide
  rw [LeftFree, ← hmax, eq_free_iff]
  by_cases hp : p < db.max
  · rw [type_of_lt h hp, type_of_lt h hp, if_pos hp]
    simp only [h₁, h₂, h₃, h₄, le_refl, true_and, false_and, false_or]
    grind
  · have hst : stale p = pfntFree ∨ stale p < pfntFree ↔ ¬pfntSystem ≤ stale p := by
      rw [pfntFree, pfntSystem]
      omega
    have hge : pfntFree ≤ stale p ↔ ¬stale p < pfntFree := Nat.not_lt.symm
    have heq : stale p = pfntFree → ¬stale p < pfntFree := fun he ↦ Nat.not_lt.2 he.ge
    rw [type_of_ge h (Nat.not_lt.1 hp), type_of_ge h (Nat.not_lt.1 hp), if_neg hp]
    simp only [h₁, h₂, h₃, h₄, le_refl, true_and, false_and, false_or]
    grind

/-- Which of the pages marked for the kernel are system pages after the marking. -/
theorem type_eq_system (h : sysbootMark map ukernEnd stale = .ok db)
    (hs : IsSystem ukernEnd db.max p) : db.type p = pfntSystem ↔ LeftSystem map stale p := by
  have hmax := (sysbootMark_ok h).2.1
  have h₁ : pfntMmio ≤ pfntFree ↔ False := by decide
  have h₂ : pfntMmio ≤ pfntSystem ↔ False := by decide
  rw [LeftSystem, ← hmax, eq_system_iff]
  by_cases hp : p < db.max
  · rw [type_of_lt h hp, type_of_lt h hp, if_pos hp]
    simp only [h₁, h₂, hs, le_refl, true_and, and_true, false_and, false_or, or_false, or_true]
    grind
  · have hst : stale p ≤ pfntSystem ↔ ¬pfntMmio ≤ stale p := by
      rw [pfntMmio, pfntSystem]
      omega
    rw [type_of_ge h (Nat.not_lt.1 hp), type_of_ge h (Nat.not_lt.1 hp), if_neg hp]
    simp only [h₁, h₂, hs, hst, le_refl, true_and, and_true, false_and, false_or, or_false, or_true]
    grind

/-! ## The pages of the kernel -/

/-- The two loops reach every page that holds a byte of the kernel or of the database. -/
theorem isSystem_of_byte {max x : Nat} (hfit : lpfndb ukernEnd max ≤ 2 ^ 32)
    (hx : KernelByte ukernEnd x ∨ PfndbByte ukernEnd max x) :
    IsSystem ukernEnd max (x / pageSize) := by
  rw [lpfndb, ukernPfndb] at hfit
  rcases hx with ⟨-, hx⟩ | ⟨hlo, hhi⟩
  · left
    rw [kernelPfns, List.mem_range, roundPage, w32]
    simp only [truncPage, pageSize, pageShift, ukernBase] at hx ⊢
    omega
  · right
    rw [pfndbPfns, List.mem_range'_1]
    simp only [truncPage, pageSize, pageShift] at hlo hhi ⊢
    have h1 := Nat.div_le_div_right (c := 2 ^ 21) hlo
    have h2 := Nat.div_le_div_right (c := 2 ^ 21) hhi.le
    rw [Nat.mul_div_cancel _ (Nat.two_pow_pos 21)]
    omega

/-! ## Marking comes to its end -/

section Returns

variable {e : E820e}

theorem toInt_of_lt {n : Nat} (h : n < 2 ^ 31) : toInt n = (n : Int) := by
  have hw : w32 n = n := Nat.mod_eq_of_lt (by omega)
  rw [toInt, hw, if_pos h]

/-- The pages of a region that ends below 2 ^ 52. -/
theorem E820e.mem_pfns (h : e.addr + e.len < 2 ^ 52 - pageSize) :
    p ∈ e.pfns ↔ e.addr / pageSize ≤ p ∧ p < (e.addr + e.len + (pageSize - 1)) / pageSize := by
  simp only [pageSize, pageShift] at h ⊢
  have hf : e.first = ((e.addr / 2 ^ 21 : Nat) : Int) := toInt_of_lt (by
    simp only [pageSize, pageShift]
    omega)
  have hl : e.last = (((e.addr + e.len + (2 ^ 21 - 1)) / 2 ^ 21 : Nat) : Int) := by
    rw [E820e.last, w64, w64, Nat.mod_eq_of_lt (by omega : e.addr + e.len < 2 ^ 64)]
    simp only [pageSize, pageShift]
    rw [Nat.mod_eq_of_lt (by omega)]
    exact toInt_of_lt (by omega)
  rw [E820e.pfns, List.mem_map, hf, hl]
  constructor
  · rintro ⟨i, hi, rfl⟩
    rw [List.mem_range] at hi
    rw [ofInt]
    omega
  · rintro ⟨hlo, hhi⟩
    refine ⟨p - e.addr / 2 ^ 21, List.mem_range.2 (by omega), ?_⟩
    rw [ofInt]
    omega

/-- The search for the largest page number goes up. -/
theorem maxaddr_ge (es : List E820e) (hlt : ∀ e ∈ es, e.lpfn < 2 ^ 32) (m : Nat) :
    m ≤ es.foldl (fun m p ↦ if m < p.lpfn then w32 p.lpfn else m) m ∧
      ∀ e ∈ es, e.lpfn ≤ es.foldl (fun m p ↦ if m < p.lpfn then w32 p.lpfn else m) m := by
  induction es generalizing m with
  | nil => exact ⟨le_rfl, by simp⟩
  | cons e es ih =>
      have hw : w32 e.lpfn = e.lpfn := Nat.mod_eq_of_lt (hlt e List.mem_cons_self)
      obtain ⟨h1, h2⟩ := ih (fun e he ↦ hlt e (List.mem_cons_of_mem _ he))
        (if m < e.lpfn then w32 e.lpfn else m)
      rw [List.foldl_cons]
      have hm : m ≤ (if m < e.lpfn then w32 e.lpfn else m) ∧
          e.lpfn ≤ (if m < e.lpfn then w32 e.lpfn else m) := by
        split
        · rw [hw]
          omega
        · omega
      refine ⟨hm.1.trans h1, fun e' he' ↦ ?_⟩
      rcases List.mem_cons.1 he' with rfl | he'
      · exact hm.2.trans h1
      · exact h2 e' he'

/-- Marking comes to its end, if the regions end below 2 ^ 52 and there is place for the database
after the kernel. -/
theorem sysbootMark_returns (hend : ∀ e ∈ e820Foreach map, e.addr + e.len < 2 ^ 52 - pageSize)
    (hfit : lpfndb ukernEnd (pfnMaxaddr map) ≤ 2 ^ 32)
    (stale : Nat → Nat) : ∃ db, sysbootMark map ukernEnd stale = .ok db := by
  have hlpfn : ∀ e ∈ e820Foreach map, e.lpfn = (e.addr + e.len) / pageSize ∧ e.lpfn < 2 ^ 32 := by
    intro e he
    have hlt := hend e he
    simp only [pageSize, pageShift] at hlt
    rw [E820e.lpfn, w64, Nat.mod_eq_of_lt (by omega)]
    refine ⟨rfl, ?_⟩
    simp only [pageSize, pageShift]
    omega
  obtain ⟨hge, hges⟩ := maxaddr_ge (e820Foreach map) (fun e he ↦ (hlpfn e he).2)
    (0xffffffff / pageSize)
  have hmax : 2047 ≤ pfnMaxaddr map := hge
  have hpfns : ∀ e ∈ e820Foreach map, ∀ p ∈ e.pfns, p ≤ pfnMaxaddr map := by
    intro e he p hp
    have hle : e.lpfn ≤ pfnMaxaddr map := hges e he
    rw [E820e.mem_pfns (hend e he)] at hp
    rw [(hlpfn e he).1] at hle
    simp only [pageSize, pageShift] at hp hle
    omega
  -- the regions, each loop over pages of the database
  obtain ⟨db₁, h₁⟩ : ∃ db₁, (e820Foreach map).foldlM (fun db e ↦ pfndbAdds db e.pfns e.pfnt)
      (pfndbSetup stale (pfnMaxaddr map)) = .ok db₁ := by
    generalize hdb : pfndbSetup stale (pfnMaxaddr map) = db
    have hm : db.max = pfnMaxaddr map := hdb ▸ rfl
    clear hdb
    generalize e820Foreach map = es at hpfns
    revert db
    induction es with
    | nil => exact fun db _ ↦ ⟨db, rfl⟩
    | cons e es ih =>
        intro db hm
        obtain ⟨db', h'⟩ := pfndbAdds_returns
          (fun p hp ↦ hm ▸ hpfns e List.mem_cons_self p hp) e.pfnt
        obtain ⟨db₁, h₁⟩ := ih (fun e' he' ↦ hpfns e' (List.mem_cons_of_mem _ he')) db'
          ((pfndbAdds_ok h').1.trans hm)
        exact ⟨db₁, by rw [List.foldlM_cons, h']; exact h₁⟩
  have hm₁ : db₁.max = pfnMaxaddr map := (marks_ok h₁).1
  obtain ⟨db₂, h₂⟩ : ∃ db₂, pfndbAdds (pfndbSubst db₁ pfntInvalid pfntMmio) (kernelPfns ukernEnd)
      pfntSystem = .ok db₂ :=
    pfndbAdds_returns (fun q hq ↦ by
      rw [kernelPfns, List.mem_range, roundPage, truncPage, w32] at hq
      have hmk : (pfndbSubst db₁ pfntInvalid pfntMmio).max = pfnMaxaddr map := hm₁
      rw [hmk]
      simp only [pageSize, pageShift] at hq
      omega) pfntSystem
  have hm₂ : db₂.max = pfnMaxaddr map := (pfndbAdds_ok h₂).1.trans hm₁
  obtain ⟨db₃, h₃⟩ : ∃ db₃, pfndbAdds db₂ (pfndbPfns ukernEnd (pfnMaxaddr map)) pfntSystem =
      .ok db₃ :=
    pfndbAdds_returns (fun q hq ↦ by
      rw [pfndbPfns, List.mem_range'_1, truncPage] at hq
      rw [hm₂]
      simp only [pageSize, pageShift, ukernBase] at hq
      omega) pfntSystem
  refine ⟨db₃, ?_⟩
  rw [sysbootMark]
  simp only
  rw [if_neg (Nat.not_lt.2 hfit), h₁]
  simp only [bind_eq_ok]
  exact ⟨_, rfl, _, h₂, h₃⟩

end Returns

/-! ## The promise of the map -/

/-- What a map has to promise: the pages of the kernel and of the database are reached by regions of
memory and by no other, and the other pages that only regions of memory reach are full of memory and
of nothing else. -/
structure ClassSafe (map : List E820e) (ukernEnd : Nat) (stale : Nat → Nat) : Prop where
  system : ∀ x, KernelByte ukernEnd x ∨ PfndbByte ukernEnd (pfnMaxaddr map) x →
    LeftSystem map stale (x / pageSize)
  free : ∀ p ≤ pfnMaxaddr map, LeftFree map ukernEnd stale p → ∀ x, x / pageSize = p →
    (∃ e ∈ e820Foreach map, e.type = 1 ∧ e.Has x) ∧ ∀ e ∈ e820Foreach map, e.type ≠ 1 → ¬e.Has x

/-- When the marking classifies the pages: for every map, every kernel and every byte left in the
entry after the last one. -/
theorem sysboot_classifies_iff (map : List E820e) (ukernEnd : Nat) (stale : Nat → Nat) (db : Pfndb)
    (hret : sysbootMark map ukernEnd stale = .ok db) :
    Classified map ukernEnd db ↔ ClassSafe map ukernEnd stale := by
  obtain ⟨hfit, hmax, -⟩ := sysbootMark_ok hret
  constructor
  · intro hc
    refine ⟨fun x hx ↦ ?_, fun p hp hl x hx ↦ ?_⟩
    · rw [← hmax] at hx
      exact (type_eq_system hret (isSystem_of_byte hfit hx)).1 (hc.system x hx)
    · obtain ⟨h1, h2, -⟩ := hc.free p (hmax ▸ hp) ((type_eq_free hret).2 hl) x hx
      exact ⟨h1, h2⟩
  · intro hs
    refine ⟨fun p hp hfree x hx ↦ ?_, fun x hx ↦ ?_⟩
    · have hl := (type_eq_free hret).1 hfree
      obtain ⟨h1, h2⟩ := hs.free p (hmax ▸ hp) hl x hx
      have hno : ¬(KernelByte ukernEnd x ∨ PfndbByte ukernEnd db.max x) := fun hb ↦ by
        have hsys := isSystem_of_byte hfit hb
        rw [hx, hmax] at hsys
        exact hl.1 hsys
      exact ⟨h1, h2, not_or.1 hno⟩
    · exact (type_eq_system hret (isSystem_of_byte hfit hx)).2 (hs.system x (hmax ▸ hx))

/-- The map of a small machine: a hole below the firmware's ROM, and 127 megabytes and a half of
memory after it. -/
def pcMap : List E820e :=
  [⟨0, 0x9fc00, 1⟩, ⟨0x9fc00, 0x400, 2⟩, ⟨0xf0000, 0x10000, 2⟩, ⟨0x100000, 0x7ef0000, 1⟩]

theorem sysbootMark_pcMap :
    ∃ db, sysbootMark pcMap 0xc0400000 (fun _ ↦ 0) = .ok db :=
  sysbootMark_returns (by decide) (by decide) _

theorem sysboot_classifies_pcMap :
    ∃ db, sysbootMark pcMap 0xc0400000 (fun _ ↦ 0) = .ok db ∧
      (Classified pcMap 0xc0400000 db ↔ ClassSafe pcMap 0xc0400000 fun _ ↦ 0) := by
  obtain ⟨db, h⟩ := sysbootMark_pcMap
  exact ⟨db, h, sysboot_classifies_iff pcMap 0xc0400000 (fun _ ↦ 0) db h⟩

/-- The page that holds the first megabyte of the kernel stays I/O memory, and the last page of the
memory is free although its last bytes are not there. -/
theorem sysboot_misclassifies : ∃ db, sysbootMark pcMap 0xc0400000 (fun _ ↦ 0) = .ok db ∧
    KernelByte 0xc0400000 0x100000 ∧ pfnIsMmio db (0x100000 / pageSize) ∧
    pfnIsFree db (0x7ffffff / pageSize) ∧ (∀ e ∈ e820Foreach pcMap, ¬e.Has 0x7ffffff) ∧
    ¬Classified pcMap 0xc0400000 db := by
  obtain ⟨db, h⟩ := sysbootMark_pcMap
  have hmax : db.max = 2047 := (sysbootMark_ok h).2.1.trans (by decide)
  have hother : IsOther pcMap 0 := ⟨⟨0x9fc00, 0x400, 2⟩, by decide, by decide, by decide⟩
  have hmmio : db.type 0 = pfntMmio := by
    refine le_antisymm ?_ ((type_of_lt h (by omega) _).2 (.inr (.inl ⟨le_rfl, .inl hother⟩)))
    by_contra hlt
    rcases (type_of_lt h (by omega) 10).1 (Nat.not_le.1 hlt) with hu | hu | hu
    · exact absurd hu.1 (by decide)
    · exact absurd hu.1 (by decide)
    · exact absurd hu.1 (by decide)
  have hfree : db.type 63 = pfntFree := by
    refine (type_eq_free h).2 ⟨?_, ?_, ?_⟩
    · rw [IsSystem]
      decide
    · rw [IsOther]
      decide
    · exact ⟨⟨0x100000, 0x7ef0000, 1⟩, by decide, by decide, by decide⟩
  have hbyte : KernelByte 0xc0400000 0x100000 := by
    rw [KernelByte]
    decide
  refine ⟨db, h, hbyte, beq_iff_eq.2 hmmio, beq_iff_eq.2 hfree, ?_, fun hc ↦ ?_⟩
  · simp only [E820e.Has]
    decide
  · exact absurd (hmmio.symm.trans (hc.system 0x100000 (.inl hbyte))) (by decide)

end Mh.Sysboot
