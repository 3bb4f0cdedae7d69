import Mathlib.Data.Fintype.Card
import Mathlib.Data.Fintype.EquivFin
import Mathlib.Data.List.Nodup
import Mathlib.Data.List.Pairwise
import Mathlib.Logic.Relation

/-!
# Tours that keep no record

A tour goes through the things at a place, one after the other, and where one of them leads on to
another place it goes through that before it comes back.  It keeps no record of where it has been.

It comes to an end with no thing visited twice if and only if the places it gets to form a tree, as
far as there is something at them (`Tour.ends_iff`): nothing leads back to where it started, and no
two things lead to one place.
-/

universe u v

namespace Mh.Lib

open Relation

/-- A loop that appends something for each element of a list, if each of its steps succeeds. -/
theorem foldlM_append_eq_some {α : Type u} {E : Type v} {step : List E → α → Option (List E)}
    {D : α → Prop} {out : α → List E} {l : List α}
    (hstep : ∀ x ∈ l, ∀ s r, step s x = some r ↔ D x ∧ r = s ++ out x) {s r : List E} :
    l.foldlM step s = some r ↔ (∀ x ∈ l, D x) ∧ r = s ++ l.flatMap out := by
  induction l generalizing s with
  | nil =>
    rw [List.flatMap_nil, List.append_nil]
    constructor
    · intro h
      exact ⟨fun _ hx ↦ (List.not_mem_nil hx).elim, (Option.some.inj h).symm⟩
    · rintro ⟨-, rfl⟩
      rfl
  | cons x l ih =>
    have hx := hstep x List.mem_cons_self
    rw [List.foldlM_cons, Option.bind_eq_bind, Option.bind_eq_some_iff, List.flatMap_cons,
      ← List.append_assoc, List.forall_mem_cons]
    constructor
    · rintro ⟨m, hm, hr⟩
      obtain ⟨hd, rfl⟩ := (hx s m).1 hm
      obtain ⟨hall, rfl⟩ := (ih fun y hy ↦ hstep y (List.mem_cons_of_mem x hy)).1 hr
      exact ⟨⟨hd, hall⟩, rfl⟩
    · rintro ⟨⟨hd, hall⟩, rfl⟩
      exact ⟨s ++ out x, (hx s _).2 ⟨hd, rfl⟩,
        (ih fun y hy ↦ hstep y (List.mem_cons_of_mem x hy)).2 ⟨hall, rfl⟩⟩

/-- Things at places, some of which lead on to a place. -/
structure Tour (B : Type u) (E : Type v) where
  items : B → List E
  next : E → Option B
  place : E → B
  place_of_mem : ∀ {b : B} {e : E}, e ∈ items b → place e = b
  nodup : ∀ b, (items b).Nodup

namespace Tour

variable {B : Type u} {E : Type v} (t : Tour B E)

/-- The thing `e` at `b` leads on to `c`. -/
def Door (e : E) (b c : B) : Prop := e ∈ t.items b ∧ t.next e = some c

/-- Something at `b` leads on to `c`. -/
def Leads (b c : B) : Prop := ∃ e, t.Door e b c

/-- A tour from `b` comes to an end within `n` levels. -/
def Depth : Nat → B → Prop
  | 0, _ => False
  | n + 1, b => ∀ e c, t.Door e b c → Depth n c

/-- What a tour visits in `n` levels. -/
def visits : Nat → B → List E
  | 0, _ => []
  | n + 1, b => (t.items b).flatMap fun e ↦ e :: ((t.next e).map (visits n)).getD []

/-- What is visited behind a thing. -/
def behind (n : Nat) (e : E) : List E := ((t.next e).map (t.visits n)).getD []

/-- What can be got to from `b₀` is a tree: nothing leads to `b₀`, and no two things to one place,
unless that is empty. -/
structure Branches (b₀ : B) : Prop where
  root : ∀ b, ReflTransGen t.Leads b₀ b → ¬ t.Leads b b₀
  unique : ∀ b b' c e e', ReflTransGen t.Leads b₀ b → ReflTransGen t.Leads b₀ b' →
    t.Door e b c → t.Door e' b' c → t.items c ≠ [] → e = e'

variable {t} {b b' b₀ c d x y : B} {e e' h : E} {n : Nat}

theorem Door.leads (hd : t.Door e b c) : t.Leads b c := ⟨e, hd⟩

theorem Door.items_ne_nil (hd : t.Door e b c) : t.items b ≠ [] := List.ne_nil_of_mem hd.1

/-- A thing is at one place and leads to one place. -/
theorem Door.unique (hd : t.Door e b c) (hd' : t.Door e b' d) : b = b' ∧ c = d :=
  ⟨(t.place_of_mem hd.1).symm.trans (t.place_of_mem hd'.1),
    Option.some.inj (hd.2.symm.trans hd'.2)⟩

/-! ## Levels -/

theorem Depth.succ (hdepth : t.Depth n b) : t.Depth (n + 1) b := by
  induction n generalizing b with
  | zero => exact hdepth.elim
  | succ n ih => exact fun e c hd ↦ ih (hdepth e c hd)

theorem Depth.mono {m : Nat} (hdepth : t.Depth n b) (hle : n ≤ m) : t.Depth m b := by
  induction hle with
  | refl => exact hdepth
  | step _ ih => exact ih.succ

/-- A tour that comes to an end does not come back to where it was. -/
theorem Depth.not_cycle (hdepth : t.Depth n b) : ¬ TransGen t.Leads b b := by
  induction n generalizing b with
  | zero => exact hdepth.elim
  | succ n ih =>
    intro hcycle
    obtain ⟨c, ⟨e, hd⟩, hback⟩ := TransGen.head'_iff.1 hcycle
    exact ih (hdepth e c hd) (TransGen.tail' hback hd.leads)

/-- One number of levels is enough for all the things at a place. -/
theorem exists_depth_succ (hall : ∀ e c, t.Door e b c → ∃ n, t.Depth n c) :
    ∃ n, t.Depth (n + 1) b := by
  have hlist : ∀ l : List E, l ⊆ t.items b →
      ∃ n, ∀ e ∈ l, ∀ c, t.next e = some c → t.Depth n c := by
    intro l hl
    induction l with
    | nil => exact ⟨0, fun _ h ↦ by cases h⟩
    | cons e l ih =>
      obtain ⟨n, hn⟩ := ih fun x hx ↦ hl (List.mem_cons_of_mem e hx)
      cases hnext : t.next e with
      | none =>
        refine ⟨n, fun x hx c hc ↦ ?_⟩
        rcases List.mem_cons.1 hx with rfl | hx
        · rw [hnext] at hc
          cases hc
        · exact hn x hx c hc
      | some d =>
        obtain ⟨m, hm⟩ := hall e d ⟨hl List.mem_cons_self, hnext⟩
        refine ⟨max n m, fun x hx c hc ↦ ?_⟩
        rcases List.mem_cons.1 hx with rfl | hx
        · cases hnext.symm.trans hc
          exact hm.mono (Nat.le_max_right n m)
        · exact (hn x hx c hc).mono (Nat.le_max_left n m)
  obtain ⟨n, hn⟩ := hlist (t.items b) fun _ h ↦ h
  exact ⟨n, fun e c hd ↦ hn e hd.1 c hd.2⟩

/-! ## What is visited -/

theorem visits_succ : t.visits (n + 1) b = (t.items b).flatMap fun e ↦ e :: t.behind n e := rfl

theorem Door.behind_eq (hd : t.Door e b c) : t.behind n e = t.visits n c := by
  rw [behind, hd.2]
  rfl

theorem behind_of_next (hnext : t.next e = none) : t.behind n e = [] := by
  rw [behind, hnext]
  rfl

theorem mem_visits_succ : h ∈ t.visits (n + 1) b ↔
    ∃ e ∈ t.items b, h = e ∨ ∃ c, t.next e = some c ∧ h ∈ t.visits n c := by
  rw [visits_succ, List.mem_flatMap]
  refine exists_congr fun e ↦ and_congr_right fun _ ↦ ?_
  rw [List.mem_cons, behind]
  cases hnext : t.next e with
  | none => simp
  | some c => simp

/-- All that is visited can be got to. -/
theorem exists_of_mem_visits (hmem : h ∈ t.visits n b) :
    ∃ c, ReflTransGen t.Leads b c ∧ h ∈ t.items c := by
  induction n generalizing b with
  | zero => cases hmem
  | succ n ih =>
    obtain ⟨e, he, rfl | ⟨d, hnext, hmem⟩⟩ := mem_visits_succ.1 hmem
    · exact ⟨b, .refl, he⟩
    · obtain ⟨c, hreach, hc⟩ := ih hmem
      exact ⟨c, .head ⟨e, he, hnext⟩ hreach, hc⟩

/-- In a tour that comes to an end all that can be got to is visited. -/
theorem Depth.mem_visits (hdepth : t.Depth n b) (hreach : ReflTransGen t.Leads b c)
    (hc : h ∈ t.items c) : h ∈ t.visits n b := by
  induction n generalizing b with
  | zero => exact hdepth.elim
  | succ n ih =>
    rw [mem_visits_succ]
    rcases hreach.cases_head with rfl | ⟨d, ⟨e, hd⟩, hreach⟩
    · exact ⟨h, hc, .inl rfl⟩
    · exact ⟨e, hd.1, .inr ⟨d, hd.2, ih (hdepth e d hd) hreach⟩⟩

/-- What is visited behind a thing is at a place that can be got to through it. -/
theorem exists_of_mem_behind (he : e ∈ t.items b) (hmem : h ∈ t.behind n e) :
    ∃ x c, t.Door e b x ∧ ReflTransGen t.Leads x c ∧ h ∈ t.items c := by
  cases hnext : t.next e with
  | none =>
    rw [behind_of_next hnext] at hmem
    cases hmem
  | some x =>
    have hd : t.Door e b x := ⟨he, hnext⟩
    rw [hd.behind_eq] at hmem
    obtain ⟨c, hreach, hc⟩ := exists_of_mem_visits hmem
    exact ⟨x, c, hd, hreach, hc⟩

/-- What is visited behind a thing is visited once. -/
theorem nodup_visits_of_door (hnodup : (t.visits (n + 1) b).Nodup) (hd : t.Door e b c) :
    (t.visits n c).Nodup := by
  have he := (List.nodup_flatMap.1 hnodup).1 e hd.1
  rw [← hd.behind_eq]
  exact (List.nodup_cons.1 he).2

/-- And it is not visited behind another. -/
theorem door_eq_of_mem_visits (hnodup : (t.visits (n + 1) b).Nodup) (hd : t.Door e b c)
    (hd' : t.Door e' b d) (hmem : h ∈ t.visits n c) (hmem' : h ∈ t.visits n d) : e = e' := by
  by_contra hne
  have hpair : (t.items b).Pairwise (Function.onFun List.Disjoint fun e ↦ e :: t.behind n e) :=
    (List.nodup_flatMap.1 hnodup).2
  have : Std.Symm (Function.onFun List.Disjoint fun e ↦ e :: t.behind n e) :=
    ⟨fun _ _ h ↦ h.symm⟩
  have hdisj : List.Disjoint (e :: t.behind n e) (e' :: t.behind n e') :=
    hpair.forall hd.1 hd'.1 hne
  rw [hd.behind_eq, hd'.behind_eq] at hdisj
  exact hdisj (List.mem_cons_of_mem e hmem) (List.mem_cons_of_mem e' hmem')

/-! ## A tree, if the tour ends with no thing visited twice -/

/-- The first thing on the way to another. -/
theorem exists_first (hreach : ReflTransGen t.Leads x b) (hd : t.Door e b c) :
    ∃ f a, t.Door f x a ∧ (f = e ∧ a = c ∨ ReflTransGen t.Leads a b) := by
  rcases hreach.cases_head with rfl | ⟨a, ⟨f, hf⟩, hreach⟩
  · exact ⟨e, c, hd, .inl ⟨rfl, rfl⟩⟩
  · exact ⟨f, a, hf, .inr hreach⟩

/-- Where no thing is visited twice, no two things lead to a place with something at it. -/
theorem Depth.unique (hdepth : t.Depth n x) (hnodup : (t.visits n x).Nodup)
    (hb : ReflTransGen t.Leads x b) (hb' : ReflTransGen t.Leads x b') (hd : t.Door e b c)
    (hd' : t.Door e' b' c) (hc : t.items c ≠ []) : e = e' := by
  induction n generalizing x with
  | zero => exact hdepth.elim
  | succ n ih =>
    obtain ⟨h, hh⟩ := List.exists_mem_of_ne_nil _ hc
    obtain ⟨f, a, hf, hway⟩ := exists_first hb hd
    obtain ⟨f', a', hf', hway'⟩ := exists_first hb' hd'
    have hac : ReflTransGen t.Leads a c := by
      rcases hway with ⟨-, rfl⟩ | hway
      · exact .refl
      · exact hway.tail hd.leads
    have hac' : ReflTransGen t.Leads a' c := by
      rcases hway' with ⟨-, rfl⟩ | hway'
      · exact .refl
      · exact hway'.tail hd'.leads
    have hda := hdepth f a hf
    -- both ways begin with the same thing, for `h` is visited behind it
    obtain rfl := door_eq_of_mem_visits hnodup hf hf' (hda.mem_visits hac hh)
      ((hdepth f' a' hf').mem_visits hac' hh)
    obtain ⟨-, rfl⟩ := hf.unique hf'
    rcases hway with ⟨rfl, rfl⟩ | hway
    · rcases hway' with ⟨rfl, -⟩ | hway'
      · rfl
      · exact absurd (TransGen.tail' hway' hd'.leads) hda.not_cycle
    · rcases hway' with ⟨rfl, rfl⟩ | hway'
      · exact absurd (TransGen.tail' hway hd.leads) hda.not_cycle
      · exact ih hda (nodup_visits_of_door hnodup hf) hway hway'

theorem Depth.branches (hdepth : t.Depth n b₀) (hnodup : (t.visits n b₀).Nodup) :
    t.Branches b₀ where
  root _ hreach hleads := hdepth.not_cycle (TransGen.tail' hreach hleads)
  unique _ _ _ _ _ hb hb' hd hd' hc := hdepth.unique hnodup hb hb' hd hd' hc

/-! ## A tour of a tree -/

namespace Branches

/-- In a tree no way leads back. -/
theorem not_cycle (ht : t.Branches b₀) (hc : ReflTransGen t.Leads b₀ c) :
    ¬ TransGen t.Leads c c := by
  induction hc with
  | refl =>
    intro hcycle
    obtain ⟨d, hreach, hleads⟩ := TransGen.tail'_iff.1 hcycle
    exact ht.root d hreach hleads
  | @tail b c hb hlast ih =>
    intro hcycle
    obtain ⟨e, hd⟩ := hlast
    obtain ⟨_, ⟨_, hfirst⟩, _⟩ := TransGen.head'_iff.1 hcycle
    obtain ⟨d, hreach, e', hd'⟩ := TransGen.tail'_iff.1 hcycle
    -- the way back ends with the thing that the way there ends with
    have hb' : ReflTransGen t.Leads b₀ d := (hb.tail hd.leads).trans hreach
    obtain rfl := ht.unique b d c e e' hb hb' hd hd' hfirst.items_ne_nil
    obtain ⟨rfl, -⟩ := hd.unique hd'
    exact ih (TransGen.head' hd.leads hreach)

/-- Of two places on the way to a third one is on the way to the other. -/
theorem total (ht : t.Branches b₀) (hx : ReflTransGen t.Leads b₀ x)
    (hy : ReflTransGen t.Leads b₀ y) (hxc : ReflTransGen t.Leads x c)
    (hyc : ReflTransGen t.Leads y c) (hc : t.items c ≠ []) :
    ReflTransGen t.Leads x y ∨ ReflTransGen t.Leads y x := by
  induction hxc with
  | refl => exact .inr hyc
  | @tail b c hxb hlast ih =>
    obtain ⟨e, hd⟩ := hlast
    rcases hyc.cases_tail with rfl | ⟨d, hyd, e', hd'⟩
    · exact .inl (hxb.tail hd.leads)
    · obtain rfl := ht.unique b d c e e' (hx.trans hxb) (hy.trans hyd) hd hd' hc
      obtain ⟨rfl, -⟩ := hd.unique hd'
      exact ih hyd hd.items_ne_nil

/-- Nothing is behind a thing and behind another at the same place. -/
theorem not_both (ht : t.Branches b₀) (hb : ReflTransGen t.Leads b₀ b) (hd : t.Door e b x)
    (hd' : t.Door e' b y) (hxc : ReflTransGen t.Leads x c) (hyc : ReflTransGen t.Leads y c)
    (hc : t.items c ≠ []) : e = e' := by
  have aside {e e' : E} {x y : B} (hd : t.Door e b x) (hd' : t.Door e' b y)
      (hxy : ReflTransGen t.Leads x y) (hyc : ReflTransGen t.Leads y c) : e = e' := by
    have hy : t.items y ≠ [] := by
      rcases hyc.cases_head with rfl | ⟨_, ⟨_, hfirst⟩, _⟩
      · exact hc
      · exact hfirst.items_ne_nil
    rcases hxy.cases_tail with rfl | ⟨a, hxa, f, hf⟩
    · exact ht.unique b b y e e' hb hb hd hd' hy
    · have ha : ReflTransGen t.Leads b₀ a := (hb.tail hd.leads).trans hxa
      obtain rfl := ht.unique a b y f e' ha hb hf hd' hy
      obtain ⟨rfl, -⟩ := hf.unique hd'
      exact absurd (TransGen.head' hd.leads hxa) (ht.not_cycle hb)
  rcases ht.total (hb.tail hd.leads) (hb.tail hd'.leads) hxc hyc hc with hxy | hyx
  · exact aside hd hd' hxy hyc
  · exact (aside hd' hd hyx hxc).symm

/-- A thing at a place is not behind another one there. -/
theorem not_mem_behind (ht : t.Branches b₀) (hb : ReflTransGen t.Leads b₀ b) (he : e ∈ t.items b)
    (hh : h ∈ t.items b) : h ∉ t.behind n e := by
  intro hmem
  obtain ⟨x, c, hd, hreach, hc⟩ := exists_of_mem_behind he hmem
  obtain rfl := (t.place_of_mem hh).symm.trans (t.place_of_mem hc)
  exact ht.not_cycle hb (TransGen.head' hd.leads hreach)

/-- Nothing is visited behind two things at a place. -/
theorem disjoint_behind (ht : t.Branches b₀) (hb : ReflTransGen t.Leads b₀ b)
    (he : e ∈ t.items b) (he' : e' ∈ t.items b) (hne : e ≠ e') :
    List.Disjoint (t.behind n e) (t.behind n e') := by
  intro h hmem hmem'
  obtain ⟨x, c, hd, hreach, hc⟩ := exists_of_mem_behind he hmem
  obtain ⟨y, c', hd', hreach', hc'⟩ := exists_of_mem_behind he' hmem'
  obtain rfl := (t.place_of_mem hc).symm.trans (t.place_of_mem hc')
  exact hne (ht.not_both hb hd hd' hreach hreach' (List.ne_nil_of_mem hc))

theorem nodup_visits (ht : t.Branches b₀) (hb : ReflTransGen t.Leads b₀ b) :
    (t.visits n b).Nodup := by
  induction n generalizing b with
  | zero => exact List.nodup_nil
  | succ n ih =>
    rw [visits_succ, List.nodup_flatMap]
    constructor
    · intro e he
      refine List.nodup_cons.2 ⟨ht.not_mem_behind hb he he, ?_⟩
      cases hnext : t.next e with
      | none =>
        rw [behind_of_next hnext]
        exact List.nodup_nil
      | some x =>
        have hd : t.Door e b x := ⟨he, hnext⟩
        rw [hd.behind_eq]
        exact ih (hb.tail hd.leads)
    · refine (t.nodup b).imp_of_mem fun {e e'} he he' hne ↦ ?_
      change List.Disjoint (e :: _) (e' :: _)
      rw [List.disjoint_cons_left, List.disjoint_cons_right]
      refine ⟨fun hmem ↦ ?_, ht.not_mem_behind hb he he', ht.disjoint_behind hb he he' hne⟩
      rcases List.mem_cons.1 hmem with rfl | hmem
      · exact hne rfl
      · exact ht.not_mem_behind hb he' he hmem

/-- If there are finitely many places, a tour of a tree comes to an end. -/
theorem exists_depth [Finite B] (ht : t.Branches b₀) : ∃ n, t.Depth n b₀ := by
  let r (x y : {b // ReflTransGen t.Leads b₀ b}) : Prop := TransGen t.Leads y.1 x.1
  have : IsTrans _ r := ⟨fun _ _ _ hxy hyz ↦ hyz.trans hxy⟩
  have : Std.Irrefl r := ⟨fun x ↦ ht.not_cycle x.2⟩
  have hwf : WellFounded r := Finite.wellFounded_of_trans_of_irrefl r
  have hall (x : {b // ReflTransGen t.Leads b₀ b}) : ∃ n, t.Depth n x.1 := by
    induction x using hwf.induction with
    | h x ih =>
      obtain ⟨n, hn⟩ := exists_depth_succ fun e c hd ↦
        ih ⟨c, x.2.tail hd.leads⟩ (.single hd.leads)
      exact ⟨n + 1, hn⟩
  exact hall ⟨b₀, .refl⟩

end Branches

/-- A tour comes to an end with no thing visited twice if and only if it goes through a tree. -/
theorem ends_iff [Finite B] : (∃ n, t.Depth n b₀ ∧ (t.visits n b₀).Nodup) ↔ t.Branches b₀ := by
  constructor
  · rintro ⟨n, hdepth, hnodup⟩
    exact hdepth.branches hnodup
  · intro ht
    obtain ⟨n, hdepth⟩ := ht.exists_depth
    exact ⟨n, hdepth, ht.nodup_visits .refl⟩

end Tour

end Mh.Lib
