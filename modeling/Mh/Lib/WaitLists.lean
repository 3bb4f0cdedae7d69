import Mathlib.Data.List.Nodup
import Mathlib.Data.List.Perm.Basic
import Mathlib.Logic.Function.Basic

/-!
# Lists of waiters

Threads sleep on lists.  A thread puts itself on a list and sleeps; another takes it off, and
wakes it later.  What there is to see of this is `list`, the threads on a list; `sleeps`, which
thread sleeps on which list; and `pend`, how many wakes of a thread another has still to do.

`Orderly` says that nobody sleeps unseen.  The rules are the three things that happen: a thread
goes to sleep (`Orderly.wait`), it is taken off the list (`Orderly.pop`), it is woken
(`Orderly.wake`).
-/

universe u v w

namespace Mh.Lib

variable {T : Type u} {H : Type v} {W : Type w}

/-- Who is on a list sleeps on it; who sleeps is on the list once, or is off it and is to be woken
once, by one thread. -/
structure Orderly (list : H → List T) (sleeps : T → H → Prop) (pend : W → T → Nat) : Prop where
  nodup : ∀ h, (list h).Nodup
  listed : ∀ {t h}, t ∈ list h → sleeps t h
  one : ∀ {t h h'}, sleeps t h → sleeps t h' → h = h'
  woken : ∀ {w t}, 0 < pend w t → ∃ h, sleeps t h ∧ t ∉ list h
  once : ∀ w t, pend w t ≤ 1
  alone : ∀ {w w' t}, 0 < pend w t → 0 < pend w' t → w = w'
  seen : ∀ {t h}, sleeps t h → t ∈ list h ∨ ∃ w, 0 < pend w t

namespace Orderly

variable {list list' : H → List T} {sleeps sleeps' : T → H → Prop} {pend pend' : W → T → Nat}
  {t : T} {h : H} {w : W}

/-- Nobody waits. -/
theorem empty (hl : ∀ h, list h = []) (hs : ∀ t h, ¬ sleeps t h) (hp : ∀ w t, pend w t = 0) :
    Orderly list sleeps pend where
  nodup h := by
    rw [hl]
    exact List.nodup_nil
  listed {t h} ht := by
    rw [hl] at ht
    exact absurd ht List.not_mem_nil
  one {t h h'} ht := absurd ht (hs t h)
  woken {w t} ht := by
    rw [hp] at ht
    exact absurd ht (Nat.lt_irrefl 0)
  once w t := by
    rw [hp]
    exact Nat.zero_le 1
  alone {w w' t} ht := by
    rw [hp] at ht
    exact absurd ht (Nat.lt_irrefl 0)
  seen {t h} ht := absurd ht (hs t h)

/-- It is a matter of the lists, the sleepers and the wakes to come. -/
theorem congr (hi : Orderly list sleeps pend) (hl : ∀ h, list' h = list h)
    (hs : ∀ t h, sleeps' t h ↔ sleeps t h) (hp : ∀ w t, pend' w t = pend w t) :
    Orderly list' sleeps' pend' := by
  obtain rfl : list' = list := funext hl
  obtain rfl : sleeps' = sleeps := funext fun t ↦ funext fun h ↦ propext (hs t h)
  obtain rfl : pend' = pend := funext fun w ↦ funext (hp w)
  exact hi

/-- Who is awake is on no list. -/
theorem not_mem (hi : Orderly list sleeps pend) (ht : ∀ h, ¬ sleeps t h) (h : H) : t ∉ list h :=
  fun hm ↦ ht h (hi.listed hm)

/-- Who is on a list is not to be woken yet. -/
theorem pend_eq_zero_of_mem (hi : Orderly list sleeps pend) (ht : t ∈ list h) (w : W) :
    pend w t = 0 := by
  refine Nat.eq_zero_of_not_pos fun hp ↦ ?_
  obtain ⟨h', hs, hn⟩ := hi.woken hp
  obtain rfl := hi.one hs (hi.listed ht)
  exact hn ht

/-- Who is to be woken is on no list. -/
theorem not_mem_of_pend (hi : Orderly list sleeps pend) (ht : 0 < pend w t) (h : H) :
    t ∉ list h := fun hm ↦ by
  rw [hi.pend_eq_zero_of_mem hm] at ht
  exact absurd ht (Nat.lt_irrefl 0)

/-- A thread that is awake goes to sleep on a list. -/
theorem wait (hi : Orderly list sleeps pend) (ht : ∀ h, ¬ sleeps t h)
    (hl : ∀ k, k ≠ h → list' k = list k) (hh : list' h = list h ++ [t])
    (hs : ∀ x k, sleeps' x k ↔ sleeps x k ∨ x = t ∧ k = h) (hp : ∀ w x, pend' w x = pend w x) :
    Orderly list' sleeps' pend' := by
  classical
  have hmem : ∀ x k, x ∈ list' k ↔ x ∈ list k ∨ x = t ∧ k = h := by
    intro x k
    by_cases hk : k = h
    · subst hk
      rw [hh, List.mem_append, List.mem_singleton]
      simp
    · rw [hl k hk]
      simp [hk]
  refine ⟨?_, ?_, ?_, ?_, ?_, ?_, ?_⟩
  · intro k
    by_cases hk : k = h
    · subst hk
      rw [hh, ← List.concat_eq_append]
      exact (hi.nodup k).concat (hi.not_mem ht k)
    · rw [hl k hk]
      exact hi.nodup k
  · intro x k hx
    rw [hs]
    exact ((hmem x k).1 hx).imp_left hi.listed
  · intro x k k' hx hx'
    rw [hs] at hx hx'
    rcases hx with hx | ⟨rfl, rfl⟩
    · rcases hx' with hx' | ⟨rfl, rfl⟩
      · exact hi.one hx hx'
      · exact absurd hx (ht k)
    · rcases hx' with hx' | ⟨-, rfl⟩
      · exact absurd hx' (ht k')
      · rfl
  · intro w x hx
    rw [hp] at hx
    obtain ⟨k, hsk, hn⟩ := hi.woken hx
    refine ⟨k, (hs x k).2 (.inl hsk), fun hm ↦ ?_⟩
    rcases (hmem x k).1 hm with hm | ⟨rfl, -⟩
    · exact hn hm
    · exact ht k hsk
  · intro w x
    rw [hp]
    exact hi.once w x
  · intro w w' x hx hx'
    rw [hp] at hx hx'
    exact hi.alone hx hx'
  · intro x k hx
    rw [hmem]
    rcases (hs x k).1 hx with hx | hx
    · refine (hi.seen hx).imp .inl fun ⟨w, hw⟩ ↦ ⟨w, ?_⟩
      rw [hp]
      exact hw
    · exact .inl (.inr hx)

/-- The first of a list is taken off it, by a thread that is going to wake it. -/
theorem pop {ts : List T} (hi : Orderly list sleeps pend) (hh : list h = t :: ts)
    (hl : ∀ k, k ≠ h → list' k = list k) (hh' : list' h = ts)
    (hs : ∀ x k, sleeps' x k ↔ sleeps x k) (hpt : pend' w t = 1)
    (hp : ∀ v x, ¬ (v = w ∧ x = t) → pend' v x = pend v x) : Orderly list' sleeps' pend' := by
  have hmemh : t ∈ list h := hh ▸ List.mem_cons_self
  have hnd := hi.nodup h
  rw [hh, List.nodup_cons] at hnd
  have hmem : ∀ x k, x ∈ list' k ↔ x ∈ list k ∧ ¬ (x = t ∧ k = h) := by
    intro x k
    by_cases hk : k = h
    · subst hk
      rw [hh', hh, List.mem_cons]
      constructor
      · intro hx
        exact ⟨.inr hx, fun hc ↦ hnd.1 (hc.1 ▸ hx)⟩
      · rintro ⟨rfl | hx, hc⟩
        · exact absurd ⟨rfl, rfl⟩ hc
        · exact hx
    · rw [hl k hk]
      simp [hk]
  refine ⟨?_, ?_, ?_, ?_, ?_, ?_, ?_⟩
  · intro k
    by_cases hk : k = h
    · subst hk
      rw [hh']
      exact hnd.2
    · rw [hl k hk]
      exact hi.nodup k
  · intro x k hx
    rw [hs]
    exact hi.listed ((hmem x k).1 hx).1
  · intro x k k' hx hx'
    rw [hs] at hx hx'
    exact hi.one hx hx'
  · intro v x hx
    by_cases hv : v = w ∧ x = t
    · obtain ⟨rfl, rfl⟩ := hv
      exact ⟨h, (hs x h).2 (hi.listed hmemh), fun hm ↦ ((hmem x h).1 hm).2 ⟨rfl, rfl⟩⟩
    · rw [hp v x hv] at hx
      obtain ⟨k, hsk, hn⟩ := hi.woken hx
      exact ⟨k, (hs x k).2 hsk, fun hm ↦ hn ((hmem x k).1 hm).1⟩
  · intro v x
    by_cases hv : v = w ∧ x = t
    · obtain ⟨rfl, rfl⟩ := hv
      exact Nat.le_of_eq hpt
    · rw [hp v x hv]
      exact hi.once v x
  · intro v v' x hx hx'
    by_cases hxt : x = t
    · subst hxt
      have only : ∀ {v}, 0 < pend' v x → v = w := by
        intro v hv
        by_contra hc
        rw [hp v x fun hcc ↦ hc hcc.1, hi.pend_eq_zero_of_mem hmemh] at hv
        exact absurd hv (Nat.lt_irrefl 0)
      rw [only hx, only hx']
    · rw [hp v x fun hc ↦ hxt hc.2] at hx
      rw [hp v' x fun hc ↦ hxt hc.2] at hx'
      exact hi.alone hx hx'
  · intro x k hx
    by_cases hxt : x = t
    · subst hxt
      refine .inr ⟨w, ?_⟩
      rw [hpt]
      exact Nat.one_pos
    · rcases hi.seen ((hs x k).1 hx) with hm | ⟨v, hv⟩
      · exact .inl ((hmem x k).2 ⟨hm, fun hc ↦ hxt hc.1⟩)
      · refine .inr ⟨v, ?_⟩
        rw [hp v x fun hc ↦ hxt hc.2]
        exact hv

/-- A thread that is to be woken is woken. -/
theorem wake (hi : Orderly list sleeps pend) (ht : 0 < pend w t) (hl : ∀ k, list' k = list k)
    (hs : ∀ x k, sleeps' x k ↔ sleeps x k ∧ x ≠ t) (hpt : pend' w t = 0)
    (hp : ∀ v x, ¬ (v = w ∧ x = t) → pend' v x = pend v x) : Orderly list' sleeps' pend' := by
  have hzero : ∀ v, pend' v t = 0 := by
    intro v
    by_cases hv : v = w
    · rw [hv, hpt]
    · rw [hp v t fun hc ↦ hv hc.1]
      refine Nat.eq_zero_of_not_pos fun hc ↦ hv (hi.alone hc ht)
  have hother : ∀ v x, x ≠ t → pend' v x = pend v x := fun v x hx ↦ hp v x fun hc ↦ hx hc.2
  have hpos : ∀ {v x}, 0 < pend' v x → x ≠ t ∧ 0 < pend v x := by
    intro v x hx
    have hxt : x ≠ t := by
      rintro rfl
      rw [hzero] at hx
      exact absurd hx (Nat.lt_irrefl 0)
    rw [hother v x hxt] at hx
    exact ⟨hxt, hx⟩
  refine ⟨?_, ?_, ?_, ?_, ?_, ?_, ?_⟩
  · intro k
    rw [hl]
    exact hi.nodup k
  · intro x k hx
    rw [hl] at hx
    refine (hs x k).2 ⟨hi.listed hx, ?_⟩
    rintro rfl
    exact hi.not_mem_of_pend ht k hx
  · intro x k k' hx hx'
    exact hi.one ((hs x k).1 hx).1 ((hs x k').1 hx').1
  · intro v x hx
    obtain ⟨hxt, hx⟩ := hpos hx
    obtain ⟨k, hsk, hn⟩ := hi.woken hx
    refine ⟨k, (hs x k).2 ⟨hsk, hxt⟩, ?_⟩
    rw [hl]
    exact hn
  · intro v x
    by_cases hxt : x = t
    · rw [hxt, hzero]
      exact Nat.zero_le 1
    · rw [hother v x hxt]
      exact hi.once v x
  · intro v v' x hx hx'
    exact hi.alone (hpos hx).2 (hpos hx').2
  · intro x k hx
    obtain ⟨hx, hxt⟩ := (hs x k).1 hx
    rw [hl]
    refine (hi.seen hx).imp_right fun ⟨v, hv⟩ ↦ ⟨v, ?_⟩
    rw [hother v x hxt]
    exact hv

end Orderly

end Mh.Lib
