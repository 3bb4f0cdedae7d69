import Mh.Heap.Inv

/-!
# Runs of the kernel heap

In every run of `heap_alloc` and `heap_free` from `heap_init` the blocks of each page
tile it, the free list has the free blocks, no two neighbours are free, the blocks in
use are the ones handed out, and `kheaps` links the heap pages both ways; provided
that no call frees the first block of a page that has a successor on `kheaps`
(`OpSafe`).  Such a call takes the `struct kheap` of the page for a free block
(`heap_free_first`).
-/

namespace Mh.Heap

open Mh.Lib

variable {s s' : State} {h : Kheaps} {k k' : Kheap} {op : Op} {l f ps : List Nat}
  {e n p q x size : Nat}

/-! ## Pages -/

/-- The invariant of a page, of the lists that it has. -/
def PageOk (k : Kheap) : Prop := PageInv k k.blocks k.frees

theorem PageInv.ok (hk : PageInv k l f) : PageOk k := by
  rw [PageOk, hk.blocks_eq, hk.frees_eq]
  exact hk

/-- A block that is handed out. -/
def Kheap.Busy (k : Kheap) (e : Nat) : Prop := e ∈ k.blocks ∧ ¬ k.Free e

/-- `kheap_alloc`. -/
theorem PageOk.alloc (hk : PageOk k) (size : Nat) :
    (k.alloc size = .ok (none, k) ∧ ∀ e ∈ k.frees, k.ulen e < uround size + 1) ∨
    ∃ e k', k.alloc size = .ok (some (e + 1), k') ∧ PageOk k' ∧ ¬ k.Busy e ∧
      ∀ x, k'.Busy x ↔ x = e ∨ k.Busy x := by
  rcases PageInv.allocUnits hk (Nat.succ_pos (uround size)) with
    hnone | ⟨e, k', l', f', hal, hinv, _, hfree, hbusy⟩
  · exact .inl hnone
  · refine .inr ⟨e, k', hal, hinv.ok, fun hb ↦ hb.2 hfree, fun x ↦ ?_⟩
    rw [Kheap.Busy, hinv.blocks_eq]
    exact hbusy x

/-- The page that `kheap_add` sets up, after the allocation that it was set up for. -/
theorem add_alloc (k : Kheap) (hs : uround size < heapMaxalloc) :
    ∃ e k', k.add.alloc size = .ok (some (e + 1), k') ∧ PageOk k' ∧ ∀ x, k'.Busy x ↔ x = e := by
  have hadd := PageInv.add k
  rcases hadd.ok.alloc size with ⟨_, hbig⟩ | ⟨e, k', hal, hok, _, hbusy⟩
  · have hlt := hbig 0 (by rw [hadd.frees_eq]; exact List.mem_cons_self)
    rw [PageInv.ulen_add] at hlt
    have hs' : uround size < pageUnits - 1 := hs
    omega
  · refine ⟨e, k', hal, hok, fun x ↦ (hbusy x).trans (or_iff_left ?_)⟩
    rintro ⟨hm, hnf⟩
    rw [hadd.blocks_eq] at hm
    exact hnf ((hadd.free x).1 hm).2

/-! ## The invariant -/

/-- The invariant: the pages are in order, the blocks in use are the ones handed out,
and `kheaps` links the pages. -/
structure HeapInv (s : State) : Prop where
  kheaps : s.heap.kheaps.Holds s.heap.pages
  skew : ∀ p ∈ s.heap.pages, s.heap.skew p = 0
  page : ∀ p ∈ s.heap.pages, PageOk (s.heap.page p)
  live : ∀ p u, (p, u) ∈ s.live ↔
    p ∈ s.heap.pages ∧ ∃ e, u = e + 1 ∧ (s.heap.page p).Busy e
  nodup : s.live.Nodup

theorem heapInv_init (h : Kheaps) : HeapInv ⟨h.init, []⟩ where
  kheaps := Links.Holds.empty rfl
  skew _ hp := absurd hp List.not_mem_nil
  page _ hp := absurd hp List.not_mem_nil
  live _ _ := iff_of_false List.not_mem_nil fun hc ↦ List.not_mem_nil hc.1
  nodup := .nil

@[simp] theorem page_setPage (h : Kheaps) (p : Nat) (k : Kheap) (q : Nat) :
    (h.setPage p k).page q = if q = p then k else h.page q := by
  rw [Kheaps.setPage]
  exact Function.update_apply _ _ _ _

namespace HeapInv

theorem live_iff (hi : HeapInv s) (hp : p ∈ s.heap.pages) :
    (p, e + 1) ∈ s.live ↔ (s.heap.page p).Busy e := by
  rw [hi.live]
  constructor
  · rintro ⟨_, e', he, hb⟩
    rwa [Nat.succ_injective he]
  · exact fun hb ↦ ⟨hp, e, rfl, hb⟩

/-- A page is written, and a block of it is handed out. -/
theorem setPage_cons (hi : HeapInv s) (hp : p ∈ s.heap.pages) (hk : PageOk k)
    (hnew : ¬ (s.heap.page p).Busy e)
    (hbusy : ∀ x, k.Busy x ↔ x = e ∨ (s.heap.page p).Busy x) :
    HeapInv ⟨s.heap.setPage p k, (p, e + 1) :: s.live⟩ where
  kheaps := hi.kheaps
  skew := hi.skew
  page q hq := by
    rw [page_setPage]
    split
    · exact hk
    · exact hi.page q hq
  live q u := by
    rw [List.mem_cons, hi.live, page_setPage]
    by_cases hqp : q = p
    · subst hqp
      rw [if_pos rfl]
      constructor
      · rintro (heq | ⟨_, e', rfl, hb⟩)
        · exact ⟨hp, e, (Prod.mk.inj heq).2, (hbusy e).2 (.inl rfl)⟩
        · exact ⟨hp, e', rfl, (hbusy e').2 (.inr hb)⟩
      · rintro ⟨_, e', rfl, hb⟩
        rcases (hbusy e').1 hb with rfl | hb
        · exact .inl rfl
        · exact .inr ⟨hp, e', rfl, hb⟩
    · rw [if_neg hqp]
      exact or_iff_right fun heq ↦ hqp (Prod.mk.inj heq).1
  nodup := List.nodup_cons.2 ⟨fun hm ↦ hnew ((hi.live_iff hp).1 hm), hi.nodup⟩

/-- A page is written, and a block of it is not handed out any more. -/
theorem setPage_erase (hi : HeapInv s) (hp : p ∈ s.heap.pages) (hk : PageOk k)
    (hbusy : ∀ x, k.Busy x ↔ x ≠ e ∧ (s.heap.page p).Busy x) :
    HeapInv ⟨s.heap.setPage p k, s.live.erase (p, e + 1)⟩ where
  kheaps := hi.kheaps
  skew := hi.skew
  page q hq := by
    rw [page_setPage]
    split
    · exact hk
    · exact hi.page q hq
  live q u := by
    rw [hi.nodup.mem_erase_iff, hi.live, page_setPage]
    by_cases hqp : q = p
    · subst hqp
      rw [if_pos rfl]
      constructor
      · rintro ⟨hne, _, e', rfl, hb⟩
        refine ⟨hp, e', rfl, (hbusy e').2 ⟨?_, hb⟩⟩
        rintro rfl
        exact hne rfl
      · rintro ⟨_, e', rfl, hb⟩
        obtain ⟨hne, hb⟩ := (hbusy e').1 hb
        exact ⟨fun heq ↦ hne (Nat.succ_injective (Prod.mk.inj heq).2), hp, e', rfl, hb⟩
    · rw [if_neg hqp]
      exact and_iff_right fun heq ↦ hqp (Prod.mk.inj heq).1
  nodup := hi.nodup.erase _

/-- A page is added, with one block handed out. -/
theorem addPage (hi : HeapInv s) (hp : p ∉ s.heap.pages) (hk : PageOk k)
    (hbusy : ∀ x, k.Busy x ↔ x = e) :
    HeapInv ⟨(s.heap.setPage p k).addPage p, (p, e + 1) :: s.live⟩ where
  kheaps := hi.kheaps.insertHead hp
  skew q hq := by
    show (if q = p ∨ s.heap.kheaps.first = some q then 0 else s.heap.skew q) = 0
    split
    · rfl
    · rename_i hne
      rcases List.mem_cons.1 hq with rfl | hq
      · exact absurd (.inl rfl) hne
      · exact hi.skew q hq
  page q hq := by
    show PageOk ((s.heap.setPage p k).page q)
    rw [page_setPage]
    split
    · exact hk
    · rename_i hne
      rcases List.mem_cons.1 hq with rfl | hq
      · exact absurd rfl hne
      · exact hi.page q hq
  live q u := by
    show _ ↔ q ∈ p :: s.heap.pages ∧ ∃ e, u = e + 1 ∧ ((s.heap.setPage p k).page q).Busy e
    rw [List.mem_cons, List.mem_cons, hi.live, page_setPage]
    by_cases hqp : q = p
    · subst hqp
      rw [if_pos rfl]
      constructor
      · rintro (heq | ⟨hq, _⟩)
        · exact ⟨.inl rfl, e, (Prod.mk.inj heq).2, (hbusy e).2 rfl⟩
        · exact absurd hq hp
      · rintro ⟨_, e', rfl, hb⟩
        rw [(hbusy e').1 hb]
        exact .inl rfl
    · rw [if_neg hqp, or_iff_right fun heq ↦ hqp (Prod.mk.inj heq).1, or_iff_right hqp]
  nodup := List.nodup_cons.2 ⟨fun hm ↦ hp ((hi.live _ _).1 hm).1, hi.nodup⟩

/-! ## The calls -/

/-- The loop of `heap_alloc`. -/
theorem allocFrom (hi : HeapInv s) (size : Nat) (hsub : ∀ p ∈ ps, p ∈ s.heap.pages) :
    s.heap.allocFrom size ps = .ok (none, s.heap) ∨
    ∃ ptr h, s.heap.allocFrom size ps = .ok (some ptr, h) ∧ HeapInv ⟨h, ptr :: s.live⟩ := by
  induction ps with
  | nil => exact .inl rfl
  | cons p ps ih =>
      have hp := hsub p List.mem_cons_self
      rw [Kheaps.allocFrom]
      rcases (hi.page p hp).alloc size with ⟨hal, _⟩ | ⟨e, k', hal, hok, hnew, hbusy⟩
      · rw [hal]
        exact ih fun q hq ↦ hsub q (List.mem_cons_of_mem _ hq)
      · rw [hal]
        exact .inr ⟨(p, e + 1), _, rfl, hi.setPage_cons hp hok hnew hbusy⟩

/-- `heap_alloc` hands out a block, or finds the size too big. -/
theorem alloc (hi : HeapInv s) (hp : p ∉ s.heap.pages) :
    s.heap.alloc size p = .error .size ∨
    ∃ ptr h, s.heap.alloc size p = .ok (some ptr, h) ∧ HeapInv ⟨h, ptr :: s.live⟩ := by
  rw [Kheaps.alloc]
  by_cases hbig : heapMaxalloc ≤ uround size
  · rw [if_pos hbig]
    exact .inl rfl
  · right
    rw [if_neg hbig, hi.kheaps.walk le_rfl]
    rcases hi.allocFrom size fun _ hq ↦ hq with hnone | ⟨ptr, h, hal, hinv⟩
    · obtain ⟨e, k', hal, hok, hbusy⟩ := add_alloc (s.heap.page p) (Nat.not_le.1 hbig)
      rw [hnone]
      simp only [bind, Except.bind, hal]
      exact ⟨(p, e + 1), _, rfl, hi.addPage hp hok hbusy⟩
    · rw [hal]
      exact ⟨ptr, h, rfl, hinv⟩

end HeapInv

/-- The call does not free the first block of a page that has a successor on
`kheaps`. -/
def OpSafe (s : State) : Op → Prop
  | .alloc _ _ => True
  | .free ptr => (s.heap.page ptr.1).list.prev (ptr.2 - 1) = none →
      s.heap.kheaps.next ptr.1 = none

/-- `kheap_free` on a page, past the test of the block before. -/
theorem PageOk.free (hk : PageOk k) (hb : k.Busy e) :
    (∀ q, k.list.prev e = some q → (k.absorb e).Free q →
      PageOk ((k.absorb e).mergePrev q e) ∧
        ∀ x, ((k.absorb e).mergePrev q e).Busy x ↔ x ≠ e ∧ k.Busy x) ∧
    ((∀ q, k.list.prev e = some q → ¬ (k.absorb e).Free q) →
      PageOk ((k.absorb e).put e) ∧ ∀ x, ((k.absorb e).put e).Busy x ↔ x ≠ e ∧ k.Busy x) := by
  obtain ⟨hm, hnf⟩ := hb
  obtain ⟨xs, ys, hl⟩ := List.append_of_mem hm
  have hinv : PageInv k (xs ++ e :: ys) k.frees := hl ▸ hk
  have hprev := hinv.list.prev_eq
  obtain ⟨ys', f', hab, hy, hsame, hbusy⟩ := hinv.absorb hnf
  have hnfe : ¬ (k.absorb e).Free e := fun hf ↦ hnf ((hsame e (by simp)).1 hf)
  have hkb : ∀ x, k.Busy x ↔ x ∈ xs ++ e :: ys' ∧ ¬ (k.absorb e).Free x := by
    intro x
    rw [hbusy x, Kheap.Busy, hl]
  constructor
  · intro q hq hfq
    rw [hprev] at hq
    obtain ⟨xs', rfl⟩ : ∃ xs', xs = xs' ++ [q] := by
      obtain ⟨xs', hxs⟩ := List.getLast?_eq_some_iff.1 hq
      exact ⟨xs', hxs⟩
    rw [List.append_assoc] at hab
    have hmerge := PageInv.mergePrev hab hfq hnfe hy
    refine ⟨hmerge.ok, fun x ↦ ?_⟩
    rw [Kheap.Busy, hmerge.blocks_eq, Kheap.free_mergePrev, hkb]
    have hnd := hab.list.nodup
    rw [show xs' ++ ([q] ++ e :: ys') = (xs' ++ [q]) ++ e :: ys' by rw [List.append_assoc]] at hnd
    have hne := (List.nodup_cons.1 (List.nodup_middle.1 hnd)).1
    by_cases hxe : x = e
    · subst hxe
      exact iff_of_false (fun hc ↦ hne (by simpa using hc.1)) fun hc ↦ hc.1 rfl
    · simp [hxe]
  · intro hq
    have hput := hab.put hnfe (fun x hx ↦ hq x (hprev.trans hx)) hy
    refine ⟨hput.ok, fun x ↦ ?_⟩
    rw [Kheap.Busy, hput.blocks_eq, Kheap.free_put, hkb]
    by_cases hxe : x = e
    · exact iff_of_false (fun hc ↦ hc.2 (.inl hxe)) fun hc ↦ hc.1 hxe
    · simp [hxe]

/-- `heap_free` of a block that is safe to free. -/
theorem HeapInv.free (hi : HeapInv s) {ptr : Nat × Nat} (hm : ptr ∈ s.live)
    (hsafe : OpSafe s (.free ptr)) :
    ∃ h, s.heap.free ptr = .ok h ∧ HeapInv ⟨h, s.live.erase ptr⟩ := by
  obtain ⟨p, u⟩ := ptr
  obtain ⟨hp, e, rfl, hb⟩ := (hi.live p u).1 hm
  obtain ⟨hmerge, hput⟩ := (hi.page p hp).free hb
  refine ⟨_, if_pos hp, ?_⟩
  rw [Kheaps.freeBlock]
  simp only [Nat.add_sub_cancel]
  cases hprev : (s.heap.page p).list.prev e with
  | none =>
      have hlast : s.heap.kheaps.next p = none := hsafe hprev
      obtain ⟨hok, hbusy⟩ := hput fun q hq ↦ by
        rw [hprev] at hq
        cases hq
      simp only [hlast, Option.isSome_none, Bool.false_eq_true, if_false]
      exact hi.setPage_erase hp hok hbusy
  | some q =>
      dsimp only
      by_cases hq : ((s.heap.page p).absorb e).Free q
      · obtain ⟨hok, hbusy⟩ := hmerge q hprev hq
        rw [if_pos (show (((s.heap.page p).absorb e).block q).isfree = true from hq)]
        exact hi.setPage_erase hp hok hbusy
      · obtain ⟨hok, hbusy⟩ := hput fun q' hq' ↦ by
          rw [hprev] at hq'
          rw [← Option.some.inj hq']
          exact hq
        rw [if_neg (show ¬ (((s.heap.page p).absorb e).block q).isfree = true from hq)]
        exact hi.setPage_erase hp hok hbusy

/-! ## Runs -/

/-- A safe call that returns. -/
def SafeStep (s : State) (op : Op) (s' : State) : Prop := OpSafe s op ∧ Step s op s'

theorem HeapInv.step (hi : HeapInv s) (hst : SafeStep s op s') : HeapInv s' := by
  obtain ⟨hsafe, ha, hex⟩ := hst
  cases op with
  | alloc size pfn =>
      rw [exec] at hex
      rcases hi.alloc ha.2 with herr | ⟨ptr, h, hal, hinv⟩
      · rw [herr] at hex
        cases hex
      · rw [hal] at hex
        rw [← Except.ok.inj hex]
        exact hinv
  | free ptr =>
      obtain ⟨h, hfr, hinv⟩ := hi.free ha hsafe
      rw [exec, hfr] at hex
      rw [← Except.ok.inj hex]
      exact hinv

theorem HeapInv.run (hi : HeapInv s) {ops : List Op} (hr : Run SafeStep s ops s') : HeapInv s' :=
  hr.invariant (I := HeapInv) (fun _ _ _ hs hst ↦ hs.step hst) hi

/-- What holds at every point: on every page the block list tiles the page in the order
of addresses, the free list has the free blocks, and no two neighbours are free; what
is handed out is a block that is not free, and two of them do not overlap; `kheaps`
links every heap page, forwards and backwards. -/
structure HeapOk (s : State) : Prop where
  page : ∀ p ∈ s.heap.pages,
    PageInv (s.heap.page p) (s.heap.page p).blocks (s.heap.page p).frees
  live : ∀ p u, (p, u) ∈ s.live → p ∈ s.heap.pages ∧ 0 < u ∧
    u - 1 ∈ (s.heap.page p).blocks ∧ ¬ (s.heap.page p).Free (u - 1)
  apart : ∀ p u u', (p, u) ∈ s.live → (p, u') ∈ s.live → u ≠ u' →
    u - 1 + (s.heap.page p).ulen (u - 1) ≤ u' - 1 ∨
      u' - 1 + (s.heap.page p).ulen (u' - 1) ≤ u - 1
  nodup : s.live.Nodup
  kheaps : s.heap.kheaps.Holds s.heap.pages
  skew : ∀ p ∈ s.heap.pages, s.heap.skew p = 0

theorem HeapInv.heapOk (hi : HeapInv s) : HeapOk s where
  page := hi.page
  live p u hm := by
    obtain ⟨hp, e, rfl, hb⟩ := (hi.live p u).1 hm
    exact ⟨hp, Nat.succ_pos e, hb⟩
  apart p u u' hm hm' hne := by
    obtain ⟨hp, e, rfl, hb⟩ := (hi.live p u).1 hm
    obtain ⟨_, e', rfl, hb'⟩ := (hi.live p u').1 hm'
    refine (hi.page p hp).tiles.apart hb.1 hb'.1 fun he ↦ hne ?_
    exact congrArg Nat.succ he
  nodup := hi.nodup
  kheaps := hi.kheaps
  skew := hi.skew

/-- What a safe call does: it stops the kernel only for a size that is too big. -/
theorem HeapInv.error (hi : HeapInv s) (ha : Allowed s op) (hsafe : OpSafe s op) {err : Panic}
    (hex : exec s op = .error err) : err = .size ∧ ∃ size pfn, op = .alloc size pfn := by
  cases op with
  | alloc size pfn =>
      rw [exec] at hex
      rcases hi.alloc ha.2 with herr | ⟨ptr, h, hal, _⟩
      · rw [herr] at hex
        exact ⟨(Except.error.inj hex).symm, size, pfn, rfl⟩
      · rw [hal] at hex
        cases hex
  | free ptr =>
      obtain ⟨h, hfr, _⟩ := hi.free ha hsafe
      rw [exec, hfr] at hex
      cases hex

/-- From `heap_init`, in every run of safe calls. -/
theorem heap_ok (h : Kheaps) {ops : List Op} (hr : Run SafeStep ⟨h.init, []⟩ ops s) :
    HeapOk s ∧ ∀ op err, Allowed s op → OpSafe s op → exec s op = .error err →
      err = .size ∧ ∃ size pfn, op = .alloc size pfn := by
  have hi := (heapInv_init h).run hr
  exact ⟨hi.heapOk, fun op err ha hsafe hex ↦ hi.error ha hsafe hex⟩

/-- Memory before `heap_init`. -/
def zeroed : Kheaps where
  kheaps := ⟨none, fun _ ↦ none, fun _ ↦ none⟩
  skew _ := 0
  page _ :=
    ⟨⟨none, fun _ ↦ none, fun _ ↦ none⟩, ⟨none, fun _ ↦ none, fun _ ↦ none⟩, fun _ ↦ ⟨false, 0⟩⟩
  pages := []

/-- The states after each of three calls. -/
def threeCalls (a b c : Op) : Except Panic (State × State × State) := do
  let s₁ ← exec ⟨zeroed.init, []⟩ a
  let s₂ ← exec s₁ b
  let s₃ ← exec s₂ c
  return (s₁, s₂, s₃)

theorem threeCalls_of_check {a b c : Op} {P : State × State × State → Bool}
    (hc : (threeCalls a b c).map P = .ok true) :
    ∃ s₁ s₂ s₃, exec ⟨zeroed.init, []⟩ a = .ok s₁ ∧ exec s₁ b = .ok s₂ ∧ exec s₂ c = .ok s₃ ∧
      P (s₁, s₂, s₃) = true := by
  cases ht : threeCalls a b c with
  | error err =>
      rw [ht] at hc
      cases hc
  | ok r =>
      rw [ht] at hc
      obtain ⟨s₁, h₁, ht⟩ := bind_eq_ok.1 ht
      obtain ⟨s₂, h₂, ht⟩ := bind_eq_ok.1 ht
      obtain ⟨s₃, h₃, ht⟩ := bind_eq_ok.1 ht
      obtain rfl := Except.ok.inj ht
      exact ⟨s₁, s₂, s₃, h₁, h₂, h₃, Except.ok.inj hc⟩

/-- Two blocks of one page are handed out and the second is freed. -/
theorem heap_ok_two : ∃ s, Run SafeStep ⟨zeroed.init, []⟩
    [.alloc 24 1, .alloc 24 2, .free (1, 3)] s ∧ s.live = [(1, 1)] ∧ HeapOk s := by
  have hc : ((threeCalls (.alloc 24 1) (.alloc 24 2) (.free (1, 3))).map fun r ↦
      decide (2 ∉ r.1.heap.pages ∧ (1, 3) ∈ r.2.1.live ∧
        (r.2.1.heap.page 1).list.prev 2 = some 0 ∧ r.2.2.live = [(1, 1)])) = .ok true := by
    decide +kernel
  obtain ⟨s₁, s₂, s₃, h₁, h₂, h₃, hP⟩ := threeCalls_of_check hc
  obtain ⟨hpage, hlive, hprev, hout⟩ := of_decide_eq_true hP
  have hrun : Run SafeStep ⟨zeroed.init, []⟩ [.alloc 24 1, .alloc 24 2, .free (1, 3)] s₃ := by
    refine .cons ⟨trivial, ⟨by decide, List.not_mem_nil⟩, h₁⟩
      (.cons ⟨trivial, ⟨by decide, hpage⟩, h₂⟩ (.cons ⟨fun hnone ↦ ?_, hlive, h₃⟩ (.nil s₃)))
    have hnone' : (s₂.heap.page 1).list.prev 2 = none := hnone
    rw [hprev] at hnone'
    cases hnone'
  exact ⟨s₃, hrun, hout, (heap_ok zeroed hrun).1⟩

/-- Each of two pages has one block in use, and the block of the page that is first on
`kheaps` is freed: the page has lost its block, and its back pointer is displaced. -/
theorem heap_free_first : ∃ s, Run Step ⟨zeroed.init, []⟩
    [.alloc 2097096 1, .alloc 2097096 2, .free (2, 1)] s ∧ 2 ∈ s.heap.pages ∧
    (s.heap.page 2).blocks = [] ∧ s.heap.skew 2 = pageUnits ∧ ¬ HeapOk s := by
  have hc : ((threeCalls (.alloc 2097096 1) (.alloc 2097096 2) (.free (2, 1))).map fun r ↦
      decide (2 ∉ r.1.heap.pages ∧ (2, 1) ∈ r.2.1.live ∧ 2 ∈ r.2.2.heap.pages ∧
        (r.2.2.heap.page 2).blocks = [] ∧ r.2.2.heap.skew 2 = pageUnits)) = .ok true := by
    decide +kernel
  obtain ⟨s₁, s₂, s₃, h₁, h₂, h₃, hP⟩ := threeCalls_of_check hc
  obtain ⟨hpage, hlive, hm, hblocks, hskew⟩ := of_decide_eq_true hP
  refine ⟨s₃, .cons ⟨⟨by decide, List.not_mem_nil⟩, h₁⟩
    (.cons ⟨⟨by decide, hpage⟩, h₂⟩ (.cons ⟨hlive, h₃⟩ (.nil s₃))), hm, hblocks, hskew,
    fun hok ↦ ?_⟩
  have hzero := hok.skew 2 hm
  rw [hskew] at hzero
  exact PageInv.pageUnits_pos.ne' hzero

end Mh.Heap
