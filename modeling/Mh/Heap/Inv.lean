import Mh.Heap.Model
import Mh.Lib.Tiles

/-!
# The blocks of a heap page

`PageInv k l f`: the block list of the page is `l`, which tiles the page, the free
list is `f`, which has the free blocks, and no two neighbours are free.  Allocating
takes a free block, and splits off what it does not need; freeing joins a block with
the free blocks next to it.
-/

namespace Mh.Heap

open Mh.Lib

variable {k : Kheap} {l f xs ys us vs : List Nat} {e n p q x : Nat}

namespace Kheap

/-- The length of a block. -/
def ulen (k : Kheap) (e : Nat) : Nat := (k.block e).ulen

/-- A block is free. -/
def Free (k : Kheap) (e : Nat) : Prop := (k.block e).isfree = true

/-- Two blocks are not both free. -/
def NotBoth (k : Kheap) (e e' : Nat) : Prop := ¬ (k.Free e ∧ k.Free e')

theorem block_add (k : Kheap) : k.add.block = Function.update k.block 0 ⟨true, pageUnits⟩ := rfl

theorem block_split (k : Kheap) (e n : Nat) :
    (k.split e n).block = Function.update k.block (e + n) ⟨true, k.ulen e - n⟩ := rfl

theorem block_take (k : Kheap) (e n : Nat) :
    (k.take e n).block = Function.update k.block e ⟨false, n⟩ := rfl

/-- Writing the record of a block says whether it is free. -/
theorem free_update {b : Ekheap} : (Function.update k.block e b x).isfree = true ↔
    (x = e ∧ b.isfree = true) ∨ x ≠ e ∧ k.Free x := by
  by_cases hx : x = e
  · subst hx
    rw [Function.update_self]
    simp
  · rw [Function.update_of_ne hx]
    simp [hx, Free]

theorem block_put (k : Kheap) (e : Nat) :
    (k.put e).block = Function.update k.block e ⟨true, k.ulen e⟩ := rfl

theorem block_mergePrev (k : Kheap) (q e : Nat) : (k.mergePrev q e).block =
    Function.update k.block q ⟨(k.block q).isfree, k.ulen q + k.ulen e⟩ := rfl

theorem block_mergeNext (k : Kheap) (e n : Nat) : (k.mergeNext e n).block =
    Function.update (Function.update k.block n ⟨false, k.ulen n⟩) e
      ⟨(k.block e).isfree, k.ulen e + k.ulen n⟩ := rfl

theorem free_put : (k.put e).Free x ↔ x = e ∨ k.Free x := by
  refine free_update.trans ?_
  by_cases hx : x = e
  · simp [hx]
  · simp [hx]

theorem free_mergePrev : (k.mergePrev q e).Free x ↔ k.Free x := by
  refine free_update.trans ?_
  by_cases hx : x = q
  · simp [hx, Free]
  · simp [hx]

theorem free_mergeNext (hne : e ≠ n) : (k.mergeNext e n).Free x ↔ x ≠ n ∧ k.Free x := by
  rw [Free, block_mergeNext]
  by_cases hx : x = e
  · subst hx
    rw [Function.update_self]
    simp [hne, Free]
  · rw [Function.update_of_ne hx]
    refine free_update.trans ?_
    simp

theorem free_take : (k.take e n).Free x ↔ x ≠ e ∧ k.Free x := by
  refine free_update.trans ?_
  simp

theorem free_split : (k.split e n).Free x ↔ x = e + n ∨ k.Free x := by
  refine free_update.trans ?_
  by_cases hx : x = e + n
  · simp [hx]
  · simp [hx]

end Kheap

/-- The invariant of a page. -/
structure PageInv (k : Kheap) (l f : List Nat) : Prop where
  list : k.list.Holds l
  freeList : k.freeList.Holds f
  tiles : Tiles k.ulen 0 l pageUnits
  free : ∀ e, e ∈ f ↔ e ∈ l ∧ k.Free e
  coalesced : l.IsChain k.NotBoth

/-! ## Neighbours -/

theorem isChain_middle {R : Nat → Nat → Prop} : (xs ++ e :: ys).IsChain R ↔
    xs.IsChain R ∧ (∀ x ∈ xs.getLast?, R x e) ∧ (∀ y ∈ ys.head?, R e y) ∧ ys.IsChain R := by
  rw [List.isChain_append, List.isChain_cons]
  constructor
  · rintro ⟨hx, ⟨hy, hys⟩, hxe⟩
    exact ⟨hx, fun x hm ↦ hxe x hm e rfl, hy, hys⟩
  · rintro ⟨hx, hxe, hy, hys⟩
    refine ⟨hx, ⟨hy, hys⟩, fun x hm y hy' ↦ ?_⟩
    obtain rfl : e = y := by simpa using hy'
    exact hxe x hm

theorem isChain_congr {k' : Kheap} (hc : l.IsChain k.NotBoth)
    (h : ∀ x ∈ l, k'.Free x ↔ k.Free x) : l.IsChain k'.NotBoth := by
  refine hc.imp_of_mem_imp fun x y hx hy hxy ↦ ?_
  rintro ⟨hfx, hfy⟩
  exact hxy ⟨(h x hx).1 hfx, (h y hy).1 hfy⟩

namespace PageInv

theorem blocks_eq (h : PageInv k l f) : k.blocks = l := by
  have hle := h.tiles.add_length_le
  exact h.list.walk (by omega)

theorem mem_of_free (h : PageInv k l f) (he : e ∈ f) : e ∈ l := ((h.free e).1 he).1

theorem frees_eq (h : PageInv k l f) : k.frees = f := by
  have hle := h.tiles.add_length_le
  have hsub : f.length ≤ l.length :=
    (h.freeList.nodup.subperm fun e he ↦ h.mem_of_free he).length_le
  exact h.freeList.walk (by omega)

/-! ## A new page -/

theorem pageUnits_pos : 0 < pageUnits := by decide

theorem ulen_add (k : Kheap) : k.add.ulen 0 = pageUnits := by
  rw [Kheap.ulen, Kheap.block_add, Function.update_self]

/-- The page that `kheap_add` sets up is one free block. -/
theorem add (k : Kheap) : PageInv k.add [0] [0] where
  list := Links.Holds.insertHead (Links.Holds.empty rfl) List.not_mem_nil
  freeList := Links.Holds.insertHead (Links.Holds.empty rfl) List.not_mem_nil
  tiles := by
    refine ⟨rfl, ?_, ?_⟩
    · rw [ulen_add]
      exact pageUnits_pos
    · show 0 + k.add.ulen 0 = pageUnits
      rw [ulen_add, Nat.zero_add]
  free e := by
    rw [List.mem_singleton]
    constructor
    · rintro rfl
      exact ⟨rfl, by rw [Kheap.Free, Kheap.block_add, Function.update_self]⟩
    · exact fun he ↦ he.1
  coalesced := .singleton 0

/-! ## Allocating -/

/-- The whole of a free block. -/
theorem take (h : PageInv k l (us ++ e :: vs)) :
    PageInv (k.take e (k.ulen e)) l (us ++ vs) := by
  obtain ⟨he, hfree⟩ := (h.free e).1 (List.mem_append_right _ List.mem_cons_self)
  have hn := List.nodup_cons.1 (List.nodup_middle.1 h.freeList.nodup)
  have hblock : ∀ x, x ≠ e → (k.take e (k.ulen e)).block x = k.block x :=
    fun x hx ↦ Function.update_of_ne hx _ _
  have hself : (k.take e (k.ulen e)).block e = ⟨false, k.ulen e⟩ := Function.update_self _ _ _
  refine ⟨h.list, h.freeList.remove, h.tiles.congr fun x _ ↦ ?_, fun x ↦ ?_, ?_⟩
  · by_cases hx : x = e
    · subst hx
      rw [Kheap.ulen, hself]
    · rw [Kheap.ulen, hblock x hx, Kheap.ulen]
  · rw [Kheap.free_take]
    have hmem := h.free x
    constructor
    · intro hm
      have hxe : x ≠ e := by
        rintro rfl
        exact hn.1 hm
      obtain ⟨hl, hf⟩ := hmem.1 (by
        rcases List.mem_append.1 hm with hm | hm
        · exact List.mem_append_left _ hm
        · exact List.mem_append_right _ (List.mem_cons_of_mem _ hm))
      exact ⟨hl, hxe, hf⟩
    · rintro ⟨hl, hxe, hf⟩
      rcases List.mem_append.1 (hmem.2 ⟨hl, hf⟩) with hm | hm
      · exact List.mem_append_left _ hm
      · rcases List.mem_cons.1 hm with rfl | hm
        · exact absurd rfl hxe
        · exact List.mem_append_right _ hm
  · refine h.coalesced.imp fun x y hxy hboth ↦ hxy ?_
    exact ⟨(Kheap.free_take.1 hboth.1).2, (Kheap.free_take.1 hboth.2).2⟩

/-- A unit inside a block begins no block. -/
theorem notMem_inside (h : PageInv k l f) (he : e ∈ l) (hn : 0 < n) (hlt : n < k.ulen e) :
    e + n ∉ l := by
  intro hm
  rcases h.tiles.apart he hm (by omega) with hle | hle
  · omega
  · omega

/-- The beginning of a free block: what is left of it is a free block. -/
theorem takeSplit (h : PageInv k (xs ++ e :: ys) (us ++ e :: vs)) (hn : 0 < n)
    (hlt : n < k.ulen e) :
    PageInv ((k.split e n).take e n) (xs ++ e :: (e + n) :: ys) ((e + n) :: (us ++ vs)) := by
  have hel : e ∈ xs ++ e :: ys := List.mem_append_right _ List.mem_cons_self
  have hfree : k.Free e := ((h.free e).1 (List.mem_append_right _ List.mem_cons_self)).2
  have hnew := h.notMem_inside hel hn hlt
  have hnewf : e + n ∉ us ++ e :: vs := fun hm ↦ hnew (h.mem_of_free hm)
  have hnl := List.nodup_cons.1 (List.nodup_middle.1 h.list.nodup)
  have hnf := List.nodup_cons.1 (List.nodup_middle.1 h.freeList.nodup)
  have hne : e + n ≠ e := by omega
  obtain ⟨k', hk'⟩ : ∃ k', k' = (k.split e n).take e n := ⟨_, rfl⟩
  have he : k'.block e = ⟨false, n⟩ := by rw [hk', Kheap.block_take, Function.update_self]
  have hen : k'.block (e + n) = ⟨true, k.ulen e - n⟩ := by
    rw [hk', Kheap.block_take, Function.update_of_ne hne, Kheap.block_split, Function.update_self]
  have hx : ∀ x, x ≠ e → x ≠ e + n → k'.block x = k.block x := by
    intro x hxe hxn
    rw [hk', Kheap.block_take, Function.update_of_ne hxe, Kheap.block_split,
      Function.update_of_ne hxn]
  -- the other blocks keep their records
  have hold : ∀ x ∈ xs ++ ys, k'.block x = k.block x := by
    intro x hm
    refine hx x ?_ ?_
    · rintro rfl
      exact hnl.1 hm
    · rintro rfl
      rcases List.mem_append.1 hm with hm | hm
      · exact hnew (List.mem_append_left _ hm)
      · exact hnew (List.mem_append_right _ (List.mem_cons_of_mem _ hm))
  have hfe : ¬ k'.Free e := by
    rw [Kheap.Free, he]
    exact Bool.false_ne_true
  have hfen : k'.Free (e + n) := by rw [Kheap.Free, hen]
  have hfold : ∀ x ∈ xs ++ ys, k'.Free x ↔ k.Free x := by
    intro x hm
    rw [Kheap.Free, Kheap.Free, hold x hm]
  rw [← hk']
  refine ⟨?_, ?_, ?_, ?_, ?_⟩
  · rw [hk']
    exact h.list.insertAfter hnew
  · rw [hk']
    have hins := h.freeList.insertHead hnewf
    rw [← List.cons_append] at hins
    exact hins.remove
  · refine h.tiles.cut hn hlt ?_ ?_ fun x hm ↦ ?_
    · rw [Kheap.ulen, he]
    · rw [Kheap.ulen, hen]
    · rw [Kheap.ulen, Kheap.ulen, hold x hm]
  · intro x
    have hmem := h.free x
    by_cases hxe : x = e
    · subst hxe
      refine iff_of_false ?_ fun hc ↦ hfe hc.2
      intro hm
      rcases List.mem_cons.1 hm with heq | hm
      · omega
      · exact hnf.1 hm
    · by_cases hxn : x = e + n
      · subst hxn
        refine iff_of_true List.mem_cons_self ⟨?_, hfen⟩
        exact List.mem_append_right _ (List.mem_cons_of_mem _ List.mem_cons_self)
      · have hfx : k'.Free x ↔ k.Free x := by rw [Kheap.Free, Kheap.Free, hx x hxe hxn]
        rw [hfx]
        simpa [hxe, hxn] using hmem
  · obtain ⟨hcx, hxe, hey, hcy⟩ := isChain_middle.1 h.coalesced
    refine isChain_middle.2 ⟨?_, ?_, ?_, List.isChain_cons.2 ⟨?_, ?_⟩⟩
    · exact isChain_congr hcx fun x hm ↦ hfold x (List.mem_append_left _ hm)
    · exact fun x _ hb ↦ hfe hb.2
    · exact fun y _ hb ↦ hfe hb.1
    · -- what followed the block that was free is not
      intro y hy hb
      have hyl : y ∈ ys := List.mem_of_head? hy
      exact hey y hy ⟨hfree, (hfold y (List.mem_append_right _ hyl)).1 hb.2⟩
    · exact isChain_congr hcy fun x hm ↦ hfold x (List.mem_append_right _ hm)

/-- `kheap_alloc`: a block that was free is not any more, and the other blocks in use
are as before; or there is no free block that is large enough. -/
theorem allocUnits (h : PageInv k l f) (hn : 0 < n) :
    (k.allocUnits n = .ok (none, k) ∧ ∀ e ∈ f, k.ulen e < n) ∨
    ∃ e k' l' f', k.allocUnits n = .ok (some (e + 1), k') ∧ PageInv k' l' f' ∧
      e ∈ l ∧ k.Free e ∧
      ∀ x, x ∈ l' ∧ ¬ k'.Free x ↔ x = e ∨ x ∈ l ∧ ¬ k.Free x := by
  rw [Kheap.allocUnits, h.frees_eq]
  cases hfind : f.find? fun eptr ↦ n ≤ (k.block eptr).ulen with
  | none =>
      left
      refine ⟨rfl, fun e he ↦ ?_⟩
      have hlt := List.find?_eq_none.1 hfind e he
      rw [decide_eq_true_eq] at hlt
      exact Nat.not_le.1 hlt
  | some e =>
      right
      have hef := List.mem_of_find?_eq_some hfind
      have hle : n ≤ k.ulen e := by
        have hd := List.find?_some hfind
        rw [decide_eq_true_eq] at hd
        exact hd
      obtain ⟨hel, hfree⟩ := (h.free e).1 hef
      obtain ⟨xs, ys, rfl⟩ := List.append_of_mem hel
      obtain ⟨us, vs, rfl⟩ := List.append_of_mem hef
      simp only [if_pos (show (k.block e).isfree = true from hfree)]
      by_cases heq : n = k.ulen e
      · subst heq
        refine ⟨e, _, _, _, by rw [if_neg (by simp [Kheap.ulen])], h.take, hel, hfree, fun x ↦ ?_⟩
        rw [Kheap.free_take]
        by_cases hx : x = e
        · subst hx
          exact iff_of_true ⟨hel, fun hc ↦ hc.1 rfl⟩ (.inl rfl)
        · simp [hx]
      · have hlt : n < k.ulen e := lt_of_le_of_ne hle heq
        refine ⟨e, _, _, _, ?_, h.takeSplit hn hlt, hel, hfree, fun x ↦ ?_⟩
        · rw [if_pos (show (k.block e).ulen - n ≠ 0 from Nat.sub_ne_zero_of_lt hlt)]
        · have hnew := h.notMem_inside hel hn hlt
          rw [Kheap.free_take, Kheap.free_split]
          by_cases hx : x = e
          · subst hx
            exact iff_of_true ⟨by simp, fun hc ↦ hc.1 rfl⟩ (.inl rfl)
          · by_cases hxn : x = e + n
            · subst hxn
              refine iff_of_false (fun hc ↦ hc.2 ⟨hx, .inl rfl⟩) ?_
              rintro (he | hc)
              · exact hx he
              · exact hnew hc.1
            · simp [hx, hxn]

/-! ## Freeing -/

/-- A block in use and the free block after it become one block in use. -/
theorem mergeNext (h : PageInv k (xs ++ e :: n :: ys) (us ++ n :: vs)) (he : ¬ k.Free e) :
    PageInv (k.mergeNext e n) (xs ++ e :: ys) (us ++ vs) := by
  have hap : xs ++ e :: n :: ys = (xs ++ [e]) ++ n :: ys := by rw [List.append_assoc]; rfl
  have hnl := List.nodup_cons.1 (List.nodup_middle.1 h.list.nodup)
  have hnf := List.nodup_cons.1 (List.nodup_middle.1 h.freeList.nodup)
  have hnn : n ∉ xs ++ e :: ys := by
    have hn := h.list.nodup
    rw [hap] at hn
    simpa using (List.nodup_cons.1 (List.nodup_middle.1 hn)).1
  have hen : e ≠ n := by
    rintro rfl
    exact hnl.1 (by simp)
  have hold : ∀ x ∈ xs ++ ys, (k.mergeNext e n).block x = k.block x := by
    intro x hm
    have hxe : x ≠ e := by
      rintro rfl
      exact hnl.1 (by simpa using Or.imp_right .inr (List.mem_append.1 hm))
    have hxn : x ≠ n := by
      rintro rfl
      exact hnn (by simpa using Or.imp_right .inr (List.mem_append.1 hm))
    rw [Kheap.block_mergeNext, Function.update_of_ne hxe, Function.update_of_ne hxn]
  have hself : (k.mergeNext e n).ulen e = k.ulen e + k.ulen n := by
    rw [Kheap.ulen, Kheap.block_mergeNext, Function.update_self]
  refine ⟨?_, h.freeList.remove, ?_, fun x ↦ ?_, ?_⟩
  · have hl := h.list
    rw [hap] at hl
    have hrem := hl.remove
    rwa [List.append_assoc] at hrem
  · refine h.tiles.glue hself fun x hm ↦ ?_
    rw [Kheap.ulen, Kheap.ulen, hold x hm]
  · rw [Kheap.free_mergeNext hen]
    have hmem := h.free x
    by_cases hxn : x = n
    · subst hxn
      exact iff_of_false hnf.1 fun hc ↦ hc.2.1 rfl
    · simpa [hxn] using hmem
  · obtain ⟨hcx, hxe, _, hcy⟩ := isChain_middle.1 h.coalesced
    have hcy' := (List.isChain_cons.1 hcy).2
    have hsub : ∀ x, (k.mergeNext e n).Free x → k.Free x :=
      fun x hx ↦ ((Kheap.free_mergeNext hen).1 hx).2
    refine isChain_middle.2 ⟨?_, ?_, ?_, ?_⟩
    · exact hcx.imp fun x y hxy hb ↦ hxy ⟨hsub x hb.1, hsub y hb.2⟩
    · exact fun x _ hb ↦ he (hsub e hb.2)
    · exact fun y _ hb ↦ he (hsub e hb.1)
    · exact hcy'.imp fun x y hxy hb ↦ hxy ⟨hsub x hb.1, hsub y hb.2⟩

/-- `kheap_free` up to the test of the block before: the block is still in use, and
the block after it is in use. -/
theorem absorb (h : PageInv k (xs ++ e :: ys) f) (he : ¬ k.Free e) :
    ∃ ys' f', PageInv (k.absorb e) (xs ++ e :: ys') f' ∧
      (∀ y ∈ ys'.head?, ¬ (k.absorb e).Free y) ∧
      (∀ x ∈ xs ++ [e], (k.absorb e).Free x ↔ k.Free x) ∧
      ∀ x, x ∈ xs ++ e :: ys' ∧ ¬ (k.absorb e).Free x ↔ x ∈ xs ++ e :: ys ∧ ¬ k.Free x := by
  have hnext := h.list.next_eq
  cases ys with
  | nil =>
      have hab : k.absorb e = k := by rw [Kheap.absorb, hnext]; rfl
      rw [hab]
      exact ⟨[], f, h, fun y hy ↦ absurd hy (by simp), fun _ _ ↦ Iff.rfl, fun _ ↦ Iff.rfl⟩
  | cons n ys =>
      rw [List.head?_cons] at hnext
      by_cases hn : k.Free n
      · have hab : k.absorb e = k.mergeNext e n := by
          rw [Kheap.absorb, hnext]
          exact if_pos hn
        have hnl : n ∈ f := (h.free n).2 ⟨by simp, hn⟩
        obtain ⟨us, vs, rfl⟩ := List.append_of_mem hnl
        have hmerge := h.mergeNext he
        have hen : e ≠ n := by
          rintro rfl
          exact he hn
        have hx : n ∉ xs ++ e :: ys := by
          have hnd := h.list.nodup
          have hsplit : xs ++ e :: n :: ys = (xs ++ [e]) ++ n :: ys := by
            rw [List.append_assoc]
            rfl
          rw [hsplit] at hnd
          simpa using (List.nodup_cons.1 (List.nodup_middle.1 hnd)).1
        rw [hab]
        refine ⟨ys, us ++ vs, hmerge, ?_, ?_, ?_⟩
        · -- the block after a free one is not free
          intro y hy hf
          obtain ⟨_, _, _, hcy⟩ := isChain_middle.1 h.coalesced
          have hny := (List.isChain_cons.1 hcy).1 y hy
          exact hny ⟨hn, ((Kheap.free_mergeNext hen).1 hf).2⟩
        · intro x hm
          rw [Kheap.free_mergeNext hen]
          refine and_iff_right ?_
          rintro rfl
          refine hx ?_
          rcases List.mem_append.1 hm with hm | hm
          · exact List.mem_append_left _ hm
          · exact List.mem_append_right _ (List.mem_singleton.1 hm ▸ List.mem_cons_self)
        · intro x
          rw [Kheap.free_mergeNext hen]
          by_cases hxn : x = n
          · subst hxn
            exact iff_of_false (fun hc ↦ hx hc.1) fun hc ↦ hc.2 hn
          · simp [hxn]
      · have hab : k.absorb e = k := by
          rw [Kheap.absorb, hnext]
          exact if_neg hn
        rw [hab]
        refine ⟨n :: ys, f, h, fun y hy ↦ ?_, fun _ _ ↦ Iff.rfl, fun _ ↦ Iff.rfl⟩
        obtain rfl : n = y := by simpa using hy
        exact hn

/-- A free block and the block in use after it become one free block. -/
theorem mergePrev (h : PageInv k (xs ++ q :: e :: ys) f) (hq : k.Free q) (he : ¬ k.Free e)
    (hy : ∀ y ∈ ys.head?, ¬ k.Free y) : PageInv (k.mergePrev q e) (xs ++ q :: ys) f := by
  have hap : xs ++ q :: e :: ys = (xs ++ [q]) ++ e :: ys := by rw [List.append_assoc]; rfl
  have hnl := List.nodup_cons.1 (List.nodup_middle.1 h.list.nodup)
  have hold : ∀ x ∈ xs ++ ys, (k.mergePrev q e).block x = k.block x := by
    intro x hm
    have hxq : x ≠ q := by
      rintro rfl
      exact hnl.1 (by simpa using Or.imp_right .inr (List.mem_append.1 hm))
    rw [Kheap.block_mergePrev, Function.update_of_ne hxq]
  refine ⟨?_, h.freeList, ?_, fun x ↦ ?_, ?_⟩
  · have hl := h.list
    rw [hap] at hl
    have hrem := hl.remove
    rwa [List.append_assoc] at hrem
  · refine h.tiles.glue ?_ fun x hm ↦ ?_
    · rw [Kheap.ulen, Kheap.block_mergePrev, Function.update_self]
    · rw [Kheap.ulen, Kheap.ulen, hold x hm]
  · rw [Kheap.free_mergePrev]
    have hmem := h.free x
    by_cases hxe : x = e
    · subst hxe
      exact iff_of_false (fun hm ↦ he (hmem.1 hm).2) fun hc ↦ he hc.2
    · simpa [hxe] using hmem
  · obtain ⟨hcx, hxq, _, hcy⟩ := isChain_middle.1 h.coalesced
    have hfree : ∀ x, (k.mergePrev q e).Free x ↔ k.Free x := fun x ↦ Kheap.free_mergePrev
    refine isChain_middle.2 ⟨?_, ?_, ?_, ?_⟩
    · exact isChain_congr hcx fun x _ ↦ hfree x
    · intro x hx hb
      exact hxq x hx ⟨(hfree x).1 hb.1, (hfree q).1 hb.2⟩
    · exact fun y hm hb ↦ hy y hm ((hfree y).1 hb.2)
    · exact isChain_congr (List.isChain_cons.1 hcy).2 fun x _ ↦ hfree x

/-- A block between blocks in use becomes free. -/
theorem put (h : PageInv k (xs ++ e :: ys) f) (he : ¬ k.Free e)
    (hx : ∀ x ∈ xs.getLast?, ¬ k.Free x) (hy : ∀ y ∈ ys.head?, ¬ k.Free y) :
    PageInv (k.put e) (xs ++ e :: ys) (e :: f) := by
  have hef : e ∉ f := fun hm ↦ he ((h.free e).1 hm).2
  have hnl := List.nodup_cons.1 (List.nodup_middle.1 h.list.nodup)
  have hmono : ∀ x, x ≠ e → ((k.put e).Free x ↔ k.Free x) := by
    intro x hxe
    rw [Kheap.free_put]
    exact or_iff_right hxe
  refine ⟨h.list, h.freeList.insertHead hef, h.tiles.congr fun x _ ↦ ?_, fun x ↦ ?_, ?_⟩
  · rw [Kheap.ulen, Kheap.block_put]
    by_cases hxe : x = e
    · subst hxe
      rw [Function.update_self]
    · rw [Function.update_of_ne hxe, Kheap.ulen]
  · rw [Kheap.free_put, List.mem_cons]
    by_cases hxe : x = e
    · subst hxe
      exact iff_of_true (.inl rfl) ⟨by simp, .inl rfl⟩
    · rw [or_iff_right hxe, or_iff_right hxe]
      exact h.free x
  · obtain ⟨hcx, _, _, hcy⟩ := isChain_middle.1 h.coalesced
    have hne : ∀ x ∈ xs ++ ys, x ≠ e := by
      rintro x hm rfl
      exact hnl.1 hm
    refine isChain_middle.2 ⟨?_, ?_, ?_, ?_⟩
    · exact isChain_congr hcx fun x hm ↦ hmono x (hne x (List.mem_append_left _ hm))
    · intro x hm hb
      have hxs := List.mem_append_left ys (List.mem_of_getLast? hm)
      exact hx x hm ((hmono x (hne x hxs)).1 hb.1)
    · intro y hm hb
      have hys := List.mem_append_right xs (List.mem_of_head? hm)
      exact hy y hm ((hmono y (hne y hys)).1 hb.2)
    · exact isChain_congr hcy fun x hm ↦ hmono x (hne x (List.mem_append_right _ hm))

end PageInv

end Mh.Heap
