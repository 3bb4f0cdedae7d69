import Mh.Bus.Xcopy
import Mh.Xcopy.Model

/-!
# What a copy between two address spaces does

A round copies the bytes of one page of the client, which are those of the entry that `pmap_hmap`
maps; the rounds follow each other.  The bytes that are copied are a prefix, the slot of
`KVA_HYPER` is empty in the end and the lock is free.

`memcpy` goes forwards without a look at what overlaps.  A process that copies from itself can write
over bytes that are still to be read (`xcopy_overlap`).
-/

namespace Mh.Xcopy

open Mh.Lib Mh.Vm

variable {write : Bool} {pmap va xva sz n k : Nat} {ret : Int} {s t : State}
  {src dst : Nat → Option Nat} {m : Nat → BitVec 8}

/-! ## `__usrcpy` -/

theorem sum_trailing {r : Nat} (h : r < 4) : (trailing r).sum = r := by
  match r, h with
  | 0, _ | 1, _ | 2, _ | 3, _ => rfl

theorem sum_moves (sz : Nat) : (moves sz).sum = sz := by
  rw [moves, List.sum_append, sum_trailing (Nat.mod_lt _ (by decide)), List.sum_replicate_nat,
    Nat.mul_comm]
  exact Nat.div_add_mod sz 4

/-- It copies everything, or a prefix. -/
theorem usrcpy_spec (uaddr : Nat) (dst src : Nat → Option Nat) (hpos : 0 < sz)
    (m : Nat → BitVec 8) :
    ∃ n ≤ sz, Copied src dst 0 n m (usrcpy uaddr dst src sz m).2 ∧
      ((usrcpy uaddr dst src sz m).1 = 0 ∧ n = sz ∧ chkuaddr uaddr sz ∨
        (usrcpy uaddr dst src sz m).1 = Errno.EFAULT.neg ∧ n < sz ∧
          ¬ (chkuaddr uaddr sz ∧ Accessible src dst 0 sz)) := by
  rw [usrcpy]
  by_cases hchk : chkuaddr uaddr sz
  · obtain ⟨hc, _, hend⟩ := copied_copyUnits src dst (moves sz) 0 m
    rw [sum_moves, Nat.zero_add] at hend
    rw [hchk, if_neg (by decide)]
    rcases hend with heq | ⟨hlt, hno⟩
    · refine ⟨_, heq.le, hc, .inl ⟨if_pos heq, heq, rfl⟩⟩
    · exact ⟨_, hlt.le, hc, .inr ⟨if_neg hlt.ne, hlt, fun h ↦ hno h.2⟩⟩
  · rw [Bool.not_eq_true] at hchk
    rw [hchk, if_pos (by decide)]
    exact ⟨0, Nat.zero_le _, .refl src dst 0 m, .inr ⟨rfl, hpos, fun h ↦ absurd h.1 (by decide)⟩⟩

/-! ## Rounds -/

/-- The size of a round. -/
def todo (xva sz : Nat) : Nat := min sz (pageSize - xva % pageSize)

theorem todo_pos (hpos : 0 < sz) : 0 < todo xva sz := by
  have hmod : xva % pageSize < pageSize := Nat.mod_lt _ pageSize_pos
  exact Nat.lt_min.2 ⟨hpos, Nat.sub_pos_of_lt hmod⟩

theorem todo_le : todo xva sz ≤ sz := Nat.min_le_left _ _

/-- A round stays in its page. -/
theorem vpn_add (hk : k < todo xva sz) :
    vpn (xva + k) = vpn xva ∧ (xva + k) % pageSize = xva % pageSize + k := by
  have hlt : k < pageSize - xva % pageSize := Nat.lt_of_lt_of_le hk (Nat.min_le_right _ _)
  simp only [vpn, pageSize_eq] at hlt ⊢
  omega

/-- The places of the bytes depend on the page tables. -/
theorem State.user_congr (hl1 : t.l1 = s.l1) (hcur : t.cur = s.cur) : t.user = s.user := by
  funext w va k
  rw [State.user, State.user, hl1, hcur]

theorem State.src_congr (hl1 : t.l1 = s.l1) (hcur : t.cur = s.cur) : t.src = s.src := by
  funext w pmap va xva k
  rw [State.src, State.src, State.user_congr hl1 hcur, hl1]

theorem State.dst_congr (hl1 : t.l1 = s.l1) (hcur : t.cur = s.cur) : t.dst = s.dst := by
  funext w pmap va xva k
  rw [State.dst, State.dst, State.user_congr hl1 hcur, hl1]

/-- The places of the bytes from the next round on. -/
theorem State.user_add (s : State) (w : Bool) (va c k : Nat) :
    s.user w (w32 (va + c)) k = s.user w va (c + k) := by
  have heq : w32 (w32 (va + c) + k) = w32 (va + (c + k)) := by
    rw [w32, w32, w32, Nat.mod_add_mod, Nat.add_assoc]
  rw [State.user, State.user, heq]

theorem State.src_add (s : State) (write : Bool) (pmap va xva c k : Nat) :
    s.src write pmap (w32 (va + c)) (xva + c) k = s.src write pmap va xva (c + k) := by
  rw [State.src, State.src, State.user_add, Nat.add_assoc]

theorem State.dst_add (s : State) (write : Bool) (pmap va xva c k : Nat) :
    s.dst write pmap (w32 (va + c)) (xva + c) k = s.dst write pmap va xva (c + k) := by
  rw [State.dst, State.dst, State.user_add, Nat.add_assoc]

/-- The state past `pmap_hmap`. -/
def State.mapped (s : State) (pmap xva : Nat) : State :=
  { s with lock := Function.update s.lock pmap true, hyper := s.l1 pmap (vpn xva) }

theorem State.hmap_ok (hxva : isuaddr xva) (hlock : s.lock pmap = false)
    (hhyper : s.hyper.p = false) : s.hmap pmap xva = .ok (s.mapped pmap xva) := by
  rw [State.hmap, hxva, hlock, hhyper]
  rfl

/-- The places of a round are those of the copy. -/
theorem State.roundSrc_eq (s : State) (write : Bool) (va : Nat) (hk : k < todo xva sz) :
    s.src write pmap va xva k = (s.mapped pmap xva).roundSrc write va xva k := by
  obtain ⟨hpage, hoff⟩ := vpn_add hk
  cases write with
  | true => exact congrFun₂ (congrFun (State.user_congr rfl rfl).symm false) va k
  | false =>
      show readAt (s.l1 pmap (vpn (xva + k))) ((xva + k) % pageSize) = _
      rw [hpage, hoff]
      rfl

@[inherit_doc State.roundSrc_eq]
theorem State.roundDst_eq (s : State) (write : Bool) (va : Nat) (hk : k < todo xva sz) :
    s.dst write pmap va xva k = (s.mapped pmap xva).roundDst write va xva k := by
  obtain ⟨hpage, hoff⟩ := vpn_add hk
  cases write with
  | true =>
      show writeAt (s.l1 pmap (vpn (xva + k))) ((xva + k) % pageSize) = _
      rw [hpage, hoff]
      rfl
  | false => exact congrFun₂ (congrFun (State.user_congr rfl rfl).symm true) va k

/-- A round copies its bytes, or a prefix of them. -/
theorem State.round_spec (s : State) (write : Bool) (pmap va xva : Nat) (hpos : 0 < sz) :
    ∃ n ≤ todo xva sz,
      Copied (s.src write pmap va xva) (s.dst write pmap va xva) 0 n s.mem
        ((s.mapped pmap xva).round write va xva (todo xva sz)).2.mem ∧
      (((s.mapped pmap xva).round write va xva (todo xva sz)).1 = 0 ∧ n = todo xva sz ∧
          chkuaddr va (todo xva sz) ∨
        ((s.mapped pmap xva).round write va xva (todo xva sz)).1 = Errno.EFAULT.neg ∧
          n < todo xva sz ∧
          ¬ (chkuaddr va (todo xva sz) ∧
            Accessible (s.src write pmap va xva) (s.dst write pmap va xva) 0 (todo xva sz))) := by
  obtain ⟨n, hn, hc, hend⟩ := usrcpy_spec va ((s.mapped pmap xva).roundDst write va xva)
    ((s.mapped pmap xva).roundSrc write va xva) (todo_pos hpos) s.mem
  have hacc : Accessible (s.src write pmap va xva) (s.dst write pmap va xva) 0 (todo xva sz) ↔
      Accessible ((s.mapped pmap xva).roundSrc write va xva)
        ((s.mapped pmap xva).roundDst write va xva) 0 (todo xva sz) :=
    Accessible.congr (fun i hi ↦ s.roundSrc_eq write va ((Nat.zero_add i).symm ▸ hi))
      fun i hi ↦ s.roundDst_eq write va ((Nat.zero_add i).symm ▸ hi)
  rw [hacc]
  refine ⟨n, hn, hc.congr (fun k _ hk ↦ s.roundSrc_eq write va (Nat.lt_of_lt_of_le hk hn))
    (fun k _ hk ↦ s.roundDst_eq write va (Nat.lt_of_lt_of_le hk hn)), hend⟩

/-! ## The loop -/

/-- The bytes of the caller are user addresses, if there are any. -/
def UserRange (va n : Nat) : Prop := 0 < n → userBase ≤ va ∧ va + n ≤ userEnd

/-- What a copy returns and leaves, from a round on, where `ret` is what the variable holds. -/
structure Spec (write : Bool) (pmap : Nat) (ret : Int) (s : State) (va xva sz : Nat) (ret' : Int)
    (t : State) : Prop where
  bytes : ∃ n ≤ sz, Copied (s.src write pmap va xva) (s.dst write pmap va xva) 0 n s.mem t.mem ∧
    (ret' = (if sz = 0 then ret else 0) ∧ n = sz ∧ UserRange va sz ∨
      ret' = Errno.EFAULT.neg ∧ n < sz ∧
        ¬ (UserRange va sz ∧
          Accessible (s.src write pmap va xva) (s.dst write pmap va xva) 0 sz))
  hyper : t.hyper.p = false
  lock : t.lock = s.lock
  l1 : t.l1 = s.l1
  cur : t.cur = s.cur

/-- A round whose bytes are copied, and what the others do. -/
theorem Spec.next {u : State} {c : Nat} {ret' : Int} (hpos : 0 < c) (hc : c ≤ sz)
    (hbase : userBase ≤ va) (hlimit : va + c ≤ userEnd) (hl1 : u.l1 = s.l1) (hcur : u.cur = s.cur)
    (hlock : u.lock = s.lock)
    (hfirst : Copied (s.src write pmap va xva) (s.dst write pmap va xva) 0 c s.mem u.mem)
    (hrest : Spec write pmap 0 u (w32 (va + c)) (xva + c) (sz - c) ret' t) :
    Spec write pmap ret s va xva sz ret' t := by
  have hsrc : u.src write pmap (w32 (va + c)) (xva + c) =
      fun k ↦ s.src write pmap va xva (c + k) := by
    funext k
    rw [State.src_congr hl1 hcur, State.src_add]
  have hdst : u.dst write pmap (w32 (va + c)) (xva + c) =
      fun k ↦ s.dst write pmap va xva (c + k) := by
    funext k
    rw [State.dst_congr hl1 hcur, State.dst_add]
  have hw : w32 (va + c) = va + c := by
    rw [userEnd_eq] at hlimit
    exact Nat.mod_eq_of_lt (by omega)
  have hne : sz ≠ 0 := (Nat.lt_of_lt_of_le hpos hc).ne'
  obtain ⟨n, hn, hcopied, hend⟩ := hrest.bytes
  rw [hsrc, hdst] at hcopied hend
  rw [hw] at hend
  refine ⟨⟨c + n, by omega, hfirst.trans (hcopied.shift c) (Nat.zero_le c) (Nat.le_add_right c n),
    ?_⟩, hrest.hyper, hrest.lock.trans hlock, hrest.l1.trans hl1, hrest.cur.trans hcur⟩
  rcases hend with ⟨hret, hall, hrange⟩ | ⟨hret, hlt, hno⟩
  · refine .inl ⟨?_, by omega, fun _ ↦ ⟨hbase, ?_⟩⟩
    · rw [hret, ite_self, if_neg hne]
    · rcases Nat.eq_zero_or_pos (sz - c) with hz | hmore
      · omega
      · have hlast := (hrange hmore).2
        omega
  · refine .inr ⟨hret, by omega, fun ⟨hrange, hacc⟩ ↦ hno ⟨fun _ ↦ ?_, fun i hi ↦ ?_⟩⟩
    · have hlast := (hrange (Nat.pos_of_ne_zero hne)).2
      exact ⟨hbase.trans (Nat.le_add_right va c), by omega⟩
    · have hi' := hacc (c + i) (by omega)
      rw [Nat.zero_add] at hi' ⊢
      exact hi'

/-- The slot and the lock after a round. -/
theorem State.hunmap_round (s : State) (write : Bool) (va xva sz : Nat)
    (hlock : s.lock pmap = false) :
    (((s.mapped pmap xva).round write va xva sz).2.hunmap pmap).lock = s.lock := by
  show Function.update (Function.update s.lock pmap true) pmap false = s.lock
  rw [Function.update_idem, ← hlock, Function.update_eq_self]

/-- One round of the loop. -/
theorem xcopy_round (write : Bool) (ret : Int) (va : Nat) (hpos : 0 < sz) (hxva : isuaddr xva)
    (hlock : s.lock pmap = false) (hhyper : s.hyper.p = false)
    {r : Int × State} (hr : (s.mapped pmap xva).round write va xva (todo xva sz) = r) :
    xcopy write pmap ret s va xva sz =
      if r.1 ≠ 0 then .ok (r.1, r.2.hunmap pmap)
      else xcopy write pmap r.1 (r.2.hunmap pmap) (w32 (va + todo xva sz))
        (w32 (xva + todo xva sz)) (sz - todo xva sz) := by
  subst hr
  rw [xcopy, if_neg hpos.ne', State.hmap_ok hxva hlock hhyper]
  rfl

/-- There is always a result. -/
theorem xcopy_spec (write : Bool) (pmap : Nat) (ret : Int) (s : State) (va xva sz : Nat)
    (hlock : s.lock pmap = false) (hhyper : s.hyper.p = false) (hlo : userBase ≤ xva)
    (hhi : xva + sz ≤ userEnd) :
    ∃ ret' t, xcopy write pmap ret s va xva sz = .ok (ret', t) ∧
      Spec write pmap ret s va xva sz ret' t := by
  induction sz using Nat.strong_induction_on generalizing ret s va xva with
  | _ sz ih =>
      rcases Nat.eq_zero_or_pos sz with rfl | hpos
      · rw [xcopy]
        exact ⟨ret, s, if_pos rfl, ⟨0, Nat.le_refl 0, .refl _ _ 0 s.mem,
          .inl ⟨rfl, rfl, fun h ↦ absurd h (Nat.lt_irrefl 0)⟩⟩, hhyper, rfl, rfl, rfl⟩
      · have hlimit32 := hhi
        rw [userEnd_eq] at hlimit32
        have hxva : isuaddr xva := by
          rw [userBase_eq] at hlo
          exact isuaddr_iff.2 (by omega)
        have hc : todo xva sz ≤ sz := todo_le
        have hcpos : 0 < todo xva sz := todo_pos hpos
        obtain ⟨n, hn, hcopied, hend⟩ := s.round_spec write pmap va xva hpos
        have hlock' := s.hunmap_round write va xva (todo xva sz) hlock
        rw [xcopy_round write ret va hpos hxva hlock hhyper rfl]
        set r := (s.mapped pmap xva).round write va xva (todo xva sz)
        rcases hend with ⟨hret, rfl, hchk⟩ | ⟨hret, hlt, hno⟩
        · -- the next round
          have hw : w32 (xva + todo xva sz) = xva + todo xva sz := Nat.mod_eq_of_lt (by omega)
          obtain ⟨hbase, _, hlimit⟩ := range_of_chkuaddr (by omega) hchk
          obtain ⟨ret', t, hrest, hspec⟩ := ih (sz - todo xva sz) (Nat.sub_lt hpos hcpos) 0
            (r.2.hunmap pmap) (w32 (va + todo xva sz)) (xva + todo xva sz)
            (by rw [hlock', hlock]) rfl (hlo.trans (Nat.le_add_right _ _)) (by omega)
          rw [hret, if_neg (not_not_intro rfl), hw]
          exact ⟨ret', t, hrest, .next (u := r.2.hunmap pmap) hcpos hc hbase hlimit rfl rfl hlock'
            hcopied hspec⟩
        · -- the fault
          rw [hret, if_pos (by decide)]
          refine ⟨_, _, rfl, ⟨n, hn.trans hc, hcopied, .inr ⟨rfl, Nat.lt_of_lt_of_le hlt hc, ?_⟩⟩,
            rfl, hlock', rfl, rfl⟩
          rintro ⟨hrange, hacc⟩
          obtain ⟨hbase, hlimit⟩ := hrange hpos
          exact hno ⟨chkuaddr_of_range hbase hcpos (by omega),
            fun i hi ↦ hacc i (Nat.lt_of_lt_of_le hi hc)⟩

/-! ## Runs -/

/-- No call is going on. -/
structure Idle (s : State) : Prop where
  hyper : s.hyper.p = false
  lock : ∀ pmap, s.lock pmap = false

theorem Idle.boot (mem : Nat → BitVec 8) (l1 : Nat → Nat → L1e) (cur : Nat) :
    Idle (.boot mem l1 cur) where
  hyper := rfl
  lock _ := rfl

/-- `pmap_hmap` may stop the call; otherwise the page is mapped. -/
theorem State.eq_mapped (h : s.hmap pmap xva = .ok t) :
    isuaddr xva ∧ s.lock pmap = false ∧ s.hyper.p = false ∧ t = s.mapped pmap xva := by
  rw [State.hmap] at h
  cases hxva : isuaddr xva <;> cases hlock : s.lock pmap <;> cases hhyper : s.hyper.p <;>
    simp only [hxva, hlock, hhyper, Bool.not_true, Bool.not_false, if_true, if_false,
      Bool.false_eq_true, reduceCtorEq, Except.ok.injEq] at h
  exact ⟨rfl, rfl, rfl, h.symm⟩

/-- A copy from any address keeps this, when it returns. -/
theorem Idle.xcopy {write : Bool} {ret' : Int} (hs : Idle s)
    (h : xcopy write pmap ret s va xva sz = .ok (ret', t)) : Idle t := by
  induction sz using Nat.strong_induction_on generalizing ret s va xva with
  | _ sz ih =>
      rcases Nat.eq_zero_or_pos sz with rfl | hpos
      · rw [Xcopy.xcopy, if_pos rfl] at h
        cases h
        exact hs
      · have hround : ∃ u, s.hmap pmap xva = .ok u := by
          rw [Xcopy.xcopy, if_neg hpos.ne'] at h
          obtain ⟨u, hu, _⟩ := bind_eq_ok.1 h
          exact ⟨u, hu⟩
        obtain ⟨u, hu⟩ := hround
        obtain ⟨hxva, hlock, hhyper, _⟩ := State.eq_mapped hu
        rw [xcopy_round write ret va hpos hxva hlock hhyper rfl] at h
        set r := (s.mapped pmap xva).round write va xva (todo xva sz)
        have hidle : Idle (r.2.hunmap pmap) :=
          ⟨rfl, fun p ↦ (congrFun (s.hunmap_round write va xva _ hlock) p).trans (hs.lock p)⟩
        by_cases hret : r.1 ≠ 0
        · rw [if_pos hret] at h
          cases h
          exact hidle
        · rw [if_neg hret] at h
          exact ih (sz - todo xva sz) (Nat.sub_lt hpos (todo_pos hpos)) hidle h

theorem Idle.step {a : Label} (hs : Idle s) (h : Step s a t) : Idle t := by
  cases a with
  | copy write pmap ret va xva sz =>
      obtain ⟨ret', hx⟩ := h
      exact hs.xcopy hx
  | other =>
      obtain ⟨hhyper, hlock⟩ := h
      exact ⟨hhyper.symm ▸ hs.hyper, hlock.symm ▸ hs.lock⟩

theorem Idle.run {mem : Nat → BitVec 8} {l1 : Nat → Nat → L1e} {cur : Nat} {as : List Label}
    (h : Run Step (.boot mem l1 cur) as s) : Idle s :=
  h.invariant (fun _ _ _ hs hstep ↦ hs.step hstep) (.boot mem l1 cur)

/-! ## What a copy does -/

/-- A byte is written by a present and writable entry. -/
theorem State.dst_eq_some {a : Nat} (h : s.dst write pmap va xva k = some a) :
    (s.dstEntry write pmap va xva k).p ∧ (s.dstEntry write pmap va xva k).w ∧
      ∃ off < pageSize, a = (s.dstEntry write pmap va xva k).pfn * pageSize + off := by
  have hw : ∀ (e : L1e) (off : Nat), off < pageSize → writeAt e off = some a →
      e.p ∧ e.w ∧ ∃ off < pageSize, a = e.pfn * pageSize + off := by
    intro e off hoff ha
    rw [writeAt] at ha
    split at ha
    · next hpw =>
        obtain ⟨hp, hw⟩ := Bool.and_eq_true_iff.1 hpw
        exact ⟨hp, hw, off, hoff, (Option.some.inj ha).symm⟩
    · cases ha
  cases write with
  | true => exact hw _ _ (Nat.mod_lt _ pageSize_pos) h
  | false => exact hw _ _ (Nat.mod_lt _ pageSize_pos) h

theorem Spec.copies {ret₀ : Int} (h : Spec write pmap ret₀ s va xva sz ret t) (hpos : 0 < sz)
    (hlock : s.lock pmap = false) : Copies write pmap s va xva sz ret t := by
  obtain ⟨n, hn, hcopied, hend⟩ := h.bytes
  rw [if_neg hpos.ne'] at hend
  have hfault : Errno.EFAULT.neg ≠ 0 := by decide
  refine ⟨⟨n, hn, ?_, hcopied⟩, ?_, fun pfn hpfn off hoff ↦ ?_, h.hyper,
    (congrFun h.lock pmap).trans hlock, h.lock, h.l1⟩
  · rcases hend with ⟨hret, hall, _⟩ | ⟨hret, hlt, _⟩
    · exact .inl ⟨hret, hall⟩
    · exact .inr ⟨hret, hlt⟩
  · rcases hend with ⟨hret, rfl, hrange⟩ | ⟨hret, hlt, hno⟩
    · refine iff_of_true hret ⟨hrange hpos, fun i hi ↦ ?_⟩
      exact hcopied.access (0 + i) (Nat.zero_le _) (by rwa [Nat.zero_add])
    · exact iff_of_false (hret ▸ hfault) fun h ↦ hno ⟨fun _ ↦ h.1, h.2⟩
  · refine hcopied.frame _ fun k _ hk hdst ↦ ?_
    obtain ⟨hp, hw, off', hoff', heq⟩ := State.dst_eq_some hdst
    have hsame : (s.dstEntry write pmap va xva k).pfn = pfn := by
      have hdiv := congrArg (· / pageSize) heq
      simp only [Nat.mul_comm _ pageSize, Nat.mul_add_div pageSize_pos,
        Nat.div_eq_of_lt hoff, Nat.div_eq_of_lt hoff', Nat.add_zero] at hdiv
      exact hdiv.symm
    exact hpfn k (Nat.lt_of_lt_of_le hk hn) hsame ⟨hp, hw⟩

/-- In every run, `xcopy_from` and `xcopy_to` return for every client, with any addresses and any
size: 0 if all the bytes have their places, or else `-EFAULT`. -/
theorem xcopy_copies {mem : Nat → BitVec 8} {l1 : Nat → Nat → L1e} {cur : Nat} {as : List Label}
    (hr : Run Step (.boot mem l1 cur) as s) (write : Bool) (pmap : Nat) (ret₀ : Int)
    (va xva sz : BitVec 32) (hpos : 0 < sz.toNat) (hlo : userBase ≤ xva.toNat)
    (hhi : xva.toNat + sz.toNat ≤ userEnd) :
    ∃ ret t, xcopy write pmap ret₀ s va.toNat xva.toNat sz.toNat = .ok (ret, t) ∧
      Copies write pmap s va.toNat xva.toNat sz.toNat ret t := by
  have hs := Idle.run hr
  obtain ⟨ret, t, hx, hspec⟩ :=
    xcopy_spec write pmap ret₀ s va.toNat xva.toNat sz.toNat (hs.lock pmap) hs.hyper hlo hhi
  exact ⟨ret, t, hx, hspec.copies hpos (hs.lock pmap)⟩

/-- A process with two pages, which are not in this order in memory. -/
def twoPages : State :=
  .boot (fun a ↦ BitVec.ofNat 8 a)
    (fun _ v ↦ if v = 1 then mkl1e 2 protUserWr else if v = 2 then mkl1e 1 protUserWr else .zero) 0

/-- Eight bytes are copied to around the end of a page. -/
theorem xcopy_copies_page : ∃ t, xcopy true 7 0 twoPages 0x200000 0x3ffffc 8 = .ok (0, t) ∧
    Copies true 7 twoPages 0x200000 0x3ffffc 8 0 t := by
  obtain ⟨ret, t, hx, hc⟩ := xcopy_copies (.nil twoPages) true 7 0 0x200000 0x3ffffc 8
    (by decide) (by decide) (by decide)
  have hall : ∀ k < 8, (twoPages.src true 7 0x200000 0x3ffffc (0 + k)).isSome ∧
      (twoPages.dst true 7 0x200000 0x3ffffc (0 + k)).isSome := by decide
  obtain rfl := hc.done.2 ⟨by decide, hall⟩
  exact ⟨t, hx, hc⟩

/-- A process copies seven bytes from itself to the next address: the first four have been written
over the fifth when that is read. -/
theorem xcopy_overlap : ∃ t, xcopyFrom 0 0 twoPages 0x200001 0x200000 7 = .ok (0, t) ∧
    twoPages.src false 0 0x200001 0x200000 4 = some 0x400004 ∧
    twoPages.dst false 0 0x200001 0x200000 4 = some 0x400005 ∧
    t.mem 0x400005 ≠ twoPages.mem 0x400004 := by
  refine ⟨((twoPages.mapped 0 0x200000).round false 0x200001 0x200000 7).2.hunmap 0, ?_, rfl, rfl,
    by decide⟩
  rw [xcopyFrom, xcopy_round false 0 _ (by decide) (by decide) rfl rfl rfl, if_neg (by decide),
    xcopy]
  exact if_pos rfl

end Mh.Xcopy

/-!
## The rounds that `usrdev` sees

The bus takes for granted where a round of a copy faults, and lists what the rounds touch.  Where
they fault is what the page tables say: with this the two loops end in the same way.
-/

namespace Mh.Xcopy

open Mh.Lib Mh.Vm

variable {write : Bool} {pmap va xva sz c : Nat} {s u : State} {fault : Nat → Bool}

/-- `fault` tells for every address of the caller whether the bytes from there on, to the end of
the client's page, have their places. -/
def Faults (fault : Nat → Bool) (write : Bool) (pmap : Nat) (s : State) (va xva sz : Nat) : Prop :=
  ∀ k < sz, fault (w32 (va + k)) ↔
    ¬ Accessible (s.src write pmap va xva) (s.dst write pmap va xva) k (todo (xva + k) (sz - k))

/-- There is such a predicate. -/
theorem exists_faults (write : Bool) (pmap : Nat) (s : State) (xva : Nat) (hva : va < 2 ^ 32)
    (hsz : sz < 2 ^ 32) : ∃ fault, Faults fault write pmap s va xva sz := by
  let offset (x : Nat) : Nat := (x + 2 ^ 32 - va) % 2 ^ 32
  have hoffset : ∀ k < sz, offset (w32 (va + k)) = k := by
    intro k hk
    simp only [offset, w32]
    omega
  refine ⟨fun x ↦ !decide (Accessible (s.src write pmap va xva) (s.dst write pmap va xva) (offset x)
    (todo (xva + offset x) (sz - offset x))), fun k hk ↦ ?_⟩
  simp only [hoffset k hk, Bool.not_eq_true', decide_eq_false_iff_not]

/-- From the next round on it is the same. -/
theorem Faults.next (h : Faults fault write pmap s va xva sz) (hl1 : u.l1 = s.l1)
    (hcur : u.cur = s.cur) (c : Nat) :
    Faults fault write pmap u (w32 (va + c)) (xva + c) (sz - c) := by
  intro k hk
  have hw : w32 (w32 (va + c) + k) = w32 (va + (c + k)) := by
    rw [w32, w32, w32, Nat.mod_add_mod, Nat.add_assoc]
  have hacc : ∀ n, Accessible (u.src write pmap (w32 (va + c)) (xva + c))
      (u.dst write pmap (w32 (va + c)) (xva + c)) k n ↔
      Accessible (s.src write pmap va xva) (s.dst write pmap va xva) (c + k) n := by
    intro n
    refine forall₂_congr fun i _ ↦ ?_
    rw [State.src_congr hl1 hcur, State.dst_congr hl1 hcur, State.src_add, State.dst_add,
      ← Nat.add_assoc]
  rw [hw, hacc, Nat.add_assoc, Nat.sub_sub]
  exact h (c + k) (by omega)

/-- How a copy ends, in the words of the bus. -/
def ending : Except Stuck (Int × State) → Bus.XcopyEnd
  | .error _ => .uaddr
  | .ok (ret, _) => if ret = 0 then .done else .fault

/-- One round of the loop of the bus. -/
theorem bus_xcopy_round (write : Bool) (fault : Nat → Bool) (va xva : Nat) (hpos : 0 < sz) :
    (Bus.xcopy write fault va xva sz).2 =
      if !isuaddr xva then .uaddr
      else if !chkuaddr va (todo xva sz) then .fault
      else if fault va then .fault
      else (Bus.xcopy write fault (w32 (va + todo xva sz)) (w32 (xva + todo xva sz))
        (sz - todo xva sz)).2 := by
  rw [Bus.xcopy, if_neg hpos.ne']
  simp only [apply_ite Prod.snd]
  rfl

/-- The loop of the bus ends as the copy does, from any address of the client on. -/
theorem xcopy_ending (hlock : s.lock pmap = false) (hhyper : s.hyper.p = false)
    (hva : va < 2 ^ 32) (hf : Faults fault write pmap s va xva sz) :
    (Bus.xcopy write fault va xva sz).2 = ending (xcopy write pmap 0 s va xva sz) := by
  induction sz using Nat.strong_induction_on generalizing s va xva with
  | _ sz ih =>
      rcases Nat.eq_zero_or_pos sz with rfl | hpos
      · rw [Bus.xcopy, xcopy]
        rfl
      · rw [bus_xcopy_round write fault va xva hpos]
        cases hxva : isuaddr xva with
        | false =>
            have hmap : s.hmap pmap xva = .error .uaddr := by
              rw [State.hmap, hxva]
              rfl
            rw [xcopy, if_neg hpos.ne', hmap]
            rfl
        | true =>
            have hend : xva + todo xva sz < 2 ^ 32 := by
              have huser := (isuaddr_iff.1 hxva).2
              have hle : todo xva sz ≤ pageSize - xva % pageSize := Nat.min_le_right _ _
              rw [pageSize_eq] at hle
              omega
            have hlock' := s.hunmap_round write va xva (todo xva sz) hlock
            obtain ⟨n, hn, hcopied, hres⟩ := s.round_spec write pmap va xva hpos
            have hf0 := hf 0 hpos
            rw [Nat.add_zero, Nat.add_zero, Nat.sub_zero, w32, Nat.mod_eq_of_lt hva] at hf0
            rw [xcopy_round write 0 va hpos hxva hlock hhyper rfl, Bool.not_true,
              if_neg Bool.false_ne_true]
            set r := (s.mapped pmap xva).round write va xva (todo xva sz)
            rcases hres with ⟨hret, rfl, hchk⟩ | ⟨hret, hlt, hno⟩
            · have hnot : fault va = false := by
                rw [← Bool.not_eq_true, hf0, not_not]
                exact fun i hi ↦ hcopied.access (0 + i) (Nat.zero_le _) (by rwa [Nat.zero_add])
              have hw : w32 (xva + todo xva sz) = xva + todo xva sz := Nat.mod_eq_of_lt hend
              have hw32 : w32 (va + todo xva sz) < 2 ^ 32 := Nat.mod_lt _ (by decide)
              have hfree : (r.2.hunmap pmap).lock pmap = false := by rw [hlock', hlock]
              have hslot : (r.2.hunmap pmap).hyper.p = false := rfl
              rw [hchk, hnot, hret, if_neg (not_not_intro rfl), hw]
              exact ih (sz - todo xva sz) (Nat.sub_lt hpos (todo_pos hpos)) hfree hslot hw32
                (hf.next rfl rfl (todo xva sz))
            · have hne : Errno.EFAULT.neg ≠ 0 := by decide
              rw [hret, if_pos hne]
              cases hchk : chkuaddr va (todo xva sz) with
              | false => rfl
              | true =>
                  have hfault : fault va = true := hf0.2 fun hacc ↦ hno ⟨hchk, hacc⟩
                  rw [hfault]
                  rfl

end Mh.Xcopy
