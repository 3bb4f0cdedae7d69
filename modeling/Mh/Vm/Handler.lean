import Mh.Vm.Move
import Mh.Vm.Private

/-!
# The page-fault handler comes to its end

A process that writes to a page that it shares gets a page of its own: the kernel passes the fault
on, and the handler maps a page at `VACOW`, copies to it byte by byte and moves it into place.
Other processes may run between these steps, and need not (`Mach.cow_resolved`).
-/

namespace Mh.Vm

open Mh.Lib

variable {X : Prop} {s : Sys} {m : Mach} {pid va i : Nat} {pg : Page}

/-- A copy-on-write fault on a page that is mapped twice goes to the handler. -/
theorem Inv.pmapFault_shared (h : Inv X s) (hva : isuaddr va)
    (hc : l1eCow (s.l1 pid (vpn va))) (hle : (s.l1 pid (vpn va)).pfn ≤ s.pfndbMax)
    (hr : 2 ≤ s.refs (s.l1 pid (vpn va)).pfn) :
    pmapFault s pid va ⟨true, true, true⟩ = .ok (some ⟨true, true, true⟩, s) := by
  have hpage := h.bal.pages (s.l1 pid (vpn va)).pfn
  have htype := hpage.user (Nat.lt_of_lt_of_le Nat.two_pos hr)
  have href : (s.db (s.l1 pid (vpn va)).pfn).ref ≠ 1 := by
    have hcover := hpage.cover htype
    rw [Sys.held_nil, ← Sys.refs] at hcover
    omega
  simp [pmapFault, hva, lastCow, hc, pfndbGetref, pfndbUser, kassert, hle, htype, href, bind, pure,
    Except.bind, Except.pure]

theorem Mach.goto_goto (m : Mach) (pid : Nat) (s s' : Sys) (h h' : Hnd) :
    (m.goto pid s h).goto pid s' h' = m.goto pid s' h' := by
  rw [goto, goto, goto, Function.update_idem]

theorem Mach.goto_at {h h' : Hnd} (hat : m.At pid h) (s : Sys) (hlive : s.live = m.sys.live)
    (hzombie : s.zombie = m.sys.zombie) : (m.goto pid s h').At pid h' := by
  obtain ⟨⟨hl, hz⟩, -⟩ := hat
  exact ⟨⟨hlive ▸ hl, hzombie ▸ hz⟩, Function.update_self ..⟩

/-- The handler's `memcpy`, from byte `i` on. -/
theorem Mach.copies (hat : m.At pid (.copy va i)) (hle : i ≤ pageSize)
    (hr : (m.sys.l1 pid (vpn va)).allows false) (hw : (m.sys.l1 pid (vpn vacow)).allows true) :
    ∃ c, Run MStep m (List.replicate (pageSize - i) .tau)
      (m.goto pid (m.sys.setMem (m.sys.l1 pid (vpn vacow)).pfn c) (.copy va pageSize)) := by
  obtain ⟨n, hn⟩ := Nat.exists_eq_add_of_le hle
  rw [hn, Nat.add_sub_cancel_left]
  induction n generalizing m i with
  | zero =>
      refine ⟨m.sys.mem (m.sys.l1 pid (vpn vacow)).pfn, ?_⟩
      have hself : m.goto pid (m.sys.setMem (m.sys.l1 pid (vpn vacow)).pfn
          (m.sys.mem (m.sys.l1 pid (vpn vacow)).pfn)) (.copy va (i + 0)) = m := by
        rw [goto, Nat.add_zero, ← hat.2, Function.update_eq_self, Sys.setMem,
          Function.update_eq_self]
      rw [hself]
      exact .nil m
  | succ n ih =>
      have hlt : i < pageSize := by omega
      have hstep := MStep.hndCopy hat hlt hr hw
      set m₁ := m.goto pid _ (.copy va (i + 1))
      obtain ⟨c, hrun⟩ := ih (m := m₁) (i := i + 1) (Mach.goto_at hat _ rfl rfl) (by omega) hr hw
        (by omega)
      refine ⟨c, .cons hstep ?_⟩
      have hidem : m₁.goto pid (m₁.sys.setMem (m₁.sys.l1 pid (vpn vacow)).pfn c)
          (.copy va (i + 1 + n)) = m.goto pid (m.sys.setMem (m.sys.l1 pid (vpn vacow)).pfn c)
            (.copy va (i + (n + 1))) := by
        rw [goto_goto, Nat.add_right_comm, Nat.add_assoc]
        simp [m₁, goto, Sys.poke, Sys.setMem, Sys.l1]
      rwa [hidem] at hrun

/-- The tables after a page has been mapped at `VACOW`. -/
def Sys.atVacow (s : Sys) (pid pfn : Nat) : Sys :=
  ((((s.alloc pfn 0).incref pfn).put pid (vpn vacow) (mkl1e pfn protUserWr)).setFlush pid
    .null).setMem pfn fun _ ↦ 0

theorem Sys.l1_atVacow (s : Sys) (pid pfn q v : Nat) : (s.atVacow pid pfn).l1 q v =
    if q = pid ∧ v = vpn vacow then mkl1e pfn protUserWr else s.l1 q v := by
  rw [atVacow, l1_setMem, l1_setFlush, put, l1_setL1e, l1_setFlush]
  rfl

theorem exec_vacow (hf : s.Free pg.pfn) (habs : (s.l1 pid (vpn vacow)).p = false) :
    exec s pid (.map vacow (VmProt.rw.perm + mapNew) false pg) = .ok (s.atVacow pid pg.pfn) := by
  have hmap : vmmap s pid vacow protUserWr pg = .ok (0, _) :=
    vmmap_fresh (by decide) hf rfl rfl rfl habs
  change (do return (← vmmap s pid vacow protUserWr pg).2) = _
  rw [hmap]
  rfl

/-- The handler moves the page into place of one that is mapped copy-on-write. -/
theorem exec_move_vacow {pfn : Nat} (hva : isuaddr va) (hc : l1eCow (s.l1 pid (vpn va)))
    (hnew : s.l1 pid (vpn vacow) = mkl1e pfn protUserWr) :
    exec s pid (.move va vacow) = .ok ((s.moved pid vacow va).setFlush pid .null) := by
  have hmove : sysMove s pid va vacow = .ok (0, (s.moved pid vacow va).setFlush pid .null) := by
    refine sysMove_kept (chkuaddr_of_isuaddr hva) (by decide) ?_ ?_ ?_
    · rw [hnew]
      rfl
    · simp [l1eExternal, l1eWired, l1eIomap, (l1eCow_iff.1 hc).2]
    · simp [l1eNormal, (l1eCow_iff.1 hc).2]
  change (do return (← sysMove s pid va vacow).2) = _
  rw [hmove]
  rfl

/-- A write to a page that is mapped twice leads to the handler's copy. -/
theorem Mach.cow_to_copy (hinv : Inv X m.sys) (hat : m.At pid .user) {L : Layout}
    (hL : resolveVa L va ≠ .nil) (hva : isuaddr va) (hc : l1eCow (m.sys.l1 pid (vpn va)))
    (hle : (m.sys.l1 pid (vpn va)).pfn ≤ m.sys.pfndbMax)
    (hr : 2 ≤ m.sys.refs (m.sys.l1 pid (vpn va)).pfn)
    (habs : (m.sys.l1 pid (vpn vacow)).p = false) (hf : m.sys.Free pg.pfn) :
    Run MStep m [.tau, .tau] (m.goto pid (m.sys.atVacow pid pg.pfn) (.copy va 0)) := by
  have hdenied : (m.sys.l1 pid (vpn va)).allows true = false := by
    have hro := (hinv.bal.entries pid hat.1.1 _ (vpn_mem_userVpns hva)).cowRo hc
    simp [L1e.allows, hro]
  have hfault : MStep m .tau (m.goto pid m.sys (.fault va ⟨true, true, true⟩)) :=
    .fault hat (fun _ ↦ hdenied) (fun _ ↦ (l1eCow_iff.1 hc).1.symm)
      (hinv.pmapFault_shared hva hc hle hr)
  have hcall : pgfaulthandler (resolveVa L va) ⟨true, true, true⟩ = .cow := by
    rw [pgfaulthandler, if_neg hL]
    rfl
  have hmap := MStep.hndCow (goto_at hat m.sys rfl rfl) hcall (exec_vacow hf habs)
  rw [goto_goto] at hmap
  exact .cons hfault (.cons hmap (.nil _))

/-- The handler's steps for a page that is mapped twice, with nothing else between them: the
process has a page of its own, and nobody else's table changes. -/
theorem Mach.cow_resolved (hinv : Inv X m.sys) (hat : m.At pid .user) {L : Layout}
    (hL : resolveVa L va ≠ .nil) (hva : isuaddr va) (hc : l1eCow (m.sys.l1 pid (vpn va)))
    (hu : (m.sys.l1 pid (vpn va)).u) (hle : (m.sys.l1 pid (vpn va)).pfn ≤ m.sys.pfndbMax)
    (hr : 2 ≤ m.sys.refs (m.sys.l1 pid (vpn va)).pfn)
    (habs : (m.sys.l1 pid (vpn vacow)).p = false) (hf : m.sys.Free pg.pfn) :
    ∃ s', Run MStep m (List.replicate (pageSize + 3) .tau) (m.goto pid s' .user) ∧
      s'.l1 pid (vpn va) = mkl1e pg.pfn protUserWr ∧
      (∀ q ≠ pid, ∀ v, s'.l1 q v = m.sys.l1 q v) ∧
      s'.live = m.sys.live ∧ s'.zombie = m.sys.zombie := by
  have hp := (l1eCow_iff.1 hc).1
  have hne : vpn va ≠ vpn vacow := by
    intro he
    rw [he, habs] at hp
    cases hp
  have hstart := cow_to_copy hinv hat hL hva hc hle hr habs hf
  set m₂ := m.goto pid (m.sys.atVacow pid pg.pfn) (.copy va 0)
  have hat₂ : m₂.At pid (.copy va 0) := goto_at hat _ rfl rfl
  have hold : m₂.sys.l1 pid (vpn va) = m.sys.l1 pid (vpn va) := by
    rw [show m₂.sys = m.sys.atVacow pid pg.pfn from rfl, Sys.l1_atVacow, if_neg fun h ↦ hne h.2]
  have hnew : m₂.sys.l1 pid (vpn vacow) = mkl1e pg.pfn protUserWr := by
    rw [show m₂.sys = m.sys.atVacow pid pg.pfn from rfl, Sys.l1_atVacow, if_pos ⟨rfl, rfl⟩]
  -- the copy
  have hread : (m₂.sys.l1 pid (vpn va)).allows false := by
    simp [hold, L1e.allows, hp, hu]
  have hwrite : (m₂.sys.l1 pid (vpn vacow)).allows true := by
    rw [hnew]
    rfl
  obtain ⟨c, hcopy⟩ := copies hat₂ (Nat.zero_le _) hread hwrite
  set s₃ := m₂.sys.setMem (m₂.sys.l1 pid (vpn vacow)).pfn c
  have hat₃ : (m₂.goto pid s₃ (.copy va pageSize)).At pid (.copy va pageSize) :=
    goto_at hat₂ _ rfl rfl
  -- the move
  have hl₃ : ∀ q v, s₃.l1 q v = m₂.sys.l1 q v := fun _ _ ↦ rfl
  have hcow₃ : l1eCow (s₃.l1 pid (vpn va)) := by rwa [hl₃, hold]
  have hlast := MStep.hndMove hat₃ (exec_move_vacow hva hcow₃ hnew)
  rw [callEv, if_pos (chkuaddr_of_isuaddr hva)] at hlast
  refine ⟨(s₃.moved pid vacow va).setFlush pid .null, ?_, ?_, fun q hq v ↦ ?_, rfl, rfl⟩
  · have hrun := hstart.append (hcopy.snoc hlast)
    rw [Nat.sub_zero, ← List.replicate_succ', List.cons_append, List.cons_append, List.nil_append,
      ← List.replicate_succ, ← List.replicate_succ] at hrun
    simp only [m₂, goto_goto] at hrun
    exact hrun
  · rw [Sys.l1_setFlush, Sys.l1_moved, if_pos ⟨rfl, rfl⟩, hl₃, hnew]
  · rw [Sys.l1_setFlush, Sys.l1_moved, if_neg fun h ↦ hq h.1, if_neg fun h ↦ hq h.1, hl₃]
    change (m.sys.atVacow pid pg.pfn).l1 q v = _
    rw [Sys.l1_atVacow, if_neg fun h ↦ hq h.1]

end Mh.Vm
