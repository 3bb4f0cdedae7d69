import Mh.Vm.Copy

/-!
# The invariant of the whole system

`Inv X s` is the page accounting of every page together with what it needs about
threads: pids are never used twice, and in the strong form a thread that has
exited maps nothing any more.  It holds at boot and is kept by every step that is
not one of the two that break it.

The reference count of a page grows by one for each entry of each new address
space at most, and by one when the page is allocated, which bounds it by the
number of threads ever created.
-/

namespace Mh.Vm

open Mh.Lib

variable {X : Prop} {s s' : Sys} {cur : Nat} {op : Op}

/-! ## The steps that break the accounting -/

/-- Wiring and unwiring. -/
def Op.wires : Op → Bool
  | .wire _ | .unwire _ => true
  | _ => false

/-- The pages of `cur` whose entries an operation overwrites or clears. -/
def clobbers (s : Sys) (cur : Nat) : Op → Finset Nat
  | .map va perm root _ =>
    if chkuaddr (truncPage va) pageSize then
      match mapCall perm root with
      | .vmmap _ | .vmmap32 _ | .vmunmap => {vpn va}
      | _ => ∅
    else userVpns
  | .move dst src =>
    if chkuaddr (truncPage dst) pageSize && chkuaddr (truncPage src) pageSize then
      if vpn dst = vpn src || l1eExternal (s.l1 cur (vpn src)) then ∅ else {vpn dst}
    else userVpns
  | .iomap va mmiopfn =>
    if chkuaddr (truncPage va) pageSize && mmiopfn ≤ s.pfndbMax &&
      (s.db mmiopfn).type == .mmio then {vpn va} else ∅
  | .exit => userVpns
  | _ => ∅

/-- The operation moves a normal page onto itself. -/
def SelfMove (s : Sys) (cur : Nat) : Op → Prop
  | .move dst src => chkuaddr (truncPage dst) pageSize ∧ chkuaddr (truncPage src) pageSize ∧
      vpn dst = vpn src ∧ l1eNormal (s.l1 cur (vpn src))
  | _ => False

/-- The operation wires a copy-on-write entry. -/
def WiresCow (s : Sys) (cur : Nat) : Op → Prop
  | .wire va => l1eCow (s.l1 cur (vpn va))
  | _ => False

/-- The step keeps the copy-on-write markers. -/
def Isolates (s : Sys) (a : Nat × Op) : Prop := ¬SelfMove s a.1 a.2 ∧ ¬WiresCow s a.1 a.2

/-- The step keeps the reference counts: it neither overwrites nor clears a
copy-on-write entry, nor moves a normal page onto itself. -/
def Counts (s : Sys) (a : Nat × Op) : Prop :=
  (∀ v ∈ clobbers s a.1 a.2, l1eCow (s.l1 a.1 v) = false) ∧ ¬SelfMove s a.1 a.2

/-! ## The invariant -/

/-- The invariant of the system. -/
structure Inv (X : Prop) (s : Sys) : Prop where
  bal : Bal X (1531 * s.nextpid) [] s
  pids : ∀ pid ∈ s.live, pid < s.nextpid
  zombies : s.zombie ⊆ s.live
  pidPos : 0 < s.nextpid
  pidBound : s.nextpid < 2 ^ 32
  /-- in the strong form, a thread that has exited maps nothing -/
  cleared : X → ∀ pid ∈ s.zombie, ∀ v ∈ userVpns, ∀ q, (s.l1 pid v).maps q = false

/-- The invariant holds at boot. -/
theorem Boot.inv (h : Boot s) : Inv X s := by
  have hl1 : ∀ pid ∈ s.live, ∀ v, s.l1 pid v = .zero := by
    intro pid hpid v
    rw [h.live, Finset.mem_singleton] at hpid
    subst hpid
    exact h.blank v
  have hcount : ∀ p : L1e → Bool, p .zero = false → s.count p = 0 := fun p hp ↦
    Finset.sum_eq_zero fun pid hpid ↦ tally_eq_zero.2 fun v _ ↦ by
      have := hl1 pid hpid v
      rw [Sys.l1] at this
      rw [this, hp]
  refine ⟨⟨fun q ↦ ?_, fun pid hpid v _ ↦ ?_, fun e he ↦ absurd he List.not_mem_nil⟩, ?_, ?_,
    Nat.zero_lt_of_lt h.pid, h.pidBound, fun _ pid hpid ↦ ?_⟩
  · rw [Sys.held_nil, Sys.held_nil, hcount _ rfl, hcount _ rfl]
    exact .unmapped (h.noUser q)
  · rw [hl1 pid hpid v]
    exact .of_absent rfl
  · intro pid hpid
    rw [h.live, Finset.mem_singleton] at hpid
    rw [hpid]
    exact h.pid
  · rw [h.zombie]
    exact Finset.empty_subset _
  · rw [h.zombie] at hpid
    exact absurd hpid (Finset.notMem_empty pid)

namespace Inv

theorem bound_lt (h : Inv X s) : 1531 * s.nextpid + 1530 < 2 ^ 64 := by
  have := h.pidBound
  omega

theorem bound_pos (h : Inv X s) : 0 < 1531 * s.nextpid := by
  have := h.pidPos
  omega

/-- A call that keeps the accounting and touches only its own table. -/
theorem of_frame (h : Inv X s) (hrun : s.Running cur)
    (hs : Bal X (1531 * s.nextpid) [] s' ∧ Frame cur s s') : Inv X s' := by
  obtain ⟨hbal, hf⟩ := hs
  refine ⟨by rwa [hf.nextpid], ?_, ?_, by rw [hf.nextpid]; exact h.pidPos,
    by rw [hf.nextpid]; exact h.pidBound, fun x pid hpid v hv q ↦ ?_⟩
  · rw [hf.live, hf.nextpid]
    exact h.pids
  · rw [hf.zombie, hf.live]
    exact h.zombies
  · rw [hf.zombie] at hpid
    have hne : pid ≠ cur := ne_of_mem_of_not_mem hpid hrun.2
    rw [hf.l1 pid hne]
    exact h.cleared x pid hpid v hv q

/-- `__exit`. -/
theorem exit (h : Inv X s) (hrun : s.Running cur)
    (hc : X → ∀ v ∈ userVpns, l1eCow (s.l1 cur v) = false)
    (hu : Vm.exit s cur = .ok s') : Inv X s' := by
  obtain ⟨_, t, ht, hs'⟩ := exit_ok hu
  have hstep := h.bal.vmclear (Nat.lt_of_le_of_lt (Nat.le_add_right _ _) h.bound_lt) hrun.1 hc ht
  have ht' := h.of_frame hrun hstep
  have hcur : cur ∈ t.live := by rw [hstep.2.live]; exact hrun.1
  have hl1 : ∀ pid v, s'.l1 pid v = t.l1 pid v := fun _ _ ↦ by rw [hs']; rfl
  have hbal : Bal X (1531 * t.nextpid) [] s' := by
    rw [hs']
    exact ht'.bal.congr rfl (fun _ ↦ rfl) (fun _ ↦ rfl) ht'.bal.entries ht'.bal.flight
  refine ⟨by rw [hs'] at hbal ⊢; exact hbal, by rw [hs']; exact ht'.pids, ?_,
    by rw [hs']; exact ht'.pidPos, by rw [hs']; exact ht'.pidBound, fun x pid hpid v hv q ↦ ?_⟩
  · rw [hs']
    exact Finset.insert_subset hcur ht'.zombies
  · rw [hs'] at hpid
    rcases Finset.mem_insert.1 hpid with rfl | hpid
    · rcases exit_l1 hu hv with hp | hx
      · exact L1e.maps_of_not_present hp
      · -- external, but not wired: an I/O mapping
        have hnw := (ht'.bal.entries pid hcur v hv).notWired x
        rw [hl1] at hx ⊢
        rw [l1eExternal_iff, hnw] at hx
        have hi := (l1eIomap_iff.1 (hx.resolve_left nofun)).2
        simp [L1e.maps, hi]
    · rw [hl1]
      exact ht'.cleared x pid hpid v hv q

/-- `thfree`. -/
theorem thfree {th : Nat} (h : Inv X s) (hth : th ∈ s.zombie) : Inv X (Vm.thfree s th) := by
  have hsum : ∀ p, s.count p =
      (Vm.thfree s th).count p + tally userVpns p (s.pmap th).l1s := fun p ↦
    (Finset.sum_erase_add s.live (fun pid ↦ tally userVpns p (s.pmap pid).l1s)
      (h.zombies hth)).symm
  have hX : X → ∀ q, tally userVpns (L1e.maps q) (s.pmap th).l1s = 0 := fun x q ↦
    tally_eq_zero.2 fun v hv ↦ h.cleared x th hth v hv q
  refine ⟨⟨fun q ↦ ?_, fun pid hpid ↦ h.bal.entries pid (Finset.mem_of_mem_erase hpid),
    h.bal.flight⟩, fun pid hpid ↦ h.pids pid (Finset.mem_of_mem_erase hpid),
    Finset.erase_subset_erase th h.zombies, h.pidPos, h.pidBound,
    fun x pid hpid ↦ h.cleared x pid (Finset.mem_of_mem_erase hpid)⟩
  have hq := h.bal.pages q
  have hm := hsum (L1e.maps q)
  have hw := hsum (L1e.owns q)
  have hle : (Vm.thfree s th).count (L1e.owns q) ≤ (Vm.thfree s th).count (L1e.maps q) :=
    Sys.owners_le_refs q
  simp only [Sys.held_nil] at hq ⊢
  refine ⟨fun hp ↦ hq.user (by omega), ?_, fun hu ↦ ?_, hq.bound, fun x hu ↦ ?_⟩
  · have := hq.sole
    omega
  · exact Nat.le_trans (by omega) (hq.cover hu)
  · rw [hX x q, Nat.add_zero] at hm
    rw [← hm]
    exact hq.exact x hu

/-- `thfork`. -/
theorem thfork {stale : Tlbf} {pick : Nat → Page} (h : Inv X s) (hrun : s.Running cur)
    (hu : Vm.thfork s cur stale pick = .ok s') : Inv X s' := by
  have hbal := h.bal.thfork h.bound_lt h.pids hrun.1 hu
  have hf := thfork_forked (h.pids cur hrun.1).ne hu
  have hwrap := hf.wrap
  have hpb := h.pidBound
  refine ⟨hbal.mono (by rw [hf.nextpid]; omega), ?_, ?_, ?_, ?_, fun x pid hpid v hv q ↦ ?_⟩
  · rw [hf.live, hf.nextpid]
    intro pid hpid
    rcases Finset.mem_insert.1 hpid with rfl | hpid
    · exact Nat.lt_succ_self _
    · exact (h.pids pid hpid).trans (Nat.lt_succ_self _)
  · rw [hf.zombie, hf.live]
    exact h.zombies.trans (Finset.subset_insert _ _)
  · rw [hf.nextpid]
    exact Nat.succ_pos _
  · rw [hf.nextpid]
    omega
  · rw [hf.zombie] at hpid
    have hpn : pid ≠ s.nextpid := (h.pids pid (h.zombies hpid)).ne
    rw [hf.other pid (ne_of_mem_of_not_mem hpid hrun.2) hpn]
    exact h.cleared x pid hpid v hv q

/-- `SYS_MAP`. -/
theorem sysMap {va perm : Nat} {root : Bool} {pg : Page} {r : Int} (h : Inv X s)
    (hrun : s.Running cur) (hc : X → Counts s (cur, .map va perm root pg))
    (hu : Vm.sysMap s cur va perm root pg = .ok (r, s')) : Inv X s' := by
  have hB : 1531 * s.nextpid < 2 ^ 64 := Nat.lt_of_le_of_lt (Nat.le_add_right _ _) h.bound_lt
  by_cases hva : chkuaddr (truncPage va) pageSize
  · simp only [Vm.sysMap, hva, Bool.not_true, Bool.false_eq_true, if_false] at hu
    simp only [Counts, clobbers, hva, if_true] at hc
    split at hu
    · cases hu
      exact h
    · rename_i prot hm
      simp only [hm, Finset.mem_singleton, forall_eq] at hc
      exact h.of_frame hrun (h.bal.vmmap hB h.bound_pos hrun.1 (mapCall_present (.inl hm))
        (fun x ↦ (hc x).1) hu)
    · rename_i prot hm
      simp only [hm, Finset.mem_singleton, forall_eq] at hc
      exact h.of_frame hrun (h.bal.vmmap32 hB h.bound_pos hrun.1 (mapCall_present (.inr hm))
        (fun x ↦ (hc x).1) hu)
    · rename_i hm
      simp only [hm, Finset.mem_singleton, forall_eq] at hc
      exact h.of_frame hrun (h.bal.vmunmap hB hrun.1 (fun x ↦ (hc x).1) hu)
    · exact h.of_frame hrun (h.bal.vmchprot hrun.1 hu)
  · have hva : chkuaddr (truncPage va) pageSize = false := by simpa using hva
    simp only [Vm.sysMap, hva, Bool.not_false, if_true, bind_eq_ok] at hu
    simp only [Counts, clobbers, hva, Bool.false_eq_true, if_false] at hc
    obtain ⟨s₁, h₁, h₂⟩ := hu
    cases h₂
    exact h.exit hrun (fun x ↦ (hc x).1) h₁

/-- `SYS_MOVE`. -/
theorem sysMove {dst src : Nat} {r : Int} (h : Inv X s) (hrun : s.Running cur)
    (hi : ¬SelfMove s cur (.move dst src)) (hc : X → Counts s (cur, .move dst src))
    (hu : Vm.sysMove s cur dst src = .ok (r, s')) : Inv X s' := by
  have hB : 1531 * s.nextpid < 2 ^ 64 := Nat.lt_of_le_of_lt (Nat.le_add_right _ _) h.bound_lt
  by_cases hva : chkuaddr (truncPage dst) pageSize ∧ chkuaddr (truncPage src) pageSize
  · obtain ⟨hd, hs⟩ := hva
    simp only [Vm.sysMove, hd, hs, Bool.not_true, Bool.or_self, Bool.false_eq_true,
      if_false] at hu
    simp only [SelfMove, hd, hs, true_and] at hi
    refine h.of_frame hrun (h.bal.vmmove hB hrun.1 hi (fun x hne hx ↦ ?_) hu)
    have := (hc x).1
    simpa [clobbers, hd, hs, hne, hx] using this
  · have hva' : (!chkuaddr (truncPage dst) pageSize || !chkuaddr (truncPage src) pageSize) =
        true := by
      simpa [Bool.or_eq_true, imp_iff_not_or] using hva
    have hva'' : (chkuaddr (truncPage dst) pageSize && chkuaddr (truncPage src) pageSize) =
        false := by
      simpa using hva
    simp only [Vm.sysMove, hva', if_true, bind_eq_ok] at hu
    simp only [Counts, clobbers, hva'', Bool.false_eq_true, if_false] at hc
    obtain ⟨s₁, h₁, h₂⟩ := hu
    cases h₂
    exact h.exit hrun (fun x ↦ (hc x).1) h₁

/-- `SYS_IOMAP`. -/
theorem sysIomap {va mmiopfn : Nat} {r : Int} (h : Inv X s) (hrun : s.Running cur)
    (hc : X → Counts s (cur, .iomap va mmiopfn))
    (hu : Vm.sysIomap s cur va mmiopfn = .ok (r, s')) : Inv X s' := by
  have hB : 1531 * s.nextpid < 2 ^ 64 := Nat.lt_of_le_of_lt (Nat.le_add_right _ _) h.bound_lt
  unfold Vm.sysIomap at hu
  split at hu
  · cases hu
    exact h
  · rename_i hva
    split at hu
    · cases hu
      exact h
    · rename_i hmax
      have hva : chkuaddr (truncPage va) pageSize := by simpa using hva
      have hmax : mmiopfn ≤ s.pfndbMax := Nat.le_of_not_lt hmax
      refine h.of_frame hrun (h.bal.iomap hB hrun.1 (fun x hty ↦ ?_) hu)
      have := (hc x).1
      simpa [clobbers, hva, hmax, hty] using this

/-- Every step keeps the invariant, unless it is one of those that break it. -/
theorem step {a : Nat × Op} (h : Inv X s) (hi : Isolates s a)
    (hc : X → Counts s a ∧ a.2.wires = false) (hs : Step s a s') : Inv X s' := by
  obtain ⟨cur, op⟩ := a
  obtain ⟨hrun, hu⟩ := hs
  cases op with
  | map va perm root pg =>
      simp only [exec, bind_eq_ok] at hu
      obtain ⟨⟨r, s₁⟩, h₁, h₂⟩ := hu
      cases h₂
      exact h.sysMap hrun (fun x ↦ (hc x).1) h₁
  | move dst src =>
      simp only [exec, bind_eq_ok] at hu
      obtain ⟨⟨r, s₁⟩, h₁, h₂⟩ := hu
      cases h₂
      exact h.sysMove hrun hi.1 (fun x ↦ (hc x).1) h₁
  | iomap va mmiopfn =>
      simp only [exec, bind_eq_ok] at hu
      obtain ⟨⟨r, s₁⟩, h₁, h₂⟩ := hu
      cases h₂
      exact h.sysIomap hrun (fun x ↦ (hc x).1) h₁
  | iounmap va =>
      simp only [exec, bind_eq_ok] at hu
      obtain ⟨⟨r, s₁⟩, h₁, h₂⟩ := hu
      cases h₂
      exact h.of_frame hrun (h.bal.iounmap hrun.1 h₁)
  | wire va =>
      simp only [exec, bind_eq_ok] at hu
      obtain ⟨⟨r, s₁⟩, h₁, h₂⟩ := hu
      cases h₂
      have hX : ¬X := fun x ↦ by cases (hc x).2
      have hcow : l1eCow (s.l1 cur (vpn va)) = false := by simpa [WiresCow] using hi.2
      exact h.of_frame hrun (h.bal.uwire hrun.1 hX hcow h₁)
  | unwire va =>
      simp only [exec, bind_eq_ok] at hu
      obtain ⟨⟨r, s₁⟩, h₁, h₂⟩ := hu
      cases h₂
      exact h.of_frame hrun (h.bal.uunwire hrun.1 h₁)
  | fork stale pick => exact h.thfork hrun hu
  | fault va err =>
      simp only [exec, bind_eq_ok] at hu
      obtain ⟨⟨r, s₁⟩, h₁, h₂⟩ := hu
      cases h₂
      exact h.of_frame hrun (h.bal.fault hrun.1 h₁)
  | exit => exact h.exit hrun (fun x ↦ (hc x).1.1) hu
  | thfree th =>
      simp only [exec] at hu
      cases hu
      split
      · exact h.thfree ‹_›
      · exact h

end Inv

end Mh.Vm
