import Mh.Signal.Stub

/-!
# Handlers inside handlers

The frame of a signal is written at the top of the signal stack of the thread, whatever handlers
use that stack at the time.  As long as no handler does (`SignalSafe`), every `SYS_IRET` resumes
what the signal interrupted, at any depth (`signals_nest`).  A fault inside a handler that runs on
the signal stack overwrites the frame that this handler is to return by (`nested_lost`).
-/

namespace Mh.Signal

open Mh.Lib Mh.Lib.Bytes

variable {im : Image} {d : Delivery} {ds : List Delivery} {f f' : UsrFrame} {m m' : Mem}
  {a k : Nat} {s s' : State} {op : Op}

/-! ## The addresses of the stub -/

theorem at_pc (im : Image) (hk : k < 35) : im.at (im.pc k) = some k := by
  have hlt := offset_lt k hk
  rw [Image.at, Image.pc, BitVec.add_comm, BitVec.add_sub_cancel, BitVec.toNat_ofNat,
    Nat.mod_eq_of_lt (by omega), index_offset k hk]

theorem pc_zero (im : Image) : im.pc 0 = im.inthdlr := BitVec.add_zero _

theorem pc_succ (im : Image) {i : Insn} (hk : k < 35) (hi : inthdlr[k]? = some i) :
    im.pc k + BitVec.ofNat 32 i.len = im.pc (k + 1) := by
  rw [Image.pc, Image.pc, offset_succ k hk i hi, BitVec.add_assoc, BitVec.ofNat_add]

theorem symAt_succ {i : Insn} (hi : inthdlr[k]? = some i) :
    symAt (k + 1) = (symAt k).bind i.sym := by
  rw [symAt, List.take_add_one, hi, List.foldlM_append, symAt]
  cases List.foldlM Insn.sym entry (inthdlr.take k) with
  | none => rfl
  | some y =>
      show (Insn.sym y i).bind pure = Insn.sym y i
      cases Insn.sym y i <;> rfl

theorem call_index : ∀ k < 35, inthdlr[k]? = some .call → k = 17 := by decide +kernel

theorem int_index : ∀ k < 35, inthdlr[k]? = some .int → k = 34 := by decide +kernel

/-! ## A handler -/

/-- The addresses of a signal stack that `__inthdlr` writes. -/
def reach (sp : Word) : Set Nat := {x | sp.toNat ≤ x + 84 ∧ x < sp.toNat}

/-- The handler of a delivery is in the stub, or in `_libuk_signal_handler` and what it calls. -/
inductive Running (im : Image) (d : Delivery) (f : UsrFrame) (m : Mem) : Prop
  | stub (k : Nat) (y : Sym) : k < 35 → f.eip = im.pc k → symAt k = some y → Sound d y f m →
      Running im d f m
  | body (y : Sym) : im.at f.eip = none → f.esp.toNat + 84 ≤ d.sp.toNat → symAt 19 = some y →
      Holds m d (d.sp.toNat - 64) y.stack → Running im d f m

/-- A handler depends on the stack that it uses. -/
theorem Running.congr (h : Running im d f m)
    (hm : ∀ x, f.esp.toNat ≤ x → x < d.sp.toNat → m' x = m x) : Running im d f m' := by
  cases h with
  | stub k y hk heip hy hs => exact .stub k y hk heip hy ⟨hs.stack.congr hm, hs.kept⟩
  | body y hat hesp hy hs =>
      exact .body y hat hesp hy (hs.congr fun x hx hx' ↦ hm x (by omega) hx')

/-- A handler does not depend on the flags of the processor. -/
theorem Running.congr_frame (h : Running im d f m) (heip : f'.eip = f.eip) (hesp : f'.esp = f.esp)
    (hreg : ∀ r, r ≠ .eflags → f'.reg r = f.reg r) : Running im d f' m := by
  cases h with
  | stub k y hk hpc hy hs =>
      refine .stub k y hk (heip.trans hpc) hy ⟨hesp ▸ hs.stack, fun r hr ↦ ?_⟩
      have hne : r ≠ .eflags := by
        rintro rfl
        exact (symAt_bound k hk y hy).2 hr
      rw [hreg r hne]
      exact hs.kept r hr
  | body y hat hle hy hs => exact .body y (heip ▸ hat) (hesp ▸ hle) hy hs

/-! ## All handlers -/

/-- The handlers that have not returned, the last one running: the stack that the others use is as
it was when they were interrupted, and out of reach of the last one. -/
def Chain (im : Image) (m : Mem) : UsrFrame → List Delivery → Prop
  | f, [] => im.at f.eip = none
  | f, d :: ds => Running im d f m ∧ 84 ≤ d.sp.toNat ∧
      (∀ x ∈ inUse d.frame ds, m x = d.mem x) ∧ Disjoint (reach d.sp) (inUse d.frame ds) ∧
      Chain im m d.frame ds

theorem Chain.congr (h : Chain im m f ds) (hm : ∀ x ∈ inUse f ds, m' x = m x) :
    Chain im m' f ds := by
  induction ds generalizing f with
  | nil => exact h
  | cons d ds ih =>
      obtain ⟨hr, hsp, hmem, hdis, hc⟩ := h
      refine ⟨hr.congr fun x hx hx' ↦ hm x (.inl ⟨hx, hx'⟩), hsp, fun x hx ↦ ?_, hdis,
        ih hc fun x hx ↦ hm x (.inr hx)⟩
      rw [hm x (.inr hx), hmem x hx]

theorem Chain.congr_frame (h : Chain im m f ds) (heip : f'.eip = f.eip) (hesp : f'.esp = f.esp)
    (hreg : ∀ r, r ≠ .eflags → f'.reg r = f.reg r) : Chain im m f' ds := by
  cases ds with
  | nil =>
      show im.at f'.eip = none
      rw [heip]
      exact h
  | cons d ds => exact ⟨h.1.congr_frame heip hesp hreg, h.2⟩

/-- The running handler goes on, in reach of its stack. -/
theorem Chain.go (h : Chain im m f (d :: ds)) (hr : Running im d f' m')
    (hm : ∀ x ∈ inUse d.frame ds, m' x = m x) : Chain im m' f' (d :: ds) := by
  obtain ⟨-, hsp, hmem, hdis, hc⟩ := h
  exact ⟨hr, hsp, fun x hx ↦ (hm x hx).trans (hmem x hx), hdis, hc.congr hm⟩

/-- The invariant: the thread has no handler, or `__inthdlr`. -/
structure Inv (im : Image) (s : State) : Prop where
  chain : Chain im s.mem s.frame s.live
  sigip : s.sigip = 0 ∨ s.sigip = im.inthdlr

/-- No handler uses the top of the signal stack when a signal is delivered. -/
def SignalSafe (s : State) : Op → Prop
  | .signal _ _ _ _ => Disjoint (reach s.sigsp) (inUse s.frame s.live)
  | _ => True

/-- A safe step that the thread survives. -/
def SafeStep (im : Image) (s : State) (op : Op) (s' : State) : Prop :=
  SignalSafe s op ∧ Step im s op s'

/-! ## The steps -/

/-- Code outside of the stub. -/
theorem Inv.user (h : Inv im s) (hat : im.at s.frame.eip = none) (hu : UserOk im s f m)
    (mapped : Nat → Bool) : Inv im { s with frame := f, mem := m, mapped := mapped } := by
  refine ⟨?_, h.sigip⟩
  have hc := h.chain
  show Chain im m f s.live
  rw [UserOk] at hu
  cases hl : s.live with
  | nil =>
      rw [hl] at hu
      exact hu
  | cons d ds =>
      rw [hl] at hu hc
      obtain ⟨hpc, hown, hin⟩ := hu
      refine hc.go ?_ hin
      cases hc.1 with
      | stub k y hk heip _ _ =>
          rw [heip, at_pc im hk] at hat
          cases hat
      | body y _ _ hy hs =>
          have hs' : Holds m d (d.sp.toNat - 64) y.stack :=
            hs.congr fun x hx hx' ↦ hown x (by omega) hx'
          rcases hpc with ⟨hnone, hesp⟩ | ⟨heip, hesp⟩
          · exact .body y hnone hesp hy hs'
          · -- the handler returns to the stub
            cases hy₁₇ : symAt 17 with
            | none =>
                have := symAt_isSome 17 (by decide)
                rw [hy₁₇] at this
                cases this
            | some y₁₇ =>
                obtain ⟨l, hl₁₉, -, hst⟩ := symAt_call y₁₇ hy₁₇
                obtain rfl := Option.some.inj (hl₁₉.symm.trans hy)
                have h₁₈ : symAt 18 = some { y₁₇ with kept := [] } := by
                  rw [symAt_succ (i := .call) rfl, hy₁₇]
                  rfl
                refine .stub 18 _ (by decide) heip h₁₈ ⟨?_, fun r hr ↦ absurd hr List.not_mem_nil⟩
                show Holds m d f.esp.toNat y₁₇.stack
                rw [hst]
                show Holds m d (f.esp.toNat + 4 + 4 + 4 + 4) l
                rwa [show f.esp.toNat + 4 + 4 + 4 + 4 = d.sp.toNat - 64 by omega]

/-- A system call of code outside of the stub. -/
theorem Inv.syscall (h : Inv im s) (hip : s'.sigip = s.sigip ∨ s'.sigip = im.inthdlr)
    (hat : im.at s.frame.eip = none) {v : Word} (hf : s'.frame = s.frame.set .eax v)
    (hm : s'.mem = s.mem) (hl : s'.live = s.live) : Inv im s' := by
  refine ⟨?_, ?_⟩
  · have hc := h.chain
    rw [hf, hm, hl]
    cases hs : s.live with
    | nil => exact hat
    | cons d ds =>
        rw [hs] at hc
        refine hc.go ?_ fun _ _ ↦ rfl
        cases hc.1 with
        | stub k y hk heip _ _ =>
            rw [heip, at_pc im hk] at hat
            cases hat
        | body y hnone hesp hy hs => exact .body y hnone hesp hy hs
  · rcases hip with hip | hip
    · rw [hip]
      exact h.sigip
    · exact .inr hip

/-- An instruction of the stub. -/
theorem Inv.insn {i : Insn} (h : Inv im s) (hat : im.at s.frame.eip = some k)
    (hi : inthdlr[k]? = some i) (hint : i ≠ .int) : Inv im (s.insn im) := by
  have hex : s.insn im =
      { s with frame := (i.exec im s.frame s.mem).1, mem := (i.exec im s.frame s.mem).2 } := by
    rw [State.insn, hat]
    simp only [Option.bind_some, hi]
  rw [hex]
  refine ⟨?_, h.sigip⟩
  have hc := h.chain
  show Chain im (i.exec im s.frame s.mem).2 (i.exec im s.frame s.mem).1 s.live
  cases hl : s.live with
  | nil =>
      rw [hl] at hc
      cases hat.symm.trans hc
  | cons d ds =>
      rw [hl] at hc
      cases hr : hc.1 with
      | body y hnone _ _ _ => cases hat.symm.trans hnone
      | stub k' y hk heip hy hs =>
          obtain rfl : k' = k := by
            rw [heip, at_pc im hk] at hat
            exact Option.some.inj hat
          have hb := (symAt_bound k' hk y hy).1
          have hsp := hc.2.1
          have hk' : k' + 1 < 35 := by
            have : k' ≠ 34 := by
              rintro rfl
              exact hint (Option.some.inj hi).symm
            omega
          have hdis := hc.2.2.2.1
          by_cases hcall : i = .call
          · -- the handler begins, below the registers that the stub has saved
            subst hcall
            obtain rfl := call_index k' hk hi
            obtain ⟨l, hl₁₉, hsz, hst⟩ := symAt_call y hy
            have hn : Sound d y (s.frame.next .call) s.mem := ⟨hs.stack, hs.kept⟩
            obtain ⟨hesp, hh, -, hout⟩ :=
              hn.pushed (n := 4) le_rfl (by omega) (s.frame.next .call).eip
            have htot := hs.stack.size_eq
            rw [hst] at htot hh
            simp only [size_cons, Slot.size, hsz] at htot
            change _ = s.frame.esp.toNat at hesp
            have hlow : ((s.frame.next .call).push (n := 4) s.mem
                (s.frame.next .call).eip).1.esp.toNat + 84 ≤ d.sp.toNat := by omega
            refine hc.go (.body ⟨l, []⟩ im.apart hlow hl₁₉ ?_) fun x hx ↦ ?_
            · change Holds _ d (_ + 4 + 4 + 4 + 4 + 4) l at hh
              rwa [hesp, show s.frame.esp.toNat + 4 + 4 + 4 + 4 = d.sp.toNat - 64 by omega] at hh
            · refine hout x ?_
              by_contra hin
              exact Set.disjoint_left.1 hdis ⟨by omega, by
                have : x < s.frame.esp.toNat := Nat.not_le.1 fun hle ↦ hin (.inr hle)
                omega⟩ hx
          · obtain ⟨y', hy'⟩ := Option.isSome_iff_exists.1 (symAt_isSome (k' + 1) hk')
            have hsym := (symAt_succ hi).symm.trans hy'
            rw [hy] at hsym
            obtain ⟨hmv, hpc⟩ := Insn.sound im hs hsym (by omega) hcall
            have hb' := (symAt_bound (k' + 1) hk' y' hy').1
            refine hc.go (.stub (k' + 1) y' hk' ?_ hy' hmv.sound) fun x hx ↦ ?_
            · rw [hpc, heip, pc_succ im hk hi]
            · refine hmv.outside x ?_
              by_contra hin
              exact Set.disjoint_left.1 hdis ⟨by omega, by omega⟩ hx

/-- A delivery, to a signal stack whose top is free. -/
theorem Inv.signal (h : Inv im s) (hsafe : Disjoint (reach s.sigsp) (inUse s.frame s.live))
    {vect va err : Word} (hex : s.signal vect va err = .ok s') : Inv im s' := by
  rw [State.signal] at hex
  simp only at hex
  split at hex
  · cases hex
  · next hzero =>
      have hip : s.sigip = im.inthdlr := h.sigip.resolve_left fun h₀ ↦ hzero (.inl h₀)
      split at hex
      · next hcpy =>
          rw [← Except.ok.inj hex]
          rw [State.usrcpy, Bool.and_eq_true, chkuaddr_iff, isuaddr_iff] at hcpy
          have hsub : (s.sigsp - 24).toNat = (2 ^ 32 - 24 + s.sigsp.toNat) % 2 ^ 32 :=
            BitVec.toNat_sub ..
          have husp : (s.sigsp - 24).toNat + 24 = s.sigsp.toNat := by
            have := s.sigsp.isLt
            have := hcpy.1
            omega
          have hlow := hcpy.1.1.1
          -- the frame is written below the top of the signal stack
          have hout : ∀ x ∈ inUse s.frame s.live, storeWords s.mem (s.sigsp - 24).toNat
              [vect, va, err, s.frame.eip, s.frame.esp, s.userfl] x = s.mem x := by
            intro x hx
            refine storeWords_outside ?_
            by_contra hin
            simp only [List.length_cons, List.length_nil] at hin
            exact Set.disjoint_left.1 hsafe ⟨by omega, by omega⟩ hx
          have hld : ∀ i (hi : i < 6), load (storeWords s.mem (s.sigsp - 24).toNat
              [vect, va, err, s.frame.eip, s.frame.esp, s.userfl])
                ((s.sigsp - 24).toNat + 4 * i) 4 =
              [vect, va, err, s.frame.eip, s.frame.esp, s.userfl].get ⟨i, hi⟩ :=
            fun i hi ↦ load_storeWords hi
          refine ⟨⟨.stub 0 entry (by decide) ?_ rfl ⟨?_, ?_⟩, ?_, hout, hsafe, ?_⟩, h.sigip⟩
          · exact hip.trans (pc_zero im).symm
          · show Holds _ _ ((s.sigsp - 24).toNat + 12) []
            refine ⟨by rw [← husp], ?_, ?_, ?_⟩
            · exact hld 3 (by decide)
            · exact hld 4 (by decide)
            · exact hld 5 (by decide)
          · exact fun r _ ↦ rfl
          · show 84 ≤ s.sigsp.toNat
            omega
          · exact h.chain.congr hout
      · cases hex

/-- `SYS_IRET` resumes what the last signal interrupted. -/
theorem Inv.iret (h : Inv im s) (hat : im.at s.frame.eip = some k)
    (hi : inthdlr[k]? = some .int) (hex : s.iret = .ok s') :
    Inv im s' ∧ ∃ d ds, s.live = d :: ds ∧ s'.live = ds ∧ Resumed d s' := by
  rw [State.iret] at hex
  simp only at hex
  split at hex
  · rw [← Except.ok.inj hex]
    have hc := h.chain
    cases hl : s.live with
    | nil =>
        rw [hl] at hc
        cases hat.symm.trans hc
    | cons d ds =>
        rw [hl] at hc
        obtain ⟨hr, -, hmem, -, hc⟩ := hc
        cases hr with
        | body y hnone _ _ _ => cases hat.symm.trans hnone
        | stub k' y hk heip hy hs =>
            obtain rfl : k' = k := by
              rw [heip, at_pc im hk] at hat
              exact Option.some.inj hat
            obtain rfl := int_index k' hk hi
            obtain ⟨hst, hkept⟩ := symAt_int y hy
            have hstk := hs.stack
            rw [hst] at hstk
            obtain ⟨heax, -, h₁, h₂, h₃⟩ := hstk
            have hreg : ∀ r, r ≠ .eflags →
                (s.frame.set .eax (load s.mem s.frame.esp.toNat Reg.eax.width)).reg r =
                  d.frame.reg r := by
              intro r hr
              by_cases hra : r = .eax
              · subst hra
                rw [set_reg_self]
                exact heax
              · rw [set_reg_of_ne hra]
                exact hs.kept r (hkept r hra hr)
            refine ⟨⟨hc.congr_frame h₁ h₂ hreg, h.sigip⟩, d, ds, rfl, rfl, ⟨h₁, h₂, h₃, hreg, ?_⟩⟩
            exact hmem
  · cases hex

/-- A safe step keeps the invariant. -/
theorem Inv.step (h : Inv im s) (hst : SafeStep im s op s') : Inv im s' := by
  obtain ⟨hsafe, hal, hex⟩ := hst
  cases op with
  | user f m mapped =>
      rw [← Except.ok.inj hex]
      exact h.user hal.1 hal.2 mapped
  | insn =>
      obtain ⟨k, i, hat, hi, hint⟩ := hal
      rw [← Except.ok.inj hex]
      exact h.insn hat hi hint
  | sysInthdlr sp =>
      rw [exec] at hex
      split at hex
      · rw [← Except.ok.inj hex]
        exact h.syscall (.inr rfl) hal rfl rfl rfl
      · rw [← Except.ok.inj hex]
        exact h.syscall (.inl rfl) hal rfl rfl rfl
  | sysSti =>
      rw [← Except.ok.inj hex]
      exact h.syscall (.inl rfl) hal rfl rfl rfl
  | sysCli =>
      rw [← Except.ok.inj hex]
      exact h.syscall (.inl rfl) hal rfl rfl rfl
  | sysIret =>
      obtain ⟨k, hat, hi⟩ := hal
      exact (h.iret hat hi hex).1
  | signal ext vect va err => exact h.signal hsafe hex

theorem Inv.run (h : Inv im s) {ops : List Op} (hr : Run (SafeStep im) s ops s') : Inv im s' :=
  hr.invariant (I := Inv im) (fun _ _ _ hs hst ↦ hs.step hst) h

/-! ## Runs -/

/-- A thread that executes no handler, and has no handler or `__inthdlr`. -/
structure Start (im : Image) (s : State) : Prop where
  live : s.live = []
  eip : im.at s.frame.eip = none
  sigip : s.sigip = 0 ∨ s.sigip = im.inthdlr

theorem Start.inv (h : Start im s) : Inv im s := by
  refine ⟨?_, h.sigip⟩
  rw [h.live]
  exact h.eip

/-- In every run in which signals are delivered only while no handler uses the top of the signal
stack, `SYS_IRET` resumes what the last signal that has not returned interrupted, and leaves the
stack of the interrupted handlers as it was then. -/
theorem signals_nest (h : Start im s) {ops : List Op} (hr : Run (SafeStep im) s ops s') :
    ∀ t, Step im s' .sysIret t →
      ∃ d ds, s'.live = d :: ds ∧ t.live = ds ∧ Resumed d t := by
  intro t ht
  obtain ⟨⟨k, hat, hi⟩, hex⟩ := ht
  exact ((h.inv.run hr).iret hat hi hex).2

/-! ## A fault inside a handler -/

/-- A program, and a thread of it whose registers are all 7. -/
def image : Image := ⟨0x400000, 0x500000, by decide +kernel, fun _ a _ ↦ a⟩

@[inherit_doc image]
def thread : State where
  frame := ⟨0x600000, 0x700000, fun _ ↦ 7⟩
  mem _ := 0
  mapped _ := true
  sigip := image.inthdlr
  sigsp := 0x200800
  userfl := thflIntr
  live := []

/-- A handler of the program: it may fault, and it returns. -/
inductive Cmd
  | extint | fault | stub | ret | iret
deriving DecidableEq

/-- The step of a command, when it can be made. -/
def Cmd.step (s : State) : Cmd → Option Op
  | .extint =>
      if s.userfl &&& thflIntr ≠ 0 ∧ s.live.isEmpty then some (.signal true 0 0 1) else none
  | .fault => some (.signal false 1 0x800000 2)
  | .stub =>
      if ((image.at s.frame.eip).bind (inthdlr[·]?)).any (· ≠ .int) then some .insn else none
  | .ret =>
      match s.live with
      | [] => none
      | d :: _ =>
          if image.at s.frame.eip = none ∧ (d.sp - 80).toNat + 80 = d.sp.toNat then
            some (.user { s.frame with eip := image.pc 18, esp := d.sp - 80 } s.mem s.mapped)
          else none
  | .iret =>
      if ((image.at s.frame.eip).bind (inthdlr[·]?)).any (· = .int) then some .sysIret else none

theorem Cmd.allowed {c : Cmd} (h : c.step s = some op) : Allowed image s op := by
  have hinsn : ∀ {p : Insn → Bool}, ((image.at s.frame.eip).bind (inthdlr[·]?)).any p →
      ∃ k i, image.at s.frame.eip = some k ∧ inthdlr[k]? = some i ∧ p i := by
    intro p hp
    obtain ⟨i, hi, hpi⟩ := (Option.any_eq_true ..).1 hp
    obtain ⟨k, hk, hki⟩ := Option.bind_eq_some_iff.1 hi
    exact ⟨k, i, hk, hki, hpi⟩
  cases c with
  | extint =>
      rw [Cmd.step] at h
      split at h
      · next hfl =>
          obtain rfl := Option.some.inj h
          exact fun _ ↦ hfl.1
      · cases h
  | fault =>
      obtain rfl := Option.some.inj h
      exact fun hext ↦ Bool.noConfusion hext
  | stub =>
      rw [Cmd.step] at h
      split at h
      · next hi =>
          obtain rfl := Option.some.inj h
          obtain ⟨k, i, hk, hki, hne⟩ := hinsn hi
          exact ⟨k, i, hk, hki, of_decide_eq_true hne⟩
      · cases h
  | ret =>
      rw [Cmd.step] at h
      cases hl : s.live with
      | nil =>
          rw [hl] at h
          cases h
      | cons d ds =>
          rw [hl] at h
          simp only at h
          split at h
          · next hat =>
              obtain rfl := Option.some.inj h
              refine ⟨hat.1, ?_⟩
              rw [UserOk, hl]
              exact ⟨.inr ⟨rfl, hat.2⟩, fun _ _ _ ↦ rfl, fun _ _ ↦ rfl⟩
          · cases h
  | iret =>
      rw [Cmd.step] at h
      split at h
      · next hi =>
          obtain rfl := Option.some.inj h
          obtain ⟨k, i, hk, hki, he⟩ := hinsn hi
          obtain rfl := of_decide_eq_true he
          exact ⟨k, hk, hki⟩
      · cases h

/-- An interrupt is delivered while no handler runs. -/
theorem Cmd.safe {c : Cmd} (hc : c ≠ .fault) (h : c.step s = some op) : SignalSafe s op := by
  cases c with
  | extint =>
      rw [Cmd.step] at h
      split at h
      · next hl =>
          obtain rfl := Option.some.inj h
          rw [SignalSafe, List.isEmpty_iff.1 hl.2]
          exact Set.disjoint_empty _
      · cases h
  | fault => exact absurd rfl hc
  | stub =>
      rw [Cmd.step] at h
      split at h
      · obtain rfl := Option.some.inj h
        trivial
      · cases h
  | ret =>
      rw [Cmd.step] at h
      split at h
      · cases h
      · split at h
        · obtain rfl := Option.some.inj h
          trivial
        · cases h
  | iret =>
      rw [Cmd.step] at h
      split at h
      · obtain rfl := Option.some.inj h
        trivial
      · cases h

/-- Execute a command. -/
def Cmd.exec (s : State) (c : Cmd) : Except Death State :=
  match c.step s with
  | none => .error .badStack
  | some op => Signal.exec image s op

/-- What commands do is a run, and a safe one without faults. -/
theorem runCmds (s : State) (cs : List Cmd) {B : Type} {g : State → B} {b : B}
    (h : (cs.foldlM Cmd.exec s).toOption.map g = some b) :
    ∃ ops t, Run (Step image) s ops t ∧ (.fault ∉ cs → Run (SafeStep image) s ops t) ∧ g t = b := by
  obtain ⟨t, hr, hg⟩ := Run.of_foldlM h
  suffices hops : ∃ ops, Run (Step image) s ops t ∧ (.fault ∉ cs → Run (SafeStep image) s ops t) by
    obtain ⟨ops, hops, hsafe⟩ := hops
    exact ⟨ops, t, hops, hsafe, hg⟩
  clear h hg
  induction hr with
  | nil s => exact ⟨[], .nil s, fun _ ↦ .nil s⟩
  | @cons s t r c cs hc _ ih =>
      obtain ⟨ops, hops, hsafe⟩ := ih
      rw [Cmd.exec] at hc
      cases ho : c.step s with
      | none =>
          rw [ho] at hc
          cases hc
      | some op =>
          rw [ho] at hc
          refine ⟨op :: ops, .cons ⟨Cmd.allowed ho, hc⟩ hops, fun hf ↦ ?_⟩
          refine .cons ⟨Cmd.safe ?_ ho, Cmd.allowed ho, hc⟩ (hsafe fun h ↦ hf (.tail _ h))
          rintro rfl
          exact hf List.mem_cons_self

/-- The stub up to the call, and from the return on up to `SYS_IRET`. -/
def enter : List Cmd := List.replicate 18 .stub

@[inherit_doc enter]
def leave : List Cmd := .ret :: List.replicate 16 .stub

theorem start_thread : Start image thread := ⟨rfl, by decide +kernel, .inr rfl⟩

/-- At the `SYS_IRET` of the only handler, that is to resume the thread. -/
def returning (s : State) : Bool :=
  ((image.at s.frame.eip).bind (inthdlr[·]?)).any (· = .int) &&
    s.live.map (·.frame.eip) = [0x600000]

theorem live_of_returning (h : returning s = true) :
    Allowed image s .sysIret ∧ ∃ d, s.live = [d] ∧ d.frame.eip = 0x600000 := by
  obtain ⟨hop, hl⟩ := Bool.and_eq_true_iff.1 h
  obtain ⟨d, hd, heip⟩ := List.map_eq_singleton_iff.1 (of_decide_eq_true hl)
  exact ⟨Cmd.allowed (c := .iret) (if_pos hop), d, hd, heip⟩

/-- An external interrupt whose handler returns. -/
theorem signals_nest_once : ∃ ops s t d, Run (SafeStep image) thread ops s ∧
    Step image s .sysIret t ∧ s.live = [d] ∧ d.frame.eip = 0x600000 ∧ Resumed d t := by
  obtain ⟨ops, s, -, hr, hg⟩ := runCmds thread ([.extint] ++ enter ++ leave)
    (g := fun s ↦ (returning s, s.iret.toOption.isSome)) (b := (true, true)) (by decide +kernel)
  obtain ⟨hal, d, hl, heip⟩ := live_of_returning (congrArg Prod.fst hg)
  obtain ⟨t, ht⟩ := Option.isSome_iff_exists.1 (congrArg Prod.snd hg)
  have hex : Step image s .sysIret t := ⟨hal, by
    rw [exec]
    cases hi : s.iret with
    | error e =>
        rw [hi] at ht
        cases ht
    | ok u =>
        rw [hi] at ht
        rw [Option.some.inj ht]⟩
  have hrun := hr (by decide +kernel)
  obtain ⟨d', ds, hl', -, hres⟩ := signals_nest start_thread hrun t hex
  obtain ⟨rfl, -⟩ := List.cons.inj (hl.symm.trans hl')
  exact ⟨ops, s, t, d, hrun, hex, hl, heip, hres⟩

/-- A fault in the handler of an external interrupt: the interrupt does not resume the thread, but
the handler that faulted. -/
theorem nested_lost : ∃ ops s t d, Start image thread ∧ Run (Step image) thread ops s ∧
    Step image s .sysIret t ∧ s.live = [d] ∧ t.frame.eip = image.handler ∧ ¬ Resumed d t := by
  obtain ⟨ops, s, hr, -, hg⟩ := runCmds thread
    ([.extint] ++ enter ++ [.fault] ++ enter ++ leave ++ [.iret] ++ leave)
    (g := fun s ↦ (returning s, s.iret.toOption.map fun t ↦ t.frame.eip))
    (b := (true, some image.handler)) (by decide +kernel)
  obtain ⟨hal, d, hl, heip⟩ := live_of_returning (congrArg Prod.fst hg)
  obtain ⟨t, ht, hteip⟩ := exists_eq_ok (congrArg Prod.snd hg)
  refine ⟨ops, s, t, d, start_thread, hr, ⟨hal, ht⟩, hl, hteip, fun hres ↦ ?_⟩
  have he := hres.eip
  rw [heip, hteip] at he
  revert he
  decide

end Mh.Signal
