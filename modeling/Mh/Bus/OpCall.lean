import Mh.Bus.Calls

/-!
# What the bus reports

`OP_CALL` keeps the 0 that `bus_get_dev` has returned and returns it whatever the operation
of the device says, and also where the device has no such operation.  `sys_in`, `sys_rdcfg`
and `sys_export` take the 0 for success and copy their word to user memory.  So the result
that a system call sees is the device's just when that was a success:
`op_call_reports`.
-/

namespace Mh.Bus

open Mh.Lib

namespace State

variable (s : State)

/-- The system call that a request belongs to.  `ptr` is where the word goes that the call
copies to user memory, and `fault` says that the copy faults. -/
def sysOp (t dd : Nat) (r : Req) (ptr : Nat) (fault : Bool) : Except Panic SysRes :=
  match r with
  | .inPort port hw => s.sysIn t dd port hw ptr fault
  | .rdcfg off sz => s.sysRdcfg t dd off sz ptr fault
  | .exportVa va sz wire phys => s.sysExport t dd va sz ptr wire phys fault
  | r => s.sysReq t dd r

/-- The arguments with which the call copies a word to user memory when the bus returns
0. -/
def Copies (r : Req) (ptr : Nat) (fault : Bool) : Prop :=
  fault = false ∧ chkuaddr ptr 8 ∧
    match r with
    | .inPort .. => True
    | .rdcfg _ sz => sz ∈ [1, 2, 4, 8]
    | .exportVa va sz _ _ => chkuaddr va sz
    | _ => False

/-- The operation of the device `d` that the request `r` reaches through the descriptor
`dd`. -/
def opOf (t dd d : Nat) (r : Req) : Option (Except Panic Res) :=
  s.op (t, dd) d (s.devs (t, dd)).devid r

/-- The bus returns what the operation returns, or an error where there is none. -/
def ReturnsResult (t dd d : Nat) (r : Req) : Prop :=
  ∀ ret val s', s.opCall t dd r = .ok (ret, val, s') →
    match s.opOf t dd d r with
    | none => ret < 0
    | some x => ∀ res, x = .ok res → res.ret = some ret

/-- The system call copies to user memory only the value of an operation that has succeeded
and stored it. -/
def CopiesProduced (t dd d : Nat) (r : Req) (ptr : Nat) (fault : Bool) : Prop :=
  ∀ out w, s.sysOp t dd r ptr fault = .ok out → out.copied = some w →
    ∃ v s', s.opOf t dd d r = some (.ok ⟨some 0, some v, s'⟩) ∧ w = some v

/-- The device has the operation, and it succeeds; where the call copies a word, the
operation stores one. -/
def Succeeds (t dd d : Nat) (r : Req) (ptr : Nat) (fault : Bool) : Prop :=
  ∃ x, s.opOf t dd d r = some x ∧
    ∀ res, x = .ok res → res.ret = some 0 ∧ (Copies r ptr fault → res.val.isSome)

variable {s} {t dd d : Nat} {r : Req} {ptr : Nat} {fault : Bool}

/-- `OP_CALL` where the device does not have the operation. -/
theorem opCall_of_none (h : s.busGetDev t dd = .ok (.inr d)) (hop : s.opOf t dd d r = none) :
    s.opCall t dd r = .ok (0, none, s) := by
  rw [opOf] at hop
  simp only [opCall, h, bind, Except.bind, hop]
  rfl

/-- So the bus does not report that the operation is missing. -/
theorem not_returnsResult (h : s.busGetDev t dd = .ok (.inr d)) (hop : s.opOf t dd d r = none) :
    ¬ s.ReturnsResult t dd d r := by
  intro hr
  have hlt := hr _ _ _ (opCall_of_none h hop)
  rw [hop] at hlt
  exact absurd hlt (by decide)

/-- `OP_CALL` where it does. -/
theorem opCall_of_ok {res : Res} (h : s.busGetDev t dd = .ok (.inr d))
    (hop : s.opOf t dd d r = some (.ok res)) :
    s.opCall t dd r = .ok (0, res.val, res.state) := by
  rw [opOf] at hop
  simp only [opCall, h, bind, Except.bind, hop]
  rfl

/-- A panic of the operation is one of the call. -/
theorem opCall_of_error {e : Panic} (h : s.busGetDev t dd = .ok (.inr d))
    (hop : s.opOf t dd d r = some (.error e)) : s.opCall t dd r = .error e := by
  rw [opOf] at hop
  simp only [opCall, h, bind, Except.bind, hop]

/-- With arguments that make it copy, a system call copies what the bus has brought from the
device, or a word of its own. -/
theorem exists_copied {val : Option Nat} {s' : State} (hc : Copies r ptr fault)
    (hcall : s.opCall t dd r = .ok (0, val, s')) :
    ∃ out w, s.sysOp t dd r ptr fault = .ok out ∧ out.copied = some w ∧
      (w = val ∨ val = none) := by
  obtain ⟨rfl, hptr, hr⟩ := hc
  cases r with
  | inPort port hw =>
      refine ⟨⟨0, some val, s'⟩, val, ?_, rfl, .inl rfl⟩
      simp only [sysOp, sysIn, hptr, hcall, bind, Except.bind]
      rfl
  | rdcfg off sz =>
      refine ⟨⟨0, some (some (val.getD 0)), s'⟩, some (val.getD 0), ?_, rfl, ?_⟩
      · simp only [sysOp, sysRdcfg, if_neg (not_not_intro hr), hptr, hcall, bind, Except.bind]
        rfl
      · cases val with
        | none => exact .inr rfl
        | some v => exact .inl rfl
  | exportVa va sz wire phys =>
      refine ⟨⟨0, some val, s'⟩, val, ?_, rfl, .inl rfl⟩
      have hva : chkuaddr va sz = true := hr
      simp only [sysOp, sysExport, hva, hptr, hcall, bind, Except.bind]
      rfl
  | outPort | wrcfg | unexportVa | iomap | iounmap | irqmap | eoi => exact hr.elim

/-- The other system calls copy nothing. -/
theorem sysReq_copied {out : SysRes} (h : s.sysReq t dd r = .ok out) : out.copied = none := by
  rw [sysReq] at h
  cases hr : reqCheck r with
  | some e =>
      rw [hr] at h
      cases h
      rfl
  | none =>
      rw [hr] at h
      obtain ⟨⟨ret, val, s'⟩, -, h⟩ := bind_eq_ok.1 h
      cases h
      rfl

/-- The common end of the system calls that copy a word: when one has been copied, the copy has
not faulted and the bus has returned 0. -/
theorem copied_after {out : SysRes} {w : Option Nat} {f : Option Nat → Option Nat}
    {g : State → Except Panic SysRes} (hg : ∀ s', g s' = .ok out → out.copied = none)
    (h : (do
      let (ret, val, s') ← s.opCall t dd r
      if ret ≠ 0 then return (⟨ret, none, s'⟩ : SysRes)
      if fault then g s' else return ⟨0, some (f val), s'⟩) = .ok out)
    (hw : out.copied = some w) :
    fault = false ∧ ∃ val s', s.opCall t dd r = .ok (0, val, s') ∧ w = f val := by
  obtain ⟨⟨ret, val, s'⟩, hcall, h⟩ := bind_eq_ok.1 h
  dsimp only at h
  split at h
  · cases h
    cases hw
  · next hret =>
    obtain rfl : ret = 0 := not_not.1 hret
    split at h
    · rw [hg s' h] at hw
      cases hw
    · next hf =>
      cases h
      cases hw
      exact ⟨by simpa using hf, val, s', hcall, rfl⟩

/-- A system call that copies a word was called with such arguments, and the bus has
returned 0. -/
theorem copies_of_copied {out : SysRes} {w : Option Nat}
    (h : s.sysOp t dd r ptr fault = .ok out) (hw : out.copied = some w) :
    Copies r ptr fault ∧ ∃ val s', s.opCall t dd r = .ok (0, val, s') ∧ (w = val ∨ val = none) := by
  have hno : ∀ {e : Int} {u : State}, (Except.ok ⟨e, none, u⟩ : Except Panic SysRes) = .ok out →
      False := by
    rintro e u ⟨⟩
    cases hw
  cases r with
  | inPort port hw' =>
      rw [sysOp, sysIn] at h
      split at h
      · exact (hno h).elim
      · next hptr =>
        obtain ⟨hf, val, s', hcall, heq⟩ := copied_after (f := id)
          (g := fun s' ↦ .ok ⟨Errno.EFAULT.neg, none, s'⟩) (fun _ h ↦ (hno h).elim) h hw
        exact ⟨⟨hf, by simpa using hptr, trivial⟩, val, s', hcall, .inl heq⟩
  | rdcfg off sz =>
      rw [sysOp, sysRdcfg] at h
      split at h
      · exact (hno h).elim
      · next hsz =>
        split at h
        · exact (hno h).elim
        · next hptr =>
          obtain ⟨hf, val, s', hcall, rfl⟩ := copied_after (f := fun val ↦ some (val.getD 0))
            (g := fun s' ↦ .ok ⟨Errno.EFAULT.neg, none, s'⟩) (fun _ h ↦ (hno h).elim) h hw
          refine ⟨⟨hf, by simpa using hptr, not_not.1 hsz⟩, val, s', hcall, ?_⟩
          cases val with
          | none => exact .inr rfl
          | some v => exact .inl rfl
  | exportVa va sz wire phys =>
      rw [sysOp, sysExport] at h
      split at h
      · exact (hno h).elim
      · next hva =>
        split at h
        · exact (hno h).elim
        · next hptr =>
          -- on a fault the export is taken back before the call fails
          have hg : ∀ s' : State, (do
              let (_, _, s'') ← s'.opCall t dd (.unexportVa va)
              return (⟨Errno.EFAULT.neg, none, s''⟩ : SysRes)) = .ok out → out.copied = none := by
            intro s' h
            obtain ⟨_, -, h⟩ := bind_eq_ok.1 h
            exact (hno h).elim
          obtain ⟨hf, val, s', hcall, heq⟩ := copied_after (f := id) hg h hw
          have hva' : chkuaddr va sz := by simpa using hva
          exact ⟨⟨hf, by simpa using hptr, hva'⟩, val, s', hcall, .inl heq⟩
  | outPort | wrcfg | unexportVa | iomap | iounmap | irqmap | eoi =>
      simp only [sysOp] at h
      rw [sysReq_copied h] at hw
      cases hw

end State

/-- Through a descriptor that is plugged, the bus returns the result of the device and the
system call copies only values that the device has produced, just when the device has the
operation and it succeeds. -/
theorem op_call_reports {s : State} {t dd d : Nat} (r : Req) (ptr : Nat) (fault : Bool)
    (h : s.busGetDev t dd = .ok (.inr d)) :
    (s.ReturnsResult t dd d r ∧ s.CopiesProduced t dd d r ptr fault) ↔
      s.Succeeds t dd d r ptr fault := by
  cases hop : s.opOf t dd d r with
  | none =>
      refine iff_of_false (fun hr ↦ State.not_returnsResult h hop hr.1) ?_
      rintro ⟨x, hx, -⟩
      rw [hop] at hx
      cases hx
  | some x =>
      cases x with
      | error e =>
          have hcall := State.opCall_of_error h hop
          refine iff_of_true ⟨fun ret val s' hok ↦ ?_, fun out w hout hw ↦ ?_⟩
            ⟨_, hop, fun res hres ↦ ?_⟩
          · rw [hcall] at hok
            cases hok
          · obtain ⟨-, val, s', hok, -⟩ := State.copies_of_copied hout hw
            rw [hcall] at hok
            cases hok
          · cases hres
      | ok res =>
          have hcall := State.opCall_of_ok h hop
          constructor
          · rintro ⟨hret, hcopy⟩
            refine ⟨_, hop, ?_⟩
            rintro res ⟨⟩
            have h0 := hret _ _ _ hcall
            rw [hop] at h0
            refine ⟨h0 _ rfl, fun hc ↦ ?_⟩
            obtain ⟨out, w, hout, hw, -⟩ := State.exists_copied hc hcall
            obtain ⟨v, s', hv, -⟩ := hcopy out w hout hw
            rw [hop] at hv
            cases hv
            rfl
          · rintro ⟨x, hx, hres⟩
            rw [hop] at hx
            cases hx
            obtain ⟨h0, hval⟩ := hres _ rfl
            constructor
            · intro ret val s' hok
              rw [hcall] at hok
              cases hok
              rw [hop]
              rintro _ ⟨⟩
              exact h0
            · intro out w hout hw
              obtain ⟨hc, val, s', hok, hor⟩ := State.copies_of_copied hout hw
              rw [hcall] at hok
              cases hok
              obtain ⟨v, hv⟩ := Option.isSome_iff_exists.1 (hval hc)
              refine ⟨v, res.state, ?_, ?_⟩
              · rw [hop, ← h0, ← hv]
              · rw [hv] at hor
                exact hor.resolve_right (Option.some_ne_none v)

/-- `init` opens the system device and reads its timer. -/
theorem op_call_reports_timer :
    ∃ s, Run Step (State.boot 1 2 3) [.call 1 (.openDev 2)] s ∧
      s.ReturnsResult 1 0 1 (.inPort 4 77) ∧
      s.CopiesProduced 1 0 1 (.inPort 4 77) 0x400000 false := by
  have h : Run Step (State.boot 1 2 3) [.call 1 (.openDev 2)] _ := .cons ⟨rfl, rfl⟩ (.nil _)
  refine ⟨_, h, (op_call_reports (.inPort 4 77) 0x400000 false (by rfl)).2 ⟨_, rfl, ?_⟩⟩
  rintro _ ⟨⟩
  exact ⟨rfl, fun _ ↦ rfl⟩

/-- `init` creates a hardware device without ports, opens it and reads a port: the driver
returns `-EPERM`, and `sys_in` returns 0 with a word that nothing has been stored in.  And
the end of an interrupt, which user devices do not have, returns 0 as well. -/
theorem op_call_misreports :
    (∃ s, Run Step (State.boot 1 2 3)
        [.call 1 (.hwcreat 7 ⟨0, [], [], [], []⟩ 0o100), .call 1 (.openDev 7)] s ∧
      s.opOf 1 0 3 (.inPort 0 5) = some (.ok ⟨some Errno.EPERM.neg, none, s⟩) ∧
      s.sysIn 1 0 0 5 0x400000 false = .ok ⟨0, some none, s⟩ ∧
      ¬ s.ReturnsResult 1 0 3 (.inPort 0 5) ∧
      ¬ s.CopiesProduced 1 0 3 (.inPort 0 5) 0x400000 false) ∧
    ∃ s, Run Step (State.boot 1 2 3)
        [.call 1 (.creat 7 ⟨0, 0, 0, fun _ ↦ 0⟩ 1 0o100), .call 1 (.openDev 7)] s ∧
      s.opOf 1 0 3 (.eoi 0) = none ∧ s.opCall 1 0 (.eoi 0) = .ok (0, none, s) ∧
      ¬ s.ReturnsResult 1 0 3 (.eoi 0) := by
  constructor
  · have h : Run Step (State.boot 1 2 3)
        [.call 1 (.hwcreat 7 ⟨0, [], [], [], []⟩ 0o100), .call 1 (.openDev 7)] _ :=
      .cons ⟨rfl, rfl⟩ (.cons ⟨rfl, rfl⟩ (.nil _))
    refine ⟨_, h, rfl, rfl, fun hr ↦ ?_, fun hc ↦ ?_⟩
    · exact absurd (hr 0 none _ rfl _ rfl) (by decide)
    · obtain ⟨v, s', -, hv⟩ := hc _ none rfl rfl
      cases hv
  · have h : Run Step (State.boot 1 2 3)
        [.call 1 (.creat 7 ⟨0, 0, 0, fun _ ↦ 0⟩ 1 0o100), .call 1 (.openDev 7)] _ :=
      .cons ⟨rfl, rfl⟩ (.cons ⟨rfl, rfl⟩ (.nil _))
    exact ⟨_, h, rfl, State.opCall_of_none (d := 3) rfl rfl, State.not_returnsResult rfl rfl⟩

end Mh.Bus
