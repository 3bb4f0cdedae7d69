import Mh.Bus.State

/-!
# The device drivers

The operations of the five `struct devops`, one section a driver.  A driver is called with
the state, the descriptor `k` that the call came through (its thread `k.1` is
`current_thread()`), the device `d` and the client id that the bus has stored.

What the bus passes on through `OP_CALL` is one `Req` with the arguments of the operation.
What a driver reads from the hardware, and what the page tables answer, comes with the
request.  A driver that leaves without a `return` has `ret = none`; `val` is what it has
stored at the pointer that it was given, if it stored anything.
-/

namespace Mh.Bus

open Mh.Lib

/-- The operations that `OP_CALL` reaches, with their arguments. -/
inductive Req
  /-- `in`; `hw` is what the port reads -/
  | inPort (port hw : Nat)
  /-- `out` -/
  | outPort (port val : Nat)
  /-- `rdcfg` -/
  | rdcfg (off sz : Nat)
  /-- `wrcfg` -/
  | wrcfg (off sz val : Nat)
  /-- `export`; `wire` and `phys` are what `pmap_uwire` and `pmap_phys` return -/
  | exportVa (va sz : Nat) (wire : Int) (phys : Option Nat)
  /-- `unexport` -/
  | unexportVa (va : Nat)
  /-- `iomap` -/
  | iomap (va mmioaddr : Nat) (pg : Page)
  /-- `iounmap` -/
  | iounmap (va : Nat)
  /-- `irqmap` -/
  | irqmap (irq sig : Nat)
  /-- `eoi` -/
  | eoi (irq : Nat)
deriving DecidableEq, Repr

/-- What an operation returns, what it stores, and the state that it leaves. -/
structure Res where
  ret : Option Int
  val : Option Nat
  state : State

/-- An operation that fails has stored nothing and changed nothing. -/
def State.fail (s : State) (e : Errno) : Except Panic Res := .ok ⟨some e.neg, none, s⟩

/-- An operation that succeeds without storing a value. -/
def State.done (s : State) : Except Panic Res := .ok ⟨some 0, none, s⟩

/-- `port & IOPORT_SIZEMASK`. -/
def ioSize (port : Nat) : Nat := port % 4

/-- `port >> IOPORT_SIZESHIFT`, as an `uint16_t`. -/
def ioPort (port : Nat) : Nat := port / 4 % 2 ^ 16

/-- The word with the bytes `f 0`, ..., `f 7`. -/
def bytesVal (f : Nat → Nat) : Nat := (List.range 8).foldr (fun i v ↦ f i + 256 * v) 0

/-- What `platform_inb`, `platform_inw` or `platform_inl` gives, by the size of the
access. -/
def platformIn (port hw : Nat) : Option Nat :=
  if ioSize port < 3 then some (hw % 2 ^ (8 * 2 ^ ioSize port)) else none

/-! ## User devices -/

namespace Usrdev

variable (u : Usrdev)

/-- The client id that `_usrdev_open` and `_usrdev_clone` find. -/
def freeRem : Option Nat := (List.range maxUsrdevRems).find? fun i ↦ !(u.remths i).use

/-- Write an entry of the client table. -/
def setRem (i : Nat) (r : Remth) : Usrdev := { u with remths := Function.update u.remths i r }

@[simp] theorem setRem_self {i : Nat} {r : Remth} : (u.setRem i r).remths i = r :=
  Function.update_self ..

theorem setRem_of_ne {i j : Nat} {r : Remth} (h : j ≠ i) :
    (u.setRem i r).remths j = u.remths j :=
  Function.update_of_ne h ..

/-- `TAILQ_INSERT_TAIL` of a request. -/
def push (ior : Ior) : Usrdev :=
  { u with ioreqs := u.ioreqs ++ [ior], issued := u.issued ++ [ior] }

/-- The bytes of the I/O space that an access covers: where it starts, and how many of its
bytes lie inside. -/
def ioRange (port : Nat) : Nat × Nat :=
  let start := min (ioPort port) iospaceSz
  (start, min (start + 2 ^ ioSize port) iospaceSz - start)

end Usrdev

namespace State

variable (s : State)

/-- The request that the thread `cur` makes. -/
def mkIor (cur id : Nat) (op : IorOp) : Ior :=
  ⟨id, op, (s.thread cur).euid, (s.thread cur).egid, cur⟩

/-- A request is inserted, and its owner gets the signal of the device. -/
def enqueue (d : Nat) (ior : Ior) : Except Panic State :=
  (s.setUsr d ((s.usr d).push ior)).thraise (s.usr d).th (s.usr d).sig

/-- `_usrdev_open`. -/
def usrdevOpen (cur d : Nat) : Except Panic (Int × State) :=
  let u := s.usr d
  match u.freeRem with
  | none => .ok (Errno.ENFILE.neg, s)
  | some i =>
    let s' := s.setUsr d (u.setRem i { u.remths i with use := true, th := some cur })
    if u.detaching then .ok (Errno.ENODEV.neg, s')
    else do
      let s'' ← s'.enqueue d (s.mkIor cur i .openOp)
      return (i, s'')

/-- `_usrdev_clone`, of the client `id` for the thread `nth`. -/
def usrdevClone (cur d id nth : Nat) : Except Panic (Int × State) :=
  let u := s.usr d
  match u.freeRem with
  | none => .ok (Errno.ENFILE.neg, s)
  | some i =>
    let s' := s.setUsr d (u.setRem i { u.remths i with
      use := true, th := some nth
      iospace := (u.remths id).iospace, irqmap := (u.remths id).irqmap })
    if u.detaching then .ok (Errno.ENODEV.neg, s')
    else do
      let s'' ← s'.enqueue d (s.mkIor cur id (.cloneOp i))
      return (i, s'')

/-- `_usrdev_in`. -/
def usrdevIn (d id port : Nat) : Except Panic Res :=
  let (start, n) := Usrdev.ioRange port
  let b := ((s.usr d).remths id).iospace
  .ok ⟨some 0, some (bytesVal fun i ↦ if i < n then b (start + i) else 255), s⟩

/-- `_usrdev_out`. -/
def usrdevOut (cur d id port val : Nat) : Except Panic Res :=
  if maxUsrdevRems ≤ id then .error .closed
  else if (s.usr d).detaching then s.fail .ENODEV
  else do
    let s' ← s.enqueue d (s.mkIor cur id (.outOp (ioSize port) (ioPort port) val))
    s'.done

/-- `_usrdev_export`. -/
def usrdevExport (d id va sz : Nat) : Except Panic Res :=
  let u := s.usr d
  let r := u.remths id
  if maxUsrdevRems ≤ id then .error .closed
  else if sz = 0 then s.fail .EINVAL
  else
    match (List.range maxUsrdevAperts).find? fun i ↦ (r.apertbl i).sz = 0 with
    | none => s.fail .EBUSY
    | some i =>
      .ok ⟨some 0, some va, s.setUsr d
        (u.setRem id { r with apertbl := Function.update r.apertbl i ⟨va, sz⟩ })⟩

/-- `_usrdev_unexport`. -/
def usrdevUnexport (d id va : Nat) : Except Panic Res :=
  let u := s.usr d
  let r := u.remths id
  match (List.range maxUsrdevAperts).find? fun i ↦ (r.apertbl i).va = va with
  | none => s.fail .ENOENT
  | some i =>
    (s.setUsr d (u.setRem id { r with apertbl := Function.update r.apertbl i ⟨0, 0⟩ })).done

/-- `_usrdev_rdcfg`. -/
def usrdevRdcfg (d id off sz : Nat) : Except Panic Res :=
  if sz ∉ [1, 2, 4, 8] ∨ off % sz ≠ 0 then s.fail .EINVAL
  else if maxUsrdevRems ≤ id then .error .closed
  else if maxUserCfg ≤ off / 8 then s.fail .EINVAL
  else
    let res := (s.usr d).cfg.usercfg (off / 8) / 2 ^ (off % 8 * 8) % 2 ^ (8 * sz)
    .ok ⟨some 0, some res, s⟩

/-- `_usrdev_irqmap`. -/
def usrdevIrqmap (d id irq sig : Nat) : Except Panic Res :=
  let u := s.usr d
  let r := u.remths id
  if maxUsrdevRems ≤ id then .error .closed
  else if irqmapSz ≤ irq then s.fail .EINVAL
  else
    (s.setUsr d (u.setRem id
      { r with irqmap := Function.update r.irqmap irq (w32 (sig + 1)) })).done

/-- `_usrdev_close`. -/
def usrdevClose (cur d id : Nat) : Except Panic State :=
  let u := s.usr d
  let s' := s.setUsr d (u.setRem id
    { u.remths id with use := false, apertbl := fun i ↦
        if i < maxUsrdevAperts then ⟨0, 0⟩ else (u.remths id).apertbl i })
  if u.detaching then .ok s'
  else s'.enqueue d (s.mkIor cur id .closeOp)

/-- `usrdev_ops`, as far as `OP_CALL` reaches it. -/
def usrdevOp (k : Slot) (d id : Nat) : Req → Option (Except Panic Res)
  | .inPort port _ => some (s.usrdevIn d id port)
  | .outPort port val => some (s.usrdevOut k.1 d id port val)
  | .rdcfg off sz => some (s.usrdevRdcfg d id off sz)
  | .exportVa va sz _ _ => some (s.usrdevExport d id va sz)
  | .unexportVa va => some (s.usrdevUnexport d id va)
  | .irqmap irq sig => some (s.usrdevIrqmap d id irq sig)
  | .wrcfg .. | .iomap .. | .iounmap .. | .eoi .. => none

/-! ### What an operation leaves -/

/-- What an operation of a user device leaves, whatever it returns. -/
inductive UsrEffect (s : State) (k : Slot) (d id : Nat) : Req → Except Panic State → Prop
  | same {q : Req} : UsrEffect s k d id q (.ok s)
  | closed {q : Req} : UsrEffect s k d id q (.error .closed)
  | outPort {port val : Nat} {x : Except Panic State} (hid : id < maxUsrdevRems)
      (hdet : (s.usr d).detaching = false)
      (hx : s.enqueue d (s.mkIor k.1 id (.outOp (ioSize port) (ioPort port) val)) = x) :
      UsrEffect s k d id (.outPort port val) x
  | exportVa {va sz : Nat} {wire : Int} {phys : Option Nat} (i : Nat) :
      UsrEffect s k d id (.exportVa va sz wire phys) (.ok (s.setUsr d ((s.usr d).setRem id
        { (s.usr d).remths id with
          apertbl := Function.update ((s.usr d).remths id).apertbl i ⟨va, sz⟩ })))
  | unexportVa {va : Nat} (i : Nat) :
      UsrEffect s k d id (.unexportVa va) (.ok (s.setUsr d ((s.usr d).setRem id
        { (s.usr d).remths id with
          apertbl := Function.update ((s.usr d).remths id).apertbl i ⟨0, 0⟩ })))
  | irqmap {irq sig : Nat} (hirq : irq < irqmapSz) :
      UsrEffect s k d id (.irqmap irq sig) (.ok (s.setUsr d ((s.usr d).setRem id
        { (s.usr d).remths id with
          irqmap := Function.update ((s.usr d).remths id).irqmap irq (w32 (sig + 1)) })))

theorem usrdevOp_effect {s : State} {k : Slot} {d id : Nat} {q : Req} {x : Except Panic Res}
    (h : s.usrdevOp k d id q = some x) : UsrEffect s k d id q (x.map Res.state) := by
  cases q with
  | inPort port hw =>
      obtain rfl := Option.some.inj h
      exact .same
  | outPort port val =>
      obtain rfl := Option.some.inj h
      unfold usrdevOut
      split
      · exact .closed
      · next hid =>
        split
        · exact .same
        · next hdet =>
          refine .outPort (Nat.lt_of_not_le hid) (Bool.eq_false_of_not_eq_true hdet) ?_
          cases s.enqueue d _ <;> rfl
  | rdcfg off sz =>
      obtain rfl := Option.some.inj h
      unfold usrdevRdcfg
      split
      · exact .same
      · split
        · exact .closed
        · split <;> exact .same
  | exportVa va sz wire phys =>
      obtain rfl := Option.some.inj h
      unfold usrdevExport
      dsimp only
      split
      · exact .closed
      · split
        · exact .same
        · split
          · exact .same
          · exact .exportVa _
  | unexportVa va =>
      obtain rfl := Option.some.inj h
      unfold usrdevUnexport
      dsimp only
      split
      · exact .same
      · exact .unexportVa _
  | irqmap irq sig =>
      obtain rfl := Option.some.inj h
      unfold usrdevIrqmap
      dsimp only
      split
      · exact .closed
      · split
        · exact .same
        · next hirq => exact .irqmap (Nat.lt_of_not_le hirq)
  | wrcfg | iomap | iounmap | eoi => cases h

end State

/-! ## Hardware devices -/

/-- Whether a segment has the number `n`; the end of a segment is an `uint16_t`. -/
def Seg.has (g : Seg) (n : Nat) : Bool := g.base ≤ n && n ≤ (g.base + g.len + 65535) % 2 ^ 16

/-- Whether the pages of a memory segment have the address `pa`. -/
def Seg.hasPage (g : Seg) (pa : Nat) : Bool :=
  truncPage g.base ≤ pa &&
    pa ≤ truncPage ((g.base + g.len + (pageSize - 1)) % 2 ^ 64)

/-- `(pfn_t) atop(mmioaddr)`: the number of the page, as a 32-bit word. -/
def mmiopfn (mmioaddr : Nat) : Nat := mmioaddr / pageSize % 2 ^ 32

namespace Hwdev

variable (h : Hwdev)

/-- Write an entry of the client table. -/
def setRem (i : Nat) (r : HwRemth) : Hwdev := { h with remths := Function.update h.remths i r }

@[simp] theorem setRem_self {i : Nat} {r : HwRemth} : (h.setRem i r).remths i = r :=
  Function.update_self ..

theorem setRem_of_ne {i j : Nat} {r : HwRemth} (hj : j ≠ i) :
    (h.setRem i r).remths j = h.remths j :=
  Function.update_of_ne hj ..

/-- The client id that `_hwdev_open` finds. -/
def freeRem : Option Nat := (List.range maxHwdevRems).find? fun i ↦ !(h.remths i).use

end Hwdev

namespace State

variable (s : State)

/-- `_hwdev_open`. -/
def hwdevOpen (d : Nat) : Int × State :=
  match (s.hw d).freeRem with
  | none => (Errno.ENFILE.neg, s)
  | some i => (i, s.setHw d ((s.hw d).setRem i ⟨true, [], [], []⟩))

/-- `_hwdev_in`. -/
def hwdevIn (d port hw : Nat) : Except Panic Res :=
  if !(s.hw d).cfg.piosegs.any fun g ↦ g.has (ioPort port) then s.fail .EPERM
  else
    match platformIn port hw with
    | none => s.fail .EINVAL
    | some v => .ok ⟨some 0, some v, s⟩

/-- `_hwdev_out`. -/
def hwdevOut (d port : Nat) : Except Panic Res :=
  if !(s.hw d).cfg.piosegs.any fun g ↦ g.has (ioPort port) then s.fail .EPERM
  else if ioSize port < 3 then s.done
  else s.fail .EINVAL

/-- `_hwdev_export`. -/
def hwdevExport (d id va sz : Nat) (wire : Int) (phys : Option Nat) : Except Panic Res :=
  let h := s.hw d
  let r := h.remths id
  if truncPage (w32 (va + sz + (2 ^ 32 - 1))) ≠ truncPage va then s.fail .EINVAL
  else if wire ≠ 0 then .ok ⟨some wire, none, s⟩
  else
    match phys with
    | none => s.fail .EFAULT
    | some pfn =>
      .ok ⟨some 0, some (pfn * pageSize + va % pageSize),
        s.setHw d (h.setRem id { r with hwdmas := ⟨va, pfn⟩ :: r.hwdmas })⟩

/-- `_hwdev_unexport`. -/
def hwdevUnexport (d id va : Nat) : Except Panic Res :=
  let h := s.hw d
  let r := h.remths id
  match r.hwdmas.find? fun pd ↦ pd.va = va with
  | none => s.fail .ENOENT
  | some pd => (s.setHw d (h.setRem id { r with hwdmas := r.hwdmas.erase pd })).done

/-- `_hwdev_iomap`. -/
def hwdevIomap (k : Slot) (d id va mmioaddr : Nat) (pg : Page) : Except Panic Res :=
  if !(s.hw d).cfg.memsegs.any fun g ↦ g.hasPage mmioaddr then s.fail .EPERM
  else if va % pageSize ≠ mmioaddr % pageSize then s.fail .EINVAL
  else if !pg.valid then s.fail .EINVAL
  else
    let (ret, s') := s.iomap k va (mmiopfn mmioaddr) pg
    if ret < 0 then .ok ⟨some ret, none, s'⟩
    else
      let h := s'.hw d
      let r := h.remths id
      (s'.setHw d (h.setRem id { r with hwmaps := va :: r.hwmaps })).done

/-- `_hwdev_iounmap`. -/
def hwdevIounmap (k : Slot) (d id va : Nat) : Except Panic Res :=
  let h := s.hw d
  let r := h.remths id
  if !r.use then .error .closed
  else if va ∈ r.hwmaps then
    ((s.setHw d (h.setRem id { r with hwmaps := r.hwmaps.erase va })).iounmap k.1 va).done
  else s.fail .ENOENT

/-- `_hwdev_irqmap`. -/
def hwdevIrqmap (k : Slot) (d id irq sig : Nat) : Except Panic Res :=
  if !(s.hw d).cfg.irqsegs.any fun g ↦ g.has irq then s.fail .ENOENT
  else
    match s.irqregister k irq sig with
    | none => s.fail .EINVAL
    | some s' =>
      let h := s'.hw d
      let r := h.remths id
      (s'.setHw d (h.setRem id { r with hwsigs := s.nsig :: r.hwsigs })).done

/-- `_hwdev_eoi`; it drops the result of `irqeoi`. -/
def hwdevEoi (d irq : Nat) : Except Panic Res :=
  if !(s.hw d).cfg.irqsegs.any fun g ↦ g.has irq then s.fail .ENOENT
  else do
    let s' ← s.irqeoi irq
    s'.done

/-- `_hwdev_close`. -/
def hwdevClose (cur d id : Nat) : Except Panic State :=
  let h := s.hw d
  let r := h.remths id
  if !r.use then .error .closed
  else
    let s' := r.hwmaps.foldl (fun s va ↦ s.iounmap cur va) s
    let s'' := r.hwsigs.foldl (fun s key ↦ s.irqunregister key) s'
    .ok (s''.setHw d (h.setRem id .zero))

/-- `hwdev_ops`, as far as `OP_CALL` reaches it. -/
def hwdevOp (k : Slot) (d id : Nat) : Req → Option (Except Panic Res)
  | .inPort port hw => some (s.hwdevIn d port hw)
  | .outPort port _ => some (s.hwdevOut d port)
  | .exportVa va sz wire phys => some (s.hwdevExport d id va sz wire phys)
  | .unexportVa va => some (s.hwdevUnexport d id va)
  | .iomap va mmioaddr pg => some (s.hwdevIomap k d id va mmioaddr pg)
  | .iounmap va => some (s.hwdevIounmap k d id va)
  | .irqmap irq sig => some (s.hwdevIrqmap k d id irq sig)
  | .eoi irq => some (s.hwdevEoi d irq)
  | .rdcfg .. | .wrcfg .. => none

/-! ### What an operation leaves -/

/-- What an operation of a hardware device leaves, whatever it returns. -/
inductive HwEffect (s : State) (k : Slot) (d id : Nat) : Req → Except Panic State → Prop
  | same {q : Req} : HwEffect s k d id q (.ok s)
  | hwdmas {q : Req} (l : List Hwdma) : HwEffect s k d id q
      (.ok (s.setHw d ((s.hw d).setRem id { (s.hw d).remths id with hwdmas := l })))
  | failed {va mmioaddr : Nat} {pg : Page} (h : (s.iomap k va (mmiopfn mmioaddr) pg).1 < 0) :
      HwEffect s k d id (.iomap va mmioaddr pg) (.ok (s.iomap k va (mmiopfn mmioaddr) pg).2)
  | iomap {va mmioaddr : Nat} {pg : Page} {s' : State}
      (hs' : (s.iomap k va (mmiopfn mmioaddr) pg).2 = s')
      (h : ¬(s.iomap k va (mmiopfn mmioaddr) pg).1 < 0) :
      HwEffect s k d id (.iomap va mmioaddr pg) (.ok (s'.setHw d ((s'.hw d).setRem id
        { (s'.hw d).remths id with hwmaps := va :: ((s'.hw d).remths id).hwmaps })))
  | iounmap {va : Nat} (h : va ∈ ((s.hw d).remths id).hwmaps) :
      HwEffect s k d id (.iounmap va) (.ok ((s.setHw d ((s.hw d).setRem id
        { (s.hw d).remths id with hwmaps := ((s.hw d).remths id).hwmaps.erase va })).iounmap k.1 va))
  | closed {va : Nat} : HwEffect s k d id (.iounmap va) (.error .closed)
  | irqmap {irq sig : Nat} {s' : State} (hseg : (s.hw d).cfg.irqsegs.any fun g ↦ g.has irq)
      (hs' : s.irqregister k irq sig = some s') :
      HwEffect s k d id (.irqmap irq sig) (.ok (s'.setHw d ((s'.hw d).setRem id
        { (s'.hw d).remths id with hwsigs := s.nsig :: ((s'.hw d).remths id).hwsigs })))
  | eoi {irq : Nat} {x : Except Panic State} (h : s.irqeoi irq = x) :
      HwEffect s k d id (.eoi irq) x

theorem hwdevOp_effect {s : State} {k : Slot} {d id : Nat} {q : Req} {x : Except Panic Res}
    (h : s.hwdevOp k d id q = some x) : HwEffect s k d id q (x.map Res.state) := by
  cases q with
  | inPort port hw =>
      obtain rfl := Option.some.inj h
      unfold hwdevIn
      split
      · exact .same
      · split <;> exact .same
  | outPort port val =>
      obtain rfl := Option.some.inj h
      unfold hwdevOut
      split
      · exact .same
      · split <;> exact .same
  | exportVa va sz wire phys =>
      obtain rfl := Option.some.inj h
      unfold hwdevExport
      dsimp only
      split
      · exact .same
      · split
        · exact .same
        · split
          · exact .same
          · exact .hwdmas _
  | unexportVa va =>
      obtain rfl := Option.some.inj h
      unfold hwdevUnexport
      dsimp only
      split
      · exact .same
      · exact .hwdmas _
  | iomap va mmioaddr pg =>
      obtain rfl := Option.some.inj h
      unfold hwdevIomap
      split
      · exact .same
      · split
        · exact .same
        · split
          · exact .same
          · dsimp only
            split
            · next hneg => exact .failed hneg
            · next hneg => exact .iomap rfl hneg
  | iounmap va =>
      obtain rfl := Option.some.inj h
      unfold hwdevIounmap
      dsimp only
      split
      · exact .closed
      · split
        · next hva => exact .iounmap hva
        · exact .same
  | irqmap irq sig =>
      obtain rfl := Option.some.inj h
      unfold hwdevIrqmap
      split
      · exact .same
      · next hseg =>
        split
        · exact .same
        · next hs' => exact .irqmap (by simpa using hseg) hs'
  | eoi irq =>
      obtain rfl := Option.some.inj h
      unfold hwdevEoi
      split
      · exact .same
      · refine .eoi ?_
        cases s.irqeoi irq <;> rfl
  | rdcfg | wrcfg => cases h

/-! ## The platform device -/

/-- `_pltdev_open`.  It returns 0 for whichever client it has marked; only `pltsigs` is
cleared. -/
def pltdevOpen : Int × State :=
  match (List.range maxPltSigs).find? fun i ↦ !(s.platformRems i).inUse with
  | none => (Errno.ENFILE.neg, s)
  | some i => (0, s.setPlt i { s.platformRems i with inUse := true, pltsigs := [] })

/-- `_pltdev_in`. -/
def pltdevIn (port hw : Nat) : Except Panic Res :=
  match platformIn port hw with
  | none => s.fail .EINVAL
  | some v => .ok ⟨some 0, some v, s⟩

/-- `_pltdev_out`. -/
def pltdevOut (port : Nat) : Except Panic Res :=
  if ioSize port < 3 then s.done else s.fail .EINVAL

/-- `_pltdev_export`.  Its fourth parameter is the pointer, and the bus passes the size
there: nothing is stored where the caller looks for the address. -/
def pltdevExport (phys : Option Nat) : Except Panic Res :=
  match phys with
  | none => s.fail .EFAULT
  | some _ => s.done

/-- `_pltdev_iomap`. -/
def pltdevIomap (k : Slot) (id va mmioaddr : Nat) (pg : Page) : Except Panic Res :=
  if va % pageSize ≠ mmioaddr % pageSize then s.fail .EINVAL
  else if !pg.valid then s.fail .EINVAL
  else
    let (ret, s') := s.iomap k va (mmiopfn mmioaddr) pg
    if ret < 0 then .ok ⟨some ret, none, s'⟩
    else
      let r := s'.platformRems id
      (s'.setPlt id { r with pltmaps := va :: r.pltmaps }).done

/-- `_pltdev_iounmap`. -/
def pltdevIounmap (k : Slot) (id va : Nat) : Except Panic Res :=
  let r := s.platformRems id
  if !r.inUse then .error .closed
  else if va ∈ r.pltmaps then
    ((s.setPlt id { r with pltmaps := r.pltmaps.erase va }).iounmap k.1 va).done
  else s.fail .ENOENT

/-- `_pltdev_irqmap`. -/
def pltdevIrqmap (k : Slot) (id irq sig : Nat) : Except Panic Res :=
  match s.irqregister k irq sig with
  | none => s.fail .EINVAL
  | some s' =>
    let r := s'.platformRems id
    (s'.setPlt id { r with pltsigs := s.nsig :: r.pltsigs }).done

/-- `_pltdev_close`. -/
def pltdevClose (cur id : Nat) : Except Panic State :=
  let r := s.platformRems id
  if !r.inUse then .error .closed
  else
    let s' := r.pltmaps.foldl (fun s va ↦ s.iounmap cur va) s
    let s'' := r.pltsigs.foldl (fun s key ↦ s.irqunregister key) s'
    .ok (s''.setPlt id ⟨false, [], []⟩)

/-- `pltdev_ops`, as far as `OP_CALL` reaches it. -/
def pltdevOp (k : Slot) (id : Nat) : Req → Option (Except Panic Res)
  | .inPort port hw => some (s.pltdevIn port hw)
  | .outPort port _ => some (s.pltdevOut port)
  | .exportVa _ _ _ phys => some (s.pltdevExport phys)
  | .iomap va mmioaddr pg => some (s.pltdevIomap k id va mmioaddr pg)
  | .iounmap va => some (s.pltdevIounmap k id va)
  | .irqmap irq sig => some (s.pltdevIrqmap k id irq sig)
  | .rdcfg .. | .wrcfg .. | .unexportVa .. | .eoi .. => none

/-- What an operation of the platform device leaves. -/
inductive PltEffect (s : State) (k : Slot) (id : Nat) : Req → Except Panic State → Prop
  | same {q : Req} : PltEffect s k id q (.ok s)
  | failed {va mmioaddr : Nat} {pg : Page} (h : (s.iomap k va (mmiopfn mmioaddr) pg).1 < 0) :
      PltEffect s k id (.iomap va mmioaddr pg) (.ok (s.iomap k va (mmiopfn mmioaddr) pg).2)
  | iomap {va mmioaddr : Nat} {pg : Page} {s' : State}
      (hs' : (s.iomap k va (mmiopfn mmioaddr) pg).2 = s')
      (h : ¬(s.iomap k va (mmiopfn mmioaddr) pg).1 < 0) :
      PltEffect s k id (.iomap va mmioaddr pg) (.ok (s'.setPlt id
        { s'.platformRems id with pltmaps := va :: (s'.platformRems id).pltmaps }))
  | iounmap {va : Nat} (h : va ∈ (s.platformRems id).pltmaps) :
      PltEffect s k id (.iounmap va) (.ok ((s.setPlt id
        { s.platformRems id with pltmaps := (s.platformRems id).pltmaps.erase va }).iounmap k.1 va))
  | closed {va : Nat} : PltEffect s k id (.iounmap va) (.error .closed)
  | irqmap {irq sig : Nat} {s' : State} (hs' : s.irqregister k irq sig = some s') :
      PltEffect s k id (.irqmap irq sig) (.ok (s'.setPlt id
        { s'.platformRems id with pltsigs := s.nsig :: (s'.platformRems id).pltsigs }))

theorem pltdevOp_effect {s : State} {k : Slot} {id : Nat} {q : Req} {x : Except Panic Res}
    (h : s.pltdevOp k id q = some x) : PltEffect s k id q (x.map Res.state) := by
  cases q with
  | inPort port hw =>
      obtain rfl := Option.some.inj h
      unfold pltdevIn
      split <;> exact .same
  | outPort port val =>
      obtain rfl := Option.some.inj h
      unfold pltdevOut
      split <;> exact .same
  | exportVa va sz wire phys =>
      obtain rfl := Option.some.inj h
      unfold pltdevExport
      split <;> exact .same
  | iomap va mmioaddr pg =>
      obtain rfl := Option.some.inj h
      unfold pltdevIomap
      split
      · exact .same
      · split
        · exact .same
        · dsimp only
          split
          · next hneg => exact .failed hneg
          · next hneg => exact .iomap rfl hneg
  | iounmap va =>
      obtain rfl := Option.some.inj h
      unfold pltdevIounmap
      dsimp only
      split
      · exact .closed
      · split
        · next hva => exact .iounmap hva
        · exact .same
  | irqmap irq sig =>
      obtain rfl := Option.some.inj h
      unfold pltdevIrqmap
      split
      · exact .same
      · next hs' => exact .irqmap hs'
  | rdcfg | wrcfg | unexportVa | eoi => cases h

/-! ## The system device -/

/-- `_sysdev_in`; `hw` is what the timer or the virtual time of the thread reads. -/
def sysdevIn (port hw : Nat) : Except Panic Res :=
  .ok ⟨some 0, some (if ioPort port ≤ 2 then hw else 2 ^ 64 - 1), s⟩

/-- `_sysdev_out`.  It arms the timers of the thread, which are not kept here, and has no
`return`. -/
def sysdevOut : Except Panic Res := .ok ⟨none, none, s⟩

/-- `_sysdev_irqmap`. -/
def sysdevIrqmap (k : Slot) (irq sig : Nat) : Except Panic Res :=
  match irq with
  | 0 => (s.setThread k.1 { s.thread k.1 with rttSig := w32 (sig + 1) }).done
  | 1 => (s.setThread k.1 { s.thread k.1 with vttSig := w32 (sig + 1) }).done
  | _ => s.done

/-- `sysdev_ops`, as far as `OP_CALL` reaches it. -/
def sysdevOp (k : Slot) : Req → Option (Except Panic Res)
  | .inPort port hw => some (s.sysdevIn port hw)
  | .outPort _ _ => some s.sysdevOut
  | .exportVa .. | .iomap .. | .iounmap .. => some (s.fail .ENOSYS)
  | .irqmap irq sig => some (s.sysdevIrqmap k irq sig)
  | .rdcfg .. | .wrcfg .. | .unexportVa .. | .eoi .. => none

/-! ## The kernel log -/

/-- `__klogdev_raise_avl`, which `klog_putc` ends with. -/
def klogdevRaiseAvl : Except Panic State :=
  let l := s.klog
  let s' := { s with klog := { l with isr := true } }
  if l.ie && !l.isr && l.sig ≠ 0 then
    match l.th with
    | none => .error .null
    | some th => s'.thraise th l.sig
  else .ok s'

/-- `_klogdev_open`. -/
def klogdevOpen (cur : Nat) : Int × State :=
  if s.klog.bsy then (Errno.EBUSY.neg, s)
  else (0, { s with klog := ⟨true, some cur, false, false, 0⟩ })

/-- `_klogdev_close`. -/
def klogdevClose : Except Panic State :=
  if !s.klog.bsy then .error .closed
  else .ok { s with klog := ⟨false, none, false, false, 0⟩ }

/-- `_klogdev_in`; `hw` is what the ring buffer gives. -/
def klogdevIn (port hw : Nat) : Except Panic Res :=
  .ok ⟨some 0, some (if ioPort port ≤ 1 then hw else 2 ^ 64 - 1), s⟩

/-- `_klogdev_out`, which has no `return`. -/
def klogdevOut (port val : Nat) : Except Panic Res :=
  match ioPort port with
  | 2 => .ok ⟨none, none, { s with klog := { s.klog with ie := val % 2 = 1 } }⟩
  | 3 => .ok ⟨none, none, { s with klog := { s.klog with isr := s.klog.isr && val % 2 = 0 } }⟩
  | _ => .ok ⟨none, none, s⟩

/-- `_klogdev_irqmap`. -/
def klogdevIrqmap (irq sig : Nat) : Except Panic Res :=
  match irq with
  | 0 => ({ s with klog := { s.klog with sig := sig } } : State).done
  | _ => s.done

/-- `klogdev_ops`, as far as `OP_CALL` reaches it. -/
def klogdevOp : Req → Option (Except Panic Res)
  | .inPort port hw => some (s.klogdevIn port hw)
  | .outPort port val => some (s.klogdevOut port val)
  | .exportVa .. | .iomap .. | .iounmap .. => some (s.fail .ENOSYS)
  | .irqmap irq sig => some (s.klogdevIrqmap irq sig)
  | .rdcfg .. | .wrcfg .. | .unexportVa .. | .eoi .. => none

/-! ## Dispatch -/

/-- `d->ops->open`. -/
def opOpen (cur d : Nat) : Except Panic (Int × State) :=
  match (s.dev d).kind with
  | .usr => s.usrdevOpen cur d
  | .hw => .ok (s.hwdevOpen d)
  | .plt => .ok s.pltdevOpen
  | .sys => .ok (0, s)
  | .klog => .ok (s.klogdevOpen cur)

/-- `d->ops->clone`, which only user devices have. -/
def opClone (cur d id nth : Nat) : Option (Except Panic (Int × State)) :=
  match (s.dev d).kind with
  | .usr => some (s.usrdevClone cur d id nth)
  | _ => none

/-- `d->ops->close`. -/
def opClose (cur d id : Nat) : Except Panic State :=
  match (s.dev d).kind with
  | .usr => s.usrdevClose cur d id
  | .hw => s.hwdevClose cur d id
  | .plt => s.pltdevClose cur id
  | .sys => .ok s
  | .klog => s.klogdevClose

/-- `d->ops->_op`, of the operation that a request is for. -/
def op (k : Slot) (d id : Nat) (r : Req) : Option (Except Panic Res) :=
  match (s.dev d).kind with
  | .usr => s.usrdevOp k d id r
  | .hw => s.hwdevOp k d id r
  | .plt => s.pltdevOp k id r
  | .sys => s.sysdevOp k r
  | .klog => s.klogdevOp r

end State

end Mh.Bus
