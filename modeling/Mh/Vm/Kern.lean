import Mh.Vm.State

/-!
# The page-table operations

The user half of `i386/src/pmap.c`.  An address space is named by the pid of its
thread; whether the table is reached through the linear map (the current address
space) or through its kernel mapping makes no difference to what is written, so
the two are not told apart.

Where the source returns the page to be freed through `opfn`, the model returns
`Option Nat`, with `none` for `PFN_INVALID`.
-/

namespace Mh.Vm

open Mh.Lib

/-- The end of `pmap_uenter`, `pmap_uiomap` and `pmap_uchaddr`: give up the
reference of a *normal* old entry, and report its page when that was the last. -/
def dropL1e (s : Sys) (ol1e : L1e) : Except Panic (Option Nat × Sys) :=
  if l1eNormal ol1e then do
    let (ref, s) ← pfndbDecref s ol1e.pfn
    return (if ref = 0 then some ol1e.pfn else none, s)
  else
    return (none, s)

/-- The assertions on the protection and on the page type of a present entry. -/
def protCheck (s : Sys) (pfn : Nat) (prot : Prot) (type : PfnType) (e : Panic) :
    Except Panic Unit :=
  if prot.p then do
    kassert prot.u .protNotUser
    let t ← pfndbType s pfn
    kassert (t == type) e
  else
    return ()

/-- `if (nl1e & PG_P) pfn_incref(l1epfn(nl1e))` -/
def takeL1e (s : Sys) (nl1e : L1e) : Except Panic Sys :=
  if nl1e.p then pfndbIncref s nl1e.pfn else return s

/-- `pmap_uenter`. -/
def pmapUenter (s : Sys) (pm va pfn : Nat) (prot : Prot) :
    Except Panic (Int × Option Nat × Sys) := do
  kassert (isuaddr va) .notUaddr
  protCheck s pfn prot .user .notUserpage
  let nl1e := l1eMknormal (mkl1e pfn prot)
  let ol1e := s.l1 pm (vpn va)
  if l1eExternal ol1e then
    return (Errno.EBUSY.neg, none, s)
  let s ← takeL1e s nl1e
  let s := (s.setFlush pm (tlbflushp ol1e nl1e)).setL1e pm (vpn va) nl1e
  let (opfn, s) ← dropL1e s ol1e
  return (0, opfn, s)

/-- `pmap_uiomap`. -/
def pmapUiomap (s : Sys) (pm va pfn : Nat) (prot : Prot) :
    Except Panic (Int × Option Nat × Sys) := do
  kassert (isuaddr va) .notUaddr
  protCheck s pfn prot .mmio .notMmio
  let nl1e := l1eMkiomap (mkl1e pfn prot)
  let ol1e := s.l1 pm (vpn va)
  if l1eExternal ol1e then
    return (Errno.EBUSY.neg, none, s)
  let s := (s.setFlush pm (tlbflushp ol1e nl1e)).setL1e pm (vpn va) nl1e
  let (opfn, s) ← dropL1e s ol1e
  return (0, opfn, s)

/-- `pmap_uiounmap`. -/
def pmapUiounmap (s : Sys) (pm va : Nat) : Except Panic (Int × Sys) := do
  kassert (isuaddr va) .notUaddr
  let ol1e := s.l1 pm (vpn va)
  if !l1eIomap ol1e then
    return (-1, s)
  return (0, (s.setFlush pm (tlbflushp ol1e invalidL1e)).setL1e pm (vpn va) invalidL1e)

/-- `pmap_uchaddr`: move the entry of `va` to `newva`. -/
def pmapUchaddr (s : Sys) (pm va newva : Nat) : Except Panic (Int × Option Nat × Sys) := do
  kassert (isuaddr va) .notUaddr
  kassert (isuaddr newva) .notUaddr
  let nl1e := s.l1 pm (vpn va)
  if l1eExternal nl1e then
    return (Errno.EBUSY.neg, none, s)
  let ol1e := s.l1 pm (vpn newva)
  if l1eExternal ol1e then
    return (Errno.EBUSY.neg, none, s)
  let fl := (s.pmap pm).tlbflush
  let s := (s.setL1e pm (vpn va) (mkl1e pfnInvalid .none)).setL1e pm (vpn newva) nl1e
  let s := s.setFlush pm ((fl.or (tlbflushp ol1e nl1e)).or (tlbflushp nl1e invalidL1e))
  let (opfn, s) ← dropL1e s ol1e
  return (0, opfn, s)

/-- `pmap_uchprot`. -/
def pmapUchprot (s : Sys) (pm va : Nat) (prot : Prot) : Except Panic (Int × Sys) := do
  kassert prot.p .protNotPresent
  kassert prot.u .protNotUser
  kassert (isuaddr va) .notUaddr
  let ol1e := s.l1 pm (vpn va)
  if l1eExternal ol1e then
    return (Errno.EBUSY.neg, s)
  if !ol1e.p then
    return (Errno.EPERM.neg, s)
  if prot.w && l1eCow ol1e then
    return (Errno.EINVAL.neg, s)
  kassert (l1eNormal ol1e) .notNormal
  let nl1e := l1eMknormal (mkl1e ol1e.pfn prot)
  return (0, (s.setFlush pm (tlbflushp ol1e nl1e)).setL1e pm (vpn va) nl1e)

/-- `pmap_uwire`. -/
def pmapUwire (s : Sys) (pm va : Nat) : Except Panic (Int × Sys) := do
  kassert (isuaddr va) .notUaddr
  let ol1e := s.l1 pm (vpn va)
  if l1eIomap ol1e then
    return (Errno.EBUSY.neg, s)
  let s ← pfndbIncwir s ol1e.pfn
  let nl1e := l1eMkwired ol1e
  return (0, (s.setFlush pm (tlbflushp ol1e nl1e)).setL1e pm (vpn va) nl1e)

/-- `pmap_uunwire`. -/
def pmapUunwire (s : Sys) (pm va : Nat) : Except Panic (Int × Sys) := do
  kassert (isuaddr va) .notUaddr
  let ol1e := s.l1 pm (vpn va)
  if !l1eWired ol1e then
    return (-1, s)
  let (wir, s) ← pfndbDecwir s ol1e.pfn
  if wir = 0 then
    let nl1e := l1eMknormal ol1e
    return (0, (s.setFlush pm (tlbflushp ol1e nl1e)).setL1e pm (vpn va) nl1e)
  return (0, s)

/-! ## Faults -/

/-- The bits of a page-fault error code that are looked at. -/
structure Pferr where
  /-- bit 0: the entry was present -/
  p : Bool
  /-- bit 1: a write -/
  w : Bool
  /-- bit 2: from user mode -/
  u : Bool
deriving DecidableEq, Repr

/-- The error word passed to the thread's handler (`xcpterr`). -/
structure Xcpterr where
  /-- `PG_ERR_REASON_PROT`, as against `PG_ERR_REASON_NOTP` -/
  prot : Bool
  /-- `PG_ERR_INFO_COW` -/
  cow : Bool
  /-- `PG_ERR_INFO_WRITE` -/
  write : Bool
deriving DecidableEq, Repr

/-- The entry is a copy-on-write entry whose page is referenced once. -/
def lastCow (s : Sys) (l1e : L1e) : Except Panic Bool :=
  if l1eCow l1e then do return (← pfndbGetref s l1e.pfn) == 1 else return false

/-- `_pmap_fault`.  The last copy-on-write entry of a page is made normal and the
access is tried again (`none`); any other fault goes to the thread's handler.
Entries outside the user range carry no marker, so nothing happens to them. -/
def pmapFault (s : Sys) (pm va : Nat) (err : Pferr) : Except Panic (Option Xcpterr × Sys) := do
  let l1e := if isuaddr va then s.l1 pm (vpn va) else .zero
  if ← lastCow s l1e then
    return (none, s.setL1e pm (vpn va) (l1eMknormal l1e))
  kassert err.u .faultNotUser
  return (some ⟨err.p, l1eCow l1e, err.w⟩, s)

/-! ## Copying an address space -/

/-- `pmap_alloc`.  Nothing initialises `tlbflush`, which holds a stale word. -/
def pmapAlloc (s : Sys) (pm : Nat) (stale : Tlbf) : Sys :=
  { s with pmap := Function.update s.pmap pm ⟨fun _ ↦ .zero, stale⟩ }

/-- One iteration of the copy-on-write loop of `pmap_copy`. -/
def pmapCopyCow (pm new : Nat) (s : Sys) (v : Nat) : Except Panic Sys := do
  let l1e := s.l1 pm v
  if !l1e.p then
    return s.setL1e new v l1e
  else if l1eExternal l1e then
    return s.setL1e new v .zero
  else
    kassert l1e.u .l1eNotUser
    let s ← pfndbIncref s l1e.pfn
    let l1e := l1eMkcow l1e
    let s := (s.setL1e pm v l1e).setL1e new v l1e
    return s.setFlush pm ((s.pmap pm).tlbflush.or ⟨true, false⟩)

/-- `pmap_copy`. -/
def pmapCopy (s : Sys) (pm new : Nat) (stale : Tlbf) : Except Panic Sys := do
  let s := pmapAlloc s new stale
  let s ← zcowVpns.foldlM (fun s v ↦ pure (s.setL1e new v .zero)) s
  cowVpns.foldlM (pmapCopyCow pm new) s

/-- The TLB flushes `pmap_commit` can ask for. -/
inductive Flush
  /-- no flush -/
  | none
  /-- `__flush_tlbs(pmap->cpumap, TLBF_NORMAL)` -/
  | cpus
  /-- `__flush_tlbs(-1, TLBF_GLOBAL)` -/
  | all
deriving DecidableEq, Repr

/-- `pmap_commit`, with the flush it performs. -/
def pmapCommit (s : Sys) (pm : Nat) : Flush × Sys :=
  let fl := (s.pmap pm).tlbflush
  (if fl.global then .all else if fl.normal then .cpus else .none, s.setFlush pm .null)

end Mh.Vm

/-!
## The virtual memory system calls

`iomap`, `iounmap`, `vmmap`, `vmmap32`, `vmunmap`, `vmmove`, `vmchprot`, `vmclear`
and the address-space part of `thfork` and `__exit` from `kern.c`, with the checks
that `sys_map`, `sys_move` and `sys_iomap` make first (`sys.c`).

A step of the system, `Step`, is one such call by a running thread.  The other
steps are the operations that devices reach (`pmap_uwire`, `pmap_uunwire`,
`iounmap`), a page fault in user mode, and `thfree`, which gives up the address
space of a thread that has exited.
-/

namespace Mh.Vm

open Mh.Lib

/-- `if (opfn != PFN_INVALID) { __freepage(opfn); ret = 1; }` -/
def freeOld (s : Sys) : Option Nat → Except Panic (Int × Sys)
  | some o => do return (1, ← pgfree s o)
  | none => return (0, s)

/-- A store by the kernel to a user page.  `CR0.WP` is set, so a page that is not
present or not writable faults. -/
def kernelFill (s : Sys) (cur va : Nat) (c : Nat → UInt8) : Except Panic Sys := do
  let e := s.l1 cur (vpn va)
  kassert (e.p && e.w) .kernelFault
  return s.setMem e.pfn c

/-- `iomap`. -/
def iomap (s : Sys) (cur va mmiopfn : Nat) (prot : Prot) : Except Panic (Int × Sys) := do
  let t ← pfndbType s mmiopfn
  if t != .mmio then
    return (Errno.EINVAL.neg, s)
  let (ret, opfn, s) ← pmapUiomap s cur va mmiopfn prot
  let s := (pmapCommit s cur).2
  if ret < 0 then
    return (ret, s)
  freeOld s opfn

/-- `iounmap`. -/
def iounmap (s : Sys) (cur va : Nat) : Except Panic (Int × Sys) := do
  let (ret, s) ← pmapUiounmap s cur va
  return (ret, (pmapCommit s cur).2)

/-- `vmmap` up to the clearing of the page, and all of `vmmap32`. -/
def vmmap32 (s : Sys) (cur va : Nat) (prot : Prot) (pg : Page) : Except Panic (Int × Sys) := do
  let s ← allocuser s pg
  let (ret, opfn, s) ← pmapUenter s cur va pg.pfn prot
  let s := (pmapCommit s cur).2
  if ret < 0 then
    return (ret, ← pgfree s pg.pfn)
  freeOld s opfn

/-- `vmmap`. -/
def vmmap (s : Sys) (cur va : Nat) (prot : Prot) (pg : Page) : Except Panic (Int × Sys) := do
  let (ret, s) ← vmmap32 s cur va prot pg
  if ret < 0 then
    return (ret, s)
  return (ret, ← kernelFill s cur va fun _ ↦ 0)

/-- `vmunmap`. -/
def vmunmap (s : Sys) (cur va : Nat) : Except Panic (Int × Sys) := do
  let (ret, opfn, s) ← pmapUenter s cur va pfnInvalid .none
  let s := (pmapCommit s cur).2
  if ret < 0 then
    return (ret, s)
  freeOld s opfn

/-- `vmmove`. -/
def vmmove (s : Sys) (cur dst src : Nat) : Except Panic (Int × Sys) := do
  let (ret, opfn, s) ← pmapUchaddr s cur src dst
  let s := (pmapCommit s cur).2
  if ret < 0 then
    return (ret, s)
  freeOld s opfn

/-- `vmchprot`. -/
def vmchprot (s : Sys) (cur va : Nat) (prot : Prot) : Except Panic (Int × Sys) := do
  let (ret, s) ← pmapUchprot s cur va prot
  return (ret, (pmapCommit s cur).2)

/-- One iteration of the loop of `vmclear`. -/
def vmclearPage (cur addr : Nat) (s : Sys) (i : Nat) : Except Panic Sys := do
  let (_, opfn, s) ← pmapUenter s cur (w32 (addr + i * pageSize)) 0 .none
  let (_, s) ← freeOld s opfn
  return s

/-- `vmclear`. -/
def vmclear (s : Sys) (cur addr sz : Nat) : Except Panic Sys := do
  let s ← (List.range (roundPage sz / pageSize)).foldlM (vmclearPage cur addr) s
  return (pmapCommit s cur).2

/-- The address-space part of `__exit`. -/
def exit (s : Sys) (cur : Nat) : Except Panic Sys := do
  kassert (cur != s.init) .killedInit
  let s ← vmclear s cur userBase (userEnd - userBase)
  return { s with zombie := insert cur s.zombie }

/-- `thfree`: `pmap_free`. -/
def thfree (s : Sys) (th : Nat) : Sys :=
  { s with live := s.live.erase th, zombie := s.zombie.erase th }

/-- One iteration of the loop of `thfork` over the area that is copied at once.
`copy_from_user` fails when the page is not present. -/
def thforkZcow (cur new : Nat) (pick : Nat → Page) (s : Sys) (v : Nat) : Except Panic Sys := do
  let pg := pick v
  let s ← pgalloc s pg
  let s ← pfndbClrref s pg.pfn
  let e := s.l1 cur v
  if !e.p then
    pgfree s pg.pfn
  else
    let s := s.setMem pg.pfn (s.mem e.pfn)
    let (ret, opfn, s) ← pmapUenter s new (v * pageSize) pg.pfn protUserWr
    kassert (ret == 0 && opfn == none) .zcowBusy
    return s

/-- `getnewpid` and `pmap_copy`: the new thread, with the copied address space. -/
def thforkCopy (s : Sys) (cur : Nat) (stale : Tlbf) : Except Panic Sys := do
  kassert (s.nextpid + 1 != 2 ^ 32) .pidWrap
  let new := s.nextpid
  pmapCopy { s with nextpid := new + 1, live := insert new s.live } cur new stale

/-- The address-space part of `thfork`. -/
def thfork (s : Sys) (cur : Nat) (stale : Tlbf) (pick : Nat → Page) : Except Panic Sys := do
  let new := s.nextpid
  let s ← thforkCopy s cur stale
  let s ← zcowVpns.foldlM (thforkZcow cur new pick) s
  return (pmapCommit s cur).2

/-! ## System calls -/

/-- `MAP_NEW` -/
def mapNew : Nat := 0x100

/-- `MAP_NEW32` -/
def mapNew32 : Nat := 0x200

/-- The permissions `sys_map` accepts, without `MAP_NEW` and `MAP_NEW32`. -/
def protOfPerm : Nat → Option Prot
  | 0 => some .none
  | 1 => some protUser
  | 2 => some protUser
  | 3 => some protUserWr
  | 4 => some protUserWr
  | _ => none

/-- What `sys_map` comes down to. -/
inductive MapCall
  /-- an error -/
  | fail (e : Errno)
  /-- `vmmap` -/
  | vmmap (prot : Prot)
  /-- `vmmap32` -/
  | vmmap32 (prot : Prot)
  /-- `vmunmap` -/
  | vmunmap
  /-- `vmchprot` -/
  | vmchprot (prot : Prot)
deriving DecidableEq, Repr

/-- The decoding of the permission word by `sys_map`, for a thread that is
privileged (`euid` zero) or not. -/
def mapCall (perm : Nat) (root : Bool) : MapCall :=
  match protOfPerm (perm - (perm &&& (mapNew + mapNew32))) with
  | none => .fail .EINVAL
  | some prot =>
    -- `MAP_NONE` resets `np` and `np32`
    if prot.p && (perm &&& mapNew) != 0 then .vmmap prot
    else if prot.p && (perm &&& mapNew32) != 0 then
      if root then .vmmap32 prot else .fail .EPERM
    else if !prot.p then .vmunmap
    else .vmchprot prot

/-- `sys_map`.  A bad address kills the thread. -/
def sysMap (s : Sys) (cur va perm : Nat) (root : Bool) (pg : Page) : Except Panic (Int × Sys) :=
  if !chkuaddr (truncPage va) pageSize then do
    return (0, ← exit s cur)
  else
    match mapCall perm root with
    | .fail e => return (e.neg, s)
    | .vmmap prot => vmmap s cur va prot pg
    | .vmmap32 prot => vmmap32 s cur va prot pg
    | .vmunmap => vmunmap s cur va
    | .vmchprot prot => vmchprot s cur va prot

/-- `sys_move`. -/
def sysMove (s : Sys) (cur dst src : Nat) : Except Panic (Int × Sys) :=
  if !chkuaddr (truncPage dst) pageSize || !chkuaddr (truncPage src) pageSize then do
    return (0, ← exit s cur)
  else vmmove s cur dst src

/-- `sys_iomap`, as it reaches `iomap` through the device's checks. -/
def sysIomap (s : Sys) (cur va mmiopfn : Nat) : Except Panic (Int × Sys) :=
  if !chkuaddr (truncPage va) pageSize then return (Errno.EINVAL.neg, s)
  else if s.pfndbMax < mmiopfn then return (Errno.EINVAL.neg, s)
  else iomap s cur va mmiopfn protUserWr

/-- What a running thread can do to the address spaces. -/
inductive Op
  /-- `SYS_MAP`; `pg` is the page `pgalloc` returns, if it is called -/
  | map (va perm : Nat) (root : Bool) (pg : Page)
  /-- `SYS_MOVE` -/
  | move (dst src : Nat)
  /-- `SYS_IOMAP` -/
  | iomap (va mmiopfn : Nat)
  /-- `iounmap`, by a device -/
  | iounmap (va : Nat)
  /-- `pmap_uwire`, by a device -/
  | wire (va : Nat)
  /-- `pmap_uunwire`, by a device -/
  | unwire (va : Nat)
  /-- `SYS_FORK` -/
  | fork (stale : Tlbf) (pick : Nat → Page)
  /-- a page fault in user mode -/
  | fault (va : Nat) (err : Pferr)
  /-- `__exit` -/
  | exit
  /-- `childstat`, freeing the thread `th` -/
  | thfree (th : Nat)

/-- Perform an operation for the thread `cur`. -/
def exec (s : Sys) (cur : Nat) : Op → Except Panic Sys
  | .map va perm root pg => do return (← sysMap s cur va perm root pg).2
  | .move dst src => do return (← sysMove s cur dst src).2
  | .iomap va mmiopfn => do return (← sysIomap s cur va mmiopfn).2
  | .iounmap va => do return (← iounmap s cur va).2
  | .wire va => do return (← pmapUwire s cur va).2
  | .unwire va => do return (← pmapUunwire s cur va).2
  | .fork stale pick => thfork s cur stale pick
  | .fault va err => do return (← pmapFault s cur va err).2
  | .exit => exit s cur
  | .thfree th => return if th ∈ s.zombie then thfree s th else s

/-- A thread can run when it has not exited. -/
def Sys.Running (s : Sys) (pid : Nat) : Prop := pid ∈ s.live ∧ pid ∉ s.zombie

instance (s : Sys) (pid : Nat) : Decidable (s.Running pid) := inferInstanceAs (Decidable (_ ∧ _))

/-- One step of the system: a running thread performs an operation, and the
kernel does not panic. -/
def Step (s : Sys) (a : Nat × Op) (s' : Sys) : Prop :=
  s.Running a.1 ∧ exec s a.1 a.2 = .ok s'

/-- The state at boot: one thread, with an empty address space, and no page
allocated to user space. -/
structure Boot (s : Sys) : Prop where
  live : s.live = {s.init}
  zombie : s.zombie = ∅
  pid : s.init < s.nextpid
  pidBound : s.nextpid < 2 ^ 32
  blank : ∀ v, s.l1 s.init v = .zero
  noUser : ∀ pfn, (s.db pfn).type ≠ .user

end Mh.Vm
