import Mh.Bus.Calls
import Mh.Lib.Sessions

/-!
# What a call leaves alone

`Quiet s s'` says that `s'` has the buses, the devices, the client tables and the request
queues of `s`: what it may change is the I/O spaces and apertures of clients, registrations,
mappings, signals and identities.  Almost every operation of a driver is quiet; the ones that
are not are the subject of the modules above, and here only of the lemmas that say which
they are.
-/

namespace Mh.Bus

open Mh.Lib

/-- Two states of a user device with the same clients and the same requests. -/
structure Usrdev.Alike (u u' : Usrdev) : Prop where
  detaching : u'.detaching = u.detaching
  ioreqs : u'.ioreqs = u.ioreqs
  issued : u'.issued = u.issued
  polls : u'.polls = u.polls
  use : ∀ i, (u'.remths i).use = (u.remths i).use
  th : ∀ i, (u'.remths i).th = (u.remths i).th

namespace Usrdev

variable {u u' u'' : Usrdev} {r : Remth} {i : Nat}

/-- A device is like itself. -/
theorem Alike.refl (u : Usrdev) : u.Alike u := ⟨rfl, rfl, rfl, rfl, fun _ ↦ rfl, fun _ ↦ rfl⟩

/-- Likeness composes. -/
theorem Alike.trans (h : u.Alike u') (h' : u'.Alike u'') : u.Alike u'' :=
  ⟨h'.1.trans h.1, h'.2.trans h.2, h'.3.trans h.3, h'.4.trans h.4,
    fun i ↦ (h'.5 i).trans (h.5 i), fun i ↦ (h'.6 i).trans (h.6 i)⟩

/-- Writing an entry that stays in use by the same thread. -/
theorem Alike.setRem (huse : r.use = (u.remths i).use) (hth : r.th = (u.remths i).th) :
    u.Alike (u.setRem i r) where
  detaching := rfl
  ioreqs := rfl
  issued := rfl
  polls := rfl
  use j := by
    rcases eq_or_ne j i with rfl | hj
    · rw [setRem_self, huse]
    · rw [setRem_of_ne u hj]
  th j := by
    rcases eq_or_ne j i with rfl | hj
    · rw [setRem_self, hth]
    · rw [setRem_of_ne u hj]

end Usrdev

/-- `s'` has the buses, devices and threads of `s`. -/
structure SameBus (s s' : State) : Prop where
  devs : s'.devs = s.devs
  dev : s'.dev = s.dev
  ndev : s'.ndev = s.ndev
  tree : s'.tree = s.tree
  next : s'.next = s.next
  life : s'.life = s.life
  zombies : s'.zombies = s.zombies
  usrdevs : s'.usrdevs = s.usrdevs

/-- Two states that differ elsewhere only. -/
theorem SameBus.trans {s s' s'' : State} (h : SameBus s s') (h' : SameBus s' s'') :
    SameBus s s'' where
  devs := h'.devs.trans h.devs
  dev := h'.dev.trans h.dev
  ndev := h'.ndev.trans h.ndev
  tree := h'.tree.trans h.tree
  next := h'.next.trans h.next
  life := h'.life.trans h.life
  zombies := h'.zombies.trans h.zombies
  usrdevs := h'.usrdevs.trans h.usrdevs

/-- `s'` has the buses, devices, clients, requests and threads of `s`. -/
structure Quiet (s s' : State) : Prop extends SameBus s s' where
  hw : ∀ d i, ((s'.hw d).remths i).use = ((s.hw d).remths i).use
  usr : ∀ d, (s.usr d).Alike (s'.usr d)

namespace Quiet

variable {s s' s'' : State} {t d id : Nat} {k : Slot}

/-- Nothing happens. -/
theorem refl (s : State) : Quiet s s :=
  ⟨⟨rfl, rfl, rfl, rfl, rfl, rfl, rfl, rfl⟩, fun _ _ ↦ rfl, fun _ ↦ .refl _⟩

/-- One quiet step after another. -/
theorem trans (h : Quiet s s') (h' : Quiet s' s'') : Quiet s s'' where
  toSameBus := h.toSameBus.trans h'.toSameBus
  hw d i := (h'.hw d i).trans (h.hw d i)
  usr d := (h.usr d).trans (h'.usr d)

/-- A user device is replaced by one like it. -/
theorem setUsr {u : Usrdev} (h : (s.usr d).Alike u) : Quiet s (s.setUsr d u) where
  devs := rfl
  dev := rfl
  ndev := rfl
  tree := rfl
  next := rfl
  life := rfl
  zombies := rfl
  usrdevs := rfl
  hw _ _ := rfl
  usr d' := by
    rcases eq_or_ne d' d with rfl | hd
    · rwa [State.setUsr_self]
    · rw [State.setUsr_of_ne hd]
      exact .refl _

/-- An entry of a hardware device is written and stays in use. -/
theorem setHwRem {r : HwRemth} (h : r.use = ((s.hw d).remths id).use) :
    Quiet s (s.setHw d ((s.hw d).setRem id r)) where
  devs := rfl
  dev := rfl
  ndev := rfl
  tree := rfl
  next := rfl
  life := rfl
  zombies := rfl
  usrdevs := rfl
  hw d' i := by
    rcases eq_or_ne d' d with rfl | hd
    · rw [State.setHw_self]
      rcases eq_or_ne i id with rfl | hi
      · rw [Hwdev.setRem_self, h]
      · rw [Hwdev.setRem_of_ne _ hi]
    · rw [State.setHw_of_ne hd]
  usr _ := .refl _

/-- A write to a hardware device before and after a quiet step. -/
theorem setHw (hq : Quiet s s') (h : Hwdev) : Quiet (s.setHw d h) (s'.setHw d h) where
  devs := hq.devs
  dev := hq.dev
  ndev := hq.ndev
  tree := hq.tree
  next := hq.next
  life := hq.life
  zombies := hq.zombies
  usrdevs := hq.usrdevs
  hw d' i := by
    rcases eq_or_ne d' d with rfl | hd
    · rw [State.setHw_self, State.setHw_self]
    · rw [State.setHw_of_ne hd, State.setHw_of_ne hd, hq.hw]
  usr := hq.usr

/-! ## The parts of the kernel that drivers call -/

/-- Signals. -/
theorem thraise {vect : Nat} (h : s.thraise t vect = .ok s') : Quiet s s' := by
  unfold State.thraise at h
  split at h
  · obtain rfl := Except.ok.inj h
    exact ⟨⟨rfl, rfl, rfl, rfl, rfl, rfl, rfl, rfl⟩, fun _ _ ↦ rfl, fun _ ↦ .refl _⟩
  · cases h

/-- The queue of a device, and a signal. -/
theorem enqueue {ior : Ior} (h : s.enqueue d ior = .ok s') :
    Quiet (s.setUsr d ((s.usr d).push ior)) s' :=
  thraise h

/-- A request is inserted after the device has been written. -/
theorem setUsr_enqueue {u : Usrdev} {ior : Ior} (h : (s.setUsr d u).enqueue d ior = .ok s') :
    Quiet (s.setUsr d (u.push ior)) s' := by
  have hq := enqueue h
  rwa [State.setUsr_self, State.setUsr_setUsr] at hq

/-- Registrations. -/
theorem irqregister {irq sig : Nat} (h : s.irqregister k irq sig = some s') : Quiet s s' := by
  unfold State.irqregister at h
  split at h
  · obtain rfl := Option.some.inj h
    exact ⟨⟨rfl, rfl, rfl, rfl, rfl, rfl, rfl, rfl⟩, fun _ _ ↦ rfl, fun _ ↦ .refl _⟩
  · cases h

/-- Registrations that go. -/
theorem irqunregister (s : State) (key : Nat) : Quiet s (s.irqunregister key) :=
  ⟨⟨rfl, rfl, rfl, rfl, rfl, rfl, rfl, rfl⟩, fun _ _ ↦ rfl, fun _ ↦ .refl _⟩

/-- The end of an interrupt. -/
theorem irqeoi {irq : Nat} (h : s.irqeoi irq = .ok s') : Quiet s s' := by
  unfold State.irqeoi at h
  split at h
  · obtain rfl := Except.ok.inj h
    exact ⟨⟨rfl, rfl, rfl, rfl, rfl, rfl, rfl, rfl⟩, fun _ _ ↦ rfl, fun _ ↦ .refl _⟩
  · cases h

/-- Mappings. -/
theorem iomap (s : State) (k : Slot) (va pfn : Nat) (pg : Page) :
    Quiet s (s.iomap k va pfn pg).2 := by
  unfold State.iomap
  split
  · exact .refl s
  · split
    · exact .refl s
    · exact ⟨⟨rfl, rfl, rfl, rfl, rfl, rfl, rfl, rfl⟩, fun _ _ ↦ rfl, fun _ ↦ .refl _⟩

/-- Mappings that go. -/
theorem iounmap (s : State) (t va : Nat) : Quiet s (s.iounmap t va) :=
  ⟨⟨rfl, rfl, rfl, rfl, rfl, rfl, rfl, rfl⟩, fun _ _ ↦ rfl, fun _ ↦ .refl _⟩

/-- The identities of a thread. -/
theorem setThread (s : State) (t : Nat) (th : Thread) : Quiet s (s.setThread t th) :=
  ⟨⟨rfl, rfl, rfl, rfl, rfl, rfl, rfl, rfl⟩, fun _ _ ↦ rfl, fun _ ↦ .refl _⟩

/-- A client of the platform device. -/
theorem setPlt (s : State) (id : Nat) (p : PltRem) : Quiet s (s.setPlt id p) :=
  ⟨⟨rfl, rfl, rfl, rfl, rfl, rfl, rfl, rfl⟩, fun _ _ ↦ rfl, fun _ ↦ .refl _⟩

/-- The state of the log. -/
theorem setKlog (s : State) (l : Klog) : Quiet s { s with klog := l } :=
  ⟨⟨rfl, rfl, rfl, rfl, rfl, rfl, rfl, rfl⟩, fun _ _ ↦ rfl, fun _ ↦ .refl _⟩

/-- A loop of quiet steps. -/
theorem foldl {α : Type} {f : State → α → State} (hf : ∀ s a, Quiet s (f s a)) (l : List α)
    (s : State) : Quiet s (l.foldl f s) := by
  induction l generalizing s with
  | nil => exact .refl s
  | cons a l ih => exact (hf s a).trans (ih _)

/-! ## Operations of the drivers -/

variable {r : Req} {res : Res}

/-- A request that succeeds without storing a value. -/
theorem done (h : s'.done = .ok res) (hq : Quiet s s') : Quiet s res.state := by
  obtain rfl := Except.ok.inj h
  exact hq

/-- `_usrdev_out` is quiet or inserts its request; the other operations of a user device are
quiet. -/
theorem usrdevOp (h : s.usrdevOp k d id r = some (.ok res)) :
    Quiet s res.state ∨ ∃ port val, r = .outPort port val ∧ id < maxUsrdevRems ∧
      (s.usr d).detaching = false ∧ Quiet (s.setUsr d ((s.usr d).push (s.mkIor k.1 id
        (.outOp (ioSize port) (ioPort port) val)))) res.state := by
  have heff : State.UsrEffect s k d id r (.ok res.state) := State.usrdevOp_effect h
  generalize hu : (Except.ok res.state : Except Panic State) = u at heff
  cases heff with
  | same => exact .inl (Except.ok.inj hu ▸ .refl s)
  | closed => cases hu
  | outPort hid hdet hs' => exact .inr ⟨_, _, rfl, hid, hdet, enqueue (hs'.trans hu.symm)⟩
  | exportVa i => exact .inl (Except.ok.inj hu ▸ setUsr (.setRem rfl rfl))
  | unexportVa i => exact .inl (Except.ok.inj hu ▸ setUsr (.setRem rfl rfl))
  | irqmap hirq => exact .inl (Except.ok.inj hu ▸ setUsr (.setRem rfl rfl))

/-- The operations of a hardware device. -/
theorem hwdevOp (h : s.hwdevOp k d id r = some (.ok res)) : Quiet s res.state := by
  have heff : State.HwEffect s k d id r (.ok res.state) := State.hwdevOp_effect h
  generalize hu : (Except.ok res.state : Except Panic State) = u at heff
  cases heff with
  | same => exact Except.ok.inj hu ▸ .refl s
  | hwdmas l => exact Except.ok.inj hu ▸ setHwRem rfl
  | failed hneg => exact Except.ok.inj hu ▸ iomap ..
  | iomap hs' hneg =>
      rw [Except.ok.inj hu, ← hs']
      exact (iomap ..).trans (setHwRem rfl)
  | iounmap hva => exact Except.ok.inj hu ▸ (setHwRem (by rfl)).trans (iounmap ..)
  | closed => cases hu
  | irqmap hseg hs' => exact Except.ok.inj hu ▸ (irqregister hs').trans (setHwRem (by rfl))
  | eoi heoi => exact irqeoi (heoi.trans hu.symm)

/-- The operations of the platform device. -/
theorem pltdevOp (h : s.pltdevOp k id r = some (.ok res)) : Quiet s res.state := by
  have heff : State.PltEffect s k id r (.ok res.state) := State.pltdevOp_effect h
  generalize hu : (Except.ok res.state : Except Panic State) = u at heff
  cases heff with
  | same => exact Except.ok.inj hu ▸ .refl s
  | failed hneg => exact Except.ok.inj hu ▸ iomap ..
  | iomap hs' hneg =>
      rw [Except.ok.inj hu, ← hs']
      exact (iomap ..).trans (setPlt ..)
  | iounmap hva => exact Except.ok.inj hu ▸ (setPlt ..).trans (iounmap ..)
  | closed => cases hu
  | irqmap hs' => exact Except.ok.inj hu ▸ (irqregister hs').trans (setPlt ..)

/-- The operations of the system device. -/
theorem sysdevOp (h : s.sysdevOp k r = some (.ok res)) : Quiet s res.state := by
  cases r with
  | inPort | outPort | exportVa | iomap | iounmap =>
      obtain rfl := Except.ok.inj (Option.some.inj h)
      exact .refl s
  | irqmap irq sig =>
      have h := Option.some.inj h
      unfold State.sysdevIrqmap at h
      split at h
      · exact done h (setThread ..)
      · exact done h (setThread ..)
      · exact done h (.refl s)
  | rdcfg | wrcfg | unexportVa | eoi => cases h

/-- The operations of the log. -/
theorem klogdevOp (h : s.klogdevOp r = some (.ok res)) : Quiet s res.state := by
  cases r with
  | inPort | exportVa | iomap | iounmap =>
      obtain rfl := Except.ok.inj (Option.some.inj h)
      exact .refl s
  | outPort port val =>
      have h := Option.some.inj h
      unfold State.klogdevOut at h
      split at h
      all_goals
        obtain rfl := Except.ok.inj h
        exact setKlog ..
  | irqmap irq sig =>
      have h := Option.some.inj h
      unfold State.klogdevIrqmap at h
      split at h
      · exact done h (setKlog ..)
      · exact done h (.refl s)
  | rdcfg | wrcfg | unexportVa | eoi => cases h

/-- What the bus calls of a device is quiet, or inserts an `OUT` into the queue of a user
device. -/
theorem op (h : s.op k d id r = some (.ok res)) :
    Quiet s res.state ∨ ∃ port val, (s.dev d).kind = .usr ∧ (s.usr d).detaching = false ∧
      Quiet (s.setUsr d ((s.usr d).push (s.mkIor k.1 id
        (.outOp (ioSize port) (ioPort port) val)))) res.state := by
  unfold State.op at h
  split at h
  · next hk =>
    rcases usrdevOp h with hq | ⟨port, val, -, -, hdet, hq⟩
    · exact .inl hq
    · exact .inr ⟨port, val, hk, hdet, hq⟩
  · exact .inl (hwdevOp h)
  · exact .inl (pltdevOp h)
  · exact .inl (sysdevOp h)
  · exact .inl (klogdevOp h)

/-- The platform device opens its clients without a trace on the bus. -/
theorem pltdevOpen (s : State) : Quiet s s.pltdevOpen.2 := by
  unfold State.pltdevOpen
  split
  · exact .refl s
  · exact setPlt ..

/-- So does the log. -/
theorem klogdevOpen (s : State) (t : Nat) : Quiet s (s.klogdevOpen t).2 := by
  unfold State.klogdevOpen
  split
  · exact .refl s
  · exact setKlog ..

/-- The platform device closes its clients without a trace on the bus. -/
theorem pltdevClose (h : s.pltdevClose t id = .ok s') : Quiet s s' := by
  unfold State.pltdevClose at h
  dsimp only at h
  split at h
  · cases h
  · obtain rfl := Except.ok.inj h
    exact ((foldl (fun s va ↦ iounmap s t va) _ s).trans
      (foldl irqunregister _ _)).trans (setPlt ..)

/-- So does the log. -/
theorem klogdevClose (h : s.klogdevClose = .ok s') : Quiet s s' := by
  unfold State.klogdevClose at h
  split at h
  · cases h
  · obtain rfl := Except.ok.inj h
    exact setKlog ..

/-- The hardware device takes back what its client had, and the entry. -/
theorem hwdevClose (h : s.hwdevClose t d id = .ok s') :
    ((s.hw d).remths id).use ∧ Quiet (s.setHw d ((s.hw d).setRem id .zero)) s' := by
  unfold State.hwdevClose at h
  dsimp only at h
  split at h
  · cases h
  · next hu =>
    refine ⟨by simpa using hu, ?_⟩
    obtain rfl := Except.ok.inj h
    exact ((foldl (fun s va ↦ iounmap s t va) _ s).trans (foldl irqunregister _ _)).setHw _

end Quiet

end Mh.Bus

/-!
## The requests of a user device

The comment at the head of `usrdev.c` asks that the events of an id are polled in the order
of insertion, where a clone belongs to two ids.  `Usrdev.QInv` is what holds of every device
that is not being destroyed: the queue is first in, first out, nothing is lost or changed on
the way, and the requests inserted so far are, for every id, sessions from an `OPEN` of the
id, or a `CLONE` to it, to its `CLOSE`, with a session open just when the entry of the id is
in use.
-/

namespace Mh.Bus

open Mh.Lib

/-- What a request with the id `id` is to the id `x`. -/
def IorOp.marks (x id : Nat) : IorOp → List Mark
  | .openOp => if id = x then [.start] else []
  | .cloneOp cloneId => (if id = x then [.use] else []) ++ if cloneId = x then [.start] else []
  | .outOp .. => if id = x then [.use] else []
  | .closeOp => if id = x then [.stop] else []

/-- What a request is to the id `x`. -/
def Ior.marks (x : Nat) (r : Ior) : List Mark := r.op.marks x r.id

/-- What the owner of the device sees of it when it polls. -/
def PollIor.marks (x : Nat) (p : PollIor) : List Mark := p.op.marks x p.id

/-- The poll of a request has its fields. -/
structure Ior.Polled (r : Ior) (p : PollIor) : Prop where
  id : p.id = r.id
  op : p.op = r.op
  uid : p.uid = r.uid
  gid : p.gid = r.gid

namespace Usrdev

/-- The queue and the histories of a device agree with each other and with the client
table. -/
structure QInv (u : Usrdev) : Prop where
  fifo : u.issued = u.polls.map Prod.fst ++ u.ioreqs
  polled : ∀ p ∈ u.polls, p.1.Polled p.2
  session : ∀ x, Sessions.run false (u.issued.flatMap (Ior.marks x)) = some (u.remths x).use

namespace QInv

variable {u u' : Usrdev} {r : Ior} {i id : Nat}

/-- A new device. -/
theorem fresh {th : Nat} {cfg : UsrdevCfg} {sig : Nat} :
    QInv ⟨th, cfg, sig, false, fun _ ↦ .zero, [], [], []⟩ :=
  ⟨rfl, fun _ h ↦ absurd h List.not_mem_nil, fun _ ↦ rfl⟩

/-- A device like one that is in order. -/
theorem alike (h : u.QInv) (ha : u.Alike u') : u'.QInv where
  fifo := by rw [ha.issued, ha.polls, ha.ioreqs, h.fifo]
  polled := by
    rw [ha.polls]
    exact h.polled
  session x := by rw [ha.issued, ha.use, h.session]

/-- A request is inserted while the client table changes as the request says. -/
theorem push {f : Nat → Remth} (h : u.QInv)
    (hf : ∀ x, Sessions.run (u.remths x).use (r.marks x) = some (f x).use) :
    (push { u with remths := f } r).QInv where
  fifo := by
    change u.issued ++ [r] = u.polls.map Prod.fst ++ (u.ioreqs ++ [r])
    rw [h.fifo, List.append_assoc]
  polled := h.polled
  session x := by
    change Sessions.run false ((u.issued ++ [r]).flatMap (Ior.marks x)) = some (f x).use
    rw [List.flatMap_append, Sessions.run_append, h.session, Option.bind_some,
      List.flatMap_singleton, hf]

/-- `OPEN`, of an id that is not in use. -/
theorem pushOpen {e : Remth} (h : u.QInv) (hi : (u.remths i).use = false) (he : e.use = true)
    (hr : r.op = .openOp) (hid : r.id = i) : ((u.setRem i e).push r).QInv := by
  refine h.push fun x ↦ ?_
  rw [Ior.marks, hr, hid]
  rcases eq_or_ne x i with rfl | hx
  · simp [IorOp.marks, hi, he, Sessions.run, Sessions.next]
  · simp [IorOp.marks, hx.symm, hx]

/-- `CLONE`, of an id that is in use to one that is not. -/
theorem pushClone {e : Remth} (h : u.QInv) (hi : (u.remths i).use = false) (he : e.use = true)
    (hid : (u.remths id).use = true) (hr : r.op = .cloneOp i) (hrid : r.id = id) :
    ((u.setRem i e).push r).QInv := by
  refine h.push fun x ↦ ?_
  have hne : id ≠ i := by
    rintro rfl
    rw [hi] at hid
    cases hid
  rw [Ior.marks, hr, hrid]
  rcases eq_or_ne x i with rfl | hx
  · simp [IorOp.marks, hne, hi, he, Sessions.run, Sessions.next]
  · rcases eq_or_ne x id with rfl | hx'
    · simp [IorOp.marks, hx.symm, hx, hid, Sessions.run, Sessions.next]
    · simp [IorOp.marks, hx.symm, hx'.symm, hx]

/-- `OUT`, of an id that is in use. -/
theorem pushOut {size port val : Nat} (h : u.QInv) (hid : (u.remths id).use = true)
    (hr : r.op = .outOp size port val) (hrid : r.id = id) : (u.push r).QInv := by
  refine h.push (f := u.remths) fun x ↦ ?_
  rw [Ior.marks, hr, hrid]
  rcases eq_or_ne x id with rfl | hx
  · simp [IorOp.marks, hid, Sessions.run, Sessions.next]
  · simp [IorOp.marks, hx.symm]

/-- `CLOSE`, of an id that is in use. -/
theorem pushClose {e : Remth} (h : u.QInv) (hid : (u.remths id).use = true)
    (he : e.use = false) (hr : r.op = .closeOp) (hrid : r.id = id) :
    ((u.setRem id e).push r).QInv := by
  refine h.push fun x ↦ ?_
  rw [Ior.marks, hr, hrid]
  rcases eq_or_ne x id with rfl | hx
  · simp [IorOp.marks, hid, he, Sessions.run, Sessions.next]
  · simp [IorOp.marks, hx.symm, hx]

/-- The head of the queue is polled. -/
theorem poll {p : PollIor} {iors : List Ior} (h : u.QInv) (hq : u.ioreqs = r :: iors)
    (hp : r.Polled p) :
    ({ u with ioreqs := iors, polls := u.polls ++ [(r, p)] } : Usrdev).QInv where
  fifo := by
    change u.issued = (u.polls ++ [(r, p)]).map Prod.fst ++ iors
    rw [h.fifo, hq, List.map_append, List.append_assoc]
    rfl
  polled q hq' := by
    rcases List.mem_append.1 hq' with hq' | hq'
    · exact h.polled q hq'
    · rw [List.mem_singleton.1 hq']
      exact hp
  session := h.session

/-- What has been polled is, for every id, a prefix of a sequence of sessions. -/
theorem polled_sessions (h : u.QInv) (x : Nat) :
    ∃ t, (u.polls.flatMap fun p ↦ p.2.marks x) ++ t ∈ Sessions.sessions := by
  have heq : (u.polls.flatMap fun p ↦ p.2.marks x) =
      (u.polls.map Prod.fst).flatMap (Ior.marks x) := by
    rw [List.flatMap_map]
    refine List.flatMap_congr fun p hp ↦ ?_
    rw [PollIor.marks, Ior.marks, (h.polled p hp).op, (h.polled p hp).id]
  have hrun := h.session x
  rw [h.fifo, List.flatMap_append] at hrun
  obtain ⟨b, hb⟩ := Sessions.exists_run_of_append hrun
  rw [heq]
  exact Sessions.run_prefix hb

/-- So is everything that has been inserted. -/
theorem issued_sessions (h : u.QInv) (x : Nat) :
    ∃ t, u.issued.flatMap (Ior.marks x) ++ t ∈ Sessions.sessions :=
  Sessions.run_prefix (h.session x)

end QInv

end Usrdev

end Mh.Bus
