import Mh.Bus.Runs

/-!
# Who a polled request is from

A request keeps the identities of the thread that made it, but not the thread:
`usrdev_poll` takes the pid from the entry of the client table that the request names, as it
is then.  So the pid is right as long as the entry is not given to another thread, and the
thread not freed, while the request is queued (`State.Attributable`), and in runs of such
steps it is right in every poll (`polls_attributed`).
-/

namespace Mh.Bus

open Mh.Lib

/-- No request is queued for the id `i` but those of the thread `c`. -/
def Usrdev.IdSafe (u : Usrdev) (i c : Nat) : Prop :=
  ∀ r ∈ u.ioreqs, r.id = i → (u.remths i).th = some c

namespace State

variable (s : State)

/-- If `bus_plug` opens a client of a user device for the thread `t`, its id is safe. -/
def OpenSafe (t did : Nat) : Prop :=
  ∀ d i, s.tree did = some d → (s.dev d).kind = .usr → (s.freeSlot t).isSome →
    (s.dev d).offline = false →
    s.getperm t (s.dev d).uid (s.dev d).gid (s.dev d).mode = 1 →
    (s.usr d).freeRem = some i → (s.usr d).IdSafe i t

/-- If `bus_copy` clones the client of the descriptor `desc` for the thread `nth`, the id of
the clone is safe. -/
def CloneSafe (t desc nth : Nat) : Prop :=
  ∀ d i, (s.devs (t, desc)).plg → (s.devs (t, desc)).dev = some d → (s.dev d).kind = .usr →
    (s.usr d).freeRem = some i → (s.usr d).IdSafe i nth

/-- The ids are safe in each round of the loop of `thfork` over the descriptors. -/
def CopySafe (t nth : Nat) : List Nat → State → Prop
  | [], _ => True
  | desc :: l, s => s.CloneSafe t desc nth ∧
      ∀ r s', s.busCopy t desc nth = .ok (r, s') → CopySafe t nth l s'

/-- The thread that `childstat` would free has no request queued. -/
def ReapSafe (t : Nat) : Prop :=
  ∀ c cs, s.zombies t = c :: cs → ∀ d, ∀ r ∈ (s.usr d).ioreqs,
    ((s.usr d).remths r.id).th ≠ some c

/-- No entry of a client table is given to another thread, and no thread is freed, while a
request that refers to it is queued. -/
def Attributable : Label → Prop
  | .call t (.openDev did) => s.OpenSafe t did
  | .call t .fork => CopySafe t s.next (List.range maxBusDevs) (s.newThread t)
  | .call t .childstat => s.ReapSafe t
  | _ => True

end State

/-- The entries that the queued requests name are those of their threads, which have not
been freed; and what has been polled named the right thread. -/
structure AInv (s : State) : Prop where
  queued : ∀ d, ∀ r ∈ (s.usr d).ioreqs,
    ((s.usr d).remths r.id).th = some r.issuer ∧ s.life r.issuer ≠ .freed
  polled : ∀ d, ∀ p ∈ (s.usr d).polls, p.2.pid = p.1.issuer ∧ p.1.Polled p.2

namespace AInv

variable {s s' : State} {t d i id did : Nat} {k : Slot} {r : Int}

/-- A quiet step. -/
theorem quiet (h : AInv s) (hq : Quiet s s') : AInv s' where
  queued d r hr := by
    rw [(hq.usr d).ioreqs] at hr
    rw [(hq.usr d).th, hq.life]
    exact h.queued d r hr
  polled d p hp := by
    rw [(hq.usr d).polls] at hp
    exact h.polled d p hp

/-- A request is inserted; the entries that other requests name stay with their threads. -/
theorem push {f : Nat → Remth} {ior : Ior} (h : AInv s)
    (hf : ∀ r ∈ (s.usr d).ioreqs, (f r.id).th = some r.issuer)
    (hior : (f ior.id).th = some ior.issuer) (hlive : s.life ior.issuer = .live) :
    AInv (s.setUsr d (Usrdev.push { s.usr d with remths := f } ior)) where
  queued d' r hr := by
    rcases eq_or_ne d' d with rfl | hne
    · rw [State.setUsr_self] at hr ⊢
      rcases List.mem_append.1 hr with hr | hr
      · exact ⟨hf r hr, (h.queued d' r hr).2⟩
      · rw [List.mem_singleton.1 hr]
        refine ⟨hior, ?_⟩
        change s.life ior.issuer ≠ .freed
        rw [hlive]
        decide
    · rw [State.setUsr_of_ne hne] at hr ⊢
      exact h.queued d' r hr
  polled d' p hp := by
    rcases eq_or_ne d' d with rfl | hne
    · rw [State.setUsr_self] at hp
      exact h.polled d' p hp
    · rw [State.setUsr_of_ne hne] at hp
      exact h.polled d' p hp

/-- An entry is given to the thread `t`, and a request inserted. -/
theorem give {e : Remth} {ior : Ior} {c : Nat} (h : AInv s) (hs : (s.usr d).IdSafe i c)
    (he : e.th = some c) (hior : (if ior.id = i then e else (s.usr d).remths ior.id).th =
      some ior.issuer) (hlive : s.life ior.issuer = .live) :
    AInv (s.setUsr d (((s.usr d).setRem i e).push ior)) := by
  refine h.push (fun r hr ↦ ?_) ?_ hlive
  · rcases eq_or_ne r.id i with hi | hi
    · rw [hi, Function.update_self, he, ← hs r hr hi, ← hi]
      exact (h.queued d r hr).1
    · rw [Function.update_of_ne hi]
      exact (h.queued d r hr).1
  · rw [Function.update_apply]
    exact hior

/-! ## The bus -/

/-- `bus_plug`. -/
theorem busPlug (h : AInv s) (hi : Inv s) (hlive : s.life t = .live) (hs : s.OpenSafe t did)
    (hp : s.busPlug t did = .ok (r, s')) : AInv s' := by
  rcases State.busPlug_cases hp with ⟨-, rfl⟩ | ⟨d, i, devid, s₁, hd, hfree, hoff, hperm, ho, hret⟩
  · exact h
  · have h₁ : AInv s₁ := by
      unfold State.opOpen at ho
      split at ho
      · next hk =>
        have hdet := (hi.tree did d hd).2.2.2 hk
        rcases usrdevOpen_ok hk hdet ho with ⟨-, rfl⟩ | ⟨j, -, hj, hq, -⟩
        · exact h
        · refine AInv.quiet (h.give (hs d j hd hk ?_ hoff hperm hj) rfl ?_ hlive) hq
          · rw [hfree]
            rfl
          · rw [if_pos (show (s.mkIor t j .openOp).id = j from rfl)]
            rfl
      · next hk =>
        have ho := Except.ok.inj ho
        unfold State.hwdevOpen at ho
        split at ho
        · cases ho
          exact h
        · cases ho
          exact ⟨h.queued, h.polled⟩
      · have hq := Quiet.pltdevOpen s
        rw [Except.ok.inj ho] at hq
        exact h.quiet hq
      · cases ho
        exact h
      · have hq := Quiet.klogdevOpen s t
        rw [Except.ok.inj ho] at hq
        exact h.quiet hq
    rcases hret with ⟨-, -, rfl⟩ | ⟨-, -, rfl⟩
    · exact h₁
    · exact ⟨h₁.queued, h₁.polled⟩

/-- `bus_copy`. -/
theorem busCopy (h : AInv s) (hi : Inv s) {desc nth : Nat} (hlive : s.life t = .live)
    (hs : s.CloneSafe t desc nth) (hp : s.busCopy t desc nth = .ok (r, s')) : AInv s' := by
  rcases State.busCopy_cases hp with rfl | ⟨d, devid, s₁, -, -, -, hplg, hd, hk, hc, hret⟩
  · exact h
  · have hmem := hi.mem_lists hplg hd
    have huse := (State.inUse_usr hk).1 (hi.plugs.busy d _ hmem (.inl hk))
    have h₁ : AInv s₁ := by
      rcases usrdevClone_ok hk ((hi.online hmem).2 hk) huse hc with ⟨-, rfl⟩ | ⟨j, -, hj, hq, -⟩
      · exact h
      · refine AInv.quiet (h.give (hs d j hplg hd hk hj) rfl ?_ hlive) hq
        rw [if_neg]
        · exact hi.plugs.holder d _ hmem hk
        · intro he
          have hfree := (Usrdev.freeRem_spec hj).1
          change (s.devs (t, desc)).devid = j at he
          rw [← he, huse] at hfree
          cases hfree
    rcases hret with ⟨-, rfl⟩ | ⟨-, rfl⟩
    · exact h₁
    · exact ⟨h₁.queued, h₁.polled⟩

/-- `bus_unplug`. -/
theorem busUnplug (h : AInv s) (hi : Inv s) {desc : Nat}
    (hp : s.busUnplug t desc = .ok (r, s')) : AInv s' := by
  rcases State.busUnplug_cases hp with ⟨-, rfl⟩ | ⟨-, rfl⟩ | ⟨d, s₁, hplg, hd, hc, rfl⟩
  · exact h
  · exact ⟨h.queued, h.polled⟩
  · have hmem := hi.mem_lists hplg hd
    have h₁ : AInv s₁ := by
      unfold State.opClose at hc
      split at hc
      · next hk =>
        rcases usrdevClose_ok hc with ⟨hdet, -⟩ | ⟨-, hq⟩
        · rw [(hi.online hmem).2 hk] at hdet
          cases hdet
        · have hth := hi.plugs.holder d _ hmem hk
          refine AInv.quiet (h.push (fun r hr ↦ ?_) ?_ (hi.live_of_plg hplg)) hq
          · rw [Function.update_apply]
            split
            · next he =>
              change ((s.usr d).remths _).th = _
              rw [← he]
              exact (h.queued d r hr).1
            · exact (h.queued d r hr).1
          · rw [show (s.mkIor t _ .closeOp).id = (s.devs (t, desc)).devid from rfl,
              Function.update_self]
            exact hth
      · exact AInv.quiet (s := s.setHw d _) ⟨h.queued, h.polled⟩ (Quiet.hwdevClose hc).2
      · exact h.quiet (Quiet.pltdevClose hc)
      · cases hc
        exact h
      · exact h.quiet (Quiet.klogdevClose hc)
    exact ⟨h₁.queued, h₁.polled⟩

/-- `OP_CALL`. -/
theorem opCall (h : AInv s) (hi : Inv s) {desc : Nat} {q : Req} {val : Option Nat}
    (ho : s.opCall t desc q = .ok (r, val, s')) : AInv s' := by
  rcases State.opCall_cases ho with rfl | ⟨d, res, hg, hx, -, -, rfl⟩
  · exact h
  · rcases Quiet.op hx with hq | ⟨port, v, hk, -, hq⟩
    · exact h.quiet hq
    · have hmem := hi.mem_of_getDev hg
      refine AInv.quiet (h.push (f := (s.usr d).remths) (fun r hr ↦ (h.queued d r hr).1)
        (hi.plugs.holder d _ hmem hk) ?_) hq
      exact (hi.plugs.listed d _ hmem).2.2

/-- `usrdev_poll`. -/
theorem usrdevPoll (h : AInv s) {p : Option PollIor} (hp : s.usrdevPoll d = .ok (p, s')) :
    AInv s' := by
  rcases State.usrdevPoll_cases hp with rfl | ⟨ior, iors, pid, hq, hth, rfl⟩
  · exact h
  · refine ⟨fun d' r hr ↦ ?_, fun d' p hp ↦ ?_⟩
    · rcases eq_or_ne d' d with rfl | hne
      · rw [State.setUsr_self] at hr ⊢
        exact h.queued d' r (by rw [hq]; exact List.mem_cons_of_mem _ hr)
      · rw [State.setUsr_of_ne hne] at hr ⊢
        exact h.queued d' r hr
    · rcases eq_or_ne d' d with rfl | hne
      · rw [State.setUsr_self] at hp
        rcases List.mem_append.1 hp with hp | hp
        · exact h.polled d' p hp
        · rw [List.mem_singleton.1 hp]
          have hor := (h.queued d' ior (by rw [hq]; exact List.mem_cons_self)).1
          rw [hth] at hor
          exact ⟨Option.some.inj hor, rfl, rfl, rfl, rfl⟩
      · rw [State.setUsr_of_ne hne] at hp
        exact h.polled d' p hp

/-! ## Devices and threads -/

/-- The queues stay as they are, or are emptied, and no thread is freed. -/
theorem drop (h : AInv s) (hlife : ∀ c, s.life c ≠ .freed → s'.life c ≠ .freed)
    (husr : ∀ d, s'.usr d = s.usr d ∨
      (s'.usr d).ioreqs = [] ∧ (s'.usr d).polls = (s.usr d).polls) : AInv s' where
  queued d r hr := by
    rcases husr d with hu | ⟨hu, -⟩
    · rw [hu] at hr ⊢
      exact ⟨(h.queued d r hr).1, hlife _ (h.queued d r hr).2⟩
    · rw [hu] at hr
      cases hr
  polled d p hp := by
    have hpolls : (s'.usr d).polls = (s.usr d).polls := by
      rcases husr d with hu | ⟨-, hu⟩
      · rw [hu]
      · exact hu
    rw [hpolls] at hp
    exact h.polled d p hp

/-- `devcreat`. -/
theorem devcreat (h : AInv s) (nameid : Nat) (cfg : UsrdevCfg) (sig mode : Nat) :
    AInv (s.devcreat t nameid cfg sig mode).2 := by
  obtain heq | ⟨i, s₂, -, -, ha, heq⟩ := s.devcreat_cases t nameid cfg sig mode
  · rw [heq]
    exact h
  · rw [heq]
    obtain ⟨-, rfl⟩ := State.devAttach_ok ha
    refine ⟨fun d r hr ↦ ?_, fun d p hp ↦ ?_⟩
    · change r ∈ (Function.update s.usr s.ndev _ d).ioreqs at hr
      change ((Function.update s.usr s.ndev _ d).remths r.id).th = _ ∧ _
      rcases eq_or_ne d s.ndev with rfl | hne
      · rw [Function.update_self] at hr
        cases hr
      · rw [Function.update_of_ne hne] at hr ⊢
        exact h.queued d r hr
    · change p ∈ (Function.update s.usr s.ndev _ d).polls at hp
      rcases eq_or_ne d s.ndev with rfl | hne
      · rw [Function.update_self] at hp
        cases hp
      · rw [Function.update_of_ne hne] at hp
        exact h.polled d p hp

/-- `sys_hwcreat`. -/
theorem sysHwcreat (h : AInv s) (nameid : Nat) (cfg : HwdevCfg) (mode : Nat) :
    AInv (s.sysHwcreat t nameid cfg mode).2 := by
  obtain heq | ⟨s₁, ha, heq⟩ := s.sysHwcreat_cases t nameid cfg mode
  · rw [heq]
    exact h
  · rw [heq]
    obtain ⟨-, rfl⟩ := State.devAttach_ok ha
    exact ⟨h.queued, h.polled⟩

/-- The loop of `thfork`. -/
theorem copies {l : List Nat} {nth : Nat} (h : AInv s) (hi : Inv s) (hlive : s.life t = .live)
    (hnth : s.life nth = .live) (hs : State.CopySafe t nth l s)
    (hf : l.foldlM (fun s desc ↦ do return (← s.busCopy t desc nth).2) s = .ok s') : AInv s' := by
  induction l generalizing s with
  | nil =>
      cases hf
      exact h
  | cons desc l ih =>
      rw [List.foldlM_cons, bind_eq_ok] at hf
      obtain ⟨s₁, hc, hf⟩ := hf
      obtain ⟨⟨r, s₂⟩, hcopy, hr⟩ := bind_eq_ok.1 hc
      cases hr
      obtain ⟨hsafe, hrest⟩ := hs
      obtain ⟨hi₁, hl₁⟩ := hi.busCopy hnth hcopy
      exact ih (h.busCopy hi hlive hsafe hcopy) hi₁ (by rw [hl₁, hlive]) (by rw [hl₁, hnth])
        (hrest r _ hcopy) hf

/-- `thfork`. -/
theorem thfork (h : AInv s) (hi : Inv s) (hlive : s.life t = .live)
    (hs : State.CopySafe t s.next (List.range maxBusDevs) (s.newThread t))
    (hf : s.thfork t = .ok s') : AInv s' := by
  have hne : t ≠ s.next := (hi.lt_next (by rw [hlive]; decide)).ne
  have h₁ : AInv (s.newThread t) := by
    refine h.drop (fun c hc ↦ ?_) fun d ↦ .inl rfl
    change Function.update s.life s.next .live c ≠ .freed
    rcases eq_or_ne c s.next with rfl | hcn
    · rw [Function.update_self]
      decide
    · rwa [Function.update_of_ne hcn]
  refine copies h₁ hi.newThread ?_ (Function.update_self ..) hs hf
  · change Function.update s.life s.next .live t = .live
    rw [Function.update_of_ne hne, hlive]

/-- `bus_remove`. -/
theorem busRemove (h : AInv s) (hi : Inv s) (hr : s.busRemove t = .ok s') : AInv s' := by
  refine (foldlM_invariant (I := fun s ↦ AInv s ∧ Inv s) ?_ hr ⟨h, hi⟩).1
  rintro s₁ desc s₂ - ⟨h₁, hi₁⟩ hu
  obtain ⟨⟨r, s₃⟩, hunp, he⟩ := bind_eq_ok.1 hu
  cases he
  exact ⟨h₁.busUnplug hi₁ hunp, (hi₁.busUnplug hunp).1⟩

/-- `__exit`. -/
theorem exit (h : AInv s) (hi : Inv s) (he : s.exit t = .ok s') : AInv s' := by
  unfold State.exit at he
  split at he
  · cases he
  · obtain ⟨s₁, hr, he⟩ := bind_eq_ok.1 he
    obtain ⟨s₂, hd, he⟩ := bind_eq_ok.1 he
    have h₁ := h.busRemove hi hr
    obtain ⟨h₂, -⟩ := foldlM_invariant (I := fun s ↦ AInv s ∧ Inv s) (fun s did s' _ hs hd ↦ by
      obtain ⟨hi', hrem⟩ := hs.2.devremove hd
      exact ⟨hs.1.drop (by rw [hrem.life]; exact fun _ ↦ id) hrem.usr, hi'⟩) hd
      ⟨h₁, (hi.busRemove hr).1⟩
    refine AInv.quiet ?_ (Quiet.thraise he)
    refine h₂.drop (fun c hc ↦ ?_) fun d ↦ .inl rfl
    change Function.update s₂.life t .dying c ≠ .freed
    rcases eq_or_ne c t with rfl | hne
    · rw [Function.update_self]
      decide
    · rwa [Function.update_of_ne hne]

/-- `do_zombie`. -/
theorem doZombie {c : Nat} (h : AInv s) (hz : s.doZombie c = .ok s') : AInv s' := by
  unfold State.doZombie at hz
  split at hz
  · cases hz
  · refine AInv.quiet ?_ (Quiet.thraise hz)
    refine h.drop (fun c' hc ↦ ?_) fun d ↦ .inl rfl
    change Function.update s.life c .zombie c' ≠ .freed
    rcases eq_or_ne c' c with rfl | hne
    · rw [Function.update_self]
      decide
    · rwa [Function.update_of_ne hne]

/-- `childstat`, of a thread without a queued request. -/
theorem childstat (h : AInv s) (hs : s.ReapSafe t) : AInv (s.childstat t).2 := by
  unfold State.childstat
  split
  · exact h
  · next c cs hz =>
    refine ⟨fun d r hr ↦ ?_, h.polled⟩
    obtain ⟨hth, hl⟩ := h.queued d r hr
    refine ⟨hth, ?_⟩
    change Function.update s.life c .freed r.issuer ≠ .freed
    rw [Function.update_of_ne]
    · exact hl
    · rintro rfl
      exact hs _ cs hz d r hr hth

/-! ## Steps and runs -/

/-- A call that meets the condition. -/
theorem sysCall {c : Call} (h : AInv s) (hi : Inv s) (hlive : s.life t = .live)
    (ha : s.Attributable (.call t c)) (hc : s.sysCall t c = .ok s') : AInv s' := by
  cases c with
  | raise | setuid | seteuid | setgid | setegid | wriospace | irq | xcopy =>
      refine h.quiet (.sysCall ?_ hc)
      trivial
  | fork => exact h.thfork hi hlive ha hc
  | die => exact h.exit hi hc
  | childstat =>
      cases hc
      exact h.childstat ha
  | creat nameid cfg sig mode =>
      cases hc
      exact h.devcreat nameid cfg sig mode
  | poll did =>
      obtain ⟨out, hp, hr⟩ := bind_eq_ok.1 hc
      cases hr
      exact State.devpoll_keeps (fun _ _ _ hp ↦ h.usrdevPoll hp) h hp
  | hwcreat nameid cfg mode =>
      cases hc
      exact h.sysHwcreat nameid cfg mode
  | openDev did =>
      obtain ⟨⟨r, s₁⟩, hp, hr⟩ := bind_eq_ok.1 hc
      cases hr
      exact h.busPlug hi hlive ha hp
  | closeDev dd =>
      obtain ⟨⟨r, s₁⟩, hp, hr⟩ := bind_eq_ok.1 hc
      cases hr
      exact h.busUnplug hi hp
  | inDev | rdcfg | exportDev | req =>
      refine (State.sysCall_keeps (P := fun s ↦ AInv s ∧ Inv s) (Q := fun _ ↦ True)
        (fun _ _ _ _ _ _ _ h ho ↦ ⟨h.1.opCall h.2 ho, h.2.opCall ho⟩) ?_ ⟨h, hi⟩ hc).1
      simp [Call.Makes]

/-- A step that meets the condition. -/
theorem step {a : Label} (h : AInv s) (hi : Inv s) (ha : s.Attributable a) (hs : Step s a s') :
    AInv s' := by
  obtain ⟨hen, hs⟩ := hs
  cases a with
  | call t c => exact h.sysCall hi hen ha hs
  | zombie c => exact h.doZombie hs
  | irq irq level => exact h.quiet (.irqsignal hs)
  | timer t vtt => exact h.quiet (.timerFire hs)
  | putc => exact h.quiet (.raiseAvl hs)

/-- At the start there are no requests. -/
theorem boot (plt sys klog : Nat) : AInv (State.boot plt sys klog) :=
  ⟨fun _ _ hr ↦ absurd hr List.not_mem_nil, fun _ _ hp ↦ absurd hp List.not_mem_nil⟩

end AInv

/-- A step that meets the condition. -/
def AttributableStep (s : State) (a : Label) (s' : State) : Prop := s.Attributable a ∧ Step s a s'

/-- In every run of steps that meet the condition, each request that has been polled was
reported with the pid of the thread that issued it, and with the id, the uid and the gid
that it was queued with; and the thread whose pid the next poll of a device would read has
not been freed. -/
theorem polls_attributed {plt sys klog : Nat} {as : List Label} {s : State}
    (h : Run AttributableStep (State.boot plt sys klog) as s) :
    (∀ d, ∀ p ∈ (s.usr d).polls, p.2.pid = p.1.issuer ∧ p.1.Polled p.2) ∧
    ∀ d r rs, (s.usr d).ioreqs = r :: rs →
      ∃ th, ((s.usr d).remths r.id).th = some th ∧ s.life th ≠ .freed := by
  obtain ⟨ha, -⟩ := Run.invariant (I := fun s ↦ AInv s ∧ Inv s)
    (fun _ _ _ hi hs ↦ ⟨hi.1.step hi.2 hs.1 hs.2, hi.2.step hs.2⟩) h
    ⟨.boot plt sys klog, .boot plt sys klog⟩
  refine ⟨ha.polled, fun d r rs hq ↦ ?_⟩
  exact ⟨r.issuer, ha.queued d r (by rw [hq]; exact List.mem_cons_self)⟩

/-- `init` creates a user device, opens it and polls. -/
theorem polls_attributed_open : ∃ s, Run AttributableStep (State.boot 1 2 3)
      [.call 1 (.creat 7 ⟨0, 0, 0, fun _ ↦ 0⟩ 1 0o100), .call 1 (.openDev 7), .call 1 (.poll 0)] s ∧
    (s.usr 3).polls = [(⟨0, .openOp, 0, 0, 1⟩, ⟨0, .openOp, 1, 0, 0⟩)] ∧
    ∀ p ∈ (s.usr 3).polls, p.2.pid = p.1.issuer ∧ p.1.Polled p.2 := by
  have hopen : ∀ u : Usrdev, u.ioreqs = [] → ∀ i c, u.IdSafe i c := by
    intro u hu i c r hr
    rw [hu] at hr
    cases hr
  have h : Run AttributableStep (State.boot 1 2 3)
      [.call 1 (.creat 7 ⟨0, 0, 0, fun _ ↦ 0⟩ 1 0o100), .call 1 (.openDev 7),
        .call 1 (.poll 0)] _ :=
    .cons ⟨trivial, rfl, rfl⟩ (.cons
      ⟨fun d i hd _ _ _ _ _ ↦ hopen _ (by cases hd; rfl) i 1, rfl, rfl⟩
      (.cons ⟨trivial, rfl, rfl⟩ (.nil _)))
  exact ⟨_, h, rfl, (polls_attributed h).1 3⟩

/-- The child of `init` opens the device and closes it, and `init` opens it, with the same
id, before it polls: the `OPEN` of the child is reported with the pid of `init`.  And a child
that opens the device, exits and is waited for leaves its `OPEN` in the queue, and the entry
points to a thread that has been freed. -/
theorem poll_misattributed : (∃ s, Run Step (State.boot 1 2 3)
      [.call 1 (.creat 7 ⟨0, 0, 0, fun _ ↦ 0⟩ 1 0o100), .call 1 .fork, .call 2 (.openDev 7),
        .call 2 (.closeDev 0), .call 1 (.openDev 7), .call 1 (.poll 0)] s ∧
      ∃ p ∈ (s.usr 3).polls, p.1.issuer = 2 ∧ p.2.pid = 1) ∧
    ∃ s s', Run Step (State.boot 1 2 3)
      [.call 1 (.creat 7 ⟨0, 0, 0, fun _ ↦ 0⟩ 1 0o100), .call 1 .fork, .call 2 (.openDev 7),
        .call 2 .die, .zombie 2, .call 1 .childstat] s ∧
      ((s.usr 3).remths 0).th = some 2 ∧ s.life 2 = .freed ∧
      s.usrdevPoll 3 = .ok (some ⟨0, .openOp, 2, 0, 0⟩, s') := by
  constructor
  · have h : Run Step (State.boot 1 2 3)
        [.call 1 (.creat 7 ⟨0, 0, 0, fun _ ↦ 0⟩ 1 0o100), .call 1 .fork, .call 2 (.openDev 7),
          .call 2 (.closeDev 0), .call 1 (.openDev 7), .call 1 (.poll 0)] _ :=
      .cons ⟨rfl, rfl⟩ (.cons ⟨rfl, rfl⟩ (.cons ⟨rfl, rfl⟩ (.cons ⟨rfl, rfl⟩
        (.cons ⟨rfl, rfl⟩ (.cons ⟨rfl, rfl⟩ (.nil _))))))
    exact ⟨_, h, _, List.mem_cons_self, rfl, rfl⟩
  · have h : Run Step (State.boot 1 2 3)
        [.call 1 (.creat 7 ⟨0, 0, 0, fun _ ↦ 0⟩ 1 0o100), .call 1 .fork, .call 2 (.openDev 7),
          .call 2 .die, .zombie 2, .call 1 .childstat] _ :=
      .cons ⟨rfl, rfl⟩ (.cons ⟨rfl, rfl⟩ (.cons ⟨rfl, rfl⟩ (.cons ⟨rfl, rfl⟩
        (.cons ⟨rfl, rfl⟩ (.cons ⟨rfl, rfl⟩ (.nil _))))))
    exact ⟨_, _, h, rfl, rfl, rfl⟩

end Mh.Bus
