import Mh.Console.Model

/-!
# Every key once

At any time there is one token between the client and the console: the request, the key on its way,
or the client at work.  `Token` lists where it can be, with the keys that have left the buffer and
have not been read.  So the keys accepted are those read, the one on its way, and those in the
buffer (`Inv`); and as long as no key arrives each step brings the token nearer to the place where
the console waits for a key with an empty buffer (`rank`).
-/

namespace Mh.Console

open Mh.Lib Mh.Bus

/-! ## The screen and the I/O space -/

namespace Screen

variable {s s' : Screen} {c : Key}

/-- The positions are those of the buffer. -/
structure InRange (s : Screen) : Prop where
  fpos : s.fpos < kbdbufSize
  wpos : s.wpos < kbdbufSize

/-- The buffer of the screen. -/
theorem InRange.ring (h : s.InRange) :
    RingBuf.InRange kbdbufSize ⟨s.kbdbuf, s.fpos, s.wpos⟩ := ⟨h.fpos, h.wpos⟩

/-- A key that is stored is the last one of the buffer. -/
theorem buffered_put (h : s.InRange) (hput : s.kbdbufPut c = some s') :
    s'.InRange ∧ s'.req = s.req ∧ s'.buffered = s.buffered ++ [c] := by
  rw [kbdbufPut] at hput
  split at hput
  · cases hput
  next hfull =>
    cases hput
    exact ⟨⟨h.fpos, Nat.mod_lt _ (by decide)⟩, rfl, h.ring.contents_put hfull c⟩

/-- There is no room when 15 keys wait. -/
theorem length_of_full (h : s.InRange) (hput : s.kbdbufPut c = none) : s.buffered.length = 15 := by
  rw [kbdbufPut] at hput
  split at hput
  next hfull =>
    have hf := h.fpos
    have hw := h.wpos
    rw [buffered, RingBuf.contents, List.length_map, List.length_range, h.ring.size_eq]
    simp only [kbdbufSize] at *
    split
    · omega
    · omega
  · cases hput

/-- `kbdfetch` of an empty buffer. -/
theorem kbdfetch_nil (h : s.InRange) (hb : s.buffered = []) : s.kbdfetch = (0, s) := by
  rw [kbdfetch]
  refine if_pos ?_
  by_contra hne
  have hpos : s.fpos ≠ s.wpos := fun heq ↦ hne (by rw [heq, Int.sub_self])
  have hcons := h.ring.contents_get hpos
  rw [show RingBuf.contents kbdbufSize ⟨s.kbdbuf, s.fpos, s.wpos⟩ = [] from hb] at hcons
  cases hcons

/-- `kbdfetch` takes the first key of the buffer. -/
theorem kbdfetch_cons {l : List Key} (h : s.InRange) (hb : s.buffered = c :: l) :
    s.kbdfetch.1 = c ∧ s.kbdfetch.2.InRange ∧ s.kbdfetch.2.req = s.req ∧
      s.kbdfetch.2.buffered = l := by
  have hpos : s.fpos ≠ s.wpos := by
    intro heq
    have hnil : s.buffered = [] := RingBuf.contents_empty heq
    rw [hb] at hnil
    cases hnil
  have hne : ¬ (s.wpos : Int) - s.fpos = 0 := by omega
  have hcons := h.ring.contents_get hpos
  rw [show RingBuf.contents kbdbufSize ⟨s.kbdbuf, s.fpos, s.wpos⟩ = c :: l from hb] at hcons
  obtain ⟨hc, hl⟩ := List.cons.inj hcons
  have hfetch : s.kbdfetch =
      (s.kbdbuf (s.fpos % kbdbufSize), { s with fpos := (s.fpos + 1) % kbdbufSize }) := if_neg hne
  rw [hfetch, Nat.mod_eq_of_lt h.fpos]
  exact ⟨hc.symm, ⟨Nat.mod_lt _ (by decide), h.wpos⟩, rfl, hl.symm⟩

end Screen

/-- The key in the I/O space of the client. -/
def ioKey (io : Nat → Nat) : Key := keyOf (ioin io (ioport consioKbdata 1))

/-- What is written comes back. -/
theorem ioin_wriospace {p k : Nat} (io : Nat → Nat) (val : Nat) (hk : k < 4)
    (hp : p + 2 ^ k ≤ iospaceSz) :
    ioin (wriospace io (ioport p k) val) (ioport p k) = State.lowBytes (2 ^ k) val := by
  have hle : 2 ^ k ≤ 8 := Nat.pow_le_pow_right (by decide) (Nat.le_of_lt_succ hk)
  rw [ioin, ioRange_ioport hk hp, ← bytesVal_low hle]
  refine bytesVal_congr fun i _ ↦ ?_
  by_cases hi : i < 2 ^ k
  · rw [if_pos hi, if_pos hi, wriospace, ioRange_ioport hk hp]
    dsimp only
    rw [if_pos ⟨Nat.le_add_right p i, Nat.add_lt_add_left hi p⟩, Nat.add_sub_cancel_left]
  · rw [if_neg hi, if_neg hi]

/-- The key that has been written. -/
theorem ioKey_kbdata (io : Nat → Nat) (c : Key) :
    ioKey (wriospace io (ioport consioKbdata 1) c.toNat) = c := by
  rw [ioKey, ioin_wriospace io _ (by decide) (by decide)]
  apply BitVec.eq_of_toNat_eq
  have hc : c.toNat < 2 ^ 16 := c.isLt
  rw [keyOf, BitVec.toNat_ofNat, State.lowBytes]
  omega

/-- The status is not part of the key. -/
theorem ioKey_devsts (io : Nat → Nat) (val : Nat) :
    ioKey (wriospace io (ioport consioDevsts 0) val) = ioKey io := by
  rw [ioKey, ioKey, ioin, ioin, ioRange_ioport (by decide) (by decide)]
  refine congrArg keyOf (bytesVal_congr fun i _ ↦ ?_)
  by_cases hi : i < 2 ^ 1
  · rw [if_pos hi, if_pos hi, wriospace, ioRange_ioport (by decide) (by decide)]
    refine if_neg fun h ↦ ?_
    have hlt := h.2
    rw [consioKbdata, consioDevsts] at hlt
    omega
  · rw [if_neg hi, if_neg hi]

/-! ## The token -/

/-- Where the token is, from the places of the two parties and what is between them to the keys
that wait in the buffer, and the one that is on its way. -/
inductive Token : Client → Server → List Nat → (req irq evt : Bool) → (data : Key) →
    (buf way : List Key) → Prop
  | /-- The client is about to ask. -/
    dout {d b} : Token .dout .idle [] false false false d b []
  | /-- The request waits. -/
    asked {d b} : Token .evtwait .idle [1] false false false d b []
  | /-- The console has found no key. -/
    empty {d} : Token .evtwait (.fetched 0) [] false false false d [] []
  | /-- The console waits for a key. -/
    waiting {d} : Token .evtwait .idle [] true false false d [] []
  | /-- The console has a key. -/
    fetched {c d b} : c ≠ 0 → Token .evtwait (.fetched c) [] false false false d b [c]
  | /-- The key is in the I/O space. -/
    wrote {c b} : Token .evtwait .wrote [] false false false c b [c]
  | /-- So is the status. -/
    status {c b} : Token .evtwait .status [] false false false c b [c]
  | /-- The interrupt is raised. -/
    raised {c b} : Token .evtwait .idle [] false true false c b [c]
  | /-- The event is set. -/
    set {c b} : Token .evtwait .idle [] false false true c b [c]
  | /-- The client is about to read. -/
    din {c b} : Token .din .idle [] false false true c b [c]
  | /-- The client has read. -/
    clist {c v d b} : keyOf v = c → Token (.clist v) .idle [] false false true d b [c]
  | /-- The key is on the list. -/
    evtclear {d b} : Token .evtclear .idle [] false false true d b []

/-- What holds in every state. -/
structure Inv (s : State) : Prop where
  range : s.scr.InRange
  nonzero : ∀ c ∈ s.scr.buffered, c ≠ 0
  token : ∃ way, Token s.client s.server s.ioreqs s.scr.req s.irq s.keybevt (ioKey s.io)
      s.scr.buffered way ∧ s.accepted = s.read ++ way ++ s.scr.buffered

/-- The steps that are left before the console waits for a key, with `n` keys in the buffer. -/
def rank (client : Client) (server : Server) (ioreqs : List Nat) (irq evt : Bool) (n : Nat) : Nat :=
  10 * n + match client, server with
    | .dout, _ => 3
    | .evtwait, .fetched c => if c = 0 then 1 else 11
    | .evtwait, .wrote => 10
    | .evtwait, .status => 9
    | .evtwait, .idle => if irq then 8 else if evt then 7 else if ioreqs = [] then 0 else 2
    | .din, _ => 6
    | .clist _, _ => 5
    | .evtclear, _ => 4

/-- The steps that are left in a state. -/
def State.rank (s : State) : Nat :=
  Console.rank s.client s.server s.ioreqs s.irq s.keybevt s.scr.buffered.length

/-! ## Where the token is before a step -/

namespace Token

variable {cl : Client} {sv : Server} {rs : List Nat} {rq ir ev : Bool} {d : Key} {b w : List Key}

theorem poll {v : Nat} {vs : List Nat} (h : Token cl .idle (v :: vs) rq ir ev d b w) :
    cl = .evtwait ∧ v = 1 ∧ vs = [] ∧ rq = false ∧ ir = false ∧ ev = false ∧ w = [] := by
  cases h
  exact ⟨rfl, rfl, rfl, rfl, rfl, rfl, rfl⟩

theorem kbdata {c : Key} (h : Token cl (.fetched c) rs rq ir ev d b w) :
    cl = .evtwait ∧ rs = [] ∧ rq = false ∧ ir = false ∧ ev = false ∧
      (c = 0 ∧ b = [] ∧ w = [] ∨ c ≠ 0 ∧ w = [c]) := by
  cases h with
  | empty => exact ⟨rfl, rfl, rfl, rfl, rfl, .inl ⟨rfl, rfl, rfl⟩⟩
  | fetched hc => exact ⟨rfl, rfl, rfl, rfl, rfl, .inr ⟨hc, rfl⟩⟩

theorem devsts (h : Token cl .wrote rs rq ir ev d b w) :
    cl = .evtwait ∧ rs = [] ∧ rq = false ∧ ir = false ∧ ev = false ∧ w = [d] := by
  cases h
  exact ⟨rfl, rfl, rfl, rfl, rfl, rfl⟩

theorem raise (h : Token cl .status rs rq ir ev d b w) :
    cl = .evtwait ∧ rs = [] ∧ rq = false ∧ ir = false ∧ ev = false ∧ w = [d] := by
  cases h
  exact ⟨rfl, rfl, rfl, rfl, rfl, rfl⟩

theorem intr (h : Token cl sv rs rq true ev d b w) :
    cl = .evtwait ∧ sv = .idle ∧ rs = [] ∧ rq = false ∧ ev = false ∧ w = [d] := by
  cases h
  exact ⟨rfl, rfl, rfl, rfl, rfl, rfl⟩

theorem of_dout (h : Token .dout sv rs rq ir ev d b w) :
    sv = .idle ∧ rs = [] ∧ rq = false ∧ ir = false ∧ ev = false ∧ w = [] := by
  cases h
  exact ⟨rfl, rfl, rfl, rfl, rfl, rfl⟩

theorem of_evtwait (h : Token .evtwait sv rs rq ir true d b w) :
    sv = .idle ∧ rs = [] ∧ rq = false ∧ ir = false ∧ w = [d] := by
  cases h
  exact ⟨rfl, rfl, rfl, rfl, rfl⟩

theorem of_din (h : Token .din sv rs rq ir ev d b w) :
    sv = .idle ∧ rs = [] ∧ rq = false ∧ ir = false ∧ ev = true ∧ w = [d] := by
  cases h
  exact ⟨rfl, rfl, rfl, rfl, rfl, rfl⟩

theorem of_clist {v : Nat} (h : Token (.clist v) sv rs rq ir ev d b w) :
    sv = .idle ∧ rs = [] ∧ rq = false ∧ ir = false ∧ ev = true ∧ w = [keyOf v] := by
  cases h with
  | clist hv => exact ⟨rfl, rfl, rfl, rfl, rfl, congrArg (fun c ↦ [c]) hv.symm⟩

theorem of_evtclear (h : Token .evtclear sv rs rq ir ev d b w) :
    sv = .idle ∧ rs = [] ∧ rq = false ∧ ir = false ∧ ev = true ∧ w = [] := by
  cases h
  exact ⟨rfl, rfl, rfl, rfl, rfl, rfl⟩

/-- The places where the console is in no handler do not depend on the buffer, and where it waits
for a key the buffer is empty. -/
theorem key (h : Token cl .idle rs rq ir ev d b w) : rq = false ∧
      (∀ b', Token cl .idle rs rq ir ev d b' w) ∨
    rq = true ∧ cl = .evtwait ∧ rs = [] ∧ ir = false ∧ ev = false ∧ b = [] ∧ w = [] := by
  cases h with
  | waiting => exact .inr ⟨rfl, rfl, rfl, rfl, rfl, rfl, rfl⟩
  | dout => exact .inl ⟨rfl, fun _ ↦ .dout⟩
  | asked => exact .inl ⟨rfl, fun _ ↦ .asked⟩
  | raised => exact .inl ⟨rfl, fun _ ↦ .raised⟩
  | set => exact .inl ⟨rfl, fun _ ↦ .set⟩
  | din => exact .inl ⟨rfl, fun _ ↦ .din⟩
  | clist hv => exact .inl ⟨rfl, fun _ ↦ .clist hv⟩
  | evtclear => exact .inl ⟨rfl, fun _ ↦ .evtclear⟩

end Token

/-! ## The steps -/

variable {s t : State} {a : Label} {c : Key} {scr : Screen}

theorem inv_opened (scr : Screen) (io : Nat → Nat) : Inv (opened scr io) := by
  have hempty : scr.consoleIoOpen.buffered = [] := RingBuf.contents_empty rfl
  refine ⟨⟨Nat.succ_pos 15, Nat.succ_pos 15⟩, ?_, [], .dout, ?_⟩
  · intro c hc
    rw [opened, hempty] at hc
    exact absurd hc List.not_mem_nil
  · rw [opened, hempty]
    rfl

/-- A key arrives. -/
theorem Inv.key (h : Inv s) (hst : Step s (.key c) t) : Inv t := by
  obtain ⟨hrange, hnonzero, way, htok, hacc⟩ := h
  rw [Step, State.stepAt] at hst
  split at hst
  next hc =>
    cases hst
    obtain ⟨hsv, hc0⟩ := hc
    rw [State.kbdbufAdd]
    cases hput : s.scr.kbdbufPut c with
    | none => exact ⟨hrange, hnonzero, way, htok, hacc⟩
    | some scr =>
        obtain ⟨hrange', hreq, hbuf⟩ := Screen.buffered_put hrange hput
        have hnonzero' : ∀ k ∈ scr.buffered, k ≠ 0 := by
          intro k hk
          rw [hbuf] at hk
          rcases List.mem_append.1 hk with hk | hk
          · exact hnonzero k hk
          · rw [List.mem_singleton.1 hk]
            exact hc0
        rw [hsv] at htok
        dsimp only
        rcases htok.key with ⟨hrq, hany⟩ | ⟨hrq, hcl, hrs, hir, hev, hb, hw⟩
        · rw [hreq, hrq, if_neg Bool.false_ne_true]
          refine ⟨hrange', hnonzero', way, ?_, ?_⟩
          · dsimp only
            rw [hsv, hreq]
            exact hany scr.buffered
          · dsimp only
            rw [hacc, hbuf, List.append_assoc]
        · rw [hreq, hrq, if_pos rfl]
          rw [hb, List.nil_append] at hbuf
          obtain ⟨h₁, h₂, h₃, h₄⟩ :=
            Screen.kbdfetch_cons (s := { scr with req := false }) ⟨hrange'.fpos, hrange'.wpos⟩ hbuf
          refine ⟨h₂, ?_, [c], ?_, ?_⟩
          · intro k hk
            rw [State.update, h₄] at hk
            exact absurd hk List.not_mem_nil
          · rw [State.update, h₁, h₃, h₄]
            dsimp only
            rw [hcl, hrs, hir, hev]
            exact .fetched hc0
          · rw [State.update, h₄]
            dsimp only
            rw [hacc, hw, hb, List.append_nil, List.append_nil, List.append_nil]
  · cases hst

/-- The console takes a request. -/
theorem Inv.poll (h : Inv s) (hst : Step s .poll t) : Inv t ∧ t.rank < s.rank := by
  obtain ⟨hrange, hnonzero, way, htok, hacc⟩ := h
  rw [Step, State.stepAt] at hst
  split at hst
  next val vals hsv hrs =>
    rw [hsv, hrs] at htok
    obtain ⟨hcl, rfl, rfl, hrq, hir, hev, rfl⟩ := htok.poll
    have ht : { s with ioreqs := [] }.update s.scr = t := Option.some.inj hst
    subst ht
    cases hb : s.scr.buffered with
    | nil =>
        have hfetch := Screen.kbdfetch_nil hrange hb
        refine ⟨⟨?_, ?_, [], ?_, ?_⟩, ?_⟩
        · rw [State.update, hfetch]
          exact hrange
        · rw [State.update, hfetch]
          exact hnonzero
        · rw [State.update, hfetch]
          dsimp only
          rw [hcl, hrq, hir, hev, hb]
          exact .empty
        · rw [State.update, hfetch]
          exact hacc
        · rw [State.update, hfetch]
          simp [State.rank, rank, hcl, hsv, hrs, hir, hev]
    | cons c l =>
        obtain ⟨h₁, h₂, h₃, h₄⟩ := Screen.kbdfetch_cons hrange hb
        rw [hb] at hnonzero hacc
        refine ⟨⟨h₂, ?_, [c], ?_, ?_⟩, ?_⟩
        · intro k hk
          rw [State.update, h₄] at hk
          exact hnonzero k (List.mem_cons_of_mem c hk)
        · rw [State.update, h₁, h₃, h₄]
          dsimp only
          rw [hcl, hrq, hir, hev]
          exact .fetched (hnonzero c List.mem_cons_self)
        · rw [State.update, h₄]
          dsimp only
          rw [hacc, List.append_nil, List.append_assoc]
          rfl
        · simp only [State.rank, State.update, rank, hcl, hsv, hrs, hir, hev, hb, h₁, h₄,
            List.length_cons]
          split
          · omega
          · simp only [Bool.false_eq_true, if_false, List.cons_ne_nil]
            omega
  · cases hst

/-- `devsts_kbdata_update` writes the key. -/
theorem Inv.kbdata (h : Inv s) (hst : Step s .kbdata t) : Inv t ∧ t.rank < s.rank := by
  obtain ⟨hrange, hnonzero, way, htok, hacc⟩ := h
  rw [Step, State.stepAt] at hst
  split at hst
  next val hsv =>
    cases hst
    rw [hsv] at htok
    obtain ⟨hcl, hrs, hrq, hir, hev, ⟨rfl, hb, rfl⟩ | ⟨hval, rfl⟩⟩ := htok.kbdata
    · rw [State.kbdata, if_pos rfl]
      refine ⟨⟨⟨hrange.fpos, hrange.wpos⟩, hnonzero, [], ?_, hacc⟩, ?_⟩
      · have hbuf : Screen.buffered { s.scr with req := true } = [] := hb
        dsimp only
        rw [hcl, hrs, hir, hev, hbuf]
        exact .waiting
      · simp [State.rank, rank, hcl, hsv, hrs, hir, hev, Screen.buffered]
    · rw [State.kbdata, if_neg hval]
      refine ⟨⟨hrange, hnonzero, [val], ?_, hacc⟩, ?_⟩
      · dsimp only
        rw [hcl, hrs, hrq, hir, hev, ioKey_kbdata]
        exact .wrote
      · simp only [State.rank, rank, hcl, hsv, if_neg hval]
        omega
  · cases hst

/-- It writes the status. -/
theorem Inv.devsts (h : Inv s) (hst : Step s .devsts t) : Inv t ∧ t.rank < s.rank := by
  obtain ⟨hrange, hnonzero, way, htok, hacc⟩ := h
  rw [Step, State.stepAt] at hst
  split at hst
  next hsv =>
    cases hst
    rw [hsv] at htok
    obtain ⟨hcl, hrs, hrq, hir, hev, rfl⟩ := htok.devsts
    refine ⟨⟨hrange, hnonzero, [ioKey s.io], ?_, hacc⟩, ?_⟩
    · dsimp only
      rw [hcl, hrs, hrq, hir, hev, ioKey_devsts]
      exact .status
    · simp [State.rank, rank, hcl, hsv]
  · cases hst

/-- It raises the interrupt. -/
theorem Inv.raise (h : Inv s) (hst : Step s .raise t) : Inv t ∧ t.rank < s.rank := by
  obtain ⟨hrange, hnonzero, way, htok, hacc⟩ := h
  rw [Step, State.stepAt] at hst
  split at hst
  next hsv =>
    cases hst
    rw [hsv] at htok
    obtain ⟨hcl, hrs, hrq, hir, hev, rfl⟩ := htok.raise
    refine ⟨⟨hrange, hnonzero, [ioKey s.io], ?_, hacc⟩, ?_⟩
    · dsimp only
      rw [hcl, hrs, hrq, hev]
      exact .raised
    · simp [State.rank, rank, hcl, hsv]
  · cases hst

/-- The interrupt is delivered. -/
theorem Inv.intr (h : Inv s) (hst : Step s .intr t) : Inv t ∧ t.rank < s.rank := by
  obtain ⟨hrange, hnonzero, way, htok, hacc⟩ := h
  rw [Step, State.stepAt] at hst
  split at hst
  next hir =>
    cases hst
    rw [hir] at htok
    obtain ⟨hcl, hsv, hrs, hrq, hev, rfl⟩ := htok.intr
    refine ⟨⟨hrange, hnonzero, [ioKey s.io], ?_, hacc⟩, ?_⟩
    · dsimp only
      rw [hcl, hsv, hrs, hrq]
      exact .set
    · simp [State.rank, rank, hcl, hsv, hir]
  · cases hst

/-- The client asks for a key. -/
theorem Inv.dout (h : Inv s) (hst : Step s .dout t) : Inv t ∧ t.rank < s.rank := by
  obtain ⟨hrange, hnonzero, way, htok, hacc⟩ := h
  rw [Step, State.stepAt] at hst
  split at hst
  next hcl =>
    cases hst
    rw [hcl] at htok
    obtain ⟨hsv, hrs, hrq, hir, hev, rfl⟩ := htok.of_dout
    refine ⟨⟨hrange, hnonzero, [], ?_, hacc⟩, ?_⟩
    · dsimp only
      rw [hsv, hrs, hrq, hir, hev]
      exact .asked
    · simp [State.rank, rank, hcl, hsv, hrs, hir, hev]
  · cases hst

/-- The client finds the event set. -/
theorem Inv.evtwait (h : Inv s) (hst : Step s .evtwait t) : Inv t ∧ t.rank < s.rank := by
  obtain ⟨hrange, hnonzero, way, htok, hacc⟩ := h
  rw [Step, State.stepAt] at hst
  split at hst
  next hc =>
    cases hst
    obtain ⟨hcl, hev⟩ := hc
    rw [hcl, hev] at htok
    obtain ⟨hsv, hrs, hrq, hir, rfl⟩ := htok.of_evtwait
    refine ⟨⟨hrange, hnonzero, [ioKey s.io], ?_, hacc⟩, ?_⟩
    · dsimp only
      rw [hsv, hrs, hrq, hir, hev]
      exact .din
    · simp [State.rank, rank, hcl, hsv, hir, hev]
  · cases hst

/-- The client reads the key. -/
theorem Inv.din (h : Inv s) (hst : Step s .din t) : Inv t ∧ t.rank < s.rank := by
  obtain ⟨hrange, hnonzero, way, htok, hacc⟩ := h
  rw [Step, State.stepAt] at hst
  split at hst
  next hcl =>
    cases hst
    rw [hcl] at htok
    obtain ⟨hsv, hrs, hrq, hir, hev, rfl⟩ := htok.of_din
    refine ⟨⟨hrange, hnonzero, [ioKey s.io], ?_, hacc⟩, ?_⟩
    · dsimp only
      rw [hsv, hrs, hrq, hir, hev]
      exact .clist rfl
    · simp [State.rank, rank, hcl]
  · cases hst

/-- The client puts the key on its list. -/
theorem Inv.clist (h : Inv s) (hst : Step s .clist t) : Inv t ∧ t.rank < s.rank := by
  obtain ⟨hrange, hnonzero, way, htok, hacc⟩ := h
  rw [Step, State.stepAt] at hst
  split at hst
  next val hcl =>
    cases hst
    rw [hcl] at htok
    obtain ⟨hsv, hrs, hrq, hir, hev, rfl⟩ := htok.of_clist
    refine ⟨⟨hrange, hnonzero, [], ?_, ?_⟩, ?_⟩
    · dsimp only
      rw [hsv, hrs, hrq, hir, hev]
      exact .evtclear
    · dsimp only
      rw [hacc, List.append_nil]
    · simp [State.rank, rank, hcl]
  · cases hst

/-- The client clears the event. -/
theorem Inv.evtclear (h : Inv s) (hst : Step s .evtclear t) : Inv t ∧ t.rank < s.rank := by
  obtain ⟨hrange, hnonzero, way, htok, hacc⟩ := h
  rw [Step, State.stepAt] at hst
  split at hst
  next hcl =>
    cases hst
    rw [hcl] at htok
    obtain ⟨hsv, hrs, hrq, hir, hev, rfl⟩ := htok.of_evtclear
    refine ⟨⟨hrange, hnonzero, [], ?_, hacc⟩, ?_⟩
    · dsimp only
      rw [hsv, hrs, hrq, hir]
      exact .dout
    · simp [State.rank, rank, hcl]
  · cases hst

/-- A step in which no key arrives brings the token on. -/
theorem Inv.quiet (h : Inv s) (hst : Quiet s a t) : Inv t ∧ t.rank < s.rank := by
  obtain ⟨hst, hkey⟩ := hst
  cases a with
  | key c => exact absurd rfl (hkey c)
  | poll => exact h.poll hst
  | kbdata => exact h.kbdata hst
  | devsts => exact h.devsts hst
  | raise => exact h.raise hst
  | intr => exact h.intr hst
  | dout => exact h.dout hst
  | evtwait => exact h.evtwait hst
  | din => exact h.din hst
  | clist => exact h.clist hst
  | evtclear => exact h.evtclear hst

theorem Inv.step (h : Inv s) (hst : Step s a t) : Inv t := by
  by_cases hkey : ∃ c, a = .key c
  · obtain ⟨c, rfl⟩ := hkey
    exact h.key hst
  · exact (h.quiet ⟨hst, fun c hc ↦ hkey ⟨c, hc⟩⟩).1

/-! ## What comes of the keys -/

/-- Wherever the token is, something can happen, unless the console waits for a key with an empty
buffer. -/
theorem Token.next {cl : Client} {sv : Server} {rs : List Nat} {rq ir ev : Bool} {d : Key}
    {b w : List Key} (h : Token cl sv rs rq ir ev d b w) :
    (sv = .idle ∧ rs = [1]) ∨ (∃ c, sv = .fetched c) ∨ sv = .wrote ∨ sv = .status ∨ ir = true ∨
      cl = .dout ∨ (cl = .evtwait ∧ ev = true) ∨ cl = .din ∨ (∃ v, cl = .clist v) ∨
      cl = .evtclear ∨ b = [] ∧ w = [] := by
  cases h <;> simp

/-- Where nothing but a key can happen, every key has been read. -/
theorem Inv.stuck (h : Inv s) (hno : ∀ a t, ¬ Quiet s a t) : s.read = s.accepted := by
  obtain ⟨_, _, way, htok, hacc⟩ := h
  have hstep : ∀ a t, (∀ c, a ≠ .key c) → s.stepAt a ≠ some t := fun a t hkey hst ↦
    hno a t ⟨hst, hkey⟩
  rcases htok.next with ⟨h₁, h₂⟩ | ⟨c, hc⟩ | hc | hc | hc | hc | ⟨h₁, h₂⟩ | hc | ⟨v, hc⟩ | hc |
    ⟨hb, hw⟩
  · exact absurd (by simp only [State.stepAt, h₁, h₂]; rfl) (hstep .poll _ nofun)
  · exact absurd (by simp only [State.stepAt, hc]; rfl) (hstep .kbdata _ nofun)
  · exact absurd (if_pos hc) (hstep .devsts _ nofun)
  · exact absurd (if_pos hc) (hstep .raise _ nofun)
  · exact absurd (if_pos hc) (hstep .intr _ nofun)
  · exact absurd (if_pos hc) (hstep .dout _ nofun)
  · exact absurd (if_pos ⟨h₁, h₂⟩) (hstep .evtwait _ nofun)
  · exact absurd (if_pos hc) (hstep .din _ nofun)
  · exact absurd (by simp only [State.stepAt, hc]; rfl) (hstep .clist _ nofun)
  · exact absurd (if_pos hc) (hstep .evtclear _ nofun)
  · rw [hacc, hb, hw, List.append_nil, List.append_nil]

/-- Steps without keys come to an end. -/
theorem Inv.run_quiet {as : List Label} (h : Inv s) (hrun : Run Quiet s as t) :
    Inv t ∧ as.length + t.rank ≤ s.rank := by
  induction hrun with
  | nil s => exact ⟨h, (Nat.zero_add _).le⟩
  | cons hst _ ih =>
      obtain ⟨hinv, hlt⟩ := h.quiet hst
      obtain ⟨hinv', hle⟩ := ih hinv
      refine ⟨hinv', ?_⟩
      rw [List.length_cons]
      omega

/-- The keys read are the first of those that were accepted, in their order; a key is accepted, or
15 keys wait; and once keys stop arriving, there is an end to the steps, with every key read. -/
structure Delivered (s : State) : Prop where
  order : s.read <+: s.accepted
  dropped : ∀ c t, Step s (.key c) t → t.accepted = s.accepted ++ [c] ∨
    t.accepted = s.accepted ∧ s.scr.buffered.length = 15
  drained : ∃ n, ∀ as t, Run Quiet s as t →
    as.length ≤ n ∧ ((∀ a u, ¬ Quiet t a u) → t.read = t.accepted)

/-- Every key that is accepted reaches the client, in order and once. -/
theorem keys_delivered {io : Nat → Nat} {as : List Label} (h : Run Step (opened scr io) as s) :
    Delivered s := by
  have hinv : Inv s := h.invariant (fun _ _ _ hi hst ↦ hi.step hst) (inv_opened scr io)
  refine ⟨?_, fun c t hst ↦ ?_, s.rank, fun as t hrun ↦ ?_⟩
  · obtain ⟨way, _, hacc⟩ := hinv.token
    rw [hacc, List.append_assoc]
    exact List.prefix_append ..
  · rw [Step, State.stepAt] at hst
    split at hst
    · cases hst
      rw [State.kbdbufAdd]
      cases hput : s.scr.kbdbufPut c with
      | none => exact .inr ⟨rfl, Screen.length_of_full hinv.range hput⟩
      | some scr =>
          dsimp only
          split
          · exact .inl rfl
          · exact .inl rfl
    · cases hst
  · obtain ⟨hinv', hle⟩ := hinv.run_quiet hrun
    exact ⟨Nat.le_of_add_right_le hle, hinv'.stuck⟩

/-- Two keys come, one before and one after the client asks; it has read the first. -/
theorem keys_delivered_two : ∃ s, Run Step (opened ⟨false, 0, 0, fun _ ↦ 0⟩ fun _ ↦ 0)
    [.key 104, .dout, .poll, .kbdata, .devsts, .raise, .key 105, .intr, .evtwait, .din, .clist] s ∧
    s.read = [104] ∧ s.accepted = [104, 105] ∧ Delivered s := by
  have h : Run Step (opened ⟨false, 0, 0, fun _ ↦ 0⟩ fun _ ↦ 0)
      [.key 104, .dout, .poll, .kbdata, .devsts, .raise, .key 105, .intr, .evtwait, .din, .clist]
      _ :=
    .cons rfl <| .cons rfl <| .cons rfl <| .cons rfl <| .cons rfl <| .cons rfl <| .cons rfl <|
    .cons rfl <| .cons rfl <| .cons rfl <| .cons rfl (.nil _)
  exact ⟨_, h, rfl, rfl, keys_delivered h⟩

end Mh.Console
