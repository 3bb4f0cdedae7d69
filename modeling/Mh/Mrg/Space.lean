import Mh.Mrg.Calls
import Mathlib.Data.Nat.Init

/-!
# The pages of a process

What `libmrg` puts into the ranges that `vmap_alloc` hands out: memory of `vmmap32`, and the memory
of a device (`sys_iomap`).  A page that the kernel controls, because it is exported to a device or
because it is the memory of one, `vmunmap` leaves alone.  What a call of the kernel returns is an
argument.

A range that is handed out starts a page: the entries of the map follow each other from
`VM_MINMMAP_ADDRESS` on, and those that are not free are full pages.
-/

namespace Mh.Mrg

open Mh.Lib

/-! ## Calls -/

/-- A page that is mapped. -/
inductive Page
  | mem
  | exported
  | io (mmioaddr : Nat)
deriving DecidableEq, Repr

/-- The map of the address space, and its pages by their number. -/
structure Space where
  vmap : State
  page : Nat → Option Page

/-- What stops a process: an assertion of the map, or `procassert` in `sys_map`. -/
inductive Stop
  | vmap (e : Panic)
  | killed
deriving DecidableEq, Repr

namespace Space

/-- A state with another page. -/
def setPage (s : Space) (va : Nat) (p : Option Page) : Space :=
  { s with page := Function.update s.page (vpn va) p }

/-- `sys_map` with `MAP_NEW32`. -/
def vmmap32 (s : Space) (va : Nat) (ret : Int) : Except Stop Space :=
  if chkuaddr (truncPage va) pageSize then
    .ok (if ret < 0 then s else s.setPage va (some .mem))
  else .error .killed

/-- What `vmunmap` leaves of a page. -/
def unmapped : Option Page → Option Page
  | some .mem => none
  | p => p

/-- `sys_map` with `MAP_NONE`. -/
def vmunmap (s : Space) (va : Nat) : Except Stop Space :=
  if chkuaddr (truncPage va) pageSize then .ok (s.setPage va (unmapped (s.page (vpn va))))
  else .error .killed

/-- `sys_iomap`: the system call has the low 32 bits of the device address. -/
def sysIomap (s : Space) (va mmioaddr : Nat) (ret : Int) : Space :=
  if ret < 0 then s else s.setPage va (some (.io (w32 mmioaddr)))

/-- `sys_iounmap`. -/
def sysIounmap (s : Space) (va : Nat) : Space :=
  match s.page (vpn va) with
  | some (.io _) => s.setPage va none
  | _ => s

variable (rb : Rb) (vmMaxmmap : Nat)

/-- `vmap_alloc` or `vmap_free`. -/
def call (s : Space) (op : Op) : Except Stop (Nat × Space) :=
  match exec rb vmMaxmmap s.vmap op with
  | .error e => .error (.vmap e)
  | .ok (r, v) => .ok (r, { s with vmap := v })

end Space

/-! ## Pages -/

namespace Space

variable {s : Space} {va v : Nat} {ret : Int}

@[simp] theorem setPage_page (s : Space) (va : Nat) (p : Option Page) (v : Nat) :
    (s.setPage va p).page v = if v = vpn va then p else s.page v := Function.update_apply _ _ _ _

theorem sysIomap_vmap (s : Space) (va mmioaddr : Nat) (ret : Int) :
    (s.sysIomap va mmioaddr ret).vmap = s.vmap := by
  rw [sysIomap]
  split_ifs <;> rfl

theorem sysIomap_page (s : Space) (va mmioaddr : Nat) (ret : Int) (v : Nat) :
    (s.sysIomap va mmioaddr ret).page v =
      if v = vpn va ∧ 0 ≤ ret then some (.io (w32 mmioaddr)) else s.page v := by
  rw [sysIomap]
  by_cases hret : ret < 0
  · rw [if_pos hret, if_neg fun h ↦ absurd hret (Int.not_lt.2 h.2)]
  · rw [if_neg hret, setPage_page]
    exact if_congr (and_iff_left (Int.not_lt.1 hret)).symm rfl rfl

theorem vmmap32_ok (hva : isuaddr va) :
    s.vmmap32 va ret = .ok (if ret < 0 then s else s.setPage va (some .mem)) :=
  if_pos (chkuaddr_of_isuaddr hva)

theorem vmunmap_ok (hva : isuaddr va) :
    s.vmunmap va = .ok (s.setPage va (unmapped (s.page (vpn va)))) :=
  if_pos (chkuaddr_of_isuaddr hva)

theorem vmunmap_killed (hva : ¬ isuaddr va) : s.vmunmap va = .error .killed :=
  if_neg (mt isuaddr_of_chkuaddr hva)

/-- What is not memory of its own stays. -/
theorem unmapped_eq_self_iff {p : Option Page} : unmapped p = p ↔ p ≠ some .mem := by
  rcases p with _ | _ | _ | _ <;> simp [unmapped]

@[simp] theorem unmapped_unmapped (p : Option Page) : unmapped (unmapped p) = unmapped p := by
  rcases p with _ | _ | _ | _ <;> rfl

end Space

/-! ## Ranges of full pages -/

variable {rb : Rb} {vmMaxmmap : Nat} {z : VZone} {s s' : State} {e : Vme} {n va : Nat}
  {ty : UInt8} {op : Op} {ops : List Op} {out : Set (Nat × Nat)}

/-- The ranges that are handed out are full pages. -/
def Paged (out : Set (Nat × Nat)) : Prop := ∀ p ∈ out, p.1 % pageSize = 0 ∧ p.2 % pageSize = 0

theorem roundPage_mod (n : Nat) : roundPage n % pageSize = 0 := Nat.mul_mod_left _ _

/-- A free entry starts a page: what comes before it has been handed out. -/
theorem Mapped.addr_mod (h : Mapped vmMaxmmap z out) (hp : Paged out) (he : e ∈ frees z) :
    e.addr % pageSize = 0 := by
  obtain ⟨hpos, hlo, hhi⟩ := h.inside he.1
  have hmin : vmMinmmap % pageSize = 0 := by decide
  rcases Nat.eq_or_lt_of_le hlo with heq | hlt
  · exact heq ▸ hmin
  · have hbefore : e.addr - 1 ∈ Mrg.covered z := by
      rw [h.covered]
      exact ⟨by omega, by omega⟩
    obtain ⟨e', he', hlo', hhi'⟩ := mem_covered.1 hbefore
    have hne : e' ≠ e := by
      rintro rfl
      omega
    have hend : e'.addr + e'.size = e.addr := by
      rcases h.vinv.apart he' he.1 hne with hap | hap <;> omega
    have hty : e'.type ≠ vfntFree := fun hf ↦ h.vinv.free_apart ⟨he', hf⟩ he hend
    obtain ⟨ha, hn⟩ := hp _ ((h.out _ _).2 ⟨e'.type, hty, he'⟩)
    rw [← hend, Nat.add_mod, ha, hn]
    rfl

/-- The range of the map ends below `2 ^ 32`. -/
theorem Region.lt_two_pow (h : Region vmMaxmmap) : vmMaxmmap < 2 ^ 32 := by
  have hlt := h.lt
  have hshort := h.short
  rw [vmMinmmap_eq] at hlt hshort
  omega

/-- A range that the map hands out. -/
structure Handed (vmMaxmmap : Nat) (out : Set (Nat × Nat)) (va n : Nat) : Prop where
  pos : 0 < n
  low : vmMinmmap ≤ va
  high : va + n ≤ vmMaxmmap
  addr_mod : va % pageSize = 0
  size_mod : n % pageSize = 0
  fresh : (va, n) ∉ out

/-- What holds of the map in a run. -/
structure Good (vmMaxmmap : Nat) (s : State) : Prop where
  ready : s = State.init ∨ Ready vmMaxmmap s
  paged : Paged s.out

/-- `vmap_alloc`. -/
theorem Good.alloc (rb : Rb) (hR : Region vmMaxmmap) (h : Good vmMaxmmap s) (hpos : 0 < n)
    (hf : n ≤ 2 ^ 32 - pageSize) (hty : ty ≠ vfntFree) :
    ∃ r t, exec rb vmMaxmmap s (.alloc n ty) = .ok (r, t) ∧ Good vmMaxmmap t ∧
      (r = 0 ∧ t.out = s.out ∨
        r ≠ 0 ∧ Handed vmMaxmmap s.out r (roundPage n) ∧
          t.out = insert (r, roundPage n) s.out) := by
  have ha : Allowed s (.alloc n ty) := ⟨hpos, Nat.lt_of_le_of_lt hf (by decide), hty⟩
  obtain ⟨z, hmap, hex | ⟨e, he, t, hr, hex, hmap'⟩⟩ := exec_alloc rb hR h.ready ha hf
  · exact ⟨0, _, hex, ⟨.inr ⟨rfl, hmap⟩, h.paged⟩, .inl ⟨rfl, rfl⟩⟩
  · have hmod := hmap.addr_mod h.paged he
    have hnew : (e.addr, roundPage n) ∉ s.out := by
      intro hin
      obtain ⟨ty', hty', hm⟩ := (hmap.out _ _).1 hin
      have hsz := hmap.vinv.size_pos hm
      have hesz := hmap.vinv.size_pos he.1
      have heq := hmap.vinv.unique he.1 hm ⟨le_rfl, Nat.lt_add_of_pos_right hesz⟩
        ⟨le_rfl, Nat.lt_add_of_pos_right hsz⟩
      rw [heq] at he
      exact hty' he.2
    obtain ⟨ty', _, hm⟩ := (hmap'.out _ _).1 (Set.mem_insert _ _)
    obtain ⟨hsz, hlo, hhi⟩ := hmap'.inside hm
    refine ⟨_, _, hex, ⟨.inr ⟨rfl, hmap'⟩, ?_⟩, .inr ⟨hr.ne', ?_, rfl⟩⟩
    · rintro p (rfl | hp)
      · exact ⟨hmod, roundPage_mod n⟩
      · exact h.paged p hp
    · exact ⟨hsz, hlo, hhi, hmod, roundPage_mod n, hnew⟩

/-- `vmap_free` of a range that was handed out. -/
theorem Good.free (rb : Rb) (hR : Region vmMaxmmap) (h : Good vmMaxmmap s)
    (ha : (va, roundPage n) ∈ s.out) :
    ∃ t, exec rb vmMaxmmap s (.free va n) = .ok (0, t) ∧ Good vmMaxmmap t ∧
      t.out = s.out \ {(va, roundPage n)} := by
  obtain ⟨t, hex, hmap⟩ := exec_free rb hR h.ready ha
  exact ⟨_, hex, ⟨.inr ⟨rfl, hmap⟩, fun p hp ↦ h.paged p hp.1⟩, rfl⟩

/-- A size that does not fit. -/
theorem Good.alloc_error (rb : Rb) (hR : Region vmMaxmmap) (h : Good vmMaxmmap s) (hlt : n < 2 ^ 32)
    (hf : 2 ^ 32 - pageSize < n) (hty : ty ≠ vfntFree) :
    exec rb vmMaxmmap s (.alloc n ty) = .error (.zone .size) :=
  exec_error rb hR h.ready ⟨Nat.zero_lt_of_lt hf, hlt, hty⟩ (Nat.not_le.2 hf)

/-- A range that is handed out at some point of a run. -/
theorem Good.handed (h : Good vmMaxmmap s) (ha : (va, n) ∈ s.out) :
    Handed vmMaxmmap ∅ va n := by
  rcases h.ready with rfl | hr
  · exact absurd ha (Set.notMem_empty _)
  · obtain ⟨ty, _, hm⟩ := (hr.mapped.out _ _).1 ha
    obtain ⟨hsz, hlo, hhi⟩ := hr.mapped.inside hm
    obtain ⟨hmod, hsmod⟩ := h.paged _ ha
    exact ⟨hsz, hlo, hhi, hmod, hsmod, Set.notMem_empty _⟩

theorem Good.step (rb : Rb) (hR : Region vmMaxmmap) (h : Good vmMaxmmap s)
    (hs : Step rb vmMaxmmap s op s') : Good vmMaxmmap s' := by
  obtain ⟨ha, r, hex⟩ := hs
  cases op with
  | alloc n ty =>
      obtain ⟨hpos, hlt, hty⟩ := ha
      rcases Nat.lt_or_ge (2 ^ 32 - pageSize) n with hf | hf
      · rw [h.alloc_error rb hR hlt hf hty] at hex
        cases hex
      · obtain ⟨r', t, hex', hg, _⟩ := h.alloc rb hR hpos hf hty
        rw [hex'] at hex
        cases hex
        exact hg
  | free va n =>
      obtain ⟨t, hex', hg, _⟩ := h.free rb hR ha
      rw [hex'] at hex
      cases hex
      exact hg

/-- Every state of a run is in order. -/
theorem Good.run (hR : Region vmMaxmmap) (hr : Run (Step rb vmMaxmmap) State.init ops s) :
    Good vmMaxmmap s :=
  hr.invariant (I := Good vmMaxmmap) (fun _ _ _ h hs ↦ h.step rb hR hs)
    ⟨.inl rfl, fun _ hp ↦ absurd hp (Set.notMem_empty _)⟩

/-- What is said of each outcome of a call is said of the one that it has. -/
theorem forall_exec_iff {v : State} {C : Nat → Prop}
    (hex : exec rb vmMaxmmap s op = .ok (va, v)) :
    (∀ va' v', exec rb vmMaxmmap s op = .ok (va', v') → C va') ↔ C va := by
  refine ⟨fun h ↦ h va v hex, fun h va' v' hex' ↦ ?_⟩
  rw [hex] at hex'
  cases hex'
  exact h

/-- A process that has mapped nothing yet. -/
def emptySpace : Space := ⟨State.init, fun _ ↦ none⟩

end Mh.Mrg
