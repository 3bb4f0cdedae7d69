import Mh.Bus.Apertures

/-!
# Copying from and to the memory of a client

`xcopy_from` and `xcopy_to` of `src/xcopy.c`, which `SYS_READ` and `SYS_WRITE` end in: a loop
over the pages of the client, each of which is mapped for one copy.  What it touches is
listed, with the way it ends: `pmap_hmap` asserts that it is asked for a user address.

The test that `usrdev_read` and `usrdev_write` make first compares the sum of address and
size as a 32-bit word.  When the sum does not fit, the word can lie in the aperture again
while the bytes between do not, and the loop goes on until it leaves the user range
(`apertures_safe`).
-/

namespace Mh.Bus

open Mh.Lib

/-! ## The loop -/

/-- One round of the loop: which bytes it copies of the client and of the caller, and whether
those of the client are the ones that are written. -/
structure Chunk where
  write : Bool
  xva : Nat
  va : Nat
  len : Nat
deriving DecidableEq, Repr

/-- How the loop ends: with everything copied, with the fault of a copy, or with the
assertion that the page of the client is a user page. -/
inductive XcopyEnd
  | done
  | fault
  | uaddr
deriving DecidableEq, Repr

/-- The loop of `xcopy_from` and `xcopy_to`, which differ in the direction of the copy: what
is copied, and how it ends.  `__usrcpy` checks the address of the caller; `fault` tells where
the copy of a round faults, part of which may then be done. -/
def xcopy (write : Bool) (fault : Nat → Bool) (va xva sz : Nat) : List Chunk × XcopyEnd :=
  if sz = 0 then ([], .done)
  else
    let todo := min sz (pageSize - xva % pageSize)
    if !isuaddr xva then ([], .uaddr)
    else if !chkuaddr va todo then ([], .fault)
    else if fault va then ([⟨write, xva, va, todo⟩], .fault)
    else
      let (cs, e) := xcopy write fault (w32 (va + todo)) (w32 (xva + todo)) (sz - todo)
      (⟨write, xva, va, todo⟩ :: cs, e)
termination_by sz
decreasing_by
  have hpos : 0 < pageSize := pageSize_pos
  have hmod : xva % pageSize < pageSize := Nat.mod_lt _ hpos
  omega

/-- `xcopy_from`. -/
def xcopyFrom : (Nat → Bool) → Nat → Nat → Nat → List Chunk × XcopyEnd := xcopy false

/-- `xcopy_to`. -/
def xcopyTo : (Nat → Bool) → Nat → Nat → Nat → List Chunk × XcopyEnd := xcopy true

/-- A copy that touches the aperture of the client and the user range of the caller only,
and does not meet the assertion. -/
structure Apert.Safe (ap : Apert) (r : List Chunk × XcopyEnd) : Prop where
  uaddr : r.2 ≠ .uaddr
  remote : ∀ c ∈ r.1, ap.va ≤ c.xva ∧ c.xva + c.len ≤ ap.va + ap.sz
  caller : ∀ c ∈ r.1, userBase ≤ c.va ∧ c.va + c.len ≤ userEnd

/-- An aperture in the user range. -/
structure Apert.User (ap : Apert) : Prop where
  base : userBase ≤ ap.va
  pos : 0 < ap.sz
  limit : ap.va + ap.sz ≤ userEnd

/-! ## Ranges -/

/-- One round is as long as there is to copy, and ends with the page at most. -/
theorem todo_le (xva : Nat) {sz : Nat} (hsz : sz ≠ 0) : 0 < min sz (pageSize - xva % pageSize) ∧
    min sz (pageSize - xva % pageSize) ≤ sz ∧
    min sz (pageSize - xva % pageSize) ≤ pageSize := by
  have hpos : 0 < pageSize := pageSize_pos
  have hmod : xva % pageSize < pageSize := Nat.mod_lt _ hpos
  omega

/-- From inside an aperture the loop stays there. -/
theorem xcopy_safe {ap : Apert} (hap : ap.User) (write : Bool) (fault : Nat → Bool)
    (va xva sz : Nat) (hxva : ap.va ≤ xva) (hend : xva + sz ≤ ap.va + ap.sz) :
    ap.Safe (xcopy write fault va xva sz) := by
  induction sz using Nat.strong_induction_on generalizing va xva with
  | _ sz ih =>
    have hlimit := hap.limit
    have hbase := hap.base
    rw [userEnd_eq] at hlimit
    rw [xcopy]
    split
    · exact ⟨by simp, by simp, by simp⟩
    · next hsz =>
      obtain ⟨hpos, hle, hpage⟩ := todo_le xva hsz
      set todo := min sz (pageSize - xva % pageSize)
      have hux : isuaddr xva = true := by
        rw [userBase_eq] at hbase
        rw [isuaddr_iff]
        omega
      dsimp only
      rw [hux]
      split
      · next h => cases h
      · split
        · exact ⟨by simp, by simp, by simp⟩
        · next hva =>
          have hpg := pageSize_eq
          have hchk : chkuaddr va todo := by simpa using hva
          obtain ⟨hv, -, hve⟩ := range_of_chkuaddr (by omega) hchk
          have hrem : ap.va ≤ xva ∧ xva + todo ≤ ap.va + ap.sz := by omega
          split
          · refine ⟨by simp, ?_, ?_⟩
            · simpa using hrem
            · simpa using ⟨hv, hve⟩
          · have hw : w32 (xva + todo) = xva + todo := Nat.mod_eq_of_lt (by omega)
            have hrest := ih (sz - todo) (by omega) (w32 (va + todo)) (xva + todo) (by omega)
              (by omega)
            rw [hw]
            refine ⟨hrest.uaddr, fun c hc ↦ ?_, fun c hc ↦ ?_⟩
            · rcases List.mem_cons.1 hc with rfl | hc
              · exact hrem
              · exact hrest.remote c hc
            · rcases List.mem_cons.1 hc with rfl | hc
              · exact ⟨hv, hve⟩
              · exact hrest.caller c hc

/-- A loop that is to run over the end of the address space meets the assertion, if no copy
faults before. -/
theorem xcopy_uaddr (write : Bool) (va xva sz : Nat) (hva : userBase ≤ va) (hle : va ≤ xva)
    (hxva : xva ≤ userEnd) (hwrap : 2 ^ 32 ≤ xva + sz) :
    (xcopy write (fun _ ↦ false) va xva sz).2 = .uaddr := by
  induction sz using Nat.strong_induction_on generalizing va xva with
  | _ sz ih =>
    have hpg := pageSize_eq
    rw [userEnd_eq] at hxva
    have hsz : sz ≠ 0 := by omega
    rw [xcopy, if_neg hsz]
    dsimp only
    by_cases hux : isuaddr xva = true
    · -- the rest of the page ends in the user range, so the round copies all of it
      have hlt : xva < 3212836864 := (isuaddr_iff.1 hux).2
      have hend : xva + (pageSize - xva % pageSize) ≤ 3212836864 := by
        rw [hpg]
        omega
      have hmod : xva % pageSize < pageSize := Nat.mod_lt _ (by decide)
      have htodo : min sz (pageSize - xva % pageSize) = pageSize - xva % pageSize := by omega
      rw [htodo]
      set todo := pageSize - xva % pageSize
      have hchk : chkuaddr va todo = true := by
        refine chkuaddr_of_range hva (by omega) ?_
        rw [userEnd_eq]
        omega
      have hw : w32 (xva + todo) = xva + todo := Nat.mod_eq_of_lt (by omega)
      have hwv : w32 (va + todo) = va + todo := Nat.mod_eq_of_lt (by omega)
      rw [hux, hchk, hw, hwv]
      refine ih (sz - todo) (by omega) (va + todo) (xva + todo) (by omega) (by omega) ?_ (by omega)
      rw [userEnd_eq]
      omega
    · rw [Bool.eq_false_of_not_eq_true hux]
      rfl

/-! ## Calls that are not rejected -/

/-- The aperture that a `SYS_READ` or `SYS_WRITE` is let through for: its device, and its
place in the table of the client. -/
def State.granted (s : State) (cur did id iova sz va : Nat) : Option (Nat × Nat) :=
  if !chkuaddr (truncPage va) sz then none
  else if maxDevs ≤ did then none
  else
    match s.usrdevs (cur, did) with
    | none => none
    | some d =>
      if maxUsrdevRems ≤ id then none
      else if !((s.usr d).remths id).use then none
      else (s.findApert d id iova sz).map fun i ↦ (d, i)

/-- A call that is let through returns what the copy returns; any other fails, whatever that
would be. -/
theorem State.sysXcopy_granted (s : State) (cur did id iova sz va : Nat) :
    (s.granted cur did id iova sz va ≠ none ∧
      ∀ x, s.sysXcopy cur did id iova sz va x = .ok (x, s)) ∨
    (s.granted cur did id iova sz va = none ∧
      ∃ e : Errno, ∀ x, s.sysXcopy cur did id iova sz va x = .ok (e.neg, s)) := by
  unfold granted sysXcopy withUsrdev usrdevXcopy
  by_cases hva : (!chkuaddr (truncPage va) sz) = true
  · simp only [if_pos hva]
    exact .inr ⟨trivial, .EINVAL, fun _ ↦ rfl⟩
  simp only [if_neg hva]
  by_cases hdid : maxDevs ≤ did
  · simp only [if_pos hdid]
    exact .inr ⟨trivial, .EINVAL, fun _ ↦ rfl⟩
  simp only [if_neg hdid]
  cases hd : s.usrdevs (cur, did) with
  | none => exact .inr ⟨rfl, .ENOENT, fun _ ↦ rfl⟩
  | some d =>
      dsimp only
      by_cases hid : maxUsrdevRems ≤ id
      · simp only [if_pos hid]
        exact .inr ⟨trivial, .EINVAL, fun _ ↦ rfl⟩
      simp only [if_neg hid]
      by_cases hu : (!((s.usr d).remths id).use) = true
      · simp only [if_pos hu]
        exact .inr ⟨trivial, .ENOENT, fun _ ↦ rfl⟩
      simp only [if_neg hu]
      cases hi : s.findApert d id iova sz with
      | none => exact .inr ⟨rfl, .EINVAL, fun _ ↦ rfl⟩
      | some i => exact .inl ⟨by simp, fun _ ↦ rfl⟩

/-- The arguments of an export are words. -/
def Label.Words : Label → Prop
  | .call _ (.exportDev _ va sz _ _ _ _) => va < 2 ^ 32 ∧ sz < 2 ^ 32
  | _ => True

/-- What a client has exported lies in the user range. -/
theorem Exported.user {s₀ s : State} {as : List Label} {d id i t : Nat} {ap : Apert}
    (h : Exported s₀ as s d id i t ap) (hw : ∀ a ∈ as, a.Words) : ap.User := by
  obtain ⟨as₁, a, as₂, s₁, s₂, rfl, -, -, ⟨t', dd, p, w, ph, f, rfl, hchk, -⟩, -⟩ := h
  have hword : (Label.call t' (.exportDev dd ap.va ap.sz p w ph f)).Words := hw _ (by simp)
  obtain ⟨hbase, hpos, hlimit⟩ := range_of_chkuaddr hword.2 hchk
  exact ⟨hbase, hpos, hlimit⟩

/-- What a call that is let through has passed. -/
theorem granted_ok {s : State} {cur did id iova sz va d i : Nat} (hsz : sz < 2 ^ 32)
    (h : s.granted cur did id iova sz va = some (d, i)) :
    let ap := ((s.usr d).remths id).apertbl i
    userBase ≤ truncPage va ∧ 0 < sz ∧ truncPage va + sz ≤ userEnd ∧ i < maxUsrdevAperts ∧
      ap.va ≤ iova ∧ iova ≤ w32 (ap.va + ap.sz) ∧ ap.va ≤ w32 (iova + sz) ∧
      w32 (iova + sz) ≤ w32 (ap.va + ap.sz) := by
  unfold State.granted at h
  split at h
  · cases h
  next hva =>
  split at h
  · cases h
  split at h
  · cases h
  split at h
  · cases h
  split at h
  · cases h
  obtain ⟨i', hi, hd⟩ := Option.map_eq_some_iff.1 h
  cases hd
  have htest := List.find?_some hi
  have hlt := List.mem_range.1 (List.mem_of_find?_eq_some hi)
  simp only [Bool.and_eq_true, decide_eq_true_eq] at htest
  have hchk : chkuaddr (truncPage va) sz := by simpa using hva
  obtain ⟨hbase, hpos, hlimit⟩ := range_of_chkuaddr hsz hchk
  exact ⟨hbase, hpos, hlimit, hlt, htest.1.1.1, htest.1.1.2, htest.1.2, htest.2⟩

/-! ## The result -/

/-- In every run, an id that is opened or cloned starts without apertures; and a `SYS_READ`
or `SYS_WRITE` that is not rejected keeps to one aperture that the holder of the id has
exported and to the user range of its caller, and passes the assertion of `pmap_hmap`,
wherever its copies fault, just when the sum of `iova` and the size is a word. -/
theorem apertures_safe {plt sys klog : Nat} {as : List Label} {s : State}
    (h : Run Step (State.boot plt sys klog) as s) (hw : ∀ a ∈ as, a.Words) :
    (∀ a s' d id, Step s a s' → ((s.usr d).remths id).use = false →
      ∀ i < maxUsrdevAperts, ((s'.usr d).remths id).apertbl i = ⟨0, 0⟩) ∧
    ∀ cur did id iova sz va d i, iova < 2 ^ 32 → sz < 2 ^ 32 →
      s.granted cur did id iova sz va = some (d, i) →
      (iova + sz < 2 ^ 32 ↔ ∃ t ap, Exported (State.boot plt sys klog) as s d id i t ap ∧
        ∀ fault, ap.Safe (xcopyFrom fault va iova sz) ∧ ap.Safe (xcopyTo fault va iova sz)) := by
  refine ⟨fun a s' d id hs hidle ↦ apertures_fresh h hs hidle, ?_⟩
  intro cur did id iova sz va d i hiova hsz hg
  obtain ⟨hbase, hpos, hlimit, hi, htest⟩ := granted_ok hsz hg
  constructor
  · intro hsum
    have hne : ((s.usr d).remths id).apertbl i ≠ ⟨0, 0⟩ := by
      intro h₀
      have hword : w32 (iova + sz) = iova + sz := Nat.mod_eq_of_lt hsum
      rw [h₀, hword] at htest
      have hzero : w32 (0 + 0) = 0 := by decide
      rw [hzero] at htest
      omega
    obtain ⟨t, ht⟩ := (apertures_exported h).2 d id i hi hne
    have hap := ht.user hw
    have hend : iova + sz ≤ (((s.usr d).remths id).apertbl i).va +
        (((s.usr d).remths id).apertbl i).sz := by
      have hle := htest.2.2.2
      have hword : w32 (iova + sz) = iova + sz := Nat.mod_eq_of_lt hsum
      rw [hword] at hle
      exact hle.trans (Nat.mod_le _ _)
    exact ⟨t, _, ht, fun fault ↦ ⟨xcopy_safe hap _ fault va iova sz htest.1 hend,
      xcopy_safe hap _ fault va iova sz htest.1 hend⟩⟩
  · rintro ⟨t, ap, ht, hsafe⟩
    by_contra hsum
    have hap := ht.user hw
    rw [ht.holds.apert] at htest
    have hlim := hap.limit
    have hlow := hap.base
    rw [userBase_eq] at hlow
    rw [userEnd_eq] at hlim hlimit
    have hword : w32 (ap.va + ap.sz) = ap.va + ap.sz := Nat.mod_eq_of_lt (by omega)
    rw [hword] at htest
    have hpage : truncPage va ≤ va ∧ va < truncPage va + 2097152 := by
      simp only [truncPage, pageSize, pageShift]
      omega
    refine (hsafe fun _ ↦ false).1.uaddr ?_
    refine xcopy_uaddr false va iova sz (hbase.trans hpage.1) (by omega) ?_ (by omega)
    rw [userEnd_eq]
    omega

/-- `init` creates a user device, opens it and exports its memory to it. -/
def exportRun (sz : Nat) : List Label :=
  [.call 1 (.creat 7 ⟨0, 0, 0, fun _ ↦ 0⟩ 1 0o100), .call 1 (.openDev 7),
    .call 1 (.exportDev 0 0x200000 sz 0x200000 0 none false)]

theorem exportRun_words {sz : Nat} (hsz : sz < 2 ^ 32) : ∀ a ∈ exportRun sz, a.Words := by
  intro a ha
  simp only [exportRun, List.mem_cons, List.not_mem_nil, or_false] at ha
  rcases ha with rfl | rfl | rfl
  · trivial
  · trivial
  · exact ⟨by decide, hsz⟩

/-- Then it reads 16 bytes through the device. -/
theorem apertures_safe_read : ∃ s t ap, Run Step (State.boot 1 2 3) (exportRun 0x400000) s ∧
    s.granted 1 0 0 0x3ffff8 16 0x200000 = some (3, 0) ∧
    Exported (State.boot 1 2 3) (exportRun 0x400000) s 3 0 0 t ap ∧
    ∀ fault, ap.Safe (xcopyFrom fault 0x200000 0x3ffff8 16) := by
  have h : Run Step (State.boot 1 2 3) (exportRun 0x400000) _ :=
    .cons ⟨rfl, rfl⟩ (.cons ⟨rfl, rfl⟩ (.cons ⟨rfl, rfl⟩ (.nil _)))
  obtain ⟨t, ap, hexp, hsafe⟩ :=
    ((apertures_safe h (exportRun_words (by decide))).2 1 0 0 0x3ffff8 16 0x200000 3 0
      (by decide) (by decide) rfl).1 (by decide)
  exact ⟨_, t, ap, h, rfl, hexp, fun fault ↦ (hsafe fault).1⟩

/-- In general it does not: all of the user range is exported, and from its end on as much is
read as leads back to its start, which meets the assertion at once. -/
theorem apertures_unsafe : ¬∀ (as : List Label) (s : State) (cur did id iova sz va d i : Nat),
    Run Step (State.boot 1 2 3) as s → (∀ a ∈ as, a.Words) → iova < 2 ^ 32 → sz < 2 ^ 32 →
    s.granted cur did id iova sz va = some (d, i) →
    ∃ t ap, Exported (State.boot 1 2 3) as s d id i t ap ∧
      ∀ fault, ap.Safe (xcopyFrom fault va iova sz) ∧ ap.Safe (xcopyTo fault va iova sz) := by
  intro hall
  have h : Run Step (State.boot 1 2 3) (exportRun (userEnd - userBase)) _ :=
    .cons ⟨rfl, rfl⟩ (.cons ⟨rfl, rfl⟩ (.cons ⟨rfl, rfl⟩ (.nil _)))
  obtain ⟨t, ap, -, hsafe⟩ := hall _ _ 1 0 0 userEnd (2 ^ 32 - userEnd + userBase) userBase 3 0 h
    (exportRun_words (by decide)) (by decide) (by decide) rfl
  refine (hsafe fun _ ↦ false).1.uaddr ?_
  rw [xcopyFrom, xcopy, if_neg (by decide)]
  rfl

end Mh.Bus
