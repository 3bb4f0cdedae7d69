import Mh.Rump.Waits

/-!
# Somebody is on the way

A lock that nobody holds is not left to its waiters alone: a thread that is not on its list is
going to try it again (`Rescuer`).

For a mutex this is so when `hyp_backend_unschedule` does not give way in `rumpuser_mutex_enter`
(`Steady`), which has found the mutex taken and does not look again before it sleeps.
`rumpuser_rw_enter` looks again, and for a read/write lock it is enough that the threads that
write are somebody (`Known`).
-/

namespace Mh.Rump

open Mh.Lib (Run)

/-- What a thread goes on with when it has waited: it tries again. -/
def Waithead.back : Waithead → Option Instr
  | .mtx m => some (.mutexLoop m)
  | .wwait r => some (.rwLoop .writer r)
  | .rwait r => some (.rwLoop .reader r)
  | .cv _ => none

/-- After a wait comes what it waits for; the lists of a read/write lock are left to
`rumpuser_rw_enter`. -/
def Follows : Instr → List Instr → Prop
  | .wait (.mtx m), is => .mutexLoop m ∈ is
  | .wait (.wwait _), _ | .wait (.rwait _), _ => False
  | .waiting h, is => ∀ j, h.back = some j → j ∈ is
  | .joinRemove t, is => .joinLoop t ∈ is
  | _, _ => True

/-- After every wait comes what it waits for. -/
def Shaped : List Instr → Prop
  | [] => True
  | i :: is => Follows i is ∧ Shaped is

theorem Follows.append {i : Instr} {is js : List Instr} (h : Follows i is) :
    Follows i (is ++ js) := by
  cases i with
  | wait k =>
      cases k with
      | mtx m => exact List.mem_append_left js h
      | rwait r => exact h
      | wwait r => exact h
      | cv c => trivial
  | waiting k => exact fun j hj ↦ List.mem_append_left js (h j hj)
  | joinRemove t => exact List.mem_append_left js h
  | _ => trivial

theorem Shaped.append {is js : List Instr} (h : Shaped is) (h' : Shaped js) :
    Shaped (is ++ js) := by
  induction is with
  | nil => exact h'
  | cons i is ih => exact ⟨h.1.append, ih h.2⟩

namespace State

variable (s : State)

/-- The thread is not on the list, and is going to try what the list waits for. -/
def Rescuer (h : Waithead) (t : Nat) : Prop :=
  (∃ j ∈ s.todo t, h.back = some j) ∧ t ∉ s.waiters h

/-- A mutex that nobody holds is not left to its waiters alone. -/
def MutexRescued (m : Nat) : Prop :=
  (s.mtx m).v = 0 → s.waiters (.mtx m) ≠ [] → ∃ t, s.Rescuer (.mtx m) t

/-- A read/write lock that nobody writes is not left to its waiters alone: a writer is going to try
it again, or all the readers that wait are being woken. -/
def RwRescued (r : Nat) : Prop :=
  (s.rw r).o = none →
    (s.waiters (.wwait r) ≠ [] → ∃ t, s.Rescuer (.wwait r) t) ∧
    (s.waiters (.wwait r) = [] → s.waiters (.rwait r) ≠ [] →
      (∃ t, s.Rescuer (.wwait r) t) ∨ ∃ t, .wakeupAll (.rwait r) ∈ s.todo t)

/-- `hyp_backend_unschedule` does nothing but return, when `rumpuser_mutex_enter` calls it. -/
def Steady : Op → Prop
  | .switch _ | .call _ | .doze => (s.todo s.current).head? ≠ some (.unsched .mutex)
  | _ => True

/-- A thread that enters a read/write lock as a writer is somebody. -/
def Known : Op → Prop
  | .exec =>
    match s.todo s.current with
    | .rwEnter .writer _ :: _ | .rwLoop .writer _ :: _ | .rwTryenter .writer _ :: _
    | .rwTryupgrade _ :: _ => s.curlwp ≠ none
    | _ => True
  | _ => True

end State

section

variable {s u s' : State} {i : Instr} {is new : List Instr} {op : Op} {h : Waithead} {t m r : Nat}

/-! ## The shape of what there is to do -/

theorem Idle.shaped (hi : Idle s i new) : Shaped new := by
  cases hi with
  | cvResched m =>
      unfold State.cvResched
      split <;> exact ⟨trivial, trivial, trivial⟩
  | mutexLoop m hm => exact ⟨trivial, by simp [Follows], trivial, trivial, trivial⟩
  | _ => simp [Shaped, Follows]

/-- What comes in the place of an instruction has the shape. -/
theorem Exec.shaped (he : Exec s i u new) (hs : Shaped (i :: is)) : Shaped (new ++ is) := by
  cases he with
  | idle hi => exact hi.shaped.append hs.2
  | sleep => exact ⟨trivial, hs.2⟩
  | wait hi =>
      cases hi with
      | wait =>
          rename_i k
          refine ⟨fun j hj ↦ ?_, hs.2⟩
          cases k with
          | mtx m =>
              cases hj
              exact hs.1
          | rwait r => exact hs.1.elim
          | wwait r => exact hs.1.elim
          | cv c => cases hj
      | rwLoop lk r hr =>
          refine ⟨fun j hj ↦ ?_, trivial, hs.2⟩
          cases lk with
          | writer =>
              cases hj
              exact List.mem_cons_self
          | reader =>
              cases hj
              exact List.mem_cons_self
  | pop hi hw =>
      cases hi with
      | wakeupAll => exact ⟨trivial, trivial, trivial, trivial, hs.2⟩
      | cvSignal c => exact ⟨trivial, trivial, trivial, hs.2⟩
      | cvBroadcast c => exact ⟨trivial, trivial, trivial, trivial, hs.2⟩
  | leaveWake hv hw => exact ⟨trivial, trivial, trivial, hs.2⟩
  | rwLeaveOne hw => exact ⟨trivial, trivial, trivial, hs.2⟩
  | rwLeaveAll hn hw => exact ⟨trivial, trivial, trivial, trivial, hs.2⟩
  | count hi =>
      cases hi with
      | cvWait c m => exact ⟨trivial, trivial, trivial, trivial, trivial, hs.2⟩
      | cvWaitNowrap c m => exact ⟨trivial, trivial, trivial, trivial, hs.2⟩
      | cvDone c => exact hs.2
  | exitJoin hm =>
      refine Shaped.append (Shaped.append ?_ ⟨trivial, trivial, trivial, trivial, trivial⟩) hs.2
      cases s.joiner s.current with
      | none => trivial
      | some j => exact ⟨trivial, trivial, trivial, trivial⟩
  | exitGone hm => exact ⟨trivial, trivial, hs.2⟩
  | joinWait hj => exact ⟨trivial, trivial, trivial, List.mem_cons_self, trivial, hs.2⟩
  | joinDone hj => exact ⟨trivial, trivial, trivial, hs.2⟩
  | _ => exact hs.2

theorem Exec.current_eq (he : Exec s i u new) : u.current = s.current := by
  cases he <;> rfl

/-- An instruction leaves what there is to do to the step. -/
theorem Exec.todo_eq (hw : Within s) (he : Exec s i u new) : u.todo = s.todo := by
  cases he with
  | create => exact hw.threadCreate_eq.1
  | _ => rfl

/-- What the threads have to do keeps its shape. -/
theorem Shaped.step (hi : ∀ t, Shaped (s.todo t)) (hw : Within s) (hs : Step s op s') :
    ∀ t, Shaped (s'.todo t) := by
  have set : ∀ {is}, Shaped is → ∀ t, Shaped ((s.setTodo is).todo t) := by
    intro is his t
    rw [State.setTodo_todo rfl rfl]
    split
    · exact his
    · exact hi t
  have rest : ∀ {i is}, s.todo s.current = i :: is → Shaped (i :: is) := fun htodo ↦
    htodo ▸ hi s.current
  cases hs.stepped with
  | exec ha htodo he =>
      rename_i i is new u
      have hx := Exec.of_exec he
      intro t
      rw [State.setTodo_todo hx.current_eq (hx.todo_eq hw)]
      split
      · exact hx.shaped (rest htodo)
      · exact hi t
  | exit ha htodo => exact set trivial
  | ret ha htodo _ => exact set (rest htodo).2
  | call ha ho hc =>
      rename_i i
      refine set ⟨?_, hi s.current⟩
      cases i with
      | wait h => cases hc
      | waiting h => cases hc
      | joinRemove t => cases hc
      | _ => trivial
  | doze ha ho => exact hi
  | switch ht hg => exact hi
  | kick ht => exact hi

/-! ## Who is on the way -/

/-- A thread on the way stays so when the instruction that the current one executes is not what it
was on the way for, and does not put it on the list. -/
theorem State.Rescuer.keep (hr : s.Rescuer h t) (ht : u.todo = s.todo)
    (hc : u.current = s.current) (htodo : s.todo s.current = i :: is) (hi : h.back ≠ some i)
    (hw : ∀ x ∈ u.waiters h, x ∈ s.waiters h) : (u.setTodo (new ++ is)).Rescuer h t := by
  obtain ⟨⟨j, hj, hb⟩, hn⟩ := hr
  refine ⟨⟨j, ?_, hb⟩, fun hm ↦ hn (hw t hm)⟩
  rw [State.setTodo_todo hc ht]
  split
  · rename_i hts
    rw [hts, htodo] at hj
    rcases List.mem_cons.1 hj with rfl | hj
    · exact absurd hb hi
    · exact List.mem_append_right new hj
  · exact hj

/-- A thread that has been taken off the list is on the way. -/
theorem State.Seen.rescuer {w : Nat} {ws : List Nat} (hs : s.Seen) (hsh : ∀ t, Shaped (s.todo t))
    (ha : s.awake s.current = true) (hw : s.waiters h = w :: ws) (hb : h.back ≠ none)
    (ht : u.todo = s.todo) (hc : u.current = s.current) (huw : u.waiters h = ws) :
    (u.setTodo is).Rescuer h w := by
  obtain ⟨j, hj⟩ := Option.ne_none_iff_exists'.1 hb
  have hsl := Mh.Lib.Orderly.listed hs (hw ▸ List.mem_cons_self : w ∈ s.waiters h)
  have hne : w ≠ s.current := by
    rintro rfl
    exact State.not_sleeping ha h hsl
  obtain ⟨is', his'⟩ := List.head?_eq_some_iff.1 hsl.2
  have hsh' := hsh w
  rw [his'] at hsh'
  refine ⟨⟨j, ?_, hj⟩, ?_⟩
  · rw [State.setTodo_todo hc ht, if_neg hne, his']
    exact List.mem_cons_of_mem _ (hsh'.1 j hj)
  · have hnd := Mh.Lib.Orderly.nodup hs h
    rw [hw] at hnd
    show w ∉ u.waiters h
    rw [huw]
    exact (List.nodup_cons.1 hnd).1

/-! ## Mutexes -/

/-- A wait for a mutex that is still to come. -/
def Instr.isMtxWait : Instr → Bool
  | .wait (.mtx _) => true
  | _ => false

/-- The current thread is about to wait for a mutex, which is taken. -/
def State.AboutToWait (s : State) (m : Nat) (is : List Instr) : Prop :=
  s.awake s.current = true ∧ (s.mtx m).v ≠ 0 ∧ is.any Instr.isMtxWait = false ∧
    (s.todo s.current = .unsched .mutex :: .wait (.mtx m) :: is ∨
      s.todo s.current = .wait (.mtx m) :: is)

/-- What holds of the mutexes in a steady run. -/
structure MutexWay (s : State) : Prop where
  nonneg : ∀ m, 0 ≤ (s.mtx m).v
  clear : ∀ t, t ≠ s.current → (s.todo t).any Instr.isMtxWait = false
  current : (s.todo s.current).any Instr.isMtxWait = false ∨ ∃ m is, s.AboutToWait m is
  rescued : ∀ m, s.MutexRescued m

theorem Idle.isMtxWait (hi : Idle s i new) :
    new.any Instr.isMtxWait = false ∨ ∃ m, i = .mutexLoop m ∧ (s.mtx m).tryenter s.current = none ∧
      new = [.unsched .mutex, .wait (.mtx m), .sched .mutex, .mutexLoop m] := by
  cases hi with
  | mutexLoop m hm => exact .inr ⟨m, rfl, hm, rfl⟩
  | cvResched m =>
      unfold State.cvResched
      split <;> exact .inl rfl
  | _ => exact .inl rfl

/-- A wait for a mutex comes from the loop of `rumpuser_mutex_enter`, which has found it taken. -/
theorem Exec.isMtxWait (he : Exec s i u new) :
    new.any Instr.isMtxWait = false ∨ u = s ∧ ∃ m, i = .mutexLoop m ∧
      (s.mtx m).tryenter s.current = none ∧
      new = [.unsched .mutex, .wait (.mtx m), .sched .mutex, .mutexLoop m] := by
  cases he with
  | idle hi => exact hi.isMtxWait.imp_right fun h ↦ ⟨rfl, h⟩
  | wait hi => cases hi <;> exact .inl rfl
  | pop hi hw => cases hi <;> exact .inl rfl
  | count hi => cases hi <;> exact .inl rfl
  | exitJoin hm =>
      refine .inl ?_
      cases s.joiner s.current <;> rfl
  | _ => exact .inl rfl

theorem Mtx.tryenter_v {x y : Mtx} (h : x.tryenter t = some y) : y.v = x.v + 1 := by
  unfold Mtx.tryenter at h
  split at h
  · cases h
  · obtain rfl := Option.some.inj h
    rfl

theorem Mtx.v_ne_zero {x : Mtx} (h : x.tryenter t = none) : x.v ≠ 0 := by
  unfold Mtx.tryenter at h
  split at h
  · rename_i hx
    exact hx.1
  · cases h

theorem Mtx.exit_v (x : Mtx) : x.exit.v = x.v - 1 := by
  unfold Mtx.exit
  split
  · rename_i hx
    exact hx.symm
  · rfl

/-- A mutex is not left more often than it has been entered. -/
theorem Exec.nonneg (he : Exec s i u new) (hn : ∀ m, 0 ≤ (s.mtx m).v) :
    ∀ m, 0 ≤ (u.mtx m).v := by
  have set : ∀ {m y}, 0 ≤ y.v → ∀ m', 0 ≤ (Function.update s.mtx m y m').v := by
    intro m y hy m'
    by_cases hm : m' = m
    · subst hm
      rw [Function.update_self]
      exact hy
    · rw [Function.update_of_ne hm]
      exact hn m'
  cases he with
  | enter hi hy =>
      refine set ?_
      rw [Mtx.tryenter_v hy]
      exact Int.le_add_one (hn _)
  | leave hv hw =>
      refine set ?_
      rw [Mtx.exit_v]
      omega
  | leaveWake hv hw =>
      refine set ?_
      rw [Mtx.exit_v]
      omega
  | _ => exact hn

/-- What an instruction does to a mutex that it leaves free. -/
theorem State.MutexRescued.exec (hr : s.MutexRescued m) (hs : s.Seen)
    (hsh : ∀ t, Shaped (s.todo t)) (ha : s.awake s.current = true) (hn : 0 ≤ (s.mtx m).v)
    (htodo : s.todo s.current = i :: is) (hwait : i = .wait (.mtx m) → (s.mtx m).v ≠ 0)
    (hw : Within s) (he : Exec s i u new) : (u.setTodo (new ++ is)).MutexRescued m := by
  -- the mutex was free before, and somebody on the way is so still
  have keep : (u.mtx m).v = (s.mtx m).v → u.waiters (.mtx m) = s.waiters (.mtx m) →
      i ≠ .mutexLoop m → (u.setTodo (new ++ is)).MutexRescued m := by
    intro hv hl hi hfree hne
    obtain ⟨t, ht⟩ := hr (hv ▸ hfree) (hl ▸ hne)
    refine ⟨t, ht.keep (he.todo_eq hw) he.current_eq htodo ?_ ?_⟩
    · intro hb
      exact hi (Option.some.inj hb).symm
    · rw [hl]
      exact fun x hx ↦ hx
  cases he with
  | idle hi =>
      by_cases hc : i = .mutexLoop m
      · subst hc
        cases hi with
        | mutexLoop m hm => exact fun hfree _ ↦ absurd hfree (Mtx.v_ne_zero hm)
      · exact keep rfl rfl hc
  | sleep => exact keep rfl rfl (by simp)
  | wake ht => exact keep rfl rfl (by simp)
  | wait hi =>
      cases hi with
      | wait =>
          rename_i k
          by_cases hk : k = .mtx m
          · exact fun hfree _ ↦ absurd hfree (hwait (hk ▸ rfl))
          · exact keep rfl (Function.update_of_ne (Ne.symm hk) _ _) (by simp)
      | rwLoop lk r _ =>
          refine keep rfl (Function.update_of_ne ?_ _ _) (by simp)
          cases lk <;> simp [Rwlock.waithead]
  | pop hi hl =>
      rename_i k new w ws
      by_cases hk : k = .mtx m
      · subst hk
        exact fun _ _ ↦
          ⟨w, hs.rescuer hsh ha hl (Option.some_ne_none _) rfl rfl (Function.update_self ..)⟩
      · have hl' := Function.update_of_ne (Ne.symm hk) ws s.waiters
        cases hi <;> exact keep rfl hl' (by simp)
  | enter hi hy =>
      rename_i m' y
      by_cases hm : m' = m
      · subst hm
        intro hfree _
        have hv : (Function.update s.mtx m' y m').v = 0 := hfree
        rw [Function.update_self, Mtx.tryenter_v hy] at hv
        have hn' : 0 ≤ (s.mtx m').v := hn
        have hv' : (s.mtx m').v + 1 = 0 := hv
        omega
      · refine keep (congrArg Mtx.v (Function.update_of_ne (Ne.symm hm) _ _)) rfl ?_
        cases hi with
        | mutexLoop => exact fun hc ↦ hm (Instr.mutexLoop.inj hc)
        | _ => simp
  | leave hv hl =>
      rename_i m'
      by_cases hm : m' = m
      · subst hm
        intro hfree hne
        have hv' : (Function.update s.mtx m' (s.mtx m').exit m').v = 0 := hfree
        rw [Function.update_self, Mtx.exit_v] at hv'
        exact absurd (hl.resolve_left fun hc ↦ hc (by omega)) hne
      · exact keep (congrArg Mtx.v (Function.update_of_ne (Ne.symm hm) _ _)) rfl (by simp)
  | leaveWake hv hl =>
      rename_i m' w ws
      by_cases hm : m' = m
      · subst hm
        exact fun _ _ ↦
          ⟨w, hs.rescuer hsh ha hl (Option.some_ne_none _) rfl rfl (Function.update_self ..)⟩
      · refine keep (congrArg Mtx.v (Function.update_of_ne (Ne.symm hm) _ _)) ?_ (by simp)
        exact Function.update_of_ne (fun hc ↦ hm (Waithead.mtx.inj hc).symm) _ _
  | rwEnterWriter hi ho => cases hi <;> exact keep rfl rfl (by simp)
  | rwEnterReader hi ho hw => cases hi <;> exact keep rfl rfl (by simp)
  | rwLeaveOne hw => exact keep rfl rfl (by simp)
  | rwLeaveAll hn hw => exact keep rfl rfl (by simp)
  | count hi => cases hi <;> exact keep rfl rfl (by simp)
  | _ => exact keep rfl rfl (by simp)

/-- Only the mutex, its list and what there is to do count. -/
theorem State.MutexRescued.congr (hr : s.MutexRescued m) (hv : u.mtx = s.mtx)
    (hl : u.waiters = s.waiters) (ht : u.todo = s.todo) : u.MutexRescued m := by
  unfold State.MutexRescued State.Rescuer
  rw [hv, hl, ht]
  exact hr

/-- The current thread leaves out what is not a try of a mutex. -/
theorem State.MutexRescued.setTodo (hr : s.MutexRescued m)
    (hj : ∀ j, .mutexLoop j ∈ s.todo s.current → .mutexLoop j ∈ is) :
    (s.setTodo is).MutexRescued m := by
  intro hfree hne
  obtain ⟨t, ⟨j, hjt, hb⟩, hn⟩ := hr hfree hne
  refine ⟨t, ⟨j, ?_, hb⟩, hn⟩
  rw [State.setTodo_todo rfl rfl]
  split
  · rename_i hts
    cases hb
    exact hj m (hts ▸ hjt)
  · exact hjt

/-- A thread at large is not about to wait for a mutex, in a steady run. -/
theorem MutexWay.clear_all (h : MutexWay s)
    (hst : (s.todo s.current).head? ≠ some (.unsched .mutex))
    (hg : s.awake s.current = false ∨ givesWay (s.todo s.current) = true) :
    ∀ t, (s.todo t).any Instr.isMtxWait = false := by
  intro t
  by_cases ht : t = s.current
  · subst ht
    refine h.current.resolve_right ?_
    rintro ⟨m, is, ha, -, -, htodo | htodo⟩
    · rw [htodo] at hst
      exact hst rfl
    · rcases hg with hg | hg
      · rw [ha] at hg
        cases hg
      · rw [htodo] at hg
        cases hg
  · exact h.clear t ht

theorem MutexWay.step (h : MutexWay s) (hs : s.Seen) (hsh : ∀ t, Shaped (s.todo t))
    (hw : Within s) (hstep : Step s op s') (hc : s.Calm op) (hst : s.Steady op) :
    MutexWay s' := by
  cases hstep.stepped with
  | exec ha htodo he =>
      rename_i i is new u
      have hx := Exec.of_exec he
      have htd : ∀ t, (u.setTodo (new ++ is)).todo t =
          if t = s.current then new ++ is else s.todo t :=
        State.setTodo_todo hx.current_eq (hx.todo_eq hw)
      -- what is left has no wait for a mutex, and a wait that is executed finds the mutex taken
      have hrest : is.any Instr.isMtxWait = false ∧
          ∀ m, i = .wait (.mtx m) → (s.mtx m).v ≠ 0 := by
        rcases h.current with hcl | ⟨m, is', -, hv, his, htodo' | htodo'⟩
        · rw [htodo, List.any_cons, Bool.or_eq_false_iff] at hcl
          refine ⟨hcl.2, ?_⟩
          rintro m rfl
          cases hcl.1
        · rw [htodo'] at htodo
          cases htodo
          cases he
        · rw [htodo'] at htodo
          cases htodo
          refine ⟨his, fun m' hm' ↦ ?_⟩
          cases hm'
          exact hv
      refine ⟨hx.nonneg h.nonneg, fun t ht ↦ ?_, ?_, fun m ↦ ?_⟩
      · have hne : t ≠ s.current := fun hc' ↦ ht (hc'.trans hx.current_eq.symm)
        rw [htd, if_neg hne]
        exact h.clear t hne
      · have hcur : (u.setTodo (new ++ is)).todo (u.setTodo (new ++ is)).current = new ++ is :=
          State.setTodo_todo_current
        rcases hx.isMtxWait with hnew | ⟨rfl, m, rfl, hm, rfl⟩
        · refine .inl ?_
          rw [hcur, List.any_append, hnew, hrest.1]
          rfl
        · refine .inr ⟨m, .sched .mutex :: .mutexLoop m :: is, ha, Mtx.v_ne_zero hm, ?_, .inl hcur⟩
          exact hrest.1
      · exact (h.rescued m).exec hs hsh ha (h.nonneg m) htodo (hrest.2 m) hw hx
  | exit ha htodo =>
      simp only [State.Calm, htodo] at hc
      subst hc
      refine ⟨h.nonneg, fun t ht ↦ ?_, .inl ?_, fun m ↦ ?_⟩
      · rw [State.setTodo_todo (s := s) (u := s.sleep) rfl rfl, if_neg (show t ≠ s.current from ht)]
        exact h.clear t ht
      · rw [State.setTodo_todo_current]
        rfl
      · refine State.MutexRescued.congr (s := s.setTodo []) ?_ rfl rfl rfl
        refine (h.rescued m).setTodo fun j hj ↦ ?_
        rw [htodo, List.mem_singleton] at hj
        cases hj
  | ret ha htodo hi =>
      rename_i i is
      have hnot : ∀ j, .mutexLoop j ∈ s.todo s.current → .mutexLoop j ∈ is := by
        intro j hj
        rw [htodo, List.mem_cons] at hj
        refine hj.resolve_left fun he ↦ ?_
        obtain ⟨site, hi | hi⟩ := hi <;> rw [hi] at he <;> cases he
      refine ⟨h.nonneg, fun t ht ↦ ?_, ?_, fun m ↦ (h.rescued m).setTodo hnot⟩
      · rw [State.setTodo_todo_of_ne (show t ≠ s.current from ht)]
        exact h.clear t ht
      · rw [State.setTodo_todo_current]
        rcases h.current with hcl | ⟨m, is', -, hv, his, htodo' | htodo'⟩
        · rw [htodo, List.any_cons, Bool.or_eq_false_iff] at hcl
          exact .inl hcl.2
        · rw [htodo'] at htodo
          cases htodo
          exact .inr ⟨m, is', ha, hv, his, .inr State.setTodo_todo_current⟩
        · rw [htodo'] at htodo
          cases htodo
          obtain ⟨site, hi | hi⟩ := hi <;> cases hi
  | call ha ho hi =>
      rename_i i
      have hcl := h.clear_all hst (.inr (by
        unfold givesWay
        split <;> first | rfl | exact ho))
      refine ⟨h.nonneg, fun t ht ↦ ?_, .inl ?_, fun m ↦ (h.rescued m).setTodo fun j hj ↦ ?_⟩
      · rw [State.setTodo_todo_of_ne (show t ≠ s.current from ht)]
        exact h.clear t ht
      · rw [State.setTodo_todo_current, List.any_cons, hcl s.current, Bool.or_false]
        cases i with
        | wait h => cases hi
        | _ => rfl
      · exact List.mem_cons_of_mem _ hj
  | doze ha ho =>
      have hcl := h.clear_all hst (.inr (by
        unfold givesWay
        split <;> first | rfl | exact ho))
      exact ⟨h.nonneg, fun t _ ↦ hcl t, .inl (hcl s.current),
        fun m ↦ (h.rescued m).congr rfl rfl rfl⟩
  | switch ht hg =>
      have hcl := h.clear_all hst hg
      exact ⟨h.nonneg, fun t _ ↦ hcl t, .inl (hcl _), fun m ↦ (h.rescued m).congr rfl rfl rfl⟩
  | kick ht =>
      refine ⟨h.nonneg, h.clear, h.current.imp_right ?_, fun m ↦ (h.rescued m).congr rfl rfl rfl⟩
      rintro ⟨m, is, ha, hv, his, htodo⟩
      refine ⟨m, is, ?_, hv, his, htodo⟩
      show Function.update s.awake _ true s.current = true
      rw [Function.update_apply]
      split
      · rfl
      · exact ha

theorem MutexWay.init (kspin : Nat → Bool) : MutexWay (State.init kspin) :=
  ⟨fun _ ↦ Int.le_refl _, fun _ _ ↦ rfl, .inl rfl, fun _ _ hne ↦ absurd rfl hne⟩

end

/-- In every state of a calm and steady run from the start, a mutex that nobody holds is not left
to its waiters alone: a thread that is not among them is going to try it again. -/
theorem mutex_rescued_run {kspin : Nat → Bool} {ops : List Op} {s : State}
    (h : Run (fun s op s' ↦ Step s op s' ∧ s.Calm op ∧ s.Steady op) (State.init kspin) ops s)
    {m : Nat} (hfree : (s.mtx m).v = 0) (hne : s.waiters (.mtx m) ≠ []) :
    ∃ t, .mutexLoop m ∈ s.todo t ∧ t ∉ s.waiters (.mtx m) := by
  have hI := h.invariant
    (I := fun s ↦ Within s ∧ s.Seen ∧ (∀ t, Shaped (s.todo t)) ∧ MutexWay s)
    (fun _ _ _ hI hs ↦ ⟨hI.1.step hs.1, hI.2.1.step hI.1 hs.1 hs.2.1,
      Shaped.step hI.2.2.1 hI.1 hs.1, hI.2.2.2.step hI.2.1 hI.2.2.1 hI.1 hs.1 hs.2.1 hs.2.2⟩)
    ⟨Within.init kspin, State.Seen.init kspin, fun _ ↦ trivial, MutexWay.init kspin⟩
  obtain ⟨t, ⟨j, hj, hb⟩, hn⟩ := hI.2.2.2.rescued m hfree hne
  cases hb
  exact ⟨t, hj, hn⟩

/-- Two threads wait for a mutex.  When it has been left, one of them is not on the list any more,
and is going to try it. -/
theorem mutex_rescued_run_two : ∃ s : State,
    Run (fun s op s' ↦ Step s op s' ∧ s.Calm op ∧ s.Steady op) (State.init fun _ ↦ false)
      [.call (.threadCreate false), .exec, .kick 1, .call (.threadCreate false), .exec, .kick 2,
        .call (.mutexEnter 0), .exec,
        .switch 1, .call (.mutexEnter 0), .exec, .exec, .ret, .exec,
        .switch 2, .call (.mutexEnter 0), .exec, .exec, .ret, .exec,
        .switch 0, .call (.mutexExit 0), .exec] s ∧
    s.waiters (.mtx 0) = [2] ∧ ∃ t, .mutexLoop 0 ∈ s.todo t ∧ t ∉ s.waiters (.mtx 0) := by
  have hout : (none : Option Instr) ≠ some (.unsched .mutex) := by decide
  have hwait : some (Instr.waiting (.mtx 0)) ≠ some (.unsched .mutex) := by decide
  have h : Run (fun s op s' ↦ Step s op s' ∧ s.Calm op ∧ s.Steady op) (State.init fun _ ↦ false)
      [.call (.threadCreate false), .exec, .kick 1, .call (.threadCreate false), .exec, .kick 2,
        .call (.mutexEnter 0), .exec,
        .switch 1, .call (.mutexEnter 0), .exec, .exec, .ret, .exec,
        .switch 2, .call (.mutexEnter 0), .exec, .exec, .ret, .exec,
        .switch 0, .call (.mutexExit 0), .exec] _ :=
    .cons ⟨rfl, trivial, hout⟩ <| .cons ⟨rfl, trivial, trivial⟩ <|
      .cons ⟨rfl, (fun _ hs ↦ by cases hs.2), trivial⟩ <|
      .cons ⟨rfl, trivial, hout⟩ <| .cons ⟨rfl, trivial, trivial⟩ <|
      .cons ⟨rfl, (fun _ hs ↦ by cases hs.2), trivial⟩ <|
      .cons ⟨rfl, trivial, hout⟩ <| .cons ⟨rfl, trivial, trivial⟩ <|
      .cons ⟨rfl, trivial, hout⟩ <| .cons ⟨rfl, trivial, hout⟩ <|
      .cons ⟨rfl, trivial, trivial⟩ <| .cons ⟨rfl, trivial, trivial⟩ <|
      .cons ⟨rfl, trivial, trivial⟩ <| .cons ⟨rfl, trivial, trivial⟩ <|
      .cons ⟨rfl, trivial, hwait⟩ <| .cons ⟨rfl, trivial, hout⟩ <|
      .cons ⟨rfl, trivial, trivial⟩ <| .cons ⟨rfl, trivial, trivial⟩ <|
      .cons ⟨rfl, trivial, trivial⟩ <| .cons ⟨rfl, trivial, trivial⟩ <|
      .cons ⟨rfl, trivial, hwait⟩ <| .cons ⟨rfl, trivial, hout⟩ <|
      .cons ⟨rfl, trivial, trivial⟩ (.nil _)
  exact ⟨_, h, rfl, mutex_rescued_run h rfl (List.cons_ne_nil _ _)⟩

/-! ## Read/write locks -/

section

variable {s u s' : State} {i : Instr} {is new : List Instr} {op : Op} {r : Nat}

theorem RwEnters.known (hi : RwEnters i .writer r) (htodo : s.todo s.current = i :: is) :
    s.Known .exec ↔ s.curlwp ≠ none := by
  cases hi with
  | rwEnter => simp only [State.Known, htodo]
  | rwLoop => simp only [State.Known, htodo]
  | rwTryenter => simp only [State.Known, htodo]

/-- What an instruction does to a read/write lock that it leaves without a writer. -/
theorem State.RwRescued.exec (hr : s.RwRescued r) (hs : s.Seen)
    (hsh : ∀ t, Shaped (s.todo t)) (ha : s.awake s.current = true)
    (htodo : s.todo s.current = i :: is) (hk : s.Known .exec) (hw : Within s)
    (he : Exec s i u new) : (u.setTodo (new ++ is)).RwRescued r := by
  have htd : ∀ t, (u.setTodo (new ++ is)).todo t =
      if t = s.current then new ++ is else s.todo t :=
    State.setTodo_todo he.current_eq (he.todo_eq hw)
  -- a writer on the way is so still
  have writer : u.waiters (.wwait r) = s.waiters (.wwait r) → i ≠ .rwLoop .writer r →
      (∃ t, s.Rescuer (.wwait r) t) → ∃ t, (u.setTodo (new ++ is)).Rescuer (.wwait r) t := by
    rintro hl hi ⟨t, ht⟩
    refine ⟨t, ht.keep (he.todo_eq hw) he.current_eq htodo ?_ ?_⟩
    · intro hb
      exact hi (Option.some.inj hb).symm
    · rw [hl]
      exact fun x hx ↦ hx
  -- nothing happens to the lock
  have keep : (u.rw r).o = (s.rw r).o → u.waiters (.wwait r) = s.waiters (.wwait r) →
      u.waiters (.rwait r) = s.waiters (.rwait r) → i ≠ .rwLoop .writer r →
      i ≠ .wakeupAll (.rwait r) → (u.setTodo (new ++ is)).RwRescued r := by
    intro ho hlw hlr hi hi' hfree
    obtain ⟨h1, h2⟩ := hr (ho ▸ hfree)
    refine ⟨fun hne ↦ writer hlw hi (h1 (hlw ▸ hne)), fun hnil hne ↦ ?_⟩
    rcases h2 (hlw ▸ hnil) (hlr ▸ hne) with hr | ⟨t, ht⟩
    · exact .inl (writer hlw hi hr)
    · refine .inr ⟨t, ?_⟩
      rw [htd]
      split
      · rename_i hts
        rw [hts, htodo, List.mem_cons] at ht
        exact List.mem_append_right new (ht.resolve_left fun hc ↦ hi' hc.symm)
      · exact ht
  have update_o : ∀ {r' : Nat} {y : Rw}, r' ≠ r →
      (Function.update s.rw r' y r).o = (s.rw r).o := fun hne ↦
    congrArg Rw.o (Function.update_of_ne (Ne.symm hne) _ _)
  cases he with
  | idle hi =>
      cases hi with
      | wakeupAll k hl =>
          by_cases hc : k = .rwait r
          · subst hc
            intro hfree
            obtain ⟨h1, -⟩ := hr hfree
            exact ⟨fun hne ↦ writer rfl (by simp) (h1 hne), fun _ hne ↦ absurd hl hne⟩
          · exact keep rfl rfl rfl (by simp) fun hcc ↦ hc (Instr.wakeupAll.inj hcc)
      | _ => exact keep rfl rfl rfl (by simp) (by simp)
  | wait hi =>
      cases hi with
      | wait =>
          rename_i k
          have hf := hsh s.current
          rw [htodo] at hf
          cases k with
          | mtx m => exact keep rfl rfl rfl (by simp) (by simp)
          | cv c => exact keep rfl rfl rfl (by simp) (by simp)
          | rwait r' => exact hf.1.elim
          | wwait r' => exact hf.1.elim
      | rwLoop lk r' hn =>
          by_cases hrr : r' = r
          · subst hrr
            intro hfree
            have ho : (s.rw r').o = none := hfree
            cases lk with
            | writer =>
                rw [State.rwTryenter, if_pos ho] at hn
                cases hn
            | reader =>
                have hne : s.waiters (.wwait r') ≠ [] := fun hnil ↦ by
                  rw [State.rwTryenter, if_pos ⟨ho, hnil⟩] at hn
                  cases hn
                exact ⟨fun _ ↦ writer rfl (by simp) ((hr ho).1 hne), fun hnil ↦ absurd hnil hne⟩
          · cases lk with
            | writer =>
                refine keep rfl (Function.update_of_ne ?_ _ _) rfl ?_ (by simp)
                · exact fun hc ↦ hrr (Waithead.wwait.inj hc).symm
                · exact fun hc ↦ hrr (Instr.rwLoop.inj hc).2
            | reader =>
                refine keep rfl rfl (Function.update_of_ne ?_ _ _) (by simp) (by simp)
                exact fun hc ↦ hrr (Waithead.rwait.inj hc).symm
  | pop hi hl =>
      rename_i k new w ws
      by_cases hkw : k = .wwait r
      · subst hkw
        refine fun _ ↦ ⟨fun _ ↦ ⟨w, ?_⟩, fun _ _ ↦ .inl ⟨w, ?_⟩⟩
        · exact hs.rescuer hsh ha hl (Option.some_ne_none _) rfl rfl (Function.update_self ..)
        · exact hs.rescuer hsh ha hl (Option.some_ne_none _) rfl rfl (Function.update_self ..)
      · have hlw := Function.update_of_ne (Ne.symm hkw) ws s.waiters
        by_cases hkr : k = .rwait r
        · subst hkr
          intro hfree
          obtain ⟨h1, -⟩ := hr hfree
          cases hi with
          | wakeupAll =>
              refine ⟨fun hne ↦ writer hlw (by simp) (h1 (hlw ▸ hne)),
                fun _ _ ↦ .inr ⟨s.current, ?_⟩⟩
              rw [htd, if_pos rfl]
              simp
        · have hlr := Function.update_of_ne (Ne.symm hkr) ws s.waiters
          cases hi with
          | wakeupAll =>
              exact keep rfl hlw hlr (by simp) fun hc ↦ hkr (Instr.wakeupAll.inj hc)
          | cvSignal c => exact keep rfl hlw hlr (by simp) (by simp)
          | cvBroadcast c => exact keep rfl hlw hlr (by simp) (by simp)
  | enter hi hy => cases hi <;> exact keep rfl rfl rfl (by simp) (by simp)
  | rwEnterWriter hi ho =>
      rename_i r'
      by_cases hrr : r' = r
      · subst hrr
        intro hfree
        have ho' : (Function.update s.rw r' { s.rw r' with o := s.curlwp } r').o = none := hfree
        rw [Function.update_self] at ho'
        exact absurd ho' ((hi.known htodo).1 hk)
      · refine keep (update_o hrr) rfl rfl ?_ ?_
        · cases hi with
          | rwLoop => exact fun hc ↦ hrr (Instr.rwLoop.inj hc).2
          | _ => simp
        · cases hi <;> simp
  | rwEnterReader hi ho hl =>
      rename_i r'
      have hro : (Function.update s.rw r' { s.rw r' with v := (s.rw r').v + 1 } r).o =
          (s.rw r).o := by
        by_cases hrr : r' = r
        · subst hrr
          rw [Function.update_self]
        · exact update_o hrr
      cases hi <;> exact keep hro rfl rfl (by simp) (by simp)
  | rwLeave hn hl =>
      rename_i r'
      by_cases hrr : r' = r
      · subst hrr
        exact fun _ ↦ ⟨fun hne ↦ absurd hn hne, fun _ hne ↦ absurd hl hne⟩
      · exact keep (update_o hrr) rfl rfl (by simp) (by simp)
  | rwLeaveOne hl =>
      rename_i r' w ws
      by_cases hrr : r' = r
      · subst hrr
        refine fun _ ↦ ⟨fun _ ↦ ⟨w, ?_⟩, fun _ _ ↦ .inl ⟨w, ?_⟩⟩
        · exact hs.rescuer hsh ha hl (Option.some_ne_none _) rfl rfl (Function.update_self ..)
        · exact hs.rescuer hsh ha hl (Option.some_ne_none _) rfl rfl (Function.update_self ..)
      · refine keep (update_o hrr) ?_ rfl (by simp) (by simp)
        exact Function.update_of_ne (fun hc ↦ hrr (Waithead.wwait.inj hc).symm) _ _
  | rwLeaveAll hn hl =>
      rename_i r' w ws
      by_cases hrr : r' = r
      · subst hrr
        refine fun _ ↦ ⟨fun hne ↦ absurd hn hne, fun _ _ ↦ .inr ⟨s.current, ?_⟩⟩
        rw [htd, if_pos rfl]
        simp
      · refine keep (update_o hrr) rfl ?_ (by simp) (by simp)
        exact Function.update_of_ne (fun hc ↦ hrr (Waithead.rwait.inj hc).symm) _ _
  | rwDowngrade ho =>
      rename_i r'
      refine keep ?_ rfl rfl (by simp) (by simp)
      by_cases hrr : r' = r
      · subst hrr
        show (Function.update s.rw r' { s.rw r' with v := -1 } r').o = _
        rw [Function.update_self]
      · exact update_o hrr
  | rwTryupgrade hv =>
      rename_i r'
      by_cases hrr : r' = r
      · subst hrr
        intro hfree
        have ho' : (Function.update s.rw r' ⟨1, s.curlwp⟩ r').o = none := hfree
        rw [Function.update_self] at ho'
        simp only [State.Known, htodo] at hk
        exact absurd ho' hk
      · exact keep (update_o hrr) rfl rfl (by simp) (by simp)
  | count hi => cases hi <;> exact keep rfl rfl rfl (by simp) (by simp)
  | _ => exact keep rfl rfl rfl (by simp) (by simp)

/-- Only the lock, its lists and what there is to do count. -/
theorem State.RwRescued.congr (hr : s.RwRescued r) (ho : u.rw = s.rw)
    (hl : u.waiters = s.waiters) (ht : u.todo = s.todo) : u.RwRescued r := by
  unfold State.RwRescued State.Rescuer
  rw [ho, hl, ht]
  exact hr

/-- The current thread leaves out neither a try of a lock nor a wake of its readers. -/
theorem State.RwRescued.setTodo (hr : s.RwRescued r)
    (hj : ∀ j ∈ s.todo s.current, j = .rwLoop .writer r ∨ j = .wakeupAll (.rwait r) → j ∈ is) :
    (s.setTodo is).RwRescued r := by
  have htd : ∀ t, (s.setTodo is).todo t = if t = s.current then is else s.todo t :=
    State.setTodo_todo rfl rfl
  have keep : ∀ {t j}, j ∈ s.todo t → j = .rwLoop .writer r ∨ j = .wakeupAll (.rwait r) →
      j ∈ (s.setTodo is).todo t := by
    intro t j hjt hc
    rw [htd]
    split
    · rename_i hts
      exact hj j (hts ▸ hjt) hc
    · exact hjt
  have rescuer : (∃ t, s.Rescuer (.wwait r) t) → ∃ t, (s.setTodo is).Rescuer (.wwait r) t := by
    rintro ⟨t, ⟨j, hjt, hb⟩, hn⟩
    exact ⟨t, ⟨j, keep hjt (.inl (Option.some.inj hb).symm), hb⟩, hn⟩
  intro hfree
  obtain ⟨h1, h2⟩ := hr hfree
  refine ⟨fun hne ↦ rescuer (h1 hne), fun hnil hne ↦ ?_⟩
  rcases h2 hnil hne with hr | ⟨t, ht⟩
  · exact .inl (rescuer hr)
  · exact .inr ⟨t, keep ht (.inr rfl)⟩

theorem State.RwRescued.step (h : ∀ r, s.RwRescued r) (hs : s.Seen)
    (hsh : ∀ t, Shaped (s.todo t)) (hw : Within s) (hstep : Step s op s') (hc : s.Calm op)
    (hk : s.Known op) : ∀ r, s'.RwRescued r := by
  intro r
  cases hstep.stepped with
  | exec ha htodo he => exact (h r).exec hs hsh ha htodo hk hw (Exec.of_exec he)
  | exit ha htodo =>
      simp only [State.Calm, htodo] at hc
      subst hc
      refine State.RwRescued.congr (s := s.setTodo []) ?_ rfl rfl rfl
      refine (h r).setTodo fun j hj hor ↦ ?_
      rw [htodo, List.mem_singleton] at hj
      rcases hor with rfl | rfl <;> cases hj
  | ret ha htodo hi =>
      refine (h r).setTodo fun j hj hor ↦ ?_
      rw [htodo, List.mem_cons] at hj
      refine hj.resolve_left fun he ↦ ?_
      obtain ⟨site, hi | hi⟩ := hi <;> rw [hi] at he <;> rcases hor with hor | hor <;>
        rw [hor] at he <;> cases he
  | call ha ho hi => exact (h r).setTodo fun j hj _ ↦ List.mem_cons_of_mem _ hj
  | doze ha ho => exact (h r).congr rfl rfl rfl
  | switch ht hg => exact (h r).congr rfl rfl rfl
  | kick ht => exact (h r).congr rfl rfl rfl

end

/-- In every state of a calm run from the start in which the writers are somebody, a read/write
lock that nobody writes is not left to its waiters alone: if writers wait, a writer that is not
among them is going to try it again, and if only readers wait, a writer is, or all of them are
being woken. -/
theorem rw_rescued_run {kspin : Nat → Bool} {ops : List Op} {s : State}
    (h : Run (fun s op s' ↦ Step s op s' ∧ s.Calm op ∧ s.Known op) (State.init kspin) ops s)
    {r : Nat} (hfree : (s.rw r).o = none)
    (hne : s.waiters (.wwait r) ≠ [] ∨ s.waiters (.rwait r) ≠ []) :
    (∃ t, .rwLoop .writer r ∈ s.todo t ∧ t ∉ s.waiters (.wwait r)) ∨
      s.waiters (.wwait r) = [] ∧ ∃ t, .wakeupAll (.rwait r) ∈ s.todo t := by
  have hI := h.invariant
    (I := fun s ↦ Within s ∧ s.Seen ∧ (∀ t, Shaped (s.todo t)) ∧ ∀ r, s.RwRescued r)
    (fun _ _ _ hI hs ↦ ⟨hI.1.step hs.1, hI.2.1.step hI.1 hs.1 hs.2.1,
      Shaped.step hI.2.2.1 hI.1 hs.1,
      State.RwRescued.step hI.2.2.2 hI.2.1 hI.2.2.1 hI.1 hs.1 hs.2.1 hs.2.2⟩)
    ⟨Within.init kspin, State.Seen.init kspin, fun _ ↦ trivial,
      fun _ _ ↦ ⟨fun hne ↦ absurd rfl hne, fun _ hne ↦ absurd rfl hne⟩⟩
  have rescuer : (∃ t, s.Rescuer (.wwait r) t) →
      ∃ t, .rwLoop .writer r ∈ s.todo t ∧ t ∉ s.waiters (.wwait r) := by
    rintro ⟨t, ⟨j, hj, hb⟩, hn⟩
    cases hb
    exact ⟨t, hj, hn⟩
  obtain ⟨h1, h2⟩ := hI.2.2.2 r hfree
  by_cases hnil : s.waiters (.wwait r) = []
  · rcases h2 hnil (hne.resolve_left fun hc ↦ hc hnil) with hr | hr
    · exact .inl (rescuer hr)
    · exact .inr ⟨hnil, hr⟩
  · exact .inl (rescuer (h1 hnil))

/-- A writer and a reader wait for a lock.  When it has been left, the reader is still on its list,
and the writer is going to try it. -/
theorem rw_rescued_run_two : ∃ s : State,
    Run (fun s op s' ↦ Step s op s' ∧ s.Calm op ∧ s.Known op) (State.init fun _ ↦ false)
      [.call (.curlwpSet 7), .exec, .call (.rwEnter .writer 0), .exec,
        .call (.threadCreate false), .exec, .kick 1, .call (.threadCreate false), .exec, .kick 2,
        .switch 1, .call (.curlwpSet 8), .exec, .call (.rwEnter .writer 0), .exec, .ret, .exec,
        .switch 2, .call (.rwEnter .reader 0), .exec, .ret, .exec,
        .switch 0, .call (.rwExit 0), .exec] s ∧
    s.waiters (.rwait 0) = [2] ∧
      ((∃ t, .rwLoop .writer 0 ∈ s.todo t ∧ t ∉ s.waiters (.wwait 0)) ∨
        s.waiters (.wwait 0) = [] ∧ ∃ t, .wakeupAll (.rwait 0) ∈ s.todo t) := by
  have h : Run (fun s op s' ↦ Step s op s' ∧ s.Calm op ∧ s.Known op) (State.init fun _ ↦ false)
      [.call (.curlwpSet 7), .exec, .call (.rwEnter .writer 0), .exec,
        .call (.threadCreate false), .exec, .kick 1, .call (.threadCreate false), .exec, .kick 2,
        .switch 1, .call (.curlwpSet 8), .exec, .call (.rwEnter .writer 0), .exec, .ret, .exec,
        .switch 2, .call (.rwEnter .reader 0), .exec, .ret, .exec,
        .switch 0, .call (.rwExit 0), .exec] _ :=
    .cons ⟨rfl, trivial, trivial⟩ <| .cons ⟨rfl, trivial, trivial⟩ <|
      .cons ⟨rfl, trivial, trivial⟩ <| .cons ⟨rfl, trivial, Option.some_ne_none _⟩ <|
      .cons ⟨rfl, trivial, trivial⟩ <| .cons ⟨rfl, trivial, trivial⟩ <|
      .cons ⟨rfl, (fun _ hs ↦ by cases hs.2), trivial⟩ <| .cons ⟨rfl, trivial, trivial⟩ <|
      .cons ⟨rfl, trivial, trivial⟩ <| .cons ⟨rfl, (fun _ hs ↦ by cases hs.2), trivial⟩ <|
      .cons ⟨rfl, trivial, trivial⟩ <| .cons ⟨rfl, trivial, trivial⟩ <|
      .cons ⟨rfl, trivial, trivial⟩ <| .cons ⟨rfl, trivial, trivial⟩ <|
      .cons ⟨rfl, trivial, Option.some_ne_none _⟩ <| .cons ⟨rfl, trivial, trivial⟩ <|
      .cons ⟨rfl, trivial, Option.some_ne_none _⟩ <| .cons ⟨rfl, trivial, trivial⟩ <|
      .cons ⟨rfl, trivial, trivial⟩ <| .cons ⟨rfl, trivial, trivial⟩ <|
      .cons ⟨rfl, trivial, trivial⟩ <| .cons ⟨rfl, trivial, trivial⟩ <|
      .cons ⟨rfl, trivial, trivial⟩ <| .cons ⟨rfl, trivial, trivial⟩ <|
      .cons ⟨rfl, trivial, trivial⟩ (.nil _)
  exact ⟨_, h, rfl, rw_rescued_run h rfl (.inr (List.cons_ne_nil _ _))⟩

end Mh.Rump
