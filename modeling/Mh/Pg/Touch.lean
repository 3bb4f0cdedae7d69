import Mh.Lib.Traced
import Mh.Pg.Model

/-!
# The entries that the page allocator looks at

The functions of `pgalloc.c`, and of `alloc.c` as it is compiled there, once more, with a note of
the index of every entry of `pfndb` that they read or write.  A record of a free block is in the
entry of its first page, and so are the links of the list that it is on: `LIST_REMOVE` writes the
records next to it on its list, `LIST_INSERT_HEAD` the record that was the first.

Without the notes these are the functions of `Mh.Pg.Model` (`res_pginit`, `res_exec`).
-/

namespace Mh.Pg.Touch

open Mh.Lib Mh.Zone

/-- A function that notes the entries that it reads and writes. -/
abbrev Acc := Traced Nat Panic

/-- An access to an entry, past its assertion. -/
def entry (db : Db) (p : Nat) : Acc Unit := if p ≤ db.max then ⟨[p], .ok ()⟩ else ⟨[], .error .pfn⟩

/-- The types of `n` pages from `p` are set. -/
def settypes (db : Db) (p n : Nat) : Acc Unit :=
  Traced.note ((List.range' p n).filter (· ≤ db.max))

/-- What stands before and after `e` on a list, and `e`. -/
def around (e : Nat) : List Nat → List Nat
  | [] => []
  | [a] => if a = e then [a] else []
  | a :: b :: l =>
    if a = e then [a, b] else if b = e then a :: b :: l.head?.toList else around e (b :: l)

/-- The lists of all the zones. -/
def bins : List (PfnZone × Nat) :=
  [.kern32, .kern, .high32, .high].flatMap fun z ↦ (List.range ordmax).map fun k ↦ (z, k)

/-- The entries that `LIST_REMOVE` writes. -/
def linked (s : PgZones) (ze : Nat) : List Nat := bins.flatMap fun b ↦ around ze (s.zlist b)

/-! ## `alloc.c` -/

/-- `zone_remove`. -/
def remove (s : PgZones) (z : PfnZone) (ze : Nat) : Acc PgZones := do
  Traced.note [ze]
  let t ← Traced.lift (Zone.remove backend s z ze)
  Traced.note (linked s ze)
  return t

/-- `zone_remove`, of a neighbour that may be missing. -/
def removeOpt (s : PgZones) (z : PfnZone) : Option Nat → Acc PgZones
  | none => pure s
  | some ze => remove s z ze

/-- `zone_attachentry`. -/
def attachentry (s : PgZones) (z : PfnZone) (ze : Nat) : Acc PgZones := do
  Traced.note [ze]
  let t ← Traced.lift (Zone.attachentry backend s z ze)
  Traced.note (s.zlist (z, msbit (backend.size s.db ze))).head?.toList
  return t

/-- The first half of `___get_neighbors`. -/
def prevNeighbor (db : Db) (addr : Nat) : Acc (Option Nat) :=
  if addr = 0 ∨ db.zone addr ≠ db.zone (addr - 1) then pure none
  else do
    entry db (addr - 1)
    if (db.type (addr - 1)).isPgzterm then
      let pz := w32 (addr + (2 ^ 32 - (db.pfn (addr - 1)).size))
      entry db pz
      return some pz
    else return none

/-- The second half of `___get_neighbors`. -/
def nextNeighbor (db : Db) (addr size : Nat) : Acc (Option Nat) :=
  if db.zone addr ≠ db.zone (w32 (addr + 1)) then pure none
  else do
    let nz := w32 (addr + size)
    entry db nz
    return if (db.type nz).isPgzstart then some nz else none

/-- `___get_neighbors`. -/
def getNeighbors (db : Db) (addr size : Nat) : Acc (Option Nat × Option Nat) := do
  let pz ← prevNeighbor db addr
  let nz ← nextNeighbor db addr size
  return (pz, nz)

/-- `___mkptr`. -/
def mkptr (db : Db) (addr size : Nat) : Acc (Nat × Db) := do
  entry db addr
  entry db (w32 (addr + size + (2 ^ 32 - 1)))
  settypes db addr size
  return (addr, db.mkptr addr size)

/-- `zone_create`. -/
def create (s : PgZones) (z : PfnZone) (zaddr size : Nat) : Acc PgZones := do
  let (pze, nze) ← getNeighbors s.db zaddr size
  Traced.note pze.toList
  let fprev := pze.elim zaddr (backend.addr s.db)
  let s ← removeOpt s z pze
  Traced.note nze.toList
  let lnext := nze.elim (w32 (zaddr + size)) fun nze ↦
    w32 (backend.addr s.db nze + backend.size s.db nze)
  let s ← removeOpt s z nze
  let (ze, db) ← mkptr s.db fprev (w32 (lnext + (2 ^ 32 - fprev)))
  attachentry { s with db := db } z ze

/-- `pgzone_free`. -/
def free (s : PgZones) (z : PfnZone) (zaddr size : Nat) : Acc PgZones :=
  if size = 0 then Traced.lift (.error .size) else create s z zaddr size

/-- `pgzone_alloc` once an entry is found. -/
def allocFrom (s : PgZones) (z : PfnZone) (ze : Nat) (size : Nat) : Acc (Nat × PgZones) := do
  Traced.note [ze]
  let addr := backend.addr s.db ze
  let diff := w32 (backend.size s.db ze + (2 ^ 32 - size))
  if 2 ^ 31 ≤ diff then Traced.lift (.error .diff)
  else do
    let s ← remove s z ze
    let s ← if 0 < diff then create s z (w32 (addr + size)) diff else pure s
    return (addr, s)

/-- `pgzone_alloc`. -/
def alloc (s : PgZones) (z : PfnZone) (size : Nat) : Acc (Nat × PgZones) :=
  if size = 0 then Traced.lift (.error .size)
  else
    match findfree s z size with
    | none => pure (0, s)
    | some ze => allocFrom s z ze size

/-! ## `pgalloc.c` -/

/-- The part of `pgalloc` that tries one zone. -/
def tryZone (size flags : Nat) (r : Nat × PgZones) (z : Nat × PfnZone) : Acc (Nat × PgZones) :=
  if r.1 = 0 ∧ flags &&& z.1 ≠ 0 then alloc r.2 z.2 size else pure r

/-- `pgalloc`. -/
def pgalloc (s : PgZones) (size : Nat) (type : PfnType) (flags : Nat) : Acc (Nat × PgZones) :=
  if size = 0 then Traced.lift (.error .size)
  else do
    let (addr, s) ← gfpZones.foldlM (tryZone size (gfpFlags flags)) (0, s)
    if addr = 0 then Traced.lift (.error .oom)
    else do
      settypes s.db addr size
      return (addr, { s with db := s.db.settypes addr size type })

/-- `pgfree`. -/
def pgfree (s : PgZones) (pfn size : Nat) : Acc PgZones :=
  if pfn = 0 ∨ size = 0 then Traced.lift (.error .size) else free s (s.db.zone pfn) pfn size

/-- Close the block of free pages that ends before page `i`. -/
def close (sc : Scan) (i : Nat) : Acc PgZones :=
  free sc.zones (sc.zones.db.zone sc.start) sc.start (i - sc.start)

/-- One iteration of the loop of `pginit`. -/
def scanPage (sc : Scan) (i : Nat) : Acc Scan := do
  Traced.note [i]
  let free : Bool := sc.zones.db.type i = .free
  if free && !sc.status then pure { sc with status := true, start := i }
  else if !free && sc.status then do
    let s ← close sc i
    return { sc with status := false, zones := s }
  else if sc.status && free && sc.zones.db.zone i ≠ sc.zones.db.zone (i - 1) then do
    let s ← close sc i
    return { sc with start := i, zones := s }
  else pure sc

/-- `pginit`. -/
def pginit (db : Db) : Acc PgZones := do
  let sc ← (List.range db.max).foldlM scanPage ⟨false, 0, Zone.init db⟩
  if sc.status then close sc db.max else return sc.zones

/-- One call. -/
def exec (s : State) : Op → Acc State
  | .alloc size type flags => do
    let r ← pgalloc s.zones size type flags
    return ⟨r.2, (r.1, size) :: s.out⟩
  | .free pfn size => do
    let z ← pgfree s.zones pfn size
    return ⟨z, s.out.erase (pfn, size)⟩

/-! ## Without the notes -/

section Res

variable {db : Db} {s : PgZones} {z : PfnZone} {p n e : Nat}

@[simp] theorem res_entry (db : Db) (p : Nat) : (entry db p).res = db.check p := by
  rw [entry, Db.check]
  split <;> rfl

@[simp] theorem res_settypes (db : Db) (p n : Nat) : (settypes db p n).res = .ok () := rfl

@[simp] theorem res_remove (s : PgZones) (z : PfnZone) (e : Nat) :
    (remove s z e).res = Zone.remove backend s z e := by
  simp only [remove, Traced.res_bind, Traced.res_note, Traced.res_lift, Traced.res_pure]
  cases Zone.remove backend s z e <;> rfl

@[simp] theorem res_removeOpt (s : PgZones) (z : PfnZone) (o : Option Nat) :
    (removeOpt s z o).res = Zone.removeOpt backend s z o := by
  cases o with
  | none => rfl
  | some e => exact res_remove s z e

@[simp] theorem res_attachentry (s : PgZones) (z : PfnZone) (e : Nat) :
    (attachentry s z e).res = Zone.attachentry backend s z e := by
  simp only [attachentry, Traced.res_bind, Traced.res_note, Traced.res_lift, Traced.res_pure]
  cases Zone.attachentry backend s z e <;> rfl

@[simp] theorem res_prevNeighbor (db : Db) (p : Nat) :
    (prevNeighbor db p).res = Pg.prevNeighbor db p := by
  rw [prevNeighbor, Pg.prevNeighbor]
  split
  · rfl
  · rw [Traced.res_bind, res_entry]
    refine bind_congr fun _ ↦ ?_
    split
    · rw [Traced.res_bind, res_entry]
      rfl
    · rfl

@[simp] theorem res_nextNeighbor (db : Db) (p n : Nat) :
    (nextNeighbor db p n).res = Pg.nextNeighbor db p n := by
  rw [nextNeighbor, Pg.nextNeighbor]
  split
  · rfl
  · rw [Traced.res_bind, res_entry]
    rfl

@[simp] theorem res_getNeighbors (db : Db) (p n : Nat) :
    (getNeighbors db p n).res = Pg.getNeighbors db p n := by
  simp only [getNeighbors, Pg.getNeighbors, Traced.res_bind, res_prevNeighbor, res_nextNeighbor,
    Traced.res_pure]
  rfl

@[simp] theorem res_mkptr (db : Db) (p n : Nat) : (mkptr db p n).res = Pg.mkptr db p n := by
  -- for any last page, so that its number is not computed
  have hlast : ∀ q : Nat,
      (entry db p >>= fun _ ↦ entry db q >>= fun _ ↦ settypes db p n >>= fun _ ↦
        pure (p, db.mkptr p n)).res =
      db.check p >>= fun _ ↦ db.check q >>= fun _ ↦ pure (p, db.mkptr p n) := by
    intro q
    rw [Traced.res_bind, res_entry]
    refine bind_congr fun _ ↦ ?_
    rw [Traced.res_bind, res_entry]
    refine bind_congr fun _ ↦ ?_
    rw [Traced.res_bind, res_settypes, Traced.ok_bind]
    rfl
  exact hlast _

theorem backend_getNeighbors : backend.getNeighbors = Pg.getNeighbors := rfl

theorem backend_mkptr : backend.mkptr = Pg.mkptr := rfl

@[simp] theorem res_create (s : PgZones) (z : PfnZone) (p n : Nat) :
    (create s z p n).res = Zone.create backend s z p n := by
  rw [create, Zone.create, Traced.res_bind, res_getNeighbors, backend_getNeighbors]
  refine bind_congr fun ⟨pze, nze⟩ ↦ ?_
  dsimp only
  rw [Traced.res_bind, Traced.res_note, Traced.ok_bind, Traced.res_bind, res_removeOpt]
  refine bind_congr fun t ↦ ?_
  rw [Traced.res_bind, Traced.res_note, Traced.ok_bind, Traced.res_bind, res_removeOpt]
  refine bind_congr fun u ↦ ?_
  rw [Traced.res_bind, res_mkptr, backend_mkptr]
  refine bind_congr fun ⟨ze, db⟩ ↦ ?_
  dsimp only
  rw [res_attachentry]

@[simp] theorem res_free (s : PgZones) (z : PfnZone) (p n : Nat) :
    (free s z p n).res = Zone.free backend s z p n := by
  rw [free, Zone.free]
  split
  · rfl
  · exact res_create s z p n

@[simp] theorem res_allocFrom (s : PgZones) (z : PfnZone) (e n : Nat) :
    (allocFrom s z e n).res = Zone.allocFrom backend s z e n := by
  simp only [allocFrom, Zone.allocFrom, Traced.res_bind, Traced.res_note, Traced.ok_bind]
  split
  · rfl
  · rw [Traced.res_bind, res_remove]
    refine bind_congr fun t ↦ ?_
    split
    · rw [Traced.res_bind, res_create]
      rfl
    · rfl

@[simp] theorem res_alloc (s : PgZones) (z : PfnZone) (n : Nat) :
    (alloc s z n).res = Zone.alloc backend s z n := by
  rw [alloc, Zone.alloc]
  split
  · rfl
  · cases findfree s z n with
    | none => rfl
    | some e => exact res_allocFrom s z e n

@[simp] theorem res_tryZone (n flags : Nat) (r : Nat × PgZones) (z : Nat × PfnZone) :
    (tryZone n flags r z).res = Pg.tryZone n flags r z := by
  rw [tryZone, Pg.tryZone]
  split
  · exact res_alloc _ _ _
  · rfl

@[simp] theorem res_pgalloc (s : PgZones) (n : Nat) (type : PfnType) (flags : Nat) :
    (pgalloc s n type flags).res = Pg.pgalloc s n type flags := by
  rw [pgalloc, Pg.pgalloc]
  split
  · rfl
  · rw [Traced.res_bind, Traced.res_foldlM (res_tryZone n (gfpFlags flags))]
    refine bind_congr fun ⟨addr, t⟩ ↦ ?_
    dsimp only
    split
    · rfl
    · rw [Traced.res_bind, res_settypes]
      rfl

@[simp] theorem res_pgfree (s : PgZones) (p n : Nat) : (pgfree s p n).res = Pg.pgfree s p n := by
  rw [pgfree, Pg.pgfree]
  split
  · rfl
  · exact res_free s _ p n

@[simp] theorem res_close (sc : Scan) (i : Nat) : (close sc i).res = sc.close i :=
  res_free _ _ _ _

@[simp] theorem res_scanPage (sc : Scan) (i : Nat) :
    (scanPage sc i).res = Pg.scanPage sc i := by
  rw [scanPage, Pg.scanPage, Traced.res_bind, Traced.res_note, Traced.ok_bind]
  simp only
  split
  · rfl
  · split
    · rw [Traced.res_bind, res_close]
      rfl
    · split
      · rw [Traced.res_bind, res_close]
        rfl
      · rfl

/-- `pginit` without the notes. -/
theorem res_pginit (db : Db) : (pginit db).res = Pg.pginit db := by
  rw [pginit, Pg.pginit, Traced.res_bind, Traced.res_foldlM res_scanPage]
  refine bind_congr fun sc ↦ ?_
  split
  · exact res_close sc db.max
  · rfl

/-- A call without the notes. -/
theorem res_exec (s : State) (op : Op) : (exec s op).res = Pg.exec s op := by
  cases op with
  | alloc size type flags =>
      rw [exec, Pg.exec, Traced.res_bind, res_pgalloc]
      cases Pg.pgalloc s.zones size type flags <;> rfl
  | free pfn size =>
      rw [exec, Pg.exec, Traced.res_bind, res_pgfree]
      cases Pg.pgfree s.zones pfn size <;> rfl

end Res

end Mh.Pg.Touch
