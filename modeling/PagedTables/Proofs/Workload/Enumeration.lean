import PagedTables.Proofs.Workload.Scanning

/-! What a scan hands out, one tuple at a time, of pages that keep their tuples: those of one page after
another, up to the last one that was counted when it was started. A call that fails leaves it where it
was. -/

namespace PagedTables

def tuplesOf (contents : UInt32 → List Tuple) (count : UInt32) : List Tuple :=
  (List.range count.toNat).flatMap fun number => contents (.ofNat number)

/-- What the user of a scan knows of it: that it is closed, or how many pages were counted when it was
started, and what it has handed out since. -/
inductive Reading
  | closed
  | going (count : UInt32) (taken : List Tuple)

namespace Reading

def next (contents : UInt32 → List Tuple) : Reading → Option Tuple
  | closed => none
  | going count taken => (tuplesOf contents count)[taken.length]?

/-- A scan is asked for a tuple. When that fails, none is lost. -/
def gave : Reading → Except Failure (Option Tuple) → Reading
  | going count taken, .ok (some tuple) => going count (taken ++ [tuple])
  | reading, _ => reading

def opened (count : UInt32) : Reading → Reading
  | closed => going count []
  | going counted taken => going counted taken

end Reading

def Pool.Has (pool : Pool) (table : TableId) (contents : UInt32 → List Tuple) (count : UInt32) : Prop :=
  ∀ number < count, ∀ heap, pool.shown ⟨table, number⟩ = .ok heap → heap.tuples = contents number

def Reading.Has (pool : Pool) (table : TableId) (contents : UInt32 → List Tuple) : Reading → Prop
  | closed => True
  | going count _ => pool.Has table contents count

instance (pool : Pool) (table : TableId) (contents : UInt32 → List Tuple) (count : UInt32) :
    Decidable (pool.Has table contents count) :=
  decidable_of_iff (∀ number < count.toNat,
      (pool.shown ⟨table, .ofNat number⟩).toOption.all fun heap =>
        heap.tuples = contents (.ofNat number)) <| by
    constructor
    · intro all number counted heap shown
      have same := all number.toNat (UInt32.lt_iff_toNat_lt.mp counted)
      rw [UInt32.ofNat_toNat, shown] at same
      exact of_decide_eq_true same
    · intro has number counted
      have counted : UInt32.ofNat number < count := by
        rw [UInt32.lt_iff_toNat_lt, UInt32.toNat_ofNat']
        exact Nat.lt_of_le_of_lt (Nat.mod_le _ _) counted
      cases shown : pool.shown ⟨table, .ofNat number⟩ with
      | error failure => rfl
      | ok heap => exact decide_eq_true (has _ counted heap shown)

instance (pool : Pool) (table : TableId) (contents : UInt32 → List Tuple) :
    (reading : Reading) → Decidable (reading.Has pool table contents)
  | .closed => inferInstanceAs (Decidable True)
  | .going count _ => inferInstanceAs (Decidable (pool.Has table contents count))

/-- An open scan has handed out, or has at hand, what there is on the pages behind it. -/
structure Cursor.Reads (contents : UInt32 → List Tuple) (count : UInt32) (taken : List Tuple)
    (cursor : Cursor) : Prop where
  opened : cursor.isOpen = true
  counted : cursor.numPages = count
  within : cursor.nextPage ≤ count
  read : taken ++ cursor.pending = tuplesOf contents cursor.nextPage

def Reading.Agrees (contents : UInt32 → List Tuple) (cursor : Cursor) : Reading → Prop
  | closed => cursor.isOpen = false
  | going count taken => cursor.Reads contents count taken

structure Cursor.At (owner : TransactionId) (file : HeapFile) (contents : UInt32 → List Tuple)
    (reading : Reading) (cursor : Cursor) : Prop where
  mine : cursor.owner = owner
  named : cursor.file = file
  agrees : reading.Agrees contents cursor

section Contents

variable {contents : UInt32 → List Tuple} {number count stop : UInt32}

theorem tuplesOf_zero (contents : UInt32 → List Tuple) : tuplesOf contents 0 = [] := rfl

theorem tuplesOf_succ (contents : UInt32 → List Tuple) (more : number < stop) :
    tuplesOf contents (number + 1) = tuplesOf contents number ++ contents number := by
  rw [tuplesOf, tuplesOf, toNat_succ_of_lt more, List.range_succ, List.flatMap_append]
  simp

theorem tuplesOf_initial (contents : UInt32 → List Tuple) (low : number ≤ count) :
    tuplesOf contents number <+: tuplesOf contents count := by
  have parts : count.toNat = number.toNat + (count.toNat - number.toNat) :=
    (Nat.add_sub_cancel' (UInt32.le_iff_toNat_le.mp low)).symm
  rw [tuplesOf, tuplesOf, parts, List.range_add, List.flatMap_append]
  exact List.prefix_append _ _

end Contents

section Cursor

variable {owner : TransactionId} {file : HeapFile} {contents : UInt32 → List Tuple}
  {reading : Reading} {cursor : Cursor} {count : UInt32} {taken : List Tuple}

theorem Cursor.Reads.visit (reads : cursor.Reads contents count taken)
    (ahead : cursor.nextPage < count) {heap : HeapPage}
    (found : heap.tuples = contents cursor.nextPage) :
    (cursor.visit heap).Reads contents count taken := by
  have below := UInt32.lt_iff_toNat_lt.mp ahead
  refine ⟨reads.opened, reads.counted, UInt32.le_iff_toNat_le.mpr ?_, ?_⟩
  · exact (toNat_succ_of_lt ahead).symm ▸ below
  · show taken ++ (cursor.pending ++ heap.tuples) = tuplesOf contents (cursor.nextPage + 1)
    rw [tuplesOf_succ contents ahead, ← reads.read, found, List.append_assoc]

theorem Cursor.At.closed (file : HeapFile) (owner : TransactionId) :
    (Cursor.closed file owner).At owner file contents .closed := ⟨rfl, rfl, rfl⟩

theorem Cursor.At.start (place : cursor.At owner file contents reading) (disk : Disk) :
    (cursor.start disk).At owner file contents (.going (file.numPages disk) []) := by
  refine ⟨place.mine, place.named, rfl, ?_, UInt32.zero_le, (tuplesOf_zero contents).symm⟩
  show cursor.file.numPages disk = _
  rw [place.named]

theorem Cursor.At.close (place : cursor.At owner file contents reading) :
    cursor.close.At owner file contents .closed := ⟨place.mine, place.named, rfl⟩

theorem Cursor.hasPending_eq (cursor : Cursor) : cursor.hasPending = cursor.pop.2.isSome := by
  unfold Cursor.hasPending Cursor.pop
  cases cursor.isOpen <;> cases cursor.pending <;> rfl

theorem Cursor.At.pop_eq (place : cursor.At owner file contents reading)
    (ready : cursor.wanted false = none) : cursor.pop.2 = reading.next contents := by
  obtain ⟨_, _, agrees⟩ := place
  cases reading with
  | closed =>
    have shut : cursor.isOpen = false := agrees
    simp [Cursor.pop, Reading.next, shut]
  | going count taken =>
    have reads : cursor.Reads contents count taken := agrees
    obtain ⟨rest, all⟩ := tuplesOf_initial contents reads.within
    rw [← reads.read, List.append_assoc] at all
    rw [Reading.next, ← all, List.getElem?_append_right (Nat.le_refl _), Nat.sub_self, Cursor.pop,
      reads.opened]
    cases pending : cursor.pending with
    | cons tuple others => rfl
    | nil =>
      -- No page is left, so that there is nothing behind what was handed out.
      have last : cursor.nextPage = count := by
        refine UInt32.le_antisymm reads.within (UInt32.not_lt.mp fun more => ?_)
        simp [Cursor.wanted, reads.opened, pending, reads.counted, more] at ready
      rw [← last, ← reads.read, pending] at all
      simpa using all

theorem Cursor.At.pop (place : cursor.At owner file contents reading) :
    cursor.pop.1.At owner file contents (reading.gave (.ok cursor.pop.2)) := by
  obtain ⟨mine, named, agrees⟩ := place
  cases reading with
  | closed =>
    have shut : cursor.isOpen = false := agrees
    simp only [Cursor.pop, shut]
    exact ⟨mine, named, shut⟩
  | going count taken =>
    have reads : cursor.Reads contents count taken := agrees
    rw [Cursor.pop, reads.opened]
    cases pending : cursor.pending with
    | nil => exact ⟨mine, named, reads⟩
    | cons tuple others =>
      show ({ cursor with isOpen := true, pending := others } : Cursor).At owner file contents
        (.going count (taken ++ [tuple]))
      refine ⟨mine, named, rfl, reads.counted, reads.within, ?_⟩
      rw [← reads.read, pending, List.append_assoc]
      rfl

end Cursor

theorem Cursor.wanted_eq_some {cursor : Cursor} {toEnd : Bool} {page : PageId}
    (wanted : cursor.wanted toEnd = some page) :
    cursor.isOpen = true ∧ cursor.nextPage < cursor.numPages ∧
      page = ⟨cursor.file.table, cursor.nextPage⟩ := by
  unfold Cursor.wanted at wanted
  split at wanted
  · next more =>
    simp only [Bool.and_eq_true, decide_eq_true_eq] at more
    exact ⟨more.1.1, more.2, (Option.some.inj wanted).symm⟩
  · cases wanted

/-- A call for the page that a scan comes to next. A copy of it in use has the tuples that the page is
said to have. -/
structure Access.Reads (owner : TransactionId) (file : HeapFile) (contents : UInt32 → List Tuple)
    (reading : Reading) (pool : Pool) (access : Access) (cursor : Cursor) : Prop where
  place : cursor.At owner file contents reading
  purpose : access.purpose = .visit cursor false
  wanted : cursor.wanted false = some access.page
  sees : ∀ stay, access.phase = .use stay → ∀ heap, pool.cache.Shows access.page stay heap →
    heap.tuples = contents cursor.nextPage

def Progress.Iterates (owner : TransactionId) (file : HeapFile) (contents : UInt32 → List Tuple)
    (reading : Reading) (pool : Pool) : Progress → Prop
  | running (.access access) => ∃ cursor, access.Reads owner file contents reading pool cursor
  | running (.extend _ _) => False
  | finished (.scanned cursor failure) =>
    cursor.At owner file contents reading ∧ (failure = none → cursor.wanted false = none)
  | finished _ => True

section Step

variable {start : Disk} {owner : TransactionId} {file : HeapFile} {contents : UInt32 → List Tuple}
  {reading : Reading} {pool later : Pool} {cursor : Cursor} {access : Access} {progress : Progress}
  {task : Task} {result : Pool × Progress}

theorem Task.StepsTo.shown_eq (steps : StepsTo pool task result) (reads : task.isRead = true)
    (page : PageId) : result.1.shown page = pool.shown page := by
  rcases steps.reads reads with ⟨place, serves⟩ | ⟨locks, stats, same, _⟩
  · exact (serves.alike.shown page).symm
  · rw [same]
    rfl

theorem Reading.Has.congr (has : reading.Has pool file.table contents)
    (same : ∀ page, later.shown page = pool.shown page) : reading.Has later file.table contents := by
  cases reading with
  | closed => exact trivial
  | going count taken =>
    intro number counted heap shown
    exact has number counted heap ((same _).symm.trans shown)

theorem Reading.Has.gave (has : reading.Has pool file.table contents)
    (answer : Except Failure (Option Tuple)) :
    (reading.gave answer).Has pool file.table contents := by
  cases reading with
  | closed => exact trivial
  | going count taken =>
    cases answer with
    | error failure => exact has
    | ok tuple => cases tuple <;> exact has

theorem Access.Reads.isRead (reads : access.Reads owner file contents reading pool cursor) :
    (Task.access access).isRead = true := by
  rw [Task.isRead, reads.purpose]
  rfl

theorem Access.Reads.going (reads : access.Reads owner file contents reading pool cursor) :
    access.page = ⟨file.table, cursor.nextPage⟩ ∧ ∃ count taken, reading = .going count taken ∧
      cursor.Reads contents count taken ∧ cursor.nextPage < count := by
  obtain ⟨⟨_, named, agrees⟩, _, wanted, _⟩ := reads
  obtain ⟨opened, more, page⟩ := Cursor.wanted_eq_some wanted
  refine ⟨named ▸ page, ?_⟩
  cases reading with
  | closed => cases opened.symm.trans agrees
  | going count taken =>
    have reads : cursor.Reads contents count taken := agrees
    exact ⟨count, taken, rfl, reads, reads.counted ▸ more⟩

theorem Cursor.At.iterates_advance (place : cursor.At owner file contents reading) :
    (cursor.advance false).Iterates owner file contents reading pool := by
  unfold Cursor.advance
  split
  · next page wanted => exact ⟨cursor, place, rfl, wanted, fun stay phase => by cases phase⟩
  · next ready => exact ⟨place, fun _ => ready⟩

theorem Access.Reads.stopped (reads : access.Reads owner file contents reading pool cursor)
    {finish : Finish} (stops : access.Stops finish) :
    (Progress.finished finish).Iterates owner file contents reading later := by
  rcases stops with rfl | ⟨failure, rfl⟩
  · exact trivial
  · rw [reads.purpose]
    exact ⟨reads.place, fun none => by cases none⟩

theorem Progress.Iterates.stepsTo (fresh : pool.Fresh start)
    (has : reading.Has pool file.table contents)
    (iterates : (running task).Iterates owner file contents reading pool)
    (steps : task.StepsTo pool result) :
    result.2.Iterates owner file contents reading result.1 := by
  cases task with
  | extend worker job => exact iterates.elim
  | access access =>
    obtain ⟨cursor, reads⟩ := iterates
    have shown := steps.shown_eq reads.isRead
    obtain ⟨place, purpose, wanted, sees⟩ := id reads
    obtain ⟨page, count, taken, rfl, behind, ahead⟩ := reads.going
    have found : ∀ heap, pool.shown access.page = .ok heap → heap.tuples = contents cursor.nextPage :=
      fun heap shown => has cursor.nextPage ahead heap (page ▸ shown)
    cases steps with
    | granted _ locks further holds =>
      exact ⟨cursor, place, purpose, wanted, fun stay phase => by cases phase⟩
    | refused _ locks further =>
      exact ⟨cursor, place, purpose, wanted, fun stay phase => by cases phase⟩
    | stopped _ locks further stats finish stops => exact reads.stopped stops
    | homeless _ phase later serves size finish stops => exact reads.stopped stops
    | pinned _ phase later serves size resident present =>
      refine ⟨cursor, place, purpose, wanted, fun stay phase heap shows => ?_⟩
      obtain rfl : resident.stay = stay := Phase.use.inj phase
      -- A page that was just pinned is seen as the cache has it, and that is how it is shown to
      -- anybody.
      obtain ⟨other, stays, rfl, here | ⟨aside, _⟩⟩ := shows
      · have fresh := fresh.serves serves (size fresh.fits)
        exact found _ ((shown access.page).symm.trans (fresh.shown_cached here))
      · have apart := (serves.distinct fresh.sound.stays).apart access.page resident present other aside
        exact absurd stays apart
    | looked _ stay phase cache visits =>
      exact ⟨cursor, place, purpose, wanted, fun stay phase heap shows =>
        sees stay phase heap (shows.visits visits)⟩
    | guarded _ stay phase cache visits => exact trivial
    | idled => exact ⟨cursor, reads⟩
    | used _ stay phase cache rewrites heap shows progress leads =>
      rw [purpose] at leads
      cases leads with
      | ended _ finish closes =>
        rcases closes with rfl | ⟨failure, rfl⟩ | rfl
        · exact trivial
        · exact trivial
        · exact trivial
      | remarked _ writes => cases writes
      | filled _ job wants => cases wants
      | visited =>
        have visited := behind.visit ahead (sees stay phase heap shows)
        exact Cursor.At.iterates_advance ⟨place.mine, place.named, visited⟩

end Step

def Progress.outcome? (cursor : Cursor) : Progress → Option (Cursor × Except Failure Unit)
  | finished (.scanned next none) => some (next, .ok ())
  | finished (.scanned next (some failure)) => some (next, .error failure)
  | finished (.failed failure) => some (cursor, .error failure)
  | _ => none

def Progress.hasNext? (cursor : Cursor) (progress : Progress) : Option (Cursor × Except Failure Bool) :=
  (progress.outcome? cursor).map fun (next, result) => (next, result.map fun _ => next.hasPending)

def Progress.nextTuple? (cursor : Cursor) (progress : Progress) :
    Option (Cursor × Except Failure (Option Tuple)) :=
  (progress.outcome? cursor).map fun
    | (next, .ok ()) => (next.pop.1, .ok next.pop.2)
    | (next, .error failure) => (next, .error failure)

/-- A copy of a page that has left the cache while an operation uses it is left as it is. -/
def Progress.Undisturbed (pool later : Pool) (progress : Progress) : Prop :=
  ∀ access stay, progress = .running (.access access) → access.phase = .use stay →
    ∀ gone ∈ later.cache.departed, gone.stay = stay → gone.frame.id = access.page →
      ∃ heap, pool.cache.Shows access.page stay heap ∧ gone.frame.page.tuples = heap.tuples

section Answer

variable {start : Disk} {owner : TransactionId} {file : HeapFile} {contents : UInt32 → List Tuple}
  {reading : Reading} {pool later : Pool} {cursor next : Cursor} {progress : Progress}

theorem Progress.Iterates.outcome (iterates : progress.Iterates owner file contents reading pool)
    (place : cursor.At owner file contents reading) {result : Except Failure Unit}
    (comes : progress.outcome? cursor = some (next, result)) :
    next.At owner file contents reading ∧ (result = .ok () → next.wanted false = none) := by
  unfold Progress.outcome? at comes
  split at comes
  · cases comes
    exact ⟨iterates.1, fun _ => iterates.2 rfl⟩
  · cases comes
    exact ⟨iterates.1, fun done => by cases done⟩
  · cases comes
    exact ⟨place, fun done => by cases done⟩
  · cases comes

theorem Progress.Iterates.hasNext (iterates : progress.Iterates owner file contents reading pool)
    (place : cursor.At owner file contents reading) {answer : Except Failure Bool}
    (comes : progress.hasNext? cursor = some (next, answer)) :
    next.At owner file contents reading ∧
      ∀ more, answer = .ok more → more = (reading.next contents).isSome := by
  obtain ⟨⟨last, result⟩, comes, same⟩ := Option.map_eq_some_iff.mp comes
  obtain ⟨place, ready⟩ := iterates.outcome place comes
  cases same
  refine ⟨place, fun more done => ?_⟩
  cases result with
  | error failure => cases done
  | ok done' =>
    obtain rfl := Except.ok.inj done
    rw [Cursor.hasPending_eq, place.pop_eq (ready rfl)]

theorem Progress.Iterates.nextTuple (iterates : progress.Iterates owner file contents reading pool)
    (place : cursor.At owner file contents reading) {answer : Except Failure (Option Tuple)}
    (comes : progress.nextTuple? cursor = some (next, answer)) :
    next.At owner file contents (reading.gave answer) ∧
      ∀ tuple, answer = .ok tuple → tuple = reading.next contents := by
  obtain ⟨⟨last, result⟩, comes, same⟩ := Option.map_eq_some_iff.mp comes
  obtain ⟨place, ready⟩ := iterates.outcome place comes
  cases result with
  | error failure =>
    cases same
    refine ⟨?_, fun tuple done => by cases done⟩
    cases reading <;> exact place
  | ok done =>
    cases same
    refine ⟨place.pop, fun tuple done => ?_⟩
    rw [← Except.ok.inj done, place.pop_eq (ready rfl)]

theorem Progress.Iterates.meanwhile (fresh : later.Fresh start)
    (has : reading.Has later file.table contents)
    (iterates : progress.Iterates owner file contents reading pool)
    (spared : progress.Undisturbed pool later) :
    progress.Iterates owner file contents reading later := by
  cases progress with
  | finished finish => cases finish <;> exact iterates
  | running task =>
    cases task with
    | extend worker job => exact iterates.elim
    | access access =>
      obtain ⟨cursor, reads⟩ := iterates
      obtain ⟨page, count, taken, rfl, _, ahead⟩ := reads.going
      refine ⟨cursor, reads.place, reads.purpose, reads.wanted, fun stay phase heap shows => ?_⟩
      obtain ⟨resident, stays, rfl, here | ⟨aside, named⟩⟩ := shows
      · exact has cursor.nextPage ahead _ (page ▸ fresh.shown_cached here)
      · obtain ⟨heap, before, same⟩ := spared access stay rfl phase resident aside stays named
        rw [same]
        exact reads.sees stay phase heap before

end Answer

end PagedTables
