import PagedTables.Pool.Scan
import PagedTables.Proofs.Sequence.Supply
import PagedTables.Proofs.Workload.Repeat
import PagedTables.Proofs.Workload.Reuse

/-! A scan is asked for its next tuple while nothing else happens. It answers unless one of its pages
is latched for writing, and hands out what there is on its pages, whatever has happened between the
calls. If its pages can be had, it hands out all that is left. -/

namespace PagedTables

def Pool.Readable (pool : Pool) (table : TableId) : Prop :=
  ∀ (page : PageId) (resident : Resident), page.table = table →
    pool.cache.frames[page]? = some resident → resident.frame.latch ≠ .exclusive

instance (pool : Pool) (table : TableId) : Decidable (pool.Readable table) :=
  decidable_of_iff (∀ entry ∈ pool.cache.frames.toList, entry.1.table = table →
    entry.2.frame.latch ≠ .exclusive)
    ⟨fun all page resident named present =>
      all (page, resident) (Std.ExtTreeMap.mem_toList_iff_getElem?_eq_some.mpr present) named,
    fun readable entry member named =>
      readable entry.1 entry.2 named (Std.ExtTreeMap.mem_toList_iff_getElem?_eq_some.mp member)⟩

def Finish.isScan : Finish → Bool
  | scanned _ _ | failed _ => true
  | locked | guarded _ | modified _ => false

def Progress.Clear (table : TableId) (pool : Pool) : Progress → Prop
  | running (.access access) => pool.Readable table ∧
    (∃ cursor toEnd, access.purpose = .visit cursor toEnd ∧ cursor.wanted toEnd = some access.page ∧
      cursor.file.table = table) ∧
    ∀ stay, access.phase = .use stay → ∃ resident, pool.cache.frames[access.page]? = some resident ∧
      resident.stay = stay ∧ resident.frame.pins ≠ 0
  | running (.extend _ _) => False
  | finished finish => finish.isScan = true

section Clear

variable {pool : Pool} {table : TableId} {page : PageId} {resident : Resident} {cache : Cache}
  {cursor : Cursor} {toEnd : Bool} {access : Access} {task : Task}

theorem Pool.Readable.replaces (readable : pool.Readable table)
    (replaces : Cache.Replaces page resident pool.cache cache)
    (free : page.table = table → resident.frame.latch ≠ .exclusive) (stats : Statistics) :
    ({ pool with cache, stats } : Pool).Readable table := by
  intro other found named present
  rcases replaces.cases present with ⟨rfl, rfl⟩ | ⟨_, present⟩
  · exact free named
  · exact readable other found named present

theorem Pool.Readable.makeRoom (readable : pool.Readable table) : pool.makeRoom.1.Readable table := by
  rcases pool.makeRoom_cases with same | ⟨cache, evicted, same⟩
  · rwa [same]
  · rw [same]
    intro other found named present
    obtain ⟨_, _, _, _, frames, _⟩ := Cache.of_evict evicted
    exact readable other found named (Cache.cached_of_left frames present).2

theorem Pool.Readable.load (readable : pool.Readable table) (heap : HeapPage) :
    ({ pool with cache := (pool.cache.load heap).1 } : Pool).Readable table := by
  intro other found named present
  have present : (pool.cache.load heap).1.frames[other]? = some found := present
  rw [Cache.getElem?_load] at present
  split at present
  · obtain rfl := Option.some.inj present
    simp [Frame.load, Frame.pin]
  · exact readable other found named present

theorem Cursor.clear_advance (cursor : Cursor) (readable : pool.Readable table)
    (named : cursor.file.table = table) (toEnd : Bool) :
    (cursor.advance toEnd).Clear table pool := by
  unfold Cursor.advance
  split
  · next page wanted =>
    exact ⟨readable, ⟨cursor, toEnd, rfl, wanted, named⟩, fun stay phase => by cases phase⟩
  · rfl

theorem Access.clear_answered (clear : (Progress.running (.access access)).Clear table pool)
    (locks : LockManager) (answer : LockAnswer) (early : 2 < access.phase.left)
    (waits : answer = .waiting → 3 < access.phase.left) :
    (access.answered { pool with locks } answer).2.left < (Task.access access).left ∧
      (access.answered { pool with locks } answer).2.Clear table
        (access.answered { pool with locks } answer).1 := by
  obtain ⟨owner, page, purpose, phase⟩ := access
  obtain ⟨readable, ⟨cursor, toEnd, rfl, wanted⟩, _⟩ := clear
  have early : 2 < phase.left := early
  have ends : 0 < (Task.access ⟨owner, page, .visit cursor toEnd, phase⟩).left :=
    Nat.lt_of_lt_of_le (Nat.zero_lt_of_lt early) (Nat.le_add_right _ _)
  cases answer with
  | granted =>
    exact ⟨Nat.add_lt_add_right early _, readable, ⟨cursor, toEnd, rfl, wanted⟩,
      fun stay phase => by cases phase⟩
  | waiting =>
    exact ⟨Nat.add_lt_add_right (waits rfl) _, readable, ⟨cursor, toEnd, rfl, wanted⟩,
      fun stay phase => by cases phase⟩
  | deadlock => exact ⟨ends, rfl⟩
  | timedOut => exact ⟨ends, rfl⟩

theorem Access.clear_pin (clear : (Progress.running (.access access)).Clear table pool)
    (phase : access.phase = .pin) :
    (access.pin pool).2.left < (Task.access access).left ∧
      (access.pin pool).2.Clear table (access.pin pool).1 := by
  obtain ⟨owner, page, purpose, _⟩ := access
  obtain ⟨readable, ⟨cursor, toEnd, rfl, wanted⟩, _⟩ := clear
  obtain rfl := phase
  have ends : 0 < (Task.access ⟨owner, page, .visit cursor toEnd, .pin⟩).left :=
    Nat.lt_of_lt_of_le Nat.two_pos (Nat.le_add_right _ _)
  have nearer : ∀ stay, (Task.access ⟨owner, page, .visit cursor toEnd, .use stay⟩).left <
      (Task.access ⟨owner, page, .visit cursor toEnd, .pin⟩).left :=
    fun stay => Nat.add_lt_add_right Nat.one_lt_two _
  have pins := pool.pin_pins page
  simp only [Access.pin]
  generalize pool.pin page = result at pins ⊢
  cases pins with
  | crowded resident present full failure => exact ⟨ends, rfl⟩
  | unread absent stats failure unread => exact ⟨ends, rfl⟩
  | homeless absent stats failure exhausted => exact ⟨ends, rfl⟩
  | hit resident present room stats =>
    have replaces := Cache.replaces_update present
      { resident.frame with pins := resident.frame.pins + 1 }
    refine ⟨nearer _, readable.replaces replaces (fun named => readable page resident named present)
      stats, ⟨cursor, toEnd, rfl, wanted⟩, fun stay phase => ?_⟩
    exact ⟨_, replaces.cached, Phase.use.inj phase, room⟩
  | loaded absent stats heap read roomy made =>
    have readable : ({ pool with stats } : Pool).Readable table := readable
    have roomed := readable.makeRoom
    rw [congrArg Prod.fst made] at roomed
    have named := (Pool.of_readPage read).1
    refine ⟨nearer _, roomed.load heap, ⟨cursor, toEnd, rfl, wanted⟩, fun stay phase => ?_⟩
    refine ⟨⟨roomy.cache.nextStay, (Frame.load heap).pin.1⟩, ?_, Phase.use.inj phase,
      by simp [Frame.load, Frame.pin]⟩
    show (roomy.cache.load heap).1.frames[page]? = _
    rw [Cache.getElem?_load, if_pos named.symm]

theorem Access.clear_use {stay : Nat} (clear : (Progress.running (.access access)).Clear table pool)
    (phase : access.phase = .use stay) :
    (access.use pool stay).2.left < (Task.access access).left ∧
      (access.use pool stay).2.Clear table (access.use pool stay).1 := by
  obtain ⟨owner, page, purpose, _⟩ := access
  obtain ⟨readable, ⟨cursor, toEnd, rfl, wanted, named⟩, attends⟩ := clear
  obtain rfl := phase
  obtain ⟨resident, present, rfl, pinned⟩ := attends _ rfl
  obtain ⟨_, more, rfl⟩ := Cursor.wanted_eq_some wanted
  obtain ⟨readers, latch⟩ : ∃ readers, resident.frame.latch = .shared readers := by
    have free := readable _ resident named present
    cases latch : resident.frame.latch with
    | shared readers => exact ⟨readers, rfl⟩
    | exclusive => exact absurd latch free
  obtain ⟨first, latched, replaces⟩ := Pool.latch_shared
    (Access.guard ⟨owner, _, .visit cursor toEnd, .use resident.stay⟩ resident.stay) present rfl rfl
    latch
  obtain ⟨cache, used, replaces⟩ := use_cached _ pinned (by simp) latched replaces
  have readable : ({ pool with cache } : Pool).Readable table :=
    readable.replaces replaces (fun _ => by simp [Frame.unlatch]) pool.stats
  have clear : ((cursor.visit resident.frame.page).advance toEnd).Clear table { pool with cache } :=
    (cursor.visit _).clear_advance readable named toEnd
  obtain ⟨left, _⟩ := Progress.left_advance pool (cursor.visit resident.frame.page) toEnd
  rw [used]
  refine ⟨Nat.lt_of_le_of_lt left ?_, clear⟩
  have counted := toNat_succ_of_lt more
  simp only [Cursor.visit, counted, Task.left, Phase.left, Purpose.left]
  omega

theorem Progress.Clear.move (clear : (Progress.running task).Clear table pool) :
    (task.move pool).2.left < task.left ∧ (task.move pool).2.Clear table (task.move pool).1 := by
  cases task with
  | extend owner job => exact clear.elim
  | access access =>
    obtain ⟨owner, page, purpose, phase⟩ := access
    cases phase with
    | ask =>
      exact Access.clear_answered clear _ _ (Nat.lt_add_of_pos_right Nat.two_pos) fun _ =>
        Nat.lt_succ_self 3
    | wait =>
      refine Access.clear_answered clear _ _ (Nat.lt_succ_self 2) fun waits => ?_
      exact absurd waits (LockManager.expire_ne_waiting _ _ _ _)
    | pin => exact Access.clear_pin clear rfl
    | use stay => exact Access.clear_use clear rfl

end Clear

/-- A scan that has no more tuples to hand out, and needs no page to find that out. -/
def Cursor.Spent (cursor : Cursor) : Prop := ∀ pool : Pool,
  pool.hasNext cursor = (pool, cursor, .ok false) ∧ pool.nextTuple cursor = (pool, cursor, .ok none)

def Cursor.begun (cursor : Cursor) (disk : Disk) : Cursor :=
  if cursor.isOpen then cursor else cursor.start disk

def Pool.stream (ask : Pool → Cursor → Pool × Cursor × Except Failure (Option Tuple)) (pool : Pool)
    (cursor : Cursor) : Nat → List (Except Failure (Option Tuple))
  | 0 => []
  | asked + 1 =>
    let (later, next, answer) := ask pool cursor
    answer :: later.stream ask next asked

def Pool.Comes (pool : Pool) (cursor : Cursor) : Prop :=
  ∃ later progress outcome, pool.run false (cursor.advance false) = (later, progress) ∧
    progress.outcome? cursor = some outcome

section Answer

variable {pool later : Pool} {cursor next : Cursor} {progress : Progress}

theorem Pool.advance_eq (ran : pool.run false (cursor.advance false) = (later, progress))
    {result : Except Failure Unit} (comes : progress.outcome? cursor = some (next, result)) :
    pool.advance cursor = (later, next, result) := by
  unfold Pool.advance
  rw [ran]
  unfold Progress.outcome? at comes
  split at comes <;> cases comes <;> rfl

theorem Pool.hasNext_eq (ran : pool.run false (cursor.advance false) = (later, progress))
    {answer : Except Failure Bool} (comes : progress.hasNext? cursor = some (next, answer)) :
    pool.hasNext cursor = (later, next, answer) := by
  obtain ⟨⟨last, result⟩, comes, same⟩ := Option.map_eq_some_iff.mp comes
  rw [Pool.hasNext, advance_eq ran comes]
  cases same
  cases result <;> rfl

theorem Pool.nextTuple_eq (ran : pool.run false (cursor.advance false) = (later, progress))
    {answer : Except Failure (Option Tuple)}
    (comes : progress.nextTuple? cursor = some (next, answer)) :
    pool.nextTuple cursor = (later, next, answer) := by
  obtain ⟨⟨last, result⟩, comes, same⟩ := Option.map_eq_some_iff.mp comes
  rw [Pool.nextTuple, advance_eq ran comes]
  cases result <;> cases same <;> rfl

theorem Progress.stage_of_outcome {call : Call} {outcome : Cursor × Except Failure Unit}
    (comes : progress.outcome? cursor = some outcome) : progress.stage call = .idle := by
  cases progress with
  | running task => cases comes
  | finished finish => rfl

theorem Pool.Readable.comes (readable : pool.Readable cursor.file.table) : pool.Comes cursor := by
  obtain ⟨fuel, enough, ran⟩ := pool.run_eq (cursor.advance false)
  obtain ⟨finish, ends, scans⟩ := Pool.runSteps_ends
    (fun pool progress => progress.Clear cursor.file.table pool) (fun _ _ => Progress.Clear.move) fuel
    (cursor.clear_advance readable rfl false) enough
  have scans : finish.isScan = true := scans
  have ran : pool.run false (cursor.advance false) =
      ((pool.runSteps false fuel (cursor.advance false)).1, .finished finish) := by
    rw [ran, ← ends]
  cases finish with
  | scanned next failure =>
    cases failure with
    | none => exact ⟨_, _, _, ran, rfl⟩
    | some failure => exact ⟨_, _, _, ran, rfl⟩
  | failed failure => exact ⟨_, _, _, ran, rfl⟩
  | locked => cases scans
  | guarded guard => cases scans
  | modified pages => cases scans

section Offered

variable (valid : pool.locks.table.Valid) (lined : pool.cache.Lined) (offered : cursor.Offered pool)

include valid lined offered

theorem Cursor.Offered.comes : pool.Comes cursor := by
  obtain ⟨later, next, ran, _⟩ := Pool.run_offered valid lined offered
  exact ⟨later, _, _, ran, rfl⟩

theorem Cursor.Offered.hasNext :
    ∃ later next more, pool.hasNext cursor = (later, next, .ok more) ∧ next.Offered later := by
  obtain ⟨later, next, ran, _, still⟩ := Pool.run_offered valid lined offered
  exact ⟨later, next, next.hasPending, Pool.hasNext_eq ran rfl, still⟩

theorem Cursor.Offered.nextTuple :
    ∃ later next tuple, pool.nextTuple cursor = (later, next, .ok tuple) ∧ later.cache.Lined ∧
      next.Offered later := by
  obtain ⟨later, next, ran, lined, still⟩ := Pool.run_offered valid lined offered
  exact ⟨later, next.pop.1, next.pop.2, Pool.nextTuple_eq ran rfl, lined, still.pop⟩

end Offered

theorem Cursor.pop_of_none (empty : cursor.pop.2 = none) : cursor.pop = (cursor, none) := by
  unfold Cursor.pop at empty ⊢
  split at empty
  · cases empty
  · rfl

theorem Cursor.spent (ready : cursor.wanted false = none) (empty : cursor.pop.2 = none) :
    cursor.Spent := by
  intro pool
  have ran : pool.run false (cursor.advance false) = (pool, .finished (.scanned cursor none)) := by
    rw [Cursor.advance, ready]
    rfl
  refine ⟨Pool.hasNext_eq ran ?_, Pool.nextTuple_eq ran ?_⟩
  · simp only [Progress.hasNext?, Progress.outcome?, Option.map_some, Cursor.hasPending_eq, empty]
    rfl
  · simp only [Progress.nextTuple?, Progress.outcome?, Option.map_some, Cursor.pop_of_none empty]

section Spent

variable {owner : TransactionId} {file : HeapFile} {contents : UInt32 → List Tuple} {reading : Reading}

theorem Progress.Iterates.spent_of_hasNext
    (iterates : progress.Iterates owner file contents reading pool)
    (place : cursor.At owner file contents reading)
    (comes : progress.hasNext? cursor = some (next, .ok false)) : next.Spent := by
  obtain ⟨⟨last, result⟩, comes, same⟩ := Option.map_eq_some_iff.mp comes
  obtain ⟨_, ready⟩ := iterates.outcome place comes
  cases result with
  | error failure => cases same
  | ok done =>
    obtain ⟨rfl, empty⟩ := Prod.mk.inj same
    have empty : last.hasPending = false := Except.ok.inj empty
    rw [Cursor.hasPending_eq, Option.isSome_eq_false_iff, Option.isNone_iff_eq_none] at empty
    exact Cursor.spent (ready rfl) empty

theorem Progress.Iterates.spent_of_nextTuple
    (iterates : progress.Iterates owner file contents reading pool)
    (place : cursor.At owner file contents reading)
    (comes : progress.nextTuple? cursor = some (next, .ok none)) : next.Spent := by
  obtain ⟨⟨last, result⟩, comes, same⟩ := Option.map_eq_some_iff.mp comes
  obtain ⟨_, ready⟩ := iterates.outcome place comes
  cases result with
  | error failure => cases same
  | ok done =>
    obtain ⟨rfl, empty⟩ := Prod.mk.inj same
    have empty : last.pop.2 = none := Except.ok.inj empty
    rw [Cursor.pop_of_none empty]
    exact Cursor.spent (ready rfl) empty

end Spent

end Answer

namespace Workload

variable {start : Disk} {hooks : Bool} {owner : TransactionId} {file : HeapFile}
  {contents : UInt32 → List Tuple} {reading : Reading} {first work : Workload} {cursor : Cursor}
  {progress : Progress}

theorem Resumes.runSteps (fuel : Nat)
    (resumes : Resumes hooks owner file contents reading cursor first work progress)
    (few : work.registrations ≤ 2 ^ 32)
    (rests : first.Rests start hooks owner file contents cursor reading) :
    ∃ later, Resumes hooks owner file contents reading cursor first later
        (work.pool.runSteps false fuel progress).2 ∧
      later.pool = (work.pool.runSteps false fuel progress).1 ∧
      later.registrations = work.registrations := by
  induction fuel generalizing work progress with
  | zero => cases progress <;> exact ⟨work, resumes, rfl, rfl⟩
  | succ fuel ih =>
    cases progress with
    | finished finish => exact ⟨work, resumes, rfl, rfl⟩
    | running task =>
      have stage := (resumes.pursues few rests).stage
      have same : ∀ {action : Action}, action.owner? = some owner →
          (work.after action).registrations = work.registrations := work.registrations_after
      rw [Pool.runSteps_running, Task.move]
      split
      · next waiting =>
        have expires := resumes.expires (by rw [stage]; exact waiting)
        have same : (work.next (.act (.expire owner))).registrations = work.registrations := same rfl
        rw [← (next_expire stage).1, ← same]
        exact ih expires (same ▸ few)
      · have advances := resumes.advances (by rw [stage]; rfl)
        have same : (work.next (.act (.advance owner))).registrations = work.registrations := same rfl
        rw [← (next_advance stage).1, ← same]
        exact ih advances (same ▸ few)

theorem Rests.resumes {pool : Pool} (rests : work.Rests start hooks owner file contents cursor reading)
    (few : work.registrations ≤ 2 ^ 32) (idle : work.stage owner = .idle)
    (ran : work.pool.run false (cursor.advance false) = (pool, progress)) :
    ∃ later, Resumes hooks owner file contents reading cursor work later progress ∧
      later.pool = pool ∧ later.registrations = work.registrations := by
  obtain ⟨fuel, _, same⟩ := work.pool.run_eq (cursor.advance false)
  have begins : Resumes hooks owner file contents reading cursor work _ _ := .begins idle
  have called : (work.next (.act (.call owner (.resume cursor)))).registrations = work.registrations :=
    work.registrations_after rfl
  obtain ⟨later, resumes, came, asked⟩ := begins.runSteps fuel (called ▸ few) rests
  rw [(work.next_call owner (.resume cursor)).1, ← same, ran] at resumes came
  exact ⟨later, resumes, came, asked.trans called⟩

/-- A call on a scan has the right answer or has failed, and its user can go on from where it leaves the
scan. When it answers that there are no more tuples, there are none from then on. -/
structure Answers {α : Type} (hooks : Bool) (owner : TransactionId) (file : HeapFile)
    (contents : UInt32 → List Tuple) (first : Workload) (reading : Reading) (right last : α)
    (result : Pool × Cursor × Except Failure α) : Prop where
  goesOn : ∃ later, later.pool = result.1 ∧ later.stage owner = .idle ∧
    later.registrations ≤ 2 ^ 32 ∧
    Iterated hooks owner file contents first later result.2.1 reading
  right : ∀ answer, result.2.2 = .ok answer → answer = right
  spent : result.2.2 = .ok last → result.2.1.Spent

theorem Iterated.hasNext (iterated : Iterated hooks owner file contents first work cursor reading)
    (few : work.registrations ≤ 2 ^ 32) (regular : first.Regular start hooks)
    (idle : work.stage owner = .idle) (comes : work.pool.Comes cursor) :
    Answers hooks owner file contents first reading (reading.next contents).isSome false
      (work.pool.hasNext cursor) := by
  obtain ⟨pool, progress, outcome, ran, comes⟩ := comes
  have rests := iterated.rests few regular
  obtain ⟨later, resumes, rfl, same⟩ := rests.resumes few idle ran
  obtain ⟨⟨next, answer⟩, answers⟩ : ∃ answered, progress.hasNext? cursor = some answered := by
    rw [Progress.hasNext?, comes]
    exact ⟨_, rfl⟩
  have pursues := resumes.pursues (same ▸ few) rests
  rw [Pool.hasNext_eq ran answers]
  refine ⟨⟨later, rfl, pursues.stage.trans (Progress.stage_of_outcome comes), same ▸ few,
    iterated.asked resumes answers⟩, (pursues.iterates.hasNext rests.place answers).2, ?_⟩
  rintro rfl
  exact pursues.iterates.spent_of_hasNext rests.place answers

theorem Iterated.nextTuple (iterated : Iterated hooks owner file contents first work cursor reading)
    (few : work.registrations ≤ 2 ^ 32) (regular : first.Regular start hooks)
    (idle : work.stage owner = .idle) (comes : work.pool.Comes cursor) :
    Answers hooks owner file contents first (reading.gave (work.pool.nextTuple cursor).2.2)
      (reading.next contents) none (work.pool.nextTuple cursor) := by
  obtain ⟨pool, progress, outcome, ran, comes⟩ := comes
  have rests := iterated.rests few regular
  obtain ⟨later, resumes, rfl, same⟩ := rests.resumes few idle ran
  obtain ⟨⟨next, answer⟩, answers⟩ : ∃ answered, progress.nextTuple? cursor = some answered := by
    rw [Progress.nextTuple?, comes]
    exact ⟨_, rfl⟩
  have pursues := resumes.pursues (same ▸ few) rests
  rw [Pool.nextTuple_eq ran answers]
  refine ⟨⟨later, rfl, pursues.stage.trans (Progress.stage_of_outcome comes), same ▸ few,
    iterated.took resumes answers⟩, (pursues.iterates.nextTuple rests.place answers).2, ?_⟩
  rintro rfl
  exact pursues.iterates.spent_of_nextTuple rests.place answers

theorem Iterated.begun (iterated : Iterated hooks owner file contents first work cursor reading)
    (few : work.registrations ≤ 2 ^ 32) (regular : first.Regular start hooks)
    (has : (reading.opened (file.numPages work.pool.disk)).Has work.pool file.table contents) :
    Iterated hooks owner file contents first work (cursor.begun work.pool.disk)
      (reading.opened (file.numPages work.pool.disk)) := by
  have agrees := (iterated.rests few regular).place.agrees
  cases reading with
  | closed =>
    have closed : cursor.isOpen = false := agrees
    rw [Cursor.begun, closed]
    exact iterated.started has
  | going count taken =>
    rw [Cursor.begun, agrees.opened]
    exact iterated

theorem Iterated.stream {count : UInt32} {taken : List Tuple}
    {ask : Pool → Cursor → Pool × Cursor × Except Failure (Option Tuple)}
    (same : ∀ (pool : Pool) (cursor : Cursor), cursor.isOpen = true →
      ask pool cursor = pool.nextTuple cursor)
    (iterated : Iterated hooks owner file contents first work cursor (.going count taken))
    (few : work.registrations ≤ 2 ^ 32) (regular : first.Regular start hooks)
    (idle : work.stage owner = .idle) (lined : work.pool.cache.Lined)
    (offered : cursor.Offered work.pool) (asked : Nat) :
    work.pool.stream ask cursor asked =
      (List.range asked).map fun number => .ok (tuplesOf contents count)[taken.length + number]? := by
  induction asked generalizing work cursor taken with
  | zero => rfl
  | succ asked ih =>
    have rests := iterated.rests few regular
    obtain ⟨pool, next, tuple, answers, lined', offered'⟩ :=
      offered.nextTuple rests.regular.current.fresh.sound.valid lined
    have right := iterated.nextTuple few regular idle
      (offered.comes rests.regular.current.fresh.sound.valid lined)
    rw [answers] at right
    obtain ⟨later, rfl, idle, few, goesOn⟩ := right.goesOn
    obtain rfl := right.right tuple rfl
    have rest : later.pool.stream ask next asked = (List.range asked).map fun number =>
        .ok (tuplesOf contents count)[taken.length + (number + 1)]? := by
      cases more : Reading.next contents (.going count taken) with
      | none =>
        rw [more] at goesOn
        -- There is nothing left, and so there is nothing after that.
        have ended : (tuplesOf contents count).length ≤ taken.length :=
          List.getElem?_eq_none_iff.mp more
        rw [ih goesOn few idle lined' offered']
        refine List.map_congr_left fun number _ => ?_
        rw [List.getElem?_eq_none (Nat.le_add_right_of_le ended),
          List.getElem?_eq_none (Nat.le_add_right_of_le ended)]
      | some tuple =>
        rw [more] at goesOn
        rw [ih goesOn few idle lined' offered']
        refine List.map_congr_left fun number _ => ?_
        rw [List.length_append, List.length_singleton, Nat.add_assoc, Nat.add_comm 1]
    rw [Pool.stream, same _ _ rests.place.agrees.opened, answers, List.range_succ_eq_map,
      List.map_cons, List.map_map]
    exact congrArg (_ :: ·) rest

end Workload
end PagedTables
