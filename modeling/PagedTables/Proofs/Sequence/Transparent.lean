import PagedTables.Proofs.Sequence.Operation
import PagedTables.Proofs.Workload.Reuse

/-! How many pages a cache has places for makes no difference but for the operations that find no place
at all: two pools that began alike go on alike. -/

namespace PagedTables

/-- The same, but for the stays that pages make in the two caches. -/
inductive Progress.Alike : Progress → Progress → Prop
  | same (progress : Progress) : Alike progress progress
  | uses (owner : TransactionId) (page : PageId) (purpose : Purpose) (stay stay' : Nat) :
      Alike (.running (.access ⟨owner, page, purpose, .use stay⟩))
        (.running (.access ⟨owner, page, purpose, .use stay'⟩))
  | guards (page : PageId) (writable : Bool) (stay stay' : Nat) :
      Alike (.finished (.guarded ⟨page, stay, writable⟩))
        (.finished (.guarded ⟨page, stay', writable⟩))

def Progress.isExhausted : Progress → Bool
  | running _ => false
  | finished finish => finish.isExhausted

/-- Both went alike, unless there was no room for a page in one of the pools. -/
def Matches (result result' : Pool × Progress) : Prop :=
  result.2.isExhausted = true ∨ result'.2.isExhausted = true ∨
    result.1.Alike result'.1 ∧ result.2.Alike result'.2

variable {start : Disk} {one other : Pool} {access : Access} {task task' : Task}
  {progress progress' : Progress}

theorem Purpose.isExhausted_failed (purpose : Purpose) (failure : Failure) :
    (purpose.failed failure).isExhausted = failure.isExhausted := by
  cases purpose <;> rfl

theorem Access.answered_congr (access : Access) (answer : LockAnswer) : ∃ progress, ∀ pool, ∃ stats,
    access.answered pool answer = ({ pool with stats }, progress) := by
  have still : ∀ progress, (∀ pool, access.answered pool answer = (pool, progress)) →
      ∃ progress, ∀ pool, ∃ stats, access.answered pool answer = ({ pool with stats }, progress) :=
    fun progress same => ⟨progress, fun pool => ⟨pool.stats, same pool⟩⟩
  obtain ⟨owner, page, purpose, phase⟩ := access
  cases answer with
  | waiting => exact still _ fun _ => rfl
  | timedOut => exact still _ fun _ => rfl
  | granted => cases purpose <;> exact still _ fun _ => rfl
  | deadlock =>
    cases purpose with
    | lock mode => exact still _ fun _ => rfl
    | guard mode => exact ⟨_, fun _ => ⟨_, rfl⟩⟩
    | place job stop => exact ⟨_, fun _ => ⟨_, rfl⟩⟩
    | claim job => exact ⟨_, fun _ => ⟨_, rfl⟩⟩
    | remove tuple remarked => exact ⟨_, fun _ => ⟨_, rfl⟩⟩
    | mark => exact ⟨_, fun _ => ⟨_, rfl⟩⟩
    | visit cursor toEnd => exact ⟨_, fun _ => ⟨_, rfl⟩⟩

theorem Access.matches_answered (alike : one.Alike other) (access : Access) (locks : LockManager)
    (answer : LockAnswer) :
    Matches (access.answered { one with locks } answer)
      (access.answered { other with locks } answer) := by
  obtain ⟨progress, same⟩ := access.answered_congr answer
  obtain ⟨stats, here⟩ := same { one with locks }
  obtain ⟨stats', there⟩ := same { other with locks }
  rw [here, there]
  have relocked := alike.relocked locks
  exact .inr (.inr ⟨⟨relocked.pageSize, relocked.disk, relocked.tables, relocked.nextTable, rfl,
    relocked.changed⟩, .same progress⟩)

theorem Access.matches_pin (fresh : one.Fresh start) (fresh' : other.Fresh start)
    (quiet : one.Quiet) (quiet' : other.Quiet) (alike : one.Alike other) (access : Access) :
    Matches (access.pin one) (access.pin other) := by
  have pools := (access.alike_pin one).symm.trans (alike.trans (access.alike_pin other))
  have pinned := access.pinned_pin fresh quiet
  have pinned' := access.pinned_pin fresh' quiet'
  have shown := alike.shown access.page
  generalize access.pin one = result at pinned pools ⊢
  generalize access.pin other = result' at pinned' pools ⊢
  have exhausts : ∀ failure : Failure, failure.isExhausted = true →
      (Progress.finished (access.purpose.failed failure)).isExhausted = true :=
    fun failure exhausted => (access.purpose.isExhausted_failed failure).trans exhausted
  cases pinned with
  | exhausted later quiet failure exhausted => exact .inl (exhausts failure exhausted)
  | unread later quiet failure unread =>
    cases pinned' with
    | exhausted later' quiet' failure' exhausted' => exact .inr (.inl (exhausts failure' exhausted'))
    | unread later' quiet' failure' unread' =>
      obtain rfl : failure = failure' := Except.error.inj (unread.symm.trans (shown.trans unread'))
      exact .inr (.inr ⟨pools, .same _⟩)
    | pinned later' stay' attends' heap' shown' => cases unread.symm.trans (shown.trans shown')
  | pinned later stay attends heap shows =>
    cases pinned' with
    | exhausted later' quiet' failure' exhausted' => exact .inr (.inl (exhausts failure' exhausted'))
    | unread later' quiet' failure' unread' => cases shows.symm.trans (shown.trans unread')
    | pinned later' stay' attends' heap' shows' => exact .inr (.inr ⟨pools, .uses _ _ _ _ _⟩)

theorem Access.matches_use (fresh : one.Fresh start) (fresh' : other.Fresh start)
    (alike : one.Alike other) (owner : TransactionId) (page : PageId) (purpose : Purpose)
    (stay stay' : Nat) (attends : one.Attends page stay (.shared 0))
    (attends' : other.Attends page stay' (.shared 0)) :
    Matches (use ⟨owner, page, purpose, .use stay⟩ one stay)
      (use ⟨owner, page, purpose, .use stay'⟩ other stay') := by
  refine .inr (.inr ?_)
  by_cases works : ∀ mode, purpose ≠ .guard mode
  · obtain ⟨resident, cache, frame, present, used, replaces, result, _⟩ :=
      Access.use_attended ⟨owner, page, purpose, .use stay⟩ attends works
    obtain ⟨resident', cache', frame', present', used', replaces', result', _⟩ :=
      Access.use_attended ⟨owner, page, purpose, .use stay'⟩ attends' works
    have same : resident.frame.page = resident'.frame.page := by
      have shown := alike.shown page
      rw [fresh.shown_cached present, fresh'.shown_cached present'] at shown
      exact Except.ok.inj shown
    have left : frame.page = frame'.page := by
      rw [result, result', same]
      rfl
    rw [used, used', same]
    exact ⟨alike.replaced replaces replaces' left, .same _⟩
  · obtain ⟨mode, rfl⟩ : ∃ mode, purpose = .guard mode := by simpa using works
    obtain ⟨_, cache, used, _, _, visited⟩ := guarded_attended owner mode attends
    obtain ⟨_, cache', used', _, _, visited'⟩ := guarded_attended owner mode attends'
    rw [used, used']
    exact ⟨visited.symm.trans (alike.trans visited'), .guards _ _ _ _⟩

theorem Progress.Alike.move (pools : one.Alike other) (alike : Alike (.running task) (.running task'))
    (alone : (Progress.running task).Alone start one)
    (alone' : (Progress.running task').Alone start other) :
    Matches (task.move one) (task'.move other) := by
  have used : ∀ (owner : TransactionId) (page : PageId) (purpose : Purpose) (stay stay' : Nat),
      (Progress.running (.access ⟨owner, page, purpose, .use stay⟩)).Alone start one →
      (Progress.running (.access ⟨owner, page, purpose, .use stay'⟩)).Alone start other →
        Matches ((Task.access ⟨owner, page, purpose, .use stay⟩).move one)
          ((Task.access ⟨owner, page, purpose, .use stay'⟩).move other) :=
    fun owner page purpose stay stay' alone alone' => Access.matches_use alone.fresh alone'.fresh pools
      owner page purpose stay stay' alone.attended alone'.attended
  -- Only stays can differ between the two, and nothing but the use of a page goes by its stay.
  cases alike with
  | uses owner page purpose stay stay' => exact used owner page purpose stay stay' alone alone'
  | same =>
    cases task with
    | extend owner job =>
      show Matches ((Task.extend owner job).step one) ((Task.extend owner job).step other)
      simp only [Task.step, Pool.appendPage, ← pools.disk]
      cases job.file.appendBlank one.disk with
      | error failure => exact .inr (.inr ⟨pools, .same _⟩)
      | ok result => exact .inr (.inr ⟨pools.rewritten result.1, .same _⟩)
    | access access =>
      obtain ⟨owner, page, purpose, phase⟩ := access
      cases phase with
      | use stay => exact used owner page purpose stay stay alone alone'
      | pin =>
        exact Access.matches_pin alone.fresh alone'.fresh alone.attended alone'.attended pools
          ⟨owner, page, purpose, .pin⟩
      | ask =>
        have asked := Access.matches_answered pools ⟨owner, page, purpose, .ask⟩
          (one.locks.acquire page owner purpose.mode).1 (one.locks.acquire page owner purpose.mode).2
        show Matches (Access.request _ one) (Access.request _ other)
        simpa only [Access.request, ← pools.locks] using asked
      | wait =>
        have asked := Access.matches_answered pools ⟨owner, page, purpose, .wait⟩
          (one.locks.expire page owner purpose.mode).1 (one.locks.expire page owner purpose.mode).2
        show Matches (Access.expire _ one) (Access.expire _ other)
        simpa only [Access.expire, ← pools.locks] using asked

theorem Progress.Alike.cases (alike : progress.Alike progress') :
    (∃ task task', progress = .running task ∧ progress' = .running task') ∨
      ∃ finish finish', progress = .finished finish ∧ progress' = .finished finish' := by
  cases alike with
  | same =>
    cases progress with
    | running task => exact .inl ⟨task, task, rfl, rfl⟩
    | finished finish => exact .inr ⟨finish, finish, rfl, rfl⟩
  | uses owner page purpose stay stay' => exact .inl ⟨_, _, rfl, rfl⟩
  | guards page writable stay stay' => exact .inr ⟨_, _, rfl, rfl⟩

theorem Progress.Alike.runSteps (fuel fuel' : Nat) (pools : one.Alike other)
    (alike : progress.Alike progress') (alone : progress.Alone start one)
    (alone' : progress'.Alone start other) (enough : progress.left ≤ fuel)
    (enough' : progress'.left ≤ fuel') :
    Matches (one.runSteps false fuel progress) (other.runSteps false fuel' progress') := by
  induction fuel generalizing fuel' one other progress progress' with
  | zero =>
    obtain ⟨task, task', rfl, rfl⟩ | ⟨finish, finish', rfl, rfl⟩ := alike.cases
    · exact absurd (Nat.lt_of_lt_of_le alone.move.1 enough) (Nat.not_lt_zero _)
    · rw [Pool.runSteps_finished, Pool.runSteps_finished]
      exact .inr (.inr ⟨pools, alike⟩)
  | succ fuel ih =>
    obtain ⟨task, task', rfl, rfl⟩ | ⟨finish, finish', rfl, rfl⟩ := alike.cases
    · obtain ⟨nearer, next⟩ := alone.move
      obtain ⟨nearer', next'⟩ := alone'.move
      obtain ⟨fuel', rfl⟩ : ∃ less, fuel' = less + 1 :=
        Nat.exists_eq_succ_of_ne_zero fun none =>
          absurd (Nat.lt_of_lt_of_le nearer' (none ▸ enough')) (Nat.not_lt_zero _)
      rw [Pool.runSteps_running, Pool.runSteps_running]
      have ended : ∀ (fuel : Nat) (result : Pool × Progress), result.2.isExhausted = true →
          (result.1.runSteps false fuel result.2).2.isExhausted = true := by
        rintro fuel ⟨pool, task | finish⟩ exhausted
        · cases exhausted
        · rw [Pool.runSteps_finished]
          exact exhausted
      rcases alike.move pools alone alone' with exhausted | exhausted | ⟨pools, alike⟩
      · exact .inl (ended fuel _ exhausted)
      · exact .inr (.inl (ended fuel' _ exhausted))
      · exact ih fuel' pools alike next next' (Nat.le_of_lt_succ (Nat.lt_of_lt_of_le nearer enough))
          (Nat.le_of_lt_succ (Nat.lt_of_lt_of_le nearer' enough'))
    · rw [Pool.runSteps_finished, Pool.runSteps_finished]
      exact .inr (.inr ⟨pools, alike⟩)

namespace Pool

variable {operation : Operation}

theorem Alike.begin (alike : one.Alike other) (call : Call) (owner : TransactionId) :
    call.begin one owner = call.begin other owner := by
  cases call with
  | fetch page mode => rfl
  | resume cursor => rfl
  | scan table => simp only [Call.begin, scanning, alike.file, alike.disk]
  | insert table tuple => simp only [Call.begin, insertion, alike.file, alike.disk]
  | delete tuple => simp only [Call.begin, deletion, alike.file]

theorem Alike.admits (alike : one.Alike other) (admits : one.Admits operation) :
    other.Admits operation := by
  cases operation with
  | create name schema => exact trivial
  | attach name schema =>
    have unregistered : one.Unregistered _ := admits
    have same : ∀ made, one.Unregistered made → other.Unregistered made := by
      intro made unregistered
      cases made with
      | error failure => exact trivial
      | ok file =>
        intro entry member
        exact unregistered entry (alike.tables ▸ member)
    rw [alike.disk, alike.nextTable, alike.pageSize] at unregistered
    exact same _ unregistered
  | call owner call => exact alike.bounded admits
  | rewind cursor => exact trivial
  | complete owner commit => exact trivial
  | hook hook => exact trivial

theorem alike_drop (pool : Pool) (guard : Guard) : pool.Alike (pool.drop guard).1 := by
  obtain ⟨cache, same, visits⟩ := pool.visits_drop guard
  rw [same]
  exact (Serves.of_visits visits pool.stats).alike

theorem isExhausted_answer {finish : Finish} (exhausted : finish.isExhausted = true) (pool : Pool) :
    (answer (pool, .finished finish)).2.isExhausted = true := by
  cases finish with
  | guarded guard => cases exhausted
  | failed failure => exact exhausted
  | locked => exact exhausted
  | modified pages => exact exhausted
  | scanned cursor failure => exact exhausted

theorem answer_guarded (alike : one.Alike other) {page : PageId} {writable : Bool} {stay stay' : Nat}
    (alone : (Progress.finished (.guarded ⟨page, stay, writable⟩)).Alone start one)
    (alone' : (Progress.finished (.guarded ⟨page, stay', writable⟩)).Alone start other) :
    (answer (one, .finished (.guarded ⟨page, stay, writable⟩))).2 =
        (answer (other, .finished (.guarded ⟨page, stay', writable⟩))).2 ∧
      (answer (one, .finished (.guarded ⟨page, stay, writable⟩))).1.Alike
        (answer (other, .finished (.guarded ⟨page, stay', writable⟩))).1 := by
  obtain ⟨latch, held, attends⟩ := alone.attended
  obtain ⟨latch', held', attends'⟩ := alone'.attended
  obtain ⟨_, heap, view, shown⟩ := attends.dropped alone.fresh held
  obtain ⟨_, heap', view', shown'⟩ := attends'.dropped alone'.fresh held'
  obtain rfl : heap = heap' :=
    Except.ok.inj (shown.symm.trans ((alike.shown page).trans shown'))
  refine ⟨?_, (one.alike_drop _).symm.trans (alike.trans (other.alike_drop _))⟩
  simp only [answer, view, view']

theorem answer_finished {finish : Finish} (unguarded : ∀ guard, finish ≠ .guarded guard)
    (pool : Pool) : answer (pool, .finished finish) = (pool, .ended finish) := by
  cases finish with
  | guarded guard => exact absurd rfl (unguarded guard)
  | failed failure => rfl
  | locked => rfl
  | modified pages => rfl
  | scanned cursor failure => rfl

theorem Alike.answer (alike : one.Alike other) {finish finish' : Finish}
    (same : Progress.Alike (.finished finish) (.finished finish'))
    (alone : (Progress.finished finish).Alone start one)
    (alone' : (Progress.finished finish').Alone start other) :
    (answer (one, .finished finish)).2 = (answer (other, .finished finish')).2 ∧
      (answer (one, .finished finish)).1.Alike (answer (other, .finished finish')).1 := by
  cases same with
  | guards page writable stay stay' => exact answer_guarded alike alone alone'
  | same =>
    by_cases guarded : ∃ guard, finish = .guarded guard
    · obtain ⟨guard, rfl⟩ := guarded
      exact answer_guarded alike alone alone'
    · have unguarded := fun guard same => guarded ⟨guard, same⟩
      rw [answer_finished unguarded, answer_finished unguarded]
      exact ⟨rfl, alike⟩

theorem Alike.hook (alike : one.Alike other) (free : one.Unlatched) (free' : other.Unlatched)
    (hook : Hook) :
    (hook.run one).1.Alike (hook.run other).1 ∧ (hook.run one).2 = (hook.run other).2 := by
  cases hook with
  | flushPage page => exact alike.flushPage (free page) (free' page)
  | flushHeld owner =>
    show (one.flushEach (one.heldPages owner)).1.Alike (other.flushEach (other.heldPages owner)).1 ∧
      (one.flushEach (one.heldPages owner)).2 = (other.flushEach (other.heldPages owner)).2
    rw [alike.heldPages]
    exact alike.flushEach free free' _
  | flushAll => exact alike.flushAll free free'
  | discardPage page => exact ⟨alike.discardPage page, rfl⟩
  | releasePage owner page => exact ⟨alike.releasePage owner page, rfl⟩

theorem Alike.perform (alike : one.Alike other) (settled : one.Settled start)
    (settled' : other.Settled start) (admits : one.Admits operation) :
    (one.perform operation).2.isExhausted = true ∨ (other.perform operation).2.isExhausted = true ∨
      (one.perform operation).2 = (other.perform operation).2 ∧
        (one.perform operation).1.Alike (other.perform operation).1 := by
  have free := settled.quiet.unlatched
  have free' := settled'.quiet.unlatched
  cases operation with
  | create name schema =>
    obtain ⟨pools, same⟩ := alike.createTable name schema
    exact .inr (.inr ⟨congrArg Answer.table same, pools⟩)
  | attach name schema =>
    obtain ⟨pools, same⟩ := alike.openTable name schema
    exact .inr (.inr ⟨congrArg Answer.table same, pools⟩)
  | rewind cursor =>
    exact .inr (.inr ⟨congrArg (fun disk => Answer.opened (cursor.rewind disk)) alike.disk, alike⟩)
  | complete owner commit =>
    obtain ⟨pools, same⟩ := alike.complete free free' owner commit
    exact .inr (.inr ⟨congrArg Answer.done same, pools⟩)
  | hook hook =>
    obtain ⟨pools, same⟩ := alike.hook free free' hook
    exact .inr (.inr ⟨congrArg Answer.done same, pools⟩)
  | call owner call =>
    have alone := settled.begins admits call owner
    have alone' := settled'.begins (alike.bounded admits) call owner
    rw [← alike.begin call owner] at alone'
    obtain ⟨fuel, enough, ran⟩ := one.run_eq (call.begin one owner)
    obtain ⟨fuel', enough', ran'⟩ := other.run_eq (call.begin one owner)
    -- The calls have fuel of their own in each pool; both come to their ends, so what the runs have
    -- in common is what the calls answer.
    have matched := (Progress.Alike.same (call.begin one owner)).runSteps fuel fuel' alike alone alone'
      enough enough'
    obtain ⟨finish, ends, alone⟩ := alone.runSteps fuel enough
    obtain ⟨finish', ends', alone'⟩ := alone'.runSteps fuel' enough'
    simp only [Pool.perform, ← alike.begin call owner, ran, ran']
    generalize one.runSteps false fuel (call.begin one owner) = result at matched ends alone ⊢
    generalize other.runSteps false fuel' (call.begin one owner) = result' at matched ends' alone' ⊢
    obtain ⟨later, _⟩ := result
    obtain ⟨later', _⟩ := result'
    obtain rfl := ends
    obtain rfl := ends'
    rcases matched with exhausted | exhausted | ⟨pools, same⟩
    · exact .inl (isExhausted_answer exhausted later)
    · exact .inr (.inl (isExhausted_answer exhausted later'))
    · exact .inr (.inr (pools.answer same alone alone'))

theorem settled_start {config : Config} {pool : Pool} (small : config.pageSize < 2 ^ 32)
    (made : Pool.start config start = .ok pool) : pool.Settled start := by
  refine ⟨fresh_start small made, fun page resident present => ?_⟩
  rw [start_eq made] at present
  simp [Cache.empty] at present

def performed (pool : Pool) (operations : List Operation) : Pool :=
  operations.foldl (fun pool operation => (pool.perform operation).1) pool

theorem trace_append (pool : Pool) (operations more : List Operation) :
    pool.trace (operations ++ more) =
      pool.trace operations ++ (pool.performed operations).trace more := by
  induction operations generalizing pool with
  | nil => rfl
  | cons operation operations ih => exact congrArg (_ :: ·) (ih _)

theorem admitsAll_append (pool : Pool) (operations more : List Operation) :
    pool.AdmitsAll (operations ++ more) ↔
      pool.AdmitsAll operations ∧ (pool.performed operations).AdmitsAll more := by
  induction operations generalizing pool with
  | nil => exact (and_iff_right trivial).symm
  | cons operation operations ih => exact (and_congr_right fun _ => ih _).trans and_assoc.symm

section Missing

variable {pool : Pool} {name : String} {cause : DiskError}
  (missing : pool.disk.find name = .error cause) (schema : Schema)

include missing

theorem perform_missing (count : Nat) : (pool.passed count).perform (.attach name schema) =
    (pool.passed (count + 1), .table (.error (.error (.disk cause)))) := by
  simp only [perform, openTable_passed missing schema count]

theorem performed_missing (count : Nat) :
    pool.performed (List.replicate count (.attach name schema)) = pool.passed count := by
  induction count with
  | zero => exact pool.passed_zero.symm
  | succ count ih =>
    have step := congrArg Prod.fst (perform_missing missing schema count)
    rw [List.replicate_succ', performed, List.foldl_append]
    exact (congrArg (fun pool => (perform pool (.attach name schema)).1) ih).trans step

theorem admitsAll_missing (count : Nat) :
    pool.AdmitsAll (List.replicate count (.attach name schema)) := by
  induction count with
  | zero => trivial
  | succ count ih =>
    rw [List.replicate_succ', admitsAll_append, performed_missing missing]
    refine ⟨ih, ?_, trivial⟩
    show Unregistered _ _
    rw [show HeapFile.attach (pool.passed count).disk _ _ _ _ = _ from
      HeapFile.attach_of_find missing _ _ _]
    trivial

theorem trace_missing (count : Nat) {result : Pool × Answer}
    (member : result ∈ pool.trace (List.replicate count (.attach name schema))) :
    result.2 = .table (.error (.error (.disk cause))) := by
  induction count with
  | zero => cases member
  | succ count ih =>
    rw [List.replicate_succ', trace_append, performed_missing missing, List.mem_append] at member
    rcases member with member | member
    · exact ih member
    · obtain rfl := List.mem_singleton.mp member
      exact congrArg Prod.snd (perform_missing missing schema count)

end Missing

section Asks

variable {pool : Pool} {fills reads : List Operation} {name : String} {cause : DiskError}
  (missing : (pool.performed fills).disk.find name = .error cause) {schema : Schema} {count : Nat}

include missing

theorem performed_asks : pool.performed (fills ++ List.replicate count (.attach name schema)) =
    (pool.performed fills).passed count := by
  rw [performed, List.foldl_append]
  exact performed_missing missing schema count

theorem trace_asks : pool.trace (fills ++ List.replicate count (.attach name schema) ++ reads) =
    pool.trace (fills ++ List.replicate count (.attach name schema)) ++
      ((pool.performed fills).passed count).trace reads := by
  rw [trace_append, performed_asks missing]

theorem roomy_asks (before : ∀ result ∈ pool.trace fills, result.2.isExhausted = false)
    (behind : ∀ result ∈ ((pool.performed fills).passed count).trace reads,
      result.2.isExhausted = false) :
    ∀ result ∈ pool.trace (fills ++ List.replicate count (.attach name schema) ++ reads),
      result.2.isExhausted = false := by
  intro result member
  rw [trace_asks missing, trace_append, List.mem_append, List.mem_append] at member
  rcases member with (member | member) | member
  · exact before result member
  · rw [trace_missing missing schema count member]
    rfl
  · exact behind result member

end Asks

/-- Two pools with places for different numbers of pages, over the same files, give the same answers
to the same operations, and leave the same locks and the same files after each; unless one of them
finds no place for a page. Every operation is answered. -/
theorem trace_alike {config : Config} {places : Nat} (small : config.pageSize < 2 ^ 32)
    (made : Pool.start config start = .ok one)
    (made' : Pool.start { config with poolPages := places } start = .ok other)
    (operations : List Operation) (admits : one.AdmitsAll operations)
    (few : operations.countP Operation.registers ≤ 2 ^ 32)
    (roomy : ∀ result ∈ one.trace operations, result.2.isExhausted = false)
    (roomy' : ∀ result ∈ other.trace operations, result.2.isExhausted = false) :
    List.Forall₂ (fun result result' => result.2 = result'.2 ∧ result.2.isUnfinished = false ∧
        result.1.locks = result'.1.locks ∧ result.1.disk = result'.1.disk)
      (one.trace operations) (other.trace operations) := by
  have settled := settled_start small made
  have settled' := settled_start (show ({ config with poolPages := places } : Config).pageSize < 2 ^ 32
    from small) made'
  have alike : one.Alike other := by
    rw [start_eq made, start_eq made']
    exact ⟨rfl, rfl, rfl, rfl, rfl, fun _ => rfl⟩
  have numbered : one.Numbered 0 := Workload.numbered_start made
  rw [← Nat.zero_add (operations.countP _)] at few
  clear made made'
  -- By induction on the operations: the pools stay alike and at rest, and the ids that are used up
  -- and those still to be asked for do not exceed the bound together.
  generalize 0 = count at numbered few
  induction operations generalizing one other count with
  | nil => exact .nil
  | cons operation operations ih =>
    obtain ⟨admitted, admits⟩ := admits
    have counted : count + [operation].countP Operation.registers +
        operations.countP Operation.registers ≤ 2 ^ 32 := by
      rwa [Nat.add_assoc, ← List.countP_append]
    have free : operation.registers = true → one.HasTableId := fun registers =>
      numbered.hasTableId (Nat.lt_of_lt_of_le (Nat.lt_add_of_pos_right
        (List.countP_pos_iff.mpr ⟨operation, List.mem_cons_self, registers⟩)) few)
    have free' : operation.registers = true → other.HasTableId := fun registers => by
      rw [HasTableId, ← alike.tables, ← alike.nextTable]
      exact free registers
    obtain ⟨here, roomy⟩ := List.forall_mem_cons.mp roomy
    obtain ⟨here', roomy'⟩ := List.forall_mem_cons.mp roomy'
    have numbered := numbered.perform operation
    obtain ⟨next, finished⟩ := settled.perform admitted free
    obtain ⟨next', _⟩ := settled'.perform (alike.admits admitted) free'
    rcases alike.perform settled settled' admitted with exhausted | exhausted | ⟨same, pools⟩
    · rw [here] at exhausted
      cases exhausted
    · rw [here'] at exhausted
      cases exhausted
    · exact .cons ⟨same, finished, pools.locks, pools.disk⟩
        (ih admits roomy roomy' next next' pools _ numbered counted)

/-- Two tables with a page each, written by one transaction and read by another: where there is place
for one page only, they drive each other out. -/
def turns : List Operation :=
  [.create "numbers" Workload.numbers, .create "letters" Workload.numbers,
    .call ⟨1⟩ (.insert ⟨0⟩ (.ofFields [.int 7])), .complete ⟨1⟩ true,
    .call ⟨2⟩ (.insert ⟨1⟩ (.ofFields [.int 8])), .call ⟨3⟩ (.scan ⟨1⟩), .complete ⟨2⟩ true,
    .call ⟨3⟩ (.scan ⟨0⟩), .call ⟨3⟩ (.fetch ⟨⟨1⟩, 0⟩ .exclusive), .complete ⟨3⟩ false]

theorem trace_alike_turns :
    let one := Workload.smallPool
    let other := { one with config := { one.config with poolPages := 2 } }
    (one.trace turns).map (fun result => result.1.cache.size) ≠
        (other.trace turns).map (fun result => result.1.cache.size) ∧
      List.Forall₂ (fun result result' => result.2 = result'.2 ∧ result.2.isUnfinished = false ∧
          result.1.locks = result'.1.locks ∧ result.1.disk = result'.1.disk)
        (one.trace turns) (other.trace turns) := by
  intro one other
  have made : Pool.start one.config .blank = .ok one := rfl
  have made' : Pool.start { one.config with poolPages := 2 } .blank = .ok other := rfl
  exact ⟨by decide +kernel, trace_alike (by decide) made made' turns (by decide +kernel)
    (by decide) (by decide +kernel) (by decide +kernel)⟩

/-- A table has the id of another one, of which a page is cached where there is place for two. There the
old page is shown, and elsewhere the page of the file. -/
theorem not_trace_alike :
    ¬∀ {start : Disk} {one other : Pool} {config : Config} {places : Nat}, config.pageSize < 2 ^ 32 →
      Pool.start config start = .ok one →
      Pool.start { config with poolPages := places } start = .ok other →
      ∀ operations : List Operation, one.AdmitsAll operations →
        (∀ result ∈ one.trace operations, result.2.isExhausted = false) →
        (∀ result ∈ other.trace operations, result.2.isExhausted = false) →
          List.Forall₂ (fun result result' => result.2 = result'.2) (one.trace operations)
            (other.trace operations) := by
  intro alike
  let one := Workload.archived
  let other := { one with config := { one.config with poolPages := 2 } }
  let fills : List Operation :=
    [.create "numbers" Workload.numbers, .create "letters" Workload.numbers,
      .call ⟨1⟩ (.insert ⟨0⟩ (.ofFields [.int 7])), .complete ⟨1⟩ true,
      .call ⟨1⟩ (.insert ⟨1⟩ (.ofFields [.int 8])), .complete ⟨1⟩ true]
  let asks := List.replicate (2 ^ 32 - 2) (Operation.attach "missing" Workload.numbers)
  let opens : Operation := .attach "archive" Workload.numbers
  let reads : Operation := .call ⟨2⟩ (.fetch ⟨⟨0⟩, 0⟩ .shared)
  have made : Pool.start one.config one.disk = .ok one := rfl
  have made' : Pool.start { one.config with poolPages := 2 } one.disk = .ok other := rfl
  have missing : (one.performed fills).disk.find "missing" =
      .error (.system SystemError.noSuchFile) := by decide +kernel
  have missing' : (other.performed fills).disk.find "missing" =
      .error (.system SystemError.noSuchFile) := by decide +kernel
  have admits : one.AdmitsAll (fills ++ asks ++ [opens, reads]) := by
    rw [admitsAll_append, admitsAll_append, performed_asks missing]
    exact ⟨⟨by decide +kernel, admitsAll_missing missing _ _⟩, by decide +kernel⟩
  have roomy : ∀ result ∈ one.trace (fills ++ asks ++ [opens, reads]),
      result.2.isExhausted = false :=
    roomy_asks missing (by decide +kernel) (by decide +kernel)
  have roomy' : ∀ result ∈ other.trace (fills ++ asks ++ [opens, reads]),
      result.2.isExhausted = false :=
    roomy_asks missing' (by decide +kernel) (by decide +kernel)
  have same := List.rel_reverse (alike (by decide) made made' _ admits roomy roomy')
  have rear : ∀ (pool : Pool) (front : List (Pool × Answer)),
      (front ++ pool.trace [opens, reads]).reverse =
        (pool.perform opens).1.perform reads :: pool.perform opens :: front.reverse :=
    fun _ _ => List.reverse_append
  rw [trace_asks missing, trace_asks missing', rear, rear, List.forall₂_cons] at same
  have last : ((((one.performed fills).passed (2 ^ 32 - 2)).perform opens).1.perform reads).2 =
      ((((other.performed fills).passed (2 ^ 32 - 2)).perform opens).1.perform reads).2 := same.1
  have differs :
      ((((one.performed fills).passed (2 ^ 32 - 2)).perform opens).1.perform reads).2.slots? ≠
        ((((other.performed fills).passed (2 ^ 32 - 2)).perform opens).1.perform reads).2.slots? := by
    decide +kernel
  exact differs (congrArg Answer.slots? last)

end Pool

end PagedTables
