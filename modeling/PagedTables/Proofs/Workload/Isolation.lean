import PagedTables.Proofs.Workload.Durable
import PagedTables.Proofs.Workload.Reuse

/-! What transactions see of each other. A page that is shown has the committed edits and the viewer's
own, and it stays so, but for edits of the viewer's, while the viewer goes on. -/

namespace PagedTables

section Sight

variable {pool : Pool} {task : Task} {page : PageId} {slots : Slots} {guard : Guard}

theorem Task.sight_eq_some (shown : task.sight pool = some (page, slots)) :
    ∃ owner purpose stay heap, task = access ⟨owner, page, purpose, .use stay⟩ ∧
      purpose ≠ .mark ∧ heap.slots = slots ∧ pool.cache.Shows page stay heap := by
  unfold sight at shown
  split at shown
  · cases shown
  · next owner place purpose stay other =>
    simp only [bind, Option.bind_eq_some_iff] at shown
    obtain ⟨latched, latch, heap, view, same⟩ := shown
    simp only [pure, Option.some.injEq, Prod.mk.injEq] at same
    obtain ⟨rfl, rfl⟩ := same
    obtain ⟨cache, rfl, visits⟩ := Pool.visits_latch latch
    refine ⟨owner, purpose, stay, heap, rfl, fun mark => other (mark ▸ rfl), rfl, ?_⟩
    exact (Pool.shows_of_view view).visits visits
  · cases shown

theorem Purpose.act_ne_guarded (owner : TransactionId) (heap : HeapPage) (purpose : Purpose) :
    (purpose.act owner heap).2 ≠ .finished (.guarded guard) := by
  have changed : ∀ page remarked,
      Progress.changed owner page remarked ≠ .finished (.guarded guard) := by
    intro page remarked
    cases remarked <;> simp [Progress.changed, Progress.ask]
  have tried : ∀ (job : Insertion) (full : Progress), full ≠ .finished (.guarded guard) →
      (job.tryPage owner heap full).2 ≠ .finished (.guarded guard) := by
    intro job full other
    rcases job.tryPage_cases owner heap full with
      ⟨progress, same, rfl | ⟨failure, rfl⟩⟩ | ⟨after, record, _, same⟩ <;> rw [same]
    · exact other
    · simp [Progress.failed]
    · exact changed _ _
  cases purpose with
  | lock mode => simp [act]
  | guard mode => simp [act]
  | mark => simp [act]
  | place job stop =>
    refine tried job _ ?_
    split <;> simp [Progress.ask]
  | claim job => exact tried job _ (by simp)
  | remove tuple remarked =>
    cases deleted : heap.delete tuple with
    | error failure => simp [act, deleted, Progress.failed]
    | ok after =>
      simp only [act, deleted]
      exact changed _ _
  | visit cursor toEnd =>
    simp only [act, Cursor.advance]
    split <;> simp [Progress.ask]

theorem Access.answered_ne_guarded (access : Access) (pool : Pool) (answer : LockAnswer) :
    (access.answered pool answer).2 ≠ .finished (.guarded guard) := by
  obtain ⟨owner, page, purpose, phase⟩ := access
  cases answer <;> cases purpose <;> simp [answered, Purpose.failed, Progress.failed]

theorem Task.sight_of_guarded (guarded : (task.step pool).2 = .finished (.guarded guard)) :
    ∃ heap, (task.step pool).1.view guard = some heap ∧
      task.sight pool = some (guard.page, heap.slots) := by
  cases task with
  | extend owner job =>
    unfold step at guarded
    cases made : pool.appendPage job.file with
    | mk later result => cases result <;> simp [made, Progress.failed, Progress.ask] at guarded
  | access access =>
    change (access.step pool).2 = _ at guarded
    show ∃ heap, (access.step pool).1.view guard = some heap ∧ _
    unfold Access.step at guarded ⊢
    split at guarded
    · exact absurd guarded (Access.answered_ne_guarded _ _ _)
    · split at guarded
      · exact absurd guarded (Access.answered_ne_guarded _ _ _)
      · cases guarded
    · unfold Access.pin at guarded
      split at guarded
      · cases purpose : access.purpose <;> simp [purpose, Purpose.failed] at guarded
      · cases guarded
    · next stay phase =>
      -- Only the use of a fetched page ends with a guard.
      have uses := access.use_uses pool stay
      generalize access.use pool stay = result at uses guarded ⊢
      cases uses with
      | blocked refused => cases guarded
      | gone latched latch absent => cases guarded
      | failed works latched latch heap view later failure drop => cases guarded
      | done works latched latch heap view later drop =>
        exact absurd guarded (Purpose.act_ne_guarded _ _ _)
      | guarded mode purpose latched latch heap view =>
        obtain rfl : access.guard stay = guard := by simpa using guarded
        refine ⟨heap, view, ?_⟩
        obtain ⟨owner, page, _, _⟩ := access
        obtain rfl : _ = Phase.use stay := phase
        obtain rfl : _ = Purpose.guard mode := purpose
        simp only [Access.guard] at latch view
        simp only [sight, latch, view, bind, Option.bind]
        rfl

end Sight

namespace Event

/-- Everything that was shown was as the committed edits and the viewer's own make it. -/
def Faithful (start : Disk) (pool : Pool) : List Event → Prop
  | [] => True
  | seen owner page slots :: earlier =>
    (∃ file, pool.tables[page.table]? = some file ∧
      file.replayed start page (committedEdits page earlier ++ openEdits owner page earlier) =
        .ok slots) ∧ Faithful start pool earlier
  | _ :: earlier => Faithful start pool earlier

variable {start : Disk} {pool later : Pool} {history : List Event}

theorem Faithful.mono (faithful : Faithful start pool history)
    (tables : ∀ (table : TableId) (file : HeapFile), pool.tables[table]? = some file →
      later.tables[table]? = some file) : Faithful start later history := by
  induction history with
  | nil => trivial
  | cons event history ih =>
    cases event with
    | seen owner page slots =>
      obtain ⟨⟨file, registered, same⟩, before⟩ := faithful
      exact ⟨⟨file, tables _ file registered, same⟩, ih before⟩
    | changed owner page edit => exact ih faithful
    | ended owner committed => exact ih faithful

theorem Faithful.changes (faithful : Faithful start pool history) (owner : TransactionId)
    (edit? : Option Edit) (pages : List PageId) :
    Faithful start pool
      ((pages.filterMap fun place => edit?.map fun edit => changed owner place edit) ++
        history) := by
  cases edit? with
  | none => simpa using faithful
  | some edit =>
    induction pages with
    | nil => exact faithful
    | cons page pages ih => exact ih

theorem Faithful.shown {earlier : List Event} {owner : TransactionId} {page : PageId} {slots : Slots}
    {since : List Event}
    (faithful : Faithful start pool (since ++ seen owner page slots :: earlier)) :
    ∃ file, pool.tables[page.table]? = some file ∧
      file.replayed start page (committedEdits page earlier ++ openEdits owner page earlier) =
        .ok slots := by
  induction since with
  | nil => exact faithful.1
  | cons event since ih =>
    cases event with
    | seen owner page slots => exact ih faithful.2
    | changed owner page edit => exact ih faithful
    | ended owner committed => exact ih faithful

end Event

namespace Workload

variable {start : Disk} {first work later : Workload} {owner : TransactionId} {call : Call}
  {task : Task} {page : PageId} {slots : Slots}

theorem Coherent.sight (coherent : work.Coherent start)
    (here : work.stage owner = .working call task)
    (shown : task.sight work.pool = some (page, slots)) :
    ∃ file, work.pool.tables[page.table]? = some file ∧
      file.replayed start page
        (Event.committedEdits page work.history ++ Event.openEdits owner page work.history) =
          .ok slots := by
  obtain ⟨rfl, ready⟩ := coherent.ready here
  obtain ⟨owner, purpose, stay, heap, rfl, other, rfl, shows⟩ := Task.sight_eq_some shown
  have fits : Access.Fits start work.ledger work.pool call ⟨owner, page, purpose, .use stay⟩ :=
    ready.fits
  obtain ⟨holds, _, file, registered, aside⟩ := fits.inUse stay rfl
  have pending : work.ledger.pending owner page = Event.openEdits owner page work.history := by
    have pending := ready.pending page
    rwa [Task.halfway_access, if_neg fun both => other both.1, List.append_nil] at pending
  refine ⟨file, registered, ?_⟩
  -- A page in the cache balances with the ledger; one aside is as it was when it left.
  obtain ⟨resident, stays, rfl, cached | ⟨gone, named⟩⟩ := shows
  · have view := (coherent.balanced page).logical_eq coherent.sound.valid registered holds.shared
    have unwritten : work.ledger.written owner page = [] := ready.unwritten page
    rw [unwritten, List.append_nil, pending] at view
    simp only [Pool.logical, Pool.heap?, cached, Option.map_some] at view
    exact view.symm
  · have same := aside resident gone stays named
    rwa [pending] at same

theorem faithful_follow {pool : Pool} (work : Workload)
    (faithful : Event.Faithful start pool work.history)
    (owner : TransactionId) (call : Call) (progress : Progress) :
    Event.Faithful start pool (work.follow owner call progress).history := by
  cases progress with
  | running task => exact faithful
  | finished finish =>
    cases finish with
    | modified pages => exact faithful.changes owner call.edit? pages
    | guarded guard => exact faithful
    | failed failure => exact faithful
    | locked => exact faithful
    | scanned cursor failure => exact faithful

theorem Coherent.faithful_after (coherent : work.Coherent start)
    (faithful : Event.Faithful start work.pool work.history) {action : Action}
    (enabled : work.Enabled action) (few : (work.after action).registrations ≤ 2 ^ 32) :
    Event.Faithful start (work.after action).pool (work.after action).history := by
  obtain ⟨_, turn⟩ := coherent.turn enabled few
  have kept : Event.Faithful start (work.after action).pool work.history :=
    faithful.mono turn.move.tables
  cases action with
  | create name schema => exact kept
  | attach name schema => exact kept
  | drop owner guard => exact kept
  | finish owner commit => exact kept
  | call owner call =>
    have pool : (work.after (.call owner call)).pool = work.pool := by simp [after]
    rw [pool] at kept ⊢
    exact faithful_follow work kept owner call _
  | advance owner =>
    cases here : work.stage owner with
    | working call task =>
      have tables := turn.move.tables
      simp only [after, here, follow_pool] at kept tables ⊢
      refine faithful_follow _ ?_ owner call _
      show Event.Faithful start (task.step work.pool).1 (work.look owner task).history
      rcases work.look_cases owner task with same | ⟨page, slots, shown, same⟩ <;> rw [same]
      · exact kept
      · -- What is shown now is what the ledger says of the page at this moment.
        obtain ⟨file, registered, view⟩ := coherent.sight here shown
        exact ⟨⟨file, tables _ file registered, view⟩, kept⟩
    | idle => simpa only [after, here] using kept
    | ending commit rest => simpa only [after, here] using kept
  | expire owner =>
    cases here : work.stage owner with
    | working call task =>
      simp only [after, here, follow_pool] at kept ⊢
      exact faithful_follow { work with pool := (task.expire work.pool).1 } kept owner call _
    | idle => simpa only [after, here] using kept
    | ending commit rest => simpa only [after, here] using kept
  | settle owner =>
    simp only [after] at kept ⊢
    split at kept <;> exact kept

theorem faithful_of_run {allowed : Action → Prop} (run : Run allowed first work)
    (few : work.registrations ≤ 2 ^ 32) (coherent : first.Coherent start)
    (faithful : Event.Faithful start first.pool first.history) :
    Event.Faithful start work.pool work.history := by
  induction run with
  | start => exact faithful
  | @step work action run kind enabled ih =>
    have few' := Nat.le_trans (work.registers_after action).le few
    exact (coherent_of_run run few' coherent).faithful_after (ih few') enabled few

theorem isEnding_after {action : Action} (quiet : (work.stage owner).isEnding = false)
    (enabled : work.Enabled action) (goes : ∀ commit, action ≠ .finish owner commit) :
    ((work.after action).stage owner).isEnding = false := by
  have followed : ∀ (work : Workload) (actor : TransactionId) (call : Call) (progress : Progress),
      (work.stage owner).isEnding = false →
        ((work.follow actor call progress).stage owner).isEnding = false := by
    intro work actor call progress quiet
    rw [follow_stage]
    by_cases mine : owner = actor
    · subst mine
      cases progress <;> simp [Progress.stage, Stage.isEnding]
    · rwa [Function.update_of_ne mine]
  have moved : ∀ (actor : TransactionId) (stage : Stage), owner ≠ actor →
      (Function.update work.stage actor stage owner).isEnding = false := by
    intro actor stage apart
    rwa [Function.update_of_ne apart]
  cases action with
  | create name schema => exact quiet
  | attach name schema => exact quiet
  | drop actor guard => exact quiet
  | call actor call => exact followed work actor call _ quiet
  | advance actor =>
    simp only [after]
    split
    · next call task here =>
      refine followed _ actor call _ ?_
      rcases work.look_cases actor task with same | ⟨page, slots, _, same⟩ <;> rw [same] <;>
        exact quiet
    · exact quiet
  | expire actor =>
    simp only [after]
    split
    · exact followed _ actor _ _ quiet
    · exact quiet
  | finish actor commit =>
    refine moved actor _ fun mine => ?_
    exact goes commit (mine ▸ rfl)
  | settle actor =>
    -- Only a transaction that ends settles its pages.
    have apart : owner ≠ actor := by
      rintro rfl
      cases here : work.stage owner with
      | idle => simp [Enabled, canSettle, here, Stage.isEnding] at enabled
      | working call task => simp [Enabled, canSettle, here, Stage.isEnding] at enabled
      | ending commit rest => simp [here, Stage.isEnding] at quiet
    simp only [after]
    split
    · exact moved actor _ apart
    · exact moved actor _ apart
    · exact quiet

theorem keeps_of_run {page : PageId} (coherent : work.Coherent start)
    (quiet : (work.stage owner).isEnding = false)
    (run : Run (fun action => ∀ commit, action ≠ .finish owner commit) work later)
    (few : later.registrations ≤ 2 ^ 32) :
    (later.stage owner).isEnding = false ∧ Keeps work later owner page ∧
      ∀ (table : TableId) (file : HeapFile), work.pool.tables[table]? = some file →
        later.pool.tables[table]? = some file := by
  induction run with
  | start => exact ⟨quiet, .refl work owner page, fun _ _ => id⟩
  | @step later action run goes enabled ih =>
    have few' := Nat.le_trans (later.registers_after action).le few
    obtain ⟨quiet', keeps, tables⟩ := ih few'
    obtain ⟨_, turn⟩ := (coherent_of_run run few' coherent).turn enabled few
    have quiet'' := isEnding_after quiet' enabled goes
    exact ⟨quiet'', keeps.trans (turn.keeps_any quiet' quiet'' page),
      fun table file registered => turn.move.tables table file (tables table file registered)⟩

theorem Coherent.logical_eq (coherent : work.Coherent start) {file : HeapFile}
    (registered : work.pool.tables[page.table]? = some file)
    (holds : work.pool.locks.table.Holds owner page .shared)
    (quiet : (work.stage owner).isEnding = false) :
    work.pool.logical file page = file.replayed start page
      (work.ledger.committed page ++ work.ledger.pending owner page) := by
  have view := (coherent.balanced page).logical_eq coherent.sound.valid registered holds
  rwa [written_of_not_ending quiet, List.append_nil] at view

/-- Transactions are isolated page by page. What is shown to one has all committed edits and its own;
so has the page of a guard that is given to it; and as soon as it has the lock of a page, and until it
begins to end, the page changes by its edits only. -/
theorem isolated {config : Config} {disk : Disk} {pool : Pool} (small : config.pageSize < 2 ^ 32)
    (begins : Pool.start config disk = .ok pool)
    (run : Run (fun _ => True) (Workload.start pool) work)
    (few : work.registrations ≤ 2 ^ 32) :
    (∀ since earlier owner page slots, work.history = since ++ .seen owner page slots :: earlier →
      ∃ file, work.pool.tables[page.table]? = some file ∧
        file.replayed disk page
          (Event.committedEdits page earlier ++ Event.openEdits owner page earlier) = .ok slots) ∧
    (∀ owner call task guard, work.stage owner = .working call task →
      (task.step work.pool).2 = .finished (.guarded guard) →
      ∃ file heap, work.pool.tables[guard.page.table]? = some file ∧
        (task.step work.pool).1.view guard = some heap ∧
        file.replayed disk guard.page (Event.committedEdits guard.page work.history ++
          Event.openEdits owner guard.page work.history) = .ok heap.slots) ∧
    ∀ owner page file, work.pool.locks.table.Holds owner page .shared →
      (work.stage owner).isEnding = false → work.pool.tables[page.table]? = some file →
      ∀ later, Run (fun action => ∀ commit, action ≠ .finish owner commit) work later →
        later.registrations ≤ 2 ^ 32 → later.pool.locks.table.Holds owner page .shared ∧
        ∃ edits, later.ledger.pending owner page = work.ledger.pending owner page ++ edits ∧
          later.pool.logical file page =
            (work.pool.logical file page).map (Edit.replay page edits) := by
  have begun := coherent_start small begins
  have coherent := coherent_of_run run few begun
  have faithful := faithful_of_run run few begun trivial
  refine ⟨fun since earlier owner page slots past => ?_, fun owner call task guard here given => ?_,
    fun owner page file holds quiet registered later onward few' => ?_⟩
  · rw [past] at faithful
    exact faithful.shown
  · obtain ⟨heap, view, shown⟩ := Task.sight_of_guarded given
    obtain ⟨file, registered, same⟩ := coherent.sight here shown
    exact ⟨file, heap, registered, view, same⟩
  · obtain ⟨quiet', keeps, tables⟩ := keeps_of_run coherent quiet onward few'
    have holds' := keeps.holds _ holds
    obtain ⟨edits, pending⟩ := keeps.pending
    refine ⟨holds', edits, pending, ?_⟩
    -- Before and after, the page is as its ledger says, and nobody else can commit edits of it.
    have coherent' := coherent_of_run onward few' coherent
    rw [coherent'.logical_eq (tables _ file registered) holds' quiet', keeps.committed holds, pending,
      ← List.append_assoc, HeapFile.replayed_append, coherent.logical_eq registered holds quiet]

/-- A reader is about to use a page that another transaction has filled and given back. -/
def readerArrives : List Action :=
  .create "numbers" numbers :: puts ⟨1⟩ 7 7 ++
    [.finish ⟨1⟩ true, .settle ⟨1⟩, .settle ⟨1⟩, .call ⟨2⟩ (.fetch ⟨⟨0⟩, 0⟩ .shared), .advance ⟨2⟩,
      .advance ⟨2⟩]

/-- It lets go of the page and adds a number, while a third transaction waits for the page. -/
def readerWrites : List Action :=
  [.advance ⟨2⟩, .drop ⟨2⟩ ⟨⟨⟨0⟩, 0⟩, 0, false⟩] ++ puts ⟨3⟩ 5 1 ++ puts ⟨2⟩ 9 6

theorem isolated_reader :
    let work := readerArrives.foldl after (Workload.start smallPool)
    let later := readerWrites.foldl after work
    let page : PageId := ⟨⟨0⟩, 0⟩
    let task := Task.access ⟨⟨2⟩, page, .guard .shared, .use 0⟩
    (∃ file, work.pool.tables[page.table]? = some file ∧
      file.replayed .blank page [] = .ok [none, none, none]) ∧
    (∃ file heap, work.pool.tables[page.table]? = some file ∧
      (task.step work.pool).1.view ⟨page, 0, false⟩ = some heap ∧
      file.replayed .blank page [.insert (.ofFields [.int 7])] = .ok heap.slots) ∧
    later.pool.locks.table.Holds ⟨2⟩ page .shared ∧
      ∃ file, work.pool.tables[page.table]? = some file ∧
        later.pool.logical file page = (work.pool.logical file page).map
          (Edit.replay page [.insert (.ofFields [.int 9])]) := by
  intro work later page task
  have begins : Pool.start smallPool.config .blank = .ok smallPool := rfl
  have run : Run (fun _ => True) (Workload.start smallPool) work :=
    Run.of_legal readerArrives .start (fun _ _ => trivial) (by decide +kernel)
  have onward : Run (fun action => ∀ commit, action ≠ .finish ⟨2⟩ commit) work later :=
    Run.of_legal readerWrites .start (by simp [readerWrites, puts]) (by decide +kernel)
  have few : work.registrations ≤ 2 ^ 32 := by decide +kernel
  obtain ⟨shown, fetched, kept⟩ := isolated (by decide) begins run few
  have present : work.pool.tables[page.table]?.isSome = true := by decide +kernel
  obtain ⟨file, registered⟩ := Option.isSome_iff_exists.mp present
  have history : work.history = [.ended ⟨1⟩ true, .changed ⟨1⟩ page (.insert (.ofFields [.int 7]))] ++
      .seen ⟨1⟩ page [none, none, none] :: [] := by decide +kernel
  have reading : work.stage ⟨2⟩ = .working (.fetch page .shared) task := by decide +kernel
  have given : (task.step work.pool).2 = .finished (.guarded ⟨page, 0, false⟩) := by decide +kernel
  have locked : page ∈ work.pool.heldPages ⟨2⟩ := by decide +kernel
  have holds := (mem_heldPages (coherent_of_run run few (coherent_start (by decide) begins)).sound).mp
    locked
  have quiet : (work.stage ⟨2⟩).isEnding = false := by rw [reading]; rfl
  have first := shown _ _ _ _ _ history
  have second := fetched _ _ _ _ reading given
  obtain ⟨holds', edits, pending, same⟩ :=
    kept _ _ _ holds quiet registered later onward (by decide +kernel)
  have before : work.ledger.pending ⟨2⟩ page = [] := by decide +kernel
  have after : later.ledger.pending ⟨2⟩ page = [.insert (.ofFields [.int 9])] := by decide +kernel
  rw [before, after, List.nil_append] at pending
  rw [history] at second
  exact ⟨first, second, holds', file, registered, pending ▸ same⟩

/-- A table has the id and the cached page of another one, and a reader is shown what was put into the
other. -/
theorem not_isolated :
    ¬∀ {config : Config} {disk : Disk} {pool : Pool} {work : Workload},
      config.pageSize < 2 ^ 32 → Pool.start config disk = .ok pool →
      Run (fun _ => True) (Workload.start pool) work →
        ∀ since earlier owner page slots, work.history = since ++ .seen owner page slots :: earlier →
          ∃ file, work.pool.tables[page.table]? = some file ∧
            file.replayed disk page
              (Event.committedEdits page earlier ++ Event.openEdits owner page earlier) = .ok slots := by
  intro isolated
  let page : PageId := ⟨⟨0⟩, 0⟩
  let fills : List Action := .create "numbers" numbers :: filling
  let filled := fills.foldl after (Workload.start archived)
  let reads : List Action := .attach "archive" numbers :: .call ⟨2⟩ (.fetch page .shared) ::
    List.replicate 3 (.advance ⟨2⟩)
  let work := reads.foldl after (filled.passed (2 ^ 32 - 1))
  let slots : Slots := [some ⟨[.int 7], some ⟨page, 0⟩⟩, none, none]
  have made : Pool.start archived.config archived.disk = .ok archived := rfl
  have run : Run (fun _ => True) (Workload.start archived) filled :=
    .of_legal fills .start (fun _ _ => trivial) (by decide +kernel)
  have missing : filled.pool.disk.find "missing" = .error (.system SystemError.noSuchFile) := by
    decide +kernel
  have passed := run.passed missing numbers trivial (2 ^ 32 - 1)
  have onward : Run (fun _ => True) (Workload.start archived) work :=
    passed.of_legal reads (fun _ _ => trivial) (by decide +kernel)
  have seen : work.history = [] ++ .seen ⟨2⟩ page slots :: filled.history := by decide +kernel
  have differs : (work.pool.tables[page.table]?.all fun file =>
      file.replayed archived.disk page (Event.committedEdits page filled.history ++
        Event.openEdits ⟨2⟩ page filled.history) ≠ .ok slots) = true := by decide +kernel
  obtain ⟨file, registered, same⟩ := isolated (by decide) made onward _ _ _ _ _ seen
  rw [registered] at differs
  exact of_decide_eq_true differs same

end Workload

end PagedTables
