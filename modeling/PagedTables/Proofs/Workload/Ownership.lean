import PagedTables.Proofs.Pool.Deed
import PagedTables.Proofs.Workload.Course

/-! Transactions step by step on the pages of a pool. Each works under the locks that it has been
granted, so a page that one of them has changed is safe from all others until that one ends. -/

namespace PagedTables

def Purpose.Mine (owner : TransactionId) : Purpose → Prop
  | visit cursor _ => cursor.owner = owner
  | _ => True

/-- A task pins and uses a page under its transaction's lock. -/
def Task.Grips (table : LockTable) (owner : TransactionId) : Task → Prop
  | access current =>
    current.owner = owner ∧ current.purpose.Mine owner ∧
      (current.phase = .pin ∨ (∃ stay, current.phase = .use stay) →
        table.Holds owner current.page current.purpose.mode)
  | extend worker _ => worker = owner

def Progress.Grips (table : LockTable) (owner : TransactionId) : Progress → Prop
  | running task => task.Grips table owner
  | finished _ => True

section Grip

variable {table : LockTable} {owner : TransactionId} {pool : Pool} {task : Task}
  {result : Pool × Progress}

theorem Task.Grips.mono {table later : LockTable} {task : Task} (grips : task.Grips table owner)
    (holds : ∀ page mode, table.Holds owner page mode → later.Holds owner page mode) :
    task.Grips later owner := by
  cases task with
  | extend worker job => exact grips
  | access access => exact ⟨grips.1, grips.2.1, fun late => holds _ _ (grips.2.2 late)⟩

theorem Progress.grips_ask {purpose : Purpose} (mine : purpose.Mine owner) (page : PageId) :
    (Progress.ask owner page purpose).Grips table owner :=
  ⟨rfl, mine, fun early => by simp at early⟩

theorem Progress.grips_advance (cursor : Cursor) (mine : cursor.owner = owner) (toEnd : Bool) :
    (cursor.advance toEnd).Grips table owner := by
  subst mine
  unfold Cursor.advance
  split
  · exact grips_ask (show (Purpose.visit cursor toEnd).Mine cursor.owner from rfl) _
  · exact trivial

theorem Purpose.Leads.grips {heap : HeapPage} {purpose : Purpose} {progress : Progress}
    (leads : purpose.Leads owner heap progress) (mine : purpose.Mine owner) :
    progress.Grips table owner := by
  cases leads with
  | ended finish closes => exact trivial
  | remarked => exact Progress.grips_ask (show Purpose.mark.Mine owner from trivial) _
  | passed job stop more =>
    exact Progress.grips_ask (show (Purpose.place job stop).Mine owner from trivial) _
  | filled job wants => exact (rfl : owner = owner)
  | visited cursor toEnd => exact Progress.grips_advance (cursor.visit heap) mine toEnd

theorem Task.StepsTo.grips (steps : StepsTo pool task result)
    (grips : task.Grips pool.locks.table owner) :
    result.2.Grips result.1.locks.table owner := by
  cases steps with
  | granted access locks further holds =>
    obtain ⟨rfl, mine, _⟩ := grips
    exact ⟨rfl, mine, fun _ => holds⟩
  | refused access locks further => exact ⟨grips.1, grips.2.1, fun early => by simp at early⟩
  | stopped access locks further stats finish stops => exact trivial
  | pinned access phase later serves size resident present =>
    exact ⟨grips.1, grips.2.1, fun _ => serves.locks.symm ▸ grips.2.2 (.inl phase)⟩
  | homeless access phase later serves size finish stops => exact trivial
  | looked access stay phase cache visits => exact grips
  | guarded access stay phase cache visits => exact trivial
  | used access stay phase cache rewrites heap shows progress leads =>
    obtain ⟨rfl, mine, _⟩ := grips
    exact leads.grips mine
  | appended worker job disk page appends =>
    obtain rfl : worker = owner := grips
    exact Progress.grips_ask (show (Purpose.claim job).Mine worker from trivial) page
  | unextended worker job failure => exact trivial
  | idled => exact grips

theorem Call.Begins.grips {call : Call} {progress : Progress}
    (begins : call.Begins pool owner progress) : progress.Grips table owner := by
  cases begins with
  | failed failure => exact trivial
  | fetches page mode =>
    exact Progress.grips_ask (show (Purpose.guard mode).Mine owner from trivial) page
  | scans table file registered => exact Progress.grips_advance _ rfl _
  | resumes cursor => exact Progress.grips_advance _ rfl _
  | places table tuple file registered some =>
    exact Progress.grips_ask (show (Purpose.place _ _).Mine owner from trivial) _
  | appends table tuple file registered none => exact (rfl : owner = owner)
  | removes tuple record placed =>
    exact Progress.grips_ask (show (Purpose.remove tuple true).Mine owner from trivial) _

theorem Task.StepsTo.deed (steps : StepsTo pool task result)
    (grips : task.Grips pool.locks.table owner) :
    pool.Deed owner result.1 ∨ ∃ job disk page, task = .extend owner job ∧
      job.file.appendBlank pool.disk = .ok (disk, page) ∧ result.1 = { pool with disk } := by
  cases steps with
  | granted access locks further holds => exact .inl (.relocked locks further pool.stats)
  | refused access locks further => exact .inl (.relocked locks further pool.stats)
  | stopped access locks further stats finish stops => exact .inl (.relocked locks further stats)
  | pinned access phase later serves size resident present => exact .inl (.served _ later serves)
  | homeless access phase later serves size finish stops => exact .inl (.served _ later serves)
  | looked access stay phase cache visits => exact .inl (.served _ _ (.of_visits visits pool.stats))
  | guarded access stay phase cache visits =>
    exact .inl (.served _ _ (.of_visits visits pool.stats))
  | used access stay phase cache rewrites heap shows progress leads =>
    obtain ⟨rfl, _, holds⟩ := grips
    exact .inl (.used access stay (holds (.inr ⟨stay, phase⟩)) cache rewrites)
  | appended worker job disk page appends =>
    obtain rfl : worker = owner := grips
    exact .inr ⟨job, disk, page, rfl, appends, rfl⟩
  | unextended worker job failure => exact .inl (.relocked _ (.of_same rfl rfl) _)
  | idled => exact .inl (.relocked _ (.of_same rfl rfl) _)

end Grip

namespace Pool

variable {pool : Pool} {page : PageId}

theorem register_cases (pool : Pool) (made : Except Failure HeapFile) :
    ∃ tables nextTable, (pool.register made).1 = { pool with tables, nextTable } := by
  unfold register
  cases made with
  | error failure => exact ⟨pool.tables, _, rfl⟩
  | ok file => exact ⟨_, _, rfl⟩

theorem createTable_cases (pool : Pool) (name : String) (schema : Schema) :
    ∃ disk tables nextTable,
      (pool.createTable name schema).1 = { pool with disk, tables, nextTable } ∧
        Stores pool none disk := by
  unfold createTable HeapFile.create
  cases added : pool.disk.add name (.file .empty) with
  | error cause =>
    obtain ⟨tables, nextTable, same⟩ := register_cases pool (.error (.error (.disk cause)))
    exact ⟨pool.disk, tables, nextTable, same, .nothing⟩
  | ok result =>
    obtain ⟨disk, path⟩ := result
    obtain ⟨tables, nextTable, same⟩ := register_cases { pool with disk }
      (HeapFile.ofEntry path ⟨pool.nextTable⟩ schema pool.config.pageSize)
    exact ⟨disk, tables, nextTable, same, .created name path disk added⟩

end Pool

def Action.worker? : Action → Option TransactionId
  | advance owner | expire owner => some owner
  | _ => none

namespace Workload

/-- What is done to the files in one step, but for the cached pages that are written. -/
inductive Filing (work : Workload) : Action → Pool → Prop
  | created (name : String) (schema : Schema) :
      Filing work (.create name schema) (work.pool.createTable name schema).1
  | opened (name : String) (schema : Schema) :
      Filing work (.attach name schema) (work.pool.openTable name schema).1
  | appended (owner : TransactionId) (call : Call) (job : Insertion)
      (here : work.stage owner = .working call (.extend owner job)) (disk : Disk) (page : PageId)
      (appends : job.file.appendBlank work.pool.disk = .ok (disk, page)) :
      Filing work (.advance owner) { work.pool with disk }

/-- What a transaction is doing is covered by its locks; when it ends, what it has changed is still to
be settled. -/
structure Gripped (work : Workload) (owner : TransactionId) : Prop where
  working : ∀ call task, work.stage owner = .working call task →
    task.Grips work.pool.locks.table owner
  ending : ∀ commit rest, work.stage owner = .ending commit rest →
    (∀ page ∈ rest, work.pool.locks.table.Holds owner page .shared) ∧
    ∀ (page : PageId) (resident : Resident), work.pool.cache.frames[page]? = some resident →
      resident.frame.page.dirtiedBy = some owner → page ∈ rest

structure Orderly (work : Workload) : Prop where
  owned : work.pool.Owned
  gripped : ∀ owner, work.Gripped owner

variable {work later : Workload} {action : Action} {owner other : TransactionId} {pool : Pool}

theorem Filing.cases (filing : work.Filing action pool) : ∃ disk tables nextTable,
    pool = { work.pool with disk, tables, nextTable } ∧ work.pool.Stores none disk := by
  cases filing with
  | created name schema => exact work.pool.createTable_cases name schema
  | opened name schema =>
    obtain ⟨tables, nextTable, same⟩ := work.pool.register_cases
      (HeapFile.attach work.pool.disk name ⟨work.pool.nextTable⟩ schema work.pool.config.pageSize)
    exact ⟨work.pool.disk, tables, nextTable, same, .nothing⟩
  | appended owner call job here disk page appends =>
    exact ⟨disk, work.pool.tables, work.pool.nextTable, rfl, .appended job.file disk page appends⟩

theorem Filing.cache (filing : work.Filing action pool) : pool.cache = work.pool.cache := by
  obtain ⟨_, _, _, same, _⟩ := filing.cases
  rw [same]

theorem look_rests (work : Workload) (owner : TransactionId) (task : Task) :
    (work.look owner task).stage = work.stage ∧ (work.look owner task).guards = work.guards := by
  rcases work.look_cases owner task with same | ⟨page, slots, _, same⟩ <;> rw [same] <;>
    exact ⟨rfl, rfl⟩

theorem next_of_ne (work : Workload) (apart : action.owner? ≠ some other) :
    (work.next (.act action)).stage other = work.stage other ∧
      (work.next (.act action)).guards other = work.guards other := by
  have moved : ∀ {α : Type} {actor : TransactionId} (given : TransactionId → α) (new : α),
      action.owner? = some actor → Function.update given actor new other = given other := by
    intro α actor given new mine
    refine Function.update_of_ne ?_ _ _
    rintro rfl
    exact apart mine
  have followed : ∀ {actor : TransactionId} (before : Workload) (call : Call)
      (progress : Progress), before.stage = work.stage → before.guards = work.guards →
        action.owner? = some actor →
          (before.follow actor call progress).stage other = work.stage other ∧
            (before.follow actor call progress).guards other = work.guards other := by
    intro actor before call progress stage guards mine
    rw [follow_stage, follow_guards, stage, guards]
    exact ⟨moved _ _ mine, moved _ _ mine⟩
  cases action with
  | create name schema => exact ⟨rfl, rfl⟩
  | attach name schema => exact ⟨rfl, rfl⟩
  | drop actor guard => exact ⟨rfl, moved _ _ rfl⟩
  | call actor call => exact followed work call _ rfl rfl rfl
  | finish actor commit => exact ⟨moved _ _ rfl, rfl⟩
  | advance actor =>
    simp only [next, after]
    split
    · next call task _ =>
      obtain ⟨stage, guards⟩ := work.look_rests actor task
      exact followed _ _ _ stage guards rfl
    · exact ⟨rfl, rfl⟩
  | expire actor =>
    simp only [next, after]
    split
    · exact followed _ _ _ rfl rfl rfl
    · exact ⟨rfl, rfl⟩
  | settle actor =>
    simp only [next, after, giveUp]
    split
    · split
      · exact ⟨moved _ _ rfl, rfl⟩
      · exact ⟨moved _ _ rfl, rfl⟩
      · exact ⟨rfl, rfl⟩
    · exact ⟨moved _ _ rfl, rfl⟩

theorem stage_next_of_ne (work : Workload) (apart : action.owner? ≠ some other) :
    (work.next (.act action)).stage other = work.stage other := (work.next_of_ne apart).1

theorem stage_foldl_of_ne (actions : List Action)
    (apart : ∀ action ∈ actions, action.owner? ≠ some other) (work : Workload) :
    ((actions.map Step.act).foldl next work).stage other = work.stage other := by
  induction actions generalizing work with
  | nil => rfl
  | cons action actions ih =>
    obtain ⟨first, rest⟩ := List.forall_mem_cons.mp apart
    exact (ih rest _).trans (work.stage_next_of_ne first)

theorem stage_foldl_of_not_mem {owners : List TransactionId} (stranger : other ∉ owners)
    (actions : List Action) (known : actions.all (·.owner?.all (· ∈ owners)) = true)
    (work : Workload) : ((actions.map Step.act).foldl next work).stage other = work.stage other := by
  refine stage_foldl_of_ne actions (fun action member mine => stranger ?_) work
  have known := List.all_eq_true.mp known action member
  rw [mine] at known
  exact of_decide_eq_true known

theorem next_call (work : Workload) (owner : TransactionId) (call : Call) :
    (work.next (.act (.call owner call))).pool = work.pool ∧
      (work.next (.act (.call owner call))).stage owner =
        (call.begin work.pool owner).stage call := by
  simp only [next, after, follow_pool, follow_stage, Function.update_self, and_self]

theorem next_advance {call : Call} {task : Task} (here : work.stage owner = .working call task) :
    (work.next (.act (.advance owner))).pool = (task.step work.pool).1 ∧
      (work.next (.act (.advance owner))).stage owner =
        (task.step work.pool).2.stage call := by
  simp only [next, after, here, follow_pool, follow_stage, Function.update_self, and_self]

theorem next_expire {call : Call} {task : Task} (here : work.stage owner = .working call task) :
    (work.next (.act (.expire owner))).pool = (task.expire work.pool).1 ∧
      (work.next (.act (.expire owner))).stage owner =
        (task.expire work.pool).2.stage call := by
  simp only [next, after, here, follow_pool, follow_stage, Function.update_self, and_self]

theorem exists_working {stage : Stage} (working : stage.isWorking = true) :
    ∃ call task, stage = .working call task := by
  cases stage with
  | working call task => exact ⟨call, task, rfl⟩
  | idle => cases working
  | ending commit rest => cases working

theorem exists_ending {stage : Stage} (ending : stage.isEnding = true) :
    ∃ commit rest, stage = .ending commit rest := by
  cases stage with
  | ending commit rest => exact ⟨commit, rest, rfl⟩
  | idle => cases ending
  | working call task => cases ending

theorem exists_stepsTo (possible : work.Possible (.act action))
    (works : action.worker? = some owner) :
    ∃ call task result, work.stage owner = .working call task ∧ task.StepsTo work.pool result ∧
      (work.next (.act action)).pool = result.1 ∧
      (work.next (.act action)).stage owner = result.2.stage call ∧
      ∀ worker job, task = .extend worker job → action = .advance owner := by
  cases action with
  | advance actor =>
    obtain rfl := Option.some.inj works
    obtain ⟨call, task, here⟩ := exists_working possible
    obtain ⟨pool, stage⟩ := next_advance here
    exact ⟨call, task, _, here, task.stepsTo_step work.pool, pool, stage, fun _ _ _ => rfl⟩
  | expire actor =>
    obtain rfl := Option.some.inj works
    obtain ⟨call, task, here⟩ := exists_working (Stage.isWorking_of_isWaiting possible)
    obtain ⟨pool, stage⟩ := next_expire here
    refine ⟨call, task, _, here, task.stepsTo_expired work.pool, pool, stage, ?_⟩
    rintro worker job rfl
    simp [Possible, here, Stage.isWaiting, Task.isWaiting] at possible
  | create name schema => cases works
  | attach name schema => cases works
  | call actor call => cases works
  | drop actor guard => cases works
  | finish actor commit => cases works
  | settle actor => cases works

theorem quiet_settle (possible : work.Possible (.act (.settle owner))) :
    ((work.next (.act (.settle owner))).stage owner).isWorking = false := by
  obtain ⟨commit, rest, here⟩ := exists_ending possible.1
  simp only [next, after, giveUp, here]
  split
  · cases rest <;> simp only [Function.update_self, Stage.isWorking]
  · simp only [Function.update_self, Stage.isWorking]

theorem Orderly.next_cases (orderly : work.Orderly) (possible : work.Possible (.act action)) :
    work.Filing action (work.next (.act action)).pool ∨ ∃ owner, action.owner? = some owner ∧
      work.pool.Deed owner (work.next (.act action)).pool := by
  have still := Pool.Deed.still work.pool
  cases action with
  | create name schema => exact .inl (.created name schema)
  | attach name schema => exact .inl (.opened name schema)
  | call owner call =>
    exact .inr ⟨owner, rfl, (work.next_call owner call).1 ▸ still owner⟩
  | finish owner commit => exact .inr ⟨owner, rfl, still owner⟩
  | drop owner guard =>
    obtain ⟨cache, same, visits⟩ := work.pool.visits_drop guard
    refine .inr ⟨owner, rfl, .served guard.page _ ?_⟩
    show Pool.Serves guard.page work.pool (work.pool.drop guard).1
    rw [same]
    exact .of_visits visits work.pool.stats
  | advance owner | expire owner =>
    obtain ⟨call, task, result, here, steps, pool, _, longer⟩ := exists_stepsTo possible rfl
    rw [pool]
    -- To append a page changes a file only; every other step is a deed under the locks of its
    -- owner.
    rcases steps.deed ((orderly.gripped owner).working call task here) with
      deed | ⟨job, disk, page, rfl, appends, same⟩
    · exact .inr ⟨owner, rfl, deed⟩
    · rw [same, longer owner job rfl]
      exact .inl (.appended owner call job here disk page appends)
  | settle owner =>
    refine .inr ⟨owner, rfl, ?_⟩
    obtain ⟨commit, rest, here⟩ := exists_ending possible.1
    obtain ⟨held, unsettled⟩ := (orderly.gripped owner).ending commit rest here
    simp only [next, after, giveUp, here]
    split
    · cases rest with
      | nil => exact .released fun page resident present dirty =>
          absurd (unsettled page resident present dirty) List.not_mem_nil
      | cons page rest =>
        have holds := held page List.mem_cons_self
        cases commit with
        | true => exact .flushed page holds
        | false => exact .discarded page holds
    · exact still owner

theorem Gripped.rests (gripped : work.Gripped owner) (stage : later.stage owner = work.stage owner)
    (holds : ∀ page mode, work.pool.locks.table.Holds owner page mode →
      later.pool.locks.table.Holds owner page mode)
    (marks : ∀ (page : PageId) (resident : Resident),
      later.pool.cache.frames[page]? = some resident →
        resident.frame.page.dirtiedBy = some owner →
          ∃ before, work.pool.cache.frames[page]? = some before ∧
            before.frame.page.dirtiedBy = some owner) : later.Gripped owner where
  working call task here := Task.Grips.mono (gripped.working call task (stage ▸ here)) holds
  ending commit rest here := by
    obtain ⟨held, unsettled⟩ := gripped.ending commit rest (stage ▸ here)
    refine ⟨fun page member => holds page _ (held page member), fun page resident present dirty => ?_⟩
    obtain ⟨before, found, mark⟩ := marks page resident present dirty
    exact unsettled page before found mark

theorem gripped_of_idle (idle : work.stage owner = .idle) : work.Gripped owner :=
  ⟨fun _ _ here => (by cases idle.symm.trans here), fun _ _ here => (by cases idle.symm.trans here)⟩

theorem gripped_of_progress {call : Call} {progress : Progress}
    (stage : work.stage owner = progress.stage call)
    (grips : progress.Grips work.pool.locks.table owner) : work.Gripped owner := by
  cases progress with
  | finished finish =>
    exact gripped_of_idle stage
  | running task =>
    refine ⟨fun _ _ here => ?_, fun _ _ here => (by cases stage.symm.trans here)⟩
    obtain ⟨rfl, rfl⟩ := Stage.working.inj (stage.symm.trans here)
    exact grips

theorem Orderly.gripped_next (orderly : work.Orderly) (possible : work.Possible (.act action))
    (mine : action.owner? = some owner) : (work.next (.act action)).Gripped owner := by
  have gripped := orderly.gripped owner
  cases action with
  | create name schema => cases mine
  | attach name schema => cases mine
  | call actor call =>
    obtain rfl := Option.some.inj mine
    obtain ⟨_, stage⟩ := work.next_call actor call
    exact gripped_of_progress stage (call.begins_begin work.pool actor).grips
  | advance actor | expire actor =>
    obtain rfl := Option.some.inj mine
    obtain ⟨call, task, result, here, steps, pool, stage, _⟩ := exists_stepsTo possible rfl
    exact gripped_of_progress stage (pool ▸ steps.grips (gripped.working call task here))
  | drop actor guard =>
    obtain rfl := Option.some.inj mine
    obtain ⟨cache, same, visits⟩ := work.pool.visits_drop guard
    have pool : (work.next (.act (.drop actor guard))).pool = { work.pool with cache } := same
    refine gripped.rests rfl (fun page mode holds => ?_) fun page resident present dirty => ?_
    · rw [pool]
      exact holds
    · rw [pool] at present
      obtain ⟨before, found, equal⟩ := visits.exists_before present
      exact ⟨before, found, (Resident.rested_eq_iff.mp equal).2.2 ▸ dirty⟩
  | finish actor commit =>
    obtain rfl := Option.some.inj mine
    have listed : ∀ page, page ∈ work.pool.heldPages actor ↔
        work.pool.locks.table.Holds actor page .shared := fun page =>
      Pool.mem_heldPages_iff orderly.owned.indexed
    have stage : (work.next (.act (.finish actor commit))).stage actor =
        .ending commit (work.pool.heldPages actor) := by simp [next, after]
    refine ⟨fun call task here => (by cases stage.symm.trans here), fun commit' rest here => ?_⟩
    obtain ⟨rfl, rfl⟩ := Stage.ending.inj (stage.symm.trans here)
    refine ⟨fun page member => (listed page).mp member, fun page resident present dirty => ?_⟩
    exact (listed page).mpr (orderly.owned.locked page resident actor present dirty).shared
  | settle actor =>
    obtain rfl := Option.some.inj mine
    obtain ⟨commit, rest, here⟩ := exists_ending possible.1
    obtain ⟨held, unsettled⟩ := gripped.ending commit rest here
    by_cases settles : work.canSettle actor = true
    · have after : work.next (.act (.settle actor)) = work.after (.settle actor) := if_pos settles
      rw [after]
      cases rest with
      | nil => exact gripped_of_idle (by simp [Workload.after, here])
      | cons page rest =>
        have done : (work.pool.settlePage commit page).2.isOk = true := by
          simpa [canSettle, here] using settles
        have pool : (work.after (.settle actor)).pool = (work.pool.settlePage commit page).1 := by
          simp [Workload.after, here]
        have stage : (work.after (.settle actor)).stage actor = .ending commit rest := by
          simp [Workload.after, here]
        refine ⟨fun call task working => (by cases stage.symm.trans working),
          fun commit' rest' ending => ?_⟩
        obtain ⟨rfl, rfl⟩ := Stage.ending.inj (stage.symm.trans ending)
        refine ⟨fun other member => ?_, fun other resident present dirty => ?_⟩
        · rw [pool, Pool.settlePage_locks]
          exact held other (List.mem_cons_of_mem _ member)
        -- The page that was just settled is clean, and the others are as before.
        · have apart : other ≠ page := by
            rintro rfl
            rw [pool] at present
            rw [Pool.clean_of_settlePage done present] at dirty
            cases dirty
          rw [pool, Pool.settlePage_elsewhere commit apart] at present
          exact (List.mem_cons.mp (unsettled other resident present dirty)).resolve_left apart
    · have gives : work.next (.act (.settle actor)) = work.giveUp actor := if_neg settles
      rw [gives]
      exact gripped_of_idle (by simp [giveUp])

theorem Orderly.spares (orderly : work.Orderly) (possible : work.Possible (.act action))
    (apart : action.owner? ≠ some other) :
    work.pool.Spares other (work.next (.act action)).pool := by
  rcases orderly.next_cases possible with filing | ⟨owner, mine, deed⟩
  · obtain ⟨disk, tables, nextTable, same, stores⟩ := filing.cases
    rw [same]
    exact ⟨fun _ _ => id, fun page resident present _ => by rw [present, Option.map_some],
      none, stores, fun _ _ _ _ => by simp⟩
  · refine deed.spares orderly.owned ?_
    rintro rfl
    exact apart mine

theorem Orderly.next (orderly : work.Orderly) (possible : work.Possible (.act action)) :
    (work.next (.act action)).Orderly := by
  refine ⟨?_, fun other => ?_⟩
  · rcases orderly.next_cases possible with filing | ⟨owner, _, deed⟩
    · obtain ⟨disk, tables, nextTable, same, _⟩ := filing.cases
      obtain ⟨valid, indexed, stays, named, locked⟩ := orderly.owned
      rw [same]
      exact ⟨valid, indexed, stays, named, locked⟩
    · exact deed.owned orderly.owned
  · by_cases mine : action.owner? = some other
    · exact orderly.gripped_next possible mine
    · refine (orderly.gripped other).rests (work.stage_next_of_ne mine)
        (orderly.spares possible mine).holds fun page resident present dirty => ?_
      rcases orderly.next_cases possible with filing | ⟨owner, own, deed⟩
      · obtain ⟨disk, tables, nextTable, same, _⟩ := filing.cases
        rw [same] at present
        exact ⟨resident, present, dirty⟩
      · refine deed.unmarked orderly.owned ?_ present dirty
        rintro rfl
        exact mine own

theorem orderly_start {config : Config} {disk : Disk} (h : Pool.start config disk = .ok pool) :
    (Workload.start pool).Orderly := by
  obtain rfl := Pool.start_eq h
  refine ⟨⟨LockTable.valid_empty, LockTable.indexed_empty, Cache.distinct_empty, ?_, ?_⟩,
    fun owner => gripped_of_idle rfl⟩
  · intro page resident present
    simp [Workload.start, Cache.empty] at present
  · intro page resident writer present dirty
    simp [Workload.start, Cache.empty] at present

theorem orderly_of_course {allowed : Workload → Step → Prop} {first : Workload}
    (course : Course allowed first work) (unhooked : ∀ work step, allowed work step → Unhooked step)
    (orderly : first.Orderly) : work.Orderly := by
  induction course with
  | start => exact orderly
  | step step _ possible kind ih =>
    cases step with
    | act action => exact ih.next possible
    | hook hook => exact (unhooked _ _ kind).elim

/-- A page with unsaved changes is its writer's own. It is locked by the writer alone; whatever step
anybody else takes, it stays where it is in the cache, with its slots and its mark, and is not what is
written to a file; and so it goes on until the writer takes a step itself. -/
theorem dirty_owned {config : Config} {disk : Disk} {pool : Pool} {page : PageId}
    {resident : Resident} (begins : Pool.start config disk = .ok pool)
    (course : Course (fun _ step => Unhooked step) (start pool) work)
    (present : work.pool.cache.frames[page]? = some resident)
    (dirty : resident.frame.page.dirtiedBy = some owner) :
    work.pool.locks.table.locks[page]? = some ⟨.exclusive, {owner}⟩ ∧
    (∀ action, work.Possible (.act action) → action.owner? ≠ some owner →
      (work.next (.act action)).pool.cache.frames[page]?.map Resident.rested =
          some resident.rested ∧
        ∃ written, work.pool.Stores written (work.next (.act action)).pool.disk ∧
          written ≠ some page) ∧
    ∀ later, Course (fun _ step => Others owner step) work later →
      later.pool.cache.frames[page]?.map Resident.rested = some resident.rested ∧
        later.pool.locks.table.locks[page]? = some ⟨.exclusive, {owner}⟩ := by
  have orderly := orderly_of_course course (fun _ _ => id) (orderly_start begins)
  refine ⟨orderly.owned.lock_eq present dirty, fun action possible apart => ?_,
    fun later onward => ?_⟩
  · have spares := orderly.spares possible apart
    obtain ⟨written, stores, elsewhere⟩ := spares.files
    exact ⟨spares.pages page resident present dirty, written, stores,
      elsewhere page resident present dirty⟩
  · have kept : later.Orderly ∧
        later.pool.cache.frames[page]?.map Resident.rested = some resident.rested := by
      -- By induction on the steps of others: the page keeps its mark, so each step spares it again.
      induction onward with
      | start => exact ⟨orderly, by rw [present, Option.map_some]⟩
      | @step work step _ possible apart ih =>
        obtain ⟨orderly, same⟩ := ih
        cases step with
        | hook hook => exact apart.elim
        | act action =>
          obtain ⟨before, found, equal⟩ := Option.map_eq_some_iff.mp same
          have mark := (Resident.rested_eq_iff.mp equal).2.2 ▸ dirty
          have still := (orderly.spares possible apart).pages page before found mark
          exact ⟨orderly.next possible, still.trans (congrArg some equal)⟩
    obtain ⟨orderly, same⟩ := kept
    obtain ⟨after, found, equal⟩ := Option.map_eq_some_iff.mp same
    exact ⟨same, orderly.owned.lock_eq found ((Resident.rested_eq_iff.mp equal).2.2 ▸ dirty)⟩

/-- A writer has filled a page; two others ask for it, and the second has to make room first. -/
def crowd : List Step :=
  [.act (.call ⟨2⟩ (.scan ⟨0⟩)), .act (.advance ⟨2⟩), .act (.create "letters" numbers),
    .act (.call ⟨3⟩ (.insert ⟨1⟩ (.ofFields [.int 4]))), .act (.advance ⟨3⟩), .act (.advance ⟨3⟩),
    .act (.advance ⟨3⟩), .act (.expire ⟨2⟩), .act (.finish ⟨3⟩ false), .act (.settle ⟨3⟩)]

theorem dirty_owned_crowd :
    let work := ((.create "numbers" numbers :: puts ⟨1⟩ 7 7).map Step.act).foldl next
      (start smallPool)
    let later := crowd.foldl next work
    let page : PageId := ⟨⟨0⟩, 0⟩
    ∃ resident, work.pool.cache.frames[page]? = some resident ∧
      resident.frame.page.dirtiedBy = some ⟨1⟩ ∧
      later.pool.cache.frames[page]?.map Resident.rested = some resident.rested ∧
      later.pool.locks.table.locks[page]? = some ⟨.exclusive, {⟨1⟩}⟩ := by
  intro work later page
  have begins : Pool.start smallPool.config .blank = .ok smallPool := rfl
  have course : Course (fun _ step => Unhooked step) (start smallPool) work :=
    .of_takes _ .start (by decide +kernel)
  have onward : Course (fun _ step => Others ⟨1⟩ step) work later :=
    .of_takes _ .start (by decide +kernel)
  have marked : (work.pool.cache.frames[page]?.bind fun resident =>
      resident.frame.page.dirtiedBy) = some ⟨1⟩ := by decide +kernel
  obtain ⟨resident, present, dirty⟩ := Option.bind_eq_some_iff.mp marked
  obtain ⟨_, _, kept⟩ := dirty_owned begins course present dirty
  exact ⟨resident, present, dirty, kept later onward⟩

end Workload
end PagedTables
