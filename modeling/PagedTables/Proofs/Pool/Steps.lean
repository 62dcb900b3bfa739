import PagedTables.Proofs.Lock.Hold
import PagedTables.Proofs.Pool.Use

/-! The ways one step of a task can go: what it does to the pool, and how the task goes on. -/

namespace PagedTables

def Access.Stops (access : Access) (finish : Finish) : Prop :=
  finish = .locked ∨ ∃ failure, finish = access.purpose.failed failure

namespace Task

inductive StepsTo (pool : Pool) : Task → Pool × Progress → Prop
  | granted (access : Access) (locks : LockManager)
      (further : pool.locks.table.Extends locks.table)
      (holds : locks.table.Holds access.owner access.page access.purpose.mode) :
      StepsTo pool (.access access)
        ({ pool with locks }, .running (.access { access with phase := .pin }))
  | refused (access : Access) (locks : LockManager)
      (further : pool.locks.table.Extends locks.table) :
      StepsTo pool (.access access)
        ({ pool with locks }, .running (.access { access with phase := .wait }))
  | stopped (access : Access) (locks : LockManager)
      (further : pool.locks.table.Extends locks.table) (stats : Statistics) (finish : Finish)
      (stops : access.Stops finish) :
      StepsTo pool (.access access) ({ pool with locks, stats }, .finished finish)
  | pinned (access : Access) (phase : access.phase = .pin) (later : Pool)
      (serves : Pool.Serves access.page pool later)
      (size : pool.cache.size ≤ pool.config.poolPages →
        later.cache.size ≤ pool.config.poolPages) (resident : Resident)
      (present : later.cache.frames[access.page]? = some resident) :
      StepsTo pool (.access access)
        (later, .running (.access { access with phase := .use resident.stay }))
  | homeless (access : Access) (phase : access.phase = .pin) (later : Pool)
      (serves : Pool.Serves access.page pool later)
      (size : pool.cache.size ≤ pool.config.poolPages →
        later.cache.size ≤ pool.config.poolPages) (finish : Finish)
      (stops : access.Stops finish) : StepsTo pool (.access access) (later, .finished finish)
  | looked (access : Access) (stay : Nat) (phase : access.phase = .use stay) (cache : Cache)
      (visits : Cache.Visits access.page pool.cache cache) :
      StepsTo pool (.access access) ({ pool with cache }, .running (.access access))
  | guarded (access : Access) (stay : Nat) (phase : access.phase = .use stay) (cache : Cache)
      (visits : Cache.Visits access.page pool.cache cache) :
      StepsTo pool (.access access)
        ({ pool with cache }, .finished (.guarded (access.guard stay)))
  | used (access : Access) (stay : Nat) (phase : access.phase = .use stay) (cache : Cache)
      (rewrites : Cache.Rewrites access.page stay (fun heap => (access.result heap).1) pool.cache
        cache)
      (heap : HeapPage) (shows : pool.cache.Shows access.page stay heap) (progress : Progress)
      (leads : access.purpose.Leads access.owner heap progress) :
      StepsTo pool (.access access) ({ pool with cache }, progress)
  | appended (owner : TransactionId) (job : Insertion) (disk : Disk) (page : PageId)
      (appends : job.file.appendBlank pool.disk = .ok (disk, page)) :
      StepsTo pool (.extend owner job) ({ pool with disk }, .ask owner page (.claim job))
  | unextended (owner : TransactionId) (job : Insertion) (failure : Failure) :
      StepsTo pool (.extend owner job) (pool, .failed failure)
  | idled (task : Task) : StepsTo pool task (pool, .running task)

section Answer

variable {pool : Pool} {access : Access}

theorem stepsTo_answered {locks : LockManager} {answer : LockAnswer}
    (further : pool.locks.table.Extends locks.table)
    (granted : answer = .granted →
      locks.table.Holds access.owner access.page access.purpose.mode) :
    StepsTo pool (.access access) (access.answered { pool with locks } answer) := by
  obtain ⟨owner, page, purpose, phase⟩ := access
  have stopped : ∀ (stats : Statistics) (finish : Finish),
      Access.Stops ⟨owner, page, purpose, phase⟩ finish →
      StepsTo pool (.access ⟨owner, page, purpose, phase⟩)
        ({ pool with locks, stats }, .finished finish) :=
    fun stats finish stops => .stopped _ locks further stats finish stops
  cases answer with
  | waiting => exact .refused _ locks further
  | timedOut => exact stopped pool.stats _ (.inr ⟨_, rfl⟩)
  | granted =>
    have held := StepsTo.granted _ locks further (granted rfl)
    cases purpose with
    | lock mode => exact stopped pool.stats _ (.inl rfl)
    | guard mode => exact held
    | place job stop => exact held
    | claim job => exact held
    | remove tuple remarked => exact held
    | mark => exact held
    | visit cursor toEnd => exact held
  | deadlock =>
    have closed := fun finish stops => stopped (pool.stats.count .deadlocks) finish stops
    cases purpose with
    | lock mode => exact stopped pool.stats _ (.inr ⟨_, rfl⟩)
    | guard mode => exact closed _ (.inr ⟨_, rfl⟩)
    | place job stop => exact closed _ (.inr ⟨_, rfl⟩)
    | claim job => exact closed _ (.inr ⟨_, rfl⟩)
    | remove tuple remarked => exact closed _ (.inr ⟨_, rfl⟩)
    | mark => exact closed _ (.inr ⟨_, rfl⟩)
    | visit cursor toEnd => exact closed _ (.inr ⟨_, rfl⟩)

theorem stepsTo_request (access : Access) (pool : Pool) :
    StepsTo pool (.access access) (access.request pool) :=
  stepsTo_answered (LockManager.extends_acquire _ _ _ _) LockManager.holds_acquire

theorem stepsTo_expire (access : Access) (pool : Pool) :
    StepsTo pool (.access access) (access.expire pool) :=
  stepsTo_answered (LockManager.extends_expire _ _ _ _) LockManager.holds_expire

end Answer

theorem stepsTo_pin {access : Access} (phase : access.phase = .pin) (pool : Pool) :
    StepsTo pool (.access access) (access.pin pool) := by
  have serves := pool.serves_pin access.page
  have size := fun fits => pool.size_pin fits access.page
  have found := fun stay (pinned : (pool.pin access.page).2 = .ok stay) => Pool.of_pin_ok pinned
  unfold Access.pin
  generalize pool.pin access.page = result at serves size found ⊢
  obtain ⟨later, answer⟩ := result
  cases answer with
  | error failure => exact .homeless access phase later serves size _ (.inr ⟨failure, rfl⟩)
  | ok stay =>
    obtain ⟨resident, present, rfl, _⟩ := found stay rfl
    exact .pinned access phase later serves size resident present

theorem stepsTo_use {access : Access} {stay : Nat} (phase : access.phase = .use stay)
    (pool : Pool) : StepsTo pool (.access access) (access.use pool stay) := by
  have uses := access.use_uses pool stay
  obtain ⟨cache, same, rewrites⟩ := access.rewrites_use pool stay
  generalize access.use pool stay = result at uses same ⊢
  have shown : ∀ {latched : Pool} {heap : HeapPage},
      pool.latch (access.guard stay) = some latched →
      latched.view (access.guard stay) = some heap → pool.cache.Shows access.page stay heap := by
    intro latched heap latch view
    obtain ⟨cache, rfl, visits⟩ := Pool.visits_latch latch
    have shows := Pool.shows_of_view view
    exact shows.visits visits
  have latches : ∀ {latched : Pool}, pool.latch (access.guard stay) = some latched →
      ∃ cache, latched = { pool with cache } ∧ Cache.Visits access.page pool.cache cache :=
    fun latch => Pool.visits_latch latch
  cases uses with
  | blocked refused => exact .idled _
  | guarded mode purpose latched latch heap view =>
    obtain ⟨cache, rfl, visits⟩ := latches latch
    exact .guarded access stay phase cache visits
  | gone latched latch absent =>
    obtain ⟨cache, rfl, visits⟩ := latches latch
    exact .looked access stay phase cache visits
  | done works latched latch heap view later drop =>
    obtain rfl : later = { pool with cache } := same
    exact .used access stay phase cache rewrites heap (shown latch view) _
      (access.purpose.leads_act access.owner heap)
  | failed works latched latch heap view later failure drop =>
    obtain rfl : later = { pool with cache } := same
    exact .used access stay phase cache rewrites heap (shown latch view) _
      (.ended _ _ (.inr (.inl ⟨failure, rfl⟩)))

theorem stepsTo_step (task : Task) (pool : Pool) : StepsTo pool task (task.step pool) := by
  cases task with
  | extend owner job =>
    simp only [step, Pool.appendPage]
    cases made : job.file.appendBlank pool.disk with
    | error failure => exact .unextended owner job failure
    | ok result => exact .appended owner job result.1 result.2 made
  | access access =>
    show StepsTo pool (.access access) (access.step pool)
    unfold Access.step
    cases phase : access.phase with
    | ask => exact stepsTo_request access pool
    | wait =>
      simp only
      split
      · exact stepsTo_request access pool
      · exact .idled _
    | pin => exact stepsTo_pin phase pool
    | use stay => exact stepsTo_use phase pool

theorem stepsTo_expired (task : Task) (pool : Pool) : StepsTo pool task (task.expire pool) := by
  cases task with
  | extend owner job => exact .idled _
  | access access => exact stepsTo_expire access pool

theorem StepsTo.extends {pool : Pool} {task : Task} {result : Pool × Progress}
    (steps : StepsTo pool task result) :
    pool.locks.table.Extends result.1.locks.table := by
  have same : ∀ {later : Pool}, later.locks = pool.locks →
      pool.locks.table.Extends later.locks.table :=
    fun same => .of_same (by rw [same]) (by rw [same])
  cases steps with
  | granted access locks further holds => exact further
  | refused access locks further => exact further
  | stopped access locks further stats finish stops => exact further
  | pinned access phase later serves size resident present => exact same serves.locks
  | homeless access phase later serves size finish stops => exact same serves.locks
  | looked access stay phase cache visits => exact same rfl
  | guarded access stay phase cache visits => exact same rfl
  | used access stay phase cache rewrites heap shows progress leads => exact same rfl
  | appended worker job disk page appends => exact same rfl
  | unextended worker job failure => exact same rfl
  | idled => exact same rfl

end Task
end PagedTables
