import PagedTables.Proofs.Sequence.Operation
import PagedTables.Proofs.Storage.LoadOrder

/-! The line of the cached pages is kept whatever is done to a pool, in whatever order, and whether it
succeeds or fails. -/

namespace PagedTables

namespace Pool

variable {pool later last : Pool} {page : PageId} {guard : Guard}

/-- A pool has kept its settings, and its cached pages in line. -/
structure Upkeep (pool later : Pool) : Prop where
  config : later.config = pool.config
  lined : pool.cache.Lined → later.cache.Lined
  fits : pool.cache.size ≤ pool.config.poolPages → later.cache.size ≤ pool.config.poolPages
  follows : pool.cache.Lined → pool.cache.Follows later.cache

theorem Upkeep.of_cache (config : later.config = pool.config) (cache : later.cache = pool.cache) :
    pool.Upkeep later where
  config
  lined lined := cache ▸ lined
  fits fits := cache ▸ fits
  follows _ := cache ▸ .refl pool.cache

theorem Upkeep.refl (pool : Pool) : pool.Upkeep pool := .of_cache rfl rfl

theorem Upkeep.trans (h : pool.Upkeep later) (h' : later.Upkeep last) : pool.Upkeep last where
  config := h'.config.trans h.config
  lined lined := h'.lined (h.lined lined)
  fits fits := h.config ▸ h'.fits (h.config.symm ▸ h.fits fits)
  follows lined := (h.follows lined).trans (h'.follows (h.lined lined))

theorem Upkeep.relabelled (config : later.config = pool.config)
    (labels : ∀ page : PageId,
      later.cache.frames[page]?.map Resident.label = pool.cache.frames[page]?.map Resident.label)
    (order : later.cache.order = pool.cache.order)
    (nextStay : later.cache.nextStay = pool.cache.nextStay) : pool.Upkeep later where
  config
  lined lined := lined.relabelled labels order nextStay
  fits fits := by
    refine Nat.le_trans (Cache.size_le fun page resident present => ?_) fits
    have same := labels page
    rw [present, Option.map_some, eq_comm, Option.map_eq_some_iff] at same
    exact same.imp fun _ found => found.1
  follows _ := Cache.follows_relabelled labels nextStay

theorem Upkeep.rewrites {cache : Cache} {stay : Nat} {change : HeapPage → HeapPage}
    (h : Cache.Rewrites page stay change pool.cache cache)
    (named : ∀ heap, (change heap).id = heap.id) (order : cache.order = pool.cache.order) :
    pool.Upkeep { pool with cache } :=
  .relabelled rfl (h.labels named) order h.nextStay

theorem Upkeep.replaces {disk : Disk} {cache : Cache} {before after : Resident}
    (h : Cache.Replaces page after pool.cache cache) (present : pool.cache.frames[page]? = some before)
    (same : after.label = before.label) (order : cache.order = pool.cache.order)
    (stats : Statistics) : pool.Upkeep { pool with disk, cache, stats } :=
  .relabelled rfl (h.labels present same) order h.nextStay

theorem Upkeep.leaves {cache : Cache} (h : pool.cache.Lined → Cache.Leaves page pool.cache cache)
    (size : cache.size ≤ pool.cache.size) (stats : Statistics) :
    pool.Upkeep { pool with cache, stats } where
  config := rfl
  lined lined := lined.leaves (h lined)
  fits := Nat.le_trans size
  follows lined := (h lined).follows

theorem upkeep_makeRoom (pool : Pool) : pool.Upkeep pool.makeRoom.1 := by
  rcases pool.makeRoom_cases with same | ⟨cache, evicted, same⟩
  · rw [same]
    exact .refl pool
  · obtain ⟨page, _, leaves⟩ := Cache.leaves_evict evicted
    rw [same]
    exact .leaves (fun _ => leaves) (Nat.le_of_lt (Cache.size_evict evicted).le) _

theorem upkeep_pin (pool : Pool) (page : PageId) : pool.Upkeep (pool.pin page).1 := by
  have fits := fun before => pool.size_pin before page
  have users : ∀ {resident : Resident} (stats : Statistics), pool.cache.frames[page]? = some resident →
      pool.Upkeep
        { pool with
          cache := pool.cache.update page
            { resident with frame := { resident.frame with pins := resident.frame.pins + 1 } }
          stats } :=
    fun stats present =>
      .replaces (Cache.replaces_update present _) present (by rfl) Cache.order_update stats
  have pins := pool.pin_pins page
  generalize pool.pin page = result at fits pins ⊢
  cases pins with
  | hit resident present room stats => exact users stats present
  | crowded resident present full failure => exact users pool.stats present
  | unread absent stats failure unread => exact .of_cache rfl rfl
  | homeless absent stats failure exhausted =>
    have counted : pool.Upkeep { pool with stats } := .of_cache rfl rfl
    exact counted.trans (upkeep_makeRoom _)
  | loaded absent stats heap read roomy made =>
    have counted : pool.Upkeep { pool with stats } := .of_cache rfl rfl
    have room := upkeep_makeRoom { pool with stats }
    have free := (serves_makeRoom { pool with stats } absent).2
    rw [congrArg Prod.fst made] at room free
    have so_far : pool.Upkeep roomy := counted.trans room
    have named := (of_readPage read).1
    exact ⟨so_far.config, fun lined => (so_far.lined lined).load (named ▸ free), fits,
      fun lined => (so_far.follows lined).trans (Cache.follows_load _ heap)⟩

theorem upkeep_latch (h : pool.latch guard = some later) : pool.Upkeep later := by
  obtain ⟨cache, same, visits⟩ := visits_latch h
  obtain ⟨resident, frame, _, _, rfl⟩ := latch_eq_some h
  cases same
  exact .rewrites (visits.rewrites 0 id) (fun _ => rfl) Cache.order_update

theorem upkeep_change {heap : HeapPage} (view : pool.view guard = some heap)
    {change : HeapPage → HeapPage} (named : ∀ heap, (change heap).id = heap.id) :
    pool.Upkeep (pool.change guard (change heap)) := by
  have order : (pool.change guard (change heap)).cache.order = pool.cache.order := by
    unfold Pool.change
    split
    · rfl
    · exact Cache.order_update
  obtain ⟨cache, same, rewrites⟩ := rewrites_change view change
  rw [same] at order ⊢
  exact .rewrites rewrites named order

theorem upkeep_drop (pool : Pool) (guard : Guard) : pool.Upkeep (pool.drop guard).1 := by
  have order : (pool.drop guard).1.cache.order = pool.cache.order := by
    unfold drop
    split
    · rfl
    · exact Cache.order_update
  obtain ⟨cache, same, visits⟩ := pool.visits_drop guard
  rw [same] at order ⊢
  exact .rewrites (visits.rewrites 0 id) (fun _ => rfl) order

theorem upkeep_edit {α : Type} {change : HeapPage → Except Failure (HeapPage × α)}
    (named : ∀ {heap after : HeapPage} {result : α}, change heap = .ok (after, result) →
      after.id = heap.id) (pool : Pool) (guard : Guard) :
    pool.Upkeep (pool.edit guard change).1 := by
  unfold edit
  cases view : pool.view guard with
  | none => exact .refl pool
  | some heap =>
    simp only
    cases made : change heap with
    | error failure => exact .refl pool
    | ok result =>
      obtain ⟨after, result⟩ := result
      let total (heap : HeapPage) : HeapPage :=
        match change heap with
        | .ok (after, _) => after
        | .error _ => heap
      have same : total heap = after := by simp only [total, made]
      rw [← same]
      refine upkeep_change view fun other => ?_
      simp only [total]
      split
      · next after result made => exact named made
      · rfl

theorem upkeep_flushPage (pool : Pool) (page : PageId) : pool.Upkeep (pool.flushPage page).1 := by
  have order : (pool.flushPage page).1.cache.order = pool.cache.order := by
    unfold flushPage
    cases pool.cache.frames[page]? with
    | none => rfl
    | some resident =>
      simp only [writePage]
      split
      · rfl
      · split
        · cases pool.file resident.frame.page.id.table with
          | error failure => rfl
          | ok file =>
            cases write : file.writePage pool.disk resident.frame.page with
            | error failure => simp only [write]
            | ok disk =>
              simp only [write]
              exact Cache.order_update
        · rfl
  have flushes := pool.flushPage_flushes page
  generalize pool.flushPage page = result at order flushes ⊢
  cases flushes with
  | absent absent => exact .refl pool
  | clean resident present clean => exact .refl pool
  | failed failure => exact .refl pool
  | written resident present writer dirty file registered disk writes cache replaces stats =>
    exact .replaces replaces present rfl order stats

theorem upkeep_discardPage (pool : Pool) (page : PageId) : pool.Upkeep (pool.discardPage page) := by
  have discards := pool.discardPage_discards page
  generalize pool.discardPage page = result at discards ⊢
  cases discards with
  | absent absent => exact .refl pool
  | dropped cache drops stats =>
    exact .leaves (fun lined => lined.leaves_discard drops)
      (Nat.le_of_lt (Cache.size_discard drops).le) stats

end Pool

namespace Access

theorem named_result (access : Access) (heap : HeapPage) :
    (access.result heap).1.id = heap.id := by
  rcases access.result_cases heap with same | ⟨_, written⟩
  · rw [same]
  · exact written.id

theorem upkeep_answered (access : Access) (pool : Pool) (locks : LockManager) (answer : LockAnswer) :
    pool.Upkeep (access.answered { pool with locks } answer).1 := by
  unfold answered
  split <;> exact .of_cache rfl rfl

theorem upkeep_use (access : Access) (pool : Pool) (stay : Nat) :
    pool.Upkeep (access.use pool stay).1 := by
  have whole : ∀ {latched : Pool} {heap : HeapPage},
      pool.latch (access.guard stay) = some latched →
      latched.view (access.guard stay) = some heap →
      pool.Upkeep ((latched.change (access.guard stay) (access.result heap).1).drop
        (access.guard stay)).1 := fun latch view =>
    ((Pool.upkeep_latch latch).trans (Pool.upkeep_change view access.named_result)).trans
      (Pool.upkeep_drop _ _)
  have uses := access.use_uses pool stay
  generalize access.use pool stay = result at uses ⊢
  cases uses with
  | blocked refused => exact .refl pool
  | guarded mode purpose latched latch heap view => exact Pool.upkeep_latch latch
  | gone latched latch absent => exact Pool.upkeep_latch latch
  | done works latched latch heap view later drop =>
    have dropped := whole latch view
    rwa [drop] at dropped
  | failed works latched latch heap view later failure drop =>
    have dropped := whole latch view
    rwa [drop] at dropped

end Access

namespace Task

theorem upkeep_step (task : Task) (pool : Pool) : pool.Upkeep (task.step pool).1 := by
  cases task with
  | extend owner job =>
    simp only [step, Pool.appendPage]
    cases job.file.appendBlank pool.disk <;> exact .of_cache rfl rfl
  | access access =>
    show pool.Upkeep (access.step pool).1
    unfold Access.step
    cases access.phase with
    | ask => exact access.upkeep_answered pool _ _
    | wait =>
      simp only
      split
      · exact access.upkeep_answered pool _ _
      · exact .refl pool
    | pin =>
      have pinned := pool.upkeep_pin access.page
      simp only [Access.pin]
      generalize pool.pin access.page = result at pinned ⊢
      obtain ⟨later, answer⟩ := result
      cases answer <;> exact pinned
    | use stay => exact access.upkeep_use pool stay

theorem upkeep_expire (task : Task) (pool : Pool) : pool.Upkeep (task.expire pool).1 := by
  cases task with
  | extend owner job => exact .refl pool
  | access access => exact access.upkeep_answered pool _ _

end Task

namespace Pool

theorem upkeep_run (pool : Pool) (patient : Bool) (progress : Progress) :
    pool.Upkeep (pool.run patient progress).1 := by
  cases progress with
  | finished finish => exact .refl pool
  | running task =>
    have kept := runSteps_keeps (fun between _ => pool.Upkeep between)
      (fun between task kept => kept.trans (task.upkeep_step between))
      (fun between task _ kept => kept.trans (task.upkeep_expire between))
    exact kept patient (pool.stepsFor task) (.refl pool)

theorem upkeep_call (pool : Pool) (owner : TransactionId) (call : Call) :
    pool.Upkeep (pool.perform (.call owner call)).1 := by
  have ran := pool.upkeep_run false (call.begin pool owner)
  simp only [Pool.perform]
  generalize pool.run false (call.begin pool owner) = result at ran ⊢
  obtain ⟨later, progress⟩ := result
  cases progress with
  | running task => exact ran
  | finished finish =>
    cases finish with
    | guarded guard => exact ran.trans (later.upkeep_drop guard)
    | failed failure => exact ran
    | locked => exact ran
    | modified pages => exact ran
    | scanned cursor failure => exact ran

end Pool

/-- Anything that can be done to a pool. Tasks and guards need not belong to it, so what many
transactions do at once is among the lists of touches. -/
inductive Touch
  | perform (operation : Operation)
  | advance (task : Task)
  | expire (task : Task)
  | insert (guard : Guard) (tuple : Tuple)
  | delete (guard : Guard) (tuple : Tuple)
  | mark (guard : Guard) (owner : Option TransactionId)
  | drop (guard : Guard)
  | tryLock (owner : TransactionId) (page : PageId) (mode : LockMode)
  | releaseAll (owner : TransactionId)
  | append (file : HeapFile)
  | write (file : HeapFile) (heap : HeapPage)
  | clearStatistics
deriving DecidableEq

namespace Touch

def run (pool : Pool) : Touch → Pool
  | perform operation => (pool.perform operation).1
  | advance task => (task.step pool).1
  | expire task => (task.expire pool).1
  | insert guard tuple => (pool.edit guard (·.insert tuple)).1
  | delete guard tuple => (pool.edit guard fun heap => (heap.delete tuple).map (·, ())).1
  | mark guard owner => (pool.edit guard fun heap => .ok (heap.markDirty owner, ())).1
  | drop guard => (pool.drop guard).1
  | tryLock owner page mode => (pool.tryLock owner page mode).1
  | releaseAll owner => pool.releaseAll owner
  | append file => (pool.appendPage file).1
  | write file heap => (pool.writePage file heap).1
  | clearStatistics => { pool with stats := .zero }

/-- Whether a touch requests no page and clears no counter. -/
def isAside : Touch → Bool
  | perform (.call _ _) | advance _ | expire _ | clearStatistics => false
  | perform _ | insert _ _ | delete _ _ | mark _ _ | drop _ | tryLock _ _ _ | releaseAll _ | append _
  | write _ _ => true

/-- What such a touch does is made of a few things: pages are changed under guards, which keep their
names, let go, written or dropped, or the pages and the counters stay as they are. -/
theorem aside_keeps {touch : Touch} (kept : Pool → Prop)
    (rests : ∀ pool later : Pool, later.config = pool.config → later.cache = pool.cache →
      later.stats = pool.stats → kept pool → kept later)
    (edits : ∀ {α : Type} {change : HeapPage → Except Failure (HeapPage × α)},
      (∀ {heap after : HeapPage} {result : α}, change heap = .ok (after, result) →
        after.id = heap.id) →
      ∀ (pool : Pool) (guard : Guard), kept pool → kept (pool.edit guard change).1)
    (drops : ∀ (pool : Pool) (guard : Guard), touch = .drop guard → kept pool →
      kept (pool.drop guard).1)
    (flushes : ∀ (pool : Pool) (page : PageId), kept pool → kept (pool.flushPage page).1)
    (discards : ∀ (pool : Pool) (page : PageId), kept pool → kept (pool.discardPage page))
    (aside : touch.isAside = true) {pool : Pool} (before : kept pool) :
    kept (touch.run pool) := by
  have same : ∀ {later : Pool}, later.config = pool.config → later.cache = pool.cache →
      later.stats = pool.stats → kept later := fun config cache stats =>
    rests pool _ config cache stats before
  cases touch with
  | advance task => cases aside
  | expire task => cases aside
  | clearStatistics => cases aside
  | perform operation =>
    cases operation with
    | call owner call => cases aside
    | rewind cursor => exact before
    | create name schema =>
      obtain ⟨disk, tables, nextTable, created, _⟩ := pool.createTable_cases name schema
      show kept (pool.createTable name schema).1
      rw [created]
      exact same rfl rfl rfl
    | attach name schema =>
      obtain ⟨tables, nextTable, attached⟩ := pool.register_cases
        (HeapFile.attach pool.disk name ⟨pool.nextTable⟩ schema pool.config.pageSize)
      show kept (pool.openTable name schema).1
      rw [Pool.openTable, attached]
      exact same rfl rfl rfl
    | complete owner commit =>
      exact Pool.complete_keeps kept flushes discards
        (fun pool owner => rests pool _ rfl rfl rfl) owner commit before
    | hook hook =>
      exact hook.run_keeps kept flushes discards
        (fun pool owner page => rests pool _ rfl rfl rfl) before
  | insert guard tuple =>
    -- To put a tuple, to take one out or to set the mark leaves the page its name.
    refine edits (fun made => ?_) pool guard before
    obtain ⟨_, rfl⟩ := HeapPage.insert_eq made
    rfl
  | delete guard tuple =>
    refine edits (fun {heap _ _} made => ?_) pool guard before
    cases deleted : heap.delete tuple with
    | error failure =>
      rw [deleted] at made
      cases made
    | ok after =>
      rw [deleted] at made
      cases made
      obtain ⟨_, _, _, rfl⟩ := HeapPage.delete_eq deleted
      rfl
  | mark guard owner =>
    refine edits (fun made => ?_) pool guard before
    cases made
    rfl
  | drop guard => exact drops pool guard rfl before
  | tryLock owner page mode =>
    simp only [run, Pool.tryLock]
    split <;> exact same rfl rfl rfl
  | releaseAll owner => exact same rfl rfl rfl
  | append file =>
    simp only [run, Pool.appendPage]
    cases file.appendBlank pool.disk <;> exact same rfl rfl rfl
  | write file heap =>
    simp only [run, Pool.writePage]
    cases file.writePage pool.disk heap <;> exact same rfl rfl rfl

theorem upkeep_run (touch : Touch) (pool : Pool) : pool.Upkeep (touch.run pool) := by
  by_cases aside : touch.isAside = true
  · exact aside_keeps pool.Upkeep
      (fun _ _ config cache _ kept => kept.trans (.of_cache config cache))
      (fun named later guard kept => kept.trans (later.upkeep_edit named guard))
      (fun later guard _ kept => kept.trans (later.upkeep_drop guard))
      (fun later page kept => kept.trans (later.upkeep_flushPage page))
      (fun later page kept => kept.trans (later.upkeep_discardPage page)) aside (.refl pool)
  · cases touch with
    | advance task => exact task.upkeep_step pool
    | expire task => exact task.upkeep_expire pool
    | clearStatistics => exact .of_cache rfl rfl
    | perform operation =>
      cases operation with
      | call owner call => exact pool.upkeep_call owner call
      | _ => exact absurd rfl aside
    | _ => exact absurd rfl aside

theorem upkeep_runs (touches : List Touch) (pool : Pool) :
    pool.Upkeep (touches.foldl run pool) := by
  induction touches generalizing pool with
  | nil => exact .refl pool
  | cons touch touches ih => exact (touch.upkeep_run pool).trans (ih (touch.run pool))

end Touch

/-- Whatever is done to a pool, its pages stand in line by when their stays began, as many as are cached
and no more than the cache has places; so it is too when a page was just brought in or dropped. -/
theorem Pool.lined_runs {config : Config} {disk : Disk} {first pool : Pool}
    (made : Pool.start config disk = .ok first) (touches : List Touch)
    (reached : touches.foldl Touch.run first = pool) (later : List Touch) :
    pool.cache.Lined ∧ pool.cache.order.size = pool.cache.size ∧
      pool.cache.size ≤ config.poolPages ∧
      (∀ page, (pool.pin page).1.cache.order.size = (pool.pin page).1.cache.size ∧
        (pool.discardPage page).cache.order.size = (pool.discardPage page).cache.size) ∧
      pool.cache.Follows (later.foldl Touch.run pool).cache := by
  have upkeep : first.Upkeep pool := reached ▸ Touch.upkeep_runs touches first
  have begun : first.config = config ∧ first.cache = .empty := by
    rw [Pool.start_eq made]
    exact ⟨rfl, rfl⟩
  have lined : pool.cache.Lined := upkeep.lined (begun.2 ▸ Cache.lined_empty)
  have fits := upkeep.fits (by rw [begun.2]; exact Nat.zero_le _)
  refine ⟨lined, lined.size_eq, begun.1 ▸ fits, fun page => ?_, ?_⟩
  · exact ⟨((pool.upkeep_pin page).lined lined).size_eq,
      ((pool.upkeep_discardPage page).lined lined).size_eq⟩
  · exact (Touch.upkeep_runs later pool).follows lined

/-- A table of two full pages gets a third, which finds no place until the two are written; one page
leaves for it, one is dropped, and the first comes back. -/
def Touch.turnover : List Touch :=
  .perform (.create "numbers" Workload.numbers) ::
    List.replicate 7 (.perform (.call ⟨1⟩ (.insert ⟨0⟩ (.ofFields [.int 7])))) ++
  [.perform (.complete ⟨1⟩ true), .perform (.call ⟨2⟩ (.insert ⟨0⟩ (.ofFields [.int 8]))),
    .perform (.hook (.discardPage ⟨⟨0⟩, 1⟩)), .perform (.call ⟨2⟩ (.fetch ⟨⟨0⟩, 0⟩ .shared))]

theorem Pool.lined_turnover :
    let config : Config := { pageSize := 16, poolPages := 2 }
    let first := { Workload.smallPool with config }
    let pool := Touch.turnover.foldl Touch.run first
    Pool.start config .blank = .ok first ∧ pool.cache.order.queue = [⟨⟨0⟩, 2⟩, ⟨⟨0⟩, 0⟩] ∧
      pool.cache.Lined ∧ pool.cache.order.size = pool.cache.size ∧
      pool.cache.size ≤ config.poolPages ∧
      (∀ page, (pool.pin page).1.cache.order.size = (pool.pin page).1.cache.size ∧
        (pool.discardPage page).cache.order.size = (pool.discardPage page).cache.size) ∧
      pool.cache.Follows ([Touch.perform (.call ⟨4⟩ (.scan ⟨0⟩))].foldl Touch.run pool).cache := by
  intro config first pool
  have made : Pool.start config .blank = .ok first := rfl
  have reached : Touch.turnover.foldl Touch.run first = pool := rfl
  exact ⟨made, by decide +kernel, Pool.lined_runs made Touch.turnover reached _⟩

end PagedTables
