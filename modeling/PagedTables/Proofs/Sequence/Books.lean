import PagedTables.Proofs.Pool.Tally
import PagedTables.Proofs.Sequence.Transparent
import PagedTables.Proofs.Storage.Unread

/-! The books that a pool keeps: of every page request its counters tell what came of it, and a page
that was brought in is still cached or was counted when it left. -/

namespace PagedTables

/-- What comes of a page request: first of the request for the page's lock, and if that is granted, of
the attempt to find or to read the page. -/
inductive Fate
  | granted
  | refused
  | served
  /-- The page was cached, but one user more cannot be counted; the operation ends with a fault. -/
  | crowded
  | unread
  | homeless
  | loaded
deriving DecidableEq

namespace Fate

def counters : Fate → List Counter
  | granted | crowded => []
  | refused => [.deadlocks]
  | served => [.hits]
  | unread => [.misses]
  | homeless | loaded => [.misses, .read]

/-- Whether a request with a granted lock has got its answer. -/
def isSettled : Fate → Bool
  | granted | refused => false
  | served | crowded | unread | homeless | loaded => true

def gained (cached : Bool) : Fate := if cached then served else loaded

/-- A page was not to be had. If it is cached, that is because it has too many users. -/
def failed (cached exhausted : Bool) : Fate :=
  if cached then crowded else if exhausted then homeless else unread

def ofPin (cached : Bool) : Except Failure Nat → Fate
  | .ok _ => gained cached
  | .error failure => failed cached failure.isExhausted

end Fate

namespace Statistics

def value (stats : Statistics) : Counter → UInt64
  | .hits => stats.hits
  | .misses => stats.misses
  | .evictions => stats.evictions
  | .read => stats.read
  | .written => stats.written
  | .discarded => stats.discarded
  | .deadlocks => stats.deadlocks

theorem value_count (stats : Statistics) (counter other : Counter) :
    (stats.count counter).value other =
      stats.value other + .ofNat (if counter = other then 1 else 0) := by
  cases counter <;> cases other <;> simp [count, add, value]

end Statistics

def Counter.ofRequests : List Counter := [.hits, .misses, .read, .deadlocks]

namespace Pool

variable {pool later : Pool} {fates more : List Fate}

/-- What was counted while requests came to their fates, the last one first. -/
structure Books (pool later : Pool) (fates : List Fate) : Prop where
  counted : ∀ counter ∈ Counter.ofRequests, later.stats.value counter =
    pool.stats.value counter + .ofNat (fates.countP (counter ∈ ·.counters))
  places : ∃ evicted dropped : Nat,
    later.stats.value .evictions = pool.stats.value .evictions + .ofNat evicted ∧
    later.stats.value .discarded = pool.stats.value .discarded + .ofNat dropped ∧
    later.cache.size + evicted + dropped = pool.cache.size + fates.count .loaded

theorem Books.of_same (stats : later.stats = pool.stats)
    (size : later.cache.size = pool.cache.size) : pool.Books later [] where
  counted counter _ := by simp [stats]
  places := ⟨0, 0, by simp [stats], by simp [stats], by simp [size]⟩

theorem Books.refl (pool : Pool) : pool.Books pool [] := .of_same rfl rfl

theorem Books.trans {between : Pool} (h : pool.Books between fates) (h' : between.Books later more) :
    pool.Books later (more ++ fates) where
  counted counter asked := by
    rw [h'.counted counter asked, h.counted counter asked, List.countP_append, Nat.add_comm,
      UInt64.ofNat_add, UInt64.add_assoc]
  places := by
    obtain ⟨evicted, dropped, evictions, discarded, size⟩ := h.places
    obtain ⟨evicted', dropped', evictions', discarded', size'⟩ := h'.places
    refine ⟨evicted + evicted', dropped + dropped', ?_, ?_, ?_⟩
    · rw [evictions', evictions, UInt64.ofNat_add, UInt64.add_assoc]
    · rw [discarded', discarded, UInt64.ofNat_add, UInt64.add_assoc]
    · rw [List.count_append]
      omega

theorem Books.kept {between : Pool} (h : pool.Books between fates)
    (stats : later.stats = between.stats) (size : later.cache.size = between.cache.size) :
    pool.Books later fates := h.trans (.of_same stats size)

theorem Books.of_fate {roomy : Pool} (fate : Fate) (between : Pool)
    (stats : between.stats = fate.counters.foldl Statistics.count pool.stats)
    (same : between.cache = pool.cache) (room : between.Books roomy [])
    (kept : later.stats = roomy.stats)
    (size : later.cache.size = roomy.cache.size + [fate].count .loaded) :
    pool.Books later [fate] where
  counted counter asked := by
    rw [kept, room.counted counter asked, stats]
    cases fate <;> cases counter <;>
      simp [Fate.counters, Statistics.value_count, Counter.ofRequests] at asked ⊢
  places := by
    obtain ⟨evicted, dropped, evictions, discarded, left⟩ := room.places
    have still : between.stats.value .evictions = pool.stats.value .evictions ∧
        between.stats.value .discarded = pool.stats.value .discarded := by
      rw [stats]
      cases fate <;> exact ⟨rfl, rfl⟩
    refine ⟨evicted, dropped, ?_, ?_, ?_⟩
    · rw [kept, evictions, still.1]
    · rw [kept, discarded, still.2]
    · rw [List.count_nil, same] at left
      omega

theorem Books.of_count (counter : Counter) (apart : counter ∉ Counter.ofRequests)
    (stats : later.stats = pool.stats.count counter)
    (size : later.cache.size + (if counter = .written then 0 else 1) = pool.cache.size) :
    pool.Books later [] where
  counted other asked := by
    have unlike : counter ≠ other := fun same => apart (same ▸ asked)
    simp [stats, Statistics.value_count, unlike]
  places := by
    simp only [stats, Statistics.value_count, List.count_nil, Nat.add_zero]
    cases counter with
    | evictions => exact ⟨1, 0, rfl, rfl, size⟩
    | discarded => exact ⟨0, 1, rfl, rfl, size⟩
    | written => exact ⟨0, 0, rfl, rfl, size⟩
    | hits => simp [Counter.ofRequests] at apart
    | misses => simp [Counter.ofRequests] at apart
    | read => simp [Counter.ofRequests] at apart
    | deadlocks => simp [Counter.ofRequests] at apart

theorem books_makeRoom (pool : Pool) : pool.Books pool.makeRoom.1 [] := by
  rcases pool.makeRoom_cases with same | ⟨cache, evicted, same⟩
  · rw [same]
    exact .refl pool
  · rw [same]
    exact .of_count .evictions (by decide) rfl (Cache.size_evict evicted)

theorem books_pin (pool : Pool) (page : PageId) :
    pool.Books (pool.pin page).1 [.ofPin (pool.isCached page) (pool.pin page).2] := by
  have cached : pool.isCached page = pool.cache.frames[page]?.isSome :=
    Std.ExtTreeMap.contains_eq_isSome_getElem?
  rw [cached]
  unfold pin
  cases present : pool.cache.frames[page]? with
  | some resident =>
    have size := fun resident => pool.cache.size_update page resident
    by_cases full : resident.frame.pins + 1 = 0
    · simp only [Frame.pin, full, ↓reduceIte]
      exact .of_fate .crowded pool rfl rfl (.refl pool) rfl (size _)
    · simp only [Frame.pin, full, ↓reduceIte]
      exact .of_fate .served (pool.count .hits) rfl rfl (.refl _) rfl (size _)
  | none =>
    simp only
    have same : (pool.count .misses).readPage page = pool.readPage page := rfl
    rw [same]
    cases read : pool.readPage page with
    | error failure =>
      have unread : Fate.ofPin false (.error failure) = .unread := by
        cases unread_of_readPage read <;> rfl
      simp only [Option.isSome_none, unread]
      exact .of_fate .unread (pool.count .misses) rfl rfl (.refl _) rfl rfl
    | ok heap =>
      -- The miss and the read are counted before room is made, so they stand also if there is none.
      have room := books_makeRoom ((pool.count .misses).count .read)
      have gone := (serves_makeRoom ((pool.count .misses).count .read) present).2
      have exhausted : ∀ failure, ((pool.count .misses).count .read).makeRoom.2 = .error failure →
          failure.isExhausted = true := fun _ => exhausted_of_makeRoom
      simp only
      generalize ((pool.count .misses).count .read).makeRoom = made at room gone exhausted ⊢
      obtain ⟨roomy, answer⟩ := made
      cases answer with
      | error failure =>
        have homeless : Fate.ofPin false (.error failure) = .homeless := by
          simp [Fate.ofPin, Fate.failed, exhausted failure rfl]
        simp only [Option.isSome_none, homeless]
        exact .of_fate .homeless ((pool.count .misses).count .read) rfl rfl room rfl rfl
      | ok done =>
        rw [← (of_readPage read).1] at gone
        exact .of_fate .loaded ((pool.count .misses).count .read) rfl rfl room rfl
          (Cache.size_load gone)

theorem books_latch {guard : Guard} (h : pool.latch guard = some later) : pool.Books later [] := by
  obtain ⟨resident, frame, _, _, rfl⟩ := latch_eq_some h
  exact .of_same rfl (Cache.size_update ..)

theorem books_change (pool : Pool) (guard : Guard) (heap : HeapPage) :
    pool.Books (pool.change guard heap) [] := by
  unfold Pool.change
  split
  · exact .refl pool
  · exact .of_same rfl (Cache.size_update ..)

theorem books_drop (pool : Pool) (guard : Guard) : pool.Books (pool.drop guard).1 [] := by
  unfold drop
  split
  · exact .refl pool
  · exact .of_same rfl (Cache.size_update ..)

theorem books_edit {α : Type} (pool : Pool) (guard : Guard)
    (change : HeapPage → Except Failure (HeapPage × α)) :
    pool.Books (pool.edit guard change).1 [] := by
  unfold edit
  cases pool.view guard with
  | none => exact .refl pool
  | some heap =>
    simp only
    cases change heap with
    | error failure => exact .refl pool
    | ok result => exact pool.books_change guard result.1

theorem books_flushPage (pool : Pool) (page : PageId) : pool.Books (pool.flushPage page).1 [] := by
  unfold flushPage
  cases pool.cache.frames[page]? with
  | none => exact .refl pool
  | some resident =>
    simp only [writePage]
    split
    · exact .refl pool
    · split
      · cases pool.file resident.frame.page.id.table with
        | error failure => exact .refl pool
        | ok file =>
          cases write : file.writePage pool.disk resident.frame.page with
          | error failure =>
            simp only [write]
            exact .refl pool
          | ok disk =>
            simp only [write]
            exact .of_count .written (by decide) rfl (Cache.size_update ..)
      · exact .refl pool

theorem books_discardPage (pool : Pool) (page : PageId) :
    pool.Books (pool.discardPage page) [] := by
  unfold discardPage
  cases drops : pool.cache.discard page with
  | none => exact .refl pool
  | some cache => exact .of_count .discarded (by decide) rfl (Cache.size_discard drops)

end Pool

def Purpose.isFetch : Purpose → Bool
  | lock _ => false
  | guard _ | place _ _ | claim _ | remove _ _ | mark | visit _ _ => true

def Failure.isDeadlock : Failure → Bool
  | error (.deadlock _ _) => true
  | _ => false

def Finish.isDeadlock : Finish → Bool
  | failed failure => failure.isDeadlock
  | scanned _ (some failure) => failure.isDeadlock
  | _ => false

/-- Whether a page's lock was granted and the page is still to be found or read. -/
def Task.isGranted : Task → Bool
  | access current => current.phase = .pin
  | extend _ _ => false

def Progress.tasks : Progress → List Task
  | running task => [task]
  | finished _ => []

def Access.fate (access : Access) (cached : Bool) (progress : Progress) : Option Fate :=
  match access.phase, progress with
  | .use _, _ => none
  | .pin, .running _ => some (.gained cached)
  | .pin, .finished finish => some (.failed cached finish.isExhausted)
  | .ask, .running task | .wait, .running task => if task.isGranted then some .granted else none
  | .ask, .finished finish | .wait, .finished finish =>
    if access.purpose.isFetch && finish.isDeadlock then some .refused else none

def Task.fate (task : Task) (pool : Pool) (progress : Progress) : Option Fate :=
  match task with
  | access current => current.fate (pool.isCached current.page) progress
  | extend _ _ => none

/-- What a step does to the counters, and to the requests that are granted: each is under way until it
gets its answer. -/
structure Task.Accounts (pool : Pool) (task : Task) (result : Pool × Progress) : Prop where
  books : pool.Books result.1 (task.fate pool result.2).toList
  settles : (task.fate pool result.2).toList.countP Fate.isSettled +
      result.2.tasks.countP Task.isGranted =
    (task.fate pool result.2).toList.count .granted + [task].countP Task.isGranted

theorem Purpose.Leads.ungranted {owner : TransactionId} {heap : HeapPage} {purpose : Purpose}
    {progress : Progress} (leads : purpose.Leads owner heap progress) :
    progress.tasks.countP Task.isGranted = 0 := by
  cases leads with
  | ended purpose finish closes => rfl
  | remarked purpose writes => rfl
  | passed job stop more => rfl
  | filled purpose job wants => rfl
  | visited cursor toEnd =>
    unfold Cursor.advance
    split <;> rfl

namespace Access

variable {access : Access}

theorem accounts_answered (asks : access.phase = .ask ∨ access.phase = .wait) (pool : Pool)
    (locks : LockManager) (answer : LockAnswer) :
    Task.Accounts pool (.access access) (access.answered { pool with locks } answer) := by
  obtain ⟨owner, page, purpose, phase⟩ := access
  have same : pool.Books { pool with locks } [] := .of_same rfl rfl
  have granted : pool.Books { pool with locks } [.granted] :=
    .of_fate .granted pool rfl rfl (.refl pool) rfl rfl
  have refused : pool.Books (({ pool with locks } : Pool).count .deadlocks) [.refused] :=
    .of_fate .refused (pool.count .deadlocks) rfl rfl (.refl _) rfl rfl
  rcases asks with rfl | rfl <;> cases answer <;> cases purpose <;>
    first | exact ⟨same, rfl⟩ | exact ⟨granted, rfl⟩ | exact ⟨refused, rfl⟩

theorem accounts_pin (phase : access.phase = .pin) (pool : Pool) :
    Task.Accounts pool (.access access) (access.pin pool) := by
  have books := pool.books_pin access.page
  unfold pin
  generalize pool.pin access.page = result at books ⊢
  obtain ⟨later, answer⟩ := result
  obtain ⟨owner, page, purpose, _⟩ := access
  subst phase
  cases answer with
  | ok stay =>
    refine ⟨books, ?_⟩
    simp only [Task.fate, fate]
    cases pool.isCached page <;> rfl
  | error failure =>
    have exhausted := purpose.isExhausted_failed failure
    constructor
    · simp only [Task.fate, fate, exhausted]
      exact books
    · simp only [Task.fate, fate]
      cases pool.isCached page <;> cases (purpose.failed failure).isExhausted <;> rfl

theorem accounts_use {stay : Nat} (phase : access.phase = .use stay) (pool : Pool) :
    Task.Accounts pool (.access access) (access.use pool stay) := by
  have none : ∀ progress, Task.fate (.access access) pool progress = none := by
    intro progress
    simp only [Task.fate, fate, phase]
  have ungranted : [Task.access access].countP Task.isGranted = 0 := by
    simp [Task.isGranted, phase]
  have accounts : ∀ {later : Pool} {progress : Progress}, pool.Books later [] →
      progress.tasks.countP Task.isGranted = 0 →
      Task.Accounts pool (.access access) (later, progress) := by
    intro later progress books tasks
    constructor
    · rwa [none]
    · rw [none, tasks, ungranted]
      rfl
  have whole : ∀ {latched : Pool}, pool.latch (access.guard stay) = some latched →
      ∀ heap, pool.Books ((latched.change (access.guard stay) heap).drop (access.guard stay)).1 [] :=
    fun latch heap =>
      ((Pool.books_latch latch).trans (Pool.books_change _ _ heap)).trans (Pool.books_drop _ _)
  have uses := access.use_uses pool stay
  generalize access.use pool stay = result at uses ⊢
  cases uses with
  | blocked refused => exact accounts (.refl pool) ungranted
  | guarded mode purpose latched latch heap view => exact accounts (Pool.books_latch latch) rfl
  | gone latched latch absent => exact accounts (Pool.books_latch latch) ungranted
  | done works latched latch heap view later drop =>
    have dropped := whole latch (access.result heap).1
    rw [drop] at dropped
    exact accounts dropped (access.purpose.leads_act access.owner heap).ungranted
  | failed works latched latch heap view later failure drop =>
    have dropped := whole latch (access.result heap).1
    rw [drop] at dropped
    exact accounts dropped rfl

theorem fate_ne_crowded (other : access.phase ≠ .pin) (cached : Bool) (progress : Progress) :
    access.fate cached progress ≠ some .crowded := by
  obtain ⟨owner, page, purpose, phase⟩ := access
  cases phase with
  | pin => exact absurd rfl other
  | use stay => exact nofun
  | ask => cases progress <;> simp only [fate] <;> split <;> simp
  | wait => cases progress <;> simp only [fate] <;> split <;> simp

theorem crowded_iff (phase : access.phase = .pin) (pool : Pool) :
    access.fate (pool.isCached access.page) (access.pin pool).2 = some .crowded ↔
      ∃ resident, pool.cache.frames[access.page]? = some resident ∧
        resident.frame.pins + 1 = 0 := by
  have cached : pool.isCached access.page = pool.cache.frames[access.page]?.isSome :=
    Std.ExtTreeMap.contains_eq_isSome_getElem?
  have away : ∀ exhausted, Fate.failed false exhausted ≠ .crowded := by decide
  have pins := pool.pin_pins access.page
  simp only [fate, phase, cached, pin]
  generalize pool.pin access.page = result at pins ⊢
  cases pins with
  | hit resident present room stats => simp [present, room, Fate.gained]
  | crowded resident present full failure => simp [present, full, Fate.failed]
  | unread absent stats failure unread => simp [absent, away]
  | homeless absent stats failure exhausted => simp [absent, away]
  | loaded absent stats heap read roomy made => simp [absent, Fate.gained]

end Access

namespace Task

/-- Only a page with 2 ^ 32 - 1 users is not found though it is cached. -/
theorem crowded_iff {task : Task} {pool : Pool} :
    task.fate pool (task.step pool).2 = some .crowded ↔ ∃ page resident, task.pins? = some page ∧
      pool.cache.frames[page]? = some resident ∧ resident.frame.pins + 1 = 0 := by
  cases task with
  | extend owner job => simp [Task.fate, pins?]
  | access access =>
    have never : access.phase ≠ .pin → (Task.access access).pins? = none := by
      obtain ⟨owner, page, purpose, phase⟩ := access
      cases phase <;> simp [pins?]
    by_cases phase : access.phase = .pin
    · have step : (Task.access access).step pool = access.pin pool := by
        show access.step pool = _
        simp only [Access.step, phase]
      have asked : (Task.access access).pins? = some access.page := by
        obtain ⟨owner, page, purpose, _⟩ := access
        obtain rfl := phase
        rfl
      simp only [step, asked, Task.fate, Access.crowded_iff phase, Option.some.injEq, ↓existsAndEq,
        true_and]
    · have ungranted := Access.fate_ne_crowded phase (pool.isCached access.page)
        (access.step pool).2
      simp [never phase, Task.fate, Task.step, ungranted]

theorem accounts_step (task : Task) (pool : Pool) : Accounts pool task (task.step pool) := by
  cases task with
  | extend owner job =>
    simp only [step, Pool.appendPage]
    cases job.file.appendBlank pool.disk <;> exact ⟨.of_same rfl rfl, rfl⟩
  | access access =>
    show Accounts pool (.access access) (access.step pool)
    unfold Access.step
    cases phase : access.phase with
    | ask => exact Access.accounts_answered (.inl phase) pool _ _
    | wait =>
      simp only
      split
      · exact Access.accounts_answered (.inr phase) pool _ _
      · have none : Task.fate (.access access) pool (.running (.access access)) = none := by
          simp [Task.fate, Access.fate, isGranted, phase]
        exact ⟨none ▸ .refl pool, by rw [none]; rfl⟩
    | pin => exact Access.accounts_pin phase pool
    | use stay => exact Access.accounts_use phase pool

theorem accounts_expire {task : Task} (waiting : task.isWaiting = true) (pool : Pool) :
    Accounts pool task (task.expire pool) := by
  cases task with
  | extend owner job => exact ⟨.refl pool, rfl⟩
  | access access => exact Access.accounts_answered (.inr (of_decide_eq_true waiting)) pool _ _

end Task
end PagedTables
