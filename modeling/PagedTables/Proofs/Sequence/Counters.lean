import PagedTables.Proofs.Sequence.Service

/-! The counters of a pool that many operations share. The steps of the operations come in any order,
and between them tables are added, transactions end, and users change pages under their guards. -/

namespace PagedTables

namespace Fate

variable {log more : List Fate}

structure Counts (log : List Fate) : Prop where
  hits : log.countP (.hits ∈ ·.counters) = log.count served
  misses : log.countP (.misses ∈ ·.counters) =
    log.count unread + log.count homeless + log.count loaded
  read : log.countP (.read ∈ ·.counters) = log.count homeless + log.count loaded
  deadlocks : log.countP (.deadlocks ∈ ·.counters) = log.count refused
  settled : log.countP isSettled = log.count served + log.count crowded + log.count unread +
    log.count homeless + log.count loaded

theorem Counts.append (h : Counts log) (h' : Counts more) : Counts (log ++ more) := by
  constructor <;> simp only [List.countP_append, List.count_append, h.hits, h.misses, h.read,
    h.deadlocks, h.settled, h'.hits, h'.misses, h'.read, h'.deadlocks, h'.settled] <;> omega

theorem counts (log : List Fate) : Counts log := by
  induction log with
  | nil => constructor <;> rfl
  | cons fate log ih =>
    have single : Counts [fate] := by cases fate <;> constructor <;> decide
    exact single.append ih

end Fate

namespace Service

variable {first : Pool} {service : Service}

structure Balanced (first : Pool) (service : Service) : Prop where
  books : first.Books service.pool service.log
  granted : service.log.countP Fate.isSettled + service.tasks.countP Task.isGranted =
    service.log.count .granted

theorem balanced_start (first : Pool) : Balanced first (start first) := ⟨.refl first, rfl⟩

theorem Balanced.put (balanced : Balanced first service) {index : Nat} {task : Task}
    (there : service.tasks[index]? = some task) {result : Pool × Progress}
    (accounts : task.Accounts service.pool result) :
    Balanced first (service.put index task result) where
  books := balanced.books.trans accounts.books
  granted := by
    obtain ⟨inside, rfl⟩ := List.getElem?_eq_some_iff.mp there
    have before := balanced.granted
    have split := (List.getElem_cons_eraseIdx_perm inside).countP_eq Task.isGranted
    rw [← List.singleton_append, List.countP_append] at split
    have settles := accounts.settles
    simp only [Service.put, List.countP_append, List.count_append]
    omega

end Service

theorem Touch.books_run {touch : Touch} (aside : touch.isAside = true) (pool : Pool) :
    pool.Books (touch.run pool) [] :=
  aside_keeps (pool.Books · [])
    (fun _ _ _ cache stats kept => kept.kept stats (congrArg Cache.size cache))
    (fun _ later guard kept => kept.trans (later.books_edit guard _))
    (fun later guard _ kept => kept.trans (later.books_drop guard))
    (fun later page kept => kept.trans (later.books_flushPage page))
    (fun later page kept => kept.trans (later.books_discardPage page)) aside (.refl pool)

namespace Service

variable {first : Pool} {service : Service}

theorem Balanced.turn (balanced : Balanced first service) (turn : Turn) :
    Balanced first (service.turn turn) := by
  cases turn with
  | begin task =>
    simp only [Service.turn]
    split
    · next new =>
      have ungranted : task.isGranted = false := by
        cases task with
        | extend owner job => rfl
        | access access =>
          have asks : access.phase = .ask := of_decide_eq_true new
          simp [Task.isGranted, asks]
      refine ⟨balanced.books, ?_⟩
      rw [List.countP_cons_of_neg (by simp [ungranted])]
      exact balanced.granted
    · exact balanced
  | advance index =>
    simp only [Service.turn]
    cases there : service.tasks[index]? with
    | none => exact balanced
    | some task => exact balanced.put there (task.accounts_step service.pool)
  | expire index =>
    simp only [Service.turn]
    cases there : service.tasks[index]? with
    | none => exact balanced
    | some task =>
      simp only
      split
      · next waiting =>
        exact balanced.put there (Task.accounts_expire waiting service.pool)
      · exact balanced
  | drop guard =>
    simp only [Service.turn]
    split
    · exact ⟨balanced.books.trans (service.pool.books_drop guard), balanced.granted⟩
    · exact balanced
  | touch touch =>
    simp only [Service.turn]
    split
    · next aside =>
      exact ⟨balanced.books.trans (Touch.books_run (Bool.and_eq_true_iff.mp aside).1 _),
        balanced.granted⟩
    · exact balanced

theorem Balanced.turns (balanced : Balanced first service) (turns : List Turn) :
    Balanced first (turns.foldl Service.turn service) := by
  induction turns generalizing service with
  | nil => exact balanced
  | cons turn turns ih => exact ih (balanced.turn turn)

/-- As long as no counter has been raised 2^64 times, the counters add up at every moment. Of the
requests whose lock was granted some were served from the cache, some were not, and some have still to
find or to read their page; a request finds too many users only if there once were 2^32. Of the pages
that were read some are cached, some made room for others, some were dropped, and some found no
place. -/
theorem counters_balance {config : Config} {disk : Disk} {first : Pool}
    (made : Pool.start config disk = .ok first) {turns : List Turn} {service : Service}
    (reached : turns.foldl turn (start first) = service)
    (below : ∀ counter : Counter, service.log.countP (counter ∈ ·.counters) < 2 ^ 64) :
    let stats := service.pool.stats
    let log := service.log
    ((∀ before, before <+: turns → (before.foldl turn (start first)).users < 2 ^ 32) →
        stats.hits.toNat + stats.misses.toNat + service.tasks.countP Task.isGranted =
          log.count .granted) ∧
      stats.hits.toNat + stats.misses.toNat + log.count .crowded +
        service.tasks.countP Task.isGranted = log.count .granted ∧
      stats.read.toNat = service.pool.cache.size + stats.evictions.toNat +
        stats.discarded.toNat + log.count .homeless ∧
      stats.misses.toNat = stats.read.toNat + log.count .unread ∧
      stats.deadlocks.toNat = log.count .refused := by
  intro stats log
  have balanced : Balanced first service := reached ▸ (balanced_start first).turns turns
  have cleared : first.stats = .zero ∧ first.cache.size = 0 := by
    rw [Pool.start_eq made]
    exact ⟨rfl, rfl⟩
  have value : ∀ {counter : Counter} {n : Nat}, n < 2 ^ 64 →
      stats.value counter = first.stats.value counter + .ofNat n →
      (stats.value counter).toNat = n := by
    intro counter n small same
    rw [same, cleared.1]
    cases counter <;> exact (congrArg UInt64.toNat (UInt64.zero_add _)).trans
      (UInt64.toNat_ofNat_of_lt' small)
  have counted := fun counter asked => value (below counter) (balanced.books.counted counter asked)
  have counts := Fate.counts log
  have hits : stats.hits.toNat = _ := (counted .hits (by decide)).trans counts.hits
  have misses : stats.misses.toNat = _ := (counted .misses (by decide)).trans counts.misses
  have read : stats.read.toNat = _ := (counted .read (by decide)).trans counts.read
  have granted : log.countP Fate.isSettled + service.tasks.countP Task.isGranted =
      log.count .granted := balanced.granted
  rw [counts.settled] at granted
  have served : stats.hits.toNat + stats.misses.toNat + log.count .crowded +
      service.tasks.countP Task.isGranted = log.count .granted := by omega
  refine ⟨fun few => ?_, served, ?_, ?_, (counted .deadlocks (by decide)).trans counts.deadlocks⟩
  · have uncrowded : log.count .crowded = 0 :=
      (reached ▸ (attended_start made).turns turns few : service.Attended).uncrowded
    rw [← served, uncrowded, Nat.add_zero]
  · -- Pages that left are no more than pages that came, so their counters have not wrapped either.
    obtain ⟨evicted, dropped, evictions, discarded, size⟩ := balanced.books.places
    have few : log.count .homeless + log.count .loaded < 2 ^ 64 := counts.read ▸ below .read
    have size : service.pool.cache.size + evicted + dropped = log.count .loaded := by
      rw [size, cleared.2, Nat.zero_add]
    have left : stats.evictions.toNat = evicted := value (by omega) evictions
    have gone : stats.discarded.toNat = dropped := value (by omega) discarded
    omega
  · omega

def contention : List Turn :=
  let file : HeapFile := ⟨⟨0⟩, "numbers", Workload.numbers, ⟨16, 4, 3, 1⟩⟩
  let fetch (owner : UInt64) (number : UInt32) (purpose : Purpose) (steps : Nat) : List Turn :=
    .begin (.access ⟨⟨owner⟩, ⟨⟨0⟩, number⟩, purpose, .ask⟩) :: List.replicate steps (.advance 0)
  .touch (.perform (.create "numbers" Workload.numbers)) ::
    List.replicate 3 (.touch (.append file)) ++
  fetch 1 0 .mark 3 ++ fetch 2 1 .mark 3 ++ fetch 1 1 .mark 1 ++ fetch 2 0 .mark 1 ++
  fetch 3 2 (.guard .shared) 2 ++ fetch 3 7 (.guard .shared) 2 ++
  [.touch (.perform (.complete ⟨2⟩ false)), .advance 0, .advance 0, .advance 0,
    .touch (.perform (.complete ⟨1⟩ true))] ++
  fetch 3 2 (.guard .shared) 3 ++ fetch 1 1 .mark 3 ++ fetch 4 2 (.guard .shared) 1

/-- Two changed pages leave no place for the third, and their writers wait for each other: one of them
is refused and aborts, the other one commits. A page leaves, and the last request has just been
granted. -/
theorem counters_balance_contention :
    let config : Config := { pageSize := 16, poolPages := 2 }
    let first := { Workload.smallPool with config }
    let service := contention.foldl turn (start first)
    let stats := service.pool.stats
    let log := service.log
    stats.toList = [1, 6, 1, 5, 2, 1, 1] ∧ log.count .homeless = 1 ∧ log.count .unread = 1 ∧
      service.tasks.countP Task.isGranted = 1 ∧
      stats.hits.toNat + stats.misses.toNat + service.tasks.countP Task.isGranted =
        log.count .granted ∧
      stats.read.toNat = service.pool.cache.size + stats.evictions.toNat +
        stats.discarded.toNat + log.count .homeless ∧
      stats.misses.toNat = stats.read.toNat + log.count .unread ∧
      stats.deadlocks.toNat = log.count .refused := by
  intro config first service stats log
  have made : Pool.start config .blank = .ok first := rfl
  have reached : contention.foldl turn (start first) = service := rfl
  obtain ⟨few, counted, homeless, unread, granted⟩ :
      log.length < 2 ^ 64 ∧ stats.toList = [1, 6, 1, 5, 2, 1, 1] ∧ log.count .homeless = 1 ∧
        log.count .unread = 1 ∧ service.tasks.countP Task.isGranted = 1 := by
    decide +kernel
  have alone : ∀ before, before <+: contention →
      (before.foldl turn (start first)).users < 2 ^ 32 := fun before initial =>
    Nat.lt_of_le_of_lt (Nat.le_trans (users_turns_le before (start first))
      (Nat.add_le_add_left initial.length_le 0)) (by decide)
  obtain ⟨served, _, rest⟩ := counters_balance made reached
    fun _ => Nat.lt_of_le_of_lt List.countP_le_length few
  exact ⟨counted, homeless, unread, granted, served alone, rest⟩

end Service
end PagedTables
