import PagedTables.Proofs.Lock.Decision
import PagedTables.Proofs.Sequence.Eviction
import PagedTables.Proofs.Workload.Iteration

/-! Pages that can be had for reading. A scan that can have the pages ahead of it comes to its next tuple,
and can have the pages after that as before. -/

namespace PagedTables

theorem LockTable.admits_of_holds {table : LockTable} {owner : TransactionId} {page : PageId}
    (valid : table.Valid) (holds : table.Holds owner page .shared) :
    table.Admits page owner .shared := by
  obtain ⟨lock, found, member, _⟩ := holds
  simp only [Admits, found]
  cases mode : lock.mode with
  | shared => exact .inr ⟨rfl, trivial⟩
  | exclusive =>
    refine .inl fun holder => ⟨fun also => ?_, fun same => same ▸ member⟩
    have mine : table.Holds owner page .exclusive := ⟨lock, found, member, fun _ => mode⟩
    have theirs : table.Holds holder page .shared := by
      refine ⟨lock, found, also, fun other => ?_⟩
      cases other
    exact mine.alone valid theirs

namespace Pool

variable {pool later : Pool} {owner : TransactionId} {page other : PageId} {resident : Resident}
  {cache : Cache}

def HasRoom (pool : Pool) : Prop :=
  pool.cache.size < pool.config.poolPages ∨ ∃ page resident, pool.cache.MayGo page resident

/-- Nobody keeps a transaction from a page: its lock is free or shared, it can be read, one user more
can be counted, nobody writes to it, and there is a place for it. -/
structure Offers (pool : Pool) (owner : TransactionId) (page : PageId) : Prop where
  lock : pool.locks.table.Admits page owner .shared
  readable : ∃ heap, pool.shown page = .ok heap
  free : ∀ resident, pool.cache.frames[page]? = some resident →
    resident.frame.pins + 1 ≠ 0 ∧ resident.frame.latch ≠ .exclusive
  room : pool.cache.frames[page]? = none → pool.HasRoom

instance (pool : Pool) : Decidable pool.HasRoom :=
  decidable_of_iff (pool.cache.size < pool.config.poolPages ∨
      ∃ page ∈ pool.cache.frames.keys, pool.cache.isEvictable page = true) <| by
    refine or_congr_right ⟨?_, ?_⟩
    · rintro ⟨page, _, may⟩
      exact ⟨page, Cache.isEvictable_iff.mp may⟩
    · rintro ⟨page, resident, may⟩
      exact ⟨page, Std.ExtTreeMap.mem_keys.mpr (Cache.mem_frames_iff.mpr ⟨resident, may.present⟩),
        Cache.isEvictable_iff.mpr ⟨resident, may⟩⟩

instance (pool : Pool) (owner : TransactionId) (page : PageId) :
    Decidable (pool.Offers owner page) :=
  decidable_of_iff (pool.locks.table.Admits page owner .shared ∧ (pool.shown page).isOk = true ∧
      (∀ resident ∈ pool.cache.frames[page]?,
        resident.frame.pins + 1 ≠ 0 ∧ resident.frame.latch ≠ .exclusive) ∧
      (pool.cache.frames[page]? = none → pool.HasRoom)) <| by
    have readable : (pool.shown page).isOk = true ↔ ∃ heap, pool.shown page = .ok heap := by
      cases pool.shown page <;> simp [Except.isOk, Except.toBool]
    rw [readable]
    exact ⟨fun ⟨lock, readable, free, room⟩ => ⟨lock, readable, free, room⟩,
      fun ⟨lock, readable, free, room⟩ => ⟨lock, readable, free, room⟩⟩

/-- A page was visited. The others are where they were, or it has taken the place of one and may go. -/
structure LetsGo (pool later : Pool) (page : PageId) : Prop where
  config : later.config = pool.config
  locks : later.locks = pool.locks
  shown : ∀ other, later.shown other = pool.shown other
  elsewhere : ∀ other, other ≠ page → later.cache.frames[other]? = pool.cache.frames[other]? ∨
    later.cache.frames[other]? = none
  room : (∀ other : PageId, later.cache.frames[other]? = pool.cache.frames[other]?) ∨
    ∃ resident, later.cache.MayGo page resident

theorem HasRoom.congr (room : pool.HasRoom) (config : later.config = pool.config)
    (same : ∀ page : PageId, later.cache.frames[page]? = pool.cache.frames[page]?) :
    later.HasRoom := by
  refine room.imp (fun fits => ?_) fun ⟨page, resident, may⟩ => ⟨page, resident, ?_⟩
  · rw [config]
    exact Nat.lt_of_le_of_lt
      (Cache.size_le fun page resident present => ⟨resident, same page ▸ present⟩) fits
  · exact ⟨(same page).trans may.present, may.unpinned, may.unlatched, may.clean⟩

theorem LetsGo.offers (letsGo : pool.LetsGo later page) (apart : other ≠ page)
    (offers : pool.Offers owner other) : later.Offers owner other where
  lock := letsGo.locks ▸ offers.lock
  readable := letsGo.shown other ▸ offers.readable
  free resident present := by
    rcases letsGo.elsewhere other apart with same | gone
    · exact offers.free resident (same ▸ present)
    · cases gone.symm.trans present
  room absent := by
    rcases letsGo.room with same | ⟨resident, may⟩
    · exact (offers.room (same other ▸ absent)).congr letsGo.config same
    · exact .inr ⟨page, resident, may⟩

structure Ready (pool later : Pool) (page : PageId) (resident : Resident) (readers : Nat) : Prop where
  present : later.cache.frames[page]? = some resident
  pinned : resident.frame.pins ≠ 0
  shared : resident.frame.latch = .shared readers
  letsGo : ∀ cache, Cache.Replaces page
      ⟨resident.stay, { resident.frame with pins := resident.frame.pins - 1 }⟩ later.cache cache →
    pool.LetsGo { later with cache } page

theorem shown_replaces (present : pool.cache.frames[page]? = some resident) {after : Resident}
    (replaces : Cache.Replaces page after pool.cache cache) (same : after.rested = resident.rested)
    (other : PageId) : ({ pool with cache } : Pool).shown other = pool.shown other :=
  ((Serves.of_visits (replaces.visits present same) pool.stats).alike.shown other).symm

theorem latch_shared (guard : Guard) (present : pool.cache.frames[guard.page]? = some resident)
    (stays : resident.stay = guard.stay) (reads : guard.writable = false) {readers : Nat}
    (shared : resident.frame.latch = .shared readers) :
    ∃ cache, pool.latch guard = some { pool with cache } ∧
      Cache.Replaces guard.page ⟨resident.stay, { resident.frame with latch := .shared (readers + 1) }⟩
        pool.cache cache := by
  have found := Cache.find?_of_cached present
  rw [stays] at found
  have replaces := Cache.replaces_update present
    { resident.frame with latch := .shared (readers + 1) }
  refine ⟨_, ?_, replaces⟩
  simp [latch, found, reads, Frame.latchShared, shared]

theorem ready_of_brings {gone : Option PageId} {heap : HeapPage} (serves : Serves page pool later)
    (named : heap.id = page) (clean : heap.dirtiedBy = none)
    (brings : Cache.Brings gone heap pool.cache later.cache) :
    pool.Ready later page ⟨pool.cache.nextStay, ⟨heap.id, heap, 1, .shared 0⟩⟩ 0 := by
  subst named
  have present : later.cache.frames[heap.id]? =
      some ⟨pool.cache.nextStay, ⟨heap.id, heap, 1, .shared 0⟩⟩ := by
    rw [brings.frames, if_pos rfl]
  refine ⟨present, (by decide : (1 : UInt32) ≠ 0), rfl, fun cache replaces => ⟨serves.config,
    serves.locks, fun other => ?_, fun other apart => ?_,
    .inr ⟨_, replaces.cached, UInt32.sub_self 1, nofun, clean⟩⟩⟩
  · exact (shown_replaces present replaces rfl other).trans (serves.alike.shown other).symm
  · rw [show ({ later with cache } : Pool).cache.frames[other]? = _ from replaces.elsewhere apart,
      brings.frames, if_neg apart]
    split
    · exact .inr rfl
    · exact .inl rfl

theorem Offers.pin (offers : pool.Offers owner page) (lined : pool.cache.Lined) :
    ∃ resident readers, (pool.pin page).2 = .ok resident.stay ∧
      pool.Ready (pool.pin page).1 page resident readers := by
  have fetches := pool.fetches_pin lined page
  have serves := pool.serves_pin page
  obtain ⟨heap, shown⟩ := offers.readable
  generalize pool.pin page = result at fetches serves ⊢
  obtain ⟨later, answer⟩ := result
  dsimp only at fetches serves ⊢
  generalize came : later.cache = cache at fetches
  have brought : ∀ {gone : Option PageId} {heap : HeapPage}, pool.readPage page = .ok heap →
      Cache.Brings gone heap pool.cache cache → ∃ readers,
        pool.Ready later page ⟨pool.cache.nextStay, ⟨heap.id, heap, 1, .shared 0⟩⟩ readers :=
    fun read brings =>
      ⟨0, ready_of_brings serves (of_readPage read).1 (of_readPage read).2 (came ▸ brings)⟩
  -- The ways to be refused are those that the offer excludes.
  cases fetches with
  | unread absent failure unread =>
    rw [shown_absent pool absent, unread] at shown
    cases shown
  | roomy absent heap read room cache brings =>
    exact ⟨_, (brought read brings).imp fun readers ready => ⟨rfl, ready⟩⟩
  | evicts absent heap read full victim oldest cache brings =>
    exact ⟨_, (brought read brings).imp fun readers ready => ⟨rfl, ready⟩⟩
  | exhausted absent heap read full stuck =>
    rcases offers.room absent with fits | ⟨other, resident, may⟩
    · exact absurd fits full
    · exact absurd may (stuck other resident)
  | hit resident present cache replaces order =>
    obtain ⟨room, unlatched⟩ := offers.free resident present
    obtain ⟨readers, latch⟩ : ∃ readers, resident.frame.latch = .shared readers := by
      cases latch : resident.frame.latch with
      | shared readers => exact ⟨readers, rfl⟩
      | exclusive => exact absurd latch unlatched
    rw [← came] at replaces
    refine ⟨{ resident with frame := { resident.frame with pins := resident.frame.pins + 1 } },
      readers, if_neg room, replaces.cached, room, latch, fun after replaces' => ?_⟩
    have same : ∀ other : PageId, after.frames[other]? = pool.cache.frames[other]? := by
      intro other
      rw [(replaces.trans replaces').frames]
      split
      · next here =>
        rw [here, present]
        simp only [UInt32.add_sub_cancel]
      · rfl
    refine ⟨serves.config, serves.locks, fun other => ?_, fun other _ => .inl (same other),
      .inl same⟩
    exact (shown_replaces replaces.cached replaces' rfl other).trans (serves.alike.shown other).symm

end Pool

def Cursor.Offered (cursor : Cursor) (pool : Pool) : Prop :=
  cursor.isOpen = true → ∀ number, cursor.nextPage ≤ number → number < cursor.numPages →
    pool.Offers cursor.owner ⟨cursor.file.table, number⟩

instance (cursor : Cursor) (pool : Pool) : Decidable (cursor.Offered pool) :=
  decidable_of_iff (cursor.isOpen = true → ∀ number < cursor.numPages.toNat,
      cursor.nextPage.toNat ≤ number → pool.Offers cursor.owner ⟨cursor.file.table, .ofNat number⟩) <| by
    refine imp_congr_right fun _ => ⟨fun all number ahead counted => ?_,
      fun offered number counted ahead => offered _ ?_ ?_⟩
    · have offers := all number.toNat (UInt32.lt_iff_toNat_lt.mp counted)
        (UInt32.le_iff_toNat_le.mp ahead)
      rwa [UInt32.ofNat_toNat] at offers
    all_goals
      have small : number < 2 ^ 32 := Nat.lt_trans counted cursor.numPages.toNat_lt
      have same : (UInt32.ofNat number).toNat = number :=
        UInt32.toNat_ofNat_of_lt' small
    · exact UInt32.le_iff_toNat_le.mpr (same.symm ▸ ahead)
    · exact UInt32.lt_iff_toNat_lt.mpr (same.symm ▸ counted)

def Progress.Offered (pool : Pool) : Progress → Prop
  | running (.access ⟨owner, page, purpose, phase⟩) => ∃ cursor, purpose = .visit cursor false ∧
    owner = cursor.owner ∧ cursor.wanted false = some page ∧
    match phase with
    | .ask | .pin => cursor.Offered pool
    | .wait => False
    | .use stay => ∃ before resident readers, cursor.Offered before ∧ resident.stay = stay ∧
      before.Ready pool page resident readers
  | running (.extend _ _) => False
  | finished (.scanned cursor none) => cursor.Offered pool
  | finished _ => False

section Offered

variable {pool later : Pool} {cursor : Cursor} {page : PageId} {heap : HeapPage} {task : Task}

theorem Cursor.Offered.wanted (offered : cursor.Offered pool)
    (wanted : cursor.wanted false = some page) : pool.Offers cursor.owner page := by
  obtain ⟨opened, more, rfl⟩ := Cursor.wanted_eq_some wanted
  exact offered opened _ UInt32.le_rfl more

theorem Cursor.Offered.visit (offered : cursor.Offered pool) (wanted : cursor.wanted false = some page)
    (letsGo : pool.LetsGo later page) (heap : HeapPage) : (cursor.visit heap).Offered later := by
  obtain ⟨_, more, rfl⟩ := Cursor.wanted_eq_some wanted
  intro opened number ahead counted
  have ahead : cursor.nextPage + 1 ≤ number := ahead
  rw [UInt32.le_iff_toNat_le, toNat_succ_of_lt more] at ahead
  refine letsGo.offers (fun same => ?_)
    (offered opened number (UInt32.le_iff_toNat_le.mpr (Nat.le_of_succ_le ahead)) counted)
  obtain rfl : number = cursor.nextPage := congrArg PageId.number same
  exact absurd ahead (Nat.not_succ_le_self _)

theorem Cursor.Offered.advance (offered : cursor.Offered pool) :
    (cursor.advance false).Offered pool := by
  unfold Cursor.advance
  split
  · next page wanted => exact ⟨cursor, rfl, rfl, wanted, offered⟩
  · exact offered

theorem Cursor.Offered.pop (offered : cursor.Offered pool) : cursor.pop.1.Offered pool := by
  unfold Cursor.pop
  split
  · exact offered
  · exact offered

theorem Cursor.Offered.relocked {locks : LockManager} (offered : cursor.Offered pool)
    (admits : ∀ page, pool.locks.table.Admits page cursor.owner .shared →
      locks.table.Admits page cursor.owner .shared) : cursor.Offered { pool with locks } := by
  intro opened number ahead counted
  have offers := offered opened number ahead counted
  exact ⟨admits _ offers.lock, offers.readable, offers.free, offers.room⟩

theorem Cursor.Offered.request (offered : cursor.Offered pool) (valid : pool.locks.table.Valid)
    (wanted : cursor.wanted false = some page) :
    ∃ locks, (Access.mk cursor.owner page (.visit cursor false) .ask).request pool =
        ({ pool with locks },
          .running (.access ⟨cursor.owner, page, .visit cursor false, .pin⟩)) ∧
      cursor.Offered { pool with locks } := by
  have answers := pool.locks.answers_acquire page cursor.owner .shared
  have granted := answers.granted.mpr (offered.wanted wanted).lock
  have holds := LockManager.holds_acquire granted
  have further := pool.locks.extends_acquire page cursor.owner .shared
  refine ⟨(pool.locks.acquire page cursor.owner .shared).1, ?_, offered.relocked fun other admits => ?_⟩
  · simp only [Access.request, Purpose.mode]
    rw [granted]
    rfl
  · by_cases same : other = page
    · rw [same]
      exact LockTable.admits_of_holds (further.valid valid) holds
    · rw [LockTable.Admits, (answers.grants granted).elsewhere other same]
      exact admits

theorem Progress.Offered.move (valid : pool.locks.table.Valid) (lined : pool.cache.Lined)
    (offered : (Progress.running task).Offered pool) :
    (task.move pool).2.left < task.left ∧ (task.move pool).2.Offered (task.move pool).1 := by
  cases task with
  | extend owner job => exact offered.elim
  | access access =>
    obtain ⟨owner, page, purpose, phase⟩ := access
    obtain ⟨cursor, rfl, rfl, wanted, offered⟩ := offered
    -- With the lock free the call does not come to wait, so there are three steps to a page.
    cases phase with
    | wait => exact offered.elim
    | ask =>
      obtain ⟨locks, same, offered⟩ := offered.request valid wanted
      have moved : (Task.access ⟨cursor.owner, page, .visit cursor false, .ask⟩).move pool = _ := same
      rw [moved]
      exact ⟨Nat.add_lt_add_right (by decide : 2 < 4) _, cursor, rfl, rfl, wanted, offered⟩
    | pin =>
      obtain ⟨resident, readers, pinned, ready⟩ := (offered.wanted wanted).pin lined
      have moved : (Task.access ⟨cursor.owner, page, .visit cursor false, .pin⟩).move pool =
          ((pool.pin page).1,
            .running (.access ⟨cursor.owner, page, .visit cursor false, .use resident.stay⟩)) := by
        show Access.pin _ pool = _
        simp only [Access.pin]
        generalize pool.pin page = result at pinned
        obtain ⟨later, answer⟩ := result
        obtain rfl := pinned
        rfl
      rw [moved]
      exact ⟨Nat.add_lt_add_right Nat.one_lt_two _, cursor, rfl, rfl, wanted, pool, resident, readers,
        offered, rfl, ready⟩
    | use stay =>
      obtain ⟨before, resident, readers, offered, rfl, ready⟩ := offered
      obtain ⟨first, latched, latches⟩ := Pool.latch_shared
        (Access.guard ⟨cursor.owner, page, .visit cursor false, .use resident.stay⟩ resident.stay)
        ready.present rfl rfl ready.shared
      obtain ⟨cache, used, replaces⟩ := Access.use_cached _ ready.pinned (by simp) latched latches
      have letsGo := ready.letsGo cache (by
        have same := ready.shared
        obtain ⟨_, _, _, _, latch⟩ := resident
        obtain rfl := same
        exact replaces)
      have moved : (Task.access ⟨cursor.owner, page, .visit cursor false, .use resident.stay⟩).move pool =
        ({ pool with cache }, (cursor.visit resident.frame.page).advance false) := used
      rw [moved]
      refine ⟨?_, (offered.visit wanted letsGo _).advance⟩
      obtain ⟨_, more, rfl⟩ := Cursor.wanted_eq_some wanted
      obtain ⟨left, _⟩ := Progress.left_advance pool (cursor.visit resident.frame.page) false
      have counted := toNat_succ_of_lt more
      refine Nat.lt_of_le_of_lt left ?_
      simp only [Cursor.visit, counted, Task.left, Phase.left, Purpose.left]
      omega

end Offered

theorem Task.upkeep_move (task : Task) (pool : Pool) : pool.Upkeep (task.move pool).1 := by
  unfold Task.move
  split
  · exact task.upkeep_expire pool
  · exact task.upkeep_step pool

theorem Pool.run_offered {pool : Pool} {cursor : Cursor} (valid : pool.locks.table.Valid)
    (lined : pool.cache.Lined) (offered : cursor.Offered pool) :
    ∃ later next, pool.run false (cursor.advance false) = (later, .finished (.scanned next none)) ∧
      later.cache.Lined ∧ next.Offered later := by
  obtain ⟨fuel, enough, ran⟩ := pool.run_eq (cursor.advance false)
  obtain ⟨finish, ends, _, lined, offered⟩ := Pool.runSteps_ends
    (fun pool progress => pool.locks.table.Valid ∧ pool.cache.Lined ∧ progress.Offered pool)
    (fun pool task kept => by
      obtain ⟨valid, lined, offered⟩ := kept
      obtain ⟨nearer, offered⟩ := offered.move valid lined
      refine ⟨nearer, ?_, ?_, offered⟩
      · exact (task.stepsTo_move pool).extends.valid valid
      · exact (task.upkeep_move pool).lined lined)
    fuel ⟨valid, lined, offered.advance⟩ enough
  refine ⟨(pool.runSteps false fuel (cursor.advance false)).1, ?_⟩
  cases finish with
  | scanned next failure =>
    cases failure with
    | none => exact ⟨next, by rw [ran, ← ends], lined, offered⟩
    | some failure => exact offered.elim
  | failed failure => exact offered.elim
  | locked => exact offered.elim
  | guarded guard => exact offered.elim
  | modified pages => exact offered.elim

namespace Workload

variable {work first : Workload}

theorem upkeep_after (work : Workload) (action : Action) :
    work.pool.Upkeep (work.after action).pool := by
  cases action with
  | create name schema => exact Touch.upkeep_run (.perform (.create name schema)) work.pool
  | attach name schema => exact Touch.upkeep_run (.perform (.attach name schema)) work.pool
  | drop owner guard => exact work.pool.upkeep_drop guard
  | finish owner commit => exact .refl work.pool
  | call owner call =>
    rw [after, follow_pool]
    exact .refl work.pool
  | advance owner =>
    simp only [after]
    split
    · next call task here =>
      rw [follow_pool]
      exact task.upkeep_step work.pool
    · exact .refl work.pool
  | expire owner =>
    simp only [after]
    split
    · next call task here =>
      rw [follow_pool]
      exact task.upkeep_expire work.pool
    · exact .refl work.pool
  | settle owner =>
    simp only [after]
    split
    · next commit page rest here =>
      cases commit with
      | true => exact work.pool.upkeep_flushPage page
      | false => exact work.pool.upkeep_discardPage page
    · exact .of_cache rfl rfl
    · exact .refl work.pool

theorem upkeep_next (work : Workload) (step : Step) : work.pool.Upkeep (work.next step).pool := by
  cases step with
  | hook hook => exact Touch.upkeep_run (.perform (.hook hook)) work.pool
  | act action =>
    cases action with
    | settle owner =>
      simp only [next]
      split
      · exact work.upkeep_after _
      · exact .refl work.pool
    | create name schema => exact work.upkeep_after (.create name schema)
    | attach name schema => exact work.upkeep_after (.attach name schema)
    | call owner call => exact work.upkeep_after (.call owner call)
    | advance owner => exact work.upkeep_after (.advance owner)
    | expire owner => exact work.upkeep_after (.expire owner)
    | drop owner guard => exact work.upkeep_after (.drop owner guard)
    | finish owner commit => exact work.upkeep_after (.finish owner commit)

theorem Course.lined {allowed : Workload → Step → Prop} (course : Course allowed first work)
    (lined : first.pool.cache.Lined) : work.pool.cache.Lined := by
  induction course with
  | start => exact lined
  | @step work step _ _ _ ih => exact (work.upkeep_next step).lined ih

end Workload
end PagedTables
