import PagedTables.Proofs.Pool.Flush
import PagedTables.Proofs.Pool.Steps
import PagedTables.Proofs.Storage.Tally

/-! Users who come and go. To fetch a page adds a user to it, to let go of it takes one away, and
nothing else that is done to a page changes how many it has; a page is put aside only when it is dropped
while it has users. -/

namespace PagedTables

theorem Frame.pins_of_latch {frame latched : Frame} {writable : Bool}
    (h : (if writable then frame.latchExclusive else frame.latchShared) = some latched) :
    latched.id = frame.id ∧ latched.pins = frame.pins := by
  cases writable with
  | true =>
    simp only [if_true, latchExclusive] at h
    split at h
    · cases h
      exact ⟨rfl, rfl⟩
    · cases h
  | false =>
    simp only [Bool.false_eq_true, if_false, latchShared] at h
    split at h
    · cases h
      exact ⟨rfl, rfl⟩
    · cases h

theorem Frame.pins_unlatch (frame : Frame) :
    frame.unlatch.id = frame.id ∧ frame.unlatch.pins = frame.pins := by
  unfold unlatch
  split <;> exact ⟨rfl, rfl⟩

namespace Pool

variable {pool later : Pool} {tally : Tally} {guard : Guard} {page : PageId} {stay : Nat}

theorem tallied_latch (tallied : pool.cache.Tallied tally) (latch : pool.latch guard = some later) :
    later.cache.Tallied tally := by
  obtain ⟨resident, frame, found, latched, rfl⟩ := latch_eq_some latch
  obtain ⟨named, pins⟩ := Frame.pins_of_latch latched
  obtain ⟨_, _, count⟩ := tallied.of_find? found
  exact tallied.update found rfl named (pins ▸ count) fun _ _ _ => rfl

theorem tallied_change (tallied : pool.cache.Tallied tally) (guard : Guard) (heap : HeapPage) :
    (pool.change guard heap).cache.Tallied tally := by
  unfold change
  split
  · exact tallied
  · next resident found =>
    exact tallied.update found rfl rfl (tallied.of_find? found).2.2 fun _ _ _ => rfl

theorem drop_of_used (tallied : pool.cache.Tallied tally)
    (used : tally guard.page guard.stay ≠ 0) : (pool.drop guard).2 = .ok () := by
  obtain ⟨resident, found, _, pinned⟩ := tallied.exists_find? used
  simp only [drop, found, Frame.unpin, if_neg pinned, Except.map]

theorem tallied_drop (tallied : pool.cache.Tallied (tally.plus [(guard.page, guard.stay)])) :
    (pool.drop guard).1.cache.Tallied tally := by
  have counted := tally.plus_singleton_self guard.page guard.stay
  have used : tally.plus [(guard.page, guard.stay)] guard.page guard.stay ≠ 0 := by
    rw [counted]
    exact Nat.succ_ne_zero _
  obtain ⟨resident, found, count, _⟩ := tallied.exists_find? used
  rw [counted] at count
  have fewer : (resident.frame.pins - 1).toNat = tally guard.page guard.stay := by
    have some : (1 : UInt32) ≤ resident.frame.pins := by
      rw [UInt32.le_iff_toNat_le, count]
      exact Nat.le_add_left _ _
    rw [UInt32.toNat_sub_of_le _ _ some, count]
    rfl
  obtain ⟨named, pins⟩ := Frame.pins_unlatch { resident.frame with pins := resident.frame.pins - 1 }
  simp only [drop, found, Frame.unpin]
  exact tallied.update found rfl named (pins ▸ fewer) fun other stay' apart =>
    (tally.plus_singleton_of_ne apart).symm

theorem tallied_makeRoom (tallied : pool.cache.Tallied tally) :
    pool.makeRoom.1.cache.Tallied tally := by
  rcases pool.makeRoom_cases with same | ⟨cache, evicted, same⟩
  · rw [same]
    exact tallied
  · rw [same]
    exact tallied.evict evicted

theorem tallied_pin (tallied : pool.cache.Tallied tally)
    (room : ∀ resident, pool.cache.frames[page]? = some resident →
      tally page resident.stay + 1 < 2 ^ 32) :
    (pool.pin page).1.cache.Tallied
      (tally.plus ((pool.pin page).2.toOption.map (page, ·)).toList) := by
  have pins := pool.pin_pins page
  generalize pool.pin page = result at pins ⊢
  cases pins with
  | hit resident present fits stats =>
    have replaces := Cache.replaces_update present
      { resident.frame with pins := resident.frame.pins + 1 }
    refine tallied.replaces present replaces rfl rfl ?_ fun other stay apart =>
      tally.plus_singleton_of_ne apart
    rw [tallied.pins_add_one present (room resident present)]
    exact (tally.plus_singleton_self page resident.stay).symm
  | crowded resident present full failure =>
    have count := tallied.pins_add_one present (room resident present)
    rw [full] at count
    cases count
  | unread absent stats failure unread => exact tallied
  | homeless absent stats failure exhausted =>
    have counted : ({ pool with stats } : Pool).cache.Tallied tally := tallied
    exact tallied_makeRoom counted
  | loaded absent stats heap read roomy made =>
    have named := (of_readPage read).1
    have counted : ({ pool with stats } : Pool).cache.Tallied tally := tallied
    have roomier := tallied_makeRoom counted
    have gone := (serves_makeRoom { pool with stats } absent).2
    rw [made] at roomier gone
    subst named
    exact roomier.load gone

theorem pin_of_tallied (tallied : pool.cache.Tallied tally) {resident : Resident}
    (present : pool.cache.frames[page]? = some resident)
    (room : tally page resident.stay + 1 < 2 ^ 32) :
    ∃ cache, pool.pin page = (({ pool with cache } : Pool).count .hits, .ok resident.stay) := by
  have fits : resident.frame.pins + 1 ≠ 0 := by
    intro full
    have count := tallied.pins_add_one present room
    rw [full] at count
    cases count
  refine ⟨pool.cache.update page
    { resident with frame := { resident.frame with pins := resident.frame.pins + 1 } }, ?_⟩
  simp only [pin, present, Frame.pin, if_neg fits]

theorem tallied_flushPage (tallied : pool.cache.Tallied tally) (page : PageId) :
    (pool.flushPage page).1.cache.Tallied tally := by
  have flushes := pool.flushPage_flushes page
  generalize pool.flushPage page = result at flushes ⊢
  cases flushes with
  | absent absent => exact tallied
  | clean resident present clean => exact tallied
  | failed failure => exact tallied
  | written resident present writer dirty file registered disk writes cache replaces stats =>
    exact tallied.replaces present replaces rfl rfl (tallied.cached page resident present)
      fun _ _ _ => rfl

theorem tallied_discardPage (tallied : pool.cache.Tallied tally) (page : PageId) :
    (pool.discardPage page).cache.Tallied tally := by
  have discards := pool.discardPage_discards page
  generalize pool.discardPage page = later at discards ⊢
  cases discards with
  | absent absent => exact tallied
  | dropped cache drops stats => exact tallied.discard drops

theorem departed_flushPage (pool : Pool) (page : PageId) :
    (pool.flushPage page).1.cache.departed = pool.cache.departed := by
  have flushes := pool.flushPage_flushes page
  generalize pool.flushPage page = result at flushes ⊢
  cases flushes with
  | absent absent => rfl
  | clean resident present clean => rfl
  | failed failure => rfl
  | written resident present writer dirty file registered disk writes cache replaces stats =>
    exact replaces.departed

theorem departed_flushEach (pages : List PageId) (pool : Pool) :
    (pool.flushEach pages).1.cache.departed = pool.cache.departed :=
  flushEach_keeps (fun later => later.cache.departed = pool.cache.departed)
    (fun later page same => (later.departed_flushPage page).trans same) pages rfl

theorem gone_discardPage {gone : Resident}
    (member : gone ∈ (pool.discardPage page).cache.departed) :
    gone ∈ pool.cache.departed ∨
      pool.cache.frames[page]? = some gone ∧ gone.frame.isPinned = true := by
  have discards := pool.discardPage_discards page
  generalize pool.discardPage page = later at discards member
  cases discards with
  | absent absent => exact .inl member
  | dropped cache drops stats =>
    obtain ⟨resident, present, _⟩ := Cache.of_discard drops
    have listed : gone ∈ cache.departed := member
    rw [Cache.departed_discard drops present, List.mem_append] at listed
    refine listed.imp id fun new => ?_
    split at new
    · next pinned =>
      obtain rfl := List.mem_singleton.mp new
      exact ⟨present, pinned⟩
    · cases new

end Pool

def Task.pinned : Task → List (PageId × Nat)
  | access ⟨_, page, _, .use stay⟩ => [(page, stay)]
  | _ => []

def Task.pins? : Task → Option PageId
  | access ⟨_, page, _, .pin⟩ => some page
  | _ => none

def Progress.pinned : Progress → List (PageId × Nat)
  | running task => task.pinned
  | finished (.guarded guard) => [(guard.page, guard.stay)]
  | finished _ => []

theorem Purpose.pinned_failed (purpose : Purpose) (failure : Failure) :
    (Progress.finished (purpose.failed failure)).pinned = [] := by
  cases purpose <;> rfl

theorem Cursor.pinned_advance (cursor : Cursor) (toEnd : Bool) :
    (cursor.advance toEnd).pinned = [] := by
  unfold advance
  split <;> rfl

theorem Purpose.Leads.pinned {owner : TransactionId} {heap : HeapPage} {purpose : Purpose}
    {progress : Progress} (leads : purpose.Leads owner heap progress) : progress.pinned = [] := by
  cases leads with
  | ended purpose finish closes =>
    rcases closes with rfl | ⟨failure, rfl⟩ | rfl <;> rfl
  | remarked purpose writes => rfl
  | passed job stop more => rfl
  | filled purpose job wants => rfl
  | visited cursor toEnd => exact Cursor.pinned_advance _ toEnd

namespace Access

variable {access : Access} {pool : Pool} {tally : Tally}

theorem answered_pinned (access : Access) (pool : Pool) (answer : LockAnswer) :
    (access.answered pool answer).1.cache = pool.cache ∧
      (access.answered pool answer).2.pinned = [] := by
  obtain ⟨owner, page, purpose, phase⟩ := access
  cases answer <;> cases purpose <;> exact ⟨rfl, rfl⟩

theorem tallied_pin (tallied : pool.cache.Tallied tally)
    (room : ∀ resident, pool.cache.frames[access.page]? = some resident →
      tally access.page resident.stay + 1 < 2 ^ 32) :
    (access.pin pool).1.cache.Tallied (tally.plus (access.pin pool).2.pinned) := by
  have pinned := Pool.tallied_pin tallied room
  unfold pin
  generalize pool.pin access.page = result at pinned ⊢
  obtain ⟨later, answer⟩ := result
  cases answer with
  | error failure =>
    simp only [Purpose.pinned_failed]
    exact pinned
  | ok stay => exact pinned

theorem tallied_use {stay : Nat} (phase : access.phase = .use stay)
    (tallied : pool.cache.Tallied (tally.plus [(access.page, stay)])) :
    (access.use pool stay).1.cache.Tallied (tally.plus (access.use pool stay).2.pinned) := by
  have uses := access.use_uses pool stay
  generalize access.use pool stay = result at uses ⊢
  have still : (Progress.running (.access access)).pinned = [(access.page, stay)] := by
    obtain ⟨owner, page, purpose, _⟩ := access
    subst phase
    rfl
  have dropped : ∀ {latched : Pool} (heap : HeapPage),
      pool.latch (access.guard stay) = some latched →
      ((latched.change (access.guard stay) heap).drop (access.guard stay)).1.cache.Tallied tally :=
    fun heap latch =>
      Pool.tallied_drop (Pool.tallied_change (Pool.tallied_latch tallied latch) _ heap)
  cases uses with
  | blocked refused => exact still ▸ tallied
  | guarded mode purpose latched latch heap view => exact Pool.tallied_latch tallied latch
  | gone latched latch absent => exact still ▸ Pool.tallied_latch tallied latch
  | done works latched latch heap view later drop =>
    have none : (access.result heap).2.pinned = [] :=
      (access.purpose.leads_act access.owner heap).pinned
    have gone := dropped (access.result heap).1 latch
    rw [drop] at gone
    exact none ▸ gone
  | failed works latched latch heap view later failure drop =>
    have gone := dropped (access.result heap).1 latch
    rw [drop] at gone
    exact gone

end Access

theorem Task.tallied_step {task : Task} {pool : Pool} {tally : Tally}
    (tallied : pool.cache.Tallied (tally.plus task.pinned))
    (room : ∀ page, task.pins? = some page → ∀ resident, pool.cache.frames[page]? = some resident →
      tally page resident.stay + 1 < 2 ^ 32) :
    (task.step pool).1.cache.Tallied (tally.plus (task.step pool).2.pinned) := by
  cases task with
  | extend owner job =>
    simp only [step, Pool.appendPage]
    cases job.file.appendBlank pool.disk with
    | error failure => exact tallied
    | ok result => exact tallied
  | access access =>
    have asked : ∀ (locks : LockManager) (answer : LockAnswer), pool.cache.Tallied tally →
        (access.answered { pool with locks } answer).1.cache.Tallied
          (tally.plus (access.answered { pool with locks } answer).2.pinned) := by
      intro locks answer tallied
      obtain ⟨cache, none⟩ := access.answered_pinned { pool with locks } answer
      rw [cache, none]
      exact tallied
    obtain ⟨owner, page, purpose, phase⟩ := access
    cases phase with
    | ask => exact asked _ _ tallied
    | wait =>
      simp only [step, Access.step]
      split
      · exact asked _ _ tallied
      · exact tallied
    | pin => exact Access.tallied_pin tallied (room page rfl)
    | use stay => exact Access.tallied_use rfl tallied

theorem Task.tallied_expire {task : Task} {pool : Pool} {tally : Tally}
    (tallied : pool.cache.Tallied (tally.plus task.pinned)) (waiting : task.isWaiting = true) :
    (task.expire pool).1.cache.Tallied (tally.plus (task.expire pool).2.pinned) := by
  cases task with
  | extend owner job => cases waiting
  | access access =>
    obtain ⟨owner, page, purpose, phase⟩ := access
    cases phase with
    | ask => cases waiting
    | pin => cases waiting
    | use stay => cases waiting
    | wait =>
      simp only [expire, Access.expire]
      generalize pool.locks.expire page owner purpose.mode = result
      obtain ⟨cache, none⟩ := Access.answered_pinned ⟨owner, page, purpose, .wait⟩
        { pool with locks := result.1 } result.2
      rw [cache, none]
      exact tallied

theorem Task.StepsTo.departed {pool : Pool} {task : Task} {result : Pool × Progress}
    (steps : task.StepsTo pool result) {gone : Resident} (member : gone ∈ result.1.cache.departed) :
    ∃ before ∈ pool.cache.departed, gone.stay = before.stay ∧ gone.frame.id = before.frame.id := by
  have kept : ∀ {before : Resident}, before ∈ pool.cache.departed → gone.rested = before.rested →
      ∃ before ∈ pool.cache.departed,
        gone.stay = before.stay ∧ gone.frame.id = before.frame.id := by
    intro before old same
    obtain ⟨stays, named, _⟩ := Resident.rested_eq_iff.mp same
    exact ⟨before, old, stays, named⟩
  cases steps with
  | granted access locks further holds => exact ⟨gone, member, rfl, rfl⟩
  | refused access locks further => exact ⟨gone, member, rfl, rfl⟩
  | stopped access locks further stats finish stops => exact ⟨gone, member, rfl, rfl⟩
  | pinned access phase later serves size resident present =>
    obtain ⟨before, old, same⟩ := serves.departed gone member
    exact kept old same
  | homeless access phase later serves size finish stops =>
    obtain ⟨before, old, same⟩ := serves.departed gone member
    exact kept old same
  | looked access stay phase cache visits =>
    obtain ⟨before, old, same⟩ := visits.departed gone member
    exact kept old same
  | guarded access stay phase cache visits =>
    obtain ⟨before, old, same⟩ := visits.departed gone member
    exact kept old same
  | used access stay phase cache rewrites heap shows progress leads =>
    obtain ⟨before, old, same | ⟨_, _, same⟩⟩ := rewrites.departed gone member
    · exact kept old same
    · obtain ⟨stays, named, _⟩ := Resident.rested_eq_iff.mp same
      exact ⟨before, old, stays, named⟩
  | appended owner job disk page appends => exact ⟨gone, member, rfl, rfl⟩
  | unextended owner job failure => exact ⟨gone, member, rfl, rfl⟩
  | idled => exact ⟨gone, member, rfl, rfl⟩

end PagedTables
