import PagedTables.Proofs.Workload.Users

/-! Who keeps a page from being written. A latch outlasts a step only under a guard, and under the lock
that the guard was taken with, so what a transaction has changed is latched by itself or by nobody. -/

namespace PagedTables

namespace Cache

variable {cache : Cache} {page other : PageId} {stay : Nat} {before after : Resident}

theorem cached_of_update (found : cache.find? page stay = some before) {frame : Frame}
    (present : (cache.update page ⟨before.stay, frame⟩).frames[other]? = some after) :
    cache.frames[other]? = some after ∧ (other, after.stay) ≠ (page, stay) ∨
      other = page ∧ cache.frames[page]? = some before ∧ after = ⟨stay, frame⟩ := by
  obtain ⟨rfl, here | ⟨_, _, absent⟩⟩ := find?_cases found
  · rcases (replaces_update here frame).cases present with ⟨rfl, rfl⟩ | ⟨apart, old⟩
    · exact .inr ⟨rfl, here, rfl⟩
    · exact .inl ⟨old, fun same => apart (congrArg Prod.fst same)⟩
  · rw [getElem?_update, if_neg (by simp [absent])] at present
    refine .inl ⟨present, fun same => ?_⟩
    obtain ⟨rfl, stays⟩ := Prod.mk.inj same
    simp [present, stays] at absent

end Cache

namespace Pool

/-- A step that neither leaves a page to a user nor takes one back: a page's latch is free afterwards, or
it is as it was and nobody has changed the page. -/
def Eases (pool later : Pool) : Prop :=
  ∀ (page : PageId) (after : Resident), later.cache.frames[page]? = some after →
    after.frame.latch = .shared 0 ∨ ∃ before, pool.cache.frames[page]? = some before ∧
      before.stay = after.stay ∧ before.frame.latch = after.frame.latch ∧
      ∀ writer, after.frame.page.dirtiedBy = some writer → before.frame.page.dirtiedBy = some writer

variable {pool later last : Pool} {page : PageId} {guard : Guard} {after : Resident}

theorem eases_of_frames (same : later.cache.frames = pool.cache.frames) : pool.Eases later :=
  fun _ after present => .inr ⟨after, same ▸ present, rfl, rfl, fun _ => id⟩

theorem Eases.trans (eases : pool.Eases later) (eases' : later.Eases last) : pool.Eases last := by
  intro page after present
  rcases eases' page after present with free | ⟨between, found, stays, latch, mark⟩
  · exact .inl free
  · rcases eases page between found with free | ⟨before, found, stays', latch', mark'⟩
    · exact .inl (latch.symm.trans free)
    · exact .inr ⟨before, found, stays'.trans stays, latch'.trans latch,
        fun writer dirty => mark' writer (mark writer dirty)⟩

theorem eases_of_left {left : PageId} (frames : ∀ other, later.cache.frames[other]? =
    if other = left then none else pool.cache.frames[other]?) : pool.Eases later :=
  fun _ after present =>
    .inr ⟨after, (Cache.cached_of_left frames present).2, rfl, rfl, fun _ => id⟩

theorem eases_of_replaces {before : Resident} {frame : Frame}
    (present : pool.cache.frames[page]? = some before)
    (replaces : Cache.Replaces page ⟨before.stay, frame⟩ pool.cache later.cache)
    (latch : frame.latch = .shared 0 ∨ before.frame.latch = frame.latch ∧
      ∀ writer, frame.page.dirtiedBy = some writer → before.frame.page.dirtiedBy = some writer) :
    pool.Eases later := by
  intro other after here
  rcases replaces.cases here with ⟨rfl, rfl⟩ | ⟨_, here⟩
  · exact latch.imp id fun same => ⟨before, present, rfl, same⟩
  · exact .inr ⟨after, here, rfl, rfl, fun _ => id⟩

theorem eases_makeRoom (pool : Pool) : pool.Eases pool.makeRoom.1 := by
  rcases pool.makeRoom_cases with same | ⟨cache, evicted, same⟩
  · rw [same]
    exact eases_of_frames rfl
  · obtain ⟨left, _, _, _, frames, _⟩ := Cache.of_evict evicted
    rw [same]
    exact eases_of_left frames

theorem eases_pin (pool : Pool) (page : PageId) : pool.Eases (pool.pin page).1 := by
  have pins := pool.pin_pins page
  generalize pool.pin page = result at pins ⊢
  cases pins with
  | hit resident present room stats =>
    exact eases_of_replaces present (Cache.replaces_update present _) (.inr ⟨rfl, fun _ => id⟩)
  | crowded resident present full failure =>
    exact eases_of_replaces present (Cache.replaces_update present _) (.inr ⟨rfl, fun _ => id⟩)
  | unread absent stats failure unread => exact eases_of_frames rfl
  | homeless absent stats failure exhausted => exact eases_makeRoom { pool with stats }
  | loaded absent stats heap read roomy made =>
    have room : pool.Eases roomy := by
      have eases := eases_makeRoom { pool with stats }
      rwa [made] at eases
    refine room.trans fun other after here => ?_
    rcases Cache.cached_of_load here with ⟨_, rfl⟩ | old
    · exact .inl rfl
    · exact .inr ⟨after, old, rfl, rfl, fun _ => id⟩

theorem eases_settlePage (pool : Pool) (commit : Bool) (page : PageId) :
    pool.Eases (pool.settlePage commit page).1 := by
  cases commit with
  | true =>
    have flushes := pool.flushPage_flushes page
    simp only [settlePage, if_true]
    generalize pool.flushPage page = result at flushes ⊢
    cases flushes with
    | absent absent => exact eases_of_frames rfl
    | clean resident present clean => exact eases_of_frames rfl
    | failed failure => exact eases_of_frames rfl
    | written resident present writer dirty file registered disk writes cache replaces stats =>
      exact eases_of_replaces present replaces (.inr ⟨rfl, fun _ marked => by cases marked⟩)
  | false =>
    have discards := pool.discardPage_discards page
    show pool.Eases (pool.discardPage page)
    generalize pool.discardPage page = later at discards ⊢
    cases discards with
    | absent absent => exact eases_of_frames rfl
    | dropped cache drops stats =>
      obtain ⟨_, _, frames, _⟩ := Cache.of_discard drops
      exact eases_of_left frames

theorem latched_cases (h : pool.latch guard = some later)
    (present : later.cache.frames[page]? = some after) :
    pool.cache.frames[page]? = some after ∧ (page, after.stay) ≠ (guard.page, guard.stay) ∨
      page = guard.page ∧ after.stay = guard.stay ∧ ∃ before,
        pool.cache.frames[page]? = some before ∧ before.stay = guard.stay ∧
        before.frame.page = after.frame.page ∧
        (guard.writable = true ∧ after.frame.latch = .exclusive ∨ guard.writable = false ∧
          ∃ readers, before.frame.latch = .shared readers ∧
            after.frame.latch = .shared (readers + 1)) := by
  obtain ⟨before, frame, found, latched, rfl⟩ := latch_eq_some h
  refine (Cache.cached_of_update found present).imp id ?_
  rintro ⟨rfl, here, rfl⟩
  refine ⟨rfl, rfl, before, here, (Cache.find?_cases found).1, ?_⟩
  split at latched
  · next writes =>
    unfold Frame.latchExclusive at latched
    split at latched
    · cases latched
      exact ⟨rfl, .inl ⟨writes, rfl⟩⟩
    · cases latched
  · next reads =>
    unfold Frame.latchShared at latched
    split at latched
    · next readers latch =>
      cases latched
      exact ⟨rfl, .inr ⟨eq_false_of_ne_true reads, readers, latch, rfl⟩⟩
    · cases latched

theorem changed_cases {heap : HeapPage}
    (present : (pool.change guard heap).cache.frames[page]? = some after) :
    pool.cache.frames[page]? = some after ∧ (page, after.stay) ≠ (guard.page, guard.stay) ∨
      page = guard.page ∧ after.stay = guard.stay ∧ after.frame.page = heap ∧ ∃ before,
        pool.cache.frames[page]? = some before ∧ before.stay = guard.stay ∧
        before.frame.latch = after.frame.latch := by
  unfold change at present
  split at present
  · next none =>
    refine .inl ⟨present, fun same => ?_⟩
    obtain ⟨rfl, stays⟩ := Prod.mk.inj same
    rw [← stays, Cache.find?_of_cached present] at none
    cases none
  · next before found =>
    refine (Cache.cached_of_update found present).imp id ?_
    rintro ⟨rfl, here, rfl⟩
    exact ⟨rfl, rfl, rfl, before, here, (Cache.find?_cases found).1, rfl⟩

theorem dropped_cases (present : (pool.drop guard).1.cache.frames[page]? = some after) :
    pool.cache.frames[page]? = some after ∧ (page, after.stay) ≠ (guard.page, guard.stay) ∨
      page = guard.page ∧ after.stay = guard.stay ∧ ∃ before readers,
        pool.cache.frames[page]? = some before ∧ before.stay = guard.stay ∧
        before.frame.page = after.frame.page ∧ after.frame.latch = .shared readers ∧
        (readers = 0 ∨ before.frame.latch = .shared (readers + 1)) := by
  unfold drop at present
  split at present
  · next none =>
    refine .inl ⟨present, fun same => ?_⟩
    obtain ⟨rfl, stays⟩ := Prod.mk.inj same
    rw [← stays, Cache.find?_of_cached present] at none
    cases none
  · next before found =>
    refine (Cache.cached_of_update found present).imp id ?_
    rintro ⟨rfl, here, rfl⟩
    refine ⟨rfl, rfl, before, ?_⟩
    have stays := (Cache.find?_cases found).1
    obtain ⟨stay, id, heap, pins, latch⟩ := before
    cases latch with
    | exclusive => exact ⟨0, here, stays, rfl, rfl, .inl rfl⟩
    | shared readers =>
      cases readers with
      | zero => exact ⟨0, here, stays, rfl, rfl, .inl rfl⟩
      | succ readers => exact ⟨readers, here, stays, rfl, rfl, .inr rfl⟩

theorem eases_change {latched : Pool} (latch : pool.latch guard = some latched) {heap : HeapPage}
    (reads : guard.writable = false → latched.view guard = some heap) :
    pool.Eases ((latched.change guard heap).drop guard).1 := by
  intro page after present
  rcases dropped_cases present with
    ⟨present, apart⟩ | ⟨rfl, stays, last, readers, present, held, same, free, users⟩
  · rcases changed_cases present with ⟨present, _⟩ | ⟨rfl, stays, _⟩
    · rcases latched_cases latch present with ⟨present, _⟩ | ⟨rfl, stays, _⟩
      · exact .inr ⟨after, present, rfl, rfl, fun _ => id⟩
      · exact absurd (congrArg _ stays) apart
    · exact absurd (congrArg _ stays) apart
  rcases users with rfl | users
  · exact .inl free
  rcases changed_cases present with ⟨_, apart⟩ | ⟨_, _, changed, middle, present, held', kept⟩
  · exact absurd (congrArg _ held) apart
  have view := view_cached guard present held'
  rcases latched_cases latch present with ⟨_, apart⟩ | ⟨_, _, before, present, stays', same', how⟩
  · exact absurd (congrArg _ held') apart
  rw [kept, users] at how
  rcases how with ⟨_, writer⟩ | ⟨reader, count, shared, more⟩
  · cases writer
  · rw [Latch.shared.injEq, Nat.add_right_cancel_iff] at more
    have unchanged := Option.some.inj ((reads reader).symm.trans view)
    refine .inr ⟨before, present, stays'.trans stays.symm, ?_, ?_⟩
    · rw [shared, free, more]
    · rw [same', ← same, changed, unchanged]
      exact fun _ => id

end Pool

/-- The page is left to its caller with the latch on it, or else the latch is given back. -/
theorem Access.eases_use (access : Access) (pool : Pool) (stay : Nat) :
    pool.Eases (access.use pool stay).1 ∧
        (∀ guard, (access.use pool stay).2 ≠ .finished (.guarded guard)) ∨
      pool.latch (access.guard stay) = some (access.use pool stay).1 ∧
        (access.use pool stay).2 = .finished (.guarded (access.guard stay)) := by
  have eases : ∀ {latched : Pool} {heap : HeapPage},
      pool.latch (access.guard stay) = some latched →
      latched.view (access.guard stay) = some heap →
      pool.Eases ((latched.change (access.guard stay) (access.result heap).1).drop
        (access.guard stay)).1 := by
    intro latched heap latch view
    refine Pool.eases_change latch fun reads => view.trans (congrArg some ?_)
    rcases access.result_cases heap with same | ⟨writes, _⟩
    · exact same.symm
    · simp [Access.guard, writes] at reads
  have uses := access.use_uses pool stay
  generalize access.use pool stay = result at uses ⊢
  cases uses with
  | blocked refused => exact .inl ⟨Pool.eases_of_frames rfl, by simp⟩
  | guarded mode purpose latched latch heap view => exact .inr ⟨latch, rfl⟩
  | gone latched latch absent =>
    refine .inl ⟨fun page after present => .inr ?_, by simp⟩
    rcases Pool.latched_cases latch present with ⟨present, _⟩ | ⟨rfl, stays, _⟩
    · exact ⟨after, present, rfl, rfl, fun _ => id⟩
    · rw [Pool.view_cached (access.guard stay) present stays] at absent
      cases absent
  | done works latched latch heap view later drop =>
    have unguarded : ∀ guard, (access.result heap).2 ≠ .finished (.guarded guard) := by
      have none : (access.result heap).2.pinned = [] :=
        (access.purpose.leads_act access.owner heap).pinned
      intro guard same
      rw [same] at none
      cases none
    exact .inl ⟨congrArg Prod.fst drop ▸ eases latch view, unguarded⟩
  | failed works latched latch heap view later failure drop =>
    exact .inl ⟨congrArg Prod.fst drop ▸ eases latch view, by simp [Progress.failed]⟩

theorem Task.eases_step (task : Task) (pool : Pool) :
    pool.Eases (task.step pool).1 ∧ (∀ guard, (task.step pool).2 ≠ .finished (.guarded guard)) ∨
      ∃ access stay, task = .access access ∧ access.phase = .use stay ∧
        pool.latch (access.guard stay) = some (task.step pool).1 ∧
        (task.step pool).2 = .finished (.guarded (access.guard stay)) := by
  have unguarded : ∀ {progress : Progress}, progress.pinned = [] →
      ∀ guard, progress ≠ .finished (.guarded guard) := by
    rintro progress none guard rfl
    cases none
  cases task with
  | extend owner job =>
    refine .inl ?_
    simp only [step, Pool.appendPage]
    cases job.file.appendBlank pool.disk with
    | error failure => exact ⟨Pool.eases_of_frames rfl, unguarded rfl⟩
    | ok result => exact ⟨Pool.eases_of_frames rfl, unguarded rfl⟩
  | access access =>
    have asked : ∀ (locks : LockManager) (answer : LockAnswer),
        pool.Eases (access.answered { pool with locks } answer).1 ∧
          ∀ guard, (access.answered { pool with locks } answer).2 ≠ .finished (.guarded guard) := by
      intro locks answer
      obtain ⟨cache, none⟩ := access.answered_pinned { pool with locks } answer
      exact ⟨Pool.eases_of_frames (by rw [cache]), unguarded none⟩
    cases phase : access.phase with
    | ask =>
      simp only [step, Access.step, phase]
      exact .inl (asked _ _)
    | wait =>
      simp only [step, Access.step, phase]
      split
      · exact .inl (asked _ _)
      · exact .inl ⟨Pool.eases_of_frames rfl, by simp⟩
    | pin =>
      have eases := pool.eases_pin access.page
      simp only [step, Access.step, phase, Access.pin]
      generalize pool.pin access.page = result at eases ⊢
      obtain ⟨later, answer⟩ := result
      cases answer with
      | error failure => exact .inl ⟨eases, unguarded (access.purpose.pinned_failed failure)⟩
      | ok stay => exact .inl ⟨eases, by simp⟩
    | use stay =>
      simp only [step, Access.step, phase]
      rcases access.eases_use pool stay with eases | ⟨latch, same⟩
      · exact .inl eases
      · exact .inr ⟨access, stay, rfl, phase, latch, same⟩

theorem Task.eases_expire (task : Task) (pool : Pool) :
    pool.Eases (task.expire pool).1 ∧ ∀ guard, (task.expire pool).2 ≠ .finished (.guarded guard) := by
  cases task with
  | extend owner job => exact ⟨Pool.eases_of_frames rfl, by simp [expire]⟩
  | access access =>
    simp only [expire, Access.expire]
    generalize pool.locks.expire access.page access.owner access.purpose.mode = result
    obtain ⟨cache, none⟩ := access.answered_pinned { pool with locks := result.1 } result.2
    refine ⟨Pool.eases_of_frames (by rw [cache]), fun guard same => ?_⟩
    rw [same] at none
    cases none

namespace Workload

def guardsOn (work : Workload) (owner : TransactionId) (page : PageId) (stay : Nat) : Nat :=
  (work.guards owner).countP fun held => held.page = page ∧ held.stay = stay

/-- Latches outlast a step under guards only. A writer's is there as long as the writer has the page's
lock; when the writer ends, the page is still to be settled. Those of a changed page are its writer's. -/
structure Latched (work : Workload) : Prop where
  exclusive : ∀ (page : PageId) (resident : Resident),
    work.pool.cache.frames[page]? = some resident → resident.frame.latch = .exclusive →
      ∃ owner, ⟨page, resident.stay, true⟩ ∈ work.guards owner ∧
        work.pool.locks.table.Holds owner page .exclusive ∧
        ∀ commit rest, work.stage owner = .ending commit rest → page ∈ rest
  shared : ∀ (page : PageId) (resident : Resident) (writer : TransactionId) (readers : Nat),
    work.pool.cache.frames[page]? = some resident →
      resident.frame.page.dirtiedBy = some writer → resident.frame.latch = .shared readers →
        readers ≤ work.guardsOn writer page resident.stay

variable {work later : Workload} {action : Action} {owner : TransactionId} {page : PageId}

theorem latched_start {config : Config} {disk : Disk} {first : Pool}
    (made : Pool.start config disk = .ok first) : (start first).Latched := by
  obtain rfl := Pool.start_eq made
  refine ⟨fun page resident present => ?_, fun page resident writer readers present => ?_⟩ <;>
    simp [start, Cache.empty] at present

theorem keeps_latched_settle {commit : Bool} {rest : List PageId}
    (possible : work.Possible (.act (.settle owner))) {before after : Resident}
    (present : work.pool.cache.frames[page]? = some before) (latch : before.frame.latch = .exclusive)
    (still : (work.next (.act (.settle owner))).pool.cache.frames[page]? = some after)
    (holds : work.pool.locks.table.Holds owner page .exclusive)
    (here : work.stage owner = .ending commit rest) (member : page ∈ rest) :
    (work.next (.act (.settle owner))).pool.locks.table.Holds owner page .exclusive ∧
      ∀ commit rest, (work.next (.act (.settle owner))).stage owner = .ending commit rest →
        page ∈ rest := by
  by_cases settles : work.canSettle owner = true
  · have step : work.next (.act (.settle owner)) = work.after (.settle owner) := if_pos settles
    rw [step] at still ⊢
    cases rest with
    | nil => cases member
    | cons first rest =>
      simp only [Workload.after, here] at still ⊢
      refine ⟨(work.pool.settlePage_locks commit first).symm ▸ holds,
        fun commit' rest' ending => ?_⟩
      rw [Function.update_self, Stage.ending.injEq] at ending
      obtain ⟨rfl, rfl⟩ := ending
      refine (List.mem_cons.mp member).resolve_left ?_
      -- The page itself is not the one that is settled: a commit waits for the latch, and after an
      -- abort the page is not there any more.
      rintro rfl
      cases commit with
      | true =>
        have free := possible.2
        simp only [isFree, here, Pool.canFlush_of_cached present, Frame.allowsFlush, latch] at free
        cases free
      | false =>
        have discards := work.pool.discardPage_discards page
        have still : (work.pool.discardPage page).cache.frames[page]? = some after := still
        generalize work.pool.discardPage page = later at discards still
        cases discards with
        | absent absent =>
          rw [absent] at present
          cases present
        | dropped cache drops stats =>
          obtain ⟨_, _, frames, _⟩ := Cache.of_discard drops
          exact absurd rfl (Cache.cached_of_left frames still).1
  · have step : work.next (.act (.settle owner)) = work.giveUp owner := if_neg settles
    rw [step]
    exact ⟨holds, fun commit rest ending => by simp [giveUp] at ending⟩

theorem Orderly.keeps_latched (orderly : work.Orderly) (possible : work.Possible (.act action))
    {before after : Resident} (present : work.pool.cache.frames[page]? = some before)
    (latch : before.frame.latch = .exclusive)
    (still : (work.next (.act action)).pool.cache.frames[page]? = some after)
    (holds : work.pool.locks.table.Holds owner page .exclusive)
    (listed : ∀ commit rest, work.stage owner = .ending commit rest → page ∈ rest) :
    (work.next (.act action)).pool.locks.table.Holds owner page .exclusive ∧
      ∀ commit rest, (work.next (.act action)).stage owner = .ending commit rest → page ∈ rest := by
  have working : ∀ {call : Call} {progress : Progress},
      (work.next (.act action)).stage owner = progress.stage call → ∀ commit rest,
        (work.next (.act action)).stage owner = .ending commit rest → page ∈ rest := by
    intro call progress stage commit rest here
    cases progress with
    | running task => cases stage.symm.trans here
    | finished finish => cases stage.symm.trans here
  -- What others do costs the owner no lock. Its own locks go when it has settled its last page.
  by_cases mine : action.owner? = some owner
  · cases action with
    | create name schema => cases mine
    | attach name schema => cases mine
    | call owner call =>
      obtain rfl := Option.some.inj mine
      obtain ⟨pool, stage⟩ := work.next_call owner call
      exact ⟨pool.symm ▸ holds, working stage⟩
    | advance owner | expire owner =>
      obtain rfl := Option.some.inj mine
      obtain ⟨call, task, result, _, steps, pool, stage, _⟩ := exists_stepsTo possible rfl
      exact ⟨pool.symm ▸ steps.extends.holds holds, working stage⟩
    | drop owner guard =>
      obtain rfl := Option.some.inj mine
      obtain ⟨cache, same, _⟩ := work.pool.visits_drop guard
      have pool : (work.next (.act (.drop owner guard))).pool = { work.pool with cache } := same
      exact ⟨pool.symm ▸ holds, listed⟩
    | finish owner commit =>
      obtain rfl := Option.some.inj mine
      refine ⟨holds, fun commit' rest here => ?_⟩
      have stage : (work.next (.act (.finish owner commit))).stage owner =
          .ending commit (work.pool.heldPages owner) := by
        show Function.update _ _ _ owner = _
        exact Function.update_self ..
      obtain ⟨rfl, rfl⟩ := Stage.ending.inj (stage.symm.trans here)
      exact (Pool.mem_heldPages_iff orderly.owned.indexed).mpr holds.shared
    | settle owner =>
      obtain rfl := Option.some.inj mine
      obtain ⟨commit, rest, here⟩ := exists_ending possible.1
      exact keeps_latched_settle possible present latch still holds here (listed commit rest here)
  · exact ⟨(orderly.spares possible mine).holds page _ holds,
      fun commit rest here => listed commit rest (work.stage_next_of_ne mine ▸ here)⟩

theorem Latched.eased (latched : work.Latched) (orderly : work.Orderly)
    (possible : work.Possible (.act action)) (eases : work.pool.Eases (work.next (.act action)).pool)
    (guards : (work.next (.act action)).guards = work.guards) : (work.next (.act action)).Latched where
  exclusive page after present latch := by
    rcases eases page after present with free | ⟨before, found, stays, same, _⟩
    · cases latch.symm.trans free
    · obtain ⟨owner, member, holds, listed⟩ :=
        latched.exclusive page before found (same.trans latch)
      exact ⟨owner, by rwa [guards, ← stays],
        orderly.keeps_latched possible found (same.trans latch) present holds listed⟩
  shared page after writer readers present dirty latch := by
    rcases eases page after present with free | ⟨before, found, stays, same, mark⟩
    · obtain rfl := Latch.shared.inj (latch.symm.trans free)
      exact Nat.zero_le _
    · rw [guardsOn, guards, ← stays]
      exact latched.shared page before writer readers found (mark writer dirty) (same.trans latch)

section Guards

variable {guard : Guard}

theorem mem_guards_of_gained
    (guards : later.guards = Function.update work.guards owner (guard :: work.guards owner))
    {other : TransactionId} {held : Guard} (member : held ∈ work.guards other) :
    held ∈ later.guards other := by
  rw [guards]
  by_cases same : other = owner
  · subst same
    rw [Function.update_self]
    exact List.mem_cons_of_mem _ member
  · rwa [Function.update_of_ne same]

theorem guardsOn_of_gained
    (guards : later.guards = Function.update work.guards owner (guard :: work.guards owner))
    (other : TransactionId) (page : PageId) (stay : Nat) :
    work.guardsOn other page stay ≤ later.guardsOn other page stay := by
  rw [guardsOn, guardsOn, guards]
  by_cases same : other = owner
  · subst same
    rw [Function.update_self]
    exact (List.sublist_cons_self guard (work.guards other)).countP_le
  · rw [Function.update_of_ne same]

theorem guardsOn_of_lost
    (guards : later.guards = Function.update work.guards owner ((work.guards owner).erase guard))
    (held : guard ∈ work.guards owner) (other : TransactionId) (page : PageId) (stay : Nat) :
    work.guardsOn other page stay ≤ later.guardsOn other page stay + 1 ∧
      ((page, stay) ≠ (guard.page, guard.stay) →
        work.guardsOn other page stay = later.guardsOn other page stay) := by
  rw [guardsOn, guardsOn, guards]
  by_cases same : other = owner
  · subst same
    have split := (List.perm_cons_erase held).countP_eq fun held =>
      decide (held.page = page ∧ held.stay = stay)
    rw [Function.update_self, split, List.countP_cons]
    refine ⟨Nat.add_le_add_left (by split <;> simp) _, fun apart => ?_⟩
    rw [if_neg, Nat.add_zero]
    simpa only [decide_eq_true_eq, ne_eq, Prod.mk.injEq, @eq_comm _ guard.page,
      @eq_comm _ guard.stay] using apart
  · rw [Function.update_of_ne same]
    exact ⟨Nat.le_succ _, fun _ => rfl⟩

end Guards

theorem Latched.guarded (latched : work.Latched) (orderly : work.Orderly) {call : Call} {access : Access}
    {stay : Nat} (here : work.stage owner = .working call (.access access))
    (phase : access.phase = .use stay)
    (latch : work.pool.latch (access.guard stay) = some (work.next (.act (.advance owner))).pool)
    (finished : (access.step work.pool).2 = .finished (.guarded (access.guard stay))) :
    (work.next (.act (.advance owner))).Latched := by
  have possible : work.Possible (.act (.advance owner)) := by simp [Possible, here, Stage.isWorking]
  obtain ⟨_, _, covers⟩ := (orderly.gripped owner).working call _ here
  have idle : (work.next (.act (.advance owner))).stage owner = .idle := by
    rw [(next_advance here).2, Task.step, finished, Progress.stage]
  obtain ⟨cache, pool, _⟩ := Pool.visits_latch latch
  have holds := covers (.inr ⟨stay, phase⟩)
  have guards : (work.next (.act (.advance owner))).guards = Function.update work.guards owner
      (access.guard stay :: work.guards owner) := by
    have step : (Task.access access).step work.pool = access.step work.pool := rfl
    simp only [next, after, here, follow_guards, step, finished]
    rw [(work.look_rests owner _).2]
  constructor
  · intro page after present writes
    -- A latch that is new is that of the guard that is handed out, under the lock of its owner.
    rcases Pool.latched_cases latch present with ⟨found, _⟩ | ⟨rfl, stays, before, found, _, _, how⟩
    · obtain ⟨other, member, exclusive, listed⟩ := latched.exclusive page after found writes
      exact ⟨other, mem_guards_of_gained guards member,
        orderly.keeps_latched possible found writes present exclusive listed⟩
    · have writable : access.purpose.mode = .exclusive := by
        rcases how with ⟨writable, _⟩ | ⟨_, readers, _, shared⟩
        · exact of_decide_eq_true writable
        · cases writes.symm.trans shared
      refine ⟨owner, ?_, ?_, ?_⟩
      · rw [guards, Function.update_self, stays]
        simp [Access.guard, writable]
      · rw [pool]
        exact writable ▸ holds
      · intro commit rest ending
        cases idle.symm.trans ending
  · intro page after writer readers present dirty shared
    rcases Pool.latched_cases latch present with
      ⟨found, _⟩ | ⟨rfl, stays, before, found, stays', same, how⟩
    · exact (latched.shared page after writer readers found dirty shared).trans
        (guardsOn_of_gained guards ..)
    · obtain ⟨count, shared', more⟩ : ∃ count, before.frame.latch = .shared count ∧
          after.frame.latch = .shared (count + 1) := by
        rcases how with ⟨_, exclusive⟩ | ⟨_, more⟩
        · cases shared.symm.trans exclusive
        · exact more
      obtain rfl := Latch.shared.inj (shared.symm.trans more)
      have dirty' := same ▸ dirty
      have count := latched.shared _ before writer count found dirty' shared'
      obtain rfl : owner = writer :=
        (orderly.owned.locked _ before writer found dirty').alone orderly.owned.valid holds
      rw [guardsOn, guards, Function.update_self, List.countP_cons_of_pos (by simp [Access.guard, stays])]
      exact Nat.succ_le_succ (stays'.trans stays.symm ▸ count)

theorem Latched.dropped (latched : work.Latched) (orderly : work.Orderly) {guard : Guard}
    (possible : work.Possible (.act (.drop owner guard))) :
    (work.next (.act (.drop owner guard))).Latched := by
  have pool : (work.next (.act (.drop owner guard))).pool = (work.pool.drop guard).1 := rfl
  have guards : (work.next (.act (.drop owner guard))).guards =
      Function.update work.guards owner ((work.guards owner).erase guard) := rfl
  have left := guardsOn_of_lost guards possible
  constructor
  · intro page after present writes
    rcases Pool.dropped_cases (pool ▸ present) with
      ⟨found, apart⟩ | ⟨_, _, _, _, _, _, _, free, _⟩
    · obtain ⟨other, member, holds, listed⟩ := latched.exclusive page after found writes
      refine ⟨other, ?_, orderly.keeps_latched possible found writes present holds listed⟩
      rw [guards]
      by_cases same : other = owner
      · subst same
        rw [Function.update_self]
        refine (List.mem_erase_of_ne ?_).mpr member
        rintro rfl
        exact apart rfl
      · rwa [Function.update_of_ne same]
    · cases writes.symm.trans free
  · intro page after writer readers present dirty shared
    rcases Pool.dropped_cases (pool ▸ present) with
      ⟨found, apart⟩ | ⟨rfl, stays, before, count, found, stays', same, shared', fewer⟩
    · exact (left writer page after.stay).2 apart ▸
        latched.shared page after writer readers found dirty shared
    · obtain rfl := Latch.shared.inj (shared.symm.trans shared')
      rcases fewer with rfl | more
      · exact Nat.zero_le _
      · have bound := latched.shared _ before writer _ found (same ▸ dirty) more
        rw [stays', ← stays] at bound
        exact Nat.le_of_succ_le_succ (bound.trans (left writer guard.page after.stay).1)

theorem Latched.next (latched : work.Latched) (orderly : work.Orderly)
    (possible : work.Possible (.act action)) : (work.next (.act action)).Latched := by
  have eased := latched.eased orderly possible
  -- An operation that goes on without leaving a page to its caller leaves the guards alone.
  have follows : ∀ {before : Workload} {call : Call} {progress : Progress} {owner : TransactionId},
      before.guards = work.guards → (∀ guard, progress ≠ .finished (.guarded guard)) →
      (before.follow owner call progress).guards = work.guards := by
    intro before call progress owner guards unguarded
    rw [follow_guards, guards]
    split
    · next guard => exact absurd rfl (unguarded guard)
    · exact Function.update_eq_self owner work.guards
  cases action with
  | create name schema =>
    exact eased (Pool.eases_of_frames (congrArg _ (Filing.created name schema).cache)) rfl
  | attach name schema =>
    exact eased (Pool.eases_of_frames (congrArg _ (Filing.opened name schema).cache)) rfl
  | call owner call =>
    have pool := (work.next_call owner call).1
    have begins := call.begins_begin work.pool owner
    refine eased (Pool.eases_of_frames (by rw [pool])) (follows rfl fun guard same => ?_)
    have none := begins.pinned
    rw [same] at none
    cases none
  | advance owner =>
    obtain ⟨call, task, here⟩ := exists_working possible
    obtain ⟨pool, _⟩ := next_advance here
    rcases task.eases_step work.pool with ⟨eases, unguarded⟩ | ⟨access, stay, rfl, phase, latch, same⟩
    · refine eased (pool ▸ eases) ?_
      simp only [Workload.next, after, here]
      exact follows (work.look_rests owner task).2 unguarded
    · exact latched.guarded orderly here phase (pool ▸ latch) same
  | expire owner =>
    obtain ⟨call, task, here⟩ := exists_working (Stage.isWorking_of_isWaiting possible)
    obtain ⟨eases, unguarded⟩ := task.eases_expire work.pool
    refine eased ((next_expire here).1 ▸ eases) ?_
    simp only [Workload.next, after, here]
    exact follows rfl unguarded
  | drop owner guard => exact latched.dropped orderly possible
  | finish owner commit => exact eased (Pool.eases_of_frames rfl) rfl
  | settle owner =>
    obtain ⟨commit, rest, here⟩ := exists_ending possible.1
    by_cases settles : work.canSettle owner = true
    · have step : work.next (.act (.settle owner)) = work.after (.settle owner) := if_pos settles
      rw [step] at eased ⊢
      cases rest with
      | nil =>
        exact eased (Pool.eases_of_frames (by simp [after, here, Pool.releaseAll]))
          (by simp [after, here])
      | cons page rest =>
        refine eased ?_ (by simp [after, here])
        simp only [after, here]
        exact work.pool.eases_settlePage commit page
    · have step : work.next (.act (.settle owner)) = work.giveUp owner := if_neg settles
      rw [step] at eased ⊢
      exact eased (Pool.eases_of_frames rfl) rfl

theorem latched_of_course {allowed : Workload → Step → Prop} {first : Workload}
    (course : Course allowed first work) (unhooked : ∀ work step, allowed work step → Unhooked step)
    (orderly : first.Orderly) (latched : first.Latched) : work.Latched := by
  induction course with
  | start => exact latched
  | step step course possible kind ih =>
    cases step with
    | act action => exact ih.next (orderly_of_course course unhooked orderly) possible
    | hook hook => exact (unhooked _ _ kind).elim

theorem Latched.canFlush (latched : work.Latched) (orderly : work.Orderly)
    (guards : work.guards owner = []) (held : page ∈ work.pool.heldPages owner) :
    work.pool.canFlush page = true := by
  have holds := (Pool.mem_heldPages_iff orderly.owned.indexed).mp held
  cases present : work.pool.cache.frames[page]? with
  | none => simp [Pool.canFlush, present]
  | some resident =>
    rw [Pool.canFlush_of_cached present, Frame.allowsFlush]
    split
    · next readers latch =>
      cases mark : resident.frame.page.dirtiedBy with
      | none => simp [HeapPage.isDirty, mark]
      | some writer =>
        have owns := orderly.owned.locked page resident writer present mark
        obtain rfl : owner = writer := owns.alone orderly.owned.valid holds
        have none := latched.shared page resident owner readers present mark latch
        rw [guardsOn, guards, List.countP_nil, Nat.le_zero] at none
        simp [none]
    · next latch =>
      obtain ⟨other, member, exclusive, _⟩ := latched.exclusive page resident present latch
      obtain rfl : owner = other := exclusive.alone orderly.owned.valid holds
      rw [guards] at member
      cases member

end Workload
end PagedTables
