import PagedTables.Proofs.Workload.Step

/-! The step in which an operation uses its page. A reader sees the committed edits and its own; a
writer makes its edit in the cache, or leaves the page as it was. -/

namespace PagedTables

theorem Ledger.differs_revise {ledger : Ledger} {owner : TransactionId} {page : PageId}
    {edits : PageId → List Edit}
    (same : ∀ other, other ≠ page → edits other = ledger.pending owner other) :
    Pool.Ledger.Differs owner page ledger (ledger.revise owner edits) where
  committed := rfl
  pending other place apart := by
    by_cases mine : other = owner
    · subst mine
      simp [revise, same place (apart.resolve_left fun apart => apart rfl)]
    · simp [revise, Function.update_of_ne mine]
  written _ _ _ := rfl

theorem Pool.Houses.marked {pool : Pool} {page : PageId} {heap : HeapPage} {file : HeapFile}
    (housed : pool.Houses page heap file) (after : HeapPage) (id : after.id = heap.id)
    (schema : after.schema = heap.schema) (layout : after.layout = heap.layout)
    (sound : after.Sound) (owner : Option TransactionId) :
    pool.Houses page (after.markDirty owner) file :=
  ⟨housed.table, id.trans housed.id, schema.trans housed.schema, layout.trans housed.layout,
    sound.markDirty owner, housed.covers⟩

theorem Insertion.Fits.edit?_eq {pool : Pool} {call : Call} {job : Insertion}
    (fits : job.Fits pool call) : call.edit? = some (.insert job.tuple) := by
  obtain ⟨table, rfl⟩ := fits.called
  rfl

namespace Progress

variable {start : Disk} {ledger : Ledger} {pool : Pool} {call : Call} {owner : TransactionId}
  {purpose : Purpose}

theorem fits_ask (fits : purpose.Fits pool call owner) (other : purpose ≠ .mark) (page : PageId) :
    (Progress.ask owner page purpose).Fits start ledger pool call owner :=
  ⟨rfl, fits, fun phase => (by cases phase), fun stay phase => (by cases phase),
    fun mark => absurd mark other⟩

theorem halfway_ask (other : purpose ≠ .mark) (page place : PageId) :
    (Progress.ask owner page purpose).halfway call place = [] := by
  show Task.halfway call place _ = []
  rw [Task.halfway_access, if_neg fun both => other both.1]

theorem fits_advance (cursor : Cursor) (mine : cursor.owner = owner) (toEnd : Bool) :
    (cursor.advance toEnd).Fits start ledger pool call owner := by
  subst mine
  unfold Cursor.advance
  split
  · exact fits_ask (show (Purpose.visit cursor toEnd).Fits pool call cursor.owner from rfl)
      (by simp) _
  · exact trivial

theorem halfway_advance (cursor : Cursor) (toEnd : Bool) (page : PageId) :
    (cursor.advance toEnd).halfway call page = [] := by
  unfold Cursor.advance
  split <;> rfl

end Progress

namespace Access

variable {start : Disk} {ledger : Ledger} {pool : Pool} {call : Call}
  {made : PageId → List Edit} {access : Access} {stay : Nat}

theorem InUse.gone {cache : Cache} (inUse : access.InUse start ledger pool stay)
    (latch : pool.latch (access.guard stay) = some { pool with cache })
    (absent : ({ pool with cache } : Pool).view (access.guard stay) = none)
    (visits : Cache.Visits access.page pool.cache cache) :
    access.InUse start ledger { pool with cache } stay := by
  obtain ⟨file, registered, shown⟩ := inUse.aside
  refine ⟨inUse.holds, fun exclusive => ?_, file, registered, fun gone member stays named => ?_⟩
  · obtain ⟨resident, present, stays, _⟩ := inUse.cached exclusive
    obtain ⟨behind, equal, replaces⟩ := Pool.latch_cached (access.guard stay) present stays
      (by simp [guard, exclusive]) latch
    have here : ({ pool with cache := behind } : Pool).cache.frames[access.page]? = _ :=
      replaces.cached
    rw [equal, Pool.view_cached (access.guard stay) here stays] at absent
    cases absent
  · obtain ⟨before, old, equal⟩ := visits.departed gone member
    obtain ⟨stays', named', heap⟩ := Resident.rested_eq_iff.mp equal
    rw [heap]
    exact shown before old (stays'.symm.trans stays) (named'.symm.trans named)

theorem moved_read (ready : (Task.access access).Ready start ledger pool call made)
    (phase : access.phase = .use stay)
    (reads : (∃ mode, access.purpose = .guard mode) ∨
      ∃ cursor toEnd, access.purpose = .visit cursor toEnd) :
    Task.Moved start ledger pool call made access.owner (access.use pool stay) := by
  have fits : access.Fits start ledger pool call := ready.fits
  have inUse := fits.inUse stay phase
  have still : ∀ heap, (access.result heap).1 = heap := by
    rcases reads with ⟨mode, purpose⟩ | ⟨cursor, toEnd, purpose⟩ <;>
      simp [result, purpose, Purpose.act]
  have other : access.purpose ≠ .mark := by
    rcases reads with ⟨mode, purpose⟩ | ⟨cursor, toEnd, purpose⟩ <;> simp [purpose]
  have none : ∀ page, (Task.access access).halfway call page = [] := fun page => by
    rw [Task.halfway_access, if_neg fun both => other both.1]
  -- As the page is left as it is, the pool has served it and no edit has come.
  obtain ⟨cache, same, visits⟩ := visits_use pool stay still
  have serves := Pool.Serves.of_visits visits pool.stats
  have move := Pool.move_serve ready.sound ready.balanced serves inUse.holds.shared
  have moved : ∀ progress : Progress, (∀ page, progress.halfway call page = []) →
      progress.Fits start ledger { pool with cache } call access.owner →
      Task.Moved start ledger pool call made access.owner ({ pool with cache }, progress) :=
    fun progress silent fits => ready.moved move (fun _ _ => id)
      (fun page => (silent page).trans (none page).symm) fits
  have uses := access.use_uses pool stay
  generalize access.use pool stay = taken at uses same ⊢
  cases uses with
  | blocked refused => exact ready.stays
  | guarded mode purpose latched latch heap view =>
    obtain rfl : latched = { pool with cache } := same
    exact moved _ (fun page => rfl) inUse.holds.shared
  | gone latched latch absent =>
    obtain rfl : latched = { pool with cache } := same
    refine moved _ none ⟨rfl, fits.purpose.move move, fun early => ?_, fun again phase' => ?_,
      fun mark => absurd mark other⟩
    · rw [phase] at early
      cases early
    · obtain rfl : stay = again := Phase.use.inj (phase.symm.trans phase')
      exact inUse.gone latch absent visits
  | done works latched latch heap view later drop =>
    obtain rfl : later = { pool with cache } := same
    rcases reads with ⟨mode, purpose⟩ | ⟨cursor, toEnd, purpose⟩
    · exact absurd purpose (works mode)
    · have mine : cursor.owner = access.owner := by
        have fits := fits.purpose
        rwa [purpose] at fits
      have next : (access.result heap).2 = (cursor.visit heap).advance toEnd := by
        simp [result, purpose, Purpose.act]
      rw [next]
      exact moved _ (Progress.halfway_advance _ _)
        (Progress.fits_advance (cursor.visit heap) mine toEnd)
  | failed works latched latch heap view later failure drop =>
    obtain rfl : later = { pool with cache } := same
    exact moved _ (fun page => rfl) trivial

section Write

variable (ready : (Task.access access).Ready start ledger pool call made)
  (phase : access.phase = .use stay)
include ready phase

theorem use_write (exclusive : access.purpose.mode = .exclusive)
    (works : ∀ mode, access.purpose ≠ .guard mode) :
    access.use pool stay = (pool, .running (.access access)) ∨
      ∃ resident cache frame file, pool.cache.frames[access.page]? = some resident ∧
        resident.frame.pins ≠ 0 ∧ pool.Houses access.page resident.frame.page file ∧
        access.use pool stay = ({ pool with cache }, (access.result resident.frame.page).2) ∧
        Cache.Replaces access.page ⟨resident.stay, frame⟩ pool.cache cache ∧
        frame.id = resident.frame.id ∧ frame.page = (access.result resident.frame.page).1 ∧
        frame.pins = resident.frame.pins - 1 := by
  have fits : access.Fits start ledger pool call := ready.fits
  obtain ⟨resident, present, rfl, pinned⟩ := (fits.inUse stay phase).cached exclusive
  obtain ⟨file, housed⟩ := ready.sound.housed access.page resident present
  rcases use_exclusive access present pinned exclusive works with
    same | ⟨cache, frame, used, replaces, id, result, pins, _⟩
  · exact .inl same
  · exact .inr ⟨resident, cache, frame, file, present, pinned, housed, used, replaces, id, result,
      pins⟩

theorem moved_unedited (other : access.purpose ≠ .mark) {resident : Resident} {cache : Cache}
    {frame : Frame} (present : pool.cache.frames[access.page]? = some resident)
    (replaces : Cache.Replaces access.page ⟨resident.stay, frame⟩ pool.cache cache)
    (same_id : frame.id = resident.frame.id) (same : frame.page = resident.frame.page)
    {progress : Progress} (silent : ∀ page, progress.halfway call page = [])
    (next : progress.Fits start ledger { pool with cache } call access.owner) :
    Task.Moved start ledger pool call made access.owner ({ pool with cache }, progress) := by
  have fits : access.Fits start ledger pool call := ready.fits
  have visits := replaces.visits present (Resident.rested_eq_iff.mpr ⟨rfl, same_id, same⟩)
  refine ready.moved (Pool.move_serve ready.sound ready.balanced (.of_visits visits pool.stats)
    (fits.inUse stay phase).holds.shared) (fun _ _ => id) (fun page => ?_) next
  rw [silent, Task.halfway_access, if_neg fun both => other both.1]

theorem moved_edited (exclusive : access.purpose.mode = .exclusive)
    (other : access.purpose ≠ .mark) {resident : Resident} {cache : Cache}
    {frame : Frame} {file : HeapFile} {edit : Edit}
    (present : pool.cache.frames[access.page]? = some resident)
    (pinned : resident.frame.pins ≠ 0)
    (housed : pool.Houses access.page resident.frame.page file)
    (replaces : Cache.Replaces access.page ⟨resident.stay, frame⟩ pool.cache cache)
    (same_id : frame.id = resident.frame.id)
    (result : frame.page = (resident.frame.page.edited edit).markDirty (some access.owner))
    (sound : (resident.frame.page.edited edit).Sound)
    (pins : frame.pins = resident.frame.pins - 1) (called : call.edit? = some edit) :
    Task.Moved start ledger pool call made access.owner
      ({ pool with cache }, .ask access.owner access.page .mark) := by
  have fits : access.Fits start ledger pool call := ready.fits
  have holds := (fits.inUse stay phase).holds
  rw [exclusive] at holds
  have before : ∀ page, ledger.pending access.owner page = made page := fun page => by
    have pending : ledger.pending access.owner page = _ := ready.pending page
    rw [pending, Task.halfway_access, if_neg fun both => other both.1, List.append_nil]
  -- The operation has only to mark the page again, so its edit stands already.
  have after : ∀ page, (Progress.ask access.owner access.page .mark).halfway call page =
      if access.page = page then [edit] else [] := fun page => by
    show Task.halfway call page _ = _
    simp [Task.halfway_access, called]
  have differs : Pool.Ledger.Differs access.owner access.page ledger
      (ledger.revise access.owner fun page => made page ++
        (Progress.ask access.owner access.page .mark).halfway call page) :=
    Ledger.differs_revise fun place apart => by
      rw [after, before, if_neg (Ne.symm apart), List.append_nil]
  have kept : pool.Houses access.page frame.page file := by
    rw [result]
    exact housed.marked (resident.frame.page.edited edit) rfl rfl rfl sound _
  refine ⟨?_, fun _ _ => id, fun page => ⟨_, by rw [before]⟩, rfl, ?_⟩
  · refine Pool.move_edit ready.sound ready.balanced differs [edit] present holds
      (ready.unwritten access.page) replaces same_id kept (result ▸ rfl) ?_ ?_ ?_ rfl
    · rw [result, HeapPage.edited, HeapPage.markDirty, housed.id]
      rfl
    · simp [Ledger.revise, after, before]
    · simp [Ledger.revise, after]
  · refine ⟨by simp [Purpose.Fits, called], fun early => (by cases early),
      fun stay early => (by cases early), fun _ => ⟨by simp, fun _ found here => ?_⟩⟩
    obtain rfl : ⟨resident.stay, frame⟩ = found := Option.some.inj (replaces.cached.symm.trans here)
    show frame.pins + 1 ≠ 0
    rw [pins, UInt32.sub_add_cancel]
    exact pinned

theorem moved_insert (exclusive : access.purpose.mode = .exclusive)
    (works : ∀ mode, access.purpose ≠ .guard mode) (other : access.purpose ≠ .mark)
    {job : Insertion} (wanted : job.Fits pool call) (full : HeapPage → Progress)
    (act : ∀ heap, access.result heap = job.tryPage access.owner heap (full heap))
    (silent : ∀ heap page, (full heap).halfway call page = [])
    (next : ∀ cache heap, (full heap).Fits start ledger { pool with cache } call access.owner) :
    Task.Moved start ledger pool call made access.owner (access.use pool stay) := by
  rcases use_write ready phase exclusive works with
    same | ⟨resident, cache, frame, file, present, pinned, housed, used, replaces, same, page, pins⟩
  · rw [same]
    exact ready.stays
  · rw [used]
    rcases job.tryPage_cases access.owner resident.frame.page (full resident.frame.page) with
      ⟨progress, tried, outcome⟩ | ⟨after, record, inserted, tried⟩
    · rw [← act] at tried
      rw [tried] at page ⊢
      refine moved_unedited ready phase other present replaces same page (fun place => ?_) ?_
      · rcases outcome with rfl | ⟨failure, rfl⟩
        · exact silent _ place
        · rfl
      · rcases outcome with rfl | ⟨failure, rfl⟩
        · exact next cache _
        · exact trivial
    · obtain ⟨valid, rfl⟩ := HeapPage.insert_eq inserted
      have progress : Progress.changed access.owner
          (resident.frame.page.edited (.insert job.tuple)).id job.remarked =
            .ask access.owner access.page .mark := by
        simp [Progress.changed, wanted.remarked, HeapPage.edited, housed.id]
      rw [← act, progress] at tried
      rw [tried] at page ⊢
      exact moved_edited ready phase exclusive other present pinned housed replaces same page
        (housed.sound.insert inserted) pins wanted.edit?_eq

theorem moved_remove {tuple : Tuple} {remarked : Bool}
    (purpose : access.purpose = .remove tuple remarked) :
    Task.Moved start ledger pool call made access.owner (access.use pool stay) := by
  have fits : access.Fits start ledger pool call := ready.fits
  have other : access.purpose ≠ .mark := by simp [purpose]
  have exclusive : access.purpose.mode = .exclusive := by rw [purpose, Purpose.mode]
  obtain ⟨rfl, rfl⟩ : remarked = true ∧ call = .delete tuple := by
    have fits := fits.purpose
    rwa [purpose] at fits
  rcases use_write ready phase exclusive (by simp [purpose]) with
    same | ⟨resident, cache, frame, file, present, pinned, housed, used, replaces, same, page, pins⟩
  · rw [same]
    exact ready.stays
  · rw [used]
    simp only [result, purpose, Purpose.act] at page ⊢
    cases deleted : resident.frame.page.delete tuple with
    | error failure =>
      simp only [deleted] at page ⊢
      exact moved_unedited ready phase other present replaces same page (fun _ => rfl) trivial
    | ok after =>
      obtain ⟨record, placed, _, rfl⟩ := HeapPage.delete_eq deleted
      have progress : Progress.changed access.owner
          (resident.frame.page.edited (.delete record.slot)).id true =
            .ask access.owner access.page .mark := by
        simp [Progress.changed, HeapPage.edited, housed.id]
      simp only [deleted, progress] at page ⊢
      refine moved_edited ready phase exclusive other present pinned housed replaces same page
        (housed.sound.delete deleted) pins ?_
      simp [Call.edit?, placed]

theorem moved_mark (purpose : access.purpose = .mark) :
    Task.Moved start ledger pool call made access.owner (access.use pool stay) := by
  have fits : access.Fits start ledger pool call := ready.fits
  have holds := (fits.inUse stay phase).holds
  have exclusive : access.purpose.mode = .exclusive := by rw [purpose, Purpose.mode]
  rw [exclusive] at holds
  rcases use_write ready phase exclusive (by simp [purpose]) with
    same | ⟨resident, cache, frame, file, present, pinned, housed, used, replaces, same, page, pins⟩
  · rw [same]
    exact ready.stays
  · rw [used]
    simp only [result, purpose, Purpose.act, housed.id] at page ⊢
    have edit : ∀ place, (Progress.finished (.modified [access.page])).halfway call place =
        (Task.access access).halfway call place := fun place => by
      rw [Task.halfway_access]
      by_cases here : access.page = place <;> cases made : call.edit? <;>
        simp [Progress.halfway, purpose, here, made]
    have kept : pool.Houses access.page frame.page file := by
      rw [page]
      exact housed.marked resident.frame.page rfl rfl rfl housed.sound _
    refine ready.moved ?_ (fun _ _ => id) edit trivial
    refine Pool.move_edit ready.sound ready.balanced
      ⟨rfl, fun _ _ _ => rfl, fun _ _ _ => rfl⟩ [] present holds (ready.unwritten access.page) replaces
      same kept (page ▸ rfl) ?_ (List.append_nil _).symm (edited ready purpose) rfl
    rw [page]
    rfl

theorem moved_use : Task.Moved start ledger pool call made access.owner (access.use pool stay) := by
  have fits : access.Fits start ledger pool call := ready.fits
  have wanted := fits.purpose
  cases purpose : access.purpose with
  | lock mode =>
    rw [purpose] at wanted
    exact wanted.elim
  | guard mode => exact moved_read ready phase (.inl ⟨mode, purpose⟩)
  | visit cursor toEnd => exact moved_read ready phase (.inr ⟨cursor, toEnd, purpose⟩)
  | remove tuple remarked => exact moved_remove ready phase purpose
  | mark => exact moved_mark ready phase purpose
  | claim job =>
    have job' : job.Fits pool call := by rwa [purpose] at wanted
    refine moved_insert ready phase (by rw [purpose, Purpose.mode]) (by simp [purpose])
      (by simp [purpose]) job' (fun _ => .running (.extend access.owner job))
      (fun heap => by rw [result, purpose, Purpose.act]) (fun _ _ => rfl)
      fun cache heap => ⟨rfl, job'.remarked, job'.called, job'.registered⟩
  | place job stop =>
    have job' : job.Fits pool call := by rwa [purpose] at wanted
    refine moved_insert ready phase (by rw [purpose, Purpose.mode]) (by simp [purpose])
      (by simp [purpose]) job'
      (fun heap => if heap.id.number + 1 < stop then
          .ask access.owner { heap.id with number := heap.id.number + 1 } (.place job stop)
        else .running (.extend access.owner job))
      (fun heap => by rw [result, purpose, Purpose.act]) (fun heap page => ?_) fun cache heap => ?_
    · simp only
      split
      · exact Progress.halfway_ask (by simp) _ _
      · rfl
    · simp only
      split
      · have next : (Purpose.place job stop).Fits { pool with cache } call access.owner :=
          ⟨job'.remarked, job'.called, job'.registered⟩
        exact Progress.fits_ask next (by simp) _
      · exact ⟨rfl, job'.remarked, job'.called, job'.registered⟩

end Write

end Access
end PagedTables
