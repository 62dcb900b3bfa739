import PagedTables.Proofs.Workload.Use

/-! How an operation begins, and every step it can take. -/

namespace PagedTables

/-- An operation that is as it should be and has made no edit. -/
structure Progress.Fresh (start : Disk) (ledger : Ledger) (pool : Pool) (call : Call)
    (owner : TransactionId) (progress : Progress) : Prop where
  fits : progress.Fits start ledger pool call owner
  halfway : ∀ page, progress.halfway call page = []

section Begin

variable {start : Disk} {ledger : Ledger} {pool : Pool} {call : Call} {owner : TransactionId}

theorem Progress.fresh_ask {purpose : Purpose} (fits : purpose.Fits pool call owner)
    (other : purpose ≠ .mark) (page : PageId) :
    (Progress.ask owner page purpose).Fresh start ledger pool call owner :=
  ⟨fits_ask fits other page, halfway_ask other page⟩

theorem Call.fresh_begin (sound : pool.Sound start) (call : Call) (owner : TransactionId) :
    (call.begin pool owner).Fresh start ledger pool call owner := by
  have wanted : ∀ {table : TableId} {tuple : Tuple} {file : HeapFile},
      pool.tables[table]? = some file →
        (⟨file, tuple, true⟩ : Insertion).Fits pool (.insert table tuple) := by
    intro table tuple file registered
    obtain ⟨_, same, _⟩ := sound.proper table file registered
    exact ⟨rfl, ⟨table, rfl⟩, same.symm ▸ registered⟩
  have begins := call.begins_begin pool owner
  generalize call.begin pool owner = progress at begins ⊢
  cases begins with
  | failed failure => exact ⟨trivial, fun _ => rfl⟩
  | fetches page mode =>
    have wanted : (Purpose.guard mode).Fits pool (.fetch page mode) owner := trivial
    exact Progress.fresh_ask wanted (by simp) page
  | scans table file registered =>
    exact ⟨Progress.fits_advance _ rfl _, Progress.halfway_advance _ _⟩
  | resumes cursor => exact ⟨Progress.fits_advance _ rfl _, Progress.halfway_advance _ _⟩
  | places table tuple file registered some =>
    have placed : (Purpose.place ⟨file, tuple, true⟩ (file.numPages pool.disk)).Fits pool
        (.insert table tuple) owner := wanted registered
    exact Progress.fresh_ask placed (by simp) _
  | appends table tuple file registered none => exact ⟨⟨rfl, wanted registered⟩, fun _ => rfl⟩
  | removes tuple record placed =>
    have removed : (Purpose.remove tuple true).Fits pool (.delete tuple) owner := ⟨rfl, rfl⟩
    exact Progress.fresh_ask removed (by simp) _

end Begin

namespace Task

variable {start : Disk} {ledger : Ledger} {pool : Pool} {call : Call}
  {made : PageId → List Edit} {task : Task}

theorem Ready.append {owner : TransactionId} {job : Insertion}
    (ready : (extend owner job).Ready start ledger pool call made) (bounded : pool.Bounded) :
    Moved start ledger pool call made owner ((extend owner job).step pool) := by
  have wanted : job.Fits pool call := ready.fits
  have registered := wanted.registered
  obtain ⟨proper, same, _⟩ := ready.sound.proper _ _ registered
  unfold step
  simp only [Pool.appendPage]
  cases made : job.file.appendBlank pool.disk with
  | error failure => exact ready.still (fun _ => rfl) trivial
  | ok result =>
    obtain ⟨disk, page⟩ := result
    obtain ⟨appends, rfl⟩ := proper.appends (Nat.lt_of_lt_pred (bounded.few registered)) made
    have move : Pool.Move start owner ledger ledger pool { pool with disk } :=
      Pool.move_append ready.sound ready.balanced registered appends
    have next : (Purpose.claim job).Fits { pool with disk } call owner :=
      ⟨wanted.remarked, wanted.called, wanted.registered⟩
    exact ready.moved move (fun _ _ => id) (fun page => Progress.halfway_ask (by simp) _ page)
      (Progress.fits_ask next (by simp) _)

theorem Ready.step (ready : task.Ready start ledger pool call made) (bounded : pool.Bounded) :
    Moved start ledger pool call made task.owner (task.step pool) := by
  cases task with
  | extend owner job => exact ready.append bounded
  | access access =>
    have fits : access.Fits start ledger pool call := ready.fits
    show Moved start ledger pool call made access.owner (access.step pool)
    unfold Access.step
    cases phase : access.phase with
    | ask => exact Access.moved_request ready fun _ => phase
    | wait =>
      simp only
      split
      · exact Access.moved_request ready fun mark => absurd phase (fits.marking mark).1
      · exact ready.stays
    | pin => exact Access.moved_pin ready phase
    | use stay => exact Access.moved_use ready phase

theorem Ready.expire (ready : task.Ready start ledger pool call made)
    (waiting : task.isWaiting = true) :
    Moved start ledger pool call made task.owner (task.expire pool) := by
  cases task with
  | extend owner job => exact ready.stays
  | access access => exact Access.moved_expire ready (by simpa [isWaiting] using waiting)

end Task
end PagedTables
