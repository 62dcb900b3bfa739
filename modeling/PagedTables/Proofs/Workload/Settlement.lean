import PagedTables.Proofs.Pool.Completion
import PagedTables.Proofs.Workload.Latches
import PagedTables.Proofs.Workload.Reading
import PagedTables.Proofs.Workload.Reuse

/-! The end of a transaction, whatever all transactions have done until then. Files may be of any
length. -/

namespace PagedTables

namespace Pool

variable {start : Disk} {pool later : Pool} {owner : TransactionId} {file : HeapFile}
  {table : TableId} {page : PageId} {disk : Disk}

/-- A page is put behind the others of its file, or, when there are no numbers left, over the first. -/
theorem Sound.appended (sound : pool.Sound start) (registered : pool.tables[table]? = some file)
    (appends : file.appendBlank pool.disk = .ok (disk, page)) :
    ({ pool with disk } : Pool).Sound start := by
  obtain ⟨_, rfl⟩ := HeapFile.appendBlank_eq_ok appends
  refine sound.rewritten registered (fun path apart => ?_) (fun path => .setContents) fun page inside => ?_
  · rw [Disk.contents_setContents, if_neg apart]
  · refine Nat.le_trans inside ?_
    rw [HeapFile.length, HeapFile.length, Disk.contents_setContents, if_pos rfl, Bytes.length_clear]
    split
    · exact Nat.le_refl _
    · exact Nat.le_max_left _ _

theorem Deed.sound (deed : pool.Deed owner later) (sound : pool.Sound start)
    (owned : pool.Owned) : later.Sound start := by
  have kept := deed.owned owned
  cases deed with
  | served page later serves => exact sound.serves serves
  | relocked locks further stats => exact sound.relocked kept.valid kept.indexed stats
  | released saved => exact sound.relocked kept.valid kept.indexed pool.stats
  | used access stay holds cache rewrites => exact sound.rewrites rewrites
  | discarded page holds => exact sound.discardPage page
  | flushed page holds => exact sound.flushPage page

end Pool

namespace Workload

variable {start : Disk} {work : Workload} {step : Step}

/-- Each page has its place and each change its writer, however long the files are. -/
structure Placed (start : Disk) (work : Workload) : Prop where
  numbered : work.pool.Numbered work.registrations
  orderly : work.Orderly
  sound : work.pool.Sound start
  enrolled : work.Enrolled

theorem Placed.next (placed : work.Placed start) (possible : work.Possible step)
    (sited : work.Sited step) (few : (work.next step).registrations ≤ 2 ^ 32)
    (unhooked : Unhooked step) : (work.next step).Placed start := by
  have later := (work.registers_next step).numbered placed.numbered
  obtain ⟨numbered, orderly, sound, enrolled⟩ := placed
  cases step with
  | hook hook => exact unhooked.elim
  | act action =>
    have of_tables : (work.next (.act action)).pool.Sound start →
        (∀ (table : TableId) (file : HeapFile), work.pool.tables[table]? = some file →
          (work.next (.act action)).pool.tables[table]? = some file) →
        (work.next (.act action)).Placed start := fun sound' tables =>
      ⟨later, orderly.next possible, sound', enrolled.of_next tables (enrolled.stage_next sound possible)⟩
    rcases orderly.next_cases possible with filing | ⟨owner, _, deed⟩
    · generalize (work.next (.act action)).pool = pool at filing of_tables
      cases filing with
      | created name schema =>
        have registers := sound.registers_create (numbered.hasTableId few) name schema
        exact of_tables (registers.sound sound) fun _ _ => registers.tables
      | opened name schema =>
        have registers := sound.registers_unregistered (numbered.hasTableId few) sited
        exact of_tables (registers.sound sound) fun _ _ => registers.tables
      | appended owner call job here disk page appends =>
        have registered := enrolled owner call _ here job rfl
        exact of_tables (sound.appended registered appends) fun _ _ => id
    · exact of_tables (deed.sound sound orderly.owned) fun _ _ found => deed.tables ▸ found

theorem placed_start {config : Config} {first : Pool} (small : config.pageSize < 2 ^ 32)
    (made : Pool.start config start = .ok first) : (Workload.start first).Placed start :=
  ⟨numbered_start made, orderly_start made, Pool.sound_start small made, fun _ _ _ here => by cases here⟩

theorem placed_of_course {first : Workload} (placed : first.Placed start)
    (course : Course (fun work step => work.Sited step ∧ Unhooked step) first work)
    (few : work.registrations ≤ 2 ^ 32) : work.Placed start := by
  induction course with
  | start => exact placed
  | @step work step _ possible kind ih =>
    exact (ih (Nat.le_trans (work.registers_next step).le few)).next possible kind.1 few kind.2

/-- Whatever transactions are doing, any of them that has let go of its pages can be brought to an end if
its changes can be written, and that settles it alone: what it has changed is saved or dropped with its
locks, the rest is left as it is, and to end it again does nothing. -/
theorem complete_settles {config : Config} {first : Pool} (small : config.pageSize < 2 ^ 32)
    (made : Pool.start config start = .ok first)
    (course : Course (fun work step => work.Sited step ∧ Unhooked step) (Workload.start first) work)
    (few : work.registrations ≤ 2 ^ 32) (owner : TransactionId) (guards : work.guards owner = [])
    (commit : Bool) (writable : commit = true → work.pool.Writable) :
    ∃ later, work.pool.complete owner commit = (later, .ok ()) ∧
      work.pool.Settles owner commit later ∧
      ∀ again, later.complete owner again = (later, .ok ()) := by
  have placed := placed_of_course (placed_start small made) course few
  have latched := latched_of_course course (fun _ _ => And.right) (orderly_start made)
    (latched_start made)
  exact placed.orderly.owned.settles_complete placed.sound owner commit writable fun page =>
    latched.canFlush placed.orderly guards

/-- A transaction has filled a page, and another waits for it. The first one commits. -/
theorem complete_settles_awaited :
    let work := ((.create "numbers" numbers :: puts ⟨1⟩ 7 7 ++ puts ⟨2⟩ 8 2).map Step.act).foldl next
      (Workload.start smallPool)
    work.pool.locks.table.waits.Waits ⟨2⟩ ⟨1⟩ ∧ work.pool.Marks ⟨1⟩ ⟨⟨0⟩, 0⟩ ∧
      ∃ later, work.pool.complete ⟨1⟩ true = (later, .ok ()) ∧
        work.pool.Settles ⟨1⟩ true later ∧ ∀ again, later.complete ⟨1⟩ again = (later, .ok ()) := by
  intro work
  have made : Pool.start smallPool.config .blank = .ok smallPool := rfl
  have course : Course (fun work step => work.Sited step ∧ Unhooked step) (Workload.start smallPool)
      work := .of_takes _ .start (by decide +kernel)
  have waits : (⟨1⟩ : TransactionId) ∈ work.pool.locks.table.waits.targets ⟨2⟩ := by decide +kernel
  have filled : (work.pool.cache.frames[(⟨⟨0⟩, 0⟩ : PageId)]?.any fun resident =>
      resident.frame.page.dirtiedBy = some ⟨1⟩) = true := by decide +kernel
  obtain ⟨resident, present, dirty⟩ := (Option.any_eq_true _ _).mp filled
  refine ⟨waits, ⟨resident, present, of_decide_eq_true dirty⟩, ?_⟩
  exact complete_settles (by decide) made course (by decide +kernel) ⟨1⟩ (by decide +kernel) true
    fun _ => by decide +kernel

/-- A table of words has the id of one of numbers. A number that was put into the old one is written to
its file, and cannot be read from there. -/
theorem not_complete_settles :
    ¬∀ {start : Disk} {config : Config} {first : Pool} {work : Workload}, config.pageSize < 2 ^ 32 →
      Pool.start config start = .ok first →
      Course (fun work step => work.Sited step ∧ Unhooked step) (Workload.start first) work →
        ∀ owner, work.guards owner = [] → ∀ commit, (commit = true → work.pool.Writable) →
          ∃ later, work.pool.complete owner commit = (later, .ok ()) ∧
            work.pool.Settles owner commit later := by
  intro settles
  let page : PageId := ⟨⟨0⟩, 0⟩
  let fills : List Action := .create "numbers" numbers :: puts ⟨1⟩ 7 7
  let filled := (fills.map Step.act).foldl next (Workload.start archived)
  let words : Schema := ⟨[.str 3], List.cons_ne_nil _ _⟩
  let work := (filled.passed (2 ^ 32 - 1)).next (.act (.attach "archive" words))
  have made : Pool.start archived.config archived.disk = .ok archived := rfl
  have course : Course (fun work step => work.Sited step ∧ Unhooked step) (Workload.start archived)
      filled := .of_takes (fills.map Step.act) .start (by decide +kernel)
  have missing : filled.pool.disk.find "missing" = .error (.system SystemError.noSuchFile) := by
    decide +kernel
  have passed := course.passed missing numbers (fun _ sited => ⟨sited, trivial⟩) (2 ^ 32 - 1)
  have onward : Course (fun work step => work.Sited step ∧ Unhooked step) (Workload.start archived)
      work := passed.step (.act (.attach "archive" words)) trivial (by decide +kernel)
  obtain ⟨later, completed, settled⟩ := settles (by decide) made onward ⟨1⟩ (by decide +kernel) true
    fun _ => by decide +kernel
  have dirtied : (work.pool.cache.frames[page]?.any fun resident =>
      resident.frame.page.dirtiedBy = some ⟨1⟩) = true := by decide +kernel
  obtain ⟨resident, present, dirty⟩ := (Option.any_eq_true _ _).mp dirtied
  have unread : ((work.pool.complete ⟨1⟩ true).1.readPage page).isOk = false := by decide +kernel
  rw [completed, (settled.saved rfl page resident present (of_decide_eq_true dirty)).2] at unread
  cases unread

end Workload
end PagedTables
