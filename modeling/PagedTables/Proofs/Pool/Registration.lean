import PagedTables.Proofs.Storage.File
import PagedTables.Proofs.Storage.Unread

/-! Registrations that fail. They use up a table id, and nothing else is left of them but for a new
table whose tuples do not fit: its file has been made by then. It stays, so that no new table can be
made under its name. -/

namespace PagedTables

namespace Disk

variable {disk : Disk} {path other name : String} {contents : Bytes} {entry : DiskEntry}

theorem entry_setContents_self (free : disk.entry? path = none) :
    Disk.entry? (disk.setContents path contents) path = some (.file contents) := by
  unfold entry? at free ⊢
  split at free
  · cases free
  · next named => rw [if_neg named, setContents, Std.ExtTreeMap.getElem?_insert_self]

theorem entry_setContents_of_some (free : disk.entry? path = none)
    (found : disk.entry? other = some entry) :
    Disk.entry? (disk.setContents path contents) other = some entry := by
  have apart : path ≠ other := by
    rintro rfl
    cases free.symm.trans found
  unfold entry? at found ⊢
  split
  · next root => rwa [if_pos root] at found
  · next named =>
    rw [if_neg named] at found
    simp only [setContents, Std.ExtTreeMap.getElem?_insert, Std.LawfulEqOrd.compare_eq_iff_eq,
      if_neg apart, found]

theorem follow_setContents {start stop parts : List String} (free : disk.entry? path = none)
    (found : disk.follow start parts = .ok stop) :
    (disk.setContents path contents).follow start parts = .ok stop := by
  induction parts generalizing start with
  | nil => exact found
  | cons part parts ih =>
    unfold follow at found ⊢
    split at found
    · cases found
    · cases found
    · next directory =>
      simp only [entry_setContents_of_some free directory]
      split_ifs at found ⊢
      · exact ih found
      · exact ih found
      · exact ih found

theorem resolveFile_eq_ok :
    disk.resolveFile name = .ok path ↔
      (∃ parts, nameParts name = .ok parts ∧ ¬Path.endsInSlash parts) ∧
        disk.resolve name = .ok path := by
  unfold resolveFile
  cases parted : nameParts name with
  | error cause => simp [bind, Except.bind]
  | ok parts =>
    simp only [bind, Except.bind, Except.ok.injEq]
    split
    · next directory =>
      refine iff_of_false (fun resolved => ?_) ?_
      · split at resolved <;> cases resolved
      · rintro ⟨⟨_, rfl, file⟩, _⟩
        exact file directory
    · next file => exact ⟨fun resolved => ⟨⟨parts, rfl, file⟩, resolved⟩, And.right⟩

theorem resolve_setContents (free : disk.entry? other = none)
    (resolved : disk.resolve name = .ok path) :
    (disk.setContents other contents).resolve name = .ok path := by
  unfold resolve at resolved ⊢
  cases parted : nameParts name with
  | error cause => simp [parted, bind, Except.bind] at resolved
  | ok parts =>
    cases found : disk.follow [] parts with
    | error cause => simp [parted, found, bind, Except.bind] at resolved
    | ok stop =>
      simp only [parted, found, bind, Except.bind] at resolved
      simp only [follow_setContents free found, bind, Except.bind]
      exact resolved

theorem of_add_file {later : Disk} (added : disk.add name (.file contents) = .ok (later, path)) :
    later.resolve name = .ok path ∧ later.fileAt path = .ok contents ∧
      ∀ entry, later.add name (.file entry) = .error (.system SystemError.fileExists) := by
  obtain ⟨resolved, free, rfl⟩ := add_file_eq_ok.mp added
  obtain ⟨file, place⟩ := resolveFile_eq_ok.mp resolved
  have still : (disk.setContents path contents).resolve name = .ok path :=
    resolve_setContents free place
  have here : Disk.entry? (disk.setContents path contents) path = some (.file contents) :=
    entry_setContents_self free
  refine ⟨still, by rw [fileAt, here], fun entry => ?_⟩
  simp only [add, resolveFile_eq_ok.mpr ⟨file, still⟩, here, bind, Except.bind]

end Disk

theorem PageLayout.fault_of_slotsFor {pageSize width : Nat} {failure : Failure}
    (failed : slotsFor pageSize width = .error failure) : ∃ cause, failure = .fault cause := by
  unfold slotsFor at failed
  split at failed
  · cases failed
  · simp only [bind, Except.bind] at failed
    split at failed
    · next bits =>
      cases failed
      exact fault_of_mulSized bits
    · split at failed
      · next tuple =>
        cases failed
        exact fault_of_mulSized tuple
      · split at failed
        · next cost =>
          cases failed
          exact fault_of_addSized cost
        · cases failed

theorem PageLayout.tooWide_of_forSizes {pageSize width : Nat} {cause : StoreError}
    (failed : forSizes pageSize width = .error (.error cause)) :
    cause = .tupleTooWide width pageSize := by
  unfold forSizes at failed
  cases slots : slotsFor pageSize width with
  | error failure =>
    obtain ⟨fault, rfl⟩ := fault_of_slotsFor slots
    simp [slots, bind, Except.bind] at failed
  | ok count =>
    simp only [slots, bind, Except.bind] at failed
    split at failed
    · cases failed
      rfl
    · cases failed

theorem HeapFile.tooWide_of_ofEntry {path : String} {table : TableId} {schema : Schema}
    {pageSize width : Nat} {cause : StoreError} (sized : schema.width = .ok width)
    (failed : ofEntry path table schema pageSize = .error (.error cause)) :
    cause = .tupleTooWide width pageSize := by
  unfold ofEntry at failed
  cases laid : PageLayout.forSizes pageSize width with
  | error failure =>
    simp only [sized, laid, bind, Except.bind, Except.error.injEq] at failed
    exact PageLayout.tooWide_of_forSizes (failed ▸ laid)
  | ok layout => simp [sized, laid, bind, Except.bind, pure, Except.pure] at failed

namespace Pool

def skip (pool : Pool) : Pool := { pool with nextTable := pool.nextTable + 1 }

def gain (pool : Pool) (file : HeapFile) : Pool :=
  { pool.skip with tables := pool.tables.insert ⟨pool.nextTable⟩ file }

/-- A file that is there without a table. No new table can be made under its name; one can be opened if
its tuples fit. -/
structure Orphans (pool : Pool) (name path : String) : Prop where
  there : pool.disk.fileAt path = .ok .empty
  blocked : ∀ schema, pool.createTable name schema =
    (pool.skip, .error (.error (.disk (.system SystemError.fileExists))))
  opens : ∀ {schema : Schema} {width : Nat} {layout : PageLayout}, schema.width = .ok width →
    PageLayout.forSizes pool.config.pageSize width = .ok layout →
      pool.openTable name schema =
        (pool.gain ⟨⟨pool.nextTable⟩, path, schema, layout⟩, .ok ⟨pool.nextTable⟩)

inductive Leaves (pool : Pool) (name : String) (width : Nat) : StoreError → Pool → Prop
  | nothing (cause : DiskError) : Leaves pool name width (.disk cause) pool.skip
  | orphan (path : String) (free : pool.disk.entry? path = none) (later : Pool)
      (left : later = { pool.skip with disk := pool.disk.setContents path .empty })
      (orphans : later.Orphans name path) :
      Leaves pool name width (.tupleTooWide width pool.config.pageSize) later

variable {pool later : Pool} {name path : String} {schema : Schema} {width : Nat}
  {cause : StoreError} {made : Except Failure HeapFile}

theorem register_error {failure : Failure} (pool : Pool) :
    pool.register (.error failure) = (pool.skip, .error failure) := rfl

theorem register_ok {file : HeapFile} (pool : Pool) :
    pool.register (.ok file) = (pool.gain file, .ok ⟨pool.nextTable⟩) := rfl

theorem register_eq_error {failure : Failure}
    (failed : pool.register made = (later, .error failure)) :
    made = .error failure ∧ later = pool.skip := by
  cases made with
  | error other =>
    rw [register_error, Prod.mk.injEq, Except.error.injEq] at failed
    exact ⟨congrArg _ failed.2, failed.1.symm⟩
  | ok file =>
    rw [register_ok] at failed
    cases failed

theorem orphans_of_add {disk : Disk}
    (added : disk.add name (.file .empty) = .ok (pool.disk, path)) : pool.Orphans name path := by
  obtain ⟨resolved, there, taken⟩ := Disk.of_add_file added
  refine ⟨there, fun schema => ?_, fun sized laid => ?_⟩
  · simp only [createTable, HeapFile.create, taken]
    rfl
  · simp only [openTable, HeapFile.attach, resolved, there, HeapFile.ofEntry, sized, bind,
      Except.bind, laid]
    rfl

theorem createTable_leaves (sized : schema.width = .ok width)
    (failed : pool.createTable name schema = (later, .error (.error cause))) :
    pool.Leaves name width cause later := by
  unfold createTable HeapFile.create at failed
  split at failed
  next disk made created =>
  obtain ⟨rfl, rfl⟩ := register_eq_error failed
  split at created
  · cases created
    exact .nothing _
  · next grown path added =>
    obtain ⟨rfl, refused⟩ := Prod.mk.inj created
    obtain rfl := HeapFile.tooWide_of_ofEntry sized refused
    obtain ⟨_, free, same⟩ := Disk.add_file_eq_ok.mp added
    exact .orphan path free _ (by rw [← same]; rfl) (orphans_of_add added)

theorem openTable_leaves (failed : pool.openTable name schema = (later, .error (.error cause))) :
    later = pool.skip := (register_eq_error failed).2

theorem Leaves.tables_eq (leaves : pool.Leaves name width cause later) :
    later.tables = pool.tables := by
  cases leaves with
  | nothing reason => rfl
  | orphan path free later left orphans => rw [left]; rfl

theorem Leaves.disk_eq_iff (leaves : pool.Leaves name width cause later) :
    later.disk = pool.disk ↔ ∃ reason, cause = .disk reason := by
  cases leaves with
  | nothing reason => exact iff_of_true rfl ⟨reason, rfl⟩
  | orphan path free later left orphans =>
    refine iff_of_false (fun same => ?_) fun ⟨_, other⟩ => by cases other
    have there := orphans.there
    rw [same, Disk.fileAt, free] at there
    cases there

/-- A registration that fails leaves the tables as they were, and the files unless it was for a new
table whose tuples do not fit: the file of that stays. -/
theorem registration_leaves (pool : Pool) (name : String) (sized : schema.width = .ok width) :
    (∀ cause later, pool.openTable name schema = (later, .error (.error cause)) →
      later.disk = pool.disk ∧ later.tables = pool.tables) ∧
    ∀ cause later, pool.createTable name schema = (later, .error (.error cause)) →
      later.tables = pool.tables ∧ (later.disk = pool.disk ↔ ∃ reason, cause = .disk reason) ∧
        pool.Leaves name width cause later := by
  refine ⟨fun cause later failed => ?_, fun cause later failed => ?_⟩
  · obtain rfl := openTable_leaves failed
    exact ⟨rfl, rfl⟩
  · have leaves := createTable_leaves sized failed
    exact ⟨leaves.tables_eq, leaves.disk_eq_iff, leaves⟩

def cramped : Pool := ⟨⟨64, 4, none⟩, .blank, ∅, 0, .empty, .empty, .zero⟩

def wide : Schema := ⟨[.str 300], by decide⟩

def narrow : Schema := ⟨[.str 3], by decide⟩

theorem width_wide : wide.width = .ok 304 := by decide

theorem width_narrow : narrow.width = .ok 7 := by decide

theorem forSizes_narrow : PageLayout.forSizes 64 7 = .ok ⟨64, 7, 8, 1⟩ := by decide

theorem createTable_wide : cramped.createTable "w" wide =
    ((cramped.createTable "w" wide).1, .error (.error (.tupleTooWide 304 64))) := by
  have refused : (cramped.createTable "w" wide).2 = .error (.error (.tupleTooWide 304 64)) := by
    decide +kernel
  exact Prod.ext rfl refused

/-- A string of 300 bytes does not fit in a page of 64, but the file is made. For one of 3 bytes, which
fits, it cannot be made again; it can be opened. -/
theorem registration_leaves_orphan :
    ∃ later, cramped.createTable "w" wide = (later, .error (.error (.tupleTooWide 304 64))) ∧
      later.tables = cramped.tables ∧ later.disk ≠ cramped.disk ∧
      later.createTable "w" narrow =
        (later.skip, .error (.error (.disk (.system SystemError.fileExists)))) ∧
      ∃ path, later.openTable "w" narrow =
        (later.gain ⟨⟨1⟩, path, narrow, ⟨64, 7, 8, 1⟩⟩, .ok ⟨1⟩) := by
  obtain ⟨same, iff, leaves⟩ :=
    (registration_leaves cramped "w" width_wide).2 _ _ createTable_wide
  refine ⟨_, createTable_wide, same, fun kept => ?_, ?_⟩
  · obtain ⟨_, other⟩ := iff.mp kept
    cases other
  · generalize (cramped.createTable "w" wide).1 = later at leaves
    cases leaves with
    | orphan path free later left orphans =>
      subst left
      exact ⟨orphans.blocked narrow, path, orphans.opens width_narrow forSizes_narrow⟩

/-- So a failed registration may leave a file, and may not be repeated with tuples that fit. -/
theorem not_registration_undone :
    (¬∀ (pool later : Pool) (name : String) (schema : Schema) (width : Nat) (cause : StoreError),
      schema.width = .ok width →
      pool.createTable name schema = (later, .error (.error cause)) → later.disk = pool.disk) ∧
    ¬∀ (pool later : Pool) (name : String) (wide narrow : Schema) (width fit pageSize : Nat)
      (layout : PageLayout), pool.createTable name wide =
        (later, .error (.error (.tupleTooWide width pageSize))) →
      narrow.width = .ok fit → PageLayout.forSizes pageSize fit = .ok layout →
      ∃ again table, later.createTable name narrow = (again, .ok table) := by
  have leaves := createTable_leaves width_wide createTable_wide
  refine ⟨fun undone => ?_, fun repeated => ?_⟩
  · obtain ⟨_, other⟩ := leaves.disk_eq_iff.mp (undone _ _ _ _ _ _ width_wide createTable_wide)
    cases other
  · obtain ⟨again, table, made⟩ :=
      repeated _ _ _ _ _ _ _ _ _ createTable_wide width_narrow forSizes_narrow
    generalize (cramped.createTable "w" wide).1 = later at leaves made
    cases leaves with
    | orphan path free later left orphans =>
      rw [orphans.blocked] at made
      cases made

end Pool
end PagedTables
