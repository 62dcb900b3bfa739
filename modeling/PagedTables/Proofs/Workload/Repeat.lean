import PagedTables.Proofs.Workload.Extent
import PagedTables.Proofs.Workload.Scanning

/-! Scans of one table by one transaction that only reads in between. Locks are on pages, and the number
of pages is taken without one: a later scan may come to pages that were not there before. -/

namespace PagedTables.Workload

variable {start : Disk} {config : Config} {pool : Pool} {owner : TransactionId} {table : TableId}
  {file : HeapFile} {opened opened' middle last : Workload} {taken taken' : List Tuple}
  {cursor cursor' : Cursor}

theorem Shuts.numPages_eq (steady : opened.Steady start) (anchored : opened.Anchored)
    (reading : (opened.stage owner).isRead = true) (before : Course (Reads owner) opened middle)
    (shuts : Shuts owner file middle) (registered : middle.pool.tables[file.table]? = some file)
    (between : Course (Reads owner) middle opened') (few : opened'.registrations ≤ 2 ^ 32) :
    file.numPages opened'.pool.disk = file.numPages middle.pool.disk := by
  have few' := Nat.le_trans between.registrations_le few
  have steady' := steady.course before (fun _ _ => Reads.kind) few'
  have anchored' := anchored.course steady before (fun _ _ => Reads.kind) few'
  have reading' := isRead_course before reading
  have barred := shuts.barred steady' anchored' registered reading'
  exact (barred.course steady' reading' between few).2

/-- A transaction that only reads finds in a second scan of a table what it found in the first one, and
behind that what is on the pages that the first one did not visit because they were not there when it
was opened. There are no such pages if the table was shut in between. -/
theorem scan_repeats (small : config.pageSize < 2 ^ 32) (made : Pool.start config start = .ok pool)
    (before : Course (fun work step => Unhooked step ∧ work.Filed step) (Workload.start pool) opened)
    (between : Course (Reads owner) opened opened')
    (scanned : Scanned owner table opened last taken cursor)
    (scanned' : Scanned owner table opened' last taken' cursor')
    (few : last.registrations ≤ 2 ^ 32)
    (whole : cursor.numPages ≤ cursor.nextPage) (whole' : cursor'.numPages ≤ cursor'.nextPage) :
    cursor.numPages ≤ cursor'.numPages ∧
    taken' ++ cursor'.pending =
      taken ++ cursor.pending ++ last.pool.tuples table cursor.numPages cursor'.numPages ∧
    (cursor'.numPages = cursor.numPages → taken' ++ cursor'.pending = taken ++ cursor.pending) ∧
    ∀ middle file, Course (Reads owner) opened middle → Course (Reads owner) middle opened' →
      middle.pool.tables[table]? = some file → file.numPages middle.pool.disk = cursor.numPages →
        Shuts owner file middle → taken' ++ cursor'.pending = taken ++ cursor.pending := by
  have fewer := Nat.le_trans scanned'.course.registrations_le few
  have fewest := Nat.le_trans between.registrations_le fewer
  have steady : opened.Steady start :=
    (steady_start small made).course before (fun _ _ => id) fewest
  have steady' := steady.course between (fun _ _ => Reads.kind) fewer
  have reading := scanned.isRead
  obtain ⟨file, registered, accurate⟩ := scanned.accurate steady few
  obtain ⟨file', registered', accurate'⟩ := scanned'.accurate steady' few
  have keeps := steady.keeps_course reading between fewer
  obtain rfl : file = file' :=
    Option.some.inj ((keeps.tables _ _ registered).symm.trans registered')
  have own := (steady.current.fresh.sound.proper _ _ registered).2.1
  have more : cursor.numPages ≤ cursor'.numPages := by
    rw [accurate.counted, accurate'.counted]
    exact keeps.count table file registered
  -- Both scans are at their ends, so both lists are the tuples up to a page count, as they are
  -- shown last.
  have all : cursor.nextPage = cursor.numPages :=
    UInt32.le_antisymm (accurate.counted ▸ accurate.within) whole
  have all' : cursor'.nextPage = cursor'.numPages :=
    UInt32.le_antisymm (accurate'.counted ▸ accurate'.within) whole'
  have read := accurate.read
  have read' := accurate'.read
  rw [own, all] at read
  rw [own, all', last.pool.tuples_append table UInt32.zero_le more, ← read] at read'
  have same (equal : cursor'.numPages = cursor.numPages) :
      taken' ++ cursor'.pending = taken ++ cursor.pending := by
    rw [read', equal, Pool.tuples_self, List.append_nil]
  refine ⟨more, read', same, fun middle file' early late found count shuts => same ?_⟩
  have found' := (steady.keeps_course reading early
    (Nat.le_trans late.registrations_le fewer)).tables _ _ registered
  obtain rfl : file = file' := Option.some.inj (found'.symm.trans found)
  have anchored :=
    (anchored_start pool).course (steady_start small made) before (fun _ _ => id) fewest
  rw [accurate'.counted, ← count]
  exact shuts.numPages_eq steady anchored reading early (own.symm ▸ found) late fewer

def numbersFile : HeapFile := ⟨⟨0⟩, "numbers", numbers, ⟨16, 4, 3, 1⟩⟩

def seven : Tuple := ⟨[.int 7], some ⟨⟨⟨0⟩, 0⟩, 0⟩⟩

/-- The number is read at once and then step by step, while somebody waits to add another. -/
theorem scan_repeats_numbers :
    let opened := ((.create "numbers" numbers :: filling).map Step.act).foldl next
      (Workload.start smallPool)
    ∃ opened' last taken' cursor cursor', Course (Reads ⟨2⟩) opened opened' ∧
      Shuts ⟨2⟩ numbersFile opened' ∧ Scanned ⟨2⟩ ⟨0⟩ opened last [] cursor ∧
      Scanned ⟨2⟩ ⟨0⟩ opened' last taken' cursor' ∧ cursor.pending = [seven] ∧
      taken' ++ cursor'.pending = [seven] := by
  intro opened
  have made : Pool.start smallPool.config .blank = .ok smallPool := rfl
  have before : Course (fun work step => Unhooked step ∧ work.Filed step)
      (Workload.start smallPool) opened := .of_takes _ .start (by decide +kernel)
  let cursor : Cursor := ⟨numbersFile, ⟨2⟩, true, 1, 1, [seven]⟩
  have asks : Calls ⟨2⟩ (.scan ⟨0⟩) opened _ _ := .begins (by decide +kernel)
  have pins := asks.advances (by decide +kernel) (by decide +kernel)
  have uses := pins.advances (by decide +kernel) (by decide +kernel)
  have ends := uses.advances (by decide +kernel) (by decide +kernel)
  let reading : List Action := .call ⟨2⟩ (.scan ⟨0⟩) :: List.replicate 3 (.advance ⟨2⟩)
  let read := (reading.map Step.act).foldl next opened
  have scanned : Scanned ⟨2⟩ ⟨0⟩ opened read [] cursor := .reads ends (by decide +kernel)
  let opened' := ((puts ⟨3⟩ 8 1).map Step.act).foldl next read
  have crowds : Course (Reads ⟨2⟩) read opened' := .of_takes _ .start (by decide +kernel)
  let first := (Cursor.closed numbersFile ⟨2⟩).start opened'.pool.disk
  have opens : Scanned ⟨2⟩ ⟨0⟩ opened' opened' [] first :=
    .opens (by decide +kernel) numbersFile (by decide +kernel)
  have asks' : Calls ⟨2⟩ (.resume first) opened' _ _ := .begins (by decide +kernel)
  have pins' := asks'.advances (by decide +kernel) (by decide +kernel)
  have uses' := pins'.advances (by decide +kernel) (by decide +kernel)
  have ends' := uses'.advances (by decide +kernel) (by decide +kernel)
  have resumed : Scanned ⟨2⟩ ⟨0⟩ opened' _ [] cursor := opens.resumes ends' (by decide +kernel)
  have popped : Scanned ⟨2⟩ ⟨0⟩ opened' _ [seven] { cursor with pending := [] } := resumed.pops rfl
  have between := scanned.course.trans crowds
  have whole := scanned.along (crowds.trans popped.course)
  have shuts : Shuts ⟨2⟩ numbersFile opened' := by
    refine ⟨by decide +kernel, by decide +kernel, fun other => ?_⟩
    by_cases worker : other ∈ [(⟨1⟩ : TransactionId), ⟨2⟩, ⟨3⟩]
    · revert other
      decide +kernel
    · have idle : opened'.stage other = .idle :=
        calc opened'.stage other = read.stage other := stage_foldl_of_not_mem worker _ (by decide) _
          _ = opened.stage other := stage_foldl_of_not_mem worker _ (by decide) _
          _ = .idle := stage_foldl_of_not_mem worker _ (by decide) (Workload.start smallPool)
      rw [idle]
      simp [Stage.extends?]
  obtain ⟨_, _, _, same⟩ :=
    scan_repeats (by decide) made before between whole popped (by decide +kernel) (by decide)
      (by decide)
  have again := same opened' numbersFile between .start (by decide +kernel) (by decide +kernel) shuts
  exact ⟨opened', _, _, _, _, between, shuts, whole, popped, rfl, again⟩

/-- A second scan can come to more than the first one. A table has no page when it is scanned; then a
number is put into it, and it is scanned again. -/
theorem not_scan_repeats :
    ¬∀ {start : Disk} {config : Config} {pool : Pool} {owner : TransactionId} {table : TableId}
      {opened opened' last : Workload} {taken taken' : List Tuple} {cursor cursor' : Cursor},
      config.pageSize < 2 ^ 32 → Pool.start config start = .ok pool →
      Course (fun work step => Unhooked step ∧ work.Filed step) (Workload.start pool) opened →
      Course (Reads owner) opened opened' →
      Scanned owner table opened last taken cursor →
      Scanned owner table opened' last taken' cursor' → last.registrations ≤ 2 ^ 32 →
      cursor.numPages ≤ cursor.nextPage → cursor'.numPages ≤ cursor'.nextPage →
        taken' ++ cursor'.pending = taken ++ cursor.pending := by
  intro repeats
  have made : Pool.start smallPool.config .blank = .ok smallPool := rfl
  let opened := (Workload.start smallPool).next (.act (.create "numbers" numbers))
  have before : Course (fun work step => Unhooked step ∧ work.Filed step)
      (Workload.start smallPool) opened :=
    .of_takes [.act (.create "numbers" numbers)] .start (by decide +kernel)
  have ends : Calls ⟨2⟩ (.scan ⟨0⟩) opened _ _ := .begins (by decide +kernel)
  let read := opened.next (.act (.call ⟨2⟩ (.scan ⟨0⟩)))
  have scanned : Scanned ⟨2⟩ ⟨0⟩ opened read [] ⟨numbersFile, ⟨2⟩, true, 0, 0, []⟩ :=
    .reads ends (by decide +kernel)
  let opened' := (filling.map Step.act).foldl next read
  have fills : Course (Reads ⟨2⟩) read opened' := .of_takes _ .start (by decide +kernel)
  have asks' : Calls ⟨2⟩ (.scan ⟨0⟩) opened' _ _ := .begins (by decide +kernel)
  have pins' := asks'.advances (by decide +kernel) (by decide +kernel)
  have uses' := pins'.advances (by decide +kernel) (by decide +kernel)
  have ends' := uses'.advances (by decide +kernel) (by decide +kernel)
  have again : Scanned ⟨2⟩ ⟨0⟩ opened' _ [] ⟨numbersFile, ⟨2⟩, true, 1, 1, [seven]⟩ :=
    .reads ends' (by decide +kernel)
  have same := repeats (by decide) made before (scanned.course.trans fills)
    (scanned.along (fills.trans again.course)) again (by decide +kernel) (by decide) (by decide)
  cases same

end PagedTables.Workload
