import PagedTables.Proofs.Storage.RoundTrip
import PagedTables.Proofs.Storage.File
import PagedTables.Proofs.Storage.Unread

/-! How many pages a file has. As long as its whole pages can be numbered, a page is found if its
number is below their count, and the next page goes behind them. Past that the count starts again at
zero, and the next page goes over one that is there. -/

namespace PagedTables.HeapFile

/-- One blank page more. The whole pages that were there keep their bytes; what a torn write left
behind them is gone. -/
structure GainsPage (file : HeapFile) (disk later : Disk) : Prop where
  elsewhere : ∀ path, path ≠ file.path → later.contents path = disk.contents path
  kept : ∀ offset < file.length disk / file.pageSize * file.pageSize,
    (later.contents file.path).byte offset = (disk.contents file.path).byte offset
  blank : file.readPage later (file.lastPage disk) =
    .ok (.blank (file.lastPage disk) file.schema file.layout)
  length : file.length later = (file.length disk / file.pageSize + 1) * file.pageSize
  counted : (file.numPages later).toNat = (file.numPages disk).toNat + 1 ↔ file.HasNumber disk

structure LosesPage (file : HeapFile) (disk later : Disk) : Prop where
  covered : file.Covers disk (file.lastPage disk)
  elsewhere : ∀ path, path ≠ file.path → later.contents path = disk.contents path
  outside : (later.contents file.path).AgreeOutside (disk.contents file.path)
    ((file.numPages disk).toNat * file.pageSize) file.pageSize
  blank : file.readPage later (file.lastPage disk) =
    .ok (.blank (file.lastPage disk) file.schema file.layout)
  length : file.length later = file.length disk

inductive Appending (file : HeapFile) (disk : Disk) : Except Failure (Disk × PageId) → Prop
  | behind (few : file.length disk / file.pageSize < 2 ^ 32) (later : Disk)
      (gains : file.GainsPage disk later) : Appending file disk (.ok (later, file.lastPage disk))
  | onto (many : 2 ^ 32 ≤ file.length disk / file.pageSize) (later : Disk)
      (loses : file.LosesPage disk later) : Appending file disk (.ok (later, file.lastPage disk))
  | tooLong
      (long : Disk.offsetBound ≤ (file.numPages disk).toNat * file.pageSize + file.pageSize) :
      Appending file disk (.error (.error (.disk (.system SystemError.invalidArgument))))

variable {file : HeapFile} {disk later : Disk} {page : PageId} {path : String} {table : TableId}
  {schema : Schema} {pageSize : Nat}

theorem numPages_mod (file : HeapFile) (disk : Disk) :
    (file.numPages disk).toNat = file.length disk / file.pageSize % 2 ^ 32 := by
  rw [numPages, UInt32.toNat_ofNat']

/-- A page is looked for by the length of the file, so it is found whether or not its number is below
the count of pages. -/
theorem found_iff (positive : 0 < file.pageSize) (same : page.table = file.table)
    (fits : (page.number.toNat + 1) * file.pageSize < wordBound) :
    file.readPage disk page ≠ .error (.error (.pageNotFound page)) ↔
      page.number.toNat < file.length disk / file.pageSize := by
  rw [← covers_iff positive, readPage_eq_of_lt same (Nat.succ_mul _ _ ▸ fits) disk]
  split
  · next inside =>
    refine iff_of_true (fun missing => ?_) inside
    rcases HeapPage.corrupt_of_read missing with ⟨_, other⟩ | ⟨_, other⟩ <;> cases other
  · next beyond => exact iff_of_false (fun found => found rfl) beyond

theorem found_iff_lt_numPages (positive : 0 < file.pageSize) (same : page.table = file.table)
    (fits : (page.number.toNat + 1) * file.pageSize < wordBound)
    (few : file.length disk / file.pageSize < 2 ^ 32) :
    file.readPage disk page ≠ .error (.error (.pageNotFound page)) ↔
      page.number < file.numPages disk := by
  rw [found_iff positive same fits, UInt32.lt_iff_toNat_lt, numPages_toNat few]

theorem covers_lastPage (positive : 0 < file.pageSize)
    (many : 2 ^ 32 ≤ file.length disk / file.pageSize) : file.Covers disk (file.lastPage disk) := by
  rw [covers_iff positive, lastPage, numPages_mod]
  exact (Nat.mod_lt _ (by decide)).trans_le many

theorem appendBlank_of_lt
    (fits : (file.numPages disk).toNat * file.pageSize + file.pageSize < wordBound) :
    file.appendBlank disk =
      if (file.numPages disk).toNat * file.pageSize + file.pageSize < Disk.offsetBound then
        .ok (disk.setContents file.path ((disk.contents file.path).clear
          ((file.numPages disk).toNat * file.pageSize) file.pageSize), file.lastPage disk)
      else .error (.error (.disk (.system SystemError.invalidArgument))) := by
  have placed := place_of_lt (file.lastPage disk) fits
  rw [lastPage] at placed
  split at placed
  · next short =>
    simp only [appendBlank, placed, bind, Except.bind]
    exact (if_pos short).symm
  · next long =>
    simp only [appendBlank, placed, bind, Except.bind]
    exact (if_neg long).symm

section Cleared

variable (laid : file.layout.Laid)
  (fits : (file.numPages disk).toNat * file.pageSize + file.pageSize < wordBound)
  (appended : file.appendBlank disk = .ok (later, page))

include laid fits appended

theorem gainsPage_of_appendBlank (few : file.length disk / file.pageSize < 2 ^ 32) :
    file.GainsPage disk later := by
  have positive : 0 < file.pageSize := laid.pageSize_pos
  have length := length_appendBlank positive few appended
  have number := numPages_toNat few
  have now := (contents_appendBlank appended).trans (if_pos rfl)
  have covers : file.Covers later (file.lastPage disk) := by
    rw [Covers, lastPage, number]
    exact Nat.le_of_eq length.symm
  exact {
    elsewhere := fun path apart => by rw [contents_appendBlank appended, if_neg apart]
    kept := fun offset below => by rw [now, number, Bytes.byte_clear, if_neg (by omega)]
    blank := readPage_of_clear laid rfl fits covers now
    length := by rw [length, Nat.succ_mul]
    counted := by
      refine ⟨fun more => ?_, fun fewer => numPages_appendBlank positive fewer appended⟩
      have room := (file.numPages later).toNat_lt
      rw [more, number] at room
      exact Nat.lt_sub_of_add_lt room }

theorem losesPage_of_appendBlank (many : 2 ^ 32 ≤ file.length disk / file.pageSize) :
    file.LosesPage disk later := by
  have covered := covers_lastPage laid.pageSize_pos many
  have now := (contents_appendBlank appended).trans (if_pos rfl)
  have length : file.length later = file.length disk := by
    rw [HeapFile.length, now]
    exact Bytes.length_clear_of_le covered
  exact {
    covered := covered
    elsewhere := fun path apart => by rw [contents_appendBlank appended, if_neg apart]
    outside := now ▸ Bytes.clear_agreeOutside _ _ _
    blank := readPage_of_clear laid rfl fits (by rwa [Covers, length]) now
    length := length }

end Cleared

theorem appending_appendBlank (laid : file.layout.Laid)
    (fits : (file.numPages disk).toNat * file.pageSize + file.pageSize < wordBound) :
    file.Appending disk (file.appendBlank disk) := by
  have appended := appendBlank_of_lt fits
  split at appended
  · rcases Nat.lt_or_ge (file.length disk / file.pageSize) (2 ^ 32) with few | many
    · have gains := gainsPage_of_appendBlank laid fits appended few
      exact appended ▸ .behind few _ gains
    · have loses := losesPage_of_appendBlank laid fits appended many
      exact appended ▸ .onto many _ loses
  · next long => exact appended ▸ .tooLong (Nat.le_of_not_lt long)

/-- The pages that are counted are those that are found, exactly if there are fewer than 2 ^ 32 of
them; and a page that is appended is put behind them in that case only. -/
theorem extent_agrees (disk : Disk) (made : ofEntry path table schema pageSize = .ok file)
    (reach : (file.length disk / pageSize + 1) * pageSize < wordBound) :
    (file.length disk / pageSize < 2 ^ 32 ↔
      ∀ page : PageId, page.table = table → (page.number.toNat + 1) * pageSize < wordBound →
        (file.readPage disk page ≠ .error (.error (.pageNotFound page)) ↔
          page.number < file.numPages disk)) ∧
    file.Appending disk (file.appendBlank disk) := by
  obtain ⟨laid, rfl, _, rfl, _⟩ := laid_of_ofEntry made
  have positive : 0 < file.pageSize := laid.pageSize_pos
  have fits : ((file.numPages disk).toNat + 1) * file.pageSize < wordBound := by
    refine (Nat.mul_le_mul_right _ (Nat.succ_le_succ ?_)).trans_lt reach
    rw [numPages_mod]
    exact Nat.mod_le _ _
  refine ⟨⟨fun few page same within => found_iff_lt_numPages positive same within few,
    fun agree => ?_⟩, appending_appendBlank laid (Nat.succ_mul _ _ ▸ fits)⟩
  by_contra many
  have covered := covers_lastPage positive (Nat.le_of_not_lt many)
  have found := (found_iff positive rfl fits).mpr ((covers_iff positive).mp covered)
  exact UInt32.lt_irrefl _ ((agree (file.lastPage disk) rfl fits).mp found)

/-- Two pages and a torn write are in the file; the third page goes over the torn write. -/
theorem extent_agrees_torn :
    let file : HeapFile := ⟨⟨0⟩, "a", HeapPage.names, ⟨64, 14, 4, 1⟩⟩
    let disk := Disk.blank.setContents "a" ((Bytes.zeros 150).write 130 [7, 7])
    file.readPage disk ⟨⟨0⟩, 1⟩ ≠ .error (.error (.pageNotFound ⟨⟨0⟩, 1⟩)) ∧
      file.readPage disk ⟨⟨0⟩, 2⟩ = .error (.error (.pageNotFound ⟨⟨0⟩, 2⟩)) ∧
      ∃ later, file.appendBlank disk = .ok (later, ⟨⟨0⟩, 2⟩) ∧ file.length later = 192 ∧
        file.readPage later ⟨⟨0⟩, 2⟩ = .ok (.blank ⟨⟨0⟩, 2⟩ file.schema file.layout) ∧
        (file.numPages later).toNat = 3 := by
  intro file disk
  have made : ofEntry "a" ⟨0⟩ HeapPage.names 64 = .ok file := by decide
  have long : file.length disk = 150 := by decide +kernel
  have count : file.numPages disk = 2 := by decide +kernel
  have last : file.lastPage disk = ⟨⟨0⟩, 2⟩ := by rw [lastPage, count]
  obtain ⟨agrees, appending⟩ := extent_agrees disk made (by rw [long]; decide)
  have found := agrees.mp (by rw [long]; decide)
  refine ⟨(found ⟨⟨0⟩, 1⟩ rfl (by decide)).mpr (by rw [count]; decide), ?_, ?_⟩
  · by_contra missing
    exact absurd ((found ⟨⟨0⟩, 2⟩ rfl (by decide)).mp missing) (by rw [count]; decide)
  · generalize appended : file.appendBlank disk = result at appending
    cases appending with
    | behind few later gains =>
      refine ⟨later, by rw [last], by rw [gains.length, long]; decide, last ▸ gains.blank, ?_⟩
      rw [gains.counted.mpr (by rw [HasNumber, long]; decide), count]
      decide
    | onto many => exact absurd (long ▸ many) (by decide)
    | tooLong reach => exact absurd (count ▸ reach) (by decide)

/-- In a file of 2 ^ 32 pages none is counted, though the first is found and has a tuple. The next page
goes over it. -/
theorem not_extent_agrees :
    (¬∀ {path : String} {table : TableId} {schema : Schema} {pageSize : Nat} {file : HeapFile}
      (disk : Disk), ofEntry path table schema pageSize = .ok file →
      (file.length disk / pageSize + 1) * pageSize < Disk.offsetBound →
      ∀ page : PageId, page.table = table → (page.number.toNat + 1) * pageSize < wordBound →
        (file.readPage disk page ≠ .error (.error (.pageNotFound page)) ↔
          page.number < file.numPages disk)) ∧
    ¬∀ {path : String} {table : TableId} {schema : Schema} {pageSize : Nat} {file : HeapFile}
      (disk : Disk), ofEntry path table schema pageSize = .ok file →
      (file.length disk / pageSize + 1) * pageSize < Disk.offsetBound →
      ∃ later, file.appendBlank disk = .ok (later, file.lastPage disk) ∧
        ∀ offset < file.length disk / pageSize * pageSize,
          (later.contents file.path).byte offset = (disk.contents file.path).byte offset := by
  let file : HeapFile := ⟨⟨0⟩, "a", HeapPage.names, ⟨64, 14, 4, 1⟩⟩
  let disk := Disk.blank.setContents "a" ((Bytes.zeros (64 * 2 ^ 32)).write 0 [1])
  have made : ofEntry "a" ⟨0⟩ HeapPage.names 64 = .ok file := by decide
  have long : file.length disk = 64 * 2 ^ 32 := by decide +kernel
  have count : file.numPages disk = 0 := by decide +kernel
  have laid := (laid_of_ofEntry made).1
  have reach : (file.length disk / 64 + 1) * 64 < Disk.offsetBound := by
    rw [long]
    decide
  have many : 2 ^ 32 ≤ file.length disk / file.pageSize := by
    rw [long]
    decide
  refine ⟨fun agrees => ?_, fun keeps => ?_⟩
  · have found : file.readPage disk ⟨⟨0⟩, 0⟩ ≠ .error (.error (.pageNotFound ⟨⟨0⟩, 0⟩)) :=
      (found_iff laid.pageSize_pos rfl (by decide)).mpr (lt_of_lt_of_le (by decide) many)
    have counted := (agrees disk made reach ⟨⟨0⟩, 0⟩ rfl (by decide)).mp found
    rw [count] at counted
    exact absurd counted (by decide)
  · obtain ⟨later, appended, kept⟩ := keeps disk made reach
    have same := kept 0 (by rw [long]; decide)
    rw [contents_appendBlank appended, count, if_pos rfl, Bytes.byte_clear, if_pos (by decide)] at same
    exact absurd same (by decide +kernel)

end PagedTables.HeapFile
