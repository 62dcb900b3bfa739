import PagedTables.Proofs.Storage.File
import PagedTables.Proofs.Storage.RoundTrip

/-! A page is written in its place, wherever that is: it is read back, nothing else that the file has
is touched, and what the file gains in front of it are blank pages. -/

namespace PagedTables

/-- There are zeros behind the end, so a string that is lengthened has zeros in the gap. -/
def Bytes.Ended (bytes : Bytes) : Prop := ∀ offset, bytes.length ≤ offset → bytes.byte offset = 0

namespace HeapFile

structure Overwrites (file : HeapFile) (disk : Disk) (heap : HeapPage) (later : Disk) : Prop where
  read : file.readPage later heap.id = .ok (heap.markDirty none)
  elsewhere : ∀ path, path ≠ file.path → later.contents path = disk.contents path
  outside : (later.contents file.path).AgreeOutside (disk.contents file.path)
    (heap.id.number.toNat * file.pageSize) file.pageSize
  kept : ∀ other, other ≠ heap.id → file.Covers disk other →
    file.readPage later other = file.readPage disk other
  length : file.length later =
    max (file.length disk) ((heap.id.number.toNat + 1) * file.pageSize)
  ended : (later.contents file.path).Ended
  whole : file.pageSize ∣ file.length disk → file.pageSize ∣ file.length later
  blank : file.pageSize ∣ file.length disk →
    ∀ other, other.table = file.table → ¬file.Covers disk other → other.number < heap.id.number →
      file.readPage later other = .ok (.blank other file.schema file.layout)

variable {file : HeapFile} {disk later : Disk} {page other : PageId} {heap : HeapPage}
  {contents : Bytes}

theorem readPage_foreign (foreign : page.table ≠ file.table) :
    file.readPage disk page = .error (.error (.pageNotFound page)) := if_pos foreign

theorem writePage_foreign (foreign : heap.id.table ≠ file.table) :
    file.writePage disk heap = .error (.error (.pageNotFound heap.id)) := if_pos foreign

theorem Proper.place_eq (proper : file.Proper) (page : PageId) :
    file.place page =
      if page.number.toNat * file.pageSize + file.pageSize < Disk.offsetBound then
        .ok (page.number.toNat * file.pageSize)
      else .error (.error (.disk (.system SystemError.invalidArgument))) :=
  place_of_lt page (proper.offset_lt page)

theorem length_le_of_not_covers (whole : file.pageSize ∣ file.length disk)
    (beyond : ¬file.Covers disk page) : file.length disk ≤ page.number.toNat * file.pageSize := by
  obtain ⟨count, long⟩ := whole
  have short : file.pageSize * count < file.pageSize * (page.number.toNat + 1) := by
    rw [← long, Nat.mul_comm _ (_ + 1), Nat.succ_mul]
    exact Nat.lt_of_not_le beyond
  have fewer : count ≤ page.number.toNat := Nat.le_of_lt_succ (Nat.lt_of_mul_lt_mul_left short)
  rw [long, Nat.mul_comm]
  exact Nat.mul_le_mul_right _ fewer

section Puts

variable (puts : heap.Puts (heap.id.number.toNat * file.pageSize) (disk.contents file.path) contents)
  (layout : heap.layout = file.layout)

include puts layout

theorem length_of_puts : file.length (disk.setContents file.path contents) =
    max (file.length disk) ((heap.id.number.toNat + 1) * file.pageSize) := by
  have size : heap.layout.pageSize = file.pageSize := congrArg PageLayout.pageSize layout
  have length := puts.length
  rw [size, ← Nat.succ_mul] at length
  rw [HeapFile.length, Disk.contents_setContents, if_pos rfl, length, HeapFile.length]

theorem covers_of_puts (either : file.Covers disk other ∨ other.number ≤ heap.id.number) :
    file.Covers (disk.setContents file.path contents) other := by
  unfold Covers
  rw [length_of_puts puts layout]
  rcases either with inside | before
  · exact Nat.le_trans inside (Nat.le_max_left _ _)
  · have fewer := Nat.succ_le_succ (UInt32.le_iff_toNat_le.mp before)
    rw [← Nat.succ_mul]
    exact Nat.le_trans (Nat.mul_le_mul_right file.pageSize fewer) (Nat.le_max_right _ _)

theorem whole_of_puts (whole : file.pageSize ∣ file.length disk) :
    file.pageSize ∣ file.length (disk.setContents file.path contents) := by
  rw [length_of_puts puts layout]
  rcases Nat.le_total (file.length disk) ((heap.id.number.toNat + 1) * file.pageSize) with less | more
  · rw [Nat.max_eq_right less]
    exact Nat.dvd_mul_left _ _
  · rwa [Nat.max_eq_left more]

end Puts

theorem Proper.overwrites (proper : file.Proper) (here : heap.id.table = file.table)
    (schema : heap.schema = file.schema) (layout : heap.layout = file.layout)
    (ended : (disk.contents file.path).Ended)
    (puts : heap.Puts (heap.id.number.toNat * file.pageSize) (disk.contents file.path) contents) :
    file.Overwrites disk heap (disk.setContents file.path contents) := by
  have now : (disk.setContents file.path contents).contents file.path = contents := by
    rw [Disk.contents_setContents, if_pos rfl]
  have size : heap.layout.pageSize = file.pageSize := congrArg PageLayout.pageSize layout
  have outside := size ▸ puts.outside
  -- Where neither the file reached before nor the page is written there are zeros.
  have zeros : ∀ offset, offset < heap.id.number.toNat * file.pageSize ∨
      heap.id.number.toNat * file.pageSize + file.pageSize ≤ offset →
      file.length disk ≤ offset → contents.byte offset = 0 :=
    fun offset out behind => (outside offset out).trans (ended offset behind)
  exact {
    read := by
      have covers := covers_of_puts puts layout (.inr (UInt32.le_refl _))
      rw [proper.readPage_eq _ here, if_pos covers, now, ← schema, ← layout]
      exact puts.reads contents fun _ _ _ => rfl
    elsewhere := fun path apart => by rw [Disk.contents_setContents, if_neg apart]
    outside := now.symm ▸ outside
    kept := fun other apart inside => by
      by_cases there : other.table = file.table
      · exact proper.readPage_of_agreeOutside here there apart (now.symm ▸ outside)
          (iff_of_true (covers_of_puts puts layout (.inl inside)) inside)
      · rw [readPage_foreign there, readPage_foreign there]
    length := length_of_puts puts layout
    ended := fun offset behind => by
      have behind : file.length (disk.setContents file.path contents) ≤ offset := behind
      rw [length_of_puts puts layout, Nat.succ_mul] at behind
      rw [now]
      exact zeros offset (.inr (Nat.le_trans (Nat.le_max_right _ _) behind))
        (Nat.le_trans (Nat.le_max_left _ _) behind)
    whole := whole_of_puts puts layout
    blank := fun whole other there beyond before => by
      have apart : other ≠ heap.id := fun same => UInt32.lt_irrefl _ (same ▸ before)
      have covers := covers_of_puts puts layout (.inr (UInt32.le_of_lt before))
      rw [proper.readPage_eq _ there, if_pos covers, now]
      refine HeapPage.read_of_zeros proper.layout.laid fun offset low high => zeros offset ?_ ?_
      · rcases windows_apart (here.trans there.symm) apart file.pageSize with front | behind
        · exact .inl (Nat.lt_of_lt_of_le high front)
        · exact .inr (Nat.le_trans behind low)
      · exact Nat.le_trans (length_le_of_not_covers whole beyond) low }

/-- A page that was made new or read, after any calls, is put into a file of any length. It is written
there unless it would end where no file can reach; a page of another table is not. -/
theorem writePage_overwrites {path : String} {table : TableId} {schema : Schema} {pageSize : Nat}
    (small : pageSize < 2 ^ 32) (laid : ofEntry path table schema pageSize = .ok file)
    (id : PageId) (here : id.table = table) (page : HeapPage)
    (obtained : HeapPage.allocate id file.schema file.layout = .ok page ∨
      ∃ data, HeapPage.ofBytes id file.schema file.layout data = .ok page)
    (calls : List PageCall) (disk : Disk) (ended : (disk.contents file.path).Ended) :
    let heap := calls.foldl HeapPage.perform page
    let start := id.number.toNat * file.pageSize
    (∃ contents, heap.put start (disk.contents file.path) = .ok contents ∧
      heap.id = id ∧ file.Overwrites disk heap (disk.setContents file.path contents) ∧
      file.writePage disk heap =
        if start + file.pageSize < Disk.offsetBound then .ok (disk.setContents file.path contents)
        else .error (.error (.disk (.system SystemError.invalidArgument)))) ∧
    (∀ (slot : Nat) (tuple : Tuple), heap.slots[slot]? = some (some tuple) →
      tuple.recordId = some ⟨id, slot⟩) ∧
    (∀ foreign : PageId, foreign.table ≠ table →
      file.readPage disk foreign = .error (.error (.pageNotFound foreign))) ∧
    ∀ foreign : HeapPage, foreign.id.table ≠ table →
      file.writePage disk foreign = .error (.error (.pageNotFound foreign.id)) := by
  intro heap start
  obtain ⟨proper, rfl, _⟩ := proper_of_ofEntry small laid
  have first : page.Fits id file.schema file.layout := by
    rcases obtained with new | ⟨data, read⟩
    · obtain rfl : HeapPage.blank id file.schema file.layout = page := by
        simpa only [HeapPage.allocate_eq_ok proper.layout, Except.ok.injEq] using new
      exact HeapPage.fits_blank proper.layout proper.width
    · exact HeapPage.fits_of_ofBytes proper.layout proper.width read
  obtain ⟨sound, rfl, schema, layout⟩ := first.run calls
  obtain ⟨contents, put, puts⟩ := sound.exists_put start (disk.contents file.path)
  refine ⟨⟨contents, put, rfl, proper.overwrites here schema layout ended puts, ?_⟩,
    fun slot tuple found => (sound.stored slot tuple found).2, fun _ => readPage_foreign,
    fun _ => writePage_foreign⟩
  rw [writePage, if_neg (not_not.mpr here), proper.place_eq]
  split
  · exact congrArg (Except.map (disk.setContents file.path)) put
  · rfl

/-- Two pages are in the file when the sixth is written: it is read back, and what lies between is
blank. -/
theorem writePage_overwrites_gap :
    let file : HeapFile := ⟨⟨0⟩, "a", HeapPage.names, ⟨64, 14, 4, 1⟩⟩
    let disk := Disk.blank.setContents "a" ((Bytes.zeros 128).write 70 [7, 7])
    let heap := [PageCall.insert ⟨[.int 1, .str "naïve"], none⟩, .markDirty (some ⟨7⟩)].foldl
      HeapPage.perform (.blank ⟨⟨0⟩, 5⟩ file.schema file.layout)
    ∃ later, file.writePage disk heap = .ok later ∧ file.length later = 384 ∧
      file.readPage later ⟨⟨0⟩, 5⟩ = .ok (heap.markDirty none) ∧
      file.readPage later ⟨⟨0⟩, 3⟩ = .ok (.blank ⟨⟨0⟩, 3⟩ file.schema file.layout) := by
  intro file disk heap
  have laid : ofEntry "a" ⟨0⟩ HeapPage.names 64 = .ok file := by decide
  have now : disk.contents file.path = (Bytes.zeros 128).write 70 [7, 7] :=
    Disk.contents_setContents
  have ended : (disk.contents file.path).Ended := by
    intro offset behind
    rw [now] at behind ⊢
    have past : 128 ≤ offset := behind
    rw [Bytes.byte_write, dif_neg (by simp; omega)]
    simp [Bytes.byte, Bytes.zeros]
  obtain ⟨contents, _, _, overwrites, written⟩ := (writePage_overwrites (by decide) laid ⟨⟨0⟩, 5⟩ rfl
    (.blank ⟨⟨0⟩, 5⟩ file.schema file.layout) (.inl (by decide))
    [.insert ⟨[.int 1, .str "naïve"], none⟩, .markDirty (some ⟨7⟩)] disk ended).1
  have long : file.length disk = 128 := by decide +kernel
  refine ⟨_, written, ?_, overwrites.read, overwrites.blank ?_ _ rfl ?_ (by decide)⟩
  · exact overwrites.length.trans (by decide +kernel)
  · exact long ▸ ⟨2, rfl⟩
  · decide +kernel

end HeapFile
end PagedTables
