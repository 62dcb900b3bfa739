import Mathlib.Data.Nat.Basic
import Mathlib.Tactic.Ring
import PagedTables.HeapFile
import PagedTables.Proofs.Storage.Edit

/-! The pages that a file stores: which page a read finds, and which pages a write, a new page and a
new file leave as they are. -/

namespace PagedTables

theorem toNat_succ_of_lt {number stop : UInt32} (more : number < stop) :
    (number + 1).toNat = number.toNat + 1 := by
  have below := UInt32.lt_iff_toNat_lt.mp more
  have room := stop.toNat_lt
  rw [UInt32.toNat_add, UInt32.toNat_one, Nat.mod_eq_of_lt]
  omega

namespace Disk

variable {disk later : Disk} {path other : String} {contents : Bytes}

theorem contents_setContents :
    (disk.setContents path contents).contents other =
      if other = path then contents else disk.contents other := by
  simp only [Disk.contents, setContents, Std.ExtTreeMap.getElem?_insert,
    Std.LawfulEqOrd.compare_eq_iff_eq]
  by_cases same : path = other
  · simp [same]
  · simp [same, Ne.symm same]

def IsFile (disk : Disk) (path : String) : Prop :=
  ∃ contents, disk.entries[path]? = some (.file contents)

theorem IsFile.setContents (h : disk.IsFile other) :
    (disk.setContents path contents).IsFile other := by
  obtain ⟨before, found⟩ := h
  simp only [IsFile, Disk.setContents, Std.ExtTreeMap.getElem?_insert]
  split
  · exact ⟨contents, rfl⟩
  · exact ⟨before, found⟩

/-- A disk that differs in new, empty files only. -/
structure Grows (disk later : Disk) : Prop where
  contents : ∀ path, later.contents path = disk.contents path
  isFile : ∀ path, disk.IsFile path → later.IsFile path

theorem Grows.refl (disk : Disk) : disk.Grows disk := ⟨fun _ => rfl, fun _ => id⟩

theorem add_file_eq_ok {name : String} :
    disk.add name (.file contents) = .ok (later, path) ↔ disk.resolveFile name = .ok path ∧
      disk.entry? path = none ∧ later = disk.setContents path contents := by
  unfold add
  cases resolved : disk.resolveFile name with
  | error cause => simp [bind, Except.bind]
  | ok place =>
    simp only [bind, Except.bind, Except.ok.injEq]
    cases entry : disk.entry? place with
    | some taken =>
      refine iff_of_false (fun added => by cases added) ?_
      rintro ⟨rfl, free, _⟩
      cases entry.symm.trans free
    | none =>
      simp only [pure, Except.pure, Except.ok.injEq, Prod.mk.injEq]
      constructor
      · rintro ⟨rfl, rfl⟩
        exact ⟨rfl, entry, rfl⟩
      · rintro ⟨rfl, _, rfl⟩
        exact ⟨rfl, rfl⟩

theorem entries_eq_none (free : disk.entry? path = none) : disk.entries[path]? = none := by
  unfold entry? at free
  split at free
  · cases free
  · exact free

theorem grows_of_add {name : String} (h : disk.add name (.file .empty) = .ok (later, path)) :
    disk.Grows later ∧ later.IsFile path ∧ ¬disk.IsFile path := by
  obtain ⟨_, free, rfl⟩ := add_file_eq_ok.mp h
  have absent := entries_eq_none free
  have nothing : disk.contents path = .empty := by rw [Disk.contents, absent]
  refine ⟨⟨fun other => ?_, fun other => .setContents⟩, ⟨.empty, by simp [setContents]⟩, ?_⟩
  · rw [contents_setContents]
    split
    · next same => rw [same, nothing]
    · rfl
  · rintro ⟨contents, present⟩
    cases absent.symm.trans present

end Disk

namespace HeapFile

structure Proper (file : HeapFile) : Prop where
  layout : file.layout.Valid
  width : file.layout.tupleWidth = file.schema.size

theorem laid_of_ofEntry {path : String} {table : TableId} {schema : Schema} {pageSize : Nat}
    {file : HeapFile} (h : ofEntry path table schema pageSize = .ok file) :
    file.layout.Laid ∧ file.pageSize = pageSize ∧
      file.layout.tupleWidth = file.schema.size ∧ file.table = table ∧ file.path = path := by
  unfold ofEntry at h
  cases wide : schema.width with
  | error failure => simp [wide, bind, Except.bind] at h
  | ok width =>
  cases fits : PageLayout.forSizes pageSize width with
  | error failure => simp [wide, fits, bind, Except.bind] at h
  | ok layout =>
    simp only [wide, fits, bind, Except.bind, pure, Except.pure, Except.ok.injEq] at h
    subst h
    obtain ⟨laid, size, same⟩ := PageLayout.laid_of_forSizes fits
    exact ⟨laid, size, same.trans (Schema.width_eq wide), rfl, rfl⟩

theorem proper_of_ofEntry {path : String} {table : TableId} {schema : Schema} {pageSize : Nat}
    {file : HeapFile} (small : pageSize < 2 ^ 32)
    (h : ofEntry path table schema pageSize = .ok file) :
    file.Proper ∧ file.table = table ∧ file.path = path := by
  obtain ⟨laid, rfl, width, here, there⟩ := laid_of_ofEntry h
  exact ⟨⟨⟨laid.width_pos, laid.slots_pos, laid.header_room, laid.within, small⟩, width⟩, here,
    there⟩

theorem of_create {name : String} {table : TableId} {schema : Schema} {pageSize : Nat}
    {disk later : Disk} {made : Except Failure HeapFile} (small : pageSize < 2 ^ 32)
    (h : create disk name table schema pageSize = (later, made)) :
    disk.Grows later ∧ ∀ file, made = .ok file →
      file.Proper ∧ file.table = table ∧ later.IsFile file.path ∧ ¬disk.IsFile file.path := by
  unfold create at h
  split at h
  · obtain ⟨rfl, rfl⟩ := Prod.mk.inj h
    exact ⟨.refl disk, fun file made => by cases made⟩
  · next grown path added =>
    obtain ⟨rfl, rfl⟩ := Prod.mk.inj h
    obtain ⟨grows, present, absent⟩ := Disk.grows_of_add added
    refine ⟨grows, fun file made => ?_⟩
    obtain ⟨proper, same, place⟩ := proper_of_ofEntry small made
    exact ⟨proper, same, place ▸ present, place ▸ absent⟩

theorem of_attach {name : String} {table : TableId} {schema : Schema} {pageSize : Nat} {disk : Disk}
    {file : HeapFile} (small : pageSize < 2 ^ 32)
    (h : attach disk name table schema pageSize = .ok file) :
    file.Proper ∧ file.table = table ∧ disk.IsFile file.path := by
  unfold attach at h
  split at h
  · cases h
  · next path resolved =>
    split at h
    · cases h
    · next contents found =>
      obtain ⟨proper, same, place⟩ := proper_of_ofEntry small h
      refine ⟨proper, same, contents, ?_⟩
      rw [place]
      unfold Disk.fileAt Disk.entry? at found
      by_cases root : path = ""
      · simp [root] at found
      · rw [if_neg root] at found
        split at found
        · next entry => rw [entry, Except.ok.inj found]
        · cases found
        · cases found

/-- The slots of a page as its file has them. A page behind the end of the file counts as free. -/
def stored (file : HeapFile) (disk : Disk) (page : PageId) : Except Failure Slots :=
  match file.readPage disk page with
  | .ok heap => .ok heap.slots
  | .error (.error (.pageNotFound _)) => .ok (List.replicate file.layout.numSlots none)
  | .error failure => .error failure

def Covers (file : HeapFile) (disk : Disk) (page : PageId) : Prop :=
  page.number.toNat * file.pageSize + file.pageSize ≤ file.length disk

instance (file : HeapFile) (disk : Disk) (page : PageId) : Decidable (file.Covers disk page) :=
  inferInstanceAs (Decidable (_ ≤ _))

variable {file : HeapFile} {disk later : Disk} {page other : PageId} {heap : HeapPage}

theorem Proper.pageSize_pos (proper : file.Proper) : 0 < file.pageSize :=
  proper.layout.pageSize_pos

theorem Proper.offset_lt (proper : file.Proper) (page : PageId) :
    page.number.toNat * file.pageSize + file.pageSize < wordBound := by
  have number := page.number.toNat_lt
  have small : file.pageSize ≤ 2 ^ 32 - 1 := Nat.le_sub_one_of_lt proper.layout.small
  have product := Nat.mul_le_mul (Nat.le_sub_one_of_lt number) small
  unfold wordBound
  omega

theorem readPage_eq_of_lt (same : page.table = file.table)
    (fits : page.number.toNat * file.pageSize + file.pageSize < wordBound) (disk : Disk) :
    file.readPage disk page =
      if file.Covers disk page then
        HeapPage.read page file.schema file.layout (disk.contents file.path)
          (page.number.toNat * file.pageSize)
      else .error (.error (.pageNotFound page)) := by
  have start : page.fileOffset file.pageSize = .ok (page.number.toNat * file.pageSize) :=
    mulSized_of_lt (by omega)
  simp only [readPage, same, ne_eq, not_true_eq_false, ↓reduceIte, start, addSized_of_lt fits, bind,
    Except.bind]
  by_cases inside : file.Covers disk page
  · rw [if_pos inside, if_neg (Nat.not_lt.mpr inside)]
  · rw [if_neg inside, if_pos (Nat.lt_of_not_le inside)]

theorem Proper.readPage_eq (proper : file.Proper) (disk : Disk) (same : page.table = file.table) :
    file.readPage disk page =
      if file.Covers disk page then
        HeapPage.read page file.schema file.layout (disk.contents file.path)
          (page.number.toNat * file.pageSize)
      else .error (.error (.pageNotFound page)) :=
  readPage_eq_of_lt same (proper.offset_lt page) disk

theorem stored_congr (same : file.readPage later page = file.readPage disk page) :
    file.stored later page = file.stored disk page := by
  simp only [stored, same]

theorem stored_of_read (read : file.readPage disk page = .ok heap) :
    file.stored disk page = .ok heap.slots := by
  simp only [stored, read]

theorem Proper.stored_of_not_covers (proper : file.Proper) (same : page.table = file.table)
    (beyond : ¬file.Covers disk page) :
    file.stored disk page = .ok (List.replicate file.layout.numSlots none) := by
  simp only [stored, proper.readPage_eq disk same, if_neg beyond]

theorem readPage_congr (same : later.contents file.path = disk.contents file.path) :
    file.readPage later page = file.readPage disk page := by
  unfold readPage length
  rw [same]

theorem covers_congr (same : later.contents file.path = disk.contents file.path) :
    file.Covers later page ↔ file.Covers disk page := by
  simp only [Covers, length, same]

theorem covers_iff (positive : 0 < file.pageSize) :
    file.Covers disk page ↔ page.number.toNat < file.length disk / file.pageSize := by
  rw [Covers, ← Nat.succ_mul, ← Nat.le_div_iff_mul_le positive]
  exact Nat.succ_le_iff

theorem covers_of_lt (inside : page.number < file.numPages disk) : file.Covers disk page := by
  have below := UInt32.lt_iff_toNat_lt.mp inside
  rw [numPages, UInt32.toNat_ofNat'] at below
  have counted := Nat.lt_of_lt_of_le below (Nat.mod_le _ _)
  have positive : 0 < file.pageSize := Nat.pos_of_ne_zero fun zero => by simp [zero] at counted
  exact (covers_iff positive).mpr counted

theorem numPages_congr (same : later.contents file.path = disk.contents file.path) :
    file.numPages later = file.numPages disk := by
  rw [numPages, numPages, length, length, same]

theorem Proper.of_read (proper : file.Proper) (same : page.table = file.table)
    (read : file.readPage disk page = .ok heap) :
    file.Covers disk page ∧ heap.Sound ∧ heap.id = page ∧ heap.schema = file.schema ∧
      heap.layout = file.layout ∧ heap.dirtiedBy = none := by
  rw [proper.readPage_eq disk same] at read
  split at read
  · next inside => exact ⟨inside, HeapPage.sound_of_read proper.layout proper.width read⟩
  · cases read

theorem windows_apart (first : page.table = other.table) (apart : other ≠ page) (size : Nat) :
    other.number.toNat * size + size ≤ page.number.toNat * size ∨
      page.number.toNat * size + size ≤ other.number.toNat * size := by
  have numbers : other.number.toNat ≠ page.number.toNat := by
    intro same
    have equal := UInt32.toNat_inj.mp same
    cases page
    cases other
    simp_all
  have next : ∀ a b : Nat, a < b → a * size + size ≤ b * size := by
    intro a b less
    have step := Nat.mul_le_mul_right size (Nat.succ_le_of_lt less)
    rwa [Nat.succ_mul] at step
  rcases Nat.lt_or_gt_of_ne numbers with less | more
  · exact .inl (next _ _ less)
  · exact .inr (next _ _ more)

theorem Proper.readPage_of_agreeOutside (proper : file.Proper) (here : page.table = file.table)
    (there : other.table = file.table) (apart : other ≠ page)
    (outside : Bytes.AgreeOutside (later.contents file.path) (disk.contents file.path)
      (page.number.toNat * file.pageSize) file.pageSize)
    (extent : file.Covers later other ↔ file.Covers disk other) :
    file.readPage later other = file.readPage disk other := by
  rw [proper.readPage_eq later there, proper.readPage_eq disk there]
  by_cases inside : file.Covers disk other
  · rw [if_pos inside, if_pos (extent.mpr inside)]
    exact HeapPage.read_congr proper.layout proper.width
      (outside.agree (windows_apart (here.trans there.symm) apart file.pageSize))
  · rw [if_neg inside, if_neg (mt extent.mp inside)]

structure Writes (file : HeapFile) (disk : Disk) (page : HeapPage) (later : Disk) : Prop where
  elsewhere : ∀ path, path ≠ file.path → later.contents path = disk.contents path
  isFile : ∀ path, disk.IsFile path → later.IsFile path
  length : file.length later = file.length disk
  read : file.readPage later page.id = .ok (page.markDirty none)
  kept : ∀ other, other.table = file.table → other ≠ page.id →
    file.readPage later other = file.readPage disk other

theorem Writes.stored (writes : file.Writes disk heap later) :
    file.stored later heap.id = .ok heap.slots := by
  have saved := stored_of_read writes.read
  exact saved

theorem Writes.others (writes : file.Writes disk heap later) (same : page.table = file.table)
    (apart : page ≠ heap.id) : file.stored later page = file.stored disk page :=
  stored_congr (writes.kept page same apart)

theorem place_of_lt (page : PageId)
    (fits : page.number.toNat * file.pageSize + file.pageSize < wordBound) :
    file.place page =
      if page.number.toNat * file.pageSize + file.pageSize < Disk.offsetBound then
        .ok (page.number.toNat * file.pageSize)
      else .error (.error (.disk (.system SystemError.invalidArgument))) := by
  have start : page.fileOffset file.pageSize = .ok (page.number.toNat * file.pageSize) :=
    mulSized_of_lt (by omega)
  simp only [place, start, bind, Except.bind]
  rfl

theorem place_eq_ok {offset : Nat} (h : file.place page = .ok offset) :
    offset = page.number.toNat * file.pageSize := by
  unfold place at h
  cases start : page.fileOffset file.pageSize with
  | error failure => simp [start, bind, Except.bind] at h
  | ok first =>
    obtain ⟨_, rfl⟩ := mulSized_eq_ok.mp start
    simp only [start, bind, Except.bind] at h
    split at h
    · exact (Except.ok.inj h).symm
    · cases h

theorem writePage_eq_ok (sound : heap.Sound) (h : file.writePage disk heap = .ok later) :
    heap.id.table = file.table ∧ ∃ contents, later = disk.setContents file.path contents ∧
      heap.Puts (heap.id.number.toNat * file.pageSize) (disk.contents file.path) contents := by
  unfold writePage at h
  split at h
  · cases h
  · next here =>
    refine ⟨Decidable.not_not.mp here, ?_⟩
    cases placed : file.place heap.id with
    | error failure => simp [placed, bind, Except.bind] at h
    | ok offset =>
      obtain rfl := place_eq_ok placed
      obtain ⟨contents, put, puts⟩ := sound.exists_put (heap.id.number.toNat * file.pageSize)
        (disk.contents file.path)
      simp only [placed, put, bind, Except.bind, pure, Except.pure, Except.ok.injEq] at h
      exact ⟨contents, h.symm, puts⟩

theorem Proper.writes (proper : file.Proper) (sound : heap.Sound)
    (schema : heap.schema = file.schema) (layout : heap.layout = file.layout)
    (covers : file.Covers disk heap.id) (h : file.writePage disk heap = .ok later) :
    file.Writes disk heap later := by
  obtain ⟨here, contents, rfl, puts⟩ := writePage_eq_ok sound h
  have size : heap.layout.pageSize = file.pageSize := congrArg PageLayout.pageSize layout
  have now : (disk.setContents file.path contents).contents file.path = contents := by
    rw [Disk.contents_setContents, if_pos rfl]
  -- The page lies in the file already, so every page that does still does, and no other.
  have inside : heap.id.number.toNat * file.pageSize + file.pageSize ≤
      (disk.contents file.path).length := covers
  have long : file.length (disk.setContents file.path contents) = file.length disk := by
    simp only [HeapFile.length, now, puts.length, size]
    omega
  have extent : ∀ other, file.Covers (disk.setContents file.path contents) other ↔
      file.Covers disk other := by
    intro other
    unfold Covers
    rw [long]
  refine ⟨fun path apart => ?_, fun path => .setContents, long, ?_, fun other there apart => ?_⟩
  · rw [Disk.contents_setContents, if_neg apart]
  · rw [proper.readPage_eq _ here, if_pos ((extent heap.id).mpr covers), now, ← schema, ← layout]
    exact puts.reads contents fun _ _ _ => rfl
  · refine proper.readPage_of_agreeOutside here there apart ?_ (extent other)
    have window := puts.outside
    rw [size] at window
    rwa [now]

theorem writePage_agreeOutside (sound : heap.Sound) (layout : heap.layout = file.layout)
    (h : file.writePage disk heap = .ok later) :
    Bytes.AgreeOutside (later.contents file.path) (disk.contents file.path)
      (heap.id.number.toNat * file.pageSize) file.pageSize := by
  obtain ⟨_, contents, rfl, puts⟩ := writePage_eq_ok sound h
  have size : heap.layout.pageSize = file.pageSize := congrArg PageLayout.pageSize layout
  have window := puts.outside
  rw [size] at window
  rwa [Disk.contents_setContents, if_pos rfl]

theorem isOk_writePage (sound : heap.Sound) (here : heap.id.table = file.table) (disk : Disk) :
    (file.writePage disk heap).isOk = (file.place heap.id).isOk := by
  unfold writePage
  rw [if_neg (not_not.mpr here)]
  cases file.place heap.id with
  | error failure => rfl
  | ok offset =>
    obtain ⟨contents, put, _⟩ := sound.exists_put offset (disk.contents file.path)
    simp only [put, bind, Except.bind]
    rfl

def HasNumber (file : HeapFile) (disk : Disk) : Prop :=
  file.length disk / file.pageSize < 2 ^ 32 - 1

instance (file : HeapFile) (disk : Disk) : Decidable (file.HasNumber disk) :=
  inferInstanceAs (Decidable (_ < _))

def lastPage (file : HeapFile) (disk : Disk) : PageId := ⟨file.table, file.numPages disk⟩

structure Appends (file : HeapFile) (disk later : Disk) : Prop where
  elsewhere : ∀ path, path ≠ file.path → later.contents path = disk.contents path
  isFile : ∀ path, disk.IsFile path → later.IsFile path
  length : file.length disk ≤ file.length later
  beyond : ¬file.Covers disk (file.lastPage disk)
  blank : file.readPage later (file.lastPage disk) =
    .ok (.blank (file.lastPage disk) file.schema file.layout)
  kept : ∀ page, page.table = file.table → page ≠ file.lastPage disk →
    file.readPage later page = file.readPage disk page

theorem Appends.covers (appends : file.Appends disk later) (inside : file.Covers disk page) :
    file.Covers later page := Nat.le_trans inside appends.length

theorem Appends.stored (appends : file.Appends disk later) (proper : file.Proper)
    (same : page.table = file.table) : file.stored later page = file.stored disk page := by
  by_cases last : page = file.lastPage disk
  · subst last
    rw [stored_of_read appends.blank, proper.stored_of_not_covers same appends.beyond]
    rfl
  · exact stored_congr (appends.kept page same last)

theorem numPages_toNat (few : file.length disk / file.pageSize < 2 ^ 32) :
    (file.numPages disk).toNat = file.length disk / file.pageSize := by
  rw [numPages, UInt32.toNat_ofNat', Nat.mod_eq_of_lt few]

theorem appendBlank_eq_ok (h : file.appendBlank disk = .ok (later, page)) :
    page = ⟨file.table, file.numPages disk⟩ ∧ later = disk.setContents file.path
      ((disk.contents file.path).clear ((file.numPages disk).toNat * file.pageSize)
        file.pageSize) := by
  unfold appendBlank at h
  cases placed : file.place ⟨file.table, file.numPages disk⟩ with
  | error failure => simp [placed, bind, Except.bind] at h
  | ok offset =>
    obtain rfl := place_eq_ok placed
    simp only [placed, bind, Except.bind, pure, Except.pure, Except.ok.injEq, Prod.mk.injEq] at h
    exact ⟨h.2.symm, h.1.symm⟩

theorem contents_appendBlank {path : String} (h : file.appendBlank disk = .ok (later, page)) :
    later.contents path =
      if path = file.path then (disk.contents file.path).clear
        ((file.numPages disk).toNat * file.pageSize) file.pageSize
      else disk.contents path := by
  rw [(appendBlank_eq_ok h).2, Disk.contents_setContents]

theorem readPage_of_clear (laid : file.layout.Laid) (same : page.table = file.table)
    (fits : page.number.toNat * file.pageSize + file.pageSize < wordBound)
    (covers : file.Covers later page)
    (cleared : later.contents file.path = (disk.contents file.path).clear
      (page.number.toNat * file.pageSize) file.pageSize) :
    file.readPage later page = .ok (.blank page file.schema file.layout) := by
  rw [readPage_eq_of_lt same fits, if_pos covers, cleared]
  refine HeapPage.read_of_zeros laid fun offset low high => ?_
  rw [Bytes.byte_clear, if_pos ⟨low, high⟩]

theorem length_appendBlank (positive : 0 < file.pageSize)
    (few : file.length disk / file.pageSize < 2 ^ 32)
    (h : file.appendBlank disk = .ok (later, page)) :
    file.length later = file.length disk / file.pageSize * file.pageSize + file.pageSize := by
  have below := Nat.lt_div_mul_add (a := file.length disk) positive
  rw [HeapFile.length, contents_appendBlank h, if_pos rfl, numPages_toNat few, Bytes.length_clear,
    if_neg (Nat.ne_of_gt positive)]
  exact max_eq_right (Nat.le_of_lt below)

theorem numPages_appendBlank (positive : 0 < file.pageSize)
    (few : file.length disk / file.pageSize < 2 ^ 32 - 1)
    (h : file.appendBlank disk = .ok (later, page)) :
    (file.numPages later).toNat = (file.numPages disk).toNat + 1 := by
  have more : file.length later / file.pageSize = file.length disk / file.pageSize + 1 := by
    rw [length_appendBlank positive (Nat.lt_of_lt_pred few) h, ← Nat.succ_mul,
      Nat.mul_div_cancel _ positive]
  rw [numPages_toNat (Nat.lt_of_lt_pred few), numPages_toNat (more ▸ Nat.add_lt_of_lt_sub few), more]

theorem Proper.appends (proper : file.Proper) (few : file.length disk / file.pageSize < 2 ^ 32)
    (h : file.appendBlank disk = .ok (later, page)) :
    file.Appends disk later ∧ page = file.lastPage disk := by
  have positive := proper.pageSize_pos
  have count := numPages_toNat few
  have whole := Nat.div_mul_le_self (file.length disk) file.pageSize
  have below := Nat.lt_div_mul_add (a := file.length disk) positive
  obtain ⟨same, cleared⟩ := appendBlank_eq_ok h
  have last : file.lastPage disk = page := same.symm
  have here : page.table = file.table := congrArg PageId.table same
  have number : page.number.toNat = file.length disk / file.pageSize := by rw [same, count]
  rw [← number] at whole below
  have now : later.contents file.path = (disk.contents file.path).clear
      (page.number.toNat * file.pageSize) file.pageSize := by
    rw [contents_appendBlank h, if_pos rfl, count, number]
  have long : file.length later = page.number.toNat * file.pageSize + file.pageSize := by
    rw [number]
    exact length_appendBlank positive few h
  have beyond : ¬file.Covers disk page := Nat.not_le.mpr below
  have inside : file.Covers later page := Nat.le_of_eq long.symm
  refine ⟨⟨fun path apart => ?_, fun path present => ?_, ?_, last ▸ beyond, ?_,
    fun other there apart => ?_⟩, same⟩
  · rw [contents_appendBlank h, if_neg apart]
  · exact cleared ▸ present.setContents
  · exact long ▸ Nat.le_of_lt below
  · exact last ▸ readPage_of_clear proper.layout.laid here (proper.offset_lt page) inside now
  · have separate := windows_apart (here.trans there.symm) (last ▸ apart) file.pageSize
    refine proper.readPage_of_agreeOutside here there (last ▸ apart) ?_ ?_
    · rw [now]
      exact Bytes.clear_agreeOutside _ _ _
    · unfold Covers
      omega

end HeapFile
end PagedTables
