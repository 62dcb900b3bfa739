import PagedTables.Proofs.Storage.File

/-! A page is put into a file by one write, of bytes that depend on nothing but the page. So pages that
lie apart can be written in any order. -/

namespace PagedTables

section Insert

variable {α β : Type} [Ord α] [Std.TransOrd α] [Std.LawfulEqOrd α] (map : Std.ExtTreeMap α β)
  {key other : α}

theorem insert_comm (apart : key ≠ other) (value value' : β) :
    (map.insert key value).insert other value' = (map.insert other value').insert key value := by
  refine Std.ExtTreeMap.ext_getElem? fun place => ?_
  rw [Std.ExtTreeMap.getElem?_insert, Std.ExtTreeMap.getElem?_insert,
    Std.ExtTreeMap.getElem?_insert, Std.ExtTreeMap.getElem?_insert]
  by_cases here : compare key place = .eq
  · have elsewhere : ¬compare other place = .eq := fun there =>
      apart ((Std.LawfulEqOrd.eq_of_compare here).trans (Std.LawfulEqOrd.eq_of_compare there).symm)
    rw [if_neg elsewhere, if_pos here, if_pos here]
  · rw [if_neg here, if_neg here]

theorem insert_insert (value value' : β) :
    (map.insert key value).insert key value' = map.insert key value' := by
  refine Std.ExtTreeMap.ext_getElem? fun place => ?_
  simp only [Std.ExtTreeMap.getElem?_insert]
  split <;> rfl

end Insert

namespace Bytes

variable {bytes : Bytes} {start other i length : Nat} {window window' inner : List UInt8}

theorem ext {a b : Bytes} (length : a.length = b.length)
    (nonzero : ∀ offset : Nat, a.nonzero[offset]? = b.nonzero[offset]?) : a = b := by
  cases a
  cases b
  exact congr (congrArg Bytes.mk length) (Std.ExtTreeMap.ext_getElem? nonzero)

theorem nonzero_write (bytes : Bytes) (start offset : Nat) (window : List UInt8) :
    (bytes.write start window).nonzero[offset]? =
      if start ≤ offset ∧ offset < start + window.length then
        window[offset - start]?.filter (· ≠ 0)
      else bytes.nonzero[offset]? := by
  have kept := getElem?_put bytes.nonzero start offset window
  have same : (bytes.write start window).nonzero = put bytes.nonzero start window := by
    unfold write
    split
    · next none => rw [none]; rfl
    · rfl
  rw [same, kept]
  by_cases inside : start ≤ offset ∧ offset < start + window.length
  · rw [dif_pos (by omega), if_pos inside, List.getElem?_eq_getElem (by omega)]
    by_cases zero : window[offset - start] = 0 <;> simp [Option.filter, zero]
  · rw [dif_neg (by omega), if_neg inside]

theorem clear_eq_write (bytes : Bytes) (start length : Nat) :
    bytes.clear start length = bytes.write start (List.replicate length 0) := by
  refine ext ?_ fun offset => ?_
  · rw [length_clear, length_write]
    simp
  · rw [nonzero_write, List.length_replicate]
    unfold clear
    split
    · next none => rw [if_neg (by omega)]
    · rw [getElem?_outside]
      by_cases inside : start ≤ offset ∧ offset < start + length
      · rw [if_pos inside, if_pos inside, List.getElem?_replicate, if_pos (by omega)]
        rfl
      · rw [if_neg inside, if_neg inside]

theorem write_write (bytes : Bytes) (start : Nat) (inside : i + inner.length ≤ window.length) :
    (bytes.write start window).write (start + i) inner =
      bytes.write start (window.take i ++ inner ++ window.drop (i + inner.length)) := by
  have whole : (window.take i ++ inner ++ window.drop (i + inner.length)).length = window.length := by
    simp only [List.length_append, List.length_take, List.length_drop]
    omega
  refine ext ?_ fun offset => ?_
  · simp only [length_write, ← List.length_eq_zero_iff, whole]
    split <;> split <;> omega
  · simp only [nonzero_write, whole, List.getElem?_append, List.length_append, List.length_take,
      List.getElem?_take, List.getElem?_drop, Nat.min_eq_left (Nat.le_of_add_right_le inside)]
    by_cases within : start + i ≤ offset ∧ offset < start + i + inner.length
    · rw [if_pos within, if_pos (by omega), if_pos (by omega), if_neg (by omega), Nat.sub_sub]
    · rw [if_neg within]
      by_cases outer : start ≤ offset ∧ offset < start + window.length
      · rw [if_pos outer, if_pos outer]
        split
        · have low : offset - start < i := by omega
          simp only [low, if_true]
        · rw [show i + inner.length + (offset - start - (i + inner.length)) = offset - start by omega]
      · rw [if_neg outer, if_neg outer]

theorem write_comm (bytes : Bytes)
    (apart : start + window.length ≤ other ∨ other + window'.length ≤ start) :
    (bytes.write start window).write other window' =
      (bytes.write other window').write start window := by
  refine ext ?_ fun offset => ?_
  · simp only [length_write]
    split <;> split <;> omega
  · simp only [nonzero_write]
    by_cases first : start ≤ offset ∧ offset < start + window.length
    · have second : ¬(other ≤ offset ∧ offset < other + window'.length) := by omega
      rw [if_pos first, if_neg second, if_pos first]
    · rw [if_neg first, if_neg first]

/-- Where a window was just written, a change comes to having written another window. -/
def Repaints (start size : Nat) (change : Bytes → Except Failure Bytes) : Prop :=
  ∀ window : List UInt8, window.length = size → ∃ window' : List UInt8, window'.length = size ∧
    ∀ out : Bytes, change (out.write start window) = .ok (out.write start window')

theorem repaints_write (inside : i + inner.length ≤ length) :
    Repaints start length fun out => .ok (out.write (start + i) inner) := by
  intro window size
  refine ⟨window.take i ++ inner ++ window.drop (i + inner.length), ?_, fun out => ?_⟩
  · simp only [List.length_append, List.length_take, List.length_drop]
    omega
  · exact congrArg Except.ok (write_write out start (size ▸ inside))

theorem Repaints.bind {change later : Bytes → Except Failure Bytes}
    (first : Repaints start length change) (second : Repaints start length later) :
    Repaints start length fun out => change out >>= later := by
  intro window size
  obtain ⟨between, size, changed⟩ := first window size
  obtain ⟨window', size, changed'⟩ := second between size
  exact ⟨window', size, fun out => by simp only [changed, changed', Except.bind, Bind.bind]⟩

end Bytes

namespace Schema

theorem repaints_encodeFields {types : List FieldType} {fields : List Field}
    (conforms : Conforms types fields) {start length i : Nat} (inside : i + sizes types ≤ length) :
    Bytes.Repaints start length (encodeFields types fields (start + i)) := by
  unfold Conforms at conforms
  induction conforms generalizing i with
  | nil => exact fun window size => ⟨window, size, fun out => rfl⟩
  | @cons type field types fields admitted _ ih =>
    rw [sizes] at inside
    obtain ⟨cell, stored, fits, _⟩ := Field.exists_cell (FieldType.holds_of_admits admitted)
    have blank : Bytes.Repaints start length
        fun out => .ok (out.write (start + i) (List.replicate type.size 0)) :=
      Bytes.repaints_write (by rw [List.length_replicate]; omega)
    have filled : Bytes.Repaints start length fun out => .ok (out.write (start + i) cell) :=
      Bytes.repaints_write (by omega)
    have rest : Bytes.Repaints start length (encodeFields types fields (start + (i + type.size))) :=
      ih (by omega)
    have whole := (blank.bind filled).bind rest
    simpa only [encodeFields, stored, Bytes.clear_eq_write, Nat.add_assoc, bind, Except.bind] using whole

end Schema

namespace HeapPage

theorem repaints_putSlots {schema : Schema} {layout : PageLayout} (valid : layout.Valid)
    (width : layout.tupleWidth = schema.size) (slots : List (Option Tuple)) (slot : Nat)
    (room : slot + slots.length ≤ layout.numSlots)
    (shaped : ∀ tuple, some tuple ∈ slots → schema.validate tuple = .ok ()) (start : Nat) :
    Bytes.Repaints start layout.pageSize (putSlots schema layout start slot slots) := by
  induction slots generalizing slot with
  | nil => exact fun window size => ⟨window, size, fun out => rfl⟩
  | cons entry slots ih =>
    rw [List.length_cons] at room
    have rest := ih (slot + 1) (by omega)
      fun tuple member => shaped tuple (List.mem_cons_of_mem _ member)
    cases entry with
    | none => exact rest
    | some tuple =>
      have inside : slot < layout.numSlots := by omega
      have within : layout.headerLength + slot * layout.tupleWidth + Schema.sizes schema.types ≤
          layout.pageSize := width ▸ valid.slot_within inside
      have conforms := Schema.validate_eq_ok_iff.mp (shaped tuple List.mem_cons_self)
      have whole : Bytes.Repaints start layout.pageSize _ :=
        (Schema.repaints_encodeFields conforms within).bind rest
      simpa only [putSlots, valid.slotStart_eq inside, Schema.encode, bind, Except.bind] using whole

theorem Sound.exists_image {page : HeapPage} (sound : page.Sound) (start : Nat) :
    ∃ image : List UInt8, image.length = page.layout.pageSize ∧
      ∀ out : Bytes, page.put start out = .ok (out.write start image) := by
  have room := sound.layout.header_room
  have within := sound.layout.within
  have shaped : ∀ tuple, some tuple ∈ page.slots → page.schema.validate tuple = .ok () := by
    intro tuple member
    obtain ⟨slot, found⟩ := List.mem_iff_getElem?.mp member
    exact (sound.stored slot tuple found).1
  obtain ⟨header, marked, headerSize, _⟩ := exists_markUsed page.slots 0
    (Array.replicate page.layout.headerLength 0) (by simp [sound.count]; omega)
  rw [Array.size_replicate] at headerSize
  have headed : Bytes.Repaints start page.layout.pageSize
      fun out => .ok (out.write (start + 0) header.toList) :=
    Bytes.repaints_write (by rw [Array.length_toList, headerSize]; omega)
  have slots := repaints_putSlots sound.layout sound.width page.slots 0
    (by rw [Nat.zero_add, sound.count]) shaped start
  obtain ⟨image, size, put⟩ := headed.bind slots (List.replicate page.layout.pageSize 0)
    List.length_replicate
  refine ⟨image, size, fun out => ?_⟩
  rw [← put out]
  simp only [HeapPage.put, marked, Bytes.clear_eq_write, Nat.add_zero, bind, Except.bind]

end HeapPage

namespace Disk

def rewrite (disk : Disk) (path : String) (start : Nat) (window : List UInt8) : Disk :=
  disk.setContents path ((disk.contents path).write start window)

theorem rewrite_comm (disk : Disk) {path path' : String} {start start' : Nat}
    {window window' : List UInt8}
    (apart : path = path' → start + window.length ≤ start' ∨ start' + window'.length ≤ start) :
    (disk.rewrite path start window).rewrite path' start' window' =
      (disk.rewrite path' start' window').rewrite path start window := by
  simp only [rewrite, contents_setContents]
  by_cases same : path = path'
  · subst same
    simp only [if_true, Bytes.write_comm _ (apart rfl), setContents, insert_insert]
  · rw [if_neg same, if_neg (Ne.symm same)]
    exact congrArg Disk.mk (insert_comm disk.entries same _ _)

end Disk

theorem HeapFile.exists_image {file : HeapFile} {heap : HeapPage} (sound : heap.Sound)
    (layout : heap.layout = file.layout) {disk later : Disk}
    (writes : file.writePage disk heap = .ok later) :
    ∃ image : List UInt8, image.length = file.pageSize ∧ ∀ disk : Disk, file.writePage disk heap =
      .ok (disk.rewrite file.path (heap.id.number.toNat * file.pageSize) image) := by
  obtain ⟨image, size, put⟩ := sound.exists_image (heap.id.number.toNat * file.pageSize)
  refine ⟨image, size.trans (congrArg PageLayout.pageSize layout), fun disk => ?_⟩
  unfold writePage at writes ⊢
  split at writes
  · cases writes
  · next here =>
    rw [if_neg here]
    cases placed : file.place heap.id with
    | error failure => simp [placed, bind, Except.bind] at writes
    | ok offset =>
      obtain rfl := place_eq_ok placed
      simp only [put, bind, Except.bind]
      rfl

end PagedTables
