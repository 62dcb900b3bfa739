import PagedTables.Proofs.Codec.Page

/-! Edits of a page's slots, and what inserting and deleting come to in terms of them. -/

namespace PagedTables

abbrev Slots := List (Option Tuple)

inductive Edit
  | insert (tuple : Tuple)
  | delete (slot : Nat)
deriving DecidableEq

namespace Edit

/-- An inserted tuple goes in the first free slot, under the record id of that slot. -/
def apply (page : PageId) (slots : Slots) : Edit → Slots
  | insert tuple =>
    match slots.findIdx? Option.isNone with
    | some slot => slots.set slot (some (tuple.setRecordId (some ⟨page, slot⟩)))
    | none => slots
  | delete slot => slots.set slot none

def replay (page : PageId) (edits : List Edit) (slots : Slots) : Slots :=
  edits.foldl (apply page) slots

theorem replay_append (page : PageId) (first second : List Edit) :
    replay page (first ++ second) = replay page second ∘ replay page first := by
  funext slots
  exact List.foldl_append

theorem map_replay_append {ε : Type} (page : PageId) (first second : List Edit)
    (slots : Except ε Slots) :
    slots.map (replay page (first ++ second)) =
      (slots.map (replay page first)).map (replay page second) := by
  rw [replay_append]
  cases slots <;> rfl

@[simp]
theorem map_replay_nil {ε : Type} (page : PageId) (slots : Except ε Slots) :
    slots.map (replay page []) = slots := by
  cases slots <;> rfl

end Edit

namespace HeapPage

def edited (page : HeapPage) (edit : Edit) : HeapPage :=
  { page with slots := edit.apply page.id page.slots }

theorem insert_eq {page result : HeapPage} {tuple : Tuple} {record : RecordId}
    (h : page.insert tuple = .ok (result, record)) :
    page.schema.validate tuple = .ok () ∧ result = page.edited (.insert tuple) := by
  unfold insert at h
  cases checked : page.schema.validate tuple with
  | error failure => simp [checked, bind, Except.bind] at h
  | ok valid =>
    refine ⟨rfl, ?_⟩
    simp only [checked, bind, Except.bind] at h
    cases free : page.firstFree with
    | none => simp [free] at h
    | some slot =>
      simp only [free, Except.ok.injEq, Prod.mk.injEq] at h
      unfold firstFree at free
      rw [← h.1, edited, Edit.apply, free]

theorem delete_eq {page result : HeapPage} {tuple : Tuple}
    (h : page.delete tuple = .ok result) :
    ∃ record, tuple.recordId = some record ∧ record.page = page.id ∧
      result = page.edited (.delete record.slot) := by
  unfold delete at h
  split at h
  · cases h
  · next record placed =>
    split at h
    · next here =>
      split at h
      · cases h
        exact ⟨record, placed, here, rfl⟩
      · cases h
    · cases h

variable {id : PageId} {schema : Schema} {layout : PageLayout} {page result : HeapPage}
  {tuple : Tuple} {record : RecordId}

theorem Slotted.set (slotted : page.Slotted id schema layout) {slot : Nat} {entry : Option Tuple}
    (fits : ∀ tuple, entry = some tuple →
      schema.validate tuple = .ok () ∧ tuple.recordId = some ⟨id, slot⟩) :
    ({ page with slots := page.slots.set slot entry } : HeapPage).Slotted id schema layout where
  count := by
    simp only [List.length_set]
    exact slotted.count
  stored := by
    intro other tuple found
    rw [List.getElem?_set] at found
    split at found
    · next same =>
      subst same
      split at found
      · exact fits tuple (Option.some.inj found)
      · cases found
    · exact slotted.stored other tuple found
  id := slotted.id
  schema := slotted.schema
  layout := slotted.layout

theorem Slotted.markDirty (slotted : page.Slotted id schema layout)
    (owner : Option TransactionId) : (page.markDirty owner).Slotted id schema layout :=
  ⟨slotted.count, slotted.stored, slotted.id, slotted.schema, slotted.layout⟩

theorem Slotted.insert (slotted : page.Slotted id schema layout)
    (h : page.insert tuple = .ok (result, record)) : result.Slotted id schema layout := by
  obtain ⟨valid, rfl⟩ := insert_eq h
  cases free : page.slots.findIdx? Option.isNone with
  | none => simpa only [edited, Edit.apply, free] using slotted
  | some slot =>
    simp only [edited, Edit.apply, free]
    refine slotted.set fun stored entry => ?_
    cases entry
    exact ⟨slotted.schema ▸ valid, slotted.id ▸ rfl⟩

theorem Slotted.delete (slotted : page.Slotted id schema layout)
    (h : page.delete tuple = .ok result) : result.Slotted id schema layout := by
  obtain ⟨record, _, _, rfl⟩ := delete_eq h
  exact slotted.set fun stored entry => by cases entry

theorem Sound.markDirty (sound : page.Sound) (owner : Option TransactionId) :
    (page.markDirty owner).Sound :=
  (sound.slotted.markDirty owner).sound sound.layout sound.width

theorem Sound.insert (sound : page.Sound) (h : page.insert tuple = .ok (result, record)) :
    result.Sound := (sound.slotted.insert h).sound sound.layout sound.width

theorem Sound.delete (sound : page.Sound) (h : page.delete tuple = .ok result) : result.Sound :=
  (sound.slotted.delete h).sound sound.layout sound.width

end HeapPage
end PagedTables
