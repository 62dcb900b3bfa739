import PagedTables.Page.Layout
import PagedTables.Schema.Conformance

/-! Heap pages: one place per slot for a tuple, and the mark of the transaction whose changes are not
yet in the file. -/

namespace PagedTables

structure HeapPage where
  id : PageId
  schema : Schema
  layout : PageLayout
  slots : List (Option Tuple)
  dirtiedBy : Option TransactionId
deriving DecidableEq

namespace HeapPage

def blank (id : PageId) (schema : Schema) (layout : PageLayout) : HeapPage :=
  { id, schema, layout, slots := List.replicate layout.numSlots none, dirtiedBy := none }

/-- The most slots that a page can have in memory, where each takes 48 of less than 2 ^ 63 bytes. -/
def slotLimit : Nat := (1 <<< 63 - 1) / 48

def allocate (id : PageId) (schema : Schema) (layout : PageLayout) : Except Failure HeapPage :=
  if layout.numSlots ≤ slotLimit then .ok (blank id schema layout)
  else .error (.fault .tooManySlots)

def freeCount (page : HeapPage) : Nat := page.slots.countP Option.isNone

def isUsed (page : HeapPage) (slot : Nat) : Bool :=
  match page.slots[slot]? with
  | some (some _) => true
  | _ => false

def tuples (page : HeapPage) : List Tuple := page.slots.filterMap fun slot => slot

def firstFree (page : HeapPage) : Option Nat := page.slots.findIdx? Option.isNone

def isDirty (page : HeapPage) : Bool := page.dirtiedBy.isSome

def markDirty (page : HeapPage) (owner : Option TransactionId) : HeapPage :=
  { page with dirtiedBy := owner }

def insert (page : HeapPage) (tuple : Tuple) : Except Failure (HeapPage × RecordId) := do
  page.schema.validate tuple
  match page.firstFree with
  | none => .error (.error (.pageFull page.id))
  | some slot =>
    let record : RecordId := ⟨page.id, slot⟩
    .ok ({ page with slots := page.slots.set slot (some (tuple.setRecordId (some record))) },
      record)

/-- Frees the slot that a tuple's record id names; only the record id is looked at. -/
def delete (page : HeapPage) (tuple : Tuple) : Except Failure HeapPage :=
  match tuple.recordId with
  | none => .error (.error (.tupleNotFound (.unplaced tuple)))
  | some record =>
    if record.page = page.id then
      if page.isUsed record.slot then
        .ok { page with slots := page.slots.set record.slot none }
      else .error (.error (.tupleNotFound (.freeSlot record)))
    else .error (.error (.tupleNotFound (.otherPage record page.id)))

end HeapPage
end PagedTables
