import PagedTables.Page.Basic
import PagedTables.Page.Bitmap
import PagedTables.Schema.Encoding

/-! The bytes of a page and back: the bitmap, then the slots, then padding. Free slots and padding are
written as zeros and not looked at when read. A page is read and written in place, wherever it begins
in a file. -/

namespace PagedTables.HeapPage

def markUsed (slot : Nat) : List (Option Tuple) → Array UInt8 → Except Failure (Array UInt8)
  | [], header => .ok header
  | none :: slots, header => markUsed (slot + 1) slots header
  | some _ :: slots, header => do
    let header ← Bitmap.set header slot true
    markUsed (slot + 1) slots header

def putSlots (schema : Schema) (layout : PageLayout) (start slot : Nat) :
    List (Option Tuple) → Bytes → Except Failure Bytes
  | [], out => .ok out
  | none :: slots, out => putSlots schema layout start (slot + 1) slots out
  | some tuple :: slots, out => do
    let first ← layout.slotStart slot
    let out ← schema.encode tuple (start + first) out
    putSlots schema layout start (slot + 1) slots out

def put (page : HeapPage) (start : Nat) (out : Bytes) : Except Failure Bytes := do
  let layout := page.layout
  let header ← markUsed 0 page.slots (Array.replicate layout.headerLength 0)
  let out := (out.clear start layout.pageSize).write start header.toList
  putSlots page.schema layout start 0 page.slots out

def toBytes (page : HeapPage) : Except Failure Bytes :=
  page.put 0 (.zeros page.layout.pageSize)

def readSlot (id : PageId) (schema : Schema) (layout : PageLayout) (header : Array UInt8)
    (data : Bytes) (start slot : Nat) : Except Failure (Option Tuple) := do
  let used ← Bitmap.get header slot
  if used then
    let first ← layout.slotStart slot
    match schema.decode data (start + first) with
    | .ok tuple => return some (tuple.setRecordId (some ⟨id, slot⟩))
    | .error fault => .error (.error (.corruptPage id (.badSlot slot fault)))
  else return none

def read (id : PageId) (schema : Schema) (layout : PageLayout) (data : Bytes) (start : Nat) :
    Except Failure HeapPage := do
  let header := (data.read start layout.headerLength).toArray
  let slots ← (List.range layout.numSlots).mapM (readSlot id schema layout header data start)
  return { id, schema, layout, slots, dirtiedBy := none }

def ofBytes (id : PageId) (schema : Schema) (layout : PageLayout) (data : Bytes) :
    Except Failure HeapPage :=
  if data.length = layout.pageSize then read id schema layout data 0
  else .error (.error (.corruptPage id (.wrongLength layout.pageSize data.length)))

end PagedTables.HeapPage
