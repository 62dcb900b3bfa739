import PagedTables.Arithmetic

/-! Where the slots of a page lie. A page holds an occupancy bitmap, then equal slots, then padding;
each slot costs its bytes and one bit of the bitmap. -/

namespace PagedTables

structure PageLayout where
  pageSize : Nat
  tupleWidth : Nat
  numSlots : Nat
  headerLength : Nat
deriving DecidableEq

namespace PageLayout

def slotsFor (pageSize tupleWidth : Nat) : Except Failure Nat :=
  if tupleWidth = 0 then .ok 0
  else do
    let bits ← mulSized pageSize 8
    let width ← mulSized tupleWidth 8
    let cost ← addSized width 1
    return bits / cost

def forSizes (pageSize tupleWidth : Nat) : Except Failure PageLayout := do
  let numSlots ← slotsFor pageSize tupleWidth
  if numSlots = 0 then .error (.error (.tupleTooWide tupleWidth pageSize))
  else .ok { pageSize, tupleWidth, numSlots, headerLength := (numSlots + 7) / 8 }

/-- Where a slot begins, whether or not the page has as many slots. -/
def slotStart (layout : PageLayout) (slot : Nat) : Except Failure Nat := do
  let skipped ← mulSized slot layout.tupleWidth
  addSized layout.headerLength skipped

def slotRange (layout : PageLayout) (slot : Nat) : Except Failure (Nat × Nat) := do
  let start ← layout.slotStart slot
  let stop ← addSized start layout.tupleWidth
  return (start, stop)

end PageLayout
end PagedTables
