import PagedTables.Page.Basic

/-! A cached page with the count of its users and its latch. -/

namespace PagedTables

inductive Latch
  | shared (readers : Nat)
  | exclusive
deriving DecidableEq

structure Frame where
  id : PageId
  page : HeapPage
  pins : UInt32
  latch : Latch
deriving DecidableEq

namespace Frame

def load (page : HeapPage) : Frame := ⟨page.id, page, 0, .shared 0⟩

def isPinned (frame : Frame) : Bool := frame.pins ≠ 0

/-- Adds a user and tells their number. The count has wrapped when the fault is noticed. -/
def pin (frame : Frame) : Frame × Except Failure UInt32 :=
  let pins := frame.pins + 1
  ({ frame with pins }, if pins = 0 then .error (.fault .addOverflow) else .ok pins)

def unpin (frame : Frame) : Frame × Except Failure UInt32 :=
  let pins := frame.pins - 1
  ({ frame with pins }, if frame.pins = 0 then .error (.fault .pinUnderflow) else .ok pins)

def latchShared (frame : Frame) : Option Frame :=
  match frame.latch with
  | .shared readers => some { frame with latch := .shared (readers + 1) }
  | .exclusive => none

def latchExclusive (frame : Frame) : Option Frame :=
  if frame.latch = .shared 0 then some { frame with latch := .exclusive } else none

def unlatch (frame : Frame) : Frame :=
  match frame.latch with
  | .shared readers => { frame with latch := .shared (readers - 1) }
  | .exclusive => { frame with latch := .shared 0 }

def unlatchAll (frame : Frame) : Frame := { frame with latch := .shared 0 }

/-- Sets the dirty mark under a writer's latch: one that is held, or one taken for it. -/
def mark (frame : Frame) (owner : Option TransactionId) : Option Frame :=
  match frame.latch with
  | .shared (_ + 1) => none
  | _ => some { frame with page := frame.page.markDirty owner }

/-- Whether no user's latch keeps the page from being written to its file: it is latched to see whether
it is dirty, and if it is, for its mark. -/
def allowsFlush (frame : Frame) : Bool :=
  match frame.latch with
  | .shared readers => readers = 0 || !frame.page.isDirty
  | .exclusive => false

/-- Whether the page may leave the cache without being written: nobody uses it or writes to it, and
it has no change that its file lacks. -/
def isEvictable (frame : Frame) : Bool :=
  !frame.isPinned && frame.latch ≠ .exclusive && !frame.page.isDirty

end Frame
end PagedTables
