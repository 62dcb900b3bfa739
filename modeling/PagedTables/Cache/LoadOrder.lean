import PagedTables.Lock.Table

/-! The order in which cached pages were loaded, and the choice of a page to leave the cache: the
oldest one that may go. -/

namespace PagedTables

universe u

structure LoadOrder where
  /-- The oldest load comes first. -/
  queue : List PageId
  tracked : PageSet
deriving DecidableEq

structure VictimSearch where
  asked : List PageId
  victim : Option PageId
deriving DecidableEq

namespace LoadOrder

def empty : LoadOrder := ⟨[], ∅⟩

def size (order : LoadOrder) : Nat := order.tracked.size

/-- A page that is tracked already keeps its place. -/
def recordLoad (order : LoadOrder) (page : PageId) : LoadOrder :=
  if order.tracked.contains page then order
  else { queue := order.queue ++ [page], tracked := order.tracked.insert page }

/-- Asks about the tracked pages in line, one after another, until one may go. Being asked may change
what the condition remembers, and so what it says of the pages after. -/
def search {Memory : Type u} (tracked : PageSet) (mayGo : PageId → Memory → Bool × Memory) :
    List PageId → Memory → Option PageId × Memory
  | [], memory => (none, memory)
  | page :: pages, memory =>
    if tracked.contains page then
      match mayGo page memory with
      | (true, memory) => (some page, memory)
      | (false, memory) => search tracked mayGo pages memory
    else search tracked mayGo pages memory

def evictAsking {Memory : Type u} (order : LoadOrder) (mayGo : PageId → Memory → Bool × Memory)
    (memory : Memory) : LoadOrder × Option PageId × Memory :=
  match search order.tracked mayGo order.queue memory with
  | (none, memory) => (order, none, memory)
  | (some page, memory) =>
    ({ queue := order.queue.erase page, tracked := order.tracked.erase page }, some page, memory)

/-- A condition that stays the same and remembers the pages that it was asked about, the last first. -/
def recording (evictable : PageId → Bool) (page : PageId) (asked : List PageId) :
    Bool × List PageId :=
  (evictable page, page :: asked)

def evict (order : LoadOrder) (evictable : PageId → Bool) : LoadOrder × VictimSearch :=
  match order.evictAsking (recording evictable) [] with
  | (order, victim, asked) => (order, ⟨asked.reverse, victim⟩)

def remove (order : LoadOrder) (page : PageId) : LoadOrder :=
  if order.tracked.contains page then
    { queue := order.queue.filter (· ≠ page), tracked := order.tracked.erase page }
  else order

end LoadOrder
end PagedTables
