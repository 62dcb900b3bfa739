import PagedTables.Cache.Frame
import PagedTables.Cache.LoadOrder

/-! The cached pages. From being loaded to leaving the cache a page makes one stay, which a number
names; a page that left while it was in use is kept aside for its users. -/

namespace PagedTables

structure Resident where
  stay : Nat
  frame : Frame
deriving DecidableEq

structure Cache where
  frames : Std.ExtTreeMap PageId Resident
  order : LoadOrder
  /-- Pages that left the cache and are still in use. -/
  departed : List Resident
  nextStay : Nat
deriving DecidableEq

namespace Cache

def empty : Cache := ⟨∅, .empty, [], 0⟩

def size (cache : Cache) : Nat := cache.frames.size

/-- The page of a stay, in the cache or aside. -/
def find? (cache : Cache) (page : PageId) (stay : Nat) : Option Resident :=
  (cache.frames[page]?.filter fun resident => resident.stay = stay).or
    (cache.departed.find? fun resident => resident.stay = stay && resident.frame.id = page)

/-- Puts a page of a stay back where it was. One that stands aside is dropped with its last user. -/
def update (cache : Cache) (page : PageId) (resident : Resident) : Cache :=
  if cache.frames[page]?.any fun present => present.stay = resident.stay then
    { cache with frames := cache.frames.insert page resident }
  else
    { cache with
      departed := cache.departed.filterMap fun other =>
        if other.stay = resident.stay then
          if resident.frame.isPinned then some resident else none
        else some other }

def load (cache : Cache) (page : HeapPage) : Cache × Nat :=
  let frame := (Frame.load page).pin.1
  ({ cache with
      frames := cache.frames.insert page.id ⟨cache.nextStay, frame⟩
      order := cache.order.recordLoad page.id
      nextStay := cache.nextStay + 1 },
    cache.nextStay)

def isEvictable (cache : Cache) (page : PageId) : Bool :=
  match cache.frames[page]? with
  | some resident => resident.frame.isEvictable
  | none => false

def evict (cache : Cache) : Option Cache :=
  match cache.order.evict cache.isEvictable with
  | (order, ⟨_, some page⟩) => some { cache with frames := cache.frames.erase page, order }
  | (_, ⟨_, none⟩) => none

/-- Drops a page with its changes. Its users keep it, aside. -/
def discard (cache : Cache) (page : PageId) : Option Cache :=
  match cache.frames[page]? with
  | none => none
  | some resident =>
    some
      { cache with
        frames := cache.frames.erase page
        order := cache.order.remove page
        departed :=
          if resident.frame.isPinned then cache.departed ++ [resident] else cache.departed }

end Cache
end PagedTables
