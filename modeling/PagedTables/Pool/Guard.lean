import PagedTables.Pool.Basic

/-! Fetched pages in use. A user pins a page, which keeps it in the cache, and latches it for as long
as it reads or changes it. -/

namespace PagedTables

/-- A page that is pinned and latched by its user. -/
structure Guard where
  page : PageId
  stay : Nat
  writable : Bool
deriving DecidableEq

namespace Pool

def makeRoom (pool : Pool) : Pool × Except Failure Unit :=
  if pool.cache.size < pool.config.poolPages then (pool, .ok ())
  else
    match pool.cache.evict with
    | some cache => ({ pool with cache }.count .evictions, .ok ())
    | none => (pool, .error (.error (.capacityExhausted pool.config.poolPages)))

/-- Finds or reads a page, adds a user and names the page's stay. The page is read before another
has to leave for it, so a page that cannot be read drives none out. -/
def pin (pool : Pool) (page : PageId) : Pool × Except Failure Nat :=
  match pool.cache.frames[page]? with
  | some resident =>
    match resident.frame.pin with
    | (frame, .ok _) =>
      ({ pool with cache := pool.cache.update page { resident with frame } }.count .hits,
        .ok resident.stay)
    | (frame, .error failure) =>
      ({ pool with cache := pool.cache.update page { resident with frame } }, .error failure)
  | none =>
    let pool := pool.count .misses
    match pool.readPage page with
    | .error failure => (pool, .error failure)
    | .ok heap =>
      match (pool.count .read).makeRoom with
      | (pool, .error failure) => (pool, .error failure)
      | (pool, .ok ()) =>
        let (cache, stay) := pool.cache.load heap
        ({ pool with cache }, .ok stay)

def latch (pool : Pool) (guard : Guard) : Option Pool := do
  let resident ← pool.cache.find? guard.page guard.stay
  let frame ← if guard.writable then resident.frame.latchExclusive else resident.frame.latchShared
  return { pool with cache := pool.cache.update guard.page { resident with frame } }

def view (pool : Pool) (guard : Guard) : Option HeapPage :=
  (pool.cache.find? guard.page guard.stay).map fun resident => resident.frame.page

def change (pool : Pool) (guard : Guard) (heap : HeapPage) : Pool :=
  match pool.cache.find? guard.page guard.stay with
  | none => pool
  | some resident =>
    let frame := { resident.frame with page := heap }
    { pool with cache := pool.cache.update guard.page { resident with frame } }

def drop (pool : Pool) (guard : Guard) : Pool × Except Failure Unit :=
  match pool.cache.find? guard.page guard.stay with
  | none => (pool, .ok ())
  | some resident =>
    let (frame, left) := resident.frame.unpin
    ({ pool with cache := pool.cache.update guard.page { resident with frame := frame.unlatch } },
      left.map fun _ => ())

def edit {α : Type} (pool : Pool) (guard : Guard)
    (change : HeapPage → Except Failure (HeapPage × α)) : Pool × Option (Except Failure α) :=
  match pool.view guard with
  | none => (pool, none)
  | some heap =>
    match change heap with
    | .error failure => (pool, some (.error failure))
    | .ok (heap, result) => (pool.change guard heap, some (.ok result))

end Pool
end PagedTables
