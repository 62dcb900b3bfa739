import PagedTables.Pool.Basic

/-! The end of a transaction. A commit writes the pages it changed, an abort drops the pages it
locked; its locks are given back after that. -/

namespace PagedTables.Pool

def canFlush (pool : Pool) (page : PageId) : Bool :=
  pool.cache.frames[page]?.all fun resident => resident.frame.allowsFlush

/-- Writes a cached page to its file if it is dirty, and marks it clean. Nothing happens while a user's
latch is in the way. -/
def flushPage (pool : Pool) (page : PageId) : Pool × Except Failure Unit :=
  match pool.cache.frames[page]? with
  | none => (pool, .ok ())
  | some resident =>
    let heap := resident.frame.page
    if !resident.frame.allowsFlush then (pool, .error (.fault .latched))
    else if heap.isDirty then
      match pool.file heap.id.table with
      | .error failure => (pool, .error failure)
      | .ok file =>
        match pool.writePage file heap with
        | (pool, .error failure) => (pool, .error failure)
        | (pool, .ok ()) =>
          let frame := { resident.frame with page := heap.markDirty none }
          ({ pool with cache := pool.cache.update page { resident with frame } }.count .written,
            .ok ())
    else (pool, .ok ())

def flushEach (pool : Pool) : List PageId → Pool × Except Failure Unit
  | [] => (pool, .ok ())
  | page :: pages =>
    match pool.flushPage page with
    | (pool, .error failure) => (pool, .error failure)
    | (pool, .ok ()) => pool.flushEach pages

def heldPages (pool : Pool) (owner : TransactionId) : List PageId :=
  (pool.locks.table.heldBy owner).toList

def flushHeld (pool : Pool) (owner : TransactionId) : Pool × Except Failure Unit :=
  pool.flushEach (pool.heldPages owner)

/-- Writes every dirty page, of unfinished transactions too. -/
def flushAll (pool : Pool) : Pool × Except Failure Unit := pool.flushEach pool.cache.frames.keys

def discardPage (pool : Pool) (page : PageId) : Pool :=
  match pool.cache.discard page with
  | none => pool
  | some cache => { pool with cache }.count .discarded

def discardEach (pool : Pool) (pages : List PageId) : Pool := pages.foldl discardPage pool

def releaseAll (pool : Pool) (owner : TransactionId) : Pool :=
  { pool with locks := pool.locks.releaseAll owner }

def releasePage (pool : Pool) (owner : TransactionId) (page : PageId) : Pool :=
  { pool with locks := pool.locks.release page owner }

/-- Ends a transaction. If a commit cannot write a page, the locks are kept, so that the transaction
can be aborted instead. -/
def complete (pool : Pool) (owner : TransactionId) (commit : Bool) : Pool × Except Failure Unit :=
  if commit then
    match pool.flushHeld owner with
    | (pool, .error failure) => (pool, .error failure)
    | (pool, .ok ()) => (pool.releaseAll owner, .ok ())
  else ((pool.discardEach (pool.heldPages owner)).releaseAll owner, .ok ())

end PagedTables.Pool
