import PagedTables.Pool.Operation

/-! Scans taken one tuple at a time. A call that fails leaves the scan where it was before the page
that could not be had, so it can simply be repeated. -/

namespace PagedTables.Pool

def advance (pool : Pool) (cursor : Cursor) : Pool × Cursor × Except Failure Unit :=
  match pool.run false (cursor.advance false) with
  | (pool, .finished (.scanned cursor none)) => (pool, cursor, .ok ())
  | (pool, .finished (.scanned cursor (some failure))) => (pool, cursor, .error failure)
  | (pool, .finished (.failed failure)) => (pool, cursor, .error failure)
  | (pool, _) => (pool, cursor, .ok ())

def hasNext (pool : Pool) (cursor : Cursor) : Pool × Cursor × Except Failure Bool :=
  match pool.advance cursor with
  | (pool, cursor, .error failure) => (pool, cursor, .error failure)
  | (pool, cursor, .ok ()) => (pool, cursor, .ok cursor.hasPending)

def nextTuple (pool : Pool) (cursor : Cursor) : Pool × Cursor × Except Failure (Option Tuple) :=
  match pool.advance cursor with
  | (pool, cursor, .error failure) => (pool, cursor, .error failure)
  | (pool, cursor, .ok ()) =>
    let (cursor, tuple) := cursor.pop
    (pool, cursor, .ok tuple)

/-- The next tuple of a scan that opens itself. -/
def iterate (pool : Pool) (cursor : Cursor) : Pool × Cursor × Except Failure (Option Tuple) :=
  pool.nextTuple (if cursor.isOpen then cursor else cursor.start pool.disk)

end PagedTables.Pool
