import PagedTables.Cache.Basic
import PagedTables.Cache.Statistics
import PagedTables.HeapFile
import PagedTables.Lock.Manager

/-! The pool: the registered tables, their files, the page locks and the page cache that all
transactions share. -/

namespace PagedTables

structure Config where
  pageSize : Nat := 4096
  poolPages : Nat := 50
  /-- How many milliseconds a lock request waits; without a bound it waits until it is decided. -/
  lockTimeout : Option Nat := none
deriving DecidableEq

structure Pool where
  config : Config
  disk : Disk
  tables : Std.ExtTreeMap TableId HeapFile
  nextTable : UInt32
  locks : LockManager
  cache : Cache
  stats : Statistics
deriving DecidableEq

namespace Pool

/-- The most pages that a cache can have places for. The places are a power of two, an eighth of them
stay free, and each takes 17 of less than 2 ^ 63 bytes. -/
def cacheLimit : Nat := 7 <<< 55

def start (config : Config) (disk : Disk) : Except Failure Pool :=
  if config.poolPages = 0 then .error (.fault .noPoolPages)
  else if cacheLimit < config.poolPages then .error (.fault .tooManyPoolPages)
  else
    .ok
      { config, disk, tables := ∅, nextTable := 0, locks := .empty, cache := .empty
        stats := .zero }

def file (pool : Pool) (table : TableId) : Except Failure HeapFile :=
  match pool.tables[table]? with
  | some file => .ok file
  | none => .error (.error (.tableNotFound table))

/-- Uses up a table id; it is taken if there is a file for it. -/
def register (pool : Pool) (made : Except Failure HeapFile) : Pool × Except Failure TableId :=
  let table : TableId := ⟨pool.nextTable⟩
  let pool := { pool with nextTable := pool.nextTable + 1 }
  match made with
  | .error failure => (pool, .error failure)
  | .ok file => ({ pool with tables := pool.tables.insert table file }, .ok table)

def createTable (pool : Pool) (name : String) (schema : Schema) : Pool × Except Failure TableId :=
  let (disk, made) :=
    HeapFile.create pool.disk name ⟨pool.nextTable⟩ schema pool.config.pageSize
  { pool with disk }.register made

def openTable (pool : Pool) (name : String) (schema : Schema) : Pool × Except Failure TableId :=
  pool.register (HeapFile.attach pool.disk name ⟨pool.nextTable⟩ schema pool.config.pageSize)

def appendPage (pool : Pool) (file : HeapFile) : Pool × Except Failure PageId :=
  match file.appendBlank pool.disk with
  | .error failure => (pool, .error failure)
  | .ok (disk, page) => ({ pool with disk }, .ok page)

def writePage (pool : Pool) (file : HeapFile) (page : HeapPage) : Pool × Except Failure Unit :=
  match file.writePage pool.disk page with
  | .error failure => (pool, .error failure)
  | .ok disk => ({ pool with disk }, .ok ())

/-- Reads a page from its table's file, past the cache. -/
def readPage (pool : Pool) (page : PageId) : Except Failure HeapPage := do
  let file ← pool.file page.table
  file.readPage pool.disk page

def count (pool : Pool) (counter : Counter) : Pool :=
  { pool with stats := pool.stats.count counter }

def isCached (pool : Pool) (page : PageId) : Bool := pool.cache.frames.contains page

def pins? (pool : Pool) (page : PageId) : Option UInt32 :=
  pool.cache.frames[page]?.map fun resident => resident.frame.pins

end Pool
end PagedTables
