import PagedTables.Arithmetic
import PagedTables.Text.Fixed

/-! Counts of what the cache and the locks did. The counts wrap at 2^64. -/

namespace PagedTables

inductive Counter
  | hits
  | misses
  | evictions
  | read
  | written
  | discarded
  | deadlocks
deriving DecidableEq

structure Statistics where
  hits : UInt64 := 0
  misses : UInt64 := 0
  evictions : UInt64 := 0
  read : UInt64 := 0
  written : UInt64 := 0
  discarded : UInt64 := 0
  deadlocks : UInt64 := 0
deriving DecidableEq

namespace Statistics

def zero : Statistics := {}

def add (stats : Statistics) (counter : Counter) (n : UInt64) : Statistics :=
  match counter with
  | .hits => { stats with hits := stats.hits + n }
  | .misses => { stats with misses := stats.misses + n }
  | .evictions => { stats with evictions := stats.evictions + n }
  | .read => { stats with read := stats.read + n }
  | .written => { stats with written := stats.written + n }
  | .discarded => { stats with discarded := stats.discarded + n }
  | .deadlocks => { stats with deadlocks := stats.deadlocks + n }

def count (stats : Statistics) (counter : Counter) : Statistics := stats.add counter 1

def toList (stats : Statistics) : List UInt64 :=
  [stats.hits, stats.misses, stats.evictions, stats.read, stats.written, stats.discarded,
    stats.deadlocks]

/-- The part of page requests that the cache served, zero before the first. -/
def hitRate (stats : Statistics) : Except Failure Float := do
  let total ← addSized stats.hits.toNat stats.misses.toNat
  return if total = 0 then 0 else stats.hits.toFloat / (UInt64.ofNat total).toFloat

def text (stats : Statistics) : Except Failure String := do
  let rate ← stats.hitRate
  let percent := Text.oneDecimal (rate * 100)
  return s!"hits={stats.hits.toNat} misses={stats.misses.toNat} ({percent}% hit)" ++
    s!" evicted={stats.evictions.toNat} read={stats.read.toNat} written={stats.written.toNat}" ++
    s!" discarded={stats.discarded.toNat} deadlocks={stats.deadlocks.toNat}"

end Statistics
end PagedTables
