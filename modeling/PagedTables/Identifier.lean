import Std.Data.ExtTreeMap
import Std.Data.ExtTreeSet

/-! Names of tables, pages, stored tuples and transactions, with the orders that listings and sorted
page sets follow. -/

namespace PagedTables

structure TableId where
  raw : UInt32
deriving DecidableEq

structure PageId where
  table : TableId
  number : UInt32
deriving DecidableEq

structure RecordId where
  page : PageId
  slot : Nat
deriving DecidableEq

structure TransactionId where
  raw : UInt64
deriving DecidableEq

instance : Ord TableId := ⟨compareOn TableId.raw⟩

instance : Std.TransOrd TableId :=
  inferInstanceAs (Std.TransCmp (compareOn TableId.raw))

instance : Std.LawfulEqOrd TableId where
  eq_of_compare {_ _} h := congrArg TableId.mk (Std.LawfulEqOrd.eq_of_compare h)

instance : Ord PageId := ⟨compareLex (compareOn PageId.table) (compareOn PageId.number)⟩

instance : Std.TransOrd PageId :=
  inferInstanceAs (Std.TransCmp (compareLex (compareOn PageId.table) (compareOn PageId.number)))

instance : Std.LawfulEqOrd PageId where
  eq_of_compare {_ _} h :=
    have both := Ordering.then_eq_eq.mp h
    congr (congrArg PageId.mk (Std.LawfulEqOrd.eq_of_compare both.1))
      (Std.LawfulEqOrd.eq_of_compare both.2)

instance : Ord RecordId := ⟨compareLex (compareOn RecordId.page) (compareOn RecordId.slot)⟩

instance : Std.TransOrd RecordId :=
  inferInstanceAs (Std.TransCmp (compareLex (compareOn RecordId.page) (compareOn RecordId.slot)))

instance : Std.LawfulEqOrd RecordId where
  eq_of_compare {_ _} h :=
    have both := Ordering.then_eq_eq.mp h
    congr (congrArg RecordId.mk (Std.LawfulEqOrd.eq_of_compare both.1))
      (Std.LawfulEqOrd.eq_of_compare both.2)

instance : Ord TransactionId := ⟨compareOn TransactionId.raw⟩

instance : Std.TransOrd TransactionId :=
  inferInstanceAs (Std.TransCmp (compareOn TransactionId.raw))

instance : Std.LawfulEqOrd TransactionId where
  eq_of_compare {_ _} h := congrArg TransactionId.mk (Std.LawfulEqOrd.eq_of_compare h)

def TableId.text (table : TableId) : String := s!"Table({table.raw.toNat})"

def PageId.text (page : PageId) : String := s!"Page({page.table.raw.toNat}:{page.number.toNat})"

def RecordId.text (record : RecordId) : String := s!"{record.page.text}#{record.slot}"

def TransactionId.text (transaction : TransactionId) : String :=
  s!"Txn({transaction.raw.toNat})"

/-- Issues the transaction named by the counter and steps the counter, which wraps. -/
def TransactionId.issue (next : UInt64) : TransactionId × UInt64 := (⟨next⟩, next + 1)

def TransactionId.first : UInt64 := 1

/-- The record ids of a list in ascending order, each once. -/
def RecordId.sorted (records : List RecordId) : List RecordId :=
  (Std.ExtTreeSet.ofList records).toList

/-- The transactions of a list in ascending order, repetitions kept. -/
def TransactionId.sorted (transactions : List TransactionId) : List TransactionId :=
  transactions.mergeSort fun a b => (compare a b).isLE

end PagedTables
