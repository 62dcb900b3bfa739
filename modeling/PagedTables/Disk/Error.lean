import PagedTables.Disk.SystemError

/-! Why a disk does not do what it is asked for. -/

namespace PagedTables

inductive DiskError
  | system (code : Int32)
  | nulInName
  /-- The length of a file is a signed number. -/
  | lengthOutOfRange
  | outOfMemory
  | stated (text : String)
deriving DecidableEq

def DiskError.text : DiskError → String
  | system code => systemErrorText code
  | nulInName => "file name contained an unexpected NUL byte"
  | lengthOutOfRange => "number too large to fit in target type"
  | outOfMemory => "out of memory"
  | stated text => text

end PagedTables
