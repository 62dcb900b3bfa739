/-! Lock modes, and the access a transaction asks for. -/

namespace PagedTables

inductive LockMode
  | shared
  | exclusive
deriving DecidableEq

def LockMode.text : LockMode → String
  | shared => "S"
  | exclusive => "X"

inductive Permission
  | readOnly
  | readWrite
deriving DecidableEq

def Permission.text : Permission → String
  | readOnly => "READ_ONLY"
  | readWrite => "READ_WRITE"

def Permission.lockMode : Permission → LockMode
  | readOnly => .shared
  | readWrite => .exclusive

end PagedTables
