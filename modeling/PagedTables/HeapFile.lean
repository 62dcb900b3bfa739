import PagedTables.Disk.Basic
import PagedTables.Page.Image

/-! A table's pages, stored back to back in one file. The number of pages follows from the file's
length; bytes behind the last whole page count for nothing. -/

namespace PagedTables

def PageId.fileOffset (page : PageId) (pageSize : Nat) : Except Failure Nat :=
  mulSized page.number.toNat pageSize

structure HeapFile where
  table : TableId
  path : String
  schema : Schema
  layout : PageLayout
deriving DecidableEq

namespace HeapFile

def pageSize (file : HeapFile) : Nat := file.layout.pageSize

def ofEntry (path : String) (table : TableId) (schema : Schema) (pageSize : Nat) :
    Except Failure HeapFile := do
  let width ← schema.width
  let layout ← PageLayout.forSizes pageSize width
  return { table, path, schema, layout }

/-- Makes a new, empty file. A schema that does not fit is noticed after that. -/
def create (disk : Disk) (name : String) (table : TableId) (schema : Schema) (pageSize : Nat) :
    Disk × Except Failure HeapFile :=
  match disk.add name (.file .empty) with
  | .error cause => (disk, .error (.error (.disk cause)))
  | .ok (disk, path) => (disk, ofEntry path table schema pageSize)

def attach (disk : Disk) (name : String) (table : TableId) (schema : Schema) (pageSize : Nat) :
    Except Failure HeapFile :=
  match disk.resolve name with
  | .error cause => .error (.error (.disk cause))
  | .ok path =>
    match disk.fileAt path with
    | .error cause => .error (.error (.disk cause))
    | .ok _ => ofEntry path table schema pageSize

def name (file : HeapFile) : String := Path.lastPart file.path

def length (file : HeapFile) (disk : Disk) : Nat := (disk.contents file.path).length

def numPages (file : HeapFile) (disk : Disk) : UInt32 :=
  UInt32.ofNat (file.length disk / file.pageSize)

def blankPage (file : HeapFile) (id : PageId) : Except Failure HeapPage :=
  HeapPage.allocate id file.schema file.layout

def readPage (file : HeapFile) (disk : Disk) (id : PageId) : Except Failure HeapPage := do
  if id.table ≠ file.table then .error (.error (.pageNotFound id))
  else
    let offset ← id.fileOffset file.pageSize
    let stop ← addSized offset file.pageSize
    if file.length disk < stop then .error (.error (.pageNotFound id))
    else HeapPage.read id file.schema file.layout (disk.contents file.path) offset

def place (file : HeapFile) (id : PageId) : Except Failure Nat := do
  let offset ← id.fileOffset file.pageSize
  if offset + file.pageSize < Disk.offsetBound then return offset
  else .error (.error (.disk (.system SystemError.invalidArgument)))

def writePage (file : HeapFile) (disk : Disk) (page : HeapPage) : Except Failure Disk := do
  if page.id.table ≠ file.table then .error (.error (.pageNotFound page.id))
  else
    let offset ← file.place page.id
    let contents ← page.put offset (disk.contents file.path)
    return disk.setContents file.path contents

def appendBlank (file : HeapFile) (disk : Disk) : Except Failure (Disk × PageId) := do
  let id : PageId := ⟨file.table, file.numPages disk⟩
  let offset ← file.place id
  let contents := (disk.contents file.path).clear offset file.pageSize
  return (disk.setContents file.path contents, id)

end HeapFile
end PagedTables
