import PagedTables.Bytes
import PagedTables.Disk.Error
import PagedTables.Disk.Path

/-! The files that tables are kept in, by name. Some names may be taken by directories. -/

namespace PagedTables

inductive DiskEntry
  | file (contents : Bytes)
  | directory
deriving DecidableEq

/-- What there is on a disk, by path. The disk itself is a directory, which has the empty path. -/
structure Disk where
  entries : Std.ExtTreeMap String DiskEntry
deriving DecidableEq

namespace Disk

def blank : Disk := ⟨∅⟩

def directorySize : Nat := 4096

def offsetBound : Nat := 1 <<< 63

def readLimit : Nat := 1 <<< 35

def entry? (disk : Disk) (path : String) : Option DiskEntry :=
  if path = "" then some .directory else disk.entries[path]?

def follow (disk : Disk) (path : List String) : List String → Except DiskError (List String)
  | [] => .ok path
  | part :: parts =>
    match disk.entry? (Path.join path) with
    | none => .error (.system SystemError.noSuchFile)
    | some (.file _) => .error (.system SystemError.notDirectory)
    | some .directory =>
      if Path.partLimit < part.utf8ByteSize then .error (.system SystemError.nameTooLong)
      else if part = "" ∨ part = "." then disk.follow path parts
      else if part = ".." then disk.follow path.dropLast parts
      else disk.follow (path ++ [part]) parts

def nameParts (name : String) : Except DiskError (List String) :=
  if '\x00' ∈ name.toList then .error .nulInName
  else if Path.limit ≤ name.utf8ByteSize then .error (.system SystemError.nameTooLong)
  else .ok (Path.parts name)

def resolve (disk : Disk) (name : String) : Except DiskError String := do
  let path ← disk.follow [] (← nameParts name)
  return Path.join path

/-- The path for a file that may have to be made. The name of a directory is refused, whether or not
there is one. -/
def resolveFile (disk : Disk) (name : String) : Except DiskError String := do
  let parts ← nameParts name
  if Path.endsInSlash parts then
    let _ ← disk.follow [] ((Path.trim parts).dropLast ++ [""])
    .error (.system SystemError.isDirectory)
  else disk.resolve name

def resolveDirectory (disk : Disk) (name : String) : Except DiskError String := do
  let path ← disk.follow [] (Path.trim (← nameParts name))
  return Path.join path

def fileAt (disk : Disk) (path : String) : Except DiskError Bytes :=
  match disk.entry? path with
  | some (.file contents) => .ok contents
  | some .directory => .error (.system SystemError.isDirectory)
  | none => .error (.system SystemError.noSuchFile)

def find (disk : Disk) (name : String) : Except DiskError Bytes := do
  let path ← disk.resolve name
  disk.fileAt path

def readAll (disk : Disk) (name : String) : Except DiskError (List UInt8) := do
  let file ← disk.find name
  if readLimit < file.length then .error .outOfMemory else return file.toList

def size (disk : Disk) (name : String) : Except DiskError Nat := do
  let path ← disk.resolve name
  match disk.entry? path with
  | some .directory => return directorySize
  | _ => return (← disk.fileAt path).length

def contents (disk : Disk) (path : String) : Bytes :=
  match disk.entries[path]? with
  | some (.file contents) => contents
  | _ => .empty

def setContents (disk : Disk) (path : String) (contents : Bytes) : Disk :=
  ⟨disk.entries.insert path (.file contents)⟩

def add (disk : Disk) (name : String) (entry : DiskEntry) : Except DiskError (Disk × String) := do
  let path ←
    match entry with
    | .file _ => disk.resolveFile name
    | .directory => disk.resolveDirectory name
  match disk.entry? path with
  | some _ => .error (.system SystemError.fileExists)
  | none => return (⟨disk.entries.insert path entry⟩, path)

/-- Writes a window of a file. The file is created if there is none, even if its length cannot reach
the window's end. -/
def writeAt (disk : Disk) (name : String) (start : Nat) (bytes : List UInt8) :
    Disk × Except DiskError Unit :=
  match disk.resolveFile name with
  | .error cause => (disk, .error cause)
  | .ok path =>
    match disk.entry? path with
    | some .directory => (disk, .error (.system SystemError.isDirectory))
    | _ =>
      let contents := disk.contents path
      if start + bytes.length < offsetBound then
        (disk.setContents path (contents.write start bytes), .ok ())
      else (disk.setContents path contents, .error (.system SystemError.invalidArgument))

def truncate (disk : Disk) (name : String) (length : Nat) : Except DiskError Disk := do
  let path ← disk.resolve name
  let contents ← disk.fileAt path
  if length < offsetBound then return disk.setContents path (contents.resize length)
  else .error .lengthOutOfRange

end Disk
end PagedTables
