/-! The parts of a file's name. Slashes separate them; all but the last name directories on the way. -/

namespace PagedTables.Path

def partLimit : Nat := 255

def limit : Nat := 4096

def split : List Char → List (List Char)
  | [] => [[]]
  | c :: rest =>
    if c = '/' then [] :: split rest
    else
      match split rest with
      | [] => [[c]]
      | part :: parts => (c :: part) :: parts

def parts (name : String) : List String := (split name.toList).map String.ofList

def join (path : List String) : String := "/".intercalate path

def trim (parts : List String) : List String :=
  (parts.reverse.dropWhile (· = "")).reverse

/-- Whether a name ends in a slash behind a part that is a name. Such a name, like the empty one, is
a directory's. -/
def endsInSlash (parts : List String) : Bool :=
  parts.getLast? = some "" && (trim parts).getLast?.all fun part => part ≠ "." && part ≠ ".."

def lastPart (name : String) : String := (parts name).getLastD ""

end PagedTables.Path
