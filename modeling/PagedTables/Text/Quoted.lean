import PagedTables.Text.Printable
import PagedTables.Text.Extending

/-! Quoted text for messages: double quotes around the characters, with escapes for those that would
be misread or not be seen. -/

namespace PagedTables.Text

def codePoint (c : Char) : String :=
  "\\u\x7b" ++ String.ofList (Nat.toDigits 16 c.toNat) ++ "\x7d"

/-- A single quote needs no escape inside double quotes. -/
def escaped (c : Char) : String :=
  if c = '\x00' then "\\0"
  else if c = '\t' then "\\t"
  else if c = '\r' then "\\r"
  else if c = '\n' then "\\n"
  else if c = '"' then "\\\""
  else if c = '\\' then "\\\\"
  else if isExtending c || !isPrintable c then codePoint c
  else c.toString

def quoted (text : String) : String :=
  "\"" ++ String.join (text.toList.map escaped) ++ "\""

end PagedTables.Text
