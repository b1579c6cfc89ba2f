import TypeStore.Node

/-!
# Quoted text

The form of a name in which every character is visible: quotes and backslashes are escaped, the
usual control characters have a letter, and the remaining ones are given by their number in
hexadecimal. The names that are quoted here consist of ASCII characters.
-/

namespace TypeStore.Text.Quoted

/-- One character of a quoted text. -/
def escape (c : Char) : String :=
  if c = '"' then "\\\""
  else if c = '\\' then "\\\\"
  else if c = '\n' then "\\n"
  else if c = '\r' then "\\r"
  else if c = '\t' then "\\t"
  else if c.toNat = 0 then "\\0"
  else if c.toNat < 32 || c.toNat = 127 then
    "\\u\x7b" ++ String.ofList (Nat.toDigits 16 c.toNat) ++ "\x7d"
  else c.toString

/-- The text between quotes, every character escaped as needed. -/
def encode (s : String) : String :=
  "\"" ++ String.join (s.toList.map escape) ++ "\""

end TypeStore.Text.Quoted

namespace TypeStore

/-- The long form of a name. -/
def debugName (name : String) : String :=
  "Identifier(" ++ Text.Quoted.encode name ++ ")"

end TypeStore
