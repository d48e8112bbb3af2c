import AppBundle.Text.Numeral

/-!
# Writing JSON

Records are written with one field a line, indented by two blanks, and lists
with one item a line, indented by four.  An empty list takes no line.
-/

namespace AppBundle.Json

/-- A character inside a string. -/
def escapeChar (c : Char) : String :=
  if c = '"' then "\\\""
  else if c = '\\' then "\\\\"
  else if c = '\x08' then "\\b"
  else if c = '\x0c' then "\\f"
  else if c = '\n' then "\\n"
  else if c = '\r' then "\\r"
  else if c = '\t' then "\\t"
  else if c.toNat < 0x20 then "\\u" ++ Text.hex 4 c.toNat
  else c.toString

/-- A text as a string. -/
def quote (text : String) : String :=
  "\"" ++ String.join (text.toList.map escapeChar) ++ "\""

/-- A list of written values, as a field of a record. -/
def layoutList : List String → String
  | [] => "[]"
  | items => "[\n    " ++ ",\n    ".intercalate items ++ "\n  ]"

/-- A record of written values. -/
def layoutRecord (fields : List (String × String)) : String :=
  "\x7b\n  " ++ ",\n  ".intercalate (fields.map fun (key, value) => quote key ++ ": " ++ value) ++
    "\n\x7d"

end AppBundle.Json
