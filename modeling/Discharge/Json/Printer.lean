import Discharge.Json.Basic

/-!
# Writing JSON

Two layouts: on one line without blanks, and over several lines with an indent
of two blanks for each level.
-/

namespace Discharge.Json

/-- A character inside a JSON string. Quotes, backslashes and control
characters are escaped, the latter by a short escape where there is one. -/
def escapeChar (c : Char) : String :=
  if c = '"' then "\\\""
  else if c = '\\' then "\\\\"
  else if c = '\n' then "\\n"
  else if c = '\r' then "\\r"
  else if c = '\t' then "\\t"
  else if c = '\x08' then "\\b"
  else if c = '\x0c' then "\\f"
  else if c.toNat < 0x20 then
    let ds := Nat.toDigits 16 c.toNat
    "\\u" ++ String.ofList (List.replicate (4 - ds.length) '0' ++ ds)
  else c.toString

def quote (s : String) : String :=
  "\"" ++ String.join (s.toList.map escapeChar) ++ "\""

mutual

/-- A value on one line. -/
def compact : Json → String
  | .null => "null"
  | .bool b => if b then "true" else "false"
  | .num n => n
  | .str s => quote s
  | .garbled => quote ""
  | .arr js => "[" ++ ",".intercalate (compactItems js) ++ "]"
  | .obj ms => "\x7b" ++ ",".intercalate (compactMembers ms) ++ "\x7d"

/-- The items of an array, each on one line. -/
def compactItems : List Json → List String
  | [] => []
  | j :: js => j.compact :: compactItems js

/-- The members of an object, each on one line. -/
def compactMembers : List (String × Json) → List String
  | [] => []
  | (k, j) :: ms => (quote k ++ ":" ++ j.compact) :: compactMembers ms

end

/-- A bracketed sequence over several lines, at the given level of nesting. -/
def block (level : Nat) (left right : String) : List String → String
  | [] => left ++ right
  | items =>
    let indent n := String.ofList (List.replicate (2 * n) ' ')
    left ++ "\n" ++ ",\n".intercalate (items.map (indent (level + 1) ++ ·)) ++ "\n" ++
      indent level ++ right

mutual

/-- A value over several lines, at the given level of nesting. -/
def prettyAt (level : Nat) : Json → String
  | .arr js => block level "[" "]" (prettyItems (level + 1) js)
  | .obj ms => block level "\x7b" "\x7d" (prettyMembers (level + 1) ms)
  | .null => "null"
  | .bool b => if b then "true" else "false"
  | .num n => n
  | .str s => quote s
  | .garbled => quote ""

/-- The items of an array over several lines. -/
def prettyItems (level : Nat) : List Json → List String
  | [] => []
  | j :: js => j.prettyAt level :: prettyItems level js

/-- The members of an object over several lines. -/
def prettyMembers (level : Nat) : List (String × Json) → List String
  | [] => []
  | (k, j) :: ms => (quote k ++ ": " ++ j.prettyAt level) :: prettyMembers level ms

end

/-- A value over several lines. -/
def pretty (j : Json) : String := j.prettyAt 0

end Discharge.Json
