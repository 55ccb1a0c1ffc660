import Discharge.Json.Basic
import Discharge.Reader

/-!
# Reading JSON

A document is one value with blanks around it. As for conditions, nesting is
resolved level by level, and a document cannot nest deeper than it is long.
-/

namespace Discharge.Json

open Reader

/-- The value of a hexadecimal digit. -/
def hexDigit? (c : Char) : Option Nat :=
  if c.isDigit then some (c.toNat - '0'.toNat)
  else if 'a' ≤ c ∧ c ≤ 'f' then some (c.toNat - 'a'.toNat + 10)
  else if 'A' ≤ c ∧ c ≤ 'F' then some (c.toNat - 'A'.toNat + 10)
  else none

/-- A unit of UTF-16 in four hexadecimal digits. -/
def unit? : List Char → Option (Nat × List Char)
  | a :: b :: c :: d :: rest => do
    let n := (((← hexDigit? a) * 16 + (← hexDigit? b)) * 16 + (← hexDigit? c)) * 16
    return (n + (← hexDigit? d), rest)
  | _ => none

/-- The unit is the first half of a character. -/
def isHighHalf (n : Nat) : Bool := 0xD800 ≤ n && n ≤ 0xDBFF

/-- The unit is the second half of a character. -/
def isLowHalf (n : Nat) : Bool := 0xDC00 ≤ n && n ≤ 0xDFFF

/-- The character that an escape with one letter stands for. -/
def shortEscape? : Char → Option Char
  | '"' => some '"'
  | '\\' => some '\\'
  | '/' => some '/'
  | 'b' => some '\x08'
  | 'f' => some '\x0c'
  | 'n' => some '\n'
  | 'r' => some '\r'
  | 't' => some '\t'
  | _ => none

/-- The characters of a string after its opening quote, at most `n` of them or
of their escapes, with `none` where half a character stands alone, and the text
after the closing quote. -/
def stringBody? : Nat → List Char → Option (List (Option Char) × List Char)
  | 0, _ => none
  | _, [] => none
  | n + 1, c :: cs =>
    if c = '"' then some ([], cs)
    else if c.toNat < 0x20 then none
    else if c ≠ '\\' then do
      let (more, rest) ← stringBody? n cs
      return (some c :: more, rest)
    else match cs with
      | 'u' :: cs => do
        let (u, cs) ← unit? cs
        match (if isHighHalf u then cs else []) with
        | '\\' :: 'u' :: low => do
          let (l, after) ← unit? low
          if isLowHalf l then
            let (more, rest) ← stringBody? n after
            let code := 0x10000 + (u - 0xD800) * 0x400 + (l - 0xDC00)
            return (some (Char.ofNat code) :: more, rest)
          else
            let (more, rest) ← stringBody? n cs
            return (none :: more, rest)
        | _ => do
          let (more, rest) ← stringBody? n cs
          let half := isHighHalf u || isLowHalf u
          return ((if half then none else some (Char.ofNat u)) :: more, rest)
      | e :: cs => do
        let c ← shortEscape? e
        let (more, rest) ← stringBody? n cs
        return (some c :: more, rest)
      | [] => none

/-- A string, with `none` for one that is no text. -/
def stringReader : Reader (Option String) := do
  let _ ← char '"'
  fun cs =>
    match stringBody? (cs.length + 1) cs with
    | some (body, rest) =>
      .ok (if body.all Option.isSome then some (String.ofList body.reduceOption) else none) rest
    | none => .miss cs

/-- A number in its spelling. -/
def numberReader : Reader Json := do
  let sign ← optional (char '-')
  let whole ← orElse (do return [← char '0']) (run1 Char.isDigit)
  let places ← optional do
    let point ← char '.'
    return point :: (← run1 Char.isDigit)
  let exponent ← optional do
    let e ← satisfy fun c => c == 'e' || c == 'E'
    let sign ← optional (satisfy fun c => c == '+' || c == '-')
    return e :: sign.toList ++ (← run1 Char.isDigit)
  return .num (String.ofList (sign.toList ++ whole ++ places.getD [] ++ exponent.getD []))

/-- A member of an object, with `none` for a key that is no text. -/
def memberReader (value : Reader Json) : Reader (Option (String × Json)) := do
  let key ← spaced stringReader
  let _ ← char ':'
  let j ← value
  return key.map (·, j)

/-- The object with the given members, if all their keys are texts. -/
def ofMembers (members : List (Option (String × Json))) : Json :=
  if members.all Option.isSome then .obj members.reduceOption else .garbled

/-- A value nested at most `n` deep, with blanks around it. -/
def valueReader : Nat → Reader Json
  | 0 => fail
  | n + 1 => spaced fun cs =>
    match cs with
    | 'n' :: _ => (do word "null".toList; return .null : Reader Json) cs
    | 't' :: _ => (do word "true".toList; return .bool true : Reader Json) cs
    | 'f' :: _ => (do word "false".toList; return .bool false : Reader Json) cs
    | '"' :: _ =>
      (do
        match ← stringReader with
        | some s => return .str s
        | none => return .garbled : Reader Json) cs
    | '[' :: rest =>
      (do
        let _ ← run isBlank
        let items ← sepBy (char ',') (valueReader n)
        let _ ← char ']'
        return .arr items : Reader Json) rest
    | '\x7b' :: rest =>
      (do
        let _ ← run isBlank
        let members ← sepBy (char ',') (memberReader (valueReader n))
        let _ ← char '\x7d'
        return ofMembers members : Reader Json) rest
    | _ => numberReader cs

def parse? (text : String) : Option Json :=
  match valueReader (text.length + 1) text.toList with
  | .ok j [] => some j
  | _ => none

end Discharge.Json
