/-!
# JSON values

Objects keep their members in the order they were written, repetitions
included, and numbers keep their spelling, since some readers of a document
care about both.
-/

namespace Discharge

inductive Json where
  | null
  | bool (value : Bool)
  /-- A number as it is spelled. -/
  | num (spelling : String)
  | str (value : String)
  /-- A string, or an object with a key, in which an escape names half of a
  character. It can be skipped, but it is no text and no record. -/
  | garbled
  | arr (items : List Json)
  | obj (members : List (String × Json))
deriving Inhabited

namespace Json

def nat (n : Nat) : Json := .num (toString n)

def int (n : Int) : Json := .num (toString n)

def texts (ss : List String) : Json := .arr (ss.map .str)

/-- A value that may be missing, with `null` for a missing one. -/
def orNull {α : Type} (f : α → Json) : Option α → Json
  | some a => f a
  | none => .null

/-- A member that is written only when there is a value. -/
def present {α : Type} (key : String) (f : α → Json) : Option α → List (String × Json)
  | some a => [(key, f a)]
  | none => []

/-- A member that is written only when the list has elements. -/
def nonempty {α : Type} (key : String) (f : α → Json) : List α → List (String × Json)
  | [] => []
  | as => [(key, .arr (as.map f))]

/-- The last member of an object with a given key. -/
def get? (j : Json) (key : String) : Option Json :=
  match j with
  | .obj ms => (ms.reverse.find? (·.1 == key)).map (·.2)
  | _ => none

end Json

end Discharge
