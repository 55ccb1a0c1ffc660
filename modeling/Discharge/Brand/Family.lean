import Discharge.Brand.Decidability
import Discharge.Pattern.Machine
import Discharge.Pattern.Parser

/-!
# Families of brands

A family covers the brands whose names its matcher accepts, such as `Vec<3>`.
Its predicate is a template in which the number of a group in braces stands for
what the group matched.
-/

namespace Discharge

/-- What the groups of a match in a text matched, from the first group on; without
a match, nothing. -/
abbrev Matcher := String → Option (List String)

/-- A pattern matches at the leftmost place. -/
instance : Coe Pattern Matcher := ⟨Pattern.groups?⟩

structure Family where
  name : String
  matcher : Matcher
  template : String
  decidability : Decidability

namespace Family

/-- The pattern `^Vec<(\d+)>$`. -/
def vectorPattern : Pattern :=
  [.start, .one (.char 'V'), .one (.char 'e'), .one (.char 'c'), .one (.char '<'),
    .group 1 (.repeated .atLeastOne true (.one .digit)), .one (.char '>')].foldr .seq .finish

/-- The family `Vec<N>` of vectors of a fixed length. -/
def vector : Family where
  name := "Vec<N>"
  matcher := vectorPattern
  template := "$.length == \x7b1\x7d"
  decidability := .decidable

/-- The brand belongs to the family. -/
def covers (f : Family) (brand : String) : Bool := (f.matcher brand).isSome

/-- Put `found` for each occurrence of a mark in a text, from left to right. The
first `n` characters are the rest of an occurrence, and passed over. -/
def replaceMark (mark found : List Char) : Nat → List Char → List Char
  | _, [] => []
  | n + 1, _ :: cs => replaceMark mark found n cs
  | 0, c :: cs =>
    if mark.isPrefixOf (c :: cs) then found ++ replaceMark mark found (mark.length - 1) cs
    else c :: replaceMark mark found 0 cs

/-- The template with what the groups of a match matched filled in, one group
after the other. -/
def fill (f : Family) (groups : List String) : String :=
  String.ofList (groups.zipIdx.foldl (fun text (found, i) =>
    replaceMark ("\x7b" ++ toString (i + 1) ++ "\x7d").toList found.toList 0 text)
    f.template.toList)

/-- The predicate of a brand of the family, if the filled template is one. -/
def predicate? (f : Family) (brand : String) : Option Expr := do
  let groups ← f.matcher brand
  (Expr.parse (f.fill groups)).toOption

end Family

end Discharge
