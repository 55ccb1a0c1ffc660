import Discharge.Text.Classes

/-!
# Patterns

Patterns over characters with numbered groups, and how deep they nest.
-/

namespace Discharge

inductive CharClass where
  | char (c : Char)
  /-- Every character but the line feed. -/
  | any
  | digit
  | word
deriving DecidableEq, Inhabited

namespace CharClass

/-- The character belongs to the class. -/
def contains : CharClass → Char → Bool
  | .char c, d => c == d
  | .any, d => d != '\n'
  | .digit, d => Text.isDigit d
  | .word, d => Text.isWord d

end CharClass

/-- How often a repeated pattern matches. -/
inductive Rounds where
  | atMostOne
  | any
  | atLeastOne
deriving DecidableEq, Inhabited

inductive Pattern where
  | empty
  /-- One character of a class. -/
  | one (c : CharClass)
  /-- The start of the text. -/
  | start
  /-- The end of the text. -/
  | finish
  /-- The second after the first. -/
  | seq (first second : Pattern)
  /-- Either, the first preferred. -/
  | alt (first second : Pattern)
  /-- A pattern several times: as often as possible if it is greedy, else as
  rarely. -/
  | repeated (rounds : Rounds) (greedy : Bool) (body : Pattern)
  /-- The numbered group: what matches here is remembered. -/
  | group (index : Nat) (body : Pattern)
deriving DecidableEq, Inhabited

namespace Pattern

/-- The pattern may match without taking a character. -/
def nullable : Pattern → Bool
  | .empty | .start | .finish => true
  | .one _ => false
  | .seq p q => p.nullable && q.nullable
  | .alt p q => p.nullable || q.nullable
  | .repeated .atLeastOne _ p => p.nullable
  | .repeated .atMostOne _ _ | .repeated .any _ _ => true
  | .group _ p => p.nullable

/-- The pattern never takes a character. -/
def isZeroWidth : Pattern → Bool
  | .empty | .start | .finish => true
  | .one _ => false
  | .seq p q | .alt p q => p.isZeroWidth && q.isZeroWidth
  | .repeated _ _ p | .group _ p => p.isZeroWidth

/-- Number the groups in the order in which they open, from `n` on; the number
after the last is returned too. -/
def number (n : Nat) : Pattern → Pattern × Nat
  | .seq p q =>
    let (p, n) := p.number n
    let (q, n) := q.number n
    (.seq p q, n)
  | .alt p q =>
    let (p, n) := p.number n
    let (q, n) := q.number n
    (.alt p q, n)
  | .repeated rounds greedy p =>
    let (p, n) := p.number n
    (.repeated rounds greedy p, n)
  | .group _ p =>
    let (p, m) := p.number (n + 1)
    (.group n p, m)
  | p => (p, n)

def groupCount : Pattern → Nat
  | .seq p q | .alt p q => p.groupCount + q.groupCount
  | .repeated _ _ p => p.groupCount
  | .group _ p => p.groupCount + 1
  | .empty | .one _ | .start | .finish => 0

/-- How deep the pattern nests. A group, a repetition, a whole sequence and a
whole list of alternatives each count as a level. -/
def nesting : Pattern → Nat
  | .empty | .one _ | .start | .finish => 0
  | .seq p q =>
    max (p.nesting + 1) (match q with
      | .seq .. => q.nesting
      | _ => q.nesting + 1)
  | .alt p q =>
    max (p.nesting + 1) (match q with
      | .alt .. => q.nesting
      | _ => q.nesting + 1)
  | .repeated _ _ p => p.nesting + 1
  | .group _ p => p.nesting + 1

/-- The deepest nesting that is accepted. -/
def maxNesting : Nat := 250

end Pattern

end Discharge
