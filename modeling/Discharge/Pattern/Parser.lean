import Discharge.Pattern.Extent
import Discharge.Reader

/-!
# Reading patterns

The notation:

    alternatives := sequence ('|' sequence)*
    sequence     := item*
    item         := atom repetition*
    atom         := '(' alternatives ')' | '^' | '$' | '.' | '\d' | '\w'
                  | '\' punctuation | character
    repetition   := ('*' | '+' | '?') '?'?

A question mark after a repetition makes it prefer fewer rounds. Brackets and
opening braces stand for themselves only after a backslash: sets of characters
in brackets, counted repetitions and groups that open with a question mark are
no part of the notation. What is not part of it is refused, and so is a pattern
that nests too deep or takes too much room.
-/

namespace Discharge.Pattern

open Reader

/-- A backslash may stand before the character without changing it. -/
def isEscapable (c : Char) : Bool :=
  c.toNat < 128 && !c.isAlphanum && c != '<' && c != '>'

/-- What follows a backslash. -/
def escapeReader : Reader Pattern := do
  match ← satisfy fun _ => true with
  | 'd' => return .one .digit
  | 'w' => return .one .word
  | c => if isEscapable c then return .one (.char c) else fail

/-- Groups, places, classes and single characters, where `inner` reads what is
in parentheses. -/
def atomReader (inner : Reader Pattern) : Reader Pattern := do
  match ← satisfy fun c => !")|*+?[\x7b".toList.contains c with
  | '(' =>
    let body ← commit inner
    let _ ← commit (Reader.char ')')
    return .group 0 body
  | '\\' => commit escapeReader
  | '^' => return .start
  | '$' => return .finish
  | '.' => return .one .any
  | c => return .one (.char c)

def repetitionReader : Reader (Pattern → Pattern) := do
  let sign ← satisfy fun c => c == '*' || c == '+' || c == '?'
  let greedy := (← Reader.optional (Reader.char '?')).isNone
  return match sign with
    | '*' => .repeated .any greedy
    | '+' => .repeated .atLeastOne greedy
    | _ => .repeated .atMostOne greedy

/-- An atom with its repetitions. Each is a level of nesting, so more than the
deepest nesting need not be read. -/
def itemReader (inner : Reader Pattern) : Reader Pattern := do
  let atom ← atomReader inner
  return (← atMost (maxNesting + 1) repetitionReader).foldl (fun p r => r p) atom

/-- Items one after the other. -/
def sequenceReader (inner : Reader Pattern) : Reader Pattern := do
  match (← many (itemReader inner)).reverse with
  | [] => return .empty
  | p :: ps => return ps.foldl (fun tail p => .seq p tail) p

/-- The alternatives of a pattern nested at most `n` deep. -/
def alternativesReader : Nat → Reader Pattern
  | 0 => fail
  | n + 1 => do
    let sequence := sequenceReader (alternativesReader n)
    let first ← sequence
    match (← many do let _ ← Reader.char '|'; sequence).reverse with
    | [] => return first
    | p :: ps => return .alt first (ps.foldl (fun later p => .alt p later) p)

def parse? (text : String) : Option Pattern :=
  match alternativesReader (text.length + 1) text.toList with
  | .ok p [] => if p.isAcceptable then some (p.number 1).1 else none
  | _ => none

end Discharge.Pattern
