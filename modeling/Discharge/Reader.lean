/-!
# Readers

A reader takes characters off the front of a text. It succeeds with the rest of
the text, or misses at some place, after which another alternative may be tried,
or stops there for good.
-/

namespace Discharge

/-- Why reading stopped for good. -/
inductive Fault where
  /-- Something else was expected. -/
  | unexpected
  /-- A number is outside the range of words. -/
  | outOfRange
deriving DecidableEq, Repr

/-- The outcome of reading. A failure names the place by the text from there
on. -/
inductive Reply (α : Type) where
  | ok (value : α) (rest : List Char)
  | miss (place : List Char)
  | stop (place : List Char) (fault : Fault)
deriving DecidableEq, Repr

/-- A reader of values of type `α`. -/
def Reader (α : Type) : Type := List Char → Reply α

namespace Reader

variable {α β : Type}

instance : Monad Reader where
  pure a := fun cs => .ok a cs
  bind r f := fun cs =>
    match r cs with
    | .ok a rest => f a rest
    | .miss p => .miss p
    | .stop p e => .stop p e

/-- Give up here, but allow another alternative. -/
def fail : Reader α := fun cs => .miss cs

/-- Stop at the given place. -/
def abort (place : List Char) (fault : Fault) : Reader α := fun _ => .stop place fault

/-- The text still to be read. -/
def remaining : Reader (List Char) := fun cs => .ok cs cs

/-- The second reader takes over where the first misses. -/
def orElse (r s : Reader α) : Reader α := fun cs =>
  match r cs with
  | .miss _ => s cs
  | reply => reply

/-- A miss becomes a stop. -/
def commit (r : Reader α) : Reader α := fun cs =>
  match r cs with
  | .miss p => .stop p .unexpected
  | reply => reply

/-- Read if possible; a miss reads nothing. -/
def optional (r : Reader α) : Reader (Option α) := fun cs =>
  match r cs with
  | .ok a rest => .ok (some a) rest
  | .miss _ => .ok none cs
  | .stop p e => .stop p e

/-- One character of a class. -/
def satisfy (p : Char → Bool) : Reader Char
  | c :: cs => if p c then .ok c cs else .miss (c :: cs)
  | [] => .miss []

def char (c : Char) : Reader Char := satisfy (· == c)

/-- The longest run of characters of a class. -/
def run (p : Char → Bool) : Reader (List Char) := fun cs =>
  .ok (cs.takeWhile p) (cs.dropWhile p)

/-- The longest run of characters of a class, at least one. -/
def run1 (p : Char → Bool) : Reader (List Char) := fun cs =>
  if (cs.takeWhile p).isEmpty then .miss cs else .ok (cs.takeWhile p) (cs.dropWhile p)

def word (w : List Char) : Reader Unit := fun cs =>
  if w.isPrefixOf cs then .ok () (cs.drop w.length) else .miss cs

/-- Take nothing, if the next character is not of the class. -/
def notNext (p : Char → Bool) : Reader Unit
  | c :: cs => if p c then .miss (c :: cs) else .ok () (c :: cs)
  | [] => .ok () []

/-- Take nothing, at the end of the text or before a character of the class. -/
def endOrNext (p : Char → Bool) : Reader Unit
  | c :: cs => if p c then .ok () (c :: cs) else .miss (c :: cs)
  | [] => .ok () []

/-- The blanks that separate tokens. -/
def isBlank (c : Char) : Bool := c == ' ' || c == '\t' || c == '\r' || c == '\n'

/-- Allow blanks before and after. -/
def spaced (r : Reader α) : Reader α := do
  let _ ← run isBlank
  let a ← r
  let _ ← run isBlank
  return a

/-- Read as often as possible, at most `n` times. -/
def atMost : Nat → Reader α → Reader (List α)
  | 0, _ => pure []
  | n + 1, r => fun cs =>
    match r cs with
    | .ok a rest => (do return a :: (← atMost n r) : Reader (List α)) rest
    | .miss _ => .ok [] cs
    | .stop p e => .stop p e

/-- Read as often as possible. A reader that takes at least one character each
time is never stopped by the bound. -/
def many (r : Reader α) : Reader (List α) := fun cs =>
  atMost cs.length r cs

/-- Values with separators between them, possibly none. A separator without a
value after it is left unread. -/
def sepBy (sep : Reader β) (r : Reader α) : Reader (List α) := do
  match ← optional r with
  | none => return []
  | some a => return a :: (← many do let _ ← sep; r)

end Reader

end Discharge
