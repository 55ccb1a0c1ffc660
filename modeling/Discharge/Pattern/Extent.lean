import Discharge.Hash
import Discharge.Pattern.Basic
import Discharge.Text.Encoding

/-!
# The extent of a pattern

A pattern is accepted only if two automata over the bytes of a text have room:
one that reads forward and marks the groups, and one that reads backward. This
module counts the bytes that their states and links take, without building
them.

A character takes a state for each byte of its encoding. A class takes states
for the byte ranges of its encodings. States that lead to the same are shared
as far as a table remembers them. The table has a fixed number of slots and
keeps the last state of each; so what a class takes depends, by a little, on
the numbers of the states before it.
-/

namespace Discharge.Pattern

open Text (ByteRange)

/-- How far an automaton has grown: its states, and the bytes that their links
take beside them. The next state has the number `states`. -/
structure Extent where
  states : Nat := 0
  links : Nat := 0
deriving DecidableEq, Inhabited

namespace Extent

/-- The bytes that an automaton takes. -/
def bytes (e : Extent) : Nat := 32 * e.states + e.links

/-- The bytes that an automaton may take. -/
def maxBytes : Nat := 10 * 1024 * 1024

/-- The extent with more states, and more bytes for links. -/
def add (e : Extent) (states links : Nat) : Extent := ⟨e.states + states, e.links + links⟩

/-- The extent itself when an automaton may have it, and nothing otherwise. -/
def fit? (e : Extent) : Option Extent := if e.bytes ≤ maxBytes then some e else none

end Extent

/-- The bytes of a link to one of several ways. -/
def wayBytes : Nat := 4

/-- The bytes of a link for a range of bytes, in a state with several. -/
def rangeBytes : Nat := 8

/-- An automaton that shares states: its extent, and for each slot the last
state with what it leads to. -/
structure Sharing where
  extent : Extent
  slots : Array (Option (List Nat × Nat))

namespace Sharing

/-- Nothing to share yet, and room to remember `size` states. -/
def start (extent : Extent) (size : Nat) : Sharing := ⟨extent, Array.replicate size none⟩

/-- The number of the state that leads to `ways`: the one that is remembered,
or a new one whose links take some bytes. -/
def state (ways : List Nat) (links : Nat) : StateM Sharing Nat := fun ⟨extent, slots⟩ =>
  let slot := (Hash.ofNats ways % slots.size.toUInt64).toNat
  match slots[slot]? with
  | some (some (known, number)) =>
    if known = ways then (number, ⟨extent, slots⟩) else new slot extent slots
  | _ => new slot extent slots
where
  /-- A new state, remembered in a slot. -/
  new (slot : Nat) (extent : Extent) (slots : Array (Option (List Nat × Nat))) : Nat × Sharing :=
    (extent.states,
      ⟨extent.add 1 links, slots.setIfInBounds slot (some (ways, extent.states))⟩)

/-- The state from which sequences of at most `n` byte ranges lead to `finish`.
Sequences that begin alike go on together. -/
def node (finish : Nat) : Nat → List (List ByteRange) → StateM Sharing Nat
  | 0, _ => pure finish
  | _, [[]] => pure finish
  | n + 1, sequences => do
    let ways ← (sequences.splitBy fun s t => s.head? == t.head?).mapM fun group =>
      match group.head?.bind List.head? with
      | some r => do return [r.first, r.last, ← node finish n (group.map List.tail)]
      | none => pure []
    state ways.flatten (rangeBytes * ways.length)

/-- The states of a sequence of byte ranges that is read from its end and leads
to `finish`. -/
def chain (finish : Nat) (ranges : List ByteRange) : StateM Sharing Nat :=
  ranges.foldlM (fun number r => state [number, r.first, r.last] 0) finish

end Sharing

/-- The way in which an automaton reads a text. -/
inductive Reading where
  | forward
  | backward
deriving DecidableEq, Inhabited

def wordEncodings : List (List ByteRange) := Text.wordRanges.encodings

def digitEncodings : List (List ByteRange) := Text.digitRanges.encodings

/-- The encodings of all characters but the line feed. -/
def anyEncodings : List (List ByteRange) :=
  Text.Ranges.encodings [(0x0, 0x9), (0xB, 0x10FFFF)]

namespace Reading

/-- The extent after the states of some encodings, of at most four bytes each.
Forward they are shared from their ends on, up to one state where all begin, and
ten thousand states are remembered. Backward each begins at one branch, and a
thousand are remembered. -/
def encodings (reading : Reading) (e : Extent) (sequences : List (List ByteRange)) : Extent :=
  match reading with
  | .forward =>
    ((Sharing.node e.states 4 sequences).run (.start (e.add 1 0) 10000)).2.extent
  | .backward =>
    let chains := sequences.forM fun s => discard (Sharing.chain (e.states + 1) s)
    (chains.run (.start (e.add 2 0) 1000)).2.extent.add 0 (wayBytes * sequences.length)

def charClass (reading : Reading) (e : Extent) : CharClass → Extent
  | .char c => e.add c.utf8Size 0
  | .any => reading.encodings e anyEncodings
  | .digit => reading.encodings e digitEncodings
  | .word => reading.encodings e wordEncodings

/-- The extent after a pattern, unless it is too large. Groups are marked only
forward. What takes no character is never repeated, since a second round would
change nothing. -/
def pattern? (reading : Reading) : Pattern → Extent → Option Extent
  | .empty, e | .start, e | .finish, e => some (e.add 1 0)
  | .one c, e => (reading.charClass e c).fit?
  | .seq p q, e =>
    match reading with
    | .forward => (pattern? .forward p e).bind (pattern? .forward q)
    | .backward => (pattern? .backward q e).bind (pattern? .backward p)
  | .alt p q, e =>
    ((reading.pattern? p e).bind (reading.pattern? q)).map (·.add 2 (2 * wayBytes))
  | .repeated .atMostOne _ p, e => (reading.pattern? p (e.add 1 0)).map (·.add 1 (2 * wayBytes))
  | .repeated .atLeastOne _ p, e =>
    if p.isZeroWidth then reading.pattern? p e
    else (reading.pattern? p e).map (·.add 1 (2 * wayBytes))
  | .repeated .any _ p, e =>
    if p.isZeroWidth then (reading.pattern? p (e.add 1 0)).map (·.add 1 (2 * wayBytes))
    else if p.nullable then (reading.pattern? p e).map (·.add 3 (4 * wayBytes))
    else reading.pattern? p (e.add 1 (2 * wayBytes))
  | .group _ p, e =>
    match reading with
    | .forward => (pattern? .forward p (e.add 1 0)).map (·.add 1 0)
    | .backward => pattern? .backward p e

/-- A match begins only where the reading begins, if `rest` tells that of what
is read after the pattern. -/
def isAnchored (reading : Reading) : Pattern → Bool → Bool
  | .empty, rest => rest
  | .one _, _ => false
  | .start, rest => reading == .forward || rest
  | .finish, rest => reading == .backward || rest
  | .seq p q, rest =>
    match reading with
    | .forward => isAnchored .forward p (isAnchored .forward q rest)
    | .backward => isAnchored .backward q (isAnchored .backward p rest)
  | .alt p q, rest => reading.isAnchored p rest && reading.isAnchored q rest
  | .repeated .atLeastOne _ p, rest | .group _ p, rest => reading.isAnchored p rest
  | .repeated .atMostOne _ p, rest | .repeated .any _ p, rest => p.isZeroWidth && rest

/-- What comes before the pattern: one state if a match begins only where the
reading begins, and otherwise a loop over any bytes. -/
def lead (reading : Reading) (p : Pattern) : Extent :=
  if reading.isAnchored p false then ⟨1, 0⟩ else ⟨3, 2 * wayBytes + rangeBytes⟩

/-- The extent of a pattern's automaton, unless it is too large. Forward the
whole match is marked as groups are; a last state accepts. -/
def extent? (reading : Reading) (p : Pattern) : Option Extent := do
  ((← reading.pattern? (.group 0 p) (reading.lead p)).add 1 0).fit?

end Reading

/-- The pattern is within the limits. -/
def isAcceptable (p : Pattern) : Bool :=
  decide (p.nesting ≤ maxNesting) && (Reading.forward.extent? p).isSome &&
    (Reading.backward.extent? p).isSome

end Discharge.Pattern
