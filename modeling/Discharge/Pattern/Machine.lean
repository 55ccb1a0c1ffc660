import Discharge.Pattern.Basic

/-!
# Matching

A pattern is matched by an automaton. Its states are tried at places of the
text in the order of preference: places from left to right, and at a branch the
preferred way first. A state that has been tried at a place is not tried there
again, since it would fail again; so the search takes no more steps than there
are states and places, also for nested repetitions.

The rule decides what a repetition does with rounds that take nothing: a way
that comes back to a state at the same place is given up. A repetition of what
takes at least one character is a single branch that its body returns to. If
the body may take nothing, there are two branches, one before the first round
and one after each round.
-/

namespace Discharge.Pattern

/-- A state of an automaton, with the states that it leads to. -/
inductive State where
  /-- Take a character of a class. -/
  | take (c : CharClass) (next : Nat)
  /-- Go on at the start of the text only. -/
  | atStart (next : Nat)
  /-- Go on at the end of the text only. -/
  | atFinish (next : Nat)
  | skip (next : Nat)
  /-- Go on in one of two ways, the first preferred. -/
  | branch (first second : Nat)
  /-- Remember this place. -/
  | mark (slot next : Nat)
  /-- The pattern has matched. -/
  | accept
deriving DecidableEq, Inhabited

/-- The branch from which a repetition goes into its body or leaves. -/
def State.loop (greedy : Bool) (body next : Nat) : State :=
  if greedy then .branch body next else .branch next body

/-- The slot that remembers where a group opens. -/
def openSlot (group : Nat) : Nat := 2 * group

/-- The slot that remembers where a group closes. -/
def closeSlot (group : Nat) : Nat := 2 * group + 1

/-- The number of states of a pattern. -/
def size : Pattern → Nat
  | .empty | .one _ | .start | .finish => 1
  | .seq p q => p.size + q.size
  | .alt p q => p.size + q.size + 1
  | .repeated .any _ p => p.size + (if p.nullable then 2 else 1)
  | .repeated .atMostOne _ p | .repeated .atLeastOne _ p => p.size + 1
  | .group _ p => p.size + 2

/-- The states of a pattern, numbered from `here` on; the first is where it is
entered, and after a match it goes on to `next`. -/
def states (here next : Nat) : Pattern → List State
  | .empty => [.skip next]
  | .one c => [.take c next]
  | .start => [.atStart next]
  | .finish => [.atFinish next]
  | .seq p q => p.states here (here + p.size) ++ q.states (here + p.size) next
  | .alt p q =>
    .branch (here + 1) (here + 1 + p.size) ::
      (p.states (here + 1) next ++ q.states (here + 1 + p.size) next)
  | .repeated .atMostOne greedy p => .loop greedy (here + 1) next :: p.states (here + 1) next
  | .repeated .atLeastOne greedy p =>
    p.states here (here + p.size) ++ [.loop greedy here next]
  | .repeated .any greedy p =>
    if p.nullable then
      .loop greedy (here + 1) next ::
        (p.states (here + 1) (here + 1 + p.size) ++ [.loop greedy (here + 1) next])
    else .loop greedy (here + 1) next :: p.states (here + 1) here
  | .group i p =>
    .mark (openSlot i) (here + 1) ::
      (p.states (here + 1) (here + 1 + p.size) ++ [.mark (closeSlot i) next])

/-- The states of a pattern with one more that accepts. -/
def automaton (p : Pattern) : Array State :=
  (p.states 0 p.size ++ [State.accept]).toArray

/-- A state to be tried at a place, with the places remembered on the way, the
latest first. -/
structure Trial where
  state : Nat
  place : Nat
  marks : List (Nat × Nat) := []

/-- The trials that follow from a state, the preferred one first. -/
def State.step (text : Array Char) (t : Trial) : State → List Trial
  | .take c next =>
    match text[t.place]? with
    | some d => if c.contains d then [{ t with state := next, place := t.place + 1 }] else []
    | none => []
  | .atStart next => if t.place = 0 then [{ t with state := next }] else []
  | .atFinish next => if t.place = text.size then [{ t with state := next }] else []
  | .skip next => [{ t with state := next }]
  | .branch first second => [{ t with state := first }, { t with state := second }]
  | .mark slot next => [{ t with state := next, marks := (slot, t.place) :: t.marks }]
  | .accept => []

/-- Try what is waiting, in order, for at most `n` steps. `tried` tells for
each place and state whether it has been tried. -/
def search (code : Array State) (text : Array Char) :
    Nat → List Trial → Array Bool → Option (List (Nat × Nat))
  | 0, _, _ => none
  | _, [], _ => none
  | n + 1, t :: waiting, tried =>
    let key := t.place * code.size + t.state
    if tried[key]?.getD true then search code text n waiting tried
    else match code[t.state]? with
      | none => search code text n waiting tried
      | some .accept => some t.marks
      | some s => search code text n (s.step text t ++ waiting) (tried.setIfInBounds key true)

/-- The places remembered by the leftmost match in a text. Each state is tried
once at each place and adds at most two trials to those from which the search
starts. -/
def find? (p : Pattern) (text : Array Char) : Option (List (Nat × Nat)) :=
  let code := p.automaton
  let places := text.size + 1
  let pairs := places * code.size
  search code text (places + 2 * pairs + 1) ((List.range places).map fun i => ⟨0, i, []⟩)
    (Array.replicate pairs false)

/-- The place that each slot remembers last. -/
def lastPlaces (slots : Nat) (marks : List (Nat × Nat)) : Array (Option Nat) :=
  marks.foldr (fun (slot, place) found => found.setIfInBounds slot (some place))
    (Array.replicate slots none)

/-- What each group matched in the leftmost match in a text, from the first
group on; a group that took no part matched nothing. -/
def groups? (p : Pattern) (text : String) : Option (List String) := do
  let cs := text.toList
  let marks ← p.find? cs.toArray
  let places := lastPlaces (openSlot (p.groupCount + 1)) marks
  return (List.range p.groupCount).map fun i =>
    match places[openSlot (i + 1)]?.join, places[closeSlot (i + 1)]?.join with
    | some a, some b => String.ofList ((cs.drop a).take (b - a))
    | _, _ => ""

end Discharge.Pattern
