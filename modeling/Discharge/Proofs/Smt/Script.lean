import Discharge.Fraction.Decimal
import Discharge.Reader
import Mathlib

/-!
# Scripts of a solver

How a solver reads a text, and what it makes of it. A text is cut into tokens (`tokenize`), tokens
are put together to S-expressions (`build`), and these are commands (`Command.ofSExpr?`). A name
means the same with bars around it and without.

Formulas are about real numbers. A `Model` says what the constants stand for, and what a number
divided by zero is, of which nothing is known. An expression of the wrong shape has no value
(`SExpr.real?`) and no truth value (`SExpr.truth?`).
-/

namespace Discharge.Smt

/-! ## Reading -/

/-- A token of a script. -/
inductive Token where
  | opening | closing
  | symbol (name : String)
  | decimal (value : ℚ)

/-- The characters that names are written with when they stand without bars, and numbers. -/
def isAtomChar (c : Char) : Bool :=
  c.isAlphanum || ['~', '!', '@', '$', '%', '^', '&', '*', '_', '-', '+', '=', '<', '>', '.', '?',
    '/'].contains c

/-- The number that digits with a point among them stand for. -/
def decimal? (cs : List Char) : Option ℚ :=
  match cs.dropWhile Char.isDigit with
  | '.' :: places =>
    if !places.isEmpty && places.all Char.isDigit then
      some (Fraction.digitsValue (cs.takeWhile Char.isDigit ++ places) / 10 ^ places.length)
    else none
  | _ => none

/-- The token without bars that is written with the given characters. -/
def Token.ofAtom? (cs : List Char) : Option Token :=
  if cs.head?.any Char.isDigit then (decimal? cs).map .decimal
  else some (.symbol (String.ofList cs))

/-- The tokens of a text. Between bars all characters are allowed but bars and backslashes. -/
def tokenize (cs : List Char) : Option (List Token) :=
  match cs with
  | [] => some []
  | c :: cs =>
    if Reader.isBlank c then tokenize cs
    else if c = '(' then (tokenize cs).map (.opening :: ·)
    else if c = ')' then (tokenize cs).map (.closing :: ·)
    else if c = '|' then
      if (cs.dropWhile (· != '|')).isEmpty || (cs.takeWhile (· != '|')).contains '\\' then none
      else
        (tokenize (cs.dropWhile (· != '|')).tail).map
          (.symbol (String.ofList (cs.takeWhile (· != '|'))) :: ·)
    else if isAtomChar c then do
      let token ← Token.ofAtom? (c :: cs.takeWhile isAtomChar)
      (tokenize (cs.dropWhile isAtomChar)).map (token :: ·)
    else none
termination_by cs.length
decreasing_by
  all_goals
    have hbar := (List.dropWhile_sublist (l := cs) (· != '|')).length_le
    have hatom := (List.dropWhile_sublist (l := cs) isAtomChar).length_le
    simp only [List.length_cons, List.length_tail]
    omega

/-- A symbol, a number or a list. -/
inductive SExpr where
  | symbol (name : String)
  | decimal (value : ℚ)
  | list (items : List SExpr)

/-- Put tokens together. The lists that are still open are given with their items, both in reverse
order; the last one is that of the expressions outside of all parentheses. -/
def build : List Token → List (List SExpr) → Option (List SExpr)
  | [], [items] => some items.reverse
  | .opening :: tokens, stack => build tokens ([] :: stack)
  | .closing :: tokens, items :: outer :: stack =>
    build tokens ((.list items.reverse :: outer) :: stack)
  | .symbol s :: tokens, items :: stack => build tokens ((.symbol s :: items) :: stack)
  | .decimal q :: tokens, items :: stack => build tokens ((.decimal q :: items) :: stack)
  | _, _ => none

/-- A command to the solver. -/
inductive Command where
  /-- Let a name stand for a real number. -/
  | declare (name : String)
  | assert (formula : SExpr)
  | checkSat

/-- The name that a command declares. -/
def Command.declared? : Command → Option String
  | .declare name => some name
  | _ => none

/-- The names that a script declares, in order. -/
def declarations (script : List Command) : List String := script.filterMap Command.declared?

/-- The command that an expression is. -/
def Command.ofSExpr? : SExpr → Option Command
  | .list [.symbol command, .symbol name, .symbol sort] =>
    if command = "declare-const" ∧ sort = "Real" then some (.declare name) else none
  | .list [.symbol command, formula] => if command = "assert" then some (.assert formula) else none
  | .list [.symbol command] => if command = "check-sat" then some .checkSat else none
  | _ => none

/-- The commands of a text. -/
def script? (text : String) : Option (List Command) := do
  (← build (← tokenize text.toList) [[]]).mapM Command.ofSExpr?

/-! ## Meaning -/

/-- What constants stand for, and what numbers divided by zero are. -/
structure Model where
  constant : String → ℝ
  overZero : ℝ → ℝ

namespace Model

variable (M : Model)

/-- The quotient of two numbers. -/
noncomputable def divide (a b : ℝ) : ℝ := if b = 0 then M.overZero a else a / b

/-- An operation on numbers. More than two are taken from the left. -/
noncomputable def operate? (f : String) : List ℝ → Option ℝ
  | [a] => if f = "-" then some (-a) else none
  | a :: b :: cs =>
    if f = "+" then some ((b :: cs).foldl (· + ·) a)
    else if f = "-" then some ((b :: cs).foldl (· - ·) a)
    else if f = "*" then some ((b :: cs).foldl (· * ·) a)
    else if f = "/" then some ((b :: cs).foldl M.divide a)
    else none
  | [] => none

end Model

/-- A comparison of numbers, each with the next one, or of all with all for `distinct`. -/
def relate? (f : String) : List ℝ → Option Prop
  | a :: b :: cs =>
    if f = "<" then some ((a :: b :: cs).IsChain (· < ·))
    else if f = "<=" then some ((a :: b :: cs).IsChain (· ≤ ·))
    else if f = ">" then some ((a :: b :: cs).IsChain (· > ·))
    else if f = ">=" then some ((a :: b :: cs).IsChain (· ≥ ·))
    else if f = "=" then some ((a :: b :: cs).IsChain (· = ·))
    else if f = "distinct" then some ((a :: b :: cs).Pairwise (· ≠ ·))
    else none
  | _ => none

/-- The names that join formulas. -/
def isConnective (f : String) : Bool := ["and", "or", "not"].contains f

/-- Formulas joined to one. -/
def connect? (f : String) : List Prop → Option Prop
  | [p] => if f = "not" then some (¬ p) else none
  | p :: q :: rs =>
    if f = "and" then some ((p :: q :: rs).foldr And True)
    else if f = "or" then some ((p :: q :: rs).foldr Or False)
    else none
  | [] => none

namespace SExpr

mutual

/-- The number that a term stands for. A symbol that is not applied is a constant. -/
noncomputable def real? (M : Model) : SExpr → Option ℝ
  | .symbol s => some (M.constant s)
  | .decimal q => some q
  | .list (.symbol f :: args) => do M.operate? f (← reals? M args)
  | .list _ => none

/-- The numbers that terms stand for. -/
noncomputable def reals? (M : Model) : List SExpr → Option (List ℝ)
  | [] => some []
  | e :: es => do return (← e.real? M) :: (← reals? M es)

end

mutual

/-- What a formula says. -/
noncomputable def truth? (M : Model) : SExpr → Option Prop
  | .symbol s => if s = "true" then some True else if s = "false" then some False else none
  | .decimal _ => none
  | .list (.symbol f :: args) =>
    if isConnective f then do connect? f (← truths? M args) else do relate? f (← reals? M args)
  | .list _ => none

/-- What several formulas say. -/
noncomputable def truths? (M : Model) : List SExpr → Option (List Prop)
  | [] => some []
  | e :: es => do return (← e.truth? M) :: (← truths? M es)

end

mutual

/-- The constants of a term. -/
def termConstants : SExpr → List String
  | .symbol s => [s]
  | .decimal _ => []
  | .list (_ :: args) => termConstantsList args
  | .list [] => []

/-- The constants of several terms. -/
def termConstantsList : List SExpr → List String
  | [] => []
  | e :: es => e.termConstants ++ termConstantsList es

end

mutual

/-- The constants of a formula. -/
def constants : SExpr → List String
  | .list (.symbol f :: args) =>
    if isConnective f then constantsList args else termConstantsList args
  | _ => []

/-- The constants of several formulas. -/
def constantsList : List SExpr → List String
  | [] => []
  | e :: es => e.constants ++ constantsList es

end

end SExpr

/-- The formula is true. -/
def Model.Satisfies (M : Model) (formula : SExpr) : Prop := ∃ p, formula.truth? M = some p ∧ p

/-- Some model makes all that is asserted true. -/
def Satisfiable (script : List Command) : Prop :=
  ∃ M : Model, ∀ f, .assert f ∈ script → M.Satisfies f

end Discharge.Smt
