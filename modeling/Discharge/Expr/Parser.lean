import Discharge.Expr.Canonical
import Discharge.Reader
import Discharge.Text.Space

/-!
# Reading conditions

The grammar, loosest binding first:

    condition   := name ':' brand | disjunction
    disjunction := conjunction ('||' conjunction)*
    conjunction := equality ('&&' equality)*
    equality    := relation (('===' | '!==' | '==' | '!=') relation)*
    relation    := sum (('<=' | '>=' | '<' | '>') sum)?
    sum         := product (('+' | '-') product)*
    product     := unary (('*' | '/' | '%') unary)*
    unary       := ('!' | '-') unary | power
    power       := postfix ('**' unary)?
    postfix     := primary ('.' name | '(' arguments ')')*
    primary     := number | 'true' | 'false' | text | name | '(' condition ')'

A brand name may carry numbers, as in `Vec<3>`. Nesting is resolved level by
level: `Grammar.level n` reads what is nested at most `n` deep, and a text
cannot nest deeper than it is long.
-/

namespace Discharge

/-- Why a text is not a condition. Offsets count bytes of the UTF-8 text. -/
inductive ParseError where
  | empty
  | unexpected (offset : Nat) (found : String)
  | outOfRange (offset : Nat)
deriving DecidableEq, Repr

/-- The message of a parse error. -/
def ParseError.message : ParseError → String
  | .empty => "empty expression"
  | .unexpected offset found =>
    "syntax error at offset " ++ toString offset ++ ": unexpected `" ++ found ++ "`"
  | .outOfRange offset => "numeric literal out of range at offset " ++ toString offset

namespace Expr

open Reader

/-- A name can start with this character. -/
def isNameStart (c : Char) : Bool := c.isAlpha || c == '_' || c == '$'

/-- A name can go on with this character. -/
def isNamePart (c : Char) : Bool := c.isAlphanum || c == '_' || c == '$'

def isName (text : String) : Bool :=
  match text.toList with
  | [] => false
  | c :: cs => isNameStart c && cs.all isNamePart

/-- Functions that are reached through one of these names belong to it, and have
no receiver. -/
def namespaces : List String := ["Number", "Math", "Array", "String", "Object"]

/-- What can follow a primary expression. -/
inductive Suffix where
  | field (name : String)
  | args (values : List Expr)

/-- Apply a suffix; only a name or a member can be called. -/
def applySuffix? : Expr → Suffix → Option Expr
  | e, .field f => some (.member e f)
  | .member (.var x) f, .args as =>
    if namespaces.contains x then some (.call (x ++ "." ++ f) as)
    else some (.invoke (.var x) f as)
  | .member e f, .args as => some (.invoke e f as)
  | .var f, .args as => some (.call f as)
  | _, .args _ => none

/-! ## Tokens -/

def nameReader : Reader String := do
  let c ← satisfy isNameStart
  let cs ← run isNamePart
  return String.ofList (c :: cs)

/-- A number, with or without decimal places. A name may not follow it
directly. -/
def numberReader : Reader Expr := do
  let start ← remaining
  let whole ← run1 Char.isDigit
  let places ← optional do
    let point ← char '.'
    return point :: (← run1 Char.isDigit)
  notNext isNameStart
  match Fraction.ofDecimalChars? (whole ++ places.getD []) with
  | some q => return .num q
  | none => abort start .outOfRange

/-- The characters between two quotes. -/
def quoted (quote : Char) : Reader String := do
  let _ ← char quote
  let cs ← run (· != quote)
  let _ ← char quote
  return String.ofList cs

/-- A text in single or double quotes. -/
def textReader : Reader Expr :=
  .str <$> orElse (quoted '\'') (quoted '"')

/-- A truth value or a variable. -/
def wordReader : Reader Expr := do
  let name ← nameReader
  return if name = "true" then .bool true else if name = "false" then .bool false else .var name

/-- The name of a brand, with its numbers in angle brackets if it has any. -/
def brandReader : Reader String := do
  let name ← nameReader
  let numbers ← optional do
    let _ ← spaced (char '<')
    let ns ← sepBy (spaced (char ',')) (run1 Char.isDigit)
    let _ ← spaced (char '>')
    return ns
  return match numbers with
    | none => name
    | some ns => name ++ "<" ++ ", ".intercalate (ns.map String.ofList) ++ ">"

/-- The annotation of a variable with a brand. Nothing but a closing
parenthesis may follow it. -/
def annotationReader : Reader Expr := do
  let name ← spaced nameReader
  let _ ← char ':'
  let brand ← spaced brandReader
  endOrNext (· == ')')
  return .branded name brand

/-! ## Operators -/

/-- The given word stands for the given operator. -/
def operator {α : Type} (w : String) (op : α) : Reader α := do
  word w.toList
  return op

/-- The first of several readers that does not miss. -/
def firstOf {α : Type} : List (Reader α) → Reader α
  | [] => fail
  | [r] => r
  | r :: rs => orElse r (firstOf rs)

/-- Operators of a product. A star that another star follows is not one. -/
def productOp : Reader ArithOp :=
  firstOf [do let op ← operator "*" .mul; notNext (· == '*'); return op,
    operator "/" .div, operator "%" .rem]

def sumOp : Reader ArithOp :=
  firstOf [operator "+" .add, operator "-" .sub]

def relationOp : Reader CompareOp :=
  firstOf [operator "<=" .le, operator ">=" .ge, operator "<" .lt, operator ">" .gt]

/-- Equality and its opposite, in either spelling. -/
def equalityOp : Reader CompareOp :=
  firstOf [operator "===" .eq, operator "!==" .ne, operator "==" .eq, operator "!=" .ne]

/-- Operands with operators between them, grouped to the left. -/
def leftAssoc {α : Type} (op : Reader α) (build : α → Expr → Expr → Expr)
    (operand : Reader Expr) : Reader Expr := do
  let first ← operand
  let more ← many do
    let o ← spaced op
    return (o, ← operand)
  return more.foldl (fun e (o, r) => build o e r) first

/-! ## Nesting -/

/-- The readers that the grammar uses inside itself. -/
structure Grammar where
  condition : Reader Expr
  disjunction : Reader Expr
  unary : Reader Expr

namespace Grammar

variable (g : Grammar)

/-- Numbers, texts, names and conditions in parentheses. -/
def primary : Reader Expr :=
  spaced (firstOf [numberReader, textReader, wordReader, do
    let _ ← char '('
    let e ← g.condition
    let _ ← commit (char ')')
    return e])

/-- A field access or the arguments of a call. -/
def suffix : Reader Suffix :=
  orElse
    (do
      let _ ← spaced (char '.')
      return .field (← nameReader))
    (do
      let _ ← spaced (char '(')
      let as ← sepBy (spaced (char ',')) g.disjunction
      let _ ← commit (spaced (char ')'))
      return .args as)

/-- A primary expression with what follows it. -/
def postfixed : Reader Expr := do
  let base ← g.primary
  let suffixes ← many g.suffix
  match suffixes.foldlM applySuffix? base with
  | some e => return e
  | none => abort (← remaining) .unexpected

/-- A power; the exponent reaches as far as a unary expression does. -/
def power : Reader Expr := do
  let base ← g.postfixed
  let exponent ← optional do
    spaced (word ['*', '*'])
    g.unary
  return match exponent with
    | some e => .arith .pow base e
    | none => base

/-- Negations of either kind. -/
def unaryLevel : Reader Expr :=
  firstOf [
    do
      let _ ← spaced do let c ← char '!'; notNext (· == '='); return c
      return .not (← g.unary),
    do
      let _ ← spaced (char '-')
      return negate (← g.unary),
    g.power]

def product : Reader Expr := leftAssoc productOp .arith g.unaryLevel

def sum : Reader Expr := leftAssoc sumOp .arith g.product

/-- Order relations; they do not chain. -/
def relation : Reader Expr := do
  let left ← g.sum
  let right ← optional do
    let o ← spaced relationOp
    return (o, ← g.sum)
  return match right with
    | some (o, r) => .compare o left r
    | none => left

def equality : Reader Expr := leftAssoc equalityOp .compare g.relation

def conjunctionLevel : Reader Expr :=
  leftAssoc (word ['&', '&']) (fun _ => .and) g.equality

def disjunctionLevel : Reader Expr :=
  leftAssoc (word ['|', '|']) (fun _ => .or) g.conjunctionLevel

def conditionLevel : Reader Expr := orElse annotationReader g.disjunctionLevel

/-- The readers for texts nested at most `n` deep. -/
def level : Nat → Grammar
  | 0 => ⟨fail, fail, fail⟩
  | n + 1 =>
    let inner := level n
    ⟨inner.conditionLevel, inner.disjunctionLevel, inner.unaryLevel⟩

end Grammar

/-- The number of bytes of a list of characters in UTF-8. -/
def byteLength : List Char → Nat
  | [] => 0
  | c :: cs => c.utf8Size + byteLength cs

/-- What an error message shows of the text from the place of the error on. -/
def excerpt (cs : List Char) : String :=
  let found := (Text.trimStart cs).take 12
  if found.isEmpty then "end of input" else String.ofList found

/-- Read the characters of a condition. -/
def parseChars (cs : List Char) : Except ParseError Expr :=
  if (Text.trimChars cs).isEmpty then .error .empty
  else
    let unexpected (place : List Char) : ParseError :=
      .unexpected (byteLength cs - byteLength place) (excerpt place)
    match spaced (Grammar.level (cs.length + 1)).condition cs with
    | .ok e [] => .ok e
    | .ok _ rest => .error (unexpected rest)
    | .miss place => .error (unexpected place)
    | .stop place .unexpected => .error (unexpected place)
    | .stop place .outOfRange => .error (.outOfRange (byteLength cs - byteLength place))

def parse (text : String) : Except ParseError Expr :=
  parseChars text.toList

end Expr

end Discharge
