import Discharge.Fraction.Order

/-!
# Conditions

`Expr` is the closed set of shapes that a condition and its terms can have.
This module holds the type, the operators and the operations that only follow
its structure: conjuncts, free variables, substitution.
-/

namespace Discharge

inductive ArithOp where
  | add | sub | mul | div | rem | pow
deriving DecidableEq, Repr

inductive CompareOp where
  | lt | le | gt | ge | eq | ne
deriving DecidableEq, Repr

/-- The sign an arithmetic operator is written with. -/
def ArithOp.symbol : ArithOp → String
  | .add => "+" | .sub => "-" | .mul => "*" | .div => "/" | .rem => "%" | .pow => "**"

namespace CompareOp

/-- The sign a comparison is written with. -/
def symbol : CompareOp → String
  | .lt => "<" | .le => "<=" | .gt => ">" | .ge => ">=" | .eq => "==" | .ne => "!="

def all : List CompareOp := [.lt, .le, .gt, .ge, .eq, .ne]

/-- The comparison written with a given sign. -/
def ofSymbol? (s : String) : Option CompareOp := all.find? (·.symbol == s)

/-- The comparison that holds with the operands exchanged. -/
def flipped : CompareOp → CompareOp
  | .lt => .gt | .le => .ge | .gt => .lt | .ge => .le | .eq => .eq | .ne => .ne

/-- The comparison that holds exactly when this one does not. -/
def negated : CompareOp → CompareOp
  | .lt => .ge | .le => .gt | .gt => .le | .ge => .lt | .eq => .ne | .ne => .eq

/-- The comparison excludes equal operands as `<` and `>` do. -/
def isStrict : CompareOp → Bool
  | .lt | .gt => true
  | _ => false

end CompareOp

/-- The arithmetic operator written with a given sign. -/
def ArithOp.ofSymbol? (s : String) : Option ArithOp :=
  [ArithOp.add, .sub, .mul, .div, .rem, .pow].find? (·.symbol == s)

/-- A condition, or a term of one. -/
inductive Expr where
  | bool (value : Bool)
  | num (value : Fraction)
  | str (value : String)
  | var (name : String)
  /-- A field of a value, as in `x.length`. -/
  | member (base : Expr) (field : String)
  | neg (operand : Expr)
  | not (operand : Expr)
  | arith (op : ArithOp) (left right : Expr)
  | compare (op : CompareOp) (left right : Expr)
  | and (left right : Expr)
  | or (left right : Expr)
  /-- A function applied to arguments, as in `Number.isFinite(x)`. -/
  | call (function : String) (args : List Expr)
  /-- A method of a value, as in `x.trim()`. -/
  | invoke (receiver : Expr) (method : String) (args : List Expr)
  /-- The annotation that a variable carries a brand, as in `x: Positive`. -/
  | branded (name : String) (brand : String)

namespace Expr

instance : Inhabited Expr := ⟨.bool true⟩

/-- Structural induction: a call may assume the statement of each argument. -/
@[induction_eliminator]
theorem induct {motive : Expr → Prop}
    (bool : ∀ b, motive (.bool b)) (num : ∀ q, motive (.num q)) (str : ∀ s, motive (.str s))
    (var : ∀ x, motive (.var x))
    (member : ∀ e f, motive e → motive (.member e f))
    (neg : ∀ e, motive e → motive (.neg e)) (not : ∀ e, motive e → motive (.not e))
    (arith : ∀ o l r, motive l → motive r → motive (.arith o l r))
    (compare : ∀ o l r, motive l → motive r → motive (.compare o l r))
    (and : ∀ l r, motive l → motive r → motive (.and l r))
    (or : ∀ l r, motive l → motive r → motive (.or l r))
    (call : ∀ f as, (∀ a ∈ as, motive a) → motive (.call f as))
    (invoke : ∀ e f as, motive e → (∀ a ∈ as, motive a) → motive (.invoke e f as))
    (branded : ∀ x b, motive (.branded x b)) (e : Expr) : motive e :=
  @Expr.rec motive (fun as => ∀ a ∈ as, motive a)
    bool num str var member neg not arith compare and or call invoke branded
    (fun _ h => absurd h List.not_mem_nil)
    (fun _ _ he ht _ h => (List.mem_cons.1 h).elim (fun e => e ▸ he) (ht _)) e

mutual

/-- Structural equality as a test. -/
def beq : Expr → Expr → Bool
  | .bool a, .bool b => a == b
  | .num a, .num b => a == b
  | .str a, .str b => a == b
  | .var a, .var b => a == b
  | .member a f, .member b g => a.beq b && f == g
  | .neg a, .neg b => a.beq b
  | .not a, .not b => a.beq b
  | .arith o a b, .arith p c d => o == p && a.beq c && b.beq d
  | .compare o a b, .compare p c d => o == p && a.beq c && b.beq d
  | .and a b, .and c d => a.beq c && b.beq d
  | .or a b, .or c d => a.beq c && b.beq d
  | .call f as, .call g bs => f == g && beqList as bs
  | .invoke a f as, .invoke b g bs => a.beq b && f == g && beqList as bs
  | .branded x a, .branded y b => x == y && a == b
  | _, _ => false

/-- Structural equality of argument lists as a test. -/
def beqList : List Expr → List Expr → Bool
  | [], [] => true
  | a :: as, b :: bs => a.beq b && beqList as bs
  | _, _ => false

end

theorem beqList_iff_eq {as : List Expr} (h : ∀ a ∈ as, ∀ b, a.beq b = true ↔ a = b) :
    ∀ bs, beqList as bs = true ↔ as = bs := by
  induction as with
  | nil => intro bs; cases bs <;> simp [beqList]
  | cons a as ih =>
    intro bs
    have ih := ih fun a ha => h a (List.mem_cons_of_mem _ ha)
    cases bs with
    | nil => simp [beqList]
    | cons b bs => simp [beqList, h a List.mem_cons_self b, ih bs]

/-- The test decides equality. -/
theorem beq_iff_eq (a b : Expr) : a.beq b = true ↔ a = b := by
  induction a generalizing b with
  | call f as ih => cases b <;> simp [beq, beqList_iff_eq ih]
  | invoke a f as iha ih => cases b <;> simp [beq, iha, beqList_iff_eq ih, and_assoc]
  | _ => cases b <;> simp_all [beq, and_assoc]

instance : DecidableEq Expr := fun a b => decidable_of_iff _ (beq_iff_eq a b)

/-- The name that stands for the annotated value in a brand's predicate. -/
def placeholder : String := "$"

/-- The conjunction of a list of conditions, nested to the left; none at all
gives `true`. -/
def conjunction : List Expr → Expr
  | [] => .bool true
  | e :: es => es.foldl .and e

/-- The conditions that a nested `&&` joins, from left to right. -/
def conjuncts : Expr → List Expr
  | .and l r => l.conjuncts ++ r.conjuncts
  | e => [e]

/-- The expression is a conjunction at its top. -/
def isConjunction : Expr → Bool
  | .and _ _ => true
  | _ => false

/-- The operands of nested applications of one operator, from left to right. -/
def operands (e : Expr) (o : ArithOp) : List Expr :=
  match e with
  | .arith p l r => if p = o then l.operands o ++ r.operands o else [.arith p l r]
  | e => [e]

/-- The literal at the top of an expression. -/
def asNum : Expr → Option Fraction
  | .num q => some q
  | _ => none

mutual

/-- Variables and annotated names in the order they are met, with repetitions. -/
def names : Expr → List String
  | .bool _ | .num _ | .str _ => []
  | .var x => [x]
  | .member e _ => e.names
  | .neg e | .not e => e.names
  | .arith _ l r | .compare _ l r | .and l r | .or l r => l.names ++ r.names
  | .call _ as => namesList as
  | .invoke e _ as => e.names ++ namesList as
  | .branded x _ => [x]

/-- The names of a list of arguments. -/
def namesList : List Expr → List String
  | [] => []
  | a :: as => a.names ++ namesList as

end

/-- The names an expression mentions, sorted and each once. -/
def freeVars (e : Expr) : List String :=
  (e.names.mergeSort (· ≤ ·)).eraseDups

/-- Some name is mentioned. -/
def hasFreeVars (e : Expr) : Bool := !e.names.isEmpty

mutual

/-- Replace a variable by an expression. A brand annotation of that variable is
renamed when the replacement is a variable, and otherwise left as it is. -/
def substitute (e : Expr) (x : String) (v : Expr) : Expr :=
  match e with
  | .var y => if y = x then v else .var y
  | .bool b => .bool b
  | .num q => .num q
  | .str s => .str s
  | .member e f => .member (e.substitute x v) f
  | .neg e => .neg (e.substitute x v)
  | .not e => .not (e.substitute x v)
  | .arith o l r => .arith o (l.substitute x v) (r.substitute x v)
  | .compare o l r => .compare o (l.substitute x v) (r.substitute x v)
  | .and l r => .and (l.substitute x v) (r.substitute x v)
  | .or l r => .or (l.substitute x v) (r.substitute x v)
  | .call f as => .call f (substituteList as x v)
  | .invoke e f as => .invoke (e.substitute x v) f (substituteList as x v)
  | .branded y b =>
    match v with
    | .var z => .branded (if y = x then z else y) b
    | _ => .branded y b

/-- Substitution in each argument. -/
def substituteList (as : List Expr) (x : String) (v : Expr) : List Expr :=
  match as with
  | [] => []
  | a :: as => a.substitute x v :: substituteList as x v

end

/-- A brand's predicate, said of a variable. -/
def instantiate (e : Expr) (x : String) : Expr :=
  e.substitute placeholder (.var x)

/-- The expression can be a condition. Variables, members and calls count,
since nothing is known of their type. -/
def isBoolean : Expr → Bool
  | .bool _ | .compare .. | .branded .. | .var _ | .member .. | .call .. | .invoke .. => true
  | .and l r | .or l r => l.isBoolean && r.isBoolean
  | .not e => e.isBoolean
  | .neg _ | .num _ | .str _ | .arith .. => false

end Expr

end Discharge
