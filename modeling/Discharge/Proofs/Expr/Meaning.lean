import Discharge.Expr.Eval
import Discharge.Proofs.Fraction.Order

/-!
# Exact meaning

The evaluator of conditions computes with machine words and gives up where one does not fit. Here
the same evaluator is written over any arithmetic (`Expr.evalIn`). With the arithmetic of fractions
it is `Expr.eval?` (`eval?_eq_evalIn`); with that of the rationals it is the exact meaning of a
condition, in which a variable also has a length. A value computed with words is the exact one
(`eval?_evalIn_rational`).
-/

namespace Discharge

/-! ## Evaluation over an arithmetic -/

/-- What an expression can evaluate to, over numbers of a type. -/
inductive Result (N : Type) where
  | bool (value : Bool)
  | num (value : N)
  | str (value : String)
deriving DecidableEq

/-- The operations that evaluation needs of a type of numbers. -/
structure Arithmetic (N : Type) where
  literal : Fraction → N
  /-- The number of characters of a text. -/
  count? : Nat → Option N
  neg? : N → Option N
  operate? : ArithOp → N → N → Option N
  holds : CompareOp → N → N → Bool
  isInteger : N → Bool

/-- The numbers that variables, and the lengths of variables, stand for. -/
structure Lookup (N : Type) where
  value : String → Option N
  length : String → Option N

variable {M N : Type}

/-- The length that is looked up for a member. -/
def Lookup.lengthOf? (ρ : Lookup N) : Expr → String → Option N
  | .var x, f => if f = "length" then ρ.length x else none
  | _, _ => none

namespace Result

/-- The truth value, when it is one. -/
def asBool? : Result N → Option Bool
  | .bool b => some b
  | _ => none

/-- The number, when it is one. -/
def asNum? : Result N → Option N
  | .num q => some q
  | _ => none

theorem asNum?_eq_some {a : Result N} {q : N} : a.asNum? = some q ↔ a = .num q := by
  cases a <;> simp [asNum?]

/-- The result with its number replaced. -/
def map (f : M → N) : Result M → Result N
  | .bool b => .bool b
  | .num q => .num (f q)
  | .str s => .str s

/-- A value as a result over fractions. -/
def ofValue : Value → Result Fraction
  | .bool b => .bool b
  | .num q => .num q
  | .str s => .str s

/-- The result of a method without arguments. -/
def invoke? (f : String) : Result N → Option (Result N)
  | .str s => if f = "trim" then some (.str (Text.trim s)) else none
  | _ => none

theorem invoke?_eq_some {f : String} {a v : Result N} :
    invoke? f a = some v ↔ ∃ s, a = .str s ∧ f = "trim" ∧ .str (Text.trim s) = v := by
  cases a <;> simp [invoke?]

end Result

/-- The comparison holds of two rational numbers. -/
def CompareOp.Relates : CompareOp → ℚ → ℚ → Prop
  | .lt, a, b => a < b
  | .le, a, b => a ≤ b
  | .gt, a, b => a > b
  | .ge, a, b => a ≥ b
  | .eq, a, b => a = b
  | .ne, a, b => a ≠ b

instance (o : CompareOp) (a b : ℚ) : Decidable (o.Relates a b) := by
  cases o <;> unfold CompareOp.Relates <;> infer_instance

/-- Whether two operands that are only known to be the same or not compare as said. -/
def CompareOp.ofSame? (same : Bool) : CompareOp → Option Bool
  | .eq => some same
  | .ne => some !same
  | _ => none

namespace Arithmetic

variable (A : Arithmetic N)

/-- The field of a result. -/
def member? (f : String) : Result N → Option (Result N)
  | .str s => if f = "length" then (A.count? s.length).map .num else none
  | _ => none

theorem member?_eq_some {A : Arithmetic N} {f : String} {a v : Result N} :
    A.member? f a = some v ↔
      ∃ s n, a = .str s ∧ f = "length" ∧ A.count? s.length = some n ∧ .num n = v := by
  cases a <;> simp [member?]

/-- A comparison of results. -/
def compare? (o : CompareOp) : Result N → Result N → Option Bool
  | .num a, .num b => some (A.holds o a b)
  | .str a, .str b => o.ofSame? (a == b)
  | .bool a, .bool b => o.ofSame? (a == b)
  | _, _ => none

/-- A function of one argument. -/
def call? (f : String) (a : Result N) : Option (Result N) :=
  if f = "Number.isFinite" then some (.bool a.asNum?.isSome)
  else if f = "Number.isInteger" then some (.bool (a.asNum?.any A.isInteger))
  else none

end Arithmetic

namespace Expr

/-- The result of an expression over an arithmetic. -/
def evalIn (A : Arithmetic N) (ρ : Lookup N) : Expr → Option (Result N)
  | .bool b => some (.bool b)
  | .num q => some (.num (A.literal q))
  | .str s => some (.str s)
  | .var x => (ρ.value x).map .num
  | .branded .. => none
  | .member e f =>
    match ρ.lengthOf? e f with
    | some n => some (.num n)
    | none => do A.member? f (← e.evalIn A ρ)
  | .neg e => do
    let q ← (← e.evalIn A ρ).asNum?
    return .num (← A.neg? q)
  | .not e => do
    let b ← (← e.evalIn A ρ).asBool?
    return .bool !b
  | .arith o l r => do
    let a ← l.evalIn A ρ
    let b ← r.evalIn A ρ
    return .num (← A.operate? o (← a.asNum?) (← b.asNum?))
  | .compare o l r => do
    let a ← l.evalIn A ρ
    let b ← r.evalIn A ρ
    return .bool (← A.compare? o a b)
  | .and l r => do
    if ← (← l.evalIn A ρ).asBool? then return .bool (← (← r.evalIn A ρ).asBool?)
    else return .bool false
  | .or l r => do
    if ← (← l.evalIn A ρ).asBool? then return .bool true
    else return .bool (← (← r.evalIn A ρ).asBool?)
  | .call f [a] => do A.call? f (← a.evalIn A ρ)
  | .call _ _ => none
  | .invoke e f [] => do Result.invoke? f (← e.evalIn A ρ)
  | .invoke _ _ _ => none

end Expr

namespace Arithmetic

/-- Checked arithmetic of fractions. -/
def word : Arithmetic Fraction where
  literal := id
  count? n := Fraction.ofInt? n
  neg? := Fraction.neg?
  operate? := ArithOp.apply?
  holds := CompareOp.holds
  isInteger := Fraction.isInteger

end Arithmetic

theorem Lookup.lengthOf?_of_none {ρ : Lookup N} (h : ∀ x, ρ.length x = none) (e : Expr)
    (f : String) : ρ.lengthOf? e f = none := by
  cases e with
  | var x => simp [lengthOf?, h]
  | _ => rfl

@[simp] theorem Result.ofValue_bool (b : Bool) : ofValue (.bool b) = .bool b := rfl

@[simp] theorem Result.ofValue_num (q : Fraction) : ofValue (.num q) = .num q := rfl

@[simp] theorem Result.ofValue_str (s : String) : ofValue (.str s) = .str s := rfl

@[simp] theorem Result.asNum?_ofValue (v : Value) : (ofValue v).asNum? = v.asNum? := by
  cases v <;> rfl

@[simp] theorem Result.asBool?_ofValue (v : Value) : (ofValue v).asBool? = v.asBool? := by
  cases v <;> rfl

theorem Arithmetic.compare?_ofValue (o : CompareOp) (a b : Value) :
    word.compare? o (.ofValue a) (.ofValue b) = o.apply? a b := by
  cases a <;> cases b <;> cases o <;> rfl

namespace Expr

attribute [local simp] eval? evalIn

/-- Over fractions, where variables have no lengths, this is the evaluator of conditions. -/
theorem eval?_eq_evalIn (env : String → Option Fraction) (e : Expr) :
    (e.eval? env).map Result.ofValue = e.evalIn .word ⟨env, fun _ => none⟩ := by
  -- Both stop at the first operand without a value, and at one of the wrong kind.
  induction e with
  | bool b => rfl
  | num q => rfl
  | str s => rfl
  | var x => cases h : env x <;> simp [h]
  | branded x b => rfl
  | member e f ih =>
    rw [evalIn, Lookup.lengthOf?_of_none (fun _ => rfl), ← ih, eval?]
    rcases h : e.eval? env with _ | _ | _ | s
    · rfl
    · rfl
    · rfl
    · by_cases hf : f = "length"
      · cases hn : Fraction.ofInt? s.length <;>
          simp [hf, hn, Arithmetic.member?, Arithmetic.word]
      · simp [hf, Arithmetic.member?]
  | neg e ih =>
    rw [evalIn, ← ih, eval?]
    rcases h : e.eval? env with _ | v
    · rfl
    · rcases hq : v.asNum? with _ | q
      · simp [hq]
      · cases hn : q.neg? <;> simp [hq, hn, Arithmetic.word]
  | not e ih =>
    rw [evalIn, ← ih, eval?]
    rcases h : e.eval? env with _ | v
    · rfl
    · cases hb : v.asBool? <;> simp [hb]
  | arith o l r ihl ihr =>
    rw [evalIn, ← ihl, ← ihr, eval?]
    rcases hl : l.eval? env with _ | v
    · rfl
    rcases hr : r.eval? env with _ | w
    · rfl
    rcases hv : v.asNum? with _ | a
    · simp [hv]
    rcases hw : w.asNum? with _ | b
    · simp [hw]
    cases hc : o.apply? a b <;> simp [hv, hw, hc, Arithmetic.word]
  | compare o l r ihl ihr =>
    rw [evalIn, ← ihl, ← ihr, eval?]
    rcases hl : l.eval? env with _ | v
    · rfl
    rcases hr : r.eval? env with _ | w
    · rfl
    cases hc : o.apply? v w <;> simp [hc, Arithmetic.compare?_ofValue]
  | and l r ihl ihr =>
    rw [evalIn, ← ihl, ← ihr, eval?]
    rcases hl : l.eval? env with _ | v
    · rfl
    rcases hv : v.asBool? with _ | _ | _
    · simp [hv]
    · simp [hv]
    rcases hr : r.eval? env with _ | w
    · simp [hv]
    · cases hw : w.asBool? <;> simp [hv, hw]
  | or l r ihl ihr =>
    rw [evalIn, ← ihl, ← ihr, eval?]
    rcases hl : l.eval? env with _ | v
    · rfl
    rcases hv : v.asBool? with _ | _ | _
    · simp [hv]
    · rcases hr : r.eval? env with _ | w
      · simp [hv]
      · cases hw : w.asBool? <;> simp [hv, hw]
    · simp [hv]
  | call f as ih =>
    match as with
    | [] => rfl
    | [a] =>
      rw [evalIn, ← ih a List.mem_cons_self, eval?]
      rcases h : a.eval? env with _ | v
      · by_cases hf : f = "Number.isFinite" <;> by_cases hi : f = "Number.isInteger" <;>
          simp [hf, hi]
      · by_cases hf : f = "Number.isFinite"
        · simp [hf, Arithmetic.call?]
        · by_cases hi : f = "Number.isInteger" <;>
            simp [hf, hi, Arithmetic.call?, Arithmetic.word]
    | _ :: _ :: _ => rfl
  | invoke e f as ih _ =>
    match as with
    | [] =>
      rw [evalIn, ← ih, eval?]
      by_cases hf : f = "trim"
      · rcases h : e.eval? env with _ | _ | _ | s <;> simp [hf, Result.invoke?]
      · rcases h : e.eval? env with _ | _ | _ | s <;> simp [hf, Result.invoke?]
    | _ :: _ => rfl

theorem eval?_eq_some_iff {env : String → Option Fraction} {e : Expr} {v : Value} :
    e.eval? env = some v ↔ e.evalIn .word ⟨env, fun _ => none⟩ = some (.ofValue v) := by
  rw [← eval?_eq_evalIn]
  cases e.eval? env with
  | none => simp
  | some w => cases v <;> cases w <;> simp

/-! ## What the parts of an expression evaluate to -/

section Parts

variable {A : Arithmetic N} {ρ : Lookup N} {v : Result N}

theorem evalIn_member {e : Expr} {f : String} :
    (member e f).evalIn A ρ = some v ↔
      (∃ n, ρ.lengthOf? e f = some n ∧ .num n = v) ∨
      (ρ.lengthOf? e f = none ∧ ∃ a, e.evalIn A ρ = some a ∧ A.member? f a = some v) := by
  rw [evalIn]
  cases ρ.lengthOf? e f with
  | some n => simp
  | none => simp [Option.bind_eq_some_iff]

/-- Only the length of a variable is looked up, and a variable is no text. -/
theorem lengthOf?_of_str {e : Expr} {s f : String} (h : e.evalIn A ρ = some (.str s)) :
    ρ.lengthOf? e f = none := by
  cases e with
  | var x =>
    obtain ⟨_, _, hn⟩ := Option.map_eq_some_iff.1 h
    cases hn
  | _ => rfl

theorem evalIn_neg {e : Expr} :
    (neg e).evalIn A ρ = some v ↔
      ∃ q p, e.evalIn A ρ = some (.num q) ∧ A.neg? q = some p ∧ .num p = v := by
  simp [Option.bind_eq_some_iff, Result.asNum?_eq_some]

theorem evalIn_not {e : Expr} :
    (not e).evalIn A ρ = some v ↔ ∃ b, e.evalIn A ρ = some (.bool b) ∧ .bool (!b) = v := by
  rw [evalIn]
  rcases e.evalIn A ρ with _ | b | _ | _ <;> simp [Result.asBool?]

theorem evalIn_arith {o : ArithOp} {l r : Expr} :
    (arith o l r).evalIn A ρ = some v ↔
      ∃ a b c, l.evalIn A ρ = some (.num a) ∧ r.evalIn A ρ = some (.num b) ∧
        A.operate? o a b = some c ∧ .num c = v := by
  simp [Option.bind_eq_some_iff, Result.asNum?_eq_some]

theorem evalIn_compare {o : CompareOp} {l r : Expr} :
    (compare o l r).evalIn A ρ = some v ↔
      ∃ a b c, l.evalIn A ρ = some a ∧ r.evalIn A ρ = some b ∧
        A.compare? o a b = some c ∧ .bool c = v := by
  simp [Option.bind_eq_some_iff]

theorem evalIn_and {l r : Expr} :
    (and l r).evalIn A ρ = some v ↔
      (l.evalIn A ρ = some (.bool false) ∧ .bool false = v) ∨
      (l.evalIn A ρ = some (.bool true) ∧ ∃ b, r.evalIn A ρ = some (.bool b) ∧ .bool b = v) := by
  rw [evalIn]
  rcases l.evalIn A ρ with _ | (_ | _) | _ | _ <;>
    rcases r.evalIn A ρ with _ | b | _ | _ <;> simp [Result.asBool?]

theorem evalIn_or {l r : Expr} :
    (or l r).evalIn A ρ = some v ↔
      (l.evalIn A ρ = some (.bool true) ∧ .bool true = v) ∨
      (l.evalIn A ρ = some (.bool false) ∧ ∃ b, r.evalIn A ρ = some (.bool b) ∧ .bool b = v) := by
  rw [evalIn]
  rcases l.evalIn A ρ with _ | (_ | _) | _ | _ <;>
    rcases r.evalIn A ρ with _ | b | _ | _ <;> simp [Result.asBool?]

theorem evalIn_call {f : String} {as : List Expr} :
    (call f as).evalIn A ρ = some v ↔
      ∃ e a, as = [e] ∧ e.evalIn A ρ = some a ∧ A.call? f a = some v := by
  rcases as with _ | ⟨e, _ | _⟩ <;> simp [Option.bind_eq_some_iff]

theorem evalIn_invoke {e : Expr} {f : String} {as : List Expr} :
    (invoke e f as).evalIn A ρ = some v ↔
      as = [] ∧ ∃ a, e.evalIn A ρ = some a ∧ Result.invoke? f a = some v := by
  rcases as with _ | _ <;> simp [Option.bind_eq_some_iff]

end Parts

end Expr

/-! ## Exact arithmetic -/

namespace CompareOp

theorem relates_negated {o : CompareOp} {a b : ℚ} : o.negated.Relates a b ↔ ¬ o.Relates a b := by
  cases o with
  | lt => exact not_lt.symm
  | le => exact not_le.symm
  | gt => exact not_lt.symm
  | ge => exact not_le.symm
  | eq => exact Iff.rfl
  | ne => exact not_ne_iff.symm

theorem relates_flipped {o : CompareOp} {a b : ℚ} : o.flipped.Relates b a ↔ o.Relates a b := by
  cases o with
  | eq => exact eq_comm
  | ne => exact ne_comm
  | _ => exact Iff.rfl

/-- Fractions compare as the numbers they stand for. -/
theorem holds_iff_relates {o : CompareOp} {a b : Fraction} :
    o.holds a b = true ↔ o.Relates a.toRat b.toRat := by
  cases o with
  | lt => exact Fraction.lt_iff
  | le => exact Fraction.le_iff
  | gt => exact Fraction.lt_iff
  | ge => exact Fraction.le_iff
  | eq => exact beq_iff_eq.trans Fraction.toRat_inj.symm
  | ne => exact bne_iff_ne.trans Fraction.toRat_inj.not.symm

end CompareOp

/-- An arithmetic operator on rational numbers. The remainder is that of truncated division of
integers, and exponents are bounded as they are for words. -/
def ArithOp.rational? : ArithOp → ℚ → ℚ → Option ℚ
  | .add, a, b => some (a + b)
  | .sub, a, b => some (a - b)
  | .mul, a, b => some (a * b)
  | .div, a, b => if b = 0 then none else some (a / b)
  | .rem, a, b => if a.isInt ∧ b.isInt ∧ b ≠ 0 then some (a.num.tmod b.num : ℤ) else none
  | .pow, a, b =>
    if b.isInt ∧ 0 ≤ b ∧ b.num ≤ maxExponent then some (a ^ b.num.toNat) else none

namespace Arithmetic

/-- Exact arithmetic. -/
def rational : Arithmetic ℚ where
  literal := Fraction.toRat
  count? n := some n
  neg? q := some (-q)
  operate? := ArithOp.rational?
  holds o a b := decide (o.Relates a b)
  isInteger := Rat.isInt

/-- What the first arithmetic computes, the second computes too. -/
structure Refines (A : Arithmetic M) (B : Arithmetic N) (f : M → N) : Prop where
  literal : ∀ q, B.literal q = f (A.literal q)
  count : ∀ {n a}, A.count? n = some a → B.count? n = some (f a)
  neg : ∀ {a b}, A.neg? a = some b → B.neg? (f a) = some (f b)
  operate : ∀ {o a b c}, A.operate? o a b = some c → B.operate? o (f a) (f b) = some (f c)
  holds : ∀ o a b, B.holds o (f a) (f b) = A.holds o a b
  isInteger : ∀ a, B.isInteger (f a) = A.isInteger a

theorem rational?_toRat {o : ArithOp} {a b c : Fraction} (h : o.apply? a b = some c) :
    o.rational? a.toRat b.toRat = some c.toRat := by
  cases o with
  | add => rw [ArithOp.rational?, Fraction.toRat_add? h]
  | sub => rw [ArithOp.rational?, Fraction.toRat_sub? h]
  | mul => rw [ArithOp.rational?, Fraction.toRat_mul? h]
  | div =>
    obtain ⟨hb, hc⟩ := Fraction.toRat_div? h
    rw [ArithOp.rational?, if_neg hb, hc]
  | rem =>
    obtain ⟨hint, hc⟩ := Fraction.toRat_rem? h
    exact (if_pos hint).trans (congrArg some hc.symm)
  | pow =>
    rw [ ArithOp.apply?] at h
    split at h
    · rename_i hb
      simp only [Bool.and_eq_true, Bool.not_eq_true', decide_eq_true_eq] at hb
      obtain ⟨⟨hint, hneg⟩, hmax⟩ := hb
      rw [Fraction.isNegative_eq_false_iff] at hneg
      exact (if_pos ⟨hint, hneg, hmax⟩).trans (congrArg some (Fraction.toRat_pow? h).symm)
    · cases h

theorem word_refines_rational : Refines word rational Fraction.toRat where
  literal _ := rfl
  count h := by
    show some _ = some _
    rw [Fraction.toRat_ofInt? h]
    rfl
  neg h := congrArg some (Fraction.toRat_neg? h).symm
  operate := rational?_toRat
  holds o a b := by
    rw [Bool.eq_iff_iff]
    exact decide_eq_true_iff.trans CompareOp.holds_iff_relates.symm
  isInteger _ := rfl

end Arithmetic

namespace Expr

variable {A : Arithmetic M} {B : Arithmetic N} {f : M → N}

theorem asNum?_map (a : Result M) : (a.map f).asNum? = a.asNum?.map f := by
  cases a <;> rfl

theorem compare?_map (h : A.Refines B f) (o : CompareOp) (a b : Result M) :
    B.compare? o (a.map f) (b.map f) = A.compare? o a b := by
  cases a <;> cases b <;> simp [Result.map, Arithmetic.compare?, h.holds]

theorem call?_map (h : A.Refines B f) (g : String) (a : Result M) :
    B.call? g (a.map f) = (A.call? g a).map (Result.map f) := by
  have hinteger : (a.asNum?.map f).any B.isInteger = a.asNum?.any A.isInteger := by
    cases a.asNum? <;> simp [h.isInteger]
  unfold Arithmetic.call?
  rw [asNum?_map, hinteger, Option.isSome_map]
  split
  · rfl
  · split <;> rfl

/-- A result in an arithmetic is the result in every arithmetic that it refines to. -/
theorem evalIn_refines (h : A.Refines B f) {ρ : Lookup M} {ρ' : Lookup N}
    (hvalue : ∀ {x a}, ρ.value x = some a → ρ'.value x = some (f a))
    (hlength : ∀ x, ρ.length x = none) {e : Expr} {v : Result M}
    (hv : e.evalIn A ρ = some v) : e.evalIn B ρ' = some (v.map f) := by
  induction e generalizing v with
  | bool b => cases hv; rfl
  | num q =>
    cases hv
    rw [evalIn, h.literal, Result.map]
  | str s => cases hv; rfl
  | var x =>
    obtain ⟨a, ha, rfl⟩ := Option.map_eq_some_iff.1 hv
    rw [evalIn, hvalue ha]
    rfl
  | branded x b => cases hv
  | member e g ih =>
    rcases evalIn_member.1 hv with ⟨n, hn, _⟩ | ⟨_, a, ha, hm⟩
    · rw [Lookup.lengthOf?_of_none hlength] at hn
      cases hn
    · obtain ⟨s, n, rfl, rfl, hn, rfl⟩ := Arithmetic.member?_eq_some.1 hm
      refine evalIn_member.2 (.inr ⟨lengthOf?_of_str (ih ha), _, ih ha, ?_⟩)
      exact Arithmetic.member?_eq_some.2 ⟨s, f n, rfl, rfl, h.count hn, rfl⟩
  | neg e ih =>
    obtain ⟨q, p, hq, hp, rfl⟩ := evalIn_neg.1 hv
    exact evalIn_neg.2 ⟨f q, f p, ih hq, h.neg hp, rfl⟩
  | not e ih =>
    obtain ⟨b, hb, rfl⟩ := evalIn_not.1 hv
    exact evalIn_not.2 ⟨b, ih hb, rfl⟩
  | arith o l r ihl ihr =>
    obtain ⟨a, b, c, ha, hb, hc, rfl⟩ := evalIn_arith.1 hv
    exact evalIn_arith.2 ⟨f a, f b, f c, ihl ha, ihr hb, h.operate hc, rfl⟩
  | compare o l r ihl ihr =>
    obtain ⟨a, b, c, ha, hb, hc, rfl⟩ := evalIn_compare.1 hv
    exact evalIn_compare.2 ⟨_, _, c, ihl ha, ihr hb, (compare?_map h o a b).trans hc, rfl⟩
  | and l r ihl ihr =>
    rcases evalIn_and.1 hv with ⟨hl, rfl⟩ | ⟨hl, b, hr, rfl⟩
    · exact evalIn_and.2 (.inl ⟨ihl hl, rfl⟩)
    · exact evalIn_and.2 (.inr ⟨ihl hl, b, ihr hr, rfl⟩)
  | or l r ihl ihr =>
    rcases evalIn_or.1 hv with ⟨hl, rfl⟩ | ⟨hl, b, hr, rfl⟩
    · exact evalIn_or.2 (.inl ⟨ihl hl, rfl⟩)
    · exact evalIn_or.2 (.inr ⟨ihl hl, b, ihr hr, rfl⟩)
  | call g as ih =>
    obtain ⟨e, a, rfl, ha, hc⟩ := evalIn_call.1 hv
    refine evalIn_call.2 ⟨e, _, rfl, ih e List.mem_cons_self ha, ?_⟩
    rw [call?_map h, hc]
    rfl
  | invoke e g as ih _ =>
    obtain ⟨rfl, a, ha, hi⟩ := evalIn_invoke.1 hv
    obtain ⟨s, rfl, rfl, rfl⟩ := Result.invoke?_eq_some.1 hi
    exact evalIn_invoke.2 ⟨rfl, _, ih ha, rfl⟩

/-- A value computed with words is the exact one, whatever the lengths of variables are. -/
theorem eval?_evalIn_rational {env : String → Option Fraction} {ρ : Lookup ℚ}
    (hρ : ∀ {x q}, env x = some q → ρ.value x = some q.toRat) {e : Expr} {v : Value}
    (h : e.eval? env = some v) :
    e.evalIn .rational ρ = some ((Result.ofValue v).map Fraction.toRat) :=
  evalIn_refines Arithmetic.word_refines_rational hρ (fun _ => rfl) (eval?_eq_some_iff.1 h)

/-- A comparison of numbers says how they relate. -/
theorem evalIn_compare_num {ρ : Lookup ℚ} {o : CompareOp} {l r : Expr} {x y : ℚ}
    (hl : l.evalIn .rational ρ = some (.num x)) (hr : r.evalIn .rational ρ = some (.num y)) :
    (compare o l r).evalIn .rational ρ = some (.bool (decide (o.Relates x y))) :=
  evalIn_compare.2 ⟨.num x, .num y, _, hl, hr, rfl, rfl⟩

end Expr

end Discharge
