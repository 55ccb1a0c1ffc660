import Discharge.Word

/-!
# Fractions

A `Fraction` is a rational number in lowest terms whose numerator and
denominator are machine words. Its arithmetic is checked: an operation returns
the exact result, or nothing when the exact result, or a number met on the way
to it, is not a word. Callers read "nothing" as "not decided", never as a
value.
-/

namespace Discharge

open Word (fit? Fits)

/-- A rational number in lowest terms, both parts of which are words. -/
structure Fraction where
  num : Int
  den : Nat
  den_pos : 0 < den
  reduced : num.natAbs.Coprime den
  num_fits : Fits num
  den_fits : Fits den
deriving DecidableEq

namespace Fraction

/-- The fraction `n / d` in lowest terms, when both are words and `d` is not
zero. -/
def reduce? (n : Int) (d : Nat) : Option Fraction :=
  if h : 0 < d ∧ Fits n ∧ Fits d then
    have hg : 0 < Int.gcd n d := Int.gcd_pos_of_ne_zero_right n (by omega)
    some {
      num := n / Int.gcd n d
      den := d / Int.gcd n d
      den_pos := Nat.div_pos (Nat.le_of_dvd h.1 (Nat.gcd_dvd_right _ _)) hg
      reduced := by
        have hn : (n / Int.gcd n d).natAbs = n.natAbs / Int.gcd n d :=
          Int.natAbs_ediv_of_dvd (Int.gcd_dvd_left n d)
        rw [hn]
        exact Nat.coprime_div_gcd_div_gcd hg
      num_fits := h.2.1.ediv (by omega)
      den_fits := by
        rw [Int.natCast_ediv]
        exact h.2.2.ediv (by omega) }
  else none

/-- The fraction `n / d`. A negative denominator moves its sign to the
numerator, so both must have a negation among the words. -/
def ofInts? (n d : Int) : Option Fraction :=
  if d < 0 then do
    let n ← fit? (-n)
    let d ← fit? (-d)
    reduce? n d.toNat
  else reduce? n d.toNat

def ofWord (n : Int) (h : Fits n) : Fraction where
  num := n
  den := 1
  den_pos := Nat.one_pos
  reduced := Nat.coprime_one_right _
  num_fits := h
  den_fits := by decide

/-- An integer as a fraction, when it is a word. -/
def ofInt? (n : Int) : Option Fraction :=
  if h : Fits n then some (ofWord n h) else none

def zero : Fraction := ofWord 0 (by decide)

def one : Fraction := ofWord 1 (by decide)

instance : Inhabited Fraction := ⟨zero⟩

def isZero (a : Fraction) : Bool := a.num == 0

def isPositive (a : Fraction) : Bool := decide (0 < a.num)

def isNegative (a : Fraction) : Bool := decide (a.num < 0)

def isInteger (a : Fraction) : Bool := a.den == 1

/-- Minus one, zero or one, as the value lies below, at or above zero. -/
def sign (a : Fraction) : Int := a.num.sign

/-- The negation; the least word has none. -/
def neg? (a : Fraction) : Option Fraction :=
  if h : Fits (-a.num) then
    some { a with
      num := -a.num
      reduced := by rw [Int.natAbs_neg]; exact a.reduced
      num_fits := h }
  else none

/-- The absolute value; the least word has none. -/
def abs? (a : Fraction) : Option Fraction :=
  if a.num < 0 then a.neg? else some a

/-- The sum, over the least common denominator. -/
def add? (a b : Fraction) : Option Fraction := do
  let g := Nat.gcd a.den b.den
  let left ← fit? (a.num * ↑(b.den / g))
  let right ← fit? (b.num * ↑(a.den / g))
  let num ← fit? (left + right)
  let den ← fit? (↑a.den * ↑(b.den / g))
  ofInts? num den

/-- The difference, as the sum with the negation. -/
def sub? (a b : Fraction) : Option Fraction := do
  a.add? (← b.neg?)

/-- The product. Common factors are cancelled crosswise before multiplying, so
the factors are as small as they can be. -/
def mul? (a b : Fraction) : Option Fraction := do
  let g := Int.gcd a.num b.den
  let h := Int.gcd b.num a.den
  let num ← fit? ((a.num / g) * (b.num / h))
  let den ← fit? (↑(a.den / h) * ↑(b.den / g))
  ofInts? num den

/-- The quotient, as the product with the inverse. -/
def div? (a b : Fraction) : Option Fraction :=
  if b.isZero then none else do
    a.mul? (← ofInts? b.den b.num)

/-- The remainder of the division of two integers that rounds toward zero. The
quotient has to be a word as well. -/
def rem? (a b : Fraction) : Option Fraction :=
  if a.isInteger && b.isInteger && !b.isZero then do
    let _ ← fit? (a.num.tdiv b.num)
    ofInt? (a.num.tmod b.num)
  else none

/-- The product of `acc` and the power `base ^ e`, by repeated squaring. The
base is squared only while bits of the exponent remain. -/
def powFrom? (acc base : Fraction) (e : Nat) : Option Fraction := do
  let acc ← if e % 2 = 1 then acc.mul? base else some acc
  if h : e / 2 = 0 then some acc
  else powFrom? acc (← base.mul? base) (e / 2)
termination_by e
decreasing_by omega

/-- The power with a natural exponent. -/
def pow? (a : Fraction) (e : Nat) : Option Fraction :=
  if e = 0 then some one
  else if a.isZero || a == one then some a
  else if a.num == -1 && a.isInteger then some (if e % 2 = 0 then one else a)
  else powFrom? one a e

end Fraction

end Discharge
