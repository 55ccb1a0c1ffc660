import Discharge.Fraction.Basic

/-!
# Floating point approximations

The double nearest to a word, and the quotient of two such doubles as an
approximation of a fraction.
-/

namespace Discharge.Fraction

/-- The 53 leading binary digits of `n`, rounded to nearest with a tie going to
the even neighbour, and the power of two they are scaled by. -/
def leadingBits (n : Nat) : Nat × Nat :=
  if n < Nat.pow 2 53 then (n, 0)
  else
    let shift := n.log2 - 52
    let power := Nat.pow 2 shift
    let q := n / power
    let r := 2 * (n % power)
    let up := r > power || (r == power && q % 2 == 1)
    (if up then q + 1 else q, shift)

/-- The double nearest to an integer. -/
def nearestFloat (n : Int) : Float :=
  let (m, shift) := leadingBits n.natAbs
  let magnitude := (Float.ofNat m).scaleB shift
  if n < 0 then -magnitude else magnitude

/-- The quotient of the doubles nearest to numerator and denominator. -/
def toFloat (a : Fraction) : Float :=
  nearestFloat a.num / nearestFloat a.den

end Discharge.Fraction
