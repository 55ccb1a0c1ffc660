import Discharge.Fraction.Basic

/-!
# The order of fractions

Two fractions are compared by their continued fraction expansions: first the
integer parts, then the fractional parts turned upside down. No product is
formed, so every number met is a word.
-/

namespace Discharge.Fraction

/-- The order of `an / ad` and `bn / bd`, for positive denominators. When the
integer parts agree and both fractional parts are nonzero, these compare as
their inverses do with the sides exchanged. -/
def compareParts (an : Int) (ad : Nat) (bn : Int) (bd : Nat) (_ : 0 < ad)
    (_ : 0 < bd) : Ordering :=
  match compare (an / ad) (bn / bd) with
  | .eq =>
    if hr : (an % ad).toNat = 0 then
      if (bn % bd).toNat = 0 then .eq else .lt
    else if hs : (bn % bd).toNat = 0 then .gt
    else compareParts bd (bn % bd).toNat ad (an % ad).toNat
      (Nat.pos_of_ne_zero hs) (Nat.pos_of_ne_zero hr)
  | o => o
termination_by ad + bd
decreasing_by
  have := Int.emod_lt_of_pos an (Int.natCast_pos.2 ‹0 < ad›)
  have := Int.emod_lt_of_pos bn (Int.natCast_pos.2 ‹0 < bd›)
  omega

/-- The order of two fractions by value. -/
def cmp (a b : Fraction) : Ordering :=
  compareParts a.num a.den b.num b.den a.den_pos b.den_pos

instance : Ord Fraction := ⟨cmp⟩

def lt (a b : Fraction) : Bool := a.cmp b == .lt

def le (a b : Fraction) : Bool := a.cmp b != .gt

end Discharge.Fraction
