import Discharge.Fraction.Basic

/-!
# Fractions as decimal text

A fraction is written as an integer, else as a finite decimal when that decimal
is exact and its digits form a word, else as `n/d`. Unsigned decimals such as
`42` and `0.5` are read back exactly.
-/

namespace Discharge.Fraction

open Word (fit?)

/-- The number that a run of decimal digits names. -/
def digitsValue (ds : List Char) : Nat :=
  ds.foldl (fun n c => 10 * n + (c.toNat - '0'.toNat)) 0

/-- Read an unsigned decimal: digits, then possibly a point and more digits.
The digits taken together, and the power of ten they are divided by, have to be
words. -/
def ofDecimalChars? (cs : List Char) : Option Fraction :=
  let whole := cs.takeWhile (· != '.')
  let places := (cs.dropWhile (· != '.')).tail
  if whole.isEmpty || !whole.all Char.isDigit || !places.all Char.isDigit then none
  else do
    let num ← fit? (digitsValue (whole ++ places))
    let den ← fit? (Nat.pow 10 places.length)
    ofInts? num den

def ofDecimal? (text : String) : Option Fraction :=
  ofDecimalChars? text.toList

/-- The least number of decimal places with which `1 / den` is exact, if a word
holds that power of ten. -/
def places? (den : Nat) : Option Nat :=
  (List.range 39).find? fun k => Nat.pow 10 k % den == 0

/-- The digits of `n`, with zeros in front up to the given width. -/
def paddedDigits (width n : Nat) : List Char :=
  let ds := Nat.toDigits 10 n
  List.replicate (width - ds.length) '0' ++ ds

/-- A list of characters without the zeros at its end. -/
def dropTrailingZeros (cs : List Char) : List Char :=
  (cs.reverse.dropWhile (· == '0')).reverse

/-- The exact decimal expansion, with a point, of a fraction that has one whose
digits form a word. -/
def decimal? (a : Fraction) : Option String := do
  let k ← places? a.den
  let power := Nat.pow 10 k
  let scaled ← fit? (a.num * ↑(power / a.den))
  let whole := Nat.toDigits 10 (scaled.natAbs / power)
  let places := dropTrailingZeros (paddedDigits k (scaled.natAbs % power))
  some (String.ofList ((if scaled < 0 then ['-'] else []) ++ whole ++ '.' :: places))

def text (a : Fraction) : String :=
  if a.den = 1 then toString a.num
  else match a.decimal? with
    | some s => s
    | none => toString a.num ++ "/" ++ toString a.den

end Discharge.Fraction
