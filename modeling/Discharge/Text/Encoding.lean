import Discharge.Text.Classes

/-!
# Encoded ranges

A character is encoded in one to four bytes. This module describes the
encodings of a range of code points by sequences of byte ranges: a sequence
stands for all encodings whose bytes lie in its ranges, one after the other.
-/

namespace Discharge.Text

/-- A range of bytes, first and last included. -/
structure ByteRange where
  first : Nat
  last : Nat
deriving DecidableEq, Inhabited

/-- The bytes that may follow the first byte of an encoding; each carries six
bits. -/
def ByteRange.following : ByteRange := ⟨0x80, 0xBF⟩

/-- The sequences for the numbers from `lo` to `hi`, in ascending order, where
the first byte is `mark` more than the bits it carries and `n` bytes follow.
What begins or ends amid the numbers of one first byte has sequences of its
own; the first bytes between have one sequence together. -/
def spread : Nat → Nat → Nat → Nat → List (List ByteRange)
  | mark, 0, lo, hi => [[⟨mark + lo, mark + hi⟩]]
  | mark, n + 1, lo, hi =>
    let block := 64 ^ (n + 1)
    let first := lo / block
    let last := hi / block
    let under byte lo hi :=
      (spread ByteRange.following.first n lo hi).map (⟨mark + byte, mark + byte⟩ :: ·)
    if first = last then under first (lo % block) (hi % block)
    else
      let begins := lo % block = 0
      let ends := hi % block = block - 1
      let whole := if begins then first else first + 1
      let beyond := if ends then last + 1 else last
      (if begins then [] else under first (lo % block) (block - 1)) ++
        (if whole < beyond then
          [⟨mark + whole, mark + beyond - 1⟩ :: List.replicate (n + 1) .following]
        else []) ++
        (if ends then [] else under last 0 (hi % block))

/-- The code points by the form of their encodings: the mark of the first byte,
the number of bytes that follow it, and the first and last code point.
Surrogates have no encoding. -/
def encodingForms : List (Nat × Nat × Nat × Nat) := [
  (0x00, 0, 0x0, 0x7F), (0xC0, 1, 0x80, 0x7FF), (0xE0, 2, 0x800, 0xD7FF),
  (0xE0, 2, 0xE000, 0xFFFF), (0xF0, 3, 0x10000, 0x10FFFF)]

/-- The sequences for the code points of some ranges, in the order of the
ranges. -/
def Ranges.encodings (rs : Ranges) : List (List ByteRange) :=
  rs.flatMap fun (lo, hi) => encodingForms.flatMap fun (mark, n, least, greatest) =>
    if max lo least ≤ min hi greatest then spread mark n (max lo least) (min hi greatest) else []

end Discharge.Text
