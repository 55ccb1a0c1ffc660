/-!
# White space

Characters with the Unicode property `White_Space`, and trimming by them.
-/

namespace Discharge.Text

/-- The character has the Unicode property `White_Space`. -/
def isSpace (c : Char) : Bool :=
  let n := c.toNat
  (0x09 ≤ n && n ≤ 0x0D) || n == 0x20 || n == 0x85 || n == 0xA0 || n == 0x1680 ||
    (0x2000 ≤ n && n ≤ 0x200A) || n == 0x2028 || n == 0x2029 || n == 0x202F || n == 0x205F ||
    n == 0x3000

/-- The characters from the first one that is no white space on. -/
def trimStart (cs : List Char) : List Char :=
  cs.dropWhile isSpace

/-- The characters without white space at either end. -/
def trimChars (cs : List Char) : List Char :=
  (trimStart (trimStart cs).reverse).reverse

/-- A text without white space at either end. -/
def trim (s : String) : String :=
  String.ofList (trimChars s.toList)

end Discharge.Text
