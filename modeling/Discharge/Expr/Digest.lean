import Discharge.Expr.Canonical
import Discharge.Hash

/-!
# Digests

A condition, or a set of facts, is identified across runs by a 64-bit FNV-1a
hash of its canonical text.
-/

namespace Discharge.Digest

/-- The hash after the bytes of a text. -/
def extend (hash : UInt64) (text : String) : UInt64 :=
  text.toUTF8.toList.foldl (fun hash byte => Hash.step hash byte.toUInt64) hash

/-- A word as sixteen lowercase hexadecimal digits. -/
def hex (n : UInt64) : String :=
  let ds := Nat.toDigits 16 n.toNat
  String.ofList (List.replicate (16 - ds.length) '0' ++ ds)

def ofText (text : String) : String :=
  "fnv1a64:" ++ hex (extend Hash.offsetBasis text)

/-- The digest of a condition, shared by all its spellings. -/
def ofGoal (goal : Expr) : String :=
  ofText goal.canonical.text

/-- The digest of a list of predicates attached to variables, whatever their
order. -/
def ofFacts (facts : List (String × Expr)) : String :=
  let lines := (facts.map fun (x, p) => x ++ "|" ++ p.canonical.text).mergeSort (· ≤ ·)
  "factsfnv1a64:" ++ hex (lines.foldl (fun h line => extend (extend h line) ";") Hash.offsetBasis)

end Discharge.Digest
