/-!
# Hashing

The 64-bit FNV-1a hash. Each word is mixed into the hash and spread over it by
a multiplication.
-/

namespace Discharge.Hash

/-- The hash of nothing. -/
def offsetBasis : UInt64 := 0xcbf29ce484222325

/-- The factor by which each word is spread over the hash. -/
def prime : UInt64 := 0x00000100000001b3

/-- The hash after one more word. -/
def step (hash word : UInt64) : UInt64 :=
  (hash ^^^ word) * prime

/-- The hash of a list of numbers, each taken as one word. -/
def ofNats (words : List Nat) : UInt64 :=
  words.foldl (fun hash word => step hash word.toUInt64) offsetBasis

end Discharge.Hash
