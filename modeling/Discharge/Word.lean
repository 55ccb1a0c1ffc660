/-!
# Machine words

Numerators and denominators are stored as 128-bit two's complement words. This
module fixes their range and the one operation every checked computation is
built from: `fit?`, which passes an exact integer on only when a word can hold
it.
-/

namespace Discharge.Word

/-- The least integer a word holds, `-2 ^ 127`. -/
def least : Int := -170141183460469231731687303715884105728

/-- The greatest integer a word holds, `2 ^ 127 - 1`. -/
def greatest : Int := 170141183460469231731687303715884105727

/-- An integer fits when a word can hold it. -/
def Fits (n : Int) : Prop := least ≤ n ∧ n ≤ greatest

instance (n : Int) : Decidable (Fits n) :=
  inferInstanceAs (Decidable (_ ∧ _))

/-- The integer itself when it fits, and nothing otherwise. -/
def fit? (n : Int) : Option Int :=
  if Fits n then some n else none

theorem fit?_eq_some_iff {n m : Int} : fit? n = some m ↔ n = m ∧ Fits n := by
  unfold fit?
  split <;> simp_all

/-- What lies between zero and a word is a word. -/
theorem Fits.of_nonneg_le {n m : Int} (h : Fits m) (hn : 0 ≤ n) (hm : n ≤ m) : Fits n :=
  ⟨Int.le_trans (by decide) hn, Int.le_trans hm h.2⟩

/-- Dividing a word by a positive number gives a word. -/
theorem Fits.ediv {n : Int} (h : Fits n) {g : Int} (hg : 0 < g) : Fits (n / g) := by
  obtain ⟨hl, hu⟩ := h
  refine ⟨?_, ?_⟩
  · rw [Int.le_ediv_iff_mul_le hg]
    refine Int.le_trans ?_ hl
    have : least * g ≤ least * 1 :=
      Int.mul_le_mul_of_nonpos_left (by decide) (by omega)
    simpa using this
  · rcases Int.lt_or_le n 0 with hn | hn
    · have : n / g < 0 := Int.ediv_neg_of_neg_of_pos hn hg
      have : (0 : Int) ≤ greatest := by decide
      omega
    · exact Int.le_trans (Int.ediv_le_self g hn) hu

end Discharge.Word
