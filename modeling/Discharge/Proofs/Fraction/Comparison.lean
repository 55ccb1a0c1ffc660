import Discharge.Proofs.Fraction.Machine
import Discharge.Proofs.Fraction.Order

/-!
# Comparing fractions on machine words

The comparison by continued fractions, written out as steps on machine words. One level divides both
numerators and either settles the order or leaves two further quotients to compare (`level`). No
step of it ever leaves the words, since a remainder lies below its divisor (`level_eq`). Two levels
after a denominator its remainder has been divided by a remainder in turn, so that less than half of
the denominator is left (`two_mul_emod_lt`). The number of levels is therefore at most twice the
number of bits, and no comparison takes more than 253 of them (`compareWithin_parts`).
-/

namespace Discharge

open Word (Fits)

namespace Machine

/-! ## Steps -/

/-- The quotient of the division whose remainder is not negative, without a check. -/
def floorQuotient (n d : Int) : Outcome Int := if d = 0 then .fault else unchecked (n / d)

/-- The remainder of that division, which asks for the quotient to be a word as well. -/
def floorRemainder (n d : Int) : Outcome Int := do
  let _ ← floorQuotient n d
  unchecked (n % d)

/-- What one level of a comparison comes to. -/
inductive Level where
  | decided (o : Ordering)
  /-- The order is that of two further quotients. -/
  | deeper (a b : Parts)

/-- One level of the comparison of two quotients. -/
def level (a b : Parts) : Outcome Level := do
  let qa ← floorQuotient a.num a.den
  let ra ← floorRemainder a.num a.den
  let qb ← floorQuotient b.num b.den
  let rb ← floorRemainder b.num b.den
  if qa ≠ qb then return .decided (compare qa qb)
  else if ra = 0 then return .decided (if rb = 0 then .eq else .lt)
  else if rb = 0 then return .decided .gt
  else return .deeper ⟨b.den, rb⟩ ⟨a.den, ra⟩

/-- The comparison of two quotients in at most the given number of levels. Too few of them leave it
open. -/
def compareWithin : Nat → Parts → Parts → Outcome (Option Ordering)
  | 0, _, _ => return none
  | n + 1, a, b => do
    match ← level a b with
    | .decided o => return some o
    | .deeper a b => compareWithin n a b

/-! ## One level -/

/-- Words with a denominator above zero. -/
structure Parts.Valid (a : Parts) : Prop where
  num_fits : Fits a.num
  den_fits : Fits a.den
  den_pos : 0 < a.den

/-- The number that parts stand for. -/
def Parts.value (a : Parts) : ℚ := a.num / a.den

theorem floorQuotient_eq {a : Parts} (ha : a.Valid) :
    floorQuotient a.num a.den = .value (a.num / a.den) := by
  rw [floorQuotient, if_neg ha.den_pos.ne', unchecked, if_pos (ha.num_fits.ediv ha.den_pos)]

theorem fits_emod {a : Parts} (ha : a.Valid) : Fits (a.num % a.den) :=
  ha.den_fits.of_nonneg_le (Int.emod_nonneg _ ha.den_pos.ne')
    (Int.emod_lt_of_pos _ ha.den_pos).le

theorem floorRemainder_eq {a : Parts} (ha : a.Valid) :
    floorRemainder a.num a.den = .value (a.num % a.den) := by
  rw [floorRemainder, floorQuotient_eq ha, Outcome.value_bind, unchecked, if_pos (fits_emod ha)]

/-- What a level hands down after taking off the integer part: the denominator over the
remainder. -/
def Parts.inverted (a : Parts) : Parts := ⟨a.den, a.num % a.den⟩

theorem Parts.Valid.inverted {a : Parts} (ha : a.Valid) (hr : a.num % a.den ≠ 0) :
    a.inverted.Valid where
  num_fits := ha.den_fits
  den_fits := fits_emod ha
  den_pos := lt_of_le_of_ne (Int.emod_nonneg _ ha.den_pos.ne') (Ne.symm hr)

/-- The part of the number that a level leaves after taking off the integer part. -/
def Parts.fraction (a : Parts) : ℚ := (a.num % a.den : Int) / a.den

theorem Parts.Valid.value_eq {a : Parts} (ha : a.Valid) :
    a.value = (a.num / a.den : Int) + a.fraction := by
  have hden : (a.den : ℚ) ≠ 0 := Int.cast_ne_zero.2 ha.den_pos.ne'
  have hnum : (a.num : ℚ) = (a.num / a.den : Int) * a.den + (a.num % a.den : Int) := by
    exact_mod_cast (Int.ediv_mul_add_emod a.num a.den).symm
  rw [Parts.value, Parts.fraction, add_div_eq_mul_add_div _ _ hden, ← hnum]

theorem Parts.Valid.floor_value {a : Parts} (ha : a.Valid) : ⌊a.value⌋ = a.num / a.den := by
  obtain ⟨n, d⟩ := a
  lift d to Nat using ha.den_pos.le
  rw [Parts.value, Int.cast_natCast, Fraction.floor_div]

theorem Parts.fraction_eq_zero {a : Parts} (hr : a.num % a.den = 0) : a.fraction = 0 := by
  rw [Parts.fraction, hr, Int.cast_zero, zero_div]

theorem Parts.Valid.fraction_pos {a : Parts} (ha : a.Valid) (hr : a.num % a.den ≠ 0) :
    0 < a.fraction :=
  div_pos (Int.cast_pos.2 (ha.inverted hr).den_pos) (Int.cast_pos.2 ha.den_pos)

theorem Parts.value_inverted (a : Parts) : a.inverted.value = a.fraction⁻¹ :=
  (inv_div _ _).symm

/-- **A level on words ends without a fault.** It decides the order, or neither quotient is an
integer and the order is that of the inverted remainders with the sides exchanged. -/
theorem level_eq {a b : Parts} (ha : a.Valid) (hb : b.Valid) :
    level a b = .value (.decided (compare a.value b.value)) ∨
      (a.num % a.den ≠ 0 ∧ b.num % b.den ≠ 0 ∧
        level a b = .value (.deeper b.inverted a.inverted) ∧
        compare b.inverted.value a.inverted.value = compare a.value b.value) := by
  rw [level, floorQuotient_eq ha, Outcome.value_bind, floorRemainder_eq ha, Outcome.value_bind,
    floorQuotient_eq hb, Outcome.value_bind, floorRemainder_eq hb, Outcome.value_bind]
  by_cases hq : a.num / a.den = b.num / b.den
  · -- The integer parts agree, so the order is that of the fractional parts.
    have horder : compare a.value b.value = compare a.fraction b.fraction := by
      rw [ha.value_eq, hb.value_eq, hq, Fraction.compare_add_fract]
    rw [if_neg (not_not.2 hq), horder]
    by_cases hr : a.num % a.den = 0
    · rw [if_pos hr, Parts.fraction_eq_zero hr]
      by_cases hs : b.num % b.den = 0
      · rw [if_pos hs, Parts.fraction_eq_zero hs, compare_eq_iff_eq.2 rfl]
        exact .inl rfl
      · rw [if_neg hs, compare_lt_iff_lt.2 (hb.fraction_pos hs)]
        exact .inl rfl
    · rw [if_neg hr]
      by_cases hs : b.num % b.den = 0
      · rw [if_pos hs, Parts.fraction_eq_zero hs, compare_gt_iff_gt.2 (ha.fraction_pos hr)]
        exact .inl rfl
      · rw [if_neg hs]
        refine .inr ⟨hr, hs, rfl, ?_⟩
        rw [Parts.value_inverted, Parts.value_inverted,
          Fraction.compare_inv (hb.fraction_pos hs) (ha.fraction_pos hr)]
  · rw [if_pos hq]
    have hfloor : ⌊a.value⌋ ≠ ⌊b.value⌋ := by rwa [ha.floor_value, hb.floor_value]
    rw [Fraction.compare_of_floor_ne hfloor, ha.floor_value, hb.floor_value]
    exact .inl rfl

/-! ## All levels -/

/-- What remains of a number after division by a remainder of it is less than half of it. -/
theorem two_mul_emod_lt {d r : Int} (hr : 0 < r) (hrd : r < d) : 2 * (d % r) < d := by
  have hlt := Int.emod_lt_of_pos d hr
  have hdiv := Int.ediv_mul_add_emod d r
  have hquot : 1 ≤ d / r := by
    rw [Int.le_ediv_iff_mul_le hr]
    omega
  nlinarith

theorem compareWithin_decided {n : Nat} {a b : Parts} {o : Ordering}
    (h : level a b = .value (.decided o)) : compareWithin (n + 1) a b = .value (some o) := by
  rw [compareWithin, h]
  rfl

theorem compareWithin_deeper {n : Nat} {a b a' b' : Parts}
    (h : level a b = .value (.deeper a' b')) :
    compareWithin (n + 1) a b = compareWithin n a' b' := by
  rw [compareWithin, h]
  rfl

/-- A comparison takes less than twice as many levels as the first denominator has bits. -/
theorem compareWithin_eq {k n : Nat} {a b : Parts} (ha : a.Valid) (hb : b.Valid)
    (hk : a.den < 2 ^ k) (hn : 2 * k ≤ n + 1) :
    compareWithin n a b = .value (some (compare a.value b.value)) := by
  induction k generalizing n a b with
  | zero =>
    have := ha.den_pos
    omega
  | succ k ih =>
    obtain ⟨n, rfl⟩ : ∃ m, n = m + 1 := ⟨n - 1, by omega⟩
    obtain hlevel | ⟨hra, hrb, hlevel, horder⟩ := level_eq ha hb
    · exact compareWithin_decided hlevel
    rw [compareWithin_deeper hlevel, ← horder]
    have hra' := (ha.inverted hra).den_pos
    have hlt : a.num % a.den < a.den := Int.emod_lt_of_pos _ ha.den_pos
    -- A remainder is left, so the denominator is above one.
    have hk0 : k ≠ 0 := by
      rintro rfl
      simp only [Parts.inverted] at hra'
      omega
    obtain ⟨n, rfl⟩ : ∃ m, n = m + 1 := ⟨n - 1, by omega⟩
    obtain hlevel' | ⟨hrb', hra'', hlevel', horder'⟩ :=
      level_eq (hb.inverted hrb) (ha.inverted hra)
    · exact compareWithin_decided hlevel'
    rw [compareWithin_deeper hlevel', ← horder']
    refine ih ((ha.inverted hra).inverted hra'') ((hb.inverted hrb).inverted hrb') ?_ (by omega)
    have hhalf := two_mul_emod_lt hra' hlt
    rw [pow_succ] at hk
    simp only [Parts.inverted] at hhalf ⊢
    omega

theorem parts_valid (a : Fraction) : a.parts.Valid where
  num_fits := a.num_fits
  den_fits := a.den_fits
  den_pos := Int.natCast_pos.2 a.den_pos

theorem value_parts (a : Fraction) : a.parts.value = a.toRat := by
  rw [Parts.value, Fraction.toRat_eq_div]
  rfl

/-- **No comparison of fractions takes more than 253 levels**, and each ends in the order of the
values. -/
theorem compareWithin_parts {n : Nat} (hn : 253 ≤ n) (a b : Fraction) :
    compareWithin n a.parts b.parts = .value (some (compare a.toRat b.toRat)) := by
  have hden : a.parts.den < 2 ^ 127 := Int.lt_of_le_sub_one a.den_fits.2
  rw [compareWithin_eq (parts_valid a) (parts_valid b) hden (by omega), value_parts, value_parts]

end Machine

namespace Fraction

/-- The comparison of any two fractions, run on machine words, ends after at most 253 levels without
a fault and as the comparison of fractions does. It is the order of the exact values, so it is
total, and it finds two fractions equal only if they have the same numerator and denominator. -/
theorem cmp_exact (a b c : Fraction) :
    (∀ n, 253 ≤ n → Machine.compareWithin n a.parts b.parts = .value (some (a.cmp b))) ∧
      a.cmp b = compare a.toRat b.toRat ∧
      (b.cmp a = (a.cmp b).swap ∧ ((a.cmp b).isLE → (b.cmp c).isLE → (a.cmp c).isLE)) ∧
      (a.cmp b = .eq ↔ a.num = b.num ∧ a.den = b.den) := by
  have hswap : compare b a = (compare a b).swap := Std.OrientedOrd.eq_swap
  have htrans : (compare a b).isLE → (compare b c).isLE → (compare a c).isLE :=
    Std.TransOrd.isLE_trans
  refine ⟨fun n hn => ?_, cmp_eq_compare_toRat a b, ⟨hswap, htrans⟩, ?_⟩
  · rw [cmp_eq_compare_toRat]
    exact Machine.compareWithin_parts hn a b
  · rw [cmp_eq_compare_toRat, compare_eq_iff_eq]
    exact ⟨fun h => ⟨congrArg Rat.num h, congrArg Rat.den h⟩, fun h => Rat.ext h.1 h.2⟩

/-- `1 + 1 / (m - 1)` lies below `1 + 1 / (m - 2)` for the greatest word `m`, where the products of
numerators and denominators are no words. -/
theorem cmp_exact_greatest :
    ∃ a b : Fraction, a.num = Word.greatest ∧ a.den = Word.greatest - 1 ∧
      b.num = Word.greatest - 1 ∧ b.den = Word.greatest - 2 ∧
      ¬ Fits (a.num * b.den) ∧ a.cmp b = .lt ∧
      Machine.compareWithin 253 a.parts b.parts = .value (some .lt) := by
  let a : Fraction := ⟨Word.greatest, 170141183460469231731687303715884105726, by decide,
    by decide +kernel, by decide, by decide⟩
  let b : Fraction := ⟨Word.greatest - 1, 170141183460469231731687303715884105725, by decide,
    by decide +kernel, by decide, by decide⟩
  obtain ⟨hrun, hcmp, -⟩ := cmp_exact a b b
  have hlt : a.cmp b = .lt := hcmp.trans (by decide +kernel)
  exact ⟨a, b, rfl, rfl, rfl, rfl, by decide +kernel, hlt, hlt ▸ hrun 253 le_rfl⟩

end Fraction

end Discharge
