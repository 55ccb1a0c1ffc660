import Discharge.Fraction.Order
import Discharge.Proofs.Fraction.Exact
import Mathlib.Algebra.Order.Floor.Ring
import Mathlib.Data.Rat.Floor

/-!
# Fractions compare by value

The comparison by continued fractions is the order of the rationals (`cmp_eq_compare_toRat`). Each
level takes off the two integer parts and turns both remainders upside down; since inversion reverses
the order of positive numbers, exchanging the two sides restores it (`compare_inv`). So the order is
total and tells different fractions apart.
-/

namespace Discharge

namespace Fraction

/-- Inversion reverses the order of positive numbers. -/
theorem compare_inv {x y : ℚ} (hx : 0 < x) (hy : 0 < y) : compare x⁻¹ y⁻¹ = compare y x := by
  have h : StrictAntiOn (fun q : ℚ => q⁻¹) (Set.Ioi 0) := fun a ha b _ hab =>
    inv_strictAnti₀ ha hab
  rw [← cmp_eq_compare, ← cmp_eq_compare]
  exact h.cmp_map_eq hx hy

/-- Numbers with one integer part compare as their fractional parts do. -/
theorem compare_add_fract {q : Int} {x y : ℚ} : compare (q + x) (q + y) = compare x y := by
  rw [← cmp_eq_compare, ← cmp_eq_compare, cmp_add_left]

/-- Numbers with different integer parts compare as these do. -/
theorem compare_of_floor_ne {x y : ℚ} (h : ⌊x⌋ ≠ ⌊y⌋) : compare x y = compare ⌊x⌋ ⌊y⌋ := by
  rcases lt_or_gt_of_ne h with hlt | hgt
  · rw [compare_lt_iff_lt.2 hlt, compare_lt_iff_lt]
    exact lt_of_not_ge fun hge => absurd (Int.floor_le_floor hge) (not_le.2 hlt)
  · rw [compare_gt_iff_gt.2 hgt, compare_gt_iff_gt]
    exact lt_of_not_ge fun hge => absurd (Int.floor_le_floor hge) (not_le.2 hgt)

theorem floor_div (n : Int) (d : Nat) : ⌊(n : ℚ) / d⌋ = n / d :=
  Rat.floor_intCast_div_natCast n d

/-- A quotient is its integer part and its remainder over the denominator. -/
theorem div_eq_add_rem (n : Int) {d : Nat} (hd : 0 < d) :
    (n : ℚ) / d = (n / d : Int) + ((n % d).toNat : ℚ) / d := by
  have hd' : (d : ℚ) ≠ 0 := Nat.cast_ne_zero.2 hd.ne'
  have hr : (((n % d).toNat : Nat) : ℚ) = ((n % d : Int) : ℚ) := by
    rw [← Int.cast_natCast, Int.toNat_of_nonneg (Int.emod_nonneg _ (by omega))]
  have hn : (n : ℚ) = (n / d : Int) * d + (n % d : Int) := by
    exact_mod_cast (Int.ediv_mul_add_emod n d).symm
  rw [hr, add_div_eq_mul_add_div _ _ hd', ← hn]

theorem rem_div_pos {n : Int} {d : Nat} (hd : 0 < d) (hr : (n % d).toNat ≠ 0) :
    0 < ((n % d).toNat : ℚ) / d :=
  div_pos (Nat.cast_pos.2 (Nat.pos_of_ne_zero hr)) (Nat.cast_pos.2 hd)

/-- Quotients with one integer part compare as their remainders over the denominators do. -/
theorem compare_rem {an bn : Int} {ad bd : Nat} (ha : 0 < ad) (hb : 0 < bd)
    (hq : compare (an / ad) (bn / bd) = .eq) :
    compare ((an : ℚ) / ad) ((bn : ℚ) / bd) =
      compare (((an % ad).toNat : ℚ) / ad) (((bn % bd).toNat : ℚ) / bd) := by
  rw [div_eq_add_rem an ha, div_eq_add_rem bn hb, compare_eq_iff_eq.1 hq, compare_add_fract]

/-- The comparison of parts is the order of the quotients. -/
theorem compareParts_eq_compare (an : Int) (ad : Nat) (bn : Int) (bd : Nat) (ha : 0 < ad)
    (hb : 0 < bd) :
    compareParts an ad bn bd ha hb = compare ((an : ℚ) / ad) ((bn : ℚ) / bd) := by
  fun_induction compareParts an ad bn bd ha hb with
  | case1 an ad bn bd ha hb hq hr hs =>
    rw [compare_rem ha hb hq, hr, hs, Nat.cast_zero, zero_div, zero_div, compare_eq_iff_eq.2 rfl]
  | case2 an ad bn bd ha hb hq hr hs =>
    rw [compare_rem ha hb hq, hr, Nat.cast_zero, zero_div, compare_lt_iff_lt.2 (rem_div_pos hb hs)]
  | case3 an ad bn bd ha hb hq hr hs =>
    rw [compare_rem ha hb hq, hs, Nat.cast_zero, zero_div, compare_gt_iff_gt.2 (rem_div_pos ha hr)]
  | case4 an ad bn bd ha hb hq hr hs ih =>
    -- The recursive call has the sides exchanged and each remainder under its denominator.
    have hx := rem_div_pos ha hr
    have hy := rem_div_pos hb hs
    rw [ih, compare_rem ha hb hq, ← compare_inv hy hx, inv_div, inv_div, Int.cast_natCast,
      Int.cast_natCast]
  | case5 an ad bn bd ha hb hq =>
    have h : ⌊(an : ℚ) / ad⌋ ≠ ⌊(bn : ℚ) / bd⌋ := fun e =>
      hq (compare_eq_iff_eq.2 (by rw [← floor_div, ← floor_div, e]))
    rw [compare_of_floor_ne h, floor_div, floor_div]

/-- **The comparison of fractions is the order of the rationals.** -/
theorem cmp_eq_compare_toRat (a b : Fraction) : a.cmp b = compare a.toRat b.toRat := by
  rw [cmp, compareParts_eq_compare, toRat_eq_div, toRat_eq_div]

/-! ## Laws of the order -/

theorem lt_iff {a b : Fraction} : a.lt b = true ↔ a.toRat < b.toRat := by
  rw [lt, beq_iff_eq, cmp_eq_compare_toRat, compare_lt_iff_lt]

theorem le_iff {a b : Fraction} : a.le b = true ↔ a.toRat ≤ b.toRat := by
  rw [le, bne_iff_ne, cmp_eq_compare_toRat, Ne, compare_gt_iff_gt, not_lt]

end Fraction

/-- A comparison of images is lawful when that of the values is. -/
theorem transCmp_comap {α β : Type} {cmp : β → β → Ordering} [Std.TransCmp cmp] (f : α → β) :
    Std.TransCmp fun a b => cmp (f a) (f b) where
  eq_swap := Std.OrientedCmp.eq_swap
  isLE_trans := Std.TransCmp.isLE_trans

instance : Std.TransOrd Fraction := by
  have h : (fun a b : Fraction => compare a b) = fun a b => compare a.toRat b.toRat := by
    funext a b
    exact Fraction.cmp_eq_compare_toRat a b
  show Std.TransCmp fun a b : Fraction => compare a b
  rw [h]
  exact transCmp_comap Fraction.toRat

instance : Std.LawfulEqOrd Fraction where
  compare_self {a} := (Fraction.cmp_eq_compare_toRat a a).trans (compare_eq_iff_eq.2 rfl)
  eq_of_compare {a b} h := by
    have h : compare a.toRat b.toRat = .eq := (Fraction.cmp_eq_compare_toRat a b).symm.trans h
    exact Fraction.toRat_injective (compare_eq_iff_eq.1 h)

end Discharge
