import Discharge.Fraction.Basic
import Mathlib.Algebra.Order.Field.Basic
import Mathlib.Data.Nat.Cast.Field
import Mathlib.Data.Rat.Cast.Order
import Mathlib.Tactic.FieldSimp
import Mathlib.Tactic.Linarith
import Mathlib.Tactic.Ring

/-!
# Fractions are exact

A fraction denotes a rational number (`Fraction.toRat`), and it denotes it in lowest terms, so two
fractions with the same value are equal (`toRat_injective`). Every checked operation that gives a
result gives the exact one: `toRat_add?`, `toRat_mul?`, `toRat_pow?` and so on. Nothing is said here
of the operations that give no result; a caller never reads a value out of those.
-/

namespace Discharge

open Word (fit? Fits fit?_eq_some_iff)

namespace Fraction

/-- The rational number that a fraction denotes. -/
def toRat (a : Fraction) : ℚ := ⟨a.num, a.den, a.den_pos.ne', a.reduced⟩

@[simp] theorem toRat_num (a : Fraction) : a.toRat.num = a.num := rfl

@[simp] theorem toRat_den (a : Fraction) : a.toRat.den = a.den := rfl

theorem toRat_injective {a b : Fraction} (h : a.toRat = b.toRat) : a = b := by
  obtain ⟨n, d, _, _, _, _⟩ := a
  obtain ⟨m, e, _, _, _, _⟩ := b
  simp only [toRat, Rat.mk'.injEq] at h
  obtain ⟨rfl, rfl⟩ := h
  rfl

theorem toRat_inj {a b : Fraction} : a.toRat = b.toRat ↔ a = b :=
  ⟨toRat_injective, fun h => h ▸ rfl⟩

theorem toRat_eq_div (a : Fraction) : a.toRat = a.num / a.den :=
  (Rat.num_div_den a.toRat).symm

@[simp] theorem toRat_zero : zero.toRat = 0 := rfl

@[simp] theorem toRat_one : one.toRat = 1 := rfl

theorem den_ne_zero (a : Fraction) : (a.den : ℚ) ≠ 0 :=
  Nat.cast_ne_zero.2 a.den_pos.ne'

/-! ## Signs -/

theorem isZero_iff {a : Fraction} : a.isZero = true ↔ a.toRat = 0 := by
  rw [isZero, beq_iff_eq, ← toRat_num, Rat.num_eq_zero]

theorem isPositive_iff {a : Fraction} : a.isPositive = true ↔ 0 < a.toRat := by
  rw [isPositive, decide_eq_true_iff, ← toRat_num, Rat.num_pos]

theorem isNegative_iff {a : Fraction} : a.isNegative = true ↔ a.toRat < 0 := by
  rw [isNegative, decide_eq_true_iff, ← toRat_num, Rat.num_neg]

theorem isZero_eq_false_iff {a : Fraction} : a.isZero = false ↔ a.toRat ≠ 0 := by
  rw [Ne, ← isZero_iff, Bool.not_eq_true]

theorem isNegative_eq_false_iff {a : Fraction} : a.isNegative = false ↔ 0 ≤ a.toRat := by
  rw [← not_lt, ← isNegative_iff, Bool.not_eq_true]

theorem isInteger_iff {a : Fraction} : a.isInteger = true ↔ a.toRat = a.num := by
  rw [isInteger, beq_iff_eq, ← toRat_den, ← toRat_num]
  exact ⟨fun h => (Rat.coe_int_num_of_den_eq_one h).symm, fun h => by rw [h]; rfl⟩

/-! ## Cancelling a common factor -/

theorem gcd_den_pos (n : Int) (a : Fraction) : 0 < Int.gcd n a.den :=
  Int.gcd_pos_of_ne_zero_right n (Int.natCast_ne_zero.2 a.den_pos.ne')

section Cancel

variable (n : Int) {d : Nat} (hd : 0 < d)

include hd

theorem cast_gcd_ne_zero : (Int.gcd n d : ℚ) ≠ 0 :=
  Nat.cast_ne_zero.2 (Int.gcd_pos_of_ne_zero_right n (by omega)).ne'

theorem cast_num_div_gcd : ((n / Int.gcd n d : Int) : ℚ) = n / Int.gcd n d :=
  Int.cast_div (Int.gcd_dvd_left n d) (by exact_mod_cast cast_gcd_ne_zero n hd)

theorem cast_den_div_gcd : ((d / Int.gcd n d : Nat) : ℚ) = d / Int.gcd n d :=
  Nat.cast_div (Int.ofNat_dvd.1 (Int.gcd_dvd_right n d)) (cast_gcd_ne_zero n hd)

end Cancel

/-! ## Construction -/

theorem toRat_reduce? {n : Int} {d : Nat} {c : Fraction} (h : reduce? n d = some c) :
    d ≠ 0 ∧ c.toRat = n / d := by
  unfold reduce? at h
  split at h
  · rename_i hd
    obtain rfl := Option.some.inj h
    refine ⟨hd.1.ne', ?_⟩
    rw [toRat_eq_div]
    simp only [cast_num_div_gcd n hd.1, cast_den_div_gcd n hd.1]
    exact div_div_div_cancel_right₀ (cast_gcd_ne_zero n hd.1) _ _
  · exact absurd h (by simp)

theorem toRat_ofInts? {n d : Int} {c : Fraction} (h : ofInts? n d = some c) :
    d ≠ 0 ∧ c.toRat = n / d := by
  unfold ofInts? at h
  split at h
  · rename_i hd
    simp only [Option.bind_eq_bind, Option.bind_eq_some_iff, fit?_eq_some_iff] at h
    obtain ⟨_, ⟨rfl, -⟩, _, ⟨rfl, -⟩, h⟩ := h
    obtain ⟨hd', hc⟩ := toRat_reduce? h
    refine ⟨by omega, ?_⟩
    have e : (((-d).toNat : Nat) : ℚ) = -d := by
      rw [← Int.cast_natCast, Int.toNat_of_nonneg (by omega), Int.cast_neg]
    rw [hc, e, Int.cast_neg, neg_div_neg_eq]
  · obtain ⟨hd', hc⟩ := toRat_reduce? h
    refine ⟨by omega, ?_⟩
    have e : ((d.toNat : Nat) : ℚ) = d := by
      rw [← Int.cast_natCast, Int.toNat_of_nonneg (by omega)]
    rw [hc, e]

theorem toRat_ofInt? {n : Int} {c : Fraction} (h : ofInt? n = some c) : c.toRat = n := by
  unfold ofInt? at h
  split at h
  · obtain rfl := Option.some.inj h
    rfl
  · exact absurd h (by simp)

/-! ## Arithmetic -/

theorem toRat_neg? {a c : Fraction} (h : a.neg? = some c) : c.toRat = -a.toRat := by
  unfold neg? at h
  split at h
  · obtain rfl := Option.some.inj h
    rfl
  · exact absurd h (by simp)

theorem toRat_abs? {a c : Fraction} (h : a.abs? = some c) : c.toRat = |a.toRat| := by
  unfold abs? at h
  split at h
  · rename_i hn
    have hn : a.toRat < 0 := Rat.num_neg.1 hn
    rw [toRat_neg? h, abs_of_neg hn]
  · rename_i hn
    have hn : 0 ≤ a.toRat := Rat.num_nonneg.1 (not_lt.1 hn)
    rw [← Option.some.inj h, abs_of_nonneg hn]

theorem toRat_add? {a b c : Fraction} (h : a.add? b = some c) :
    c.toRat = a.toRat + b.toRat := by
  simp only [add?, Option.bind_eq_bind, Option.bind_eq_some_iff, fit?_eq_some_iff] at h
  obtain ⟨_, ⟨rfl, -⟩, _, ⟨rfl, -⟩, _, ⟨rfl, -⟩, _, ⟨rfl, -⟩, h⟩ := h
  obtain ⟨-, hc⟩ := toRat_ofInts? h
  have ha := a.den_ne_zero
  have hb := b.den_ne_zero
  have hg : (Nat.gcd a.den b.den : ℚ) ≠ 0 :=
    Nat.cast_ne_zero.2 (Nat.gcd_pos_of_pos_left _ a.den_pos).ne'
  -- The sum is taken over the least common denominator; what is cancelled is not zero.
  rw [hc, toRat_eq_div a, toRat_eq_div b]
  simp only [Int.cast_add, Int.cast_mul, Int.cast_natCast]
  rw [Nat.cast_div (Nat.gcd_dvd_right _ _) hg, Nat.cast_div (Nat.gcd_dvd_left _ _) hg]
  field_simp

theorem toRat_sub? {a b c : Fraction} (h : a.sub? b = some c) :
    c.toRat = a.toRat - b.toRat := by
  simp only [sub?, Option.bind_eq_bind, Option.bind_eq_some_iff] at h
  obtain ⟨n, hn, h⟩ := h
  rw [toRat_add? h, toRat_neg? hn, sub_eq_add_neg]

/-- A product keeps its value when each numerator is first cancelled against the other
denominator. -/
theorem cancelled_div_eq_mul (a b : Fraction) :
    (((a.num / Int.gcd a.num b.den) * (b.num / Int.gcd b.num a.den) : Int) : ℚ) /
      ((a.den / Int.gcd b.num a.den : Nat) * (b.den / Int.gcd a.num b.den : Nat) : Int) =
        a.toRat * b.toRat := by
  have ha := a.den_ne_zero
  have hb := b.den_ne_zero
  have hg := cast_gcd_ne_zero a.num b.den_pos
  have hh := cast_gcd_ne_zero b.num a.den_pos
  rw [toRat_eq_div a, toRat_eq_div b]
  simp only [Int.cast_mul, Int.cast_natCast, cast_num_div_gcd _ a.den_pos,
    cast_num_div_gcd _ b.den_pos, cast_den_div_gcd _ a.den_pos, cast_den_div_gcd _ b.den_pos]
  field_simp

theorem toRat_mul? {a b c : Fraction} (h : a.mul? b = some c) :
    c.toRat = a.toRat * b.toRat := by
  simp only [mul?, Option.bind_eq_bind, Option.bind_eq_some_iff, fit?_eq_some_iff] at h
  obtain ⟨_, ⟨rfl, -⟩, _, ⟨rfl, -⟩, h⟩ := h
  rw [(toRat_ofInts? h).2, cancelled_div_eq_mul]

theorem toRat_div? {a b c : Fraction} (h : a.div? b = some c) :
    b.toRat ≠ 0 ∧ c.toRat = a.toRat / b.toRat := by
  unfold div? at h
  split at h
  · exact absurd h (by simp)
  · rename_i hb
    simp only [Option.bind_eq_bind, Option.bind_eq_some_iff] at h
    obtain ⟨i, hi, h⟩ := h
    refine ⟨fun e => hb (isZero_iff.2 e), ?_⟩
    rw [toRat_mul? h, (toRat_ofInts? hi).2, toRat_eq_div b]
    push_cast
    rw [div_div_eq_mul_div, mul_div_assoc]

theorem toRat_rem? {a b c : Fraction} (h : a.rem? b = some c) :
    (a.isInteger = true ∧ b.isInteger = true ∧ b.toRat ≠ 0) ∧
      c.toRat = (a.num.tmod b.num : Int) := by
  unfold rem? at h
  split at h
  · rename_i hi
    simp only [Bool.and_eq_true, Bool.not_eq_true', isZero_eq_false_iff] at hi
    simp only [Option.bind_eq_bind, Option.bind_eq_some_iff] at h
    obtain ⟨_, -, h⟩ := h
    exact ⟨⟨hi.1.1, hi.1.2, hi.2⟩, toRat_ofInt? h⟩
  · exact absurd h (by simp)

theorem powFrom?_eq (acc base : Fraction) (e : Nat) :
    powFrom? acc base e = (if e % 2 = 1 then acc.mul? base else some acc).bind fun acc =>
      if e / 2 = 0 then some acc else (base.mul? base).bind fun sq => powFrom? acc sq (e / 2) := by
  rw [powFrom?]
  split <;> rfl

/-- Repeated squaring: the power still to be multiplied in is that of the current base to what is
left of the exponent. -/
theorem toRat_powFrom? {acc base c : Fraction} {e : Nat} (h : powFrom? acc base e = some c) :
    c.toRat = acc.toRat * base.toRat ^ e := by
  induction e using Nat.strongRecOn generalizing acc base with
  | _ e ih =>
    rw [powFrom?_eq, Option.bind_eq_some_iff] at h
    obtain ⟨acc', hacc, h⟩ := h
    have hodd : acc'.toRat = acc.toRat * base.toRat ^ (e % 2) := by
      split at hacc
      · rename_i he
        rw [toRat_mul? hacc, he, pow_one]
      · rename_i he
        rw [← Option.some.inj hacc, show e % 2 = 0 by omega, pow_zero, mul_one]
    split at h
    · rename_i he
      rw [← Option.some.inj h, hodd, show e % 2 = e by omega]
    · obtain ⟨sq, hsq, h⟩ := Option.bind_eq_some_iff.1 h
      have hp : base.toRat ^ e = base.toRat ^ (e % 2) * (base.toRat * base.toRat) ^ (e / 2) := by
        rw [← pow_two, ← pow_mul, ← pow_add, Nat.mod_add_div]
      rw [ih (e / 2) (by omega) h, hodd, toRat_mul? hsq, hp, mul_assoc]

theorem toRat_pow? {a c : Fraction} {e : Nat} (h : a.pow? e = some c) :
    c.toRat = a.toRat ^ e := by
  unfold pow? at h
  split at h
  · rename_i he
    rw [← Option.some.inj h, he, pow_zero, toRat_one]
  split at h
  · rename_i he ha
    rw [← Option.some.inj h]
    rcases Bool.or_eq_true _ _ ▸ ha with h0 | h1
    · rw [isZero_iff.1 h0, zero_pow he]
    · rw [beq_iff_eq.1 h1, toRat_one, one_pow]
  split at h
  · -- A power of minus one is told by the parity of the exponent.
    rename_i hn
    simp only [Bool.and_eq_true, beq_iff_eq] at hn
    have ha : a.toRat = -1 := by
      rw [isInteger_iff.1 hn.2, hn.1, Int.cast_neg, Int.cast_one]
    rw [← Option.some.inj h, apply_ite toRat, toRat_one, ha]
    split
    · rename_i he
      rw [(Nat.even_iff.2 he).neg_one_pow]
    · rename_i he
      rw [(Nat.odd_iff.2 (by omega)).neg_one_pow]
  · rw [toRat_powFrom? h, toRat_one, one_mul]

end Fraction

end Discharge
