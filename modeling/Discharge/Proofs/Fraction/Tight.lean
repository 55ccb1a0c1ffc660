import Discharge.Proofs.Fraction.Machine
import Mathlib.Data.Rat.Lemmas

/-!
# When the arithmetic of fractions gives nothing

A checked operation may give nothing although its exact result is a fraction, since a number met on
the way has to be a word as well. Products, powers and sums of integers never do that
(`mul?_isSome`, `pow?_isSome`, `add?_isSome`): they give nothing exactly when the exact result, in
lowest terms, is not made of words. A product has its common factors cancelled before it multiplies,
so what it multiplies is already in lowest terms. A power by repeated squaring meets only powers
with smaller exponents, and those are words when the power itself is (`Word.Fits.pow_of_le`). This
holds at the least word too, whose negation is no word.

A `Computation` is any one of the operations, with its run on machine words and its exact result.
-/

namespace Discharge

open Word (Fits fit? fit?_eq_some_iff)

/-- A smaller power of a number is a word when a greater one is. -/
theorem Word.Fits.pow_of_le {x : Int} {m n : Nat} (h : Fits (x ^ n)) (hmn : m ≤ n) :
    Fits (x ^ m) := by
  rcases hmn.eq_or_lt with rfl | hlt
  · exact h
  have hn := Int.natAbs_pow x n
  have hm := Int.natAbs_pow x m
  unfold Fits least greatest at *
  by_cases hx : x.natAbs ≤ 1
  · have : x.natAbs ^ m ≤ 1 ^ m := Nat.pow_le_pow_left hx m
    rw [Nat.one_pow] at this
    omega
  · -- One more factor doubles the magnitude at least, so the smaller power is not at the edge.
    have hdouble : x.natAbs ^ m * 2 ≤ x.natAbs ^ n := calc
      x.natAbs ^ m * 2 ≤ x.natAbs ^ m * x.natAbs := Nat.mul_le_mul_left _ (by omega)
      _ = x.natAbs ^ (m + 1) := (Nat.pow_succ ..).symm
      _ ≤ x.natAbs ^ n := Nat.pow_le_pow_right (by omega) hlt
    omega

namespace Fraction

/-- The rational number is a fraction: in lowest terms, it is made of words. -/
def Representable (q : ℚ) : Prop := Fits q.num ∧ Fits q.den

instance (q : ℚ) : Decidable (Representable q) := inferInstanceAs (Decidable (_ ∧ _))

theorem representable_toRat (a : Fraction) : Representable a.toRat := ⟨a.num_fits, a.den_fits⟩

theorem Representable.pow_of_le {q : ℚ} {m n : Nat} (h : Representable (q ^ n)) (hmn : m ≤ n) :
    Representable (q ^ m) := by
  simp only [Representable, Rat.num_pow, Rat.den_pow, Nat.cast_pow] at h ⊢
  exact ⟨h.1.pow_of_le hmn, h.2.pow_of_le hmn⟩

/-- What gives the exact result if anything, and something where the exact result is a fraction,
gives nothing exactly where it is none. -/
theorem eq_none_iff_of_exact {x : Option Fraction} {q : ℚ} (hx : ∀ c, x = some c → c.toRat = q)
    (h : Representable q → x.isSome) : x = none ↔ ¬ Representable q := by
  cases x with
  | none => simpa using h
  | some c => simpa [← hx c rfl] using representable_toRat c

theorem ofInts?_isSome {n : Int} {d : Nat} (hn : Fits n) (hd : Fits d) (hpos : 0 < d) :
    (ofInts? n d).isSome := by
  rw [ofInts?, if_neg (by omega), Int.toNat_natCast, reduce?, dif_pos ⟨hpos, hn, hd⟩]
  rfl

/-! ## Sums of integers -/

theorem add?_isSome {a b : Fraction} (ha : a.isInteger = true) (hb : b.isInteger = true)
    (h : Representable (a.toRat + b.toRat)) : (a.add? b).isSome := by
  have hsum : Fits (a.num + b.num) := by
    have := h.1
    rwa [isInteger_iff.1 ha, isInteger_iff.1 hb, ← Int.cast_add, Rat.num_intCast] at this
  rw [isInteger, beq_iff_eq] at ha hb
  have hone : Fits 1 := by decide
  simp only [add?, ha, hb, Nat.gcd_self, Nat.div_self Nat.one_pos, Nat.cast_one, mul_one, fit?,
    if_pos a.num_fits, if_pos b.num_fits, if_pos hsum, if_pos hone, Option.bind_eq_bind,
    Option.bind_some]
  exact ofInts?_isSome (d := 1) hsum hone Nat.one_pos

/-! ## Products -/

section Product

variable (a b : Fraction)

/-- The numerator and the denominator of a product, after the crosswise cancelling, have no common
factor left. -/
theorem coprime_cancelled :
    ((a.num / Int.gcd a.num b.den) * (b.num / Int.gcd b.num a.den)).natAbs.Coprime
      ((a.den / Int.gcd b.num a.den) * (b.den / Int.gcd a.num b.den)) := by
  rw [Int.natAbs_mul, Int.natAbs_ediv_of_dvd (Int.gcd_dvd_left _ _),
    Int.natAbs_ediv_of_dvd (Int.gcd_dvd_left _ _)]
  have hga := Nat.gcd_dvd_left a.num.natAbs b.den
  have hgb := Nat.gcd_dvd_right a.num.natAbs b.den
  have hhb := Nat.gcd_dvd_left b.num.natAbs a.den
  have hha := Nat.gcd_dvd_right b.num.natAbs a.den
  -- Within a fraction by its own lowest terms, across the two by what was cancelled.
  refine Nat.Coprime.mul_left (Nat.Coprime.mul_right ?_ ?_) (Nat.Coprime.mul_right ?_ ?_)
  · exact (a.reduced.coprime_div_left hga).coprime_div_right hha
  · exact Nat.coprime_div_gcd_div_gcd (gcd_den_pos a.num b)
  · exact Nat.coprime_div_gcd_div_gcd (gcd_den_pos b.num a)
  · exact (b.reduced.coprime_div_left hhb).coprime_div_right hgb

end Product

theorem mul?_isSome {a b : Fraction} (h : Representable (a.toRat * b.toRat)) :
    (a.mul? b).isSome := by
  have hda : 0 < a.den / Int.gcd b.num a.den :=
    Nat.div_gcd_pos_of_pos_right b.num.natAbs a.den_pos
  have hdb : 0 < b.den / Int.gcd a.num b.den :=
    Nat.div_gcd_pos_of_pos_right a.num.natAbs b.den_pos
  have hpos := Nat.mul_pos hda hdb
  have hcop := coprime_cancelled a b
  obtain ⟨hn, hd⟩ := h
  rw [← cancelled_div_eq_mul] at hn hd
  rw [Rat.num_div_eq_of_coprime (by exact_mod_cast hpos) (by exact_mod_cast hcop)] at hn
  rw [Rat.den_div_eq_of_coprime (by exact_mod_cast hpos) (by exact_mod_cast hcop)] at hd
  simp only [mul?, fit?, if_pos hn, if_pos hd, Option.bind_eq_bind, Option.bind_some]
  rw [← Nat.cast_mul] at hd ⊢
  exact ofInts?_isSome hn hd hpos

/-! ## Powers -/

/-- Repeated squaring where the accumulator and the base are powers of one number: each product that
is formed is a power of it with an exponent no greater than the last. -/
theorem powFrom?_isSome {q : ℚ} {k s e : Nat} {acc base : Fraction} (hacc : acc.toRat = q ^ k)
    (hbase : base.toRat = q ^ s) (h : Representable (q ^ (k + s * e))) :
    (powFrom? acc base e).isSome := by
  induction e using Nat.strongRecOn generalizing acc base k s with
  | _ e ih =>
    have hsplit : k + s * e = k + s * (e % 2) + s * 2 * (e / 2) := by
      rw [add_assoc, mul_assoc, ← mul_add, Nat.mod_add_div]
    obtain ⟨acc', hstep, hacc'⟩ : ∃ acc', (if e % 2 = 1 then acc.mul? base else some acc) =
        some acc' ∧ acc'.toRat = q ^ (k + s * (e % 2)) := by
      split
      · rename_i he
        rw [he, mul_one, pow_add, ← hacc, ← hbase]
        have hprod : Representable (acc.toRat * base.toRat) := by
          rw [hacc, hbase, ← pow_add]
          exact h.pow_of_le (by rw [hsplit, he]; omega)
        obtain ⟨c, hc⟩ := Option.isSome_iff_exists.1 (mul?_isSome hprod)
        exact ⟨c, hc, toRat_mul? hc⟩
      · rename_i he
        exact ⟨acc, rfl, by rw [hacc, show e % 2 = 0 by omega, mul_zero, add_zero]⟩
    rw [powFrom?_eq, hstep, Option.bind_some]
    split
    · rfl
    · rename_i he
      have hle : s * 2 ≤ s * 2 * (e / 2) := Nat.le_mul_of_pos_right _ (by omega)
      have hsquare : base.toRat * base.toRat = q ^ (s * 2) := by
        rw [hbase, pow_mul, pow_two]
      obtain ⟨sq, hsq⟩ := Option.isSome_iff_exists.1 (mul?_isSome
        (hsquare ▸ h.pow_of_le (show s * 2 ≤ k + s * e by omega)))
      rw [hsq, Option.bind_some]
      exact ih (e / 2) (by omega) hacc' ((toRat_mul? hsq).trans hsquare) (hsplit ▸ h)

theorem pow?_isSome {a : Fraction} {e : Nat} (h : Representable (a.toRat ^ e)) :
    (a.pow? e).isSome := by
  unfold pow?
  split
  · rfl
  split
  · rfl
  split
  · rfl
  · exact powFrom?_isSome (q := a.toRat) (k := 0) (s := 1) (by simp) (by simp) (by simpa using h)

end Fraction

/-! ## Every operation -/

/-- One checked operation with its operands: words to make a fraction of, or fractions. -/
inductive Computation where
  | make (n d : Int) (num_fits : Fits n) (den_fits : Fits d)
  | neg (a : Fraction)
  | abs (a : Fraction)
  | add (a b : Fraction)
  | sub (a b : Fraction)
  | mul (a b : Fraction)
  | div (a b : Fraction)
  | rem (a b : Fraction)
  | pow (a : Fraction) (e : UInt32)

namespace Computation

/-- What the operation on fractions gives. -/
def answer? : Computation → Option Fraction
  | make n d _ _ => Fraction.ofInts? n d
  | neg a => a.neg?
  | abs a => a.abs?
  | add a b => a.add? b
  | sub a b => a.sub? b
  | mul a b => a.mul? b
  | div a b => a.div? b
  | rem a b => a.rem? b
  | pow a e => a.pow? e.toNat

/-- The run on machine words. -/
def run : Computation → Machine.Outcome Machine.Parts
  | make n d _ _ => Machine.make n d
  | neg a => Machine.neg a.parts
  | abs a => Machine.abs a.parts
  | add a b => Machine.add a.parts b.parts
  | sub a b => Machine.sub a.parts b.parts
  | mul a b => Machine.mul a.parts b.parts
  | div a b => Machine.div a.parts b.parts
  | rem a b => Machine.rem a.parts b.parts
  | pow a e => Machine.pow a.parts e

/-- The exact result, where there is one. -/
def exactValue? : Computation → Option ℚ
  | make n d _ _ => if d = 0 then none else some (n / d)
  | neg a => some (-a.toRat)
  | abs a => some |a.toRat|
  | add a b => some (a.toRat + b.toRat)
  | sub a b => some (a.toRat - b.toRat)
  | mul a b => some (a.toRat * b.toRat)
  | div a b => if b.toRat = 0 then none else some (a.toRat / b.toRat)
  | rem a b =>
    if a.toRat.isInt && b.toRat.isInt && b.toRat != 0 then
      some (a.toRat.num.tmod b.toRat.num)
    else none
  | pow a e => some (a.toRat ^ e.toNat)

/-- The operations that give nothing only where they have to. -/
def IsTight : Computation → Prop
  | add a b => a.isInteger = true ∧ b.isInteger = true
  | mul _ _ => True
  | pow _ _ => True
  | _ => False

theorem run_eq_result (c : Computation) : c.run = Machine.result c.answer? := by
  cases c with
  | make n d hn hd => exact Machine.make_eq hn hd
  | neg a => exact Machine.neg_parts a
  | abs a => exact Machine.abs_parts a
  | add a b => exact Machine.add_parts a b
  | sub a b => exact Machine.sub_parts a b
  | mul a b => exact Machine.mul_parts a b
  | div a b => exact Machine.div_parts a b
  | rem a b => exact Machine.rem_parts a b
  | pow a e => exact Machine.pow_parts a e

theorem exactValue?_of_answer? {c : Computation} {r : Fraction} (h : c.answer? = some r) :
    c.exactValue? = some r.toRat := by
  cases c with
  | make n d _ _ =>
    obtain ⟨hd, hr⟩ := Fraction.toRat_ofInts? h
    rw [exactValue?, if_neg hd, hr]
  | neg a => rw [exactValue?, Fraction.toRat_neg? h]
  | abs a => rw [exactValue?, Fraction.toRat_abs? h]
  | add a b => rw [exactValue?, Fraction.toRat_add? h]
  | sub a b => rw [exactValue?, Fraction.toRat_sub? h]
  | mul a b => rw [exactValue?, Fraction.toRat_mul? h]
  | div a b =>
    obtain ⟨hb, hr⟩ := Fraction.toRat_div? h
    rw [exactValue?, if_neg hb, hr]
  | rem a b =>
    obtain ⟨⟨ha, hb, h0⟩, hr⟩ := Fraction.toRat_rem? h
    have hguard : (a.toRat.isInt && b.toRat.isInt && b.toRat != 0) = true := by
      simp only [Bool.and_eq_true, bne_iff_ne]
      exact ⟨⟨ha, hb⟩, h0⟩
    rw [exactValue?, if_pos hguard, hr]
    rfl
  | pow a e => rw [exactValue?, Fraction.toRat_pow? h]

/-- Where an operation is tight, it has an exact result, and gives it if that is a fraction. -/
theorem IsTight.exists_exact {c : Computation} (h : c.IsTight) :
    ∃ q, c.exactValue? = some q ∧ (Fraction.Representable q → c.answer?.isSome) := by
  cases c with
  | add a b => exact ⟨_, rfl, Fraction.add?_isSome h.1 h.2⟩
  | mul a b => exact ⟨_, rfl, Fraction.mul?_isSome⟩
  | pow a e => exact ⟨_, rfl, Fraction.pow?_isSome⟩
  | make | neg | abs | sub | div | rem => exact h.elim

/-- Every operation on fractions, run on machine words, ends without a fault and as the operation on
fractions does. A result is in lowest terms over a denominator above zero, made of words, and the
exact one. A product, a power and a sum of integers give nothing exactly when the exact result in
lowest terms has a numerator or a denominator that is no word. -/
theorem runs_exactly (c : Computation) :
    (c.run = Machine.result c.answer? ∧ c.run ≠ .fault) ∧
      (∀ r, c.run = .value r →
        0 < r.den ∧ r.num.natAbs.Coprime r.den.natAbs ∧ Fits r.num ∧ Fits r.den ∧
          c.exactValue? = some ((r.num : ℚ) / r.den)) ∧
      (c.IsTight →
        (c.answer? = none ↔ ∃ q, c.exactValue? = some q ∧ (¬ Fits q.num ∨ ¬ Fits q.den))) := by
  have hrun := c.run_eq_result
  refine ⟨⟨hrun, hrun ▸ Machine.result_ne_fault _⟩, fun r hr => ?_, fun ht => ?_⟩
  · obtain ⟨a, ha, rfl⟩ := Machine.result_eq_value_iff.1 (hrun ▸ hr)
    refine ⟨Int.natCast_pos.2 a.den_pos, a.reduced, a.num_fits, a.den_fits, ?_⟩
    rw [exactValue?_of_answer? ha, Fraction.toRat_eq_div]
    rfl
  · obtain ⟨q, hq, hsome⟩ := ht.exists_exact
    have hexact : ∀ r, c.answer? = some r → r.toRat = q := fun r hr =>
      Option.some.inj ((exactValue?_of_answer? hr).symm.trans hq)
    rw [Fraction.eq_none_iff_of_exact hexact hsome, Fraction.Representable, not_and_or]
    simp [hq]

/-- At the edge of the words: `(-2) ^ 127` is the least word and is given, while `2 ^ 127` is one
above the greatest and is not. -/
theorem runs_exactly_least :
    (pow (.ofWord (-2) (by decide)) 127).answer? ≠ none ∧
      (pow (.ofWord 2 (by decide)) 127).answer? = none := by
  have hleast := (runs_exactly (pow (.ofWord (-2) (by decide)) 127)).2.2 trivial
  have hpower := (runs_exactly (pow (.ofWord 2 (by decide)) 127)).2.2 trivial
  refine ⟨fun h => ?_, hpower.2 ⟨_, rfl, .inl (by decide +kernel)⟩⟩
  obtain ⟨q, hq, hno⟩ := hleast.1 h
  cases hq
  exact absurd hno (by decide +kernel)

end Computation

end Discharge
