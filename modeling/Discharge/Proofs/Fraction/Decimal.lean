import Discharge.Fraction.Decimal
import Discharge.Proofs.Fraction.Exact
import Mathlib

/-!
# Decimals are read back

A fraction is a decimal when it is, up to its sign, a number of tenth powers of which both the
number and the power of ten are words. Unsigned decimal texts name such fractions
(`Fraction.isDecimal_of_ofDecimalChars?`), and the text of one is a sign and an unsigned decimal
that names its absolute value (`Fraction.text_of_isDecimal`). The text has as few places as
possible, so that its digits are no larger than those of any other text of the fraction.
-/

namespace Discharge.Fraction

open Word (Fits fit?)

/-- Up to its sign, the fraction is a word divided by a power of ten that is a word. -/
def IsDecimal (q : Fraction) : Prop :=
  ∃ n p : Nat, Fits n ∧ Fits (10 ^ p : Nat) ∧ q.num.natAbs * 10 ^ p = n * q.den

/-- All of the characters are decimal digits. -/
def Digits (cs : List Char) : Prop := ∀ c ∈ cs, c.isDigit = true

/-- The digits before and behind a point denote a rational number. -/
structure Denotes (whole places : List Char) (x : ℚ) : Prop where
  whole_ne_nil : whole ≠ []
  whole_digits : Digits whole
  places_digits : Digits places
  value : x = digitsValue (whole ++ places) / 10 ^ places.length

/-- Decimal places with the point before them; none at all take no point. -/
def pointed (places : List Char) : List Char := if places = [] then [] else '.' :: places

/-- The sign of a text. -/
def signChars (q : Fraction) : List Char := if q.num < 0 then ['-'] else []

theorem digitsValue_eq (ds : List Char) : digitsValue ds = Nat.ofDigitChars 10 ds 0 :=
  Nat.ofDigitChars_eq_foldl.symm

theorem digitsValue_append (whole places : List Char) :
    digitsValue (whole ++ places) =
      10 ^ places.length * digitsValue whole + digitsValue places := by
  rw [digitsValue_eq, digitsValue_eq, digitsValue_eq, Nat.ofDigitChars_append,
    Nat.ofDigitChars_eq_ofDigitChars_zero]

theorem digitsValue_toDigits (n : Nat) : digitsValue (Nat.toDigits 10 n) = n := by
  rw [digitsValue_eq, Nat.ofDigitChars_ten_toDigits]

theorem digits_toDigits (n : Nat) : Digits (Nat.toDigits 10 n) :=
  fun _ hc => Nat.isDigit_of_mem_toDigits (by decide) (by decide) hc

theorem ne_point_of_isDigit {c : Char} (hc : c.isDigit = true) : c ≠ '.' := by
  rintro rfl
  cases hc

theorem abs_toRat (q : Fraction) : |q.toRat| = q.num.natAbs / q.den := by
  rw [toRat_eq_div, abs_div, Nat.abs_cast, Nat.cast_natAbs, Int.cast_abs]

/-- What it means for a decimal to be the absolute value. -/
theorem abs_toRat_eq_iff {q : Fraction} {n p : Nat} :
    |q.toRat| = n / 10 ^ p ↔ q.num.natAbs * 10 ^ p = n * q.den := by
  have hpow : (10 : ℚ) ^ p ≠ 0 := by positivity
  rw [abs_toRat, div_eq_div_iff q.den_ne_zero hpow]
  exact_mod_cast Iff.rfl

/-- The denominator of a decimal is no obstacle to the size of its numerator. -/
theorem natAbs_num_le {q : Fraction} {n p : Nat} (h : q.num.natAbs * 10 ^ p = n * q.den) :
    q.num.natAbs ≤ n := by
  obtain ⟨m, hm⟩ : q.den ∣ 10 ^ p := q.reduced.symm.dvd_of_dvd_mul_left (Dvd.intro_left n h.symm)
  have hn : q.num.natAbs * m = n := by
    refine Nat.eq_of_mul_eq_mul_right q.den_pos ?_
    rw [← h, hm]
    ring
  have hpos : 0 < m := Nat.pos_of_ne_zero fun hzero => by
    rw [hzero, mul_zero] at hm
    exact absurd hm (by positivity)
  rw [← hn]
  exact Nat.le_mul_of_pos_right _ hpos

/-- A decimal has a negation, which is a decimal. -/
theorem IsDecimal.neg? {q : Fraction} (h : q.IsDecimal) :
    ∃ q', q.neg? = some q' ∧ q'.IsDecimal := by
  obtain ⟨n, p, hn, hp, hnp⟩ := h
  have hfits : Fits (-q.num) := by
    have hle := natAbs_num_le hnp
    unfold Fits Word.least Word.greatest at hn ⊢
    omega
  refine ⟨_, dif_pos hfits, n, p, hn, hp, ?_⟩
  rwa [Int.natAbs_neg]

/-- A negative fraction is the negation of its absolute value. -/
theorem neg?_of_abs {q abs : Fraction} (habs : abs.toRat = |q.toRat|) (hneg : q.num < 0) :
    abs.neg? = some q := by
  have hrat : abs.toRat = -q.toRat := by rw [habs, abs_of_neg (Rat.num_neg.1 hneg)]
  have hnum : -abs.num = q.num := by
    have hnum : abs.num = -q.num := congrArg Rat.num hrat
    omega
  have hfits : Fits (-abs.num) := hnum ▸ q.num_fits
  refine (dif_pos hfits).trans (congrArg some (toRat_injective ?_))
  rw [toRat_neg? (dif_pos hfits), hrat, neg_neg]

theorem eq_of_abs {q abs : Fraction} (habs : abs.toRat = |q.toRat|) (hneg : ¬ q.num < 0) :
    abs = q :=
  toRat_injective (habs.trans (abs_of_nonneg (Rat.num_nonneg.1 (not_lt.1 hneg))))

/-! ## Reading -/

/-- What an unsigned decimal text names. -/
theorem ofDecimalChars?_pointed {whole places : List Char} (hne : whole ≠ [])
    (hwhole : Digits whole) (hplaces : Digits places) :
    ofDecimalChars? (whole ++ pointed places) = (do
      let num ← fit? (digitsValue (whole ++ places))
      let den ← fit? (Nat.pow 10 places.length)
      ofInts? num den) := by
  have hpoint : ∀ c ∈ whole, (c != '.') = true := fun c hc =>
    bne_iff_ne.2 (ne_point_of_isDigit (hwhole c hc))
  have hsplit : (whole ++ pointed places).takeWhile (· != '.') = whole ∧
      ((whole ++ pointed places).dropWhile (· != '.')).tail = places := by
    rw [List.takeWhile_append_of_pos hpoint, List.dropWhile_append_of_pos hpoint]
    unfold pointed
    split
    · rename_i hnil
      simp [hnil]
    · simp
  unfold ofDecimalChars?
  dsimp only
  rw [hsplit.1, hsplit.2, if_neg]
  simp [hne, List.all_eq_true.2 hwhole, List.all_eq_true.2 hplaces]

/-- The number of units and the power of ten are words, so there is a fraction. -/
theorem ofInts?_eq_some {n p : Nat} (hn : Fits n) (hp : Fits (10 ^ p : Nat)) :
    ∃ q, ofInts? n (Nat.pow 10 p) = some q ∧ q.toRat = n / 10 ^ p := by
  have hpos : 0 < 10 ^ p := Nat.pow_pos (by decide)
  obtain ⟨q, hq⟩ : ∃ q, reduce? (n : Int) (10 ^ p) = some q := by
    unfold reduce?
    rw [dif_pos ⟨hpos, hn, hp⟩]
    exact ⟨_, rfl⟩
  have hints : ofInts? (n : Int) ((Nat.pow 10 p : Nat) : Int) = some q := by
    unfold ofInts?
    rw [if_neg (by omega)]
    exact hq
  refine ⟨q, hints, ?_⟩
  rw [(toRat_ofInts? hints).2]
  simp

/-- A text in terms of what stands before and behind its first point. -/
theorem eq_split_at_point (cs : List Char) :
    cs = cs.takeWhile (· != '.') ++ '.' :: (cs.dropWhile (· != '.')).tail ∨
      (cs.dropWhile (· != '.')).tail = [] ∧ cs = cs.takeWhile (· != '.') := by
  induction cs with
  | nil => exact .inr ⟨rfl, rfl⟩
  | cons c cs ih =>
    by_cases hc : c = '.'
    · subst hc
      exact .inl rfl
    · have hne : (c != '.') = true := bne_iff_ne.2 hc
      simp only [List.takeWhile_cons, List.dropWhile_cons, hne, if_true]
      exact ih.imp (congrArg (c :: ·)) (And.imp_right (congrArg (c :: ·)))

/-- An unsigned decimal text names what its digits denote. The point may be left out when no digits
follow it. -/
theorem denotes_of_ofDecimalChars? {cs : List Char} {q : Fraction}
    (h : ofDecimalChars? cs = some q) :
    ∃ whole places, (cs = whole ++ '.' :: places ∨ places = [] ∧ cs = whole) ∧
      Denotes whole places q.toRat ∧ Fits (digitsValue (whole ++ places)) ∧
      Fits (10 ^ places.length : Nat) := by
  unfold ofDecimalChars? at h
  dsimp only at h
  split at h
  · cases h
  rename_i hdigits
  simp only [Bool.or_eq_true, Bool.not_eq_true', not_or, Bool.not_eq_true, Bool.not_eq_false,
    List.isEmpty_eq_false_iff, List.all_eq_true] at hdigits
  obtain ⟨⟨hne, hwhole⟩, hplaces⟩ := hdigits
  obtain ⟨num, hnum, h⟩ := Option.bind_eq_some_iff.1 h
  obtain ⟨den, hden, h⟩ := Option.bind_eq_some_iff.1 h
  obtain ⟨rfl, hn⟩ := Word.fit?_eq_some_iff.1 hnum
  obtain ⟨rfl, hp⟩ := Word.fit?_eq_some_iff.1 hden
  obtain ⟨q', hq', hvalue⟩ := ofInts?_eq_some hn hp
  obtain rfl : q = q' := Option.some.inj (h.symm.trans hq')
  exact ⟨_, _, eq_split_at_point cs, ⟨hne, hwhole, hplaces, hvalue⟩, hn, hp⟩

/-- An unsigned decimal text names a decimal. -/
theorem isDecimal_of_ofDecimalChars? {cs : List Char} {q : Fraction}
    (h : ofDecimalChars? cs = some q) : q.IsDecimal := by
  obtain ⟨whole, places, -, hvalue, hn, hp⟩ := denotes_of_ofDecimalChars? h
  have hnonneg : 0 ≤ q.toRat := hvalue.value ▸ by positivity
  refine ⟨_, _, hn, hp, abs_toRat_eq_iff.1 ?_⟩
  rw [abs_of_nonneg hnonneg, hvalue.value]

/-! ## Writing -/

/-- The powers of ten among the words. -/
theorem fits_pow_iff {p : Nat} : Fits (10 ^ p : Nat) ↔ p < 39 := by
  constructor
  · intro h
    by_contra hge
    have hle : 10 ^ 39 ≤ 10 ^ p := Nat.pow_le_pow_right (by decide) (by omega)
    have := h.2
    unfold Word.greatest at this
    omega
  · intro h
    have hgreatest : Fits (10 ^ 38 : Nat) := by decide
    exact hgreatest.of_nonneg_le (by positivity)
      (by exact_mod_cast Nat.pow_le_pow_right (by decide) (by omega))

/-- The number of places is the least with which the denominator divides a power of ten, and that
power is a word. -/
theorem places?_eq_some_iff {den k : Nat} :
    places? den = some k ↔ Fits (10 ^ k : Nat) ∧ den ∣ 10 ^ k ∧ ∀ j < k, ¬ den ∣ 10 ^ j := by
  rw [places?, List.find?_range_eq_some, fits_pow_iff, List.mem_range]
  simp only [Nat.pow_eq, beq_iff_eq, ← Nat.dvd_iff_mod_eq_zero, Bool.not_eq_true',
    beq_eq_false_iff_ne, ne_eq]
  tauto

/-- Places are found as soon as the denominator divides some power of ten that is a word. -/
theorem exists_places {den p : Nat} (hdvd : den ∣ 10 ^ p) (hp : Fits (10 ^ p : Nat)) :
    ∃ k ≤ p, places? den = some k := by
  have hex : ∃ k, den ∣ 10 ^ k := ⟨p, hdvd⟩
  have hle : Nat.find hex ≤ p := Nat.find_min' hex hdvd
  have hfits : Fits (10 ^ Nat.find hex : Nat) := fits_pow_iff.2 (hle.trans_lt (fits_pow_iff.1 hp))
  exact ⟨_, hle, places?_eq_some_iff.2 ⟨hfits, Nat.find_spec hex, fun j => Nat.find_min hex⟩⟩

/-- The last digit of a number. -/
theorem toDigits_eq_append (n : Nat) :
    ∃ ds, Nat.toDigits 10 n = ds ++ [(n % 10).digitChar] := by
  rw [Nat.toDigits_eq_if (by decide)]
  split
  · rename_i hlt
    exact ⟨[], by rw [Nat.mod_eq_of_lt hlt]; rfl⟩
  · exact ⟨_, rfl⟩

theorem paddedDigits_spec {width n : Nat} (hwidth : 0 < width) (hn : n < 10 ^ width) :
    (paddedDigits width n).length = width ∧ digitsValue (paddedDigits width n) = n ∧
      Digits (paddedDigits width n) := by
  have hlen : (Nat.toDigits 10 n).length ≤ width :=
    (Nat.length_toDigits_le_iff (by decide) hwidth).2 hn
  refine ⟨?_, ?_, ?_⟩
  · rw [paddedDigits, List.length_append, List.length_replicate]
    omega
  · rw [paddedDigits, digitsValue_append, digitsValue_toDigits, digitsValue_eq,
      Nat.ofDigitChars_replicate_zero]
    simp
  · intro c hc
    rcases List.mem_append.1 hc with hc | hc
    · rw [(List.mem_replicate.1 hc).2]
      rfl
    · exact digits_toDigits n c hc

/-- Digits that do not end with a zero are kept. -/
theorem dropTrailingZeros_paddedDigits {width n : Nat} (hn : n % 10 ≠ 0) :
    dropTrailingZeros (paddedDigits width n) = paddedDigits width n := by
  obtain ⟨ds, hds⟩ := toDigits_eq_append n
  have hlast : ((n % 10).digitChar == '0') = false := by
    have : n % 10 < 10 := Nat.mod_lt _ (by decide)
    interval_cases n % 10 <;> simp_all
  unfold dropTrailingZeros paddedDigits
  dsimp only
  rw [hds, ← List.append_assoc, List.reverse_append, List.reverse_singleton, List.singleton_append,
    List.dropWhile_cons_of_neg (by simp [hlast]), List.reverse_cons, List.reverse_reverse]

theorem toList_toString (n : Int) :
    (toString n).toList = (if n < 0 then ['-'] else []) ++ Nat.toDigits 10 n.natAbs := by
  cases n with
  | ofNat m =>
    have htext : toString (Int.ofNat m) = toString m := rfl
    rw [htext, Nat.toString_eq_ofList_toDigits, String.toList_ofList, if_neg (by simp)]
    rfl
  | negSucc m =>
    have htext : toString (Int.negSucc m) = "-" ++ toString (m + 1) := rfl
    rw [htext, Nat.toString_eq_ofList_toDigits, String.toList_append,
      if_pos (Int.negSucc_lt_zero m)]
    exact congrArg (['-'] ++ ·) String.toList_ofList

/-! ### The units of the last place -/

/-- A fraction counted in units of the `k`-th decimal place. -/
def scaled (q : Fraction) (k : Nat) : Int := q.num * ((10 ^ k / q.den : Nat) : Int)

/-- The number of units without the sign. -/
def units (q : Fraction) (k : Nat) : Nat := (q.scaled k).natAbs

section Units

variable {q : Fraction} {k : Nat} (hk : places? q.den = some k)

include hk

theorem units_mul_den : q.num.natAbs * 10 ^ k = q.units k * q.den := by
  rw [units, scaled, Int.natAbs_mul, Int.natAbs_natCast, mul_assoc,
    Nat.div_mul_cancel (places?_eq_some_iff.1 hk).2.1]

theorem scaled_neg_iff : q.scaled k < 0 ↔ q.num < 0 := by
  have hle : q.den ≤ 10 ^ k := Nat.le_of_dvd (by positivity) (places?_eq_some_iff.1 hk).2.1
  have hquot : (0 : Int) < ((10 ^ k / q.den : Nat) : Int) := by
    exact_mod_cast Nat.div_pos hle q.den_pos
  rw [scaled, mul_neg_iff]
  omega

/-- Only an integer needs no places. -/
theorem places_pos_iff : 0 < k ↔ q.den ≠ 1 := by
  obtain ⟨-, hdvd, hmin⟩ := places?_eq_some_iff.1 hk
  constructor
  · intro hpos hden
    exact hmin 0 hpos (hden ▸ one_dvd _)
  · intro hden
    refine Nat.pos_of_ne_zero fun hzero => hden ?_
    rw [hzero, pow_zero] at hdvd
    exact Nat.dvd_one.1 hdvd

/-- There are as few places as possible, so the last one is not zero. -/
theorem units_mod_ten_ne_zero (hden : q.den ≠ 1) : q.units k % 10 ≠ 0 := by
  intro hzero
  obtain ⟨t, ht⟩ := Nat.dvd_of_mod_eq_zero hzero
  have hpos := (places_pos_iff hk).2 hden
  obtain ⟨j, rfl⟩ : ∃ j, k = j + 1 := ⟨k - 1, by omega⟩
  have hj : q.num.natAbs * 10 ^ j = t * q.den := by
    refine Nat.eq_of_mul_eq_mul_right (by decide : 0 < 10) ?_
    calc q.num.natAbs * 10 ^ j * 10 = q.num.natAbs * 10 ^ (j + 1) := by ring
      _ = t * q.den * 10 := by rw [units_mul_den hk, ht]; ring
  exact (places?_eq_some_iff.1 hk).2.2 j (by omega)
    (q.reduced.symm.dvd_of_dvd_mul_left (Dvd.intro_left t hj.symm))

/-- No other decimal of the same value has fewer units. -/
theorem units_le {n p : Nat} (hkp : k ≤ p) (h : q.num.natAbs * 10 ^ p = n * q.den) :
    q.units k ≤ n := by
  have hn : q.units k * 10 ^ (p - k) = n := by
    refine Nat.eq_of_mul_eq_mul_right q.den_pos ?_
    calc q.units k * 10 ^ (p - k) * q.den
        = q.units k * q.den * 10 ^ (p - k) := by ring
      _ = q.num.natAbs * 10 ^ p := by
        rw [← units_mul_den hk, mul_assoc, ← pow_add, Nat.add_sub_cancel' hkp]
      _ = n * q.den := h
  rw [← hn]
  exact Nat.le_mul_of_pos_right _ (by positivity)

end Units

/-- A fraction that is a number of units of some place has places, with at most that many units. -/
theorem exists_units {q : Fraction} {n p : Nat} (hp : Fits (10 ^ p : Nat))
    (h : q.num.natAbs * 10 ^ p = n * q.den) : ∃ k, places? q.den = some k ∧ q.units k ≤ n := by
  have hdvd : q.den ∣ 10 ^ p := q.reduced.symm.dvd_of_dvd_mul_left (Dvd.intro_left n h.symm)
  obtain ⟨k, hkp, hk⟩ := exists_places hdvd hp
  exact ⟨k, hk, units_le hk hkp h⟩

/-- The digits before the point. -/
def wholeDigits (q : Fraction) (k : Nat) : List Char := Nat.toDigits 10 (q.units k / 10 ^ k)

/-- The digits behind the point. -/
def placeDigits (q : Fraction) (k : Nat) : List Char :=
  dropTrailingZeros (paddedDigits k (q.units k % 10 ^ k))

section Written

variable {q : Fraction} {k : Nat} (hk : places? q.den = some k)

include hk

/-- No place is dropped, but for an integer, which has none. -/
theorem placeDigits_spec :
    (q.placeDigits k).length = k ∧ digitsValue (q.placeDigits k) = q.units k % 10 ^ k ∧
      Digits (q.placeDigits k) := by
  rcases k.eq_zero_or_pos with rfl | hpos
  · rw [placeDigits, pow_zero, Nat.mod_one]
    exact ⟨rfl, rfl, List.forall_mem_nil _⟩
  · have hmod : q.units k % 10 ^ k % 10 ≠ 0 := by
      rw [Nat.mod_mod_of_dvd _ (dvd_pow_self 10 hpos.ne')]
      exact units_mod_ten_ne_zero hk ((places_pos_iff hk).1 hpos)
    rw [placeDigits, dropTrailingZeros_paddedDigits hmod]
    exact paddedDigits_spec hpos (Nat.mod_lt _ (by positivity))

/-- The digits before and behind the point together name the units. -/
theorem digitsValue_written : digitsValue (q.wholeDigits k ++ q.placeDigits k) = q.units k := by
  obtain ⟨hlen, hvalue, -⟩ := placeDigits_spec hk
  rw [digitsValue_append, wholeDigits, digitsValue_toDigits, hlen, hvalue, Nat.div_add_mod]

end Written

/-- The decimal expansion in terms of its digits. The units with their sign have to be a word. -/
theorem decimal?_eq_some_iff {q : Fraction} {s : String} :
    q.decimal? = some s ↔ ∃ k, places? q.den = some k ∧ Fits (q.scaled k) ∧
      s = String.ofList (q.signChars ++ (q.wholeDigits k ++ '.' :: q.placeDigits k)) := by
  refine Option.bind_eq_some_iff.trans (exists_congr fun k => and_congr_right fun hk => ?_)
  refine Option.bind_eq_some_iff.trans ?_
  simp only [Word.fit?_eq_some_iff, Nat.pow_eq, Option.some.injEq, signChars,
    ← scaled_neg_iff hk, List.append_assoc]
  constructor
  · rintro ⟨_, ⟨rfl, hfits⟩, rfl⟩
    exact ⟨hfits, rfl⟩
  · rintro ⟨hfits, rfl⟩
    exact ⟨_, ⟨rfl, hfits⟩, rfl⟩

/-- **The text of a decimal is a sign and an unsigned decimal**, which names the absolute value. -/
theorem text_of_isDecimal {q : Fraction} (h : q.IsDecimal) :
    ∃ whole places abs, whole ≠ [] ∧ Digits whole ∧ Digits places ∧
      q.text.toList = q.signChars ++ (whole ++ pointed places) ∧
      ofDecimalChars? (whole ++ pointed places) = some abs ∧ abs.toRat = |q.toRat| := by
  -- It is enough to find digits of the right value.
  suffices hdigits : ∃ whole places, whole ≠ [] ∧ Digits whole ∧ Digits places ∧
      q.text.toList = q.signChars ++ (whole ++ pointed places) ∧
      Fits (digitsValue (whole ++ places)) ∧ Fits (10 ^ places.length : Nat) ∧
      q.num.natAbs * 10 ^ places.length = digitsValue (whole ++ places) * q.den by
    obtain ⟨whole, places, hne, hwhole, hplaces, htext, hn, hp, hvalue⟩ := hdigits
    obtain ⟨abs, habs, hrat⟩ := ofInts?_eq_some hn hp
    refine ⟨whole, places, abs, hne, hwhole, hplaces, htext, ?_, ?_⟩
    · rw [ofDecimalChars?_pointed hne hwhole hplaces]
      exact Option.bind_eq_some_iff.2 ⟨_, Word.fit?_eq_some_iff.2 ⟨rfl, hn⟩,
        Option.bind_eq_some_iff.2 ⟨_, Word.fit?_eq_some_iff.2 ⟨rfl, hp⟩, habs⟩⟩
    · rw [hrat, abs_toRat_eq_iff.2 hvalue]
  by_cases hden : q.den = 1
  · refine ⟨Nat.toDigits 10 q.num.natAbs, [], Nat.toDigits_ne_nil, digits_toDigits _, nofun, ?_, ?_,
      by decide, ?_⟩
    · rw [text, if_pos hden, toList_toString]
      simp [signChars, pointed]
    · obtain ⟨n, p, hn, -, hnp⟩ := h
      rw [List.append_nil, digitsValue_toDigits]
      refine hn.of_nonneg_le (by positivity) ?_
      rw [hden, mul_one] at hnp
      rw [← hnp]
      exact_mod_cast Nat.le_mul_of_pos_right _ (by positivity)
    · rw [List.append_nil, digitsValue_toDigits, hden]
      simp
  · obtain ⟨n, p, hn, hp, hnp⟩ := h
    obtain ⟨k, hk, hle⟩ := exists_units hp hnp
    have hfits : Fits (q.units k) := hn.of_nonneg_le (by positivity) (by exact_mod_cast hle)
    have hscaled : Fits (q.scaled k) := by
      unfold units at hfits
      unfold Fits Word.least Word.greatest at hfits ⊢
      omega
    obtain ⟨hlen, -, hdigits⟩ := placeDigits_spec hk
    have hpointed : pointed (q.placeDigits k) = '.' :: q.placeDigits k := by
      refine if_neg fun hnil => ((places_pos_iff hk).2 hden).ne ?_
      rw [← hlen, hnil, List.length_nil]
    refine ⟨q.wholeDigits k, q.placeDigits k, Nat.toDigits_ne_nil, digits_toDigits _, hdigits, ?_,
      ?_, ?_, ?_⟩
    · rw [text, if_neg hden, decimal?_eq_some_iff.2 ⟨k, hk, hscaled, rfl⟩, hpointed]
      exact String.toList_ofList
    · rwa [digitsValue_written hk]
    · rw [hlen]
      exact (places?_eq_some_iff.1 hk).1
    · rw [digitsValue_written hk, hlen, units_mul_den hk]

end Discharge.Fraction
