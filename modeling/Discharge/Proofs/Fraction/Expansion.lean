import Discharge.Proofs.Fraction.Decimal
import Mathlib

/-!
# The decimal expansion of a fraction

Many digits denote one number, since zeros can stand before them and behind their places. Without
such zeros they are unique (`Expands.unique`) and have the fewest places (`Expands.length_le`). A
fraction is written with these digits (`expands_written`).
-/

namespace Discharge.Fraction

open Word (Fits)

/-- The digits denote a rational number without a needless zero at either end. -/
structure Expands (whole places : List Char) (x : ℚ) : Prop extends Denotes whole places x where
  leading : whole.head? = some '0' → whole = ['0']
  trailing : places.getLast? ≠ some '0'

/-! ## Digits and their value -/

theorem digits_cons_iff {c : Char} {cs : List Char} :
    Digits (c :: cs) ↔ c.isDigit = true ∧ Digits cs :=
  List.forall_mem_cons

theorem Digits.append {ds es : List Char} (hds : Digits ds) (hes : Digits es) : Digits (ds ++ es) :=
  List.forall_mem_append.2 ⟨hds, hes⟩

theorem digitsValue_singleton (c : Char) : digitsValue [c] = c.toNat - 48 :=
  Nat.zero_add _

theorem toNat_of_isDigit {c : Char} (hc : c.isDigit = true) : 48 ≤ c.toNat ∧ c.toNat ≤ 57 := by
  simpa [Char.isDigit, UInt32.le_iff_toNat_le] using hc

theorem digitsValue_cons (c : Char) (cs : List Char) :
    digitsValue (c :: cs) = 10 ^ cs.length * digitsValue [c] + digitsValue cs :=
  digitsValue_append [c] cs

theorem digitsValue_lt {ds : List Char} (h : Digits ds) : digitsValue ds < 10 ^ ds.length := by
  induction ds with
  | nil => decide
  | cons c cs ih =>
    obtain ⟨hc, hcs⟩ := digits_cons_iff.1 h
    have hc := toNat_of_isDigit hc
    have hhead : 10 ^ cs.length * digitsValue [c] ≤ 10 ^ cs.length * 9 :=
      Nat.mul_le_mul_left _ (by rw [digitsValue_singleton]; omega)
    have htail := ih hcs
    rw [digitsValue_cons, List.length_cons, pow_succ]
    omega

/-- With as many places, digits of one value agree before and behind the point. -/
theorem digitsValue_append_inj {whole places whole' places' : List Char} (hplaces : Digits places)
    (hplaces' : Digits places') (hlen : places.length = places'.length)
    (h : digitsValue (whole ++ places) = digitsValue (whole' ++ places')) :
    digitsValue whole = digitsValue whole' ∧ digitsValue places = digitsValue places' := by
  have hpow : 0 < 10 ^ places.length := by positivity
  have hlt := digitsValue_lt hplaces
  have hlt' := digitsValue_lt hplaces'
  rw [digitsValue_append, digitsValue_append, ← hlen] at h
  rw [← hlen] at hlt'
  constructor
  · have hdiv := congrArg (· / 10 ^ places.length) h
    simpa [Nat.mul_add_div hpow, Nat.div_eq_of_lt hlt, Nat.div_eq_of_lt hlt'] using hdiv
  · have hmod := congrArg (· % 10 ^ places.length) h
    simpa [Nat.mul_add_mod, Nat.mod_eq_of_lt hlt, Nat.mod_eq_of_lt hlt'] using hmod

theorem eq_of_digitsValue_eq {ds es : List Char} (hds : Digits ds) (hes : Digits es)
    (hlen : ds.length = es.length) (h : digitsValue ds = digitsValue es) : ds = es := by
  induction ds generalizing es with
  | nil => exact (List.length_eq_zero_iff.1 hlen.symm).symm
  | cons c cs ih =>
    cases es with
    | nil => cases hlen
    | cons d ds =>
      obtain ⟨hc, hcs⟩ := digits_cons_iff.1 hds
      obtain ⟨hd, hds⟩ := digits_cons_iff.1 hes
      have hlen : cs.length = ds.length := Nat.succ.inj hlen
      have hsplit : digitsValue ([c] ++ cs) = digitsValue ([d] ++ ds) := h
      obtain ⟨hhead, htail⟩ := digitsValue_append_inj hcs hds hlen hsplit
      rw [digitsValue_singleton, digitsValue_singleton] at hhead
      have hcd : c = d := by
        have hc := toNat_of_isDigit hc
        have hd := toNat_of_isDigit hd
        exact Char.toNat_inj.1 (by omega)
      rw [hcd, ih hcs hds hlen htail]

/-- Without a needless zero in front, a number has no more digits than any that is as large. -/
theorem length_le_of_leading {ds es : List Char} (hds : Digits ds)
    (hleading : ds.head? = some '0' → ds = ['0']) (hes : Digits es) (hne : es ≠ [])
    (h : digitsValue ds ≤ digitsValue es) : ds.length ≤ es.length := by
  have hpos : 0 < es.length := List.length_pos_iff.2 hne
  cases ds with
  | nil => exact Nat.zero_le _
  | cons c cs =>
    by_cases hc : c = '0'
    · rw [hleading (congrArg some hc)]
      exact hpos
    · have hone : 0 < digitsValue [c] := by
        have hdigit := toNat_of_isDigit (digits_cons_iff.1 hds).1
        have : c.toNat ≠ '0'.toNat := fun h => hc (Char.toNat_inj.1 h)
        rw [digitsValue_singleton]
        simp only [Char.reduceToNat] at this
        omega
      have hle : 10 ^ cs.length ≤ digitsValue (c :: cs) := by
        rw [digitsValue_cons]
        exact (Nat.le_mul_of_pos_right _ hone).trans (Nat.le_add_right _ _)
      exact (Nat.pow_lt_pow_iff_right (by decide)).1 ((hle.trans h).trans_lt (digitsValue_lt hes))

theorem getLast?_eq_zero_iff {ds : List Char} (hds : Digits ds) (hne : ds ≠ []) :
    ds.getLast? = some '0' ↔ digitsValue ds % 10 = 0 := by
  obtain ⟨init, c, rfl⟩ := List.eq_nil_or_concat' ds |>.resolve_left hne
  have hc := toNat_of_isDigit (hds c (by simp))
  rw [List.getLast?_concat, Option.some.injEq, digitsValue_append, digitsValue_singleton,
    ← Char.toNat_inj]
  simp only [List.length_singleton, Char.reduceToNat]
  omega

/-! ## Expansions are unique -/

namespace Expands

variable {whole places whole' places' : List Char} {x : ℚ}

/-- An expansion has no more places than any digits of the same value. -/
theorem length_le (h : Expands whole places x) (h' : Denotes whole' places' x) :
    places.length ≤ places'.length := by
  -- Places beyond those that the value needs would end with a zero.
  by_contra hlt
  obtain ⟨d, hd⟩ : ∃ d, places.length = places'.length + (d + 1) :=
    ⟨places.length - places'.length - 1, by omega⟩
  have hne : places ≠ [] := List.length_pos_iff.1 (by omega)
  have hvalue :
      digitsValue (whole ++ places) = 10 * (digitsValue (whole' ++ places') * 10 ^ d) := by
    have hrat := h.value.symm.trans h'.value
    rw [hd, div_eq_div_iff (by positivity) (by positivity)] at hrat
    have hnat : digitsValue (whole ++ places) * 10 ^ places'.length =
        digitsValue (whole' ++ places') * 10 ^ (places'.length + (d + 1)) := by exact_mod_cast hrat
    refine Nat.eq_of_mul_eq_mul_right (by positivity : 0 < 10 ^ places'.length) ?_
    rw [hnat]
    ring
  refine h.trailing ?_
  rw [← List.getLast?_append_of_ne_nil whole hne,
    getLast?_eq_zero_iff (h.whole_digits.append h.places_digits) (by simp [hne]), hvalue,
    Nat.mul_mod_right]

/-- **A number has at most one expansion.** -/
theorem unique (h : Expands whole places x) (h' : Expands whole' places' x) :
    whole = whole' ∧ places = places' := by
  have hlen : places.length = places'.length :=
    (h.length_le h'.toDenotes).antisymm (h'.length_le h.toDenotes)
  have hvalue : digitsValue (whole ++ places) = digitsValue (whole' ++ places') := by
    have hrat := h.value.symm.trans h'.value
    rw [hlen, div_left_inj' (by positivity)] at hrat
    exact_mod_cast hrat
  obtain ⟨hwhole, hplaces⟩ := digitsValue_append_inj h.places_digits h'.places_digits hlen hvalue
  have hle : whole.length ≤ whole'.length :=
    length_le_of_leading h.whole_digits h.leading h'.whole_digits h'.whole_ne_nil hwhole.le
  have hge : whole'.length ≤ whole.length :=
    length_le_of_leading h'.whole_digits h'.leading h.whole_digits h.whole_ne_nil hwhole.ge
  exact ⟨eq_of_digitsValue_eq h.whole_digits h'.whole_digits (hle.antisymm hge) hwhole,
    eq_of_digitsValue_eq h.places_digits h'.places_digits hlen hplaces⟩

end Expands

/-! ## What is written -/

theorem toDigits_leading (n : Nat) :
    (Nat.toDigits 10 n).head? = some '0' → Nat.toDigits 10 n = ['0'] := by
  induction n using Nat.strongRecOn with
  | ind n ih =>
    intro hhead
    rw [Nat.toDigits_eq_if (by decide)] at hhead ⊢
    split at hhead
    · rename_i hlt
      simp only [List.head?_cons, Option.some.injEq] at hhead
      rw [if_pos hlt, hhead]
    · -- The first digit is that of the quotient, which is not zero here.
      rename_i hge
      rw [List.head?_append_of_ne_nil _ Nat.toDigits_ne_nil] at hhead
      have hzero := congrArg digitsValue (ih (n / 10) (by omega) hhead)
      rw [digitsValue_toDigits] at hzero
      have : digitsValue ['0'] = 0 := rfl
      omega

/-- The digits that are written are the expansion of the absolute value. -/
theorem expands_written {q : Fraction} {k : Nat} (hk : places? q.den = some k) :
    Expands (q.wholeDigits k) (q.placeDigits k) |q.toRat| := by
  obtain ⟨hlen, -, hplaces⟩ := placeDigits_spec hk
  have hwhole : Digits (q.wholeDigits k) := digits_toDigits _
  refine ⟨⟨Nat.toDigits_ne_nil, hwhole, hplaces, ?_⟩, toDigits_leading _, fun hlast => ?_⟩
  · rw [digitsValue_written hk, hlen, abs_toRat_eq_iff, units_mul_den hk]
  · have hne : q.placeDigits k ≠ [] := fun hnil => by simp [hnil] at hlast
    have hden : q.den ≠ 1 := (places_pos_iff hk).1 (hlen ▸ List.length_pos_iff.2 hne)
    refine units_mod_ten_ne_zero hk hden ?_
    rw [← digitsValue_written hk, ← getLast?_eq_zero_iff (hwhole.append hplaces) (by simp [hne]),
      List.getLast?_append_of_ne_nil _ hne, hlast]

theorem toRat_eq_scaled {q : Fraction} {k : Nat} (hk : places? q.den = some k) :
    q.toRat = q.scaled k / 10 ^ k := by
  have hquot : ((10 ^ k / q.den : Nat) : ℚ) = 10 ^ k / q.den := by
    rw [Nat.cast_div (places?_eq_some_iff.1 hk).2.1 q.den_ne_zero]
    simp
  have hpow : (10 : ℚ) ^ k ≠ 0 := by positivity
  rw [scaled, Int.cast_mul, Int.cast_natCast, hquot, toRat_eq_div]
  field_simp

/-- There is an expansion exactly for a word divided by a power of ten that is a word. -/
theorem decimal?_isSome_iff {q : Fraction} :
    q.decimal?.isSome = true ↔
      ∃ (n : Int) (p : Nat), Fits n ∧ Fits (10 ^ p : Nat) ∧ q.toRat = n / 10 ^ p := by
  rw [Option.isSome_iff_exists]
  constructor
  · rintro ⟨s, hs⟩
    obtain ⟨k, hk, hfits, -⟩ := decimal?_eq_some_iff.1 hs
    exact ⟨q.scaled k, k, hfits, (places?_eq_some_iff.1 hk).1, toRat_eq_scaled hk⟩
  · rintro ⟨n, p, hn, hp, hvalue⟩
    have habs : |q.toRat| = n.natAbs / 10 ^ p := by
      rw [hvalue, abs_div, abs_of_pos (by positivity : (0 : ℚ) < 10 ^ p), Nat.cast_natAbs,
        Int.cast_abs]
    obtain ⟨k, hk, hle⟩ := exists_units hp (abs_toRat_eq_iff.1 habs)
    have hsign : q.scaled k < 0 ↔ n < 0 := by
      rw [scaled_neg_iff hk, ← toRat_num, Rat.num_neg, hvalue, div_lt_iff₀ (by positivity),
        zero_mul, Int.cast_lt_zero]
    have hfits : Fits (q.scaled k) := by
      unfold units at hle
      unfold Fits Word.least Word.greatest at hn ⊢
      omega
    exact ⟨_, decimal?_eq_some_iff.2 ⟨k, hk, hfits, rfl⟩⟩

/-! ## Texts without a slash -/

/-- A fraction that is not negative and is written without a slash is a decimal. -/
theorem isDecimal_of_text {q : Fraction} (hq : 0 ≤ q.toRat) (h : '/' ∉ q.text.toList) :
    q.IsDecimal := by
  have hnum : 0 ≤ q.num := Rat.num_nonneg.2 hq
  by_cases hden : q.den = 1
  · refine ⟨q.num.natAbs, 0, ?_, by decide, by rw [hden, pow_zero]⟩
    rw [Int.natAbs_of_nonneg hnum]
    exact q.num_fits
  · cases hs : q.decimal? with
    | none =>
      refine absurd ?_ h
      rw [text, if_neg hden, hs]
      simp
    | some s =>
      obtain ⟨k, hk, hfits, -⟩ := decimal?_eq_some_iff.1 hs
      refine ⟨q.units k, k, ?_, (places?_eq_some_iff.1 hk).1, units_mul_den hk⟩
      have hscaled : ¬ q.scaled k < 0 := fun hneg => hnum.not_gt ((scaled_neg_iff hk).1 hneg)
      rwa [units, Int.natAbs_of_nonneg (not_lt.1 hscaled)]

theorem slash_notMem_text {q : Fraction} (h : q.IsDecimal) : '/' ∉ q.text.toList := by
  obtain ⟨whole, places, -, -, hwhole, hplaces, htext, -⟩ := text_of_isDecimal h
  have hslash : ∀ {ds : List Char}, Digits ds → '/' ∉ ds := fun hds hmem => by
    cases hds _ hmem
  have hsign : '/' ∉ q.signChars := by
    unfold signChars
    split <;> decide
  have hpointed : '/' ∉ pointed places := by
    unfold pointed
    split
    · exact List.not_mem_nil
    · simpa using hslash hplaces
  rw [htext]
  simp [hsign, hslash hwhole, hpointed]

theorem ofDecimal?_text {q : Fraction} (hq : 0 ≤ q.toRat) (h : q.IsDecimal) :
    ofDecimal? q.text = some q := by
  obtain ⟨whole, places, abs, -, -, -, htext, hread, habs⟩ := text_of_isDecimal h
  have hneg : ¬ q.num < 0 := (Rat.num_nonneg.2 hq).not_gt
  rw [ofDecimal?, htext, signChars, if_neg hneg, List.nil_append, hread, eq_of_abs habs hneg]

/-- **Decimals are written and read exactly.** A fraction that is not negative and whose text has no
slash is read back from its text. What is read from a text is denoted by the digits of the text, and
is a fraction of that kind. A fraction has an expansion exactly when it is a word divided by a power
of ten that is a word. The expansion is the sign, and the only digits without needless zeros that
denote the absolute value. There are digits behind its point, except for an integer, whose text is
not taken from the expansion. -/
theorem decimal_inverse (q : Fraction) :
    (0 ≤ q.toRat → '/' ∉ q.text.toList → ofDecimal? q.text = some q) ∧
      (∀ t, ofDecimal? t = some q →
        (∃ whole places, (t.toList = whole ++ '.' :: places ∨ places = [] ∧ t.toList = whole) ∧
          Denotes whole places q.toRat) ∧ 0 ≤ q.toRat ∧ '/' ∉ q.text.toList) ∧
      (q.decimal?.isSome = true ↔
        ∃ (n : Int) (p : Nat), Fits n ∧ Fits (10 ^ p : Nat) ∧ q.toRat = n / 10 ^ p) ∧
      ∀ s, q.decimal? = some s → ∃ whole places,
        s.toList = q.signChars ++ (whole ++ '.' :: places) ∧ Expands whole places |q.toRat| ∧
          (places ≠ [] ↔ q.den ≠ 1) ∧
          ∀ whole' places', Expands whole' places' |q.toRat| →
            whole' = whole ∧ places' = places := by
  refine ⟨fun hq htext => ofDecimal?_text hq (isDecimal_of_text hq htext), fun t ht => ?_,
    decimal?_isSome_iff, fun s hs => ?_⟩
  · obtain ⟨whole, places, hsplit, hdenotes, -⟩ := denotes_of_ofDecimalChars? ht
    refine ⟨⟨whole, places, hsplit, hdenotes⟩, ?_,
      slash_notMem_text (isDecimal_of_ofDecimalChars? ht)⟩
    rw [hdenotes.value]
    positivity
  · obtain ⟨k, hk, -, rfl⟩ := decimal?_eq_some_iff.1 hs
    have hexpands := expands_written hk
    refine ⟨q.wholeDigits k, q.placeDigits k, String.toList_ofList, hexpands, ?_,
      fun _ _ h => h.unique hexpands⟩
    rw [← places_pos_iff hk, ← List.length_pos_iff, (placeDigits_spec hk).1]

/-- The least decimal above zero is read back from its text. A fraction whose tenths are the least
word has an expansion. -/
theorem decimal_inverse_extremes :
    let tiny : Fraction := ⟨1, 100000000000000000000000000000000000000, by decide,
      Nat.coprime_one_left _, by decide, by decide⟩
    let low : Fraction := ⟨-85070591730234615865843651857942052864, 5, by decide,
      by decide +kernel, by decide, by decide⟩
    '/' ∉ tiny.text.toList ∧ ofDecimal? tiny.text = some tiny ∧
      low.decimal? = some "-17014118346046923173168730371588410572.8" ∧
      ∃ whole places, Expands whole places |low.toRat| ∧ places ≠ [] := by
  intro tiny low
  have hread : ofDecimal? "0.00000000000000000000000000000000000001" = some tiny := by
    decide +kernel
  have hlow : low.decimal? = some "-17014118346046923173168730371588410572.8" := by decide +kernel
  obtain ⟨hback, hnamed, -⟩ := decimal_inverse tiny
  obtain ⟨-, hnonneg, hslash⟩ := hnamed _ hread
  obtain ⟨-, -, -, hexact⟩ := decimal_inverse low
  obtain ⟨whole, places, -, hexpands, hplaces, -⟩ := hexact _ hlow
  exact ⟨hslash, hback hnonneg hslash, hlow, whole, places, hexpands, hplaces.2 (by decide)⟩

end Discharge.Fraction
