import Discharge.Proofs.Fraction.Exact

/-!
# Fractions on machine words

The arithmetic of fractions, written out as steps on machine words. A step either checks that its
result is a word (`checked`) or relies on it (`unchecked`, `quotient`); where it relies on it and is
wrong, or divides by zero, the run is at fault. On fractions no run ever is: each run ends as the
operation on fractions does (`add_parts`, `mul_parts`, `pow_parts` and so on). What is divided without a
check is divided by a common divisor, which is positive and, since it divides a denominator, a word.
-/

namespace Discharge

open Word (Fits fit?)

namespace Machine

/-! ## Outcomes of a run -/

/-- What a run on words comes to. -/
inductive Outcome (α : Type) where
  | value (a : α)
  /-- A check has failed, so there is no result. -/
  | nothing
  /-- A step that is not checked has left the words. -/
  | fault

namespace Outcome

variable {α β : Type}

instance : Monad Outcome where
  pure := .value
  bind x f :=
    match x with
    | .value a => f a
    | .nothing => .nothing
    | .fault => .fault

/-- The outcome of a checked computation. -/
def ofOption : Option α → Outcome α
  | some a => .value a
  | none => .nothing

@[simp] theorem value_bind (a : α) (f : α → Outcome β) : (Outcome.value a >>= f) = f a := rfl

end Outcome

/-! ## Steps -/

/-- The result of a step that checks that it is a word. -/
def checked (n : Int) : Outcome Int := if Fits n then .value n else .nothing

/-- The result of a step that relies on being a word. -/
def unchecked (n : Int) : Outcome Int := if Fits n then .value n else .fault

/-- The quotient rounded toward zero, without a check. -/
def quotient (n d : Int) : Outcome Int := if d = 0 then .fault else unchecked (n.tdiv d)

/-- The remainder of that quotient, with the checks that the divisor is not zero and that the
quotient is a word. -/
def remainder (n d : Int) : Outcome Int :=
  if d = 0 then .nothing
  else do
    let _ ← checked (n.tdiv d)
    return n.tmod d

/-- The magnitude of a word as an unsigned word of the same width. -/
def magnitude (n : Int) : Outcome Nat :=
  if n.natAbs < 340282366920938463463374607431768211456 then .value n.natAbs else .fault

/-- The remainder of unsigned words, without a check. -/
def unsignedRemainder (a b : Nat) : Outcome Nat := if b = 0 then .fault else .value (a % b)

theorem unsignedRemainder_lt {a b c : Nat} (h : unsignedRemainder a b = .value c) : c < b := by
  unfold unsignedRemainder at h
  split at h
  · cases h
  · cases h
    exact Nat.mod_lt _ (Nat.pos_of_ne_zero ‹_›)

/-- Euclid's algorithm on unsigned words. -/
def euclid (a b : Nat) : Outcome Nat :=
  if b = 0 then .value a
  else
    match _h : unsignedRemainder a b with
    | .value c => euclid b c
    | .nothing => .nothing
    | .fault => .fault
termination_by b
decreasing_by exact unsignedRemainder_lt ‹_›

/-- The greatest common divisor of two words, with the check that it is a word. -/
def commonDivisor (n d : Int) : Outcome Int := do
  let a ← magnitude n
  let b ← magnitude d
  let g ← euclid a b
  checked g

/-! ## Runs -/

/-- A numerator and a denominator. -/
structure Parts where
  num : Int
  den : Int
deriving DecidableEq

/-- The parts of one. -/
def Parts.one : Parts := ⟨1, 1⟩

/-- `n / d` in lowest terms, for a denominator above zero. -/
def lowest (n d : Int) : Outcome Parts := do
  let g ← commonDivisor n d
  if 1 < g then return ⟨← quotient n g, ← quotient d g⟩ else return ⟨n, d⟩

/-- `n / d` in lowest terms. -/
def make (n d : Int) : Outcome Parts :=
  if d = 0 then .nothing
  else if d < 0 then do lowest (← checked (-n)) (← checked (-d))
  else lowest n d

def neg (a : Parts) : Outcome Parts := do
  return ⟨← checked (-a.num), a.den⟩

def abs (a : Parts) : Outcome Parts := if a.num < 0 then neg a else return a

def add (a b : Parts) : Outcome Parts := do
  let g ← commonDivisor a.den b.den
  let left ← quotient b.den g
  let right ← quotient a.den g
  let num ← checked ((← checked (a.num * left)) + (← checked (b.num * right)))
  let den ← checked (a.den * left)
  make num den

def sub (a b : Parts) : Outcome Parts := do
  add a (← neg b)

def mul (a b : Parts) : Outcome Parts := do
  let g := max (← commonDivisor a.num b.den) 1
  let h := max (← commonDivisor b.num a.den) 1
  let num ← checked ((← quotient a.num g) * (← quotient b.num h))
  let den ← checked ((← quotient a.den h) * (← quotient b.den g))
  make num den

def div (a b : Parts) : Outcome Parts :=
  if b.num = 0 then .nothing
  else do mul a (← make b.den b.num)

def rem (a b : Parts) : Outcome Parts :=
  if a.den ≠ 1 ∨ b.den ≠ 1 ∨ b.num = 0 then .nothing
  else do return ⟨← remainder a.num b.num, 1⟩

theorem toNat_shiftRight_one (e : UInt32) : (e >>> 1).toNat = e.toNat / 2 := by
  simp [Nat.shiftRight_one]

theorem shiftRight_one_eq_zero_iff {e : UInt32} : e >>> 1 = 0 ↔ e.toNat / 2 = 0 := by
  rw [← UInt32.toNat_inj, toNat_shiftRight_one]
  rfl

theorem and_one_eq_one_iff {e : UInt32} : e &&& 1 = 1 ↔ e.toNat % 2 = 1 := by
  rw [← UInt32.toNat_inj, UInt32.toNat_and]
  exact (Nat.and_one_is_mod e.toNat).congr_left

/-- Repeated squaring. -/
def powFrom (acc base : Parts) (e : UInt32) : Outcome Parts := do
  let acc ← if e &&& 1 = 1 then mul acc base else pure acc
  if _h : e >>> 1 = 0 then return acc
  else powFrom acc (← mul base base) (e >>> 1)
termination_by e.toNat
decreasing_by
  rw [shiftRight_one_eq_zero_iff] at _h
  rw [toNat_shiftRight_one]
  omega

def pow (a : Parts) (e : UInt32) : Outcome Parts :=
  if e = 0 then return .one
  else if a.num = 0 ∨ a = .one then return a
  else if a = ⟨-1, 1⟩ then return if e % 2 = 0 then .one else a
  else powFrom .one a e

/-! ## Steps on words -/

theorem quotient_eq {n g : Int} (hn : Fits n) (hg : 0 < g) (h : g ∣ n) :
    quotient n g = .value (n / g) := by
  rw [quotient, if_neg hg.ne', unchecked, Int.tdiv_eq_ediv_of_dvd h, if_pos (hn.ediv hg)]

theorem quotient_natCast {d g : Nat} (hd : Fits d) (hg : 0 < g) (h : g ∣ d) :
    quotient d g = .value (d / g : Nat) := by
  rw [quotient_eq hd (by omega) (Int.natCast_dvd_natCast.2 h), Int.natCast_ediv]

theorem magnitude_eq {n : Int} (hn : Fits n) : magnitude n = .value n.natAbs := by
  unfold Fits Word.least Word.greatest at hn
  exact if_pos (by omega)

theorem euclid_eq (a b : Nat) : euclid a b = .value (Nat.gcd a b) := by
  induction b using Nat.strongRecOn generalizing a with
  | _ b ih =>
    rw [euclid]
    split
    · subst b
      rw [Nat.gcd_zero_right]
    · rename_i hb
      have hr : unsignedRemainder a b = .value (a % b) := if_neg hb
      split
      · rename_i c hc
        obtain rfl : a % b = c := by simpa [hr] using hc
        rw [ih _ (Nat.mod_lt a (by omega)), Nat.gcd_comm b, ← Nat.gcd_rec, Nat.gcd_comm]
      all_goals simp_all

/-- A remainder lies between zero and the dividend. -/
theorem fits_tmod {n : Int} (hn : Fits n) (d : Int) : Fits (n.tmod d) := by
  have habs : (n.tmod d).natAbs ≤ n.natAbs := by
    rw [Int.natAbs_tmod]
    exact Nat.mod_le _ _
  unfold Fits Word.least Word.greatest at *
  rcases Int.le_total 0 n with h | h
  · have := Int.tmod_nonneg d h
    omega
  · have := Int.tmod_nonneg d (Int.neg_nonneg_of_nonpos h)
    rw [Int.neg_tmod] at this
    omega

/-- The common divisor of a word and a denominator is at most the denominator, so it is a word. -/
theorem commonDivisor_eq {n : Int} {d : Nat} (hn : Fits n) (hd : Fits d) (hpos : 0 < d) :
    commonDivisor n d = .value (Int.gcd n d) := by
  have hle : Int.gcd n d ≤ d := Nat.le_of_dvd hpos (Nat.gcd_dvd_right _ _)
  have hg : Fits (Int.gcd n d) := hd.of_nonneg_le (by omega) (by omega)
  rw [commonDivisor, magnitude_eq hn, Outcome.value_bind, magnitude_eq hd, Outcome.value_bind,
    euclid_eq, Outcome.value_bind]
  exact if_pos hg

end Machine

/-! ## Runs on fractions -/

/-- The numerator and the denominator as words. -/
def Fraction.parts (a : Fraction) : Machine.Parts := ⟨a.num, a.den⟩

theorem Fraction.parts_inj {a b : Fraction} : a.parts = b.parts ↔ a = b := by
  refine ⟨fun h => ?_, fun h => h ▸ rfl⟩
  simp only [parts, Machine.Parts.mk.injEq, Nat.cast_inj] at h
  exact toRat_injective (Rat.ext h.1 h.2)

namespace Machine

open Fraction

/-- The outcome that the result of a checked operation on fractions stands for. -/
def result (x : Option Fraction) : Outcome Parts := .ofOption (x.map parts)

@[simp] theorem result_some (a : Fraction) : result (some a) = .value a.parts := rfl

@[simp] theorem result_none : result none = .nothing := rfl

theorem result_ne_fault (x : Option Fraction) : result x ≠ .fault := by
  cases x <;> simp

theorem result_eq_value_iff {x : Option Fraction} {r : Parts} :
    result x = .value r ↔ ∃ a, x = some a ∧ a.parts = r := by
  cases x <;> simp

/-- A checked step of a run is one of the operation, and what follows may rely on a word. -/
theorem checked_bind {n : Int} {k : Int → Outcome Parts} {f : Int → Option Fraction}
    (h : Fits n → k n = result (f n)) : (checked n >>= k) = result ((fit? n).bind f) := by
  unfold checked fit?
  split
  · rename_i hn
    exact h hn
  · rfl

theorem result_bind {x : Option Fraction} {k : Parts → Outcome Parts}
    {f : Fraction → Option Fraction} (h : ∀ c, k c.parts = result (f c)) :
    (result x >>= k) = result (x.bind f) := by
  cases x with
  | none => rfl
  | some c => exact h c

theorem lowest_eq {n : Int} {d : Nat} (hn : Fits n) (hd : Fits d) (hpos : 0 < d) :
    lowest n d = result (reduce? n d) := by
  have hg : 0 < Int.gcd n d := Int.gcd_pos_of_ne_zero_right n (by omega)
  rw [lowest, commonDivisor_eq hn hd hpos, Outcome.value_bind, reduce?,
    dif_pos ⟨hpos, hn, hd⟩, result_some]
  split
  · rw [quotient_eq hn (by omega) (Int.gcd_dvd_left n d), Outcome.value_bind,
      quotient_natCast hd hg (Nat.gcd_dvd_right _ _)]
    rfl
  · -- Nothing is divided out, and dividing by one changes nothing.
    have h1 : Int.gcd n d = 1 := by omega
    simp only [parts, h1, Nat.cast_one, Int.ediv_one, Nat.div_one]
    rfl

theorem make_eq {n d : Int} (hn : Fits n) (hd : Fits d) : make n d = result (ofInts? n d) := by
  unfold make ofInts?
  split
  · subst d
    simp [reduce?]
  split
  · refine checked_bind fun hn' => checked_bind fun hd' => ?_
    have e : ((-d).toNat : Int) = -d := Int.toNat_of_nonneg (by omega)
    rw [← e] at hd' ⊢
    exact lowest_eq hn' hd' (by omega)
  · have e : (d.toNat : Int) = d := Int.toNat_of_nonneg (by omega)
    rw [← e] at hd
    rw [← lowest_eq hn hd (by omega), e]

theorem neg_parts (a : Fraction) : neg a.parts = result a.neg? := by
  unfold neg Fraction.neg? checked
  by_cases h : Fits (-a.num)
  · rw [dif_pos h, if_pos (show Fits (-a.parts.num) from h)]
    rfl
  · rw [dif_neg h, if_neg (show ¬ Fits (-a.parts.num) from h)]
    rfl

theorem abs_parts (a : Fraction) : abs a.parts = result a.abs? := by
  unfold abs Fraction.abs?
  split
  · rename_i h
    rw [if_pos (show a.num < 0 from h), neg_parts]
  · rename_i h
    rw [if_neg (show ¬ a.num < 0 from h)]
    rfl

theorem add_parts (a b : Fraction) : add a.parts b.parts = result (a.add? b) := by
  have hg : 0 < Nat.gcd a.den b.den := Nat.gcd_pos_of_pos_left _ a.den_pos
  unfold add Fraction.parts
  rw [commonDivisor_eq a.den_fits b.den_fits b.den_pos, Outcome.value_bind, Int.gcd_natCast_natCast,
    quotient_natCast b.den_fits hg (Nat.gcd_dvd_right _ _), Outcome.value_bind,
    quotient_natCast a.den_fits hg (Nat.gcd_dvd_left _ _), Outcome.value_bind]
  exact checked_bind fun _ => checked_bind fun _ => checked_bind fun hn => checked_bind fun hd =>
    make_eq hn hd

theorem sub_parts (a b : Fraction) : sub a.parts b.parts = result (a.sub? b) := by
  unfold sub
  rw [neg_parts]
  exact result_bind fun c => add_parts a c

theorem mul_parts (a b : Fraction) : mul a.parts b.parts = result (a.mul? b) := by
  have hg := gcd_den_pos a.num b
  have hh := gcd_den_pos b.num a
  unfold mul Fraction.parts
  rw [commonDivisor_eq a.num_fits b.den_fits b.den_pos, Outcome.value_bind,
    commonDivisor_eq b.num_fits a.den_fits a.den_pos, Outcome.value_bind]
  simp only [max_eq_left (show (1 : Int) ≤ Int.gcd a.num b.den by omega),
    max_eq_left (show (1 : Int) ≤ Int.gcd b.num a.den by omega)]
  rw [quotient_eq a.num_fits (by omega) (Int.gcd_dvd_left _ _), Outcome.value_bind,
    quotient_eq b.num_fits (by omega) (Int.gcd_dvd_left _ _), Outcome.value_bind,
    quotient_natCast a.den_fits hh (Nat.gcd_dvd_right _ _),
    quotient_natCast b.den_fits hg (Nat.gcd_dvd_right _ _)]
  exact checked_bind fun _ => checked_bind fun _ => make_eq ‹_› ‹_›

theorem div_parts (a b : Fraction) : div a.parts b.parts = result (a.div? b) := by
  unfold div Fraction.div? Fraction.isZero
  by_cases h : b.num = 0
  · simp [parts, h]
  · simp only [parts, h, if_false, beq_iff_eq]
    rw [make_eq b.den_fits b.num_fits]
    exact result_bind fun c => mul_parts a c

theorem rem_parts (a b : Fraction) : rem a.parts b.parts = result (a.rem? b) := by
  have hguard : (a.isInteger && b.isInteger && !b.isZero) = true ↔
      ¬ (a.parts.den ≠ 1 ∨ b.parts.den ≠ 1 ∨ b.parts.num = 0) := by
    simp [isInteger, isZero, parts, and_assoc]
  unfold rem Fraction.rem?
  simp only [hguard, ite_not]
  split
  · rfl
  · rename_i h
    have h0 : b.num ≠ 0 := fun e => h (.inr (.inr e))
    have hquot : (remainder a.num b.num >>= fun n => pure (⟨n, 1⟩ : Parts)) =
        (checked (a.num.tdiv b.num) >>= fun _ => pure ⟨a.num.tmod b.num, 1⟩) := by
      rw [remainder, if_neg h0]
      unfold checked
      split <;> rfl
    refine hquot.trans (checked_bind fun _ => ?_)
    rw [ofInt?, dif_pos (fits_tmod a.num_fits _)]
    rfl

/-! ### Repeated squaring -/

theorem powFrom_eq (acc base : Parts) (e : UInt32) :
    powFrom acc base e = (if e &&& 1 = 1 then mul acc base else pure acc) >>= fun acc =>
      if e >>> 1 = 0 then pure acc else mul base base >>= fun sq => powFrom acc sq (e >>> 1) := by
  rw [powFrom]
  split <;> rfl

/-- The run reads the exponent bit by bit, where the operation halves it. -/
theorem powFrom_parts (acc base : Fraction) (e : UInt32) :
    powFrom acc.parts base.parts e = result (acc.powFrom? base e.toNat) := by
  induction hn : e.toNat using Nat.strongRecOn generalizing acc base e with
  | _ n ih =>
    subst hn
    have hacc : (if e &&& 1 = 1 then mul acc.parts base.parts else pure acc.parts) =
        result (if e.toNat % 2 = 1 then acc.mul? base else some acc) := by
      simp only [and_one_eq_one_iff, mul_parts]
      split <;> rfl
    rw [powFrom_eq, powFrom?_eq, hacc]
    refine result_bind fun c => ?_
    simp only [shiftRight_one_eq_zero_iff, mul_parts]
    split
    · rfl
    · refine result_bind fun sq => ?_
      rw [← toNat_shiftRight_one]
      exact ih _ (by rw [toNat_shiftRight_one]; omega) c sq _ rfl

theorem pow_parts (a : Fraction) (e : UInt32) : pow a.parts e = result (a.pow? e.toNat) := by
  have he : e = 0 ↔ e.toNat = 0 := UInt32.toNat_inj.symm
  have hmod : e % 2 = 0 ↔ e.toNat % 2 = 0 := by
    rw [← UInt32.toNat_inj, UInt32.toNat_mod]
    rfl
  have hone : (a.isZero || a == one) = true ↔ a.parts.num = 0 ∨ a.parts = .one := by
    rw [Bool.or_eq_true, isZero, beq_iff_eq, beq_iff_eq, ← parts_inj]
    rfl
  have hneg : (a.num == -1 && a.isInteger) = true ↔ a.parts = ⟨-1, 1⟩ := by
    simp [isInteger, parts]
  unfold pow Fraction.pow?
  simp only [he, hone, hneg, hmod]
  split
  · rfl
  split
  · rfl
  split
  · split <;> rfl
  · exact powFrom_parts one a e

end Machine

end Discharge
