import Discharge.Linear.Feasibility
import Discharge.Proofs.Linear.Form
import Mathlib.Data.List.SplitBy

/-!
# One step of elimination

A row holds under a valuation when its form is above zero in the sense of the row (`AboveZero`).
Eliminating an atom is exact in both directions. Every new row is a sum of positive multiples of
old rows, so it holds where these do (`eliminate?_sound`). Conversely, a valuation of the new rows
can be changed at the eliminated atom alone so that the old rows hold (`eliminate?_complete`): rows
in which the atom has a positive coefficient bound it from below, rows with a negative one bound it
from above, the combined rows say that no lower bound lies above an upper one, and between finitely
many such bounds there is a number (`exists_between`).
-/

namespace Discharge

/-- The number is positive, or only not negative. -/
def AboveZero (strict : Bool) (q : ℚ) : Prop := if strict then 0 < q else 0 ≤ q

instance (strict : Bool) (q : ℚ) : Decidable (AboveZero strict q) :=
  inferInstanceAs (Decidable (if strict then 0 < q else 0 ≤ q))

namespace AboveZero

variable {s t : Bool} {p q k : ℚ}

theorem of_pos (h : 0 < q) : AboveZero s q := by
  cases s
  · exact h.le
  · exact h

theorem nonneg (h : AboveZero s q) : 0 ≤ q := by
  cases s
  · exact h
  · exact le_of_lt h

theorem weaken (h : AboveZero s q) (hst : t = true → s = true) : AboveZero t q := by
  cases t
  · exact h.nonneg
  · rwa [hst rfl] at h

/-- A positive factor does not matter. -/
theorem mul_iff (hk : 0 < k) : AboveZero s (k * q) ↔ AboveZero s q := by
  cases s
  · exact mul_nonneg_iff_of_pos_left hk
  · exact mul_pos_iff_of_pos_left hk

theorem add (hp : AboveZero s p) (hq : AboveZero t q) : AboveZero (s || t) (p + q) := by
  cases s <;> cases t
  · exact add_nonneg hp hq
  · exact add_pos_of_nonneg_of_pos hp hq
  · exact add_pos_of_pos_of_nonneg hp hq
  · exact add_pos hp hq

end AboveZero

/-! ## A number between bounds -/

section Bounds

variable {α β : Type} (lo : α → ℚ) (s : α → Bool) (hi : β → ℚ) (t : β → Bool)

/-- Of finitely many lower bounds, one implies all others. -/
theorem exists_tightest {as : List α} (h : as ≠ []) :
    ∃ a ∈ as, ∀ b ∈ as, ∀ v, AboveZero (s a) (v - lo a) → AboveZero (s b) (v - lo b) := by
  induction as with
  | nil => exact absurd rfl h
  | cons a as ih =>
    by_cases has : as = []
    · subst has
      refine ⟨a, List.mem_cons_self, fun b hb v hv => ?_⟩
      rwa [List.mem_singleton.1 hb]
    obtain ⟨c, hc, hmax⟩ := ih has
    -- The head wins if it is higher, or equally high and strict.
    by_cases hac : lo c < lo a ∨ (lo c = lo a ∧ s a = true)
    · refine ⟨a, List.mem_cons_self, fun b hb v hv => ?_⟩
      rcases List.mem_cons.1 hb with rfl | hb
      · exact hv
      · refine hmax b hb v ?_
        rcases hac with hlt | ⟨he, hs⟩
        · exact .of_pos (by linarith [hv.nonneg])
        · rw [hs] at hv
          exact .of_pos (he ▸ hv)
    · refine ⟨c, List.mem_cons_of_mem _ hc, fun b hb v hv => ?_⟩
      rcases List.mem_cons.1 hb with rfl | hb
      · push Not at hac
        obtain ⟨hle, hs⟩ := hac
        rcases lt_or_eq_of_le hle with hlt | he
        · exact .of_pos (by linarith [hv.nonneg])
        · have hb : s b = false := Bool.eq_false_iff.2 (hs he.symm)
          rw [hb, he]
          exact hv.nonneg
      · exact hmax b hb v hv

/-- **Between finitely many lower and upper bounds lies a number**, if no lower bound excludes an
upper one. -/
theorem exists_between {as : List α} {bs : List β}
    (h : ∀ a ∈ as, ∀ b ∈ bs, AboveZero (s a || t b) (hi b - lo a)) :
    ∃ v, (∀ a ∈ as, AboveZero (s a) (v - lo a)) ∧ ∀ b ∈ bs, AboveZero (t b) (hi b - v) := by
  -- An upper bound on `v` is a lower bound on `-v`.
  have upper : bs ≠ [] → ∃ c ∈ bs, ∀ b ∈ bs, ∀ v, AboveZero (t c) (hi c - v) →
      AboveZero (t b) (hi b - v) := by
    intro hbs
    obtain ⟨c, hc, hmax⟩ := exists_tightest (fun b => -hi b) t hbs
    refine ⟨c, hc, fun b hb v hv => ?_⟩
    have := hmax b hb (-v) (by rwa [sub_neg_eq_add, neg_add_eq_sub])
    rwa [sub_neg_eq_add, neg_add_eq_sub] at this
  by_cases has : as = []
  · by_cases hbs : bs = []
    · exact ⟨0, by simp [has], by simp [hbs]⟩
    · obtain ⟨c, hc, hmax⟩ := upper hbs
      exact ⟨hi c - 1, by simp [has], fun b hb => hmax b hb _ (.of_pos (by linarith))⟩
  obtain ⟨a, ha, hamax⟩ := exists_tightest lo s has
  by_cases hbs : bs = []
  · exact ⟨lo a + 1, fun b hb => hamax b hb _ (.of_pos (by linarith)), by simp [hbs]⟩
  obtain ⟨c, hc, hcmax⟩ := upper hbs
  have hac := h a ha c hc
  rcases lt_or_eq_of_le hac.nonneg with hlt | he
  · refine ⟨(lo a + hi c) / 2, fun b hb => hamax b hb _ (.of_pos ?_),
      fun b hb => hcmax b hb _ (.of_pos ?_)⟩ <;> linarith
  · -- The two tightest bounds meet, so neither is strict.
    have hst : (s a || t c) = false := by
      by_contra hne
      rw [Bool.not_eq_false] at hne
      rw [hne, ← he] at hac
      exact lt_irrefl _ hac
    obtain ⟨hs, ht⟩ := Bool.or_eq_false_iff.1 hst
    refine ⟨lo a, fun b hb => hamax b hb _ ?_, fun b hb => hcmax b hb _ ?_⟩
    · rw [hs, sub_self]
      exact le_refl _
    · rw [ht, ← he]
      exact le_refl _

end Bounds

namespace Row

/-- The row holds under a valuation. -/
def Holds (σ : Valuation) (r : Row) : Prop := AboveZero r.strict (r.form.value σ)

instance (σ : Valuation) (r : Row) : Decidable (r.Holds σ) :=
  inferInstanceAs (Decidable (AboveZero _ _))

/-! ## Rows without atoms -/

/-- A contradiction holds nowhere. -/
theorem not_holds_of_isContradiction {r : Row} (h : r.isContradiction = true) (σ : Valuation) :
    ¬ r.Holds σ := by
  obtain ⟨f, s⟩ := r
  simp only [isContradiction, Bool.and_eq_true, Bool.or_eq_true, Fraction.isNegative_iff,
    Fraction.isZero_iff] at h
  rw [Holds, LinearForm.value_of_isConstant h.1]
  intro hr
  rcases h.2 with hneg | ⟨rfl, hz⟩
  · exact absurd hr.nonneg (not_le.2 hneg)
  · exact absurd hz (ne_of_gt hr)

/-- A row without atoms that is no contradiction holds everywhere. -/
theorem holds_of_isConstant {r : Row} (hc : r.form.isConstant = true)
    (h : r.isContradiction = false) (σ : Valuation) : r.Holds σ := by
  obtain ⟨f, s⟩ := r
  rw [isContradiction, hc, Bool.true_and, Bool.or_eq_false_iff] at h
  have hnn : 0 ≤ f.constant.toRat := Fraction.isNegative_eq_false_iff.1 h.1
  rw [Holds, LinearForm.value_of_isConstant hc]
  cases s
  · exact hnn
  · exact lt_of_le_of_ne hnn (Ne.symm (Fraction.isZero_eq_false_iff.1 h.2))

theorem holds_of_not_isInformative {r : Row} (h : r.isInformative = false) (σ : Valuation) :
    r.Holds σ := by
  rw [isInformative, Bool.or_eq_false_iff, Bool.not_eq_false'] at h
  exact holds_of_isConstant h.1 h.2 σ

/-! ## Combination of two rows -/

/-- Dividing by a magnitude changes neither where a row holds nor that it is well formed. -/
theorem normalize?_spec {r s : Row} (h : r.normalize? = some s) :
    (r.form.WF → s.form.WF) ∧ ∀ σ, s.Holds σ ↔ r.Holds σ := by
  unfold normalize? at h
  obtain ⟨m, hm, h⟩ := Option.bind_eq_some_iff.1 h
  split at h
  · rw [Option.some.inj h]
    exact ⟨id, fun _ => Iff.rfl⟩
  · rename_i hne
    obtain ⟨i, hi, h⟩ := Option.bind_eq_some_iff.1 h
    obtain ⟨f, hf, h⟩ := Option.bind_eq_some_iff.1 h
    obtain rfl := Option.some.inj h
    obtain ⟨hm0, hi⟩ := Fraction.toRat_div? hi
    have hpos : 0 < i.toRat := by
      rw [hi, Fraction.toRat_one]
      refine one_div_pos.2 (lt_of_le_of_ne ?_ (Ne.symm hm0))
      rw [Fraction.toRat_abs? hm]
      exact abs_nonneg _
    refine ⟨fun hr => hr.scale? hf, fun σ => ?_⟩
    rw [Holds, Holds, LinearForm.value_scale? σ hf]
    exact AboveZero.mul_iff hpos

/-- The sum that a combination of two rows states to be above zero. -/
theorem combine?_spec {x : String} {p n r : Row} (h : combine? x p n = some r) :
    (p.form.WF → n.form.WF → r.form.WF) ∧
      ∀ σ, r.Holds σ ↔ AboveZero (p.strict || n.strict)
        (-(n.form.coeff x).toRat * p.form.value σ + (p.form.coeff x).toRat * n.form.value σ) := by
  unfold combine? at h
  obtain ⟨b, hb, h⟩ := Option.bind_eq_some_iff.1 h
  obtain ⟨left, hl, h⟩ := Option.bind_eq_some_iff.1 h
  obtain ⟨right, hr, h⟩ := Option.bind_eq_some_iff.1 h
  obtain ⟨sum, hs, h⟩ := Option.bind_eq_some_iff.1 h
  obtain ⟨hwf, hiff⟩ := normalize?_spec h
  refine ⟨fun hp hn => hwf ((hp.scale? hl).add? (hn.scale? hr) hs), fun σ => ?_⟩
  rw [hiff σ, Holds, LinearForm.value_add? σ hs, LinearForm.value_scale? σ hl,
    LinearForm.value_scale? σ hr, Fraction.toRat_neg? hb]

/-! ## The rows after an elimination -/

theorem mem_dedup {r : Row} {rs : List Row} : r ∈ dedup rs ↔ r ∈ rs := by
  induction rs with
  | nil => rfl
  | cons s rs ih =>
    rw [dedup, List.mem_cons, ← ih]
    split
    · rename_i hd
      rw [hd, List.mem_singleton, List.mem_nil_iff, or_false]
    · rename_i t ts hd
      rw [hd]
      split
      · rename_i hst
        rw [hst, List.mem_cons, ← or_assoc, or_self]
      · rw [List.mem_cons]

theorem mem_sorted {r : Row} {rs : List Row} : r ∈ sorted rs ↔ r ∈ rs := by
  rw [sorted, mem_dedup, List.mem_mergeSort]

/-- The rows after an elimination: those without the atom, and the combinations of those that bound
it from below with those that bound it from above, as far as they say something. -/
theorem mem_eliminate? {x : String} {rs next : List Row} (h : eliminate? x rs = some next)
    (r : Row) : r ∈ next ↔ r.isInformative = true ∧
      ((r ∈ rs ∧ (r.form.coeff x).toRat = 0) ∨
        ∃ p ∈ rs, 0 < (p.form.coeff x).toRat ∧ ∃ n ∈ rs, (n.form.coeff x).toRat < 0 ∧
          combine? x p n = some r) := by
  unfold eliminate? at h
  obtain ⟨combined, hc, h⟩ := Option.bind_eq_some_iff.1 h
  obtain rfl := Option.some.inj h
  have hc := mapM_eq_some.1 hc
  have hmem : r ∈ combined.flatten ↔ ∃ p ∈ rs, 0 < (p.form.coeff x).toRat ∧ ∃ n ∈ rs,
      (n.form.coeff x).toRat < 0 ∧ combine? x p n = some r := by
    rw [List.mem_flatten]
    constructor
    · rintro ⟨l, hl, hrl⟩
      obtain ⟨p, hp, hpl⟩ := forall₂_mem_right hc l hl
      obtain ⟨n, hn, hnr⟩ := forall₂_mem_right (mapM_eq_some.1 hpl) r hrl
      rw [List.mem_filter, Fraction.isPositive_iff] at hp
      rw [List.mem_filter, Fraction.isNegative_iff] at hn
      exact ⟨p, hp.1, hp.2, n, hn.1, hn.2, hnr⟩
    · rintro ⟨p, hp, hpx, n, hn, hnx, hr⟩
      obtain ⟨l, hl, hpl⟩ := forall₂_mem_left hc p
        (List.mem_filter.2 ⟨hp, Fraction.isPositive_iff.2 hpx⟩)
      obtain ⟨r', hr', e⟩ := forall₂_mem_left (mapM_eq_some.1 hpl) n
        (List.mem_filter.2 ⟨hn, Fraction.isNegative_iff.2 hnx⟩)
      rw [hr] at e
      exact ⟨l, hl, Option.some.inj e ▸ hr'⟩
  rw [mem_sorted, List.mem_filter, List.mem_append, hmem, List.mem_filter, Fraction.isZero_iff,
    and_comm]

/-- In an elimination that succeeds, each row that bounds the atom from below combines with each
that bounds it from above. -/
theorem exists_combine? {x : String} {rs next : List Row} (h : eliminate? x rs = some next)
    {p n : Row} (hp : p ∈ rs) (hpx : 0 < (p.form.coeff x).toRat) (hn : n ∈ rs)
    (hnx : (n.form.coeff x).toRat < 0) : ∃ r, combine? x p n = some r := by
  unfold eliminate? at h
  obtain ⟨combined, hc, -⟩ := Option.bind_eq_some_iff.1 h
  obtain ⟨l, -, hpl⟩ := forall₂_mem_left (mapM_eq_some.1 hc) p
    (List.mem_filter.2 ⟨hp, Fraction.isPositive_iff.2 hpx⟩)
  obtain ⟨r, -, hr⟩ := forall₂_mem_left (mapM_eq_some.1 hpl) n
    (List.mem_filter.2 ⟨hn, Fraction.isNegative_iff.2 hnx⟩)
  exact ⟨r, hr⟩

/-- An eliminated system of well-formed rows is one again. -/
theorem wf_eliminate? {x : String} {rs next : List Row} (h : eliminate? x rs = some next)
    (hrs : ∀ r ∈ rs, r.form.WF) : ∀ r ∈ next, r.form.WF := by
  intro r hr
  rcases ((mem_eliminate? h r).1 hr).2 with ⟨hr, -⟩ | ⟨p, hp, -, n, hn, -, hc⟩
  · exact hrs r hr
  · exact (combine?_spec hc).1 (hrs p hp) (hrs n hn)

/-- **Elimination is sound**: the new rows hold where the old ones do. -/
theorem eliminate?_sound {x : String} {rs next : List Row} (h : eliminate? x rs = some next)
    {σ : Valuation} (hrs : ∀ r ∈ rs, r.Holds σ) : ∀ r ∈ next, r.Holds σ := by
  intro r hr
  rcases ((mem_eliminate? h r).1 hr).2 with ⟨hr, -⟩ | ⟨p, hp, hpx, n, hn, hnx, hc⟩
  · exact hrs r hr
  · rw [(combine?_spec hc).2 σ]
    exact ((AboveZero.mul_iff (neg_pos.2 hnx)).2 (hrs p hp)).add
      ((AboveZero.mul_iff hpx).2 (hrs n hn))

/-- The number for an atom at which the form of a row with that atom is zero. -/
def boundary (σ : Valuation) (x : String) (r : Row) : ℚ :=
  σ x - r.form.value σ / (r.form.coeff x).toRat

/-- A changed atom counts by its distance from the boundary. -/
theorem value_update_eq {r : Row} (hr : r.form.WF) {x : String} (hx : (r.form.coeff x).toRat ≠ 0)
    (σ : Valuation) (v : ℚ) : r.form.value (Function.update σ x v) =
      (r.form.coeff x).toRat * (v - r.boundary σ x) := by
  rw [LinearForm.value_update hr, boundary]
  field_simp
  ring

/-- Where the new rows hold, the boundaries of two rows that combine leave room for the atom. -/
theorem boundary_between {x : String} {rs next : List Row} (h : eliminate? x rs = some next)
    {σ : Valuation} (hnext : ∀ r ∈ next, r.Holds σ) {p n : Row} (hp : p ∈ rs)
    (hpx : 0 < (p.form.coeff x).toRat) (hn : n ∈ rs) (hnx : (n.form.coeff x).toRat < 0) :
    AboveZero (p.strict || n.strict) (n.boundary σ x - p.boundary σ x) := by
  obtain ⟨r, hc⟩ := exists_combine? h hp hpx hn hnx
  -- A combination that says nothing has been dropped, but it holds all the same.
  have hr : r.Holds σ := by
    by_cases hi : r.isInformative = true
    · exact hnext r ((mem_eliminate? h r).2 ⟨hi, .inr ⟨p, hp, hpx, n, hn, hnx, hc⟩⟩)
    · exact holds_of_not_isInformative (Bool.eq_false_iff.2 hi) σ
  rw [(combine?_spec hc).2 σ] at hr
  rw [← AboveZero.mul_iff (mul_pos (neg_pos.2 hnx) hpx)]
  have hp0 := hpx.ne'
  have hn0 := hnx.ne
  convert hr using 1
  rw [boundary, boundary]
  field_simp
  ring

/-- **Elimination is complete**: where the new rows hold, the old ones can be made to hold by
choosing the eliminated atom. -/
theorem eliminate?_complete {x : String} {rs next : List Row} (h : eliminate? x rs = some next)
    (hwf : ∀ r ∈ rs, r.form.WF) {σ : Valuation} (hnext : ∀ r ∈ next, r.Holds σ) :
    ∃ v, ∀ r ∈ rs, r.Holds (Function.update σ x v) := by
  have meet : ∀ p ∈ rs.filter (·.form.coeff x |>.isPositive),
      ∀ n ∈ rs.filter (·.form.coeff x |>.isNegative),
        AboveZero (p.strict || n.strict) (n.boundary σ x - p.boundary σ x) := by
    intro p hp n hn
    rw [List.mem_filter, Fraction.isPositive_iff] at hp
    rw [List.mem_filter, Fraction.isNegative_iff] at hn
    exact boundary_between h hnext hp.1 hp.2 hn.1 hn.2
  obtain ⟨v, hlo, hhi⟩ := exists_between (boundary σ x) strict (boundary σ x) strict meet
  refine ⟨v, fun r hr => ?_⟩
  rw [Holds]
  rcases lt_trichotomy (r.form.coeff x).toRat 0 with hx | hx | hx
  · rw [value_update_eq (hwf r hr) hx.ne, ← neg_mul_neg, AboveZero.mul_iff (neg_pos.2 hx), neg_sub]
    exact hhi r (List.mem_filter.2 ⟨hr, Fraction.isNegative_iff.2 hx⟩)
  · rw [LinearForm.value_update (hwf r hr), hx, zero_mul, add_zero]
    by_cases hi : r.isInformative = true
    · exact hnext r ((mem_eliminate? h r).2 ⟨hi, .inl ⟨hr, hx⟩⟩)
    · exact holds_of_not_isInformative (Bool.eq_false_iff.2 hi) σ
  · rw [value_update_eq (hwf r hr) hx.ne', AboveZero.mul_iff hx]
    exact hlo r (List.mem_filter.2 ⟨hr, Fraction.isPositive_iff.2 hx⟩)

end Row

end Discharge
