import Discharge.Proofs.Fact.Reading
import Mathlib.Data.Prod.Lex

/-!
# What retained facts still show

A strategy that proves a goal reports the facts it used. Here `k'.Retains k fs` says that the facts
`fs` are known in `k'` if they are in `k`, with all that they state, whatever else either knows.
What is looked up in `k` with the help of `fs` is then found in `k'` as well, though perhaps
elsewhere: an atom again (`Retains.identical?`), and a bound that is at least as tight
(`Retains.lowerBound?`).
The tightness of a bound is a pair of its value and its strictness, compared in this order.
-/

namespace Discharge.Known

/-- The fact is among those known, and states the condition. -/
def States (k : Known) (f : Fact) (p : Expr) : Prop := ∃ a ∈ k.atoms, a.condition = p ∧ a.fact = f

/-- What `k` knows from the given facts, `k'` knows from them too. -/
structure Retains (k' k : Known) (fs : List Fact) : Prop where
  mem : ∀ f ∈ fs, f ∈ k.facts → f ∈ k'.facts
  states : ∀ f ∈ fs, ∀ p, k.States f p → k'.States f p

variable {k k' : Known} {fs gs : List Fact}

/-- The facts of a list state what each of them states. -/
theorem states_ofFacts {c : Catalog} {facts : List Fact} {f : Fact} {p : Expr} :
    (ofFacts c facts).States f p ↔ f ∈ facts ∧ p ∈ f.atoms c := by
  constructor
  · rintro ⟨a, ha, rfl, rfl⟩
    obtain ⟨⟨f, i⟩, hf, ha⟩ := List.mem_flatMap.1 ha
    obtain ⟨p, hp, rfl⟩ := List.mem_map.1 ha
    exact ⟨List.fst_mem_of_mem_zipIdx hf, hp⟩
  · rintro ⟨hf, hp⟩
    obtain ⟨i, hi⟩ := List.mem_iff_getElem?.1 hf
    have hfi : (f, i) ∈ facts.zipIdx := List.mk_mem_zipIdx_iff_getElem?.2 hi
    exact ⟨⟨p, i, f⟩, List.mem_flatMap.2 ⟨(f, i), hfi, List.mem_map.2 ⟨p, hp, rfl⟩⟩, rfl, rfl⟩

/-- Each atom comes from one of the facts. -/
def Grounded (k : Known) : Prop := ∀ a ∈ k.atoms, a.fact ∈ k.facts

theorem grounded_ofFacts {c : Catalog} {facts : List Fact} : (ofFacts c facts).Grounded :=
  fun a ha => (states_ofFacts.1 ⟨a, ha, rfl, rfl⟩).1

theorem Grounded.comparison (hk : k.Grounded) {d : Comparison} (h : d ∈ k.comparisons) :
    d.fact ∈ k.facts := by
  obtain ⟨a, ha, had⟩ := List.mem_filterMap.1 h
  unfold comparisonOf? at had
  split at had
  · cases had
    exact hk a ha
  · cases had

/-- A list of facts retains those that are members of it. -/
theorem retains_ofFacts {c : Catalog} {facts facts' : List Fact}
    (h : ∀ f ∈ fs, f ∈ facts → f ∈ facts') :
    (ofFacts c facts').Retains (ofFacts c facts) fs where
  mem := h
  states f hf p hp := by
    obtain ⟨hmem, hp⟩ := states_ofFacts.1 hp
    exact states_ofFacts.2 ⟨h f hf hmem, hp⟩

namespace Retains

theorem subset (h : k'.Retains k fs) (hsub : gs ⊆ fs) : k'.Retains k gs where
  mem f hf := h.mem f (hsub hf)
  states f hf := h.states f (hsub hf)

/-- A condition that a retained fact states is found. -/
theorem identical? {p : Expr} {a : Atom} (h : k.identical? p = some a)
    (hk : k'.Retains k [a.fact]) : ∃ b, k'.identical? p = some b := by
  have hcond : a.condition = p := by simpa using List.find?_some h
  obtain ⟨b, hb, hbp, _⟩ := hk.states a.fact (List.mem_singleton.2 rfl) p
    ⟨a, List.mem_of_find?_eq_some h, hcond, rfl⟩
  refine Option.isSome_iff_exists.1 (List.find?_isSome.2 ⟨b, hb, ?_⟩)
  simpa using hbp

/-- A comparison that a retained fact states stands among the comparisons, at some position. -/
theorem comparison (hk : k'.Retains k fs) {c : Comparison} (hc : c ∈ k.comparisons)
    (hf : c.fact ∈ fs) : ∃ i, { c with source := i } ∈ k'.comparisons := by
  obtain ⟨a, ha, hac⟩ := List.mem_filterMap.1 hc
  unfold comparisonOf? at hac
  split at hac
  · rename_i o l r hcond
    cases hac
    obtain ⟨b, hb, hbp, hbf⟩ := hk.states a.fact hf _ ⟨a, ha, hcond, rfl⟩
    refine ⟨b.source, List.mem_filterMap.2 ⟨b, hb, ?_⟩⟩
    simp only [comparisonOf?, hbp, hbf]
  · cases hac

end Retains

/-! ## Tightness -/

/-- How tight a bound is, given how far it reaches: of two with the same reach, the strict one is
tighter. -/
def tightness (reach : ℚ) (strict : Bool) : ℚ ×ₗ Bool := toLex (reach, strict)

theorem tightness_lt {x y : ℚ} {s t : Bool} :
    tightness x s < tightness y t ↔ x < y ∨ x = y ∧ s = false ∧ t = true := by
  rw [tightness, tightness, Prod.Lex.toLex_lt_toLex]
  cases s <;> cases t <;> simp

theorem tightness_le {x y : ℚ} {s t : Bool} :
    tightness x s ≤ tightness y t ↔ x < y ∨ x = y ∧ (s = true → t = true) := by
  rw [tightness, tightness, Prod.Lex.toLex_le_toLex]
  cases s <;> cases t <;> simp

/-- The tightness of a lower bound. -/
def lowerTightness (b : Bound) : ℚ ×ₗ Bool := tightness b.value.toRat b.strict

/-- The tightness of an upper bound, which is a lower bound of the negated term. -/
def upperTightness (b : Bound) : ℚ ×ₗ Bool := tightness (-b.value.toRat) b.strict

theorem lowerTighter_iff (a b : Bound) :
    lowerTighter a b = true ↔ lowerTightness b < lowerTightness a := by
  rw [lowerTightness, lowerTightness, tightness_lt, Fraction.toRat_inj, lowerTighter,
    Bool.or_eq_true_iff, Fraction.lt_iff]
  simp only [Bool.and_eq_true, beq_iff_eq, Bool.not_eq_true', and_assoc]
  grind

theorem upperTighter_iff (a b : Bound) :
    upperTighter a b = true ↔ upperTightness b < upperTightness a := by
  rw [upperTightness, upperTightness, tightness_lt, neg_lt_neg_iff, neg_inj, Fraction.toRat_inj,
    upperTighter, Bool.or_eq_true_iff, Fraction.lt_iff]
  simp only [Bool.and_eq_true, beq_iff_eq, Bool.not_eq_true', and_assoc]
  grind

/-- **The tightest of some bounds is at least as tight as each of them.** -/
theorem le_tightest? {tighter : Bound → Bound → Bool} {key : Bound → ℚ ×ₗ Bool}
    (hkey : ∀ a b, tighter a b = true ↔ key b < key a) {bs : List Bound} {b : Bound} (hb : b ∈ bs) :
    ∃ c, tightest? tighter bs = some c ∧ key b ≤ key c := by
  -- Read from the end: what the first bounds gave is kept or replaced by something tighter.
  induction bs using List.reverseRecOn with
  | nil => cases hb
  | append_singleton bs a ih =>
    simp only [tightest?, List.foldl_append, List.foldl_cons, List.foldl_nil] at ih ⊢
    rcases List.mem_append.1 hb with hb | hb
    · obtain ⟨c, hc, hle⟩ := ih hb
      rw [hc]
      dsimp only
      split
      · rename_i hlt
        exact ⟨a, rfl, hle.trans ((hkey a c).1 hlt).le⟩
      · exact ⟨c, rfl, hle⟩
    · obtain rfl := List.mem_singleton.1 hb
      generalize bs.foldl _ none = best
      cases best with
      | none => exact ⟨b, rfl, le_rfl⟩
      | some c =>
        dsimp only
        split
        · exact ⟨b, rfl, le_rfl⟩
        · rename_i hlt
          exact ⟨c, rfl, not_lt.1 fun h => hlt ((hkey b c).2 h)⟩

theorem fact_bound {side other term : Expr} {strict : Bool} {f : Fact} {b : Bound}
    (h : (if side = term then other.asNum.map (⟨·, strict, f⟩) else none) = some b) :
    b.fact = f := by
  split at h
  · obtain ⟨q, _, rfl⟩ := Option.map_eq_some_iff.1 h
    rfl
  · cases h

theorem fact_equationBound? {t : Expr} {c : Comparison} {b : Bound}
    (h : equationBound? t c = some b) : b.fact = c.fact := by
  unfold equationBound? at h
  split at h
  · obtain ⟨q, _, rfl⟩ := Option.map_eq_some_iff.1 h
    rfl
  · exact fact_bound h

/-- The fact of a bound is that of the comparison it is read off. -/
theorem fact_lowerOf? {t : Expr} {c : Comparison} {b : Bound} (h : lowerOf? t c = some b) :
    b.fact = c.fact := by
  unfold lowerOf? at h
  split at h
  · exact fact_bound h
  · exact fact_bound h
  · exact fact_equationBound? h
  · cases h

theorem fact_upperOf? {t : Expr} {c : Comparison} {b : Bound} (h : upperOf? t c = some b) :
    b.fact = c.fact := by
  unfold upperOf? at h
  split at h
  · exact fact_bound h
  · exact fact_bound h
  · exact fact_equationBound? h
  · cases h

namespace Retains

/-- The tightest bound, if its fact is retained, is found again or a tighter one is. The bounds are
read off the comparisons without regard to their position. -/
theorem tightest? {bound? : Comparison → Option Bound} {tighter : Bound → Bound → Bool}
    {key : Bound → ℚ ×ₗ Bool} (hkey : ∀ a b, tighter a b = true ↔ key b < key a)
    (hfact : ∀ c b, bound? c = some b → b.fact = c.fact)
    (hsource : ∀ c i, bound? { c with source := i } = bound? c) {b : Bound}
    (h : Known.tightest? tighter (k.comparisons.filterMap bound?) = some b)
    (hk : k'.Retains k [b.fact]) :
    ∃ b', Known.tightest? tighter (k'.comparisons.filterMap bound?) = some b' ∧ key b ≤ key b' := by
  obtain ⟨c, hc, hcb⟩ := List.mem_filterMap.1 (tightest?_mem b h)
  obtain ⟨i, hi⟩ := hk.comparison hc (List.mem_singleton.2 (hfact c b hcb).symm)
  exact le_tightest? hkey (List.mem_filterMap.2 ⟨_, hi, (hsource c i).trans hcb⟩)

theorem lowerBound? {t : Expr} {b : Bound} (h : k.lowerBound? t = some b)
    (hk : k'.Retains k [b.fact]) :
    ∃ b', k'.lowerBound? t = some b' ∧ lowerTightness b ≤ lowerTightness b' :=
  tightest? lowerTighter_iff (fun _ _ => fact_lowerOf?) (fun _ _ => rfl) h hk

theorem upperBound? {t : Expr} {b : Bound} (h : k.upperBound? t = some b)
    (hk : k'.Retains k [b.fact]) :
    ∃ b', k'.upperBound? t = some b' ∧ upperTightness b ≤ upperTightness b' :=
  tightest? upperTighter_iff (fun _ _ => fact_upperOf?) (fun _ _ => rfl) h hk

end Retains

/-- What a bound shows by being tight enough, a tighter one shows as well. -/
theorem isSome_shown {α : Type} {key : Bound → ℚ ×ₗ Bool} {least : ℚ ×ₗ Bool}
    {holds : Bound → Bool} (hholds : ∀ b, holds b = true ↔ least ≤ key b) {report : Bound → α}
    {found found' : Option Bound} {a : α}
    (h : (found.bind fun b => if holds b then some (report b) else none) = some a)
    (hfound : ∀ b, found = some b → report b = a → ∃ b', found' = some b' ∧ key b ≤ key b') :
    (found'.bind fun b => if holds b then some (report b) else none).isSome = true := by
  obtain ⟨b, hb, h⟩ := Option.bind_eq_some_iff.1 h
  split at h
  · rename_i hholdsb
    obtain ⟨b', hb', hle⟩ := hfound b hb (Option.some.inj h)
    have hholdsb' := (hholds b').2 (((hholds b).1 hholdsb).trans hle)
    exact Option.isSome_iff_exists.2 ⟨_, Option.bind_eq_some_iff.2 ⟨b', hb', if_pos hholdsb'⟩⟩
  · cases h

/-! ## Signs of terms -/

/-- A lower bound shows that a term is positive when it is as tight as a strict bound at zero. -/
theorem positive_iff {b : Bound} :
    (b.value.isPositive || (b.value.isZero && b.strict)) = true ↔
      tightness 0 true ≤ lowerTightness b := by
  rw [lowerTightness, tightness_le, Bool.or_eq_true_iff, Bool.and_eq_true_iff,
    Fraction.isPositive_iff, Fraction.isZero_iff, @eq_comm ℚ 0]
  simp

theorem nonNegative_iff {b : Bound} :
    (!b.value.isNegative) = true ↔ tightness 0 false ≤ lowerTightness b := by
  rw [lowerTightness, tightness_le, Bool.not_eq_true', Fraction.isNegative_eq_false_iff,
    le_iff_lt_or_eq]
  simp

theorem nonNegative_shown {b : Bound} :
    (if (!b.value.isNegative) = true then some [b.fact] else none) =
      if b.value.isNegative = true then none else some [b.fact] := by
  cases b.value.isNegative <;> rfl

namespace Retains

/-- A term that retained facts show to be positive is still seen to be. -/
theorem positive? {t : Expr} (h : k.positive? t = some fs) (hk : k'.Retains k fs) :
    ∃ gs, k'.positive? t = some gs := by
  unfold Known.positive? at h ⊢
  split at h
  · exact ⟨fs, h⟩
  · refine Option.isSome_iff_exists.1 (isSome_shown (fun _ => positive_iff) h fun b hb hfs => ?_)
    exact lowerBound? hb (hfs ▸ hk)

theorem nonNegative? {t : Expr} (h : k.nonNegative? t = some fs) (hk : k'.Retains k fs) :
    ∃ gs, k'.nonNegative? t = some gs := by
  unfold Known.nonNegative? at h ⊢
  split at h
  · exact ⟨fs, h⟩
  · simp only [← nonNegative_shown] at h ⊢
    refine Option.isSome_iff_exists.1 (isSome_shown (fun _ => nonNegative_iff) h fun b hb hfs => ?_)
    exact lowerBound? hb (hfs ▸ hk)

end Retains

/-! ## Chains of two orderings -/

/-- Two orderings with a common term lead from `a` to `c`, strictly if that is asked for. -/
def Chains (a c : Expr) (strict : Bool) (first second : Comparison) : Prop :=
  first.left = a ∧ first.right = second.left ∧ second.right = c ∧
    (strict = true → first.op.isStrict = true ∨ second.op.isStrict = true)

section

variable {β : Type} {links : List Comparison} {a c : Expr} {strict : Bool}
  {report : Comparison → Comparison → β}

/-- The search for the second ordering of a chain, inside that for the first. -/
def findChain? (links : List Comparison) (a c : Expr) (strict : Bool)
    (report : Comparison → Comparison → β) : Option β :=
  links.findSome? fun first =>
    if first.left ≠ a then none
    else links.findSome? fun second =>
      if first.right = second.left && second.right = c &&
          (!strict || first.op.isStrict || second.op.isStrict) then
        some (report first second)
      else none

theorem findChain?_eq_some {b : β} (h : findChain? links a c strict report = some b) :
    ∃ first ∈ links, ∃ second ∈ links,
      Chains a c strict first second ∧ report first second = b := by
  obtain ⟨first, hfirst, h⟩ := List.exists_of_findSome?_eq_some h
  split at h
  · cases h
  rename_i hleft
  obtain ⟨second, hsecond, h⟩ := List.exists_of_findSome?_eq_some h
  split at h
  · rename_i hmatch
    simp only [Bool.and_eq_true, decide_eq_true_eq, Bool.or_eq_true, Bool.not_eq_true'] at hmatch
    obtain ⟨⟨hmid, hright⟩, hstrict⟩ := hmatch
    refine ⟨first, hfirst, second, hsecond, ⟨not_not.1 hleft, hmid, hright, fun hs => ?_⟩,
      Option.some.inj h⟩
    simpa [hs] using hstrict
  · cases h

theorem isSome_findChain? {first second : Comparison} (hfirst : first ∈ links)
    (hsecond : second ∈ links) (h : Chains a c strict first second) :
    (findChain? links a c strict report).isSome = true := by
  obtain ⟨hleft, hmid, hright, hstrict⟩ := h
  refine List.findSome?_isSome_iff.2 ⟨first, hfirst, ?_⟩
  rw [if_neg (not_not.2 hleft), List.findSome?_isSome_iff]
  refine ⟨second, hsecond, ?_⟩
  cases strict <;> simp_all

end

end Discharge.Known
