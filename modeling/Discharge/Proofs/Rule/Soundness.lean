import Discharge.Proofs.Fact.Reading
import Discharge.Rule.Builtin

/-!
# Built-in rules are sound

A rule is sound when a goal that it proves is not false wherever the conditions that the facts state
are true (`Rule.Sound`). A goal whose terms have no value is not false, so a rule need not know that
they have one. All built-in rules are sound (`Rule.builtin_sound`).
-/

namespace Discharge.Rule

/-- What the rule proves is not false where the facts are true. -/
def Sound (r : Rule) : Prop :=
  ∀ goal known found, r.run goal known = .matched found →
    ∀ ρ, known.TrueAt ρ → goal.NotFalse ρ

variable {known : Known} {ρ : Lookup ℚ} {goal term : Expr}

theorem ofFinder_matched {name description : String} {find? : Expr → Known → Option RuleMatch}
    {found : RuleMatch} :
    (ofFinder name description find?).run goal known = .matched found ↔
      find? goal known = some found := by
  unfold ofFinder
  dsimp only
  cases find? goal known <;> simp

theorem ofFinder_sound {name description : String} {find? : Expr → Known → Option RuleMatch}
    (h : ∀ goal known found, find? goal known = some found →
      ∀ ρ, known.TrueAt ρ → goal.NotFalse ρ) : (ofFinder name description find?).Sound := by
  intro goal known found hrun ρ hk
  exact h goal known found (ofFinder_matched.1 hrun) ρ hk

theorem identity_sound : identity.Sound := by
  refine ofFinder_sound fun goal known found h ρ hk => ?_
  obtain ⟨a, ha, _⟩ := Option.map_eq_some_iff.1 h
  exact Expr.notFalse_of_true (hk.identical ha)

/-! ## Comparisons with zero -/

/-- A comparison of a term with zero is not false if every value of the term compares so. -/
theorem notFalse_comparedWithZero {o : CompareOp} (ho : o = .gt ∨ o = .ge)
    (h : comparedWithZero? o goal = some term)
    (hterm : ∀ x, (Reading.exact ρ).Reads term x → o.Relates x 0) : goal.NotFalse ρ := by
  unfold comparedWithZero? at h
  split at h
  · rename_i p l q
    split at h
    · rename_i hcond
      obtain ⟨hp, hq⟩ := Bool.and_eq_true_iff.1 hcond
      obtain rfl := of_decide_eq_true hp
      cases h
      refine Expr.notFalse_ordering ho fun x y hx hy => ?_
      rw [(Reading.exact ρ).literal.1 hy, Fraction.isZero_iff.1 hq]
      exact hterm x hx
    · cases h
  · cases h

theorem positiveImpliesNonNegative_sound : positiveImpliesNonNegative.Sound := by
  refine ofFinder_sound fun goal known found h ρ hk => ?_
  obtain ⟨term, hterm, h⟩ := Option.bind_eq_some_iff.1 h
  split at h
  · cases h
  obtain ⟨used, hused, _⟩ := Option.bind_eq_some_iff.1 h
  refine notFalse_comparedWithZero (.inr rfl) hterm fun x hx => ?_
  exact le_of_lt (Known.positive?_sound hk.holdsIn hused hx)

/-- Each of several terms that are all positive is read as a positive number. -/
theorem allPositive?_sound {what : String} {terms : List Expr} {found : RuleMatch}
    (h : allPositive? what terms known = some found) (hk : known.TrueAt ρ) :
    ∀ s ∈ terms, ∀ y, (Reading.exact ρ).Reads s y → 0 < y := by
  unfold allPositive? at h
  split at h
  · cases h
  obtain ⟨used, hused, _⟩ := Option.bind_eq_some_iff.1 h
  intro s hs y hy
  obtain ⟨_, _, hpositive⟩ := forall₂_mem_left (mapM_eq_some.1 hused) s hs
  exact Known.positive?_sound hk.holdsIn hpositive hy

theorem sumOfPositives_sound : sumOfPositives.Sound := by
  refine ofFinder_sound fun goal known found h ρ hk => ?_
  obtain ⟨term, hterm, h⟩ := Option.bind_eq_some_iff.1 h
  refine notFalse_comparedWithZero (.inl rfl) hterm fun x hx => ?_
  refine Reading.of_operands (fun {l r x} hsum => ?_) (allPositive?_sound h hk) hx
  obtain ⟨y, z, hy, hz, rfl⟩ := (Reading.exact ρ).sum hsum
  exact ⟨y, z, hy, hz, add_pos⟩

theorem productOfPositives_sound : productOfPositives.Sound := by
  refine ofFinder_sound fun goal known found h ρ hk => ?_
  obtain ⟨term, hterm, h⟩ := Option.bind_eq_some_iff.1 h
  refine notFalse_comparedWithZero (.inl rfl) hterm fun x hx => ?_
  refine Reading.of_operands (fun {l r x} hproduct => ?_) (allPositive?_sound h hk) hx
  obtain ⟨y, z, _, hy, hz, hyz, hx⟩ := Expr.evalIn_arith.1 hproduct
  cases hyz
  cases hx
  exact ⟨y, z, hy, hz, mul_pos⟩

/-! ## Chains -/

/-- Two true orderings with a common term order the others. -/
theorem chain?_sound {a c : Expr} {strict : Bool} {found : RuleMatch}
    (h : chain? goal a c strict known = some found) (hk : known.TrueAt ρ) {x z : ℚ}
    (hx : (Reading.exact ρ).Reads a x) (hz : (Reading.exact ρ).Reads c z) :
    AboveZero strict (x - z) := by
  have hlink : ∀ k ∈ known.comparisons.filter fun k => k.op == .gt || k.op == .ge,
      k ∈ known.comparisons ∧ (k.op = .gt ∨ k.op = .ge) := by
    intro k hk
    obtain ⟨hmem, hop⟩ := List.mem_filter.1 hk
    exact ⟨hmem, by simpa using hop⟩
  obtain ⟨first, hf, hfound⟩ := List.exists_of_findSome?_eq_some h
  obtain ⟨hfmem, hfop⟩ := hlink first hf
  split at hfound
  · cases hfound
  rename_i hleft
  rw [not_not] at hleft
  subst hleft
  obtain ⟨second, hs, hfound⟩ := List.exists_of_findSome?_eq_some hfound
  obtain ⟨hsmem, hsop⟩ := hlink second hs
  split at hfound
  · rename_i hmatch
    simp only [Bool.and_eq_true, decide_eq_true_eq] at hmatch
    obtain ⟨⟨hmid, rfl⟩, hstrict⟩ := hmatch
    -- The first ordering is true, so the common term has a value.
    obtain ⟨_, y, _, hy, _⟩ := Expr.evalIn_ordering hfop (hk.comparison hfmem)
    refine (Known.chain_sound hk.holdsIn hfmem hfop hsmem hsop hmid hx hy hz).weaken fun hs => ?_
    simpa [hs] using hstrict
  · cases hfound

theorem transitivity_sound : transitivity.Sound := by
  refine ofFinder_sound fun goal known found h ρ hk => ?_
  split at h
  · refine Expr.notFalse_ordering (.inl rfl) fun x y hx hy => ?_
    exact sub_pos.1 (chain?_sound h hk hx hy)
  · refine Expr.notFalse_ordering (.inr rfl) fun x y hx hy => ?_
    exact sub_nonneg.1 (chain?_sound h hk hx hy)
  · cases h

/-- **Every built-in rule is sound.** -/
theorem builtin_sound : ∀ r ∈ builtin, r.Sound := by
  simp only [builtin, List.forall_mem_cons]
  exact ⟨identity_sound, positiveImpliesNonNegative_sound, sumOfPositives_sound,
    productOfPositives_sound, transitivity_sound, List.forall_mem_nil _⟩

end Discharge.Rule
