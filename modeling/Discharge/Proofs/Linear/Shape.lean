import Discharge.Proofs.Fact.Reading
import Discharge.Proofs.Linear.Refutation

/-!
# Proofs by shape are refutations

Read through linear forms, an ordering that is proved by its shape follows from the comparisons
among the facts (`LinearProof.shape?_sound`). So its negation has no solution beside them, and
refutation cannot find it consistent: on the same goal it proves it too or runs into a limit, as
long as the comparisons fit into constraints (`LinearProof.byShape_agrees`).
-/

namespace Discharge

/-- Terms read by their linear forms. -/
def Reading.linear (σ : Valuation) : Reading where
  Reads e x := ∃ f, e.linearize = .ok f ∧ f.value σ = x
  literal := by
    intro q x
    constructor
    · rintro ⟨f, hf, rfl⟩
      cases hf
      exact LinearForm.value_ofConstant σ q
    · rintro rfl
      exact ⟨_, rfl, LinearForm.value_ofConstant σ q⟩
  sum := by
    rintro l r x ⟨f, hf, rfl⟩
    obtain ⟨a, ha, hf⟩ := except_bind_ok.1 hf
    obtain ⟨b, hb, hf⟩ := except_bind_ok.1 hf
    have hadd := Expr.orOverflow_eq_ok.1 hf
    exact ⟨_, _, ⟨a, ha, rfl⟩, ⟨b, hb, rfl⟩, LinearForm.value_add? σ hadd⟩

namespace LinearProof

variable {R : Reading} {known : Known}

/-! ## Each shape -/

/-- A summand that counts as bounded is not negative, and positive if it is marked so. -/
theorem boundedSummand_sound (hk : known.HoldsIn R) {s : Expr} {used : List Fact × Bool}
    (h : (match known.positive? s with
      | some fs => some (fs, true)
      | none => (known.nonNegative? s).map (·, false)) = some used) {x : ℚ} (hx : R.Reads s x) :
    AboveZero used.2 x := by
  split at h
  · rename_i fs hfs
    cases h
    exact Known.positive?_sound hk hfs hx
  · obtain ⟨fs, hfs, rfl⟩ := Option.map_eq_some_iff.1 h
    exact Known.nonNegative?_sound hk hfs hx

theorem sumOfBounded?_sound (hk : known.HoldsIn R) {term : Expr} {k : Fraction} {strict : Bool}
    {reasoned : Reasoned} (h : sumOfBounded? term k strict known = some reasoned) {x : ℚ}
    (hx : R.Reads term x) : AboveZero strict (x - k.toRat) := by
  unfold sumOfBounded? at h
  dsimp only at h
  split at h
  · cases h
  rename_i hshape
  have hzero : k.isZero = true := by
    cases hz : k.isZero with
    | true => rfl
    | false => simp [hz] at hshape
  obtain ⟨used, hused, h⟩ := Option.bind_eq_some_iff.1 h
  have hall := mapM_eq_some.1 hused
  have hnonneg : ∀ s ∈ term.operands .add, ∀ y, R.Reads s y → 0 ≤ y := by
    intro s hs y hy
    obtain ⟨u, _, hu⟩ := forall₂_mem_left hall s hs
    exact (boundedSummand_sound hk hu hy).nonneg
  rw [Fraction.isZero_iff.1 hzero, sub_zero]
  cases strict with
  | false => exact Reading.sum_nonneg hnonneg hx
  | true =>
    split at h
    · cases h
    rename_i hany
    obtain ⟨u, hu, hpos⟩ : ∃ u ∈ used, u.2 = true := by simpa using hany
    obtain ⟨s, hs, hsu⟩ := forall₂_mem_right hall u hu
    refine Reading.sum_pos hnonneg ⟨s, hs, fun y hy => ?_⟩ hx
    have habove := boundedSummand_sound hk hsu hy
    rw [hpos] at habove
    exact habove

/-- A number above a bound is above every weaker one, at a distance `g` further down. -/
theorem weaker_sound {strict known lt le eq : Bool} {p g : ℚ} (hp : AboveZero known p)
    (hlt : lt = true → 0 < g) (hle : le = true → 0 ≤ g) (heq : eq = true → g = 0)
    (h : (if strict = true then lt || (eq && known) else le) = true) :
    AboveZero strict (p + g) := by
  cases strict with
  | false => exact add_nonneg hp.nonneg (hle h)
  | true =>
    rcases Bool.or_eq_true_iff.1 h with hl | he
    · exact add_pos_of_nonneg_of_pos hp.nonneg (hlt hl)
    · obtain ⟨he, hs⟩ := Bool.and_eq_true_iff.1 he
      rwa [heq he, add_zero, ← hs]

theorem weakerLower?_sound (hk : known.HoldsIn R) {term : Expr} {k : Fraction} {strict : Bool}
    {reasoned : Reasoned} (h : weakerLower? term k strict known = some reasoned) {x : ℚ}
    (hx : R.Reads term x) : AboveZero strict (x - k.toRat) := by
  obtain ⟨b, hb, h⟩ := Option.bind_eq_some_iff.1 h
  have habove := Known.lowerBound?_sound hk hb hx
  by_cases hholds :
      (if strict = true then k.lt b.value || (b.value == k && b.strict) else k.le b.value) = true
  · rw [← sub_add_sub_cancel x b.value.toRat]
    refine weaker_sound habove (fun hlt => sub_pos.2 (Fraction.lt_iff.1 hlt))
      (fun hle => sub_nonneg.2 (Fraction.le_iff.1 hle)) (fun heq => ?_) hholds
    rw [beq_iff_eq.1 heq, sub_self]
  · cases (if_neg hholds).symm.trans h

theorem weakerUpper?_sound (hk : known.HoldsIn R) {term : Expr} {k : Fraction} {strict : Bool}
    {reasoned : Reasoned} (h : weakerUpper? term k strict known = some reasoned) {x : ℚ}
    (hx : R.Reads term x) : AboveZero strict (k.toRat - x) := by
  obtain ⟨b, hb, h⟩ := Option.bind_eq_some_iff.1 h
  have hbelow := Known.upperBound?_sound hk hb hx
  by_cases hholds :
      (if strict = true then b.value.lt k || (b.value == k && b.strict) else b.value.le k) = true
  · rw [← sub_add_sub_cancel k.toRat b.value.toRat, add_comm]
    refine weaker_sound hbelow (fun hlt => sub_pos.2 (Fraction.lt_iff.1 hlt))
      (fun hle => sub_nonneg.2 (Fraction.le_iff.1 hle)) (fun heq => ?_) hholds
    rw [beq_iff_eq.1 heq, sub_self]
  · cases (if_neg hholds).symm.trans h

theorem mem_linearOrderings {c : Comparison} (h : c ∈ linearOrderings known) :
    c ∈ known.comparisons ∧ (c.op = .gt ∨ c.op = .ge) ∧
      (∃ f, c.left.linearize = .ok f) ∧ ∃ f, c.right.linearize = .ok f := by
  obtain ⟨hc, h⟩ := List.mem_filter.1 h
  simp only [Bool.and_eq_true, Bool.or_eq_true, beq_iff_eq] at h
  obtain ⟨⟨hop, hl⟩, hr⟩ := h
  exact ⟨hc, hop, isOk_iff.1 hl, isOk_iff.1 hr⟩

theorem chained?_sound {σ : Valuation} (hk : known.HoldsIn (.linear σ)) {l r : Expr} {strict : Bool}
    {reasoned : Reasoned} (h : chained? l r strict known = some reasoned) {x y : ℚ}
    (hx : (Reading.linear σ).Reads l x) (hy : (Reading.linear σ).Reads r y) :
    AboveZero strict (x - y) := by
  simp only [chained?, Option.orElse_eq_orElse, Option.orElse_eq_or] at h
  rcases Option.or_eq_some_iff.1 h with hdirect | ⟨_, htwo⟩
  · obtain ⟨c, hc, hfound⟩ := List.exists_of_findSome?_eq_some hdirect
    obtain ⟨hmem, hop, _, _⟩ := mem_linearOrderings hc
    split at hfound
    · rename_i hmatch
      simp only [Bool.and_eq_true, decide_eq_true_eq] at hmatch
      obtain ⟨⟨rfl, rfl⟩, hstrict⟩ := hmatch
      refine (Known.ordering_sound hk hmem hop hx hy).weaken fun hs => ?_
      simpa [hs] using hstrict
    · cases hfound
  · obtain ⟨first, hf, hfound⟩ := List.exists_of_findSome?_eq_some htwo
    -- The common term is linear, so it can be read.
    obtain ⟨hfmem, hfop, _, m, hm⟩ := mem_linearOrderings hf
    split at hfound
    · cases hfound
    rename_i hleft
    obtain ⟨second, hs, hfound⟩ := List.exists_of_findSome?_eq_some hfound
    obtain ⟨hsmem, hsop, _, _⟩ := mem_linearOrderings hs
    split at hfound
    · rename_i hmatch
      simp only [Bool.and_eq_true, decide_eq_true_eq] at hmatch
      obtain ⟨⟨hmid, rfl⟩, hstrict⟩ := hmatch
      rw [not_not] at hleft
      subst hleft
      refine (Known.chain_sound hk hfmem hfop hsmem hsop hmid hx ⟨m, hm, rfl⟩ hy).weaken
        fun hs => ?_
      simpa [hs] using hstrict
    · cases hfound

/-! ## The goal as a whole -/

/-- **A proof by shape is sound**: the ordering holds of what its sides are read as. -/
theorem shape?_sound {σ : Valuation} (hk : known.HoldsIn (.linear σ)) {l r : Expr} {strict : Bool}
    {reasoned : Reasoned} (h : shape? l r strict known = some reasoned) {x y : ℚ}
    (hx : (Reading.linear σ).Reads l x) (hy : (Reading.linear σ).Reads r y) :
    AboveZero strict (x - y) := by
  simp only [shape?, Option.orElse_eq_orElse, Option.orElse_eq_or] at h
  rcases Option.or_eq_some_iff.1 h with hbounded | ⟨_, hchain⟩
  · split at hbounded
    · cases hbounded
    · rename_i k _
      rw [(Reading.linear σ).literal.1 hy]
      rcases Option.or_eq_some_iff.1 hbounded with hsum | ⟨_, hlower⟩
      · exact sumOfBounded?_sound hk hsum hx
      · exact weakerLower?_sound hk hlower hx
    · rename_i k _ _
      rw [(Reading.linear σ).literal.1 hx]
      exact weakerUpper?_sound hk hbounded hy
    · cases hbounded
  · exact chained?_sound hk hchain hx hy

/-- What is proved by its shape is an ordering of linear terms with one of the shapes. -/
theorem byShape_eq {goal : Expr} (h : (byShape goal known).proven = true) :
    ∃ o l r, goal = .compare o l r ∧ (o = .gt ∨ o = .ge) ∧
      (∃ f, l.linearize = .ok f) ∧ (∃ f, r.linearize = .ok f) ∧
      ∃ reasoned, shape? l r o.isStrict known = some reasoned := by
  unfold byShape at h
  dsimp only at h
  split at h
  · cases h
  rename_i hlinear
  rw [Bool.not_eq_true', Bool.not_eq_false] at hlinear
  split at h
  · rename_i l r
    obtain ⟨hl, hr⟩ := Bool.and_eq_true_iff.1 hlinear
    refine ⟨.gt, l, r, rfl, .inl rfl, isOk_iff.1 hl, isOk_iff.1 hr, ?_⟩
    split at h
    · rename_i reason used hshape
      exact ⟨_, hshape⟩
    · cases h
  · rename_i l r
    obtain ⟨hl, hr⟩ := Bool.and_eq_true_iff.1 hlinear
    refine ⟨.ge, l, r, rfl, .inr rfl, isOk_iff.1 hl, isOk_iff.1 hr, ?_⟩
    split at h
    · rename_i reason used hshape
      exact ⟨_, hshape⟩
    · cases h
  · cases h

/-- What is proved by its shape holds through linear forms wherever the facts do. -/
theorem byShape_sound {goal : Expr} (h : (byShape goal known).proven = true) {σ : Valuation}
    (hk : known.HoldsIn (.linear σ)) : goal.HoldsAt σ := by
  obtain ⟨o, l, r, rfl, hop, ⟨a, ha⟩, ⟨b, hb⟩, reasoned, hshape⟩ := byShape_eq h
  rw [Expr.holdsAt_compare ha hb]
  have habove := shape?_sound hk hshape ⟨a, ha, rfl⟩ ⟨b, hb, rfl⟩
  rcases hop with rfl | rfl
  · exact sub_pos.1 habove
  · exact sub_nonneg.1 habove

end LinearProof

/-! ## Agreement with refutation -/

/-- No coefficient overflows where the comparison that a goal consists of is negated. -/
def Expr.NegationFits (goal : Expr) : Prop :=
  ∀ o l r, goal = .compare o l r →
    ∀ n ∈ LinearProof.negations o, Constraint.ofComparison n l r ≠ .error .overflow

/-- No coefficient overflows where a comparison of linear terms among the facts, other than `!=`,
becomes a constraint. -/
def Known.LinearFits (k : Known) : Prop :=
  ∀ c ∈ k.comparisons, c.op ≠ .ne → c.left.linearize.isOk = true → c.right.linearize.isOk = true →
    Constraint.ofComparison c.op c.left c.right ≠ .error .overflow

/-- A comparison of linear terms is a constraint unless a coefficient overflows. -/
theorem Constraint.ofComparison_isOk {o : CompareOp} (ho : o ≠ .ne) {l r : Expr} {a b : LinearForm}
    (ha : l.linearize = .ok a) (hb : r.linearize = .ok b)
    (hfits : ofComparison o l r ≠ .error .overflow) : ∃ c, ofComparison o l r = .ok c := by
  have hstated : ∀ (d : Option LinearForm) (relation : Relation),
      (do return ⟨← Expr.orOverflow d, relation⟩ : Except LinearizeError Constraint) ≠
        .error .overflow →
      ∃ c, (do return ⟨← Expr.orOverflow d, relation⟩ : Except LinearizeError Constraint) =
        .ok c := by
    intro d relation h
    cases d with
    | none => exact absurd rfl h
    | some f => exact ⟨_, rfl⟩
  unfold ofComparison at hfits ⊢
  rw [ha, hb] at hfits ⊢
  cases o with
  | ne => exact absurd rfl ho
  | _ => exact hstated _ _ hfits

/-- Where no coefficient overflows, every comparison of linear terms holds when the linear ones
do. -/
theorem Known.LinearAt.holdsIn {k : Known} {σ : Valuation} (hσ : k.LinearAt σ)
    (hfits : k.LinearFits) : k.HoldsIn (.linear σ) := by
  rintro c hc hne x y ⟨a, ha, rfl⟩ ⟨b, hb, rfl⟩
  have hok := Constraint.ofComparison_isOk hne ha hb
    (hfits c hc hne (isOk_iff.2 ⟨a, ha⟩) (isOk_iff.2 ⟨b, hb⟩))
  exact (Expr.holdsAt_compare ha hb σ).1 (hσ c hc ⟨hne, hok⟩)

namespace LinearProof

/-- **Proofs by shape are never refused by refutation.** Where a goal is proved by its shape, and no
coefficient overflows in the constraints for its negation and for the facts, refutation proves it or
ends without an answer, whatever the limit on the rows. -/
theorem byShape_agrees (goal : Expr) (known : Known) (h : (byShape goal known).proven = true)
    (hgoal : goal.NegationFits) (hknown : known.LinearFits) (maxRows : Nat) :
    (byRefutation goal known maxRows).proven = true ∨
      (byRefutation goal known maxRows).status = .inconclusive := by
  obtain ⟨o, l, r, rfl, hop, ⟨a, ha⟩, ⟨b, hb⟩, _⟩ := byShape_eq h
  have hconj : (Expr.compare o l r).Conjunctive := by
    refine .compare fun n hn => Constraint.ofComparison_isOk ?_ ha hb (hgoal o l r rfl n hn)
    rintro rfl
    rcases hop with rfl | rfl
    · cases List.mem_singleton.1 hn
    · cases List.mem_singleton.1 hn
  cases hs : (byRefutation (.compare o l r) known maxRows).status with
  | proved => exact .inl (beq_iff_eq.2 hs)
  | inconclusive => exact .inr rfl
  | failed =>
    -- A plain failure has a counterexample, but the goal holds there by its shape.
    obtain ⟨σ, hσ, hnot⟩ := byRefutation_failed hconj hs
    exact absurd (byShape_sound h (hσ.holdsIn hknown)) hnot

/-- From `x >= 1` and `y >= 0`, the sum `x + y > 0` is proved by its shape, and by refutation. -/
theorem byShape_agrees_sum :
    let lowerX : Expr := .compare .ge (.var "x") (.num .one)
    let lowerY : Expr := .compare .ge (.var "y") (.num .zero)
    let goal : Expr := .compare .gt (.arith .add (.var "x") (.var "y")) (.num .zero)
    let known : Known :=
      ⟨[⟨"x", lowerX⟩, ⟨"y", lowerY⟩], [⟨lowerX, 0, ⟨"x", lowerX⟩⟩, ⟨lowerY, 1, ⟨"y", lowerY⟩⟩]⟩
    (byShape goal known).proven = true ∧ goal.NegationFits ∧ known.LinearFits ∧
      (byRefutation goal known 16).proven = true := by
  intro lowerX lowerY goal known
  have hshape : (byShape goal known).proven = true := by cbv
  have hgoal : goal.NegationFits := by
    intro o l r h
    obtain ⟨rfl, rfl, rfl⟩ := Expr.compare.inj h
    refine List.forall_mem_singleton.2 ?_
    rintro ⟨⟩
  have hknown : known.LinearFits := by
    refine List.forall_mem_cons.2 ⟨?_, List.forall_mem_singleton.2 ?_⟩
    · rintro _ _ _ ⟨⟩
    · rintro _ _ _ ⟨⟩
  have hstatus : ¬ (byRefutation goal known 16).status = .inconclusive := by
    have hproved : (byRefutation goal known 16).status = .proved := by cbv
    rw [hproved]
    decide
  exact ⟨hshape, hgoal, hknown,
    (byShape_agrees goal known hshape hgoal hknown 16).resolve_right hstatus⟩

end LinearProof

end Discharge
