import Discharge.Proofs.Linear.Exact
import Discharge.Proofs.Linear.Shape

/-!
# Linear proofs are sound

Linear proofs read terms through their linear forms. Under the numbers that an assignment gives to
the atoms this is the exact meaning of the terms that have one, so a linear proof carries over:
where the conditions that the facts state are true, the goal is not false.
-/

namespace Discharge

variable {ρ : Lookup ℚ} {known : Known}

/-- Every variable in the conditions that the facts state is a name. -/
def Known.Named (k : Known) : Prop := ∀ a ∈ k.atoms, a.condition.Named

/-- Through linear forms, comparisons that are true relate the values of their sides. -/
theorem Known.TrueAt.holdsIn_linear (hk : known.TrueAt ρ) (hnamed : known.Named) :
    known.HoldsIn (.linear ρ.atoms) := by
  rintro c hc _ x y ⟨f, hf, rfl⟩ ⟨g, hg, rfl⟩
  obtain ⟨a, ha, hcond⟩ := Known.mem_comparisons hc
  obtain ⟨hl, hr⟩ := Expr.named_compare.1 (hcond ▸ hnamed a ha)
  have htrue := hk.comparison hc
  obtain ⟨v, w, _, hv, hw, _⟩ := Expr.evalIn_compare.1 htrue
  obtain rfl := Expr.linearize_exact hl hf hv
  obtain rfl := Expr.linearize_exact hr hg hw
  rw [Expr.evalIn_compare_num hv hw, Option.some.injEq, Result.bool.injEq] at htrue
  exact of_decide_eq_true htrue

theorem Known.TrueAt.linearAt (hk : known.TrueAt ρ) (hnamed : known.Named) :
    known.LinearAt ρ.atoms := by
  rintro c hc ⟨hne, k, hok⟩
  obtain ⟨a, b, ha, hb, _, _⟩ := Constraint.holds_ofComparison hok
  exact ⟨a, b, ha, hb, hk.holdsIn_linear hnamed c hc hne _ _ ⟨a, ha, rfl⟩ ⟨b, hb, rfl⟩⟩

/-- What holds through linear forms is not false. -/
theorem Expr.HoldsAt.notFalse {goal : Expr} (hnamed : goal.Named) (h : goal.HoldsAt ρ.atoms) :
    goal.NotFalse ρ := by
  induction goal with
  | bool b =>
    cases h
    exact Expr.notFalse_of_true rfl
  | compare o l r _ _ =>
    obtain ⟨a, b, ha, hb, hrel⟩ := h
    obtain ⟨hl, hr⟩ := Expr.named_compare.1 hnamed
    intro hfalse
    obtain ⟨v, w, _, hv, hw, _⟩ := Expr.evalIn_compare.1 hfalse
    obtain rfl := Expr.linearize_exact hl ha hv
    obtain rfl := Expr.linearize_exact hr hb hw
    rw [Expr.evalIn_compare_num hv hw, Option.some.injEq, Result.bool.injEq] at hfalse
    exact of_decide_eq_false hfalse hrel
  | and l r ihl ihr =>
    obtain ⟨hl, hr⟩ := Expr.named_and.1 hnamed
    intro hfalse
    rcases Expr.evalIn_and.1 hfalse with ⟨hlf, _⟩ | ⟨_, _, hrf, ⟨⟩⟩
    · exact ihl hl h.1 hlf
    · exact ihr hr h.2 hrf
  | or l r ihl ihr =>
    obtain ⟨hl, hr⟩ := Expr.named_or.1 hnamed
    intro hfalse
    rcases Expr.evalIn_or.1 hfalse with ⟨_, ⟨⟩⟩ | ⟨hlf, _, hrf, ⟨⟩⟩
    rcases h with h | h
    · exact ihl hl h hlf
    · exact ihr hr h hrf
  | _ => exact absurd h id

namespace LinearProof

/-- **Refutation is sound** for the exact meaning of conditions. -/
theorem notFalse_of_byRefutation {goal : Expr} (hgoal : goal.Named) (hnamed : known.Named)
    {maxRows : Nat} (h : (byRefutation goal known maxRows).proven = true) (hk : known.TrueAt ρ) :
    goal.NotFalse ρ :=
  (byRefutation_sound h (hk.linearAt hnamed)).notFalse hgoal

/-- **Proofs by shape are sound** for the exact meaning of conditions. -/
theorem notFalse_of_byShape {goal : Expr} (hgoal : goal.Named) (hnamed : known.Named)
    (h : (byShape goal known).proven = true) (hk : known.TrueAt ρ) : goal.NotFalse ρ :=
  (byShape_sound h (hk.holdsIn_linear hnamed)).notFalse hgoal

end LinearProof

end Discharge
