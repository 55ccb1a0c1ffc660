import Discharge.Linear.Proof
import Discharge.Proofs.Linear.Feasibility

/-!
# Refutation decides conjunctive goals

A condition can be read through the linear forms of its comparisons (`Expr.HoldsAt`). Read so, a
goal proved by refutation follows from the linear comparisons among the facts
(`LinearProof.refute_sound`). For a goal that joins comparisons by `&&` alone, a plain failure is
the converse: some valuation agrees with those comparisons and falsifies the goal
(`LinearProof.refute_failed`). Both directions rest on elimination being exact.
-/

namespace Discharge

/-! ## Conditions read through linear forms -/

/-- The condition holds under a valuation when each side of a comparison is read as its linear
form. -/
def Expr.HoldsAt (σ : Valuation) : Expr → Prop
  | .bool b => b = true
  | .compare o l r =>
    ∃ a b, l.linearize = .ok a ∧ r.linearize = .ok b ∧ o.Relates (a.value σ) (b.value σ)
  | .and l r => l.HoldsAt σ ∧ r.HoldsAt σ
  | .or l r => l.HoldsAt σ ∨ r.HoldsAt σ
  | _ => False

/-- A comparison other than `!=` that a constraint states. -/
def Comparison.IsLinear (c : Comparison) : Prop :=
  c.op ≠ .ne ∧ ∃ k, Constraint.ofComparison c.op c.left c.right = .ok k

/-- Every linear comparison among the facts holds under the valuation. -/
def Known.LinearAt (σ : Valuation) (k : Known) : Prop :=
  ∀ c ∈ k.comparisons, c.IsLinear → (Expr.compare c.op c.left c.right).HoldsAt σ

/-- A goal built with `&&` from comparisons whose negations are constraints. -/
inductive Expr.Conjunctive : Expr → Prop
  | compare {o : CompareOp} {l r : Expr}
      (negated : ∀ n ∈ LinearProof.negations o, ∃ c, Constraint.ofComparison n l r = .ok c) :
      Conjunctive (.compare o l r)
  | and {l r : Expr} : Conjunctive l → Conjunctive r → Conjunctive (.and l r)

/-- The forms of two terms settle how a comparison of them is read. -/
theorem Expr.holdsAt_compare {o : CompareOp} {l r : Expr} {a b : LinearForm}
    (ha : l.linearize = .ok a) (hb : r.linearize = .ok b) (σ : Valuation) :
    (Expr.compare o l r).HoldsAt σ ↔ o.Relates (a.value σ) (b.value σ) := by
  constructor
  · rintro ⟨a', b', ha', hb', h⟩
    rw [ha] at ha'
    rw [hb] at hb'
    cases ha'
    cases hb'
    exact h
  · exact fun h => ⟨a, b, ha, hb, h⟩

/-- A constraint holds as the comparison that it was made from. -/
theorem Constraint.holds_iff_holdsAt {o : CompareOp} {l r : Expr} {c : Constraint}
    (h : ofComparison o l r = .ok c) (σ : Valuation) :
    c.Holds σ ↔ (Expr.compare o l r).HoldsAt σ := by
  obtain ⟨a, b, ha, hb, _, hc⟩ := holds_ofComparison h
  rw [hc, Expr.holdsAt_compare ha hb]

namespace LinearProof

/-! ## One comparison -/

theorem negations_of_ne_eq {o : CompareOp} (h : o ≠ .eq) : negations o = [o.negated] := by
  cases o with
  | eq => exact absurd rfl h
  | _ => rfl

theorem exists_mem_negations (o : CompareOp) : ∃ n, n ∈ negations o := by
  cases o <;> exact ⟨_, List.mem_cons_self⟩

/-- A comparison holds when none of the comparisons that negate it does. -/
theorem relates_iff_negations {o : CompareOp} {a b : ℚ} :
    o.Relates a b ↔ ∀ n ∈ negations o, ¬ n.Relates a b := by
  by_cases ho : o = .eq
  · subst ho
    show a = b ↔ ∀ n ∈ [CompareOp.lt, .gt], ¬ n.Relates a b
    rw [List.forall_mem_cons, List.forall_mem_singleton]
    exact ⟨fun h => ⟨h.not_lt, h.not_gt⟩, fun h => le_antisymm (not_lt.1 h.2) (not_lt.1 h.1)⟩
  · rw [negations_of_ne_eq ho, List.forall_mem_singleton, CompareOp.relates_negated, not_not]

/-- A comparison that contradicts the assumptions is between linear terms, and fails wherever the
assumptions hold. -/
theorem contradict_ok {assumptions : List Constraint} {maxRows : Nat} {o : CompareOp} {l r : Expr}
    {evidence : Evidence} (h : contradict assumptions maxRows o l r = .ok evidence) :
    ∃ a b, l.linearize = .ok a ∧ r.linearize = .ok b ∧
      ∀ σ : Valuation, (∀ c ∈ assumptions, c.Holds σ) → ¬ o.Relates (a.value σ) (b.value σ) := by
  unfold contradict at h
  split at h
  · cases h
  · rename_i c hc
    obtain ⟨a, b, ha, hb, _, hrel⟩ := Constraint.holds_ofComparison hc
    refine ⟨a, b, ha, hb, fun σ hσ hr => ?_⟩
    split at h
    · rename_i row done hcheck
      have hinf : (Feasibility.check (assumptions ++ [c]) maxRows).1 = .infeasible row := by
        rw [hcheck]
      refine Feasibility.check_infeasible hinf σ (List.forall_mem_append.2 ⟨hσ, ?_⟩)
      exact List.forall_mem_singleton.2 ((hrel σ).2 hr)
    · cases h
    · cases h

/-- A comparison that is a constraint is refused because of a limit, or because it holds together
with the assumptions somewhere. -/
theorem contradict_error {assumptions : List Constraint} (hwf : ∀ c ∈ assumptions, c.form.WF)
    {maxRows : Nat} {o : CompareOp} {l r : Expr} {c : Constraint}
    (hc : Constraint.ofComparison o l r = .ok c) {why : Refusal}
    (h : contradict assumptions maxRows o l r = .error why) :
    (∃ limit, why = .limit limit) ∨
      ∃ σ : Valuation, (∀ c ∈ assumptions, c.Holds σ) ∧ (Expr.compare o l r).HoldsAt σ := by
  unfold contradict at h
  rw [hc] at h
  dsimp only at h
  split at h
  · cases h
  · rename_i done hcheck
    have hwf' : ∀ d ∈ assumptions ++ [c], d.form.WF :=
      List.forall_mem_append.2
        ⟨hwf, List.forall_mem_singleton.2 (Constraint.IsComparison.wf ⟨o, l, r, hc⟩)⟩
    have hfeas : (Feasibility.check (assumptions ++ [c]) maxRows).1 = .feasible := by rw [hcheck]
    obtain ⟨σ, hσ⟩ := Feasibility.check_feasible hwf' hfeas
    obtain ⟨hassumed, hlast⟩ := List.forall_mem_append.1 hσ
    have hcσ := List.forall_mem_singleton.1 hlast
    exact .inr ⟨σ, hassumed, (Constraint.holds_iff_holdsAt hc σ).1 hcσ⟩
  · cases h
    exact .inl ⟨_, rfl⟩

/-! ## Whole conditions -/

section

variable {assumptions : List Constraint} {maxRows : Nat} {l r : Expr} {why : Refusal}

theorem refute_and_error (h : refute assumptions maxRows (.and l r) = .error why) :
    refute assumptions maxRows l = .error why ∨ refute assumptions maxRows r = .error why := by
  rw [refute] at h
  cases hl : refute assumptions maxRows l with
  | error e =>
    rw [hl] at h
    exact .inl h
  | ok a =>
    cases hr : refute assumptions maxRows r with
    | error e =>
      rw [hl, hr] at h
      exact .inr h
    | ok b =>
      rw [hl, hr] at h
      cases h

theorem refute_or_ok {evidence : List Evidence}
    (h : refute assumptions maxRows (.or l r) = .ok evidence) :
    refute assumptions maxRows l = .ok evidence ∨ refute assumptions maxRows r = .ok evidence := by
  rw [refute] at h
  cases hl : refute assumptions maxRows l with
  | ok a =>
    rw [hl] at h
    exact .inl h
  | error first =>
    cases hr : refute assumptions maxRows r with
    | ok b =>
      rw [hl, hr] at h
      cases first <;> exact .inr h
    | error second =>
      rw [hl, hr] at h
      cases first <;> cases h

/-- Where neither side of a disjunction is proved, a limit met on the left is reported, and
otherwise the reason on the right. -/
theorem refute_or_error (h : refute assumptions maxRows (.or l r) = .error why) :
    ∃ first second, refute assumptions maxRows l = .error first ∧
      refute assumptions maxRows r = .error second ∧
      ((∃ limit, first = .limit limit) ∧ why = first ∨
        (∀ limit, first ≠ .limit limit) ∧ why = second) := by
  rw [refute] at h
  cases hl : refute assumptions maxRows l with
  | ok a =>
    rw [hl] at h
    cases h
  | error first =>
    cases hr : refute assumptions maxRows r with
    | ok b =>
      rw [hl, hr] at h
      cases first <;> cases h
    | error second =>
      rw [hl, hr] at h
      refine ⟨first, second, rfl, rfl, ?_⟩
      cases first with
      | limit limit =>
        cases h
        exact .inl ⟨⟨limit, rfl⟩, rfl⟩
      | _ =>
        cases h
        exact .inr ⟨nofun, rfl⟩

end

/-- **A refuted negation proves the condition**: it holds wherever the assumptions do. -/
theorem refute_sound {assumptions : List Constraint} {maxRows : Nat} {goal : Expr}
    {evidence : List Evidence} (h : refute assumptions maxRows goal = .ok evidence)
    {σ : Valuation} (hσ : ∀ c ∈ assumptions, c.Holds σ) : goal.HoldsAt σ := by
  induction goal generalizing evidence with
  | bool b =>
    cases b with
    | true => rfl
    | false => cases h
  | compare o l r =>
    rw [refute] at h
    have hneg : ∀ n ∈ negations o, ∃ a b, l.linearize = .ok a ∧ r.linearize = .ok b ∧
        ∀ σ : Valuation, (∀ c ∈ assumptions, c.Holds σ) → ¬ n.Relates (a.value σ) (b.value σ) := by
      intro n hn
      obtain ⟨_, _, hev⟩ := mapM_eq_ok h n hn
      exact contradict_ok hev
    obtain ⟨n, hn⟩ := exists_mem_negations o
    obtain ⟨a, b, ha, hb, _⟩ := hneg n hn
    -- Each negation comes with forms of its own, but they are forms of the same terms.
    refine (Expr.holdsAt_compare ha hb σ).2 (relates_iff_negations.2 fun m hm => ?_)
    obtain ⟨a', b', ha', hb', hm⟩ := hneg m hm
    rw [← Expr.holdsAt_compare ha hb, Expr.holdsAt_compare ha' hb']
    exact hm σ hσ
  | and l r ihl ihr =>
    rw [refute] at h
    obtain ⟨_, hl, h⟩ := except_bind_ok.1 h
    obtain ⟨_, hr, _⟩ := except_bind_ok.1 h
    exact ⟨ihl hl, ihr hr⟩
  | or l r ihl ihr => exact (refute_or_ok h).imp ihl ihr
  | _ => cases h

/-- **A plain failure has a counterexample**: where no limit was met, some valuation agrees with the
assumptions and falsifies the goal. -/
theorem refute_failed {assumptions : List Constraint} (hwf : ∀ c ∈ assumptions, c.form.WF)
    {maxRows : Nat} {goal : Expr} (hgoal : goal.Conjunctive) {why : Refusal}
    (h : refute assumptions maxRows goal = .error why) (hwhy : ∀ limit, why ≠ .limit limit) :
    ∃ σ : Valuation, (∀ c ∈ assumptions, c.Holds σ) ∧ ¬ goal.HoldsAt σ := by
  induction hgoal with
  | @compare o l r negated =>
    rw [refute] at h
    obtain ⟨n, hn, hrefused⟩ := mapM_eq_error h
    obtain ⟨c, hc⟩ := negated n hn
    rcases contradict_error hwf hc hrefused with ⟨limit, hl⟩ | ⟨σ, hσ, hnσ⟩
    · exact absurd hl (hwhy limit)
    · obtain ⟨a, b, ha, hb, hnab⟩ := hnσ
      refine ⟨σ, hσ, fun hgoal => ?_⟩
      rw [Expr.holdsAt_compare ha hb, relates_iff_negations] at hgoal
      exact hgoal n hn hnab
  | @and l r _ _ ihl ihr =>
    rcases refute_and_error h with hl | hr
    · obtain ⟨σ, hσ, hgoal⟩ := ihl hl
      exact ⟨σ, hσ, fun hand => hgoal hand.1⟩
    · obtain ⟨σ, hσ, hgoal⟩ := ihr hr
      exact ⟨σ, hσ, fun hand => hgoal hand.2⟩

/-! ## From the facts -/

/-- The constraints that a proof by refutation assumes. -/
def assumed (known : Known) : List Constraint := known.comparisons.filterMap constraintOf?

theorem constraintOf?_eq_some {c : Comparison} {k : Constraint} :
    constraintOf? c = some k ↔
      c.op ≠ .ne ∧ Constraint.ofComparison c.op c.left c.right = .ok k := by
  unfold constraintOf?
  split
  · rename_i hne
    exact ⟨fun h => (by cases h), fun h => absurd hne h.1⟩
  · rename_i hne
    cases Constraint.ofComparison c.op c.left c.right with
    | error e => exact ⟨fun h => (by cases h), fun h => (by cases h.2)⟩
    | ok d => exact ⟨fun h => ⟨hne, by cases h; rfl⟩, fun h => (by cases h.2; rfl)⟩

/-- The assumed constraints hold where the linear comparisons among the facts do. -/
theorem holds_assumed {known : Known} {σ : Valuation} :
    (∀ c ∈ assumed known, c.Holds σ) ↔ known.LinearAt σ := by
  constructor
  · rintro h c hc ⟨hne, k, hk⟩
    rw [← Constraint.holds_iff_holdsAt hk]
    exact h k (List.mem_filterMap.2 ⟨c, hc, constraintOf?_eq_some.2 ⟨hne, hk⟩⟩)
  · intro h k hk
    obtain ⟨c, hc, hck⟩ := List.mem_filterMap.1 hk
    obtain ⟨hne, hok⟩ := constraintOf?_eq_some.1 hck
    exact (Constraint.holds_iff_holdsAt hok σ).2 (h c hc ⟨hne, k, hok⟩)

theorem wf_assumed (known : Known) : ∀ c ∈ assumed known, c.form.WF := by
  intro k hk
  obtain ⟨c, _, hck⟩ := List.mem_filterMap.1 hk
  exact Constraint.IsComparison.wf ⟨_, _, _, (constraintOf?_eq_some.1 hck).2⟩

/-- A proof by refutation in terms of the refutation of the goal. -/
theorem byRefutation_eq (goal : Expr) (known : Known) (maxRows : Nat) :
    byRefutation goal known maxRows =
      match refute (assumed known) maxRows goal with
      | .ok evidence => ⟨"fourier_motzkin", .proved, "; ".intercalate (evidence.map Evidence.text),
          ((known.comparisons.filterMap fun c => (constraintOf? c).map (·, c.fact)).map
            (·.2)).eraseDups⟩
      | .error (.limit l) => ⟨"fourier_motzkin", .inconclusive, l.message, []⟩
      | .error why => ⟨"fourier_motzkin", .failed, why.message, []⟩ := by
  have hlinear : (known.comparisons.filterMap fun c => (constraintOf? c).map (·, c.fact)).map (·.1)
      = assumed known := by
    rw [List.map_filterMap, assumed]
    congr 1
    funext c
    rw [Option.map_map]
    exact Option.map_id'
  unfold byRefutation
  dsimp only
  rewrite [hlinear]
  rfl

/-- The status of a proof by refutation is that of the refutation of the goal. -/
theorem status_byRefutation (goal : Expr) (known : Known) (maxRows : Nat) :
    (byRefutation goal known maxRows).status =
      match refute (assumed known) maxRows goal with
      | .ok _ => .proved
      | .error (.limit _) => .inconclusive
      | .error _ => .failed := by
  rw [byRefutation_eq]
  cases refute (assumed known) maxRows goal with
  | ok evidence => rfl
  | error why => cases why <;> rfl

theorem proven_byRefutation {goal : Expr} {known : Known} {maxRows : Nat} :
    (byRefutation goal known maxRows).proven = true ↔
      ∃ evidence, refute (assumed known) maxRows goal = .ok evidence := by
  rw [proven, beq_iff_eq, status_byRefutation]
  split <;> simp_all

theorem failed_byRefutation {goal : Expr} {known : Known} {maxRows : Nat}
    (h : (byRefutation goal known maxRows).status = .failed) :
    ∃ why, refute (assumed known) maxRows goal = .error why ∧ ∀ limit, why ≠ .limit limit := by
  rw [status_byRefutation] at h
  split at h
  · cases h
  · cases h
  · rename_i why hne hwhy
    exact ⟨why, hwhy, hne⟩

/-- What refutation proves follows from the linear comparisons among the facts. -/
theorem byRefutation_sound {goal : Expr} {known : Known} {maxRows : Nat}
    (h : (byRefutation goal known maxRows).proven = true) {σ : Valuation}
    (hσ : known.LinearAt σ) : goal.HoldsAt σ := by
  obtain ⟨evidence, hev⟩ := proven_byRefutation.1 h
  exact refute_sound hev (holds_assumed.2 hσ)

/-- A conjunctive goal that plainly fails is falsified beside the facts. -/
theorem byRefutation_failed {goal : Expr} (hgoal : goal.Conjunctive) {known : Known} {maxRows : Nat}
    (h : (byRefutation goal known maxRows).status = .failed) :
    ∃ σ : Valuation, known.LinearAt σ ∧ ¬ goal.HoldsAt σ := by
  obtain ⟨why, hwhy, hlimit⟩ := failed_byRefutation h
  obtain ⟨σ, hσ, hnot⟩ := refute_failed (wf_assumed known) hgoal hwhy hlimit
  exact ⟨σ, holds_assumed.1 hσ, hnot⟩

/-- **Refutation decides conjunctive linear goals.** A goal that is proved, whatever it joins by
`&&` and `||`, follows from the linear comparisons among the facts. A conjunctive goal that is
neither proved nor inconclusive does not: some valuation satisfies them all and falsifies it. -/
theorem byRefutation_decides (known : Known) (maxRows : Nat) (goal : Expr) :
    ((byRefutation goal known maxRows).proven = true →
        ∀ σ : Valuation, known.LinearAt σ → goal.HoldsAt σ) ∧
      (goal.Conjunctive → (byRefutation goal known maxRows).proven = false →
        (byRefutation goal known maxRows).status ≠ .inconclusive →
        ∃ σ : Valuation, known.LinearAt σ ∧ ¬ goal.HoldsAt σ) := by
  refine ⟨fun h σ => byRefutation_sound h, fun hgoal hproven hstatus => ?_⟩
  cases hs : (byRefutation goal known maxRows).status with
  | proved =>
    rw [proven, hs] at hproven
    cases hproven
  | inconclusive => exact absurd hs hstatus
  | failed => exact byRefutation_failed hgoal hs

/-- From `x: x > y`, the bound `x - y > -1` is proved and `x - y >= 1 && x > y` is not: `x` may be
just above `y`. -/
theorem byRefutation_decides_difference :
    let difference : Expr := .arith .sub (.var "x") (.var "y")
    let above : Expr := .compare .gt (.var "x") (.var "y")
    let known : Known := ⟨[⟨"x", above⟩], [⟨above, 0, ⟨"x", above⟩⟩]⟩
    let bound : Expr := .compare .gt difference (.num (.ofWord (-1) (by decide)))
    let gap : Expr := .and (.compare .ge difference (.num .one)) above
    (byRefutation bound known 16).proven = true ∧
        (∀ σ : Valuation, known.LinearAt σ → bound.HoldsAt σ) ∧
      gap.Conjunctive ∧ (byRefutation gap known 16).proven = false ∧
        (byRefutation gap known 16).status ≠ .inconclusive ∧
        ∃ σ : Valuation, known.LinearAt σ ∧ ¬ gap.HoldsAt σ := by
  intro difference above known bound gap
  have hbound : (byRefutation bound known 16).proven = true := by cbv
  have hgap : (byRefutation gap known 16).status = .failed := by cbv
  have hproven : (byRefutation gap known 16).proven = false := by rw [proven, hgap]; rfl
  have hstatus : (byRefutation gap known 16).status ≠ .inconclusive := by rw [hgap]; decide
  have hgoal : gap.Conjunctive := .and
    (.compare (List.forall_mem_singleton.2 ⟨_, rfl⟩))
    (.compare (List.forall_mem_singleton.2 ⟨_, rfl⟩))
  exact ⟨hbound, (byRefutation_decides known 16 bound).1 hbound, hgoal, hproven,
    hstatus, (byRefutation_decides known 16 gap).2 hgoal hproven hstatus⟩

end LinearProof

end Discharge
