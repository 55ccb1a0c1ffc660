import Discharge.Proofs.Expr.Meaning
import Discharge.Proofs.Linear.Row
import Mathlib

/-!
# Elimination decides feasibility

A definite answer of `Feasibility.check` is right: constraints that it finds infeasible have no
rational solution, and constraints that it finds feasible have one (`Feasibility.check_exact`). The
search keeps both directions round by round, `Row.eliminate?_sound` forwards and
`Row.eliminate?_complete` backwards. An answer that is inconclusive is not spoken of.

What a constraint states is what the comparison it was made from says of the two forms
(`Constraint.holds_ofComparison`).
-/

namespace Discharge

/-! ## What constraints state -/

/-- The number stands in the relation to zero. -/
def Relation.Holds : Relation → ℚ → Prop
  | .ge, q => 0 ≤ q
  | .gt, q => 0 < q
  | .eq, q => q = 0

namespace Constraint

/-- The constraint holds under a valuation. -/
def Holds (σ : Valuation) (c : Constraint) : Prop := c.relation.Holds (c.form.value σ)

/-- The constraint was made from a comparison. -/
def IsComparison (c : Constraint) : Prop := ∃ o l r, ofComparison o l r = .ok c

/-- A constraint on a difference states how its terms relate. -/
theorem holds_difference {f g : LinearForm} (hf : f.WF) (hg : g.WF) {relation : Relation}
    {c : Constraint}
    (h : (do return ⟨← Expr.orOverflow (f.sub? g), relation⟩ : Except LinearizeError Constraint) =
      .ok c) :
    c.form.WF ∧ ∀ σ, c.Holds σ ↔ relation.Holds (f.value σ - g.value σ) := by
  obtain ⟨d, hd, h⟩ := except_bind_ok.1 h
  cases h
  have hd := Expr.orOverflow_eq_ok.1 hd
  refine ⟨hf.sub? hg hd, fun σ => ?_⟩
  rw [Holds, LinearForm.value_sub? σ hd]

/-- The constraint made from a comparison is well formed, and states of the forms of the two sides
what the comparison says. -/
theorem holds_ofComparison {o : CompareOp} {l r : Expr} {c : Constraint}
    (h : ofComparison o l r = .ok c) :
    ∃ a b, l.linearize = .ok a ∧ r.linearize = .ok b ∧ c.form.WF ∧
      ∀ σ, c.Holds σ ↔ o.Relates (a.value σ) (b.value σ) := by
  obtain ⟨a, ha, h⟩ := except_bind_ok.1 h
  obtain ⟨b, hb, h⟩ := except_bind_ok.1 h
  have hwa := Expr.linearize_wf ha
  have hwb := Expr.linearize_wf hb
  refine ⟨a, b, ha, hb, ?_⟩
  cases o with
  | gt =>
    obtain ⟨hwf, hiff⟩ := holds_difference hwa hwb h
    exact ⟨hwf, fun σ => (hiff σ).trans sub_pos⟩
  | ge =>
    obtain ⟨hwf, hiff⟩ := holds_difference hwa hwb h
    exact ⟨hwf, fun σ => (hiff σ).trans sub_nonneg⟩
  | lt =>
    obtain ⟨hwf, hiff⟩ := holds_difference hwb hwa h
    exact ⟨hwf, fun σ => (hiff σ).trans sub_pos⟩
  | le =>
    obtain ⟨hwf, hiff⟩ := holds_difference hwb hwa h
    exact ⟨hwf, fun σ => (hiff σ).trans sub_nonneg⟩
  | eq =>
    obtain ⟨hwf, hiff⟩ := holds_difference hwa hwb h
    exact ⟨hwf, fun σ => (hiff σ).trans sub_eq_zero⟩
  | ne => cases h

theorem IsComparison.wf {c : Constraint} (h : c.IsComparison) : c.form.WF := by
  obtain ⟨_, _, _, h⟩ := h
  obtain ⟨_, _, _, _, hwf, _⟩ := holds_ofComparison h
  exact hwf

end Constraint

/-! ## The search -/

namespace Row

theorem cheapest?_eq_none {xs : List (String × Nat)} (h : cheapest? xs = none) : xs = [] := by
  cases xs with
  | nil => rfl
  | cons x xs =>
    rw [cheapest?] at h
    split at h
    · split at h <;> cases h
    · cases h

/-- Where there is no atom to eliminate, no row has one. -/
theorem isConstant_of_nextAtom?_eq_none {rs : List Row} (h : nextAtom? rs = none) :
    ∀ r ∈ rs, r.form.isConstant = true := by
  have hcosts : costs rs = [] := cheapest?_eq_none (Option.map_eq_none_iff.1 h)
  have hocc : occurrences rs = [] := by
    rw [costs, List.filterMap_eq_nil_iff] at hcosts
    refine List.eq_nil_iff_forall_not_mem.2 fun cs hcs => ?_
    have hne : cs ≠ [] := List.ne_nil_of_mem_splitBy hcs
    have := Option.map_eq_none_iff.1 (hcosts cs hcs)
    exact hne (List.head?_eq_none_iff.1 this)
  rw [occurrences, List.splitBy_eq_nil] at hocc
  have hall : rs.flatMap (·.form.coeffs) = [] := by
    rw [← List.length_eq_zero_iff, ← List.length_mergeSort, hocc, List.length_nil]
  exact fun r hr => List.isEmpty_iff.2 (List.flatMap_eq_nil_iff.1 hall r hr)

end Row

namespace Feasibility

/-- **A search that ends in a contradiction**: the rows it started from hold nowhere. -/
theorem search_infeasible {maxRows rounds : Nat} {rows : List Row} {done : Elimination} {bad : Row}
    (h : (search maxRows rounds rows done).1 = .infeasible bad) (σ : Valuation) :
    ¬ ∀ r ∈ rows, r.Holds σ := by
  induction rounds generalizing rows done with
  | zero => cases h
  | succ rounds ih =>
    intro hrows
    rw [search] at h
    dsimp only at h
    split at h
    · cases h
    split at h
    · rename_i r hr
      exact Row.not_holds_of_isContradiction (List.find?_some hr) σ
        (hrows r (List.mem_of_find?_eq_some hr))
    split at h
    · cases h
    split at h
    · cases h
    · rename_i next hnext
      exact ih h (Row.eliminate?_sound hnext hrows)

/-- **A search that ends without a contradiction**: the rows it started from hold somewhere. -/
theorem search_feasible {maxRows rounds : Nat} {rows : List Row} {done : Elimination}
    (hwf : ∀ r ∈ rows, r.form.WF) (h : (search maxRows rounds rows done).1 = .feasible) :
    ∃ σ : Valuation, ∀ r ∈ rows, r.Holds σ := by
  induction rounds generalizing rows done with
  | zero => cases h
  | succ rounds ih =>
    rw [search] at h
    dsimp only at h
    split at h
    · cases h
    split at h
    · cases h
    rename_i hfind
    split at h
    · -- No atom is left, so every row is a constant that is no contradiction.
      rename_i hnone
      refine ⟨fun _ => 0, fun r hr => ?_⟩
      exact Row.holds_of_isConstant (Row.isConstant_of_nextAtom?_eq_none hnone r hr)
        (Bool.eq_false_iff.2 (List.find?_eq_none.1 hfind r hr)) _
    split at h
    · cases h
    · rename_i next hnext
      obtain ⟨σ, hσ⟩ := ih (Row.wf_eliminate? hnext hwf) h
      obtain ⟨v, hv⟩ := Row.eliminate?_complete hnext hwf hσ
      exact ⟨_, hv⟩

/-! ## Constraints as rows -/

/-- The rows of a constraint hold together where the constraint does. -/
theorem holds_rows? {c : Constraint} {rs : List Row} (h : rows? c = some rs) (σ : Valuation) :
    (∀ r ∈ rs, r.Holds σ) ↔ c.Holds σ := by
  obtain ⟨f, relation⟩ := c
  cases relation with
  | ge =>
    obtain rfl := Option.some.inj h
    exact List.forall_mem_singleton
  | gt =>
    obtain rfl := Option.some.inj h
    exact List.forall_mem_singleton
  | eq =>
    obtain ⟨g, hg, h⟩ := Option.bind_eq_some_iff.1 h
    obtain rfl := Option.some.inj h
    rw [List.forall_mem_cons, List.forall_mem_singleton]
    show 0 ≤ f.value σ ∧ 0 ≤ g.value σ ↔ f.value σ = 0
    rw [LinearForm.value_neg? σ hg, neg_nonneg, and_comm]
    exact le_antisymm_iff.symm

theorem wf_rows? {c : Constraint} {rs : List Row} (h : rows? c = some rs) (hc : c.form.WF) :
    ∀ r ∈ rs, r.form.WF := by
  obtain ⟨f, relation⟩ := c
  cases relation with
  | ge =>
    obtain rfl := Option.some.inj h
    exact List.forall_mem_singleton.2 hc
  | gt =>
    obtain rfl := Option.some.inj h
    exact List.forall_mem_singleton.2 hc
  | eq =>
    obtain ⟨g, hg, h⟩ := Option.bind_eq_some_iff.1 h
    obtain rfl := Option.some.inj h
    exact List.forall_mem_cons.2 ⟨hc, List.forall_mem_singleton.2 (hc.neg? hg)⟩

/-- The rows that the search starts from hold together where all constraints do. -/
theorem holds_sorted {cs : List Constraint} {rss : List (List Row)} (h : cs.mapM rows? = some rss)
    (σ : Valuation) : (∀ r ∈ Row.sorted rss.flatten, r.Holds σ) ↔ ∀ c ∈ cs, c.Holds σ := by
  have hrows := mapM_eq_some.1 h
  constructor
  · intro hr c hc
    obtain ⟨rs, hrs, hcr⟩ := forall₂_mem_left hrows c hc
    exact (holds_rows? hcr σ).1 fun r hr' =>
      hr r (Row.mem_sorted.2 (List.mem_flatten.2 ⟨rs, hrs, hr'⟩))
  · intro hc r hr
    obtain ⟨rs, hrs, hr⟩ := List.mem_flatten.1 (Row.mem_sorted.1 hr)
    obtain ⟨c, hcs, hcr⟩ := forall₂_mem_right hrows rs hrs
    exact (holds_rows? hcr σ).2 (hc c hcs) r hr

theorem wf_sorted {cs : List Constraint} {rss : List (List Row)} (h : cs.mapM rows? = some rss)
    (hwf : ∀ c ∈ cs, c.form.WF) : ∀ r ∈ Row.sorted rss.flatten, r.form.WF := by
  intro r hr
  obtain ⟨rs, hrs, hr⟩ := List.mem_flatten.1 (Row.mem_sorted.1 hr)
  obtain ⟨c, hc, hcr⟩ := forall₂_mem_right (mapM_eq_some.1 h) rs hrs
  exact wf_rows? hcr (hwf c hc) r hr

/-- Constraints found infeasible have no solution. -/
theorem check_infeasible {cs : List Constraint} {maxRows : Nat} {row : Row}
    (h : (check cs maxRows).1 = .infeasible row) (σ : Valuation) : ¬ ∀ c ∈ cs, c.Holds σ := by
  unfold check at h
  split at h
  · cases h
  · rename_i rss hrss
    rw [← holds_sorted hrss]
    exact search_infeasible h σ

/-- Well-formed constraints found feasible have a solution. -/
theorem check_feasible {cs : List Constraint} (hwf : ∀ c ∈ cs, c.form.WF) {maxRows : Nat}
    (h : (check cs maxRows).1 = .feasible) : ∃ σ : Valuation, ∀ c ∈ cs, c.Holds σ := by
  unfold check at h
  split at h
  · cases h
  · rename_i rss hrss
    obtain ⟨σ, hσ⟩ := search_feasible (wf_sorted hrss hwf) h
    exact ⟨σ, (holds_sorted hrss σ).1 hσ⟩

/-- **Elimination is exact.** Of constraints made from comparisons, those found infeasible have no
rational solution and those found feasible have one, whatever the limit on the rows. -/
theorem check_exact (cs : List Constraint) (hcs : ∀ c ∈ cs, c.IsComparison) (maxRows : Nat) :
    (∀ row, (check cs maxRows).1 = .infeasible row → ¬ ∃ σ : Valuation, ∀ c ∈ cs, c.Holds σ) ∧
      ((check cs maxRows).1 = .feasible → ∃ σ : Valuation, ∀ c ∈ cs, c.Holds σ) := by
  refine ⟨fun row h => ?_, fun h => check_feasible (fun c hc => (hcs c hc).wf) h⟩
  rintro ⟨σ, hσ⟩
  exact check_infeasible h σ hσ

/-- `x > y` with `x + y == 3` is found feasible, `x > y` with `x <= y` infeasible. -/
theorem check_exact_pairs :
    let gt : Constraint := ⟨⟨[("x", .one), ("y", .ofWord (-1) (by decide))], .zero⟩, .gt⟩
    let le : Constraint := ⟨⟨[("x", .ofWord (-1) (by decide)), ("y", .one)], .zero⟩, .ge⟩
    let eq : Constraint := ⟨⟨[("x", .one), ("y", .one)], .ofWord (-3) (by decide)⟩, .eq⟩
    ((∀ c ∈ [gt, eq], c.IsComparison) ∧ (check [gt, eq] 8).1 = .feasible ∧
        ∃ σ : Valuation, ∀ c ∈ [gt, eq], c.Holds σ) ∧
      (∀ c ∈ [gt, le], c.IsComparison) ∧
        (check [gt, le] 8).1 = .infeasible ⟨.ofConstant .zero, true⟩ ∧
        ¬ ∃ σ : Valuation, ∀ c ∈ [gt, le], c.Holds σ := by
  intro gt le eq
  have hgt : gt.IsComparison := ⟨.gt, .var "x", .var "y", by rfl⟩
  have hle : le.IsComparison := ⟨.le, .var "x", .var "y", by rfl⟩
  have heq : eq.IsComparison :=
    ⟨.eq, .arith .add (.var "x") (.var "y"), .num (.ofWord 3 (by decide)), by rfl⟩
  have hcs : ∀ c ∈ [gt, eq], c.IsComparison :=
    List.forall_mem_cons.2 ⟨hgt, List.forall_mem_singleton.2 heq⟩
  have hds : ∀ c ∈ [gt, le], c.IsComparison :=
    List.forall_mem_cons.2 ⟨hgt, List.forall_mem_singleton.2 hle⟩
  have hfeasible : (check [gt, eq] 8).1 = .feasible := by cbv
  have hinfeasible : (check [gt, le] 8).1 = .infeasible ⟨.ofConstant .zero, true⟩ := by cbv
  exact ⟨⟨hcs, hfeasible, (check_exact _ hcs 8).2 hfeasible⟩,
    hds, hinfeasible, (check_exact _ hds 8).1 _ hinfeasible⟩

end Feasibility

end Discharge
