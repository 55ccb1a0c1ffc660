import Discharge.Proofs.Engine.Strategies
import Mathlib

/-!
# How the outcome depends on the settings

Turning strategies on, or allowing a refutation more rows, never loses a proof
(`Engine.prove_settings_mono`). Elimination takes the same rounds under every limit on the rows, and
a higher limit only lets it go on for longer. A proof that was found by one strategy may then be
found by an earlier one, or for the goal as a whole instead of part by part.
-/

namespace Discharge

/-! ## The limit on the rows -/

namespace Feasibility

variable {maxRows maxRows' : Nat}

/-- A contradiction that is found under a limit is found under a higher one, by the same rounds. -/
theorem search_infeasible_of_le (hle : maxRows ≤ maxRows') {rounds : Nat} {rows : List Row}
    {done done' : Elimination} {bad : Row}
    (h : search maxRows rounds rows done = (.infeasible bad, done')) :
    search maxRows' rounds rows done = (.infeasible bad, done') := by
  induction rounds generalizing rows done with
  | zero => cases h
  | succ rounds ih =>
    rw [search] at h ⊢
    dsimp only at h ⊢
    split at h
    · cases h
    rename_i hrows
    rw [if_neg (by omega)]
    split at h
    · exact h
    split at h
    · cases h
    split at h
    · cases h
    · exact ih h

theorem check_infeasible_of_le (hle : maxRows ≤ maxRows') {cs : List Constraint}
    {done : Elimination} {bad : Row} (h : check cs maxRows = (.infeasible bad, done)) :
    check cs maxRows' = (.infeasible bad, done) := by
  unfold check at h ⊢
  split at h
  · cases h
  · exact search_infeasible_of_le hle h

end Feasibility

namespace LinearProof

variable {maxRows maxRows' : Nat} {cs : List Constraint}

theorem contradict_of_le (hle : maxRows ≤ maxRows') {o : CompareOp} {l r : Expr}
    {evidence : Evidence} (h : contradict cs maxRows o l r = .ok evidence) :
    contradict cs maxRows' o l r = .ok evidence := by
  unfold contradict at h ⊢
  split at h
  · cases h
  split at h
  · rename_i hcheck
    rw [Feasibility.check_infeasible_of_le hle hcheck]
    exact h
  · cases h
  · cases h

/-- A disjunction is refuted as soon as one side is. -/
theorem refute_or_of {l r : Expr}
    (h : (∃ evidence, refute cs maxRows l = .ok evidence) ∨
      ∃ evidence, refute cs maxRows r = .ok evidence) :
    ∃ evidence, refute cs maxRows (.or l r) = .ok evidence := by
  cases hor : refute cs maxRows (.or l r) with
  | ok evidence => exact ⟨evidence, rfl⟩
  | error why =>
    obtain ⟨first, second, hl, hr, _⟩ := refute_or_error hor
    rcases h with ⟨evidence, hok⟩ | ⟨evidence, hok⟩
    · rw [hl] at hok
      cases hok
    · rw [hr] at hok
      cases hok

/-- **What is refuted under a limit is refuted under a higher one**, though a disjunction perhaps by
its other side. -/
theorem refute_of_le (hle : maxRows ≤ maxRows') {goal : Expr} {evidence : List Evidence}
    (h : refute cs maxRows goal = .ok evidence) :
    ∃ evidence', refute cs maxRows' goal = .ok evidence' := by
  induction goal generalizing evidence with
  | bool b =>
    cases b with
    | true => exact ⟨_, rfl⟩
    | false => cases h
  | compare o l r =>
    rw [refute] at h ⊢
    cases hagain : (negations o).mapM fun n => contradict cs maxRows' n l r with
    | ok evidence' => exact ⟨evidence', rfl⟩
    | error why =>
      obtain ⟨n, hn, hrefused⟩ := mapM_eq_error hagain
      obtain ⟨_, _, hev⟩ := mapM_eq_ok h n hn
      rw [contradict_of_le hle hev] at hrefused
      cases hrefused
  | and l r ihl ihr =>
    rw [refute] at h ⊢
    obtain ⟨_, hl, h⟩ := except_bind_ok.1 h
    obtain ⟨_, hr, _⟩ := except_bind_ok.1 h
    obtain ⟨a, ha⟩ := ihl hl
    obtain ⟨b, hb⟩ := ihr hr
    exact ⟨a ++ b, except_bind_ok.2 ⟨a, ha, except_bind_ok.2 ⟨b, hb, rfl⟩⟩⟩
  | or l r ihl ihr => exact refute_or_of ((refute_or_ok h).imp ihl ihr)
  | _ => cases h

theorem byRefutation_of_le (hle : maxRows ≤ maxRows') {goal : Expr} {k : Known}
    (h : (byRefutation goal k maxRows).proven = true) :
    (byRefutation goal k maxRows').proven = true := by
  obtain ⟨evidence, hev⟩ := proven_byRefutation.1 h
  exact proven_byRefutation.2 (refute_of_le hle hev)

end LinearProof

/-! ## The engine -/

/-- Settings that turn on every linear strategy that others turn on, with at least as many rows. -/
structure Config.Extends (c' c : Config) : Prop where
  fastPath : c.fastPath = true → c'.fastPath = true
  fourierMotzkin : c.fourierMotzkin = true → c'.fourierMotzkin = true
  maxRows : c.maxRows ≤ c'.maxRows

namespace Engine

variable {r : Registry} {c c' : Config} {goal : Expr} {k : Known}

/-- A way to prove a goal stays open when the settings are extended. -/
theorem Proves.extends (hc : c'.Extends c) {m : Method} {fs : List Fact}
    (h : Proves ⟨r, c, none⟩ goal k m fs) : ∃ fs', Proves ⟨r, c', none⟩ goal k m fs' := by
  cases h with
  | support h => exact ⟨_, .support h⟩
  | rule hr h => exact ⟨_, .rule hr h⟩
  | shape hfast h => exact ⟨_, .shape (hc.fastPath hfast) h⟩
  | refutation hfm h =>
    exact ⟨_, .refutation (hc.fourierMotzkin hfm) (LinearProof.byRefutation_of_le hc.maxRows h)⟩

theorem isProven_searchWhole_extends (hc : c'.Extends c)
    (h : (searchWhole ⟨r, c, none⟩ goal k).isProven = true) :
    (searchWhole ⟨r, c', none⟩ goal k).isProven = true := by
  cases hvalue : byValue? goal with
  | some a =>
    rw [searchWhole, hvalue] at h ⊢
    exact h
  | none =>
    obtain ⟨m, fs, hm⟩ := (isProven_searchWhole_iff rfl hvalue).1 h
    obtain ⟨fs', hm'⟩ := hm.extends hc
    exact (isProven_searchWhole_iff rfl hvalue).2 ⟨m, fs', hm'⟩

/-- **Turning strategies on never loses a proof**: without a solver, whatever the rules are, a goal
that is proven under some settings is proven under all that extend them. -/
theorem prove_settings_mono (registry : Registry) (config config' : Config)
    (hfast : config.fastPath = true → config'.fastPath = true)
    (hfm : config.fourierMotzkin = true → config'.fourierMotzkin = true)
    (hrows : config.maxRows ≤ config'.maxRows) (goal : Goal) (facts : List Fact)
    (outcome : ProofOutcome) (h : Engine.prove ⟨registry, config, none⟩ goal facts = .ok outcome)
    (hproven : outcome.isProven = true) :
    ∃ outcome', Engine.prove ⟨registry, config', none⟩ goal facts = .ok outcome' ∧
      outcome'.isProven = true := by
  obtain ⟨hgoal, hfacts, rfl⟩ := (prove_eq_ok goal facts).1 h
  refine ⟨_, (prove_eq_ok goal facts).2 ⟨hgoal, hfacts, rfl⟩, ?_⟩
  rw [isProven_conclude] at hproven ⊢
  exact isProven_search_of_whole (fun p => isProven_searchWhole_extends ⟨hfast, hfm, hrows⟩) hproven

/-- A conjunction that is proved in parts by shapes is proved as a whole once refutation is on. -/
theorem prove_settings_mono_parts :
    let registry : Registry := { Registry.empty 0 with rules := Rule.builtin }
    let config : Config := { fourierMotzkin := false, maxRows := 0 }
    let config' : Config := { maxRows := 5 }
    let e : Engine := ⟨registry, config, none⟩
    let e' : Engine := ⟨registry, config', none⟩
    let positive (x : String) : Fact := ⟨x, .compare .gt (.var x) (.num .zero)⟩
    let sum : Expr := .compare .ge (.arith .add (.var "x") (.var "y")) (.num .zero)
    let weaker : Expr := .compare .ge (.var "x") (.num .zero)
    let goal : Goal := ⟨.and sum weaker, none⟩
    let facts := ["x", "y"].map positive
    ∃ outcome outcome', (config.fastPath = true → config'.fastPath = true) ∧
      (config.fourierMotzkin = true → config'.fourierMotzkin = true) ∧
      config.maxRows ≤ config'.maxRows ∧ e.prove goal facts = .ok outcome ∧
      outcome.isProven = true ∧ outcome.certificate.method = some .conjunction ∧
      e'.prove goal facts = .ok outcome' ∧
      outcome'.isProven = true ∧ outcome'.certificate.method = some .linear := by
  intro registry config config' e e' positive sum weaker goal facts
  have hprove := (prove_eq_ok (e := e) goal facts).2 ⟨by cbv, by cbv, rfl⟩
  have hmethod : (e.search (e.registry.brands.expand goal.condition).canonical
      (.ofFacts e.registry.brands facts)).verdict.method? = some .conjunction := by cbv
  have hmethod' : (e'.search (e'.registry.brands.expand goal.condition).canonical
      (.ofFacts e'.registry.brands facts)).verdict.method? = some .linear := by cbv
  have hproven : (e.conclude goal facts (e.search
      (e.registry.brands.expand goal.condition).canonical
      (.ofFacts e.registry.brands facts))).isProven = true := by
    rw [isProven_conclude, Attempt.isProven_eq, hmethod]
    rfl
  have hfast : config.fastPath = true → config'.fastPath = true := id
  have hfm : config.fourierMotzkin = true → config'.fourierMotzkin = true := fun _ => rfl
  have hrows : config.maxRows ≤ config'.maxRows := Nat.zero_le _
  obtain ⟨outcome', hprove', hproven'⟩ := prove_settings_mono registry config config' hfast hfm hrows
    goal facts _ hprove hproven
  obtain ⟨_, _, rfl⟩ := (prove_eq_ok goal facts).1 hprove'
  exact ⟨_, _, hfast, hfm, hrows, hprove, hproven,
    (method_conclude goal facts _).trans hmethod, hprove', hproven',
    (method_conclude goal facts _).trans hmethod'⟩

end Engine

end Discharge
