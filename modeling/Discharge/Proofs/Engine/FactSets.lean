import Discharge.Proofs.Engine.Strategies
import Mathlib

/-!
# How the outcome depends on the facts

With the built-in rules and no solver, more facts never lose a proof silently (`Engine.prove_mono`):
what was proven is proven again, or a search by refutation has met one of its limits and says so.
Neither the order of the facts nor their repetition matters (`Engine.prove_same_facts`), although
every strategy takes the first fact that serves: each way of proving the goal is open from one list
just when it is open from the other.
-/

namespace Discharge

/-- The step is a search by refutation that was given up for the number of its rows or the size of
a coefficient. -/
def Step.MeetsLimit (maxRows : Nat) (s : Step) : Prop :=
  s.rule = "fourier_motzkin" ∧ s.status = .inconclusive ∧
    ∃ limit, Feasibility.ByLimit maxRows limit ∧ s.justification = limit.message

/-- What a build sees of an outcome. -/
structure Summary where
  outcome : Outcome
  method : Option Method
  classification : Option Classification
  warnings : List (WarningKind × Option String)
deriving DecidableEq

/-- The outcome, the method, the classification, and the kinds and brands of the warnings. -/
def ProofOutcome.summary (o : ProofOutcome) : Summary where
  outcome := o.certificate.outcome
  method := o.certificate.method
  classification := o.classification
  warnings := o.warnings.map fun w => (w.kind, w.brand)

namespace Engine

variable {e : Engine} {goal : Expr} {c : Catalog} {facts facts' : List Fact}

section

variable (hrules : ∀ r ∈ e.registry.rules, r.Local) (hsolver : e.solver = none)
  (hsub : ∀ f ∈ facts, f ∈ facts')
include hrules hsolver hsub

/-! ## More facts -/

/-- With more facts, a goal is still proven as a whole unless refutation meets a limit. -/
theorem searchWhole_mono (h : (e.searchWhole goal (.ofFacts c facts)).isProven = true) :
    (e.searchWhole goal (.ofFacts c facts')).isProven = true ∨
      ∃ s ∈ (e.searchWhole goal (.ofFacts c facts')).steps, s.MeetsLimit e.config.maxRows := by
  cases hvalue : byValue? goal with
  | some a =>
    rw [searchWhole, hvalue] at h ⊢
    exact .inl h
  | none =>
    by_cases hproven : (e.searchWhole goal (.ofFacts c facts')).isProven = true
    · exact .inl hproven
    · refine .inr ?_
      by_contra hnone
      -- Had no limit been met, the old proof would be found again, whatever its kind.
      obtain ⟨m, fs, hm⟩ := (isProven_searchWhole_iff hsolver hvalue).1 h
      have hk : (Known.ofFacts c facts').Retains (.ofFacts c facts) fs :=
        Known.retains_ofFacts fun f _ => hsub f
      have hrefutation : e.config.fourierMotzkin = true →
          (LinearProof.byRefutation goal (.ofFacts c facts) e.config.maxRows).proven = true →
          (LinearProof.byRefutation goal (.ofFacts c facts') e.config.maxRows).proven = true := by
        intro hfm hrefuted
        rcases LinearProof.byRefutation_mono (LinearProof.assumed_mono hsub) hrefuted with
          hagain | ⟨limit, hlimit, heq⟩
        · exact hagain
        · refine absurd ⟨_, refutationStep_mem hsolver hvalue hfm hproven, ?_⟩ hnone
          rw [refutationStep, heq]
          exact ⟨rfl, rfl, limit, hlimit, rfl⟩
      obtain ⟨fs', hm'⟩ := hm.retained hk (fun r hr _ => hrules r hr goal _ _ _)
        fun hfm hrefuted _ => hrefutation hfm hrefuted
      exact hproven ((isProven_searchWhole_iff hsolver hvalue).2 ⟨m, fs', hm'⟩)

theorem search_mono (h : (e.search goal (.ofFacts c facts)).isProven = true) :
    (e.search goal (.ofFacts c facts')).isProven = true ∨
      ∃ s ∈ (e.search goal (.ofFacts c facts')).steps, s.MeetsLimit e.config.maxRows := by
  rw [search_eq] at h ⊢
  -- A goal that was proved in parts may now be proven as a whole. One that was proven as a whole is
  -- split now only if that has failed, and then a limit was met before.
  split at h
  · rename_i hsplit
    split
    · rw [isProven_searchParts_iff] at h ⊢
      by_cases hall : ∀ p ∈ goal.conjuncts, (e.searchWhole p (.ofFacts c facts')).isProven = true
      · exact .inl hall
      · obtain ⟨p, hp, hunproven⟩ : ∃ p ∈ goal.conjuncts,
            ¬ (e.searchWhole p (.ofFacts c facts')).isProven = true := by simpa using hall
        have hpart := searchWhole_mono hrules hsolver hsub (h p hp)
        obtain ⟨s, hs, hlimit⟩ := hpart.resolve_left hunproven
        exact .inr ⟨_, mem_steps_searchParts hp hs, hlimit⟩
    · rename_i hwhole
      refine .inl ?_
      by_contra hunproven
      exact hwhole ⟨hsplit.1, hsplit.2.1, Bool.eq_false_iff.2 hunproven⟩
  · have hwhole := searchWhole_mono hrules hsolver hsub h
    split
    · rename_i hsplit
      obtain ⟨s, hs, hlimit⟩ := hwhole.resolve_left (Bool.eq_false_iff.1 hsplit.2.2)
      exact .inr ⟨s, List.mem_append_left _ hs, hlimit⟩
    · exact hwhole

end

/-- **More facts never lose a proof silently**: with the built-in rules and no solver, what is
proven from facts is proven from any valid facts that include them, or the certificate says that a
search by refutation met a limit. -/
theorem prove_mono (registry : Registry) (config : Config)
    (hrules : ∀ r ∈ registry.rules, r ∈ Rule.builtin) (goal : Goal) (facts facts' : List Fact)
    (hvalid : ∀ f ∈ facts', validateFact f = .ok ()) (hsub : ∀ f ∈ facts, f ∈ facts')
    (outcome : ProofOutcome) (h : Engine.prove ⟨registry, config, none⟩ goal facts = .ok outcome)
    (hproven : outcome.isProven = true) :
    ∃ outcome', Engine.prove ⟨registry, config, none⟩ goal facts' = .ok outcome' ∧
      (outcome'.isProven = true ∨
        ∃ s ∈ outcome'.certificate.steps, s.MeetsLimit config.maxRows) := by
  obtain ⟨hgoal, _, rfl⟩ := (prove_eq_ok goal facts).1 h
  refine ⟨_, (prove_eq_ok goal facts').2 ⟨hgoal, forM_ok hvalid, rfl⟩, ?_⟩
  rw [isProven_conclude] at hproven ⊢
  rw [steps_conclude]
  exact search_mono (fun r hr => Rule.builtin_local r (hrules r hr)) rfl hsub hproven

/-- One more fact may be too many: with at most two rows, `x + x > 1` follows from `x >= 1` but no
longer with a bound on `y` beside it. -/
theorem prove_mono_rows :
    let registry : Registry := { Registry.empty 0 with rules := Rule.builtin }
    let config : Config := { maxRows := 2 }
    let e : Engine := ⟨registry, config, none⟩
    let goal : Goal := ⟨.compare .gt (.arith .add (.var "x") (.var "x")) (.num .one), none⟩
    let atLeastOne (x : String) : Fact := ⟨x, .compare .ge (.var x) (.num .one)⟩
    let facts : List Fact := [atLeastOne "x"]
    let facts' : List Fact := [atLeastOne "x", atLeastOne "y"]
    ∃ outcome outcome',
      (∀ r ∈ registry.rules, r ∈ Rule.builtin) ∧ (∀ f ∈ facts', validateFact f = .ok ()) ∧
      (∀ f ∈ facts, f ∈ facts') ∧ e.prove goal facts = .ok outcome ∧ outcome.isProven = true ∧
      e.prove goal facts' = .ok outcome' ∧ outcome'.isProven = false ∧
      ∃ s ∈ outcome'.certificate.steps, s.MeetsLimit config.maxRows := by
  intro registry config e goal atLeastOne facts facts'
  have hvalid : ∀ f ∈ facts', validateFact f = .ok () :=
    List.forall_mem_cons.2 ⟨by cbv, List.forall_mem_singleton.2 (by cbv)⟩
  have hsub : ∀ f ∈ facts, f ∈ facts' := fun f hf => List.mem_append_left [_] hf
  obtain ⟨outcome, hprove, hproven⟩ :=
    exists_prove_isProven (e := e) goal facts (by cbv) (by cbv) (by cbv)
  have hopen : (e.search (e.registry.brands.expand goal.condition).canonical
      (.ofFacts e.registry.brands facts')).isProven = false := by cbv
  obtain ⟨outcome', hprove', hlimit⟩ := prove_mono registry config (fun _ => id) goal facts facts'
    hvalid hsub _ hprove hproven
  obtain ⟨_, _, rfl⟩ := (prove_eq_ok goal facts').1 hprove'
  rw [← isProven_conclude goal facts'] at hopen
  exact ⟨outcome, _, fun _ => id, hvalid, hsub, hprove, hproven, hprove', hopen,
    hlimit.resolve_left (Bool.eq_false_iff.1 hopen)⟩

/-! ## The same facts -/

/-- A way to prove the goal from facts is open from any list with the same facts. -/
theorem exists_proves_congr (hrules : ∀ r ∈ e.registry.rules, r.Local)
    (hsame : ∀ f, f ∈ facts ↔ f ∈ facts') (m : Method) :
    (∃ fs, e.Proves goal (.ofFacts c facts) m fs) ↔
      ∃ fs, e.Proves goal (.ofFacts c facts') m fs := by
  have hstep : ∀ {facts facts' : List Fact}, (∀ f, f ∈ facts ↔ f ∈ facts') →
      (∃ fs, e.Proves goal (.ofFacts c facts) m fs) →
      ∃ fs, e.Proves goal (.ofFacts c facts') m fs := by
    rintro facts facts' hsame ⟨fs, hm⟩
    refine hm.retained (Known.retains_ofFacts fun f _ => (hsame f).1)
      (fun r hr _ => hrules r hr goal _ _ _) fun _ hrefuted _ => ?_
    have hassumed : ∀ d, d ∈ LinearProof.assumed (.ofFacts c facts) ↔
        d ∈ LinearProof.assumed (.ofFacts c facts') := fun d =>
      ⟨LinearProof.assumed_mono (fun f => (hsame f).1) d,
        LinearProof.assumed_mono (fun f => (hsame f).2) d⟩
    rw [LinearProof.proven, ← LinearProof.byRefutation_congr hassumed]
    exact hrefuted
  exact ⟨hstep hsame, hstep fun f => (hsame f).symm⟩

section

variable (hrules : ∀ r ∈ e.registry.rules, r.Local) (hsolver : e.solver = none)
  (hsame : ∀ f, f ∈ facts ↔ f ∈ facts')
include hrules hsolver hsame

theorem method?_searchWhole_congr (goal : Expr) :
    (e.searchWhole goal (.ofFacts c facts)).verdict.method? =
      (e.searchWhole goal (.ofFacts c facts')).verdict.method? := by
  cases hvalue : byValue? goal with
  | some a => rw [searchWhole, searchWhole, hvalue]
  | none =>
    rw [method?_searchWhole hsolver hvalue, method?_searchWhole hsolver hvalue]
    congr 1
    funext m
    exact decide_eq_decide.2 (exists_proves_congr hrules hsame m)

theorem isProven_searchWhole_congr (goal : Expr) :
    (e.searchWhole goal (.ofFacts c facts)).isProven =
      (e.searchWhole goal (.ofFacts c facts')).isProven := by
  rw [Attempt.isProven_eq, Attempt.isProven_eq, method?_searchWhole_congr hrules hsolver hsame]

theorem method?_search_congr (goal : Expr) :
    (e.search goal (.ofFacts c facts)).verdict.method? =
      (e.search goal (.ofFacts c facts')).verdict.method? := by
  rw [search_eq, search_eq, isProven_searchWhole_congr hrules hsolver hsame]
  split
  · simp only [method?_searchParts, isProven_searchWhole_congr hrules hsolver hsame]
  · exact method?_searchWhole_congr hrules hsolver hsame goal

end

/-- Built-in rules give no cause for a warning. -/
theorem warnings_searchWhole {k : Known} (hrules : ∀ r ∈ e.registry.rules, r ∈ Rule.builtin)
    (hsolver : e.solver = none) : (e.searchWhole goal k).warnings = [] := by
  cases hvalue : byValue? goal with
  | some a =>
    rw [searchWhole, hvalue]
    exact (byValue?_settles hvalue).2
  | none =>
    cases hsupports : goal.conjuncts.mapM (e.support? k) with
    | some supports =>
      obtain ⟨s, hs, _⟩ := searchWhole_of_supports hvalue hsupports
      rw [hs]
    | none =>
      rw [searchWhole_of_no_supports hvalue hsupports, byProcedure_eq hsolver]
      refine List.filterMap_eq_nil_iff.2 fun run hmem => ?_
      obtain ⟨r, hr, rfl⟩ := List.mem_map.1 hmem
      cases hrun : r.run goal k with
      | faulted fault => exact absurd hrun (Rule.builtin_not_faulted (hrules r hr))
      | matched found => simp [ruleWarning?]
      | declined => simp [ruleWarning?]

theorem warnings_search {k : Known} (hrules : ∀ r ∈ e.registry.rules, r ∈ Rule.builtin)
    (hsolver : e.solver = none) : (e.search goal k).warnings = [] := by
  rw [search_eq]
  split
  · simp [searchParts, warnings_searchWhole hrules hsolver]
  · exact warnings_searchWhole hrules hsolver

/-- The kind and brand of the warning for a compile-time brand that keeps its runtime check. -/
def fallbackKey? (e : Engine) (info : Option Classification) :
    Option (WarningKind × Option String) :=
  info.bind fun info =>
    if info.decidability = .compileTime && e.config.warnOnFallback then
      some (.compileTimeFallback, some info.brand)
    else none

theorem map_fallbackWarning? (goal : Goal) (certificate : Certificate)
    (info : Option Classification) :
    (e.fallbackWarning? goal certificate info).toList.map (fun w => (w.kind, w.brand)) =
      (e.fallbackKey? info).toList := by
  cases info with
  | none => rfl
  | some info =>
    simp only [fallbackWarning?, fallbackKey?, Option.bind_some]
    split <;> rfl

/-- What a build sees of an outcome depends on the method and the warnings of the attempt, and
otherwise on the goal alone. -/
theorem summary_conclude (goal : Goal) (facts : List Fact) (a : Attempt) :
    (e.conclude goal facts a).summary =
      match a.verdict.method? with
      | some m => ⟨.success, some m, e.classify goal, a.warnings.map fun w => (w.kind, w.brand)⟩
      | none => ⟨.failure, none, e.classify goal, (a.warnings.map fun w => (w.kind, w.brand)) ++
          (e.fallbackKey? (e.classify goal)).toList⟩ := by
  unfold conclude
  cases a.verdict with
  | proven m => rfl
  | refuted reason =>
    simp [Verdict.method?, ProofOutcome.summary, Certificate.fail, Certificate.start,
      map_fallbackWarning?]
  | unproven reason =>
    simp [Verdict.method?, ProofOutcome.summary, Certificate.fail, Certificate.start,
      map_fallbackWarning?]

/-- **The outcome depends only on which facts there are**: with the built-in rules and no solver,
two valid lists of the same facts lead to the same outcome by the same method, with the same
classification and the same kinds and brands of warnings. -/
theorem prove_same_facts (registry : Registry) (config : Config)
    (hrules : ∀ r ∈ registry.rules, r ∈ Rule.builtin) (goal : Goal) (facts facts' : List Fact)
    (hvalid : ∀ f ∈ facts, validateFact f = .ok ()) (hsame : ∀ f, f ∈ facts ↔ f ∈ facts') :
    (Engine.prove ⟨registry, config, none⟩ goal facts).map ProofOutcome.summary =
      (Engine.prove ⟨registry, config, none⟩ goal facts').map ProofOutcome.summary := by
  have hfacts := forM_ok hvalid
  have hfacts' := forM_ok fun f hf => hvalid f ((hsame f).2 hf)
  cases hgoal : validateGoal goal.condition with
  | error err => simp [prove, hgoal, Except.map, bind, Except.bind]
  | ok _ =>
    rw [(prove_eq_ok goal facts).2 ⟨hgoal, hfacts, rfl⟩,
      (prove_eq_ok goal facts').2 ⟨hgoal, hfacts', rfl⟩]
    simp only [Except.map]
    rw [summary_conclude, summary_conclude, warnings_search hrules rfl, warnings_search hrules rfl,
      method?_search_congr (fun r hr => Rule.builtin_local r (hrules r hr)) rfl hsame]

/-- Two facts, one of them repeated, and the same facts in another order. -/
theorem prove_same_facts_swap :
    let registry : Registry := { Registry.empty 0 with rules := Rule.builtin }
    let e : Engine := ⟨registry, {}, none⟩
    let goal : Goal := ⟨.compare .ge (.arith .add (.var "x") (.var "y")) (.num .one), none⟩
    let lower : Fact := ⟨"x", .compare .ge (.var "x") (.num .one)⟩
    let order : Fact := ⟨"y", .compare .ge (.var "y") (.var "x")⟩
    let facts : List Fact := [lower, order, lower]
    let facts' : List Fact := [order, lower]
    ∃ outcome, (∀ r ∈ registry.rules, r ∈ Rule.builtin) ∧
      (∀ f ∈ facts, validateFact f = .ok ()) ∧ (∀ f, f ∈ facts ↔ f ∈ facts') ∧
      facts ≠ facts' ∧ e.prove goal facts = .ok outcome ∧ outcome.isProven = true ∧
      (e.prove goal facts).map ProofOutcome.summary =
        (e.prove goal facts').map ProofOutcome.summary := by
  intro registry e goal lower order facts facts'
  have hvalid : ∀ f ∈ facts, validateFact f = .ok () :=
    List.forall_mem_cons.2 ⟨by cbv, List.forall_mem_cons.2 ⟨by cbv,
      List.forall_mem_singleton.2 (by cbv)⟩⟩
  have hsame : ∀ f, f ∈ facts ↔ f ∈ facts' := by
    intro f
    simp only [facts, facts', List.mem_cons, List.not_mem_nil]
    tauto
  obtain ⟨outcome, hprove, hproven⟩ :=
    exists_prove_isProven (e := e) goal facts (by cbv) (by cbv) (by cbv)
  exact ⟨outcome, fun _ => id, hvalid, hsame, by simp [facts, facts'], hprove, hproven,
    prove_same_facts registry {} (fun _ => id) goal facts facts' hvalid hsame⟩

end Engine

end Discharge
