import Discharge.Proofs.Engine.Citations
import Mathlib

/-!
# The trace of a proof justifies its verdict

A certificate holds the steps of the search and its verdict. `Engine.Trace` says which steps there
are, in which order, and what verdict they add up to: a goal is settled by its value or by the facts
in one step, and otherwise leaves a step for each rule and for each further strategy that is reached
(`Engine.WholeTrace`). The method is the strategy of the first step that proves the goal. A
conjunction of which no step proves the whole goes on with a step for the split and the traces of
the conjuncts. Every search leaves such a trace (`Engine.trace_search`).
-/

namespace Discharge

/-- The step of a strategy: it bears its name, and proves the goal just when the strategy does. -/
structure Step.Reports (s : Step) (name : String) (succeeds : Prop) : Prop where
  rule : s.rule = name
  proved : s.status = .proved ↔ succeeds

/-- A strategy leaves one step if it is run, and none otherwise. -/
def Step.LeftBy (steps : List Step) (runs : Prop) (name : String) (succeeds : Prop) : Prop :=
  (runs → ∃ s : Step, steps = [s] ∧ s.Reports name succeeds) ∧ (¬ runs → steps = [])

theorem Step.leftBy_ite {s : Step} {runs succeeds : Prop} [Decidable runs] {name : String}
    (hs : s.Reports name succeeds) : LeftBy (if runs then [s] else []) runs name succeeds :=
  ⟨fun h => ⟨s, if_pos h, hs⟩, fun h => if_neg h⟩

namespace Engine

variable {e : Engine} {goal : Expr} {k : Known}

/-! ## Traces -/

/-- The goal has no variables, and has a truth value. -/
def HasValue (goal : Expr) (b : Bool) : Prop :=
  goal.hasFreeVars = false ∧ goal.evalConstant? = some (.bool b)

/-- For each conjunct some fact states it, or has a brand that widens to one that does. -/
def Supported (e : Engine) (goal : Expr) (k : Known) : Prop :=
  ∀ p ∈ goal.conjuncts, (e.support? k p).isSome = true

/-- The solver is ready, and says that the known conditions entail the goal. -/
def SolverProves (e : Engine) (goal : Expr) (k : Known) : Prop :=
  ∃ s, e.solver = some s ∧ s.isReady = true ∧
    s.check ⟨goal, k.atoms.map (·.condition)⟩ = .proven

/-- The steps of the rules, of linear arithmetic and of the solver: one for each rule, and one for
each further strategy that is turned on, as long as nothing before it has proved the goal. -/
structure ProcedureTrace (e : Engine) (goal : Expr) (k : Known)
    (rules shape refutation smt : List Step) : Prop where
  ofRules : List.Forall₂ (fun r s => s.Reports r.name (∃ found, r.run goal k = .matched found))
    e.registry.rules rules
  ofShape : Step.LeftBy shape (e.config.fastPath = true ∧ anyProved rules = false)
    "linear_fast_path" ((LinearProof.byShape goal k).proven = true)
  ofRefutation : Step.LeftBy refutation
    (e.config.fourierMotzkin = true ∧ anyProved (rules ++ shape) = false)
    "fourier_motzkin" ((LinearProof.byRefutation goal k e.config.maxRows).proven = true)
  ofSolver : Step.LeftBy smt
    (e.config.useSolver = true ∧ e.solver.isSome = true ∧
      anyProved (rules ++ shape ++ refutation) = false)
    "smt" (e.SolverProves goal k)

/-- The steps for a goal as a whole, each with the strategy that it belongs to. -/
inductive WholeTrace (e : Engine) (goal : Expr) (k : Known) : List (Method × Step) → Prop
  | value {b : Bool} {s : Step} (hvalue : HasValue goal b)
      (hs : s.Reports "constant_evaluation" (b = true)) : WholeTrace e goal k [(.constant, s)]
  | identity {s : Step} (hvalue : ∀ b, ¬ HasValue goal b) (hsupported : e.Supported goal k)
      (hs : s.Reports "type_identity" True) : WholeTrace e goal k [(.typeIdentity, s)]
  | procedure {rules shape refutation smt : List Step} (hvalue : ∀ b, ¬ HasValue goal b)
      (hsupported : ¬ e.Supported goal k)
      (htrace : e.ProcedureTrace goal k rules shape refutation smt) :
      WholeTrace e goal k (rules.map (.algebraic, ·) ++ (shape ++ refutation).map (.linear, ·) ++
        smt.map (.smt, ·))

/-- The strategy of the first step that proves the goal. -/
def provedBy? (trace : List (Method × Step)) : Option Method :=
  (trace.find? (·.2.status == .proved)).map (·.1)

/-- The steps for a goal and the method that they add up to. A conjunction that is neither settled
by its value nor proved as a whole is split, and its conjuncts follow with their own steps. -/
inductive Trace (e : Engine) (goal : Expr) (k : Known) : List Step → Option Method → Prop
  | whole {trace : List (Method × Step)} (htrace : e.WholeTrace goal k trace)
      (hwhole : (∃ b, HasValue goal b) ∨ goal.isConjunction = false ∨ provedBy? trace ≠ none) :
      Trace e goal k (trace.map (·.2)) (provedBy? trace)
  | split {trace : List (Method × Step)} {s : Step} {parts : List (Expr × List (Method × Step))}
      (hvalue : ∀ b, ¬ HasValue goal b) (hconjunction : goal.isConjunction = true)
      (htrace : e.WholeTrace goal k trace) (hopen : provedBy? trace = none)
      (hs : s.Reports "conjunction" (∀ part ∈ parts, provedBy? part.2 ≠ none))
      (hsubgoals : s.subgoals = goal.conjuncts) (hconjuncts : parts.map (·.1) = goal.conjuncts)
      (hparts : ∀ part ∈ parts, e.WholeTrace part.1 k part.2) :
      Trace e goal k
        (trace.map (·.2) ++ s :: parts.flatMap fun part => part.2.map (markStep part.1 ·.2))
        (if s.status = .proved then some .conjunction else none)

/-! ## The first step that proves a goal -/

theorem provedBy?_append (t u : List (Method × Step)) :
    provedBy? (t ++ u) = (provedBy? t).or (provedBy? u) := by
  simp only [provedBy?, List.find?_append, Option.map_or]

theorem provedBy?_map (m : Method) (steps : List Step) :
    provedBy? (steps.map (m, ·)) = if anyProved steps then some m else none := by
  induction steps with
  | nil => rfl
  | cons s steps ih =>
    rw [List.map_cons, ← List.singleton_append, provedBy?_append, ih]
    cases hs : s.status == .proved <;> simp [provedBy?, anyProved, hs]

/-- A step proves the goal just when there is a first one that does. -/
theorem provedBy?_ne_none {trace : List (Method × Step)} :
    provedBy? trace ≠ none ↔ ∃ s ∈ trace.map (·.2), s.status = .proved := by
  rw [← Option.isSome_iff_ne_none, provedBy?, Option.isSome_map, List.find?_isSome]
  simp only [List.mem_map, beq_iff_eq]
  constructor
  · rintro ⟨t, ht, hproved⟩
    exact ⟨t.2, ⟨t, ht, rfl⟩, hproved⟩
  · rintro ⟨_, ⟨t, ht, rfl⟩, hproved⟩
    exact ⟨t, ht, hproved⟩

theorem isProven_iff_provedBy? {a : Attempt} {trace : List (Method × Step)}
    (h : a.verdict.method? = provedBy? trace) : a.isProven = true ↔ provedBy? trace ≠ none := by
  rw [Attempt.isProven_eq, h, Option.isSome_iff_ne_none]

theorem anyProved_append (steps more : List Step) :
    anyProved (steps ++ more) = (anyProved steps || anyProved more) := List.any_append

/-! ## The steps of each strategy -/

theorem byValue?_eq_some {a : Attempt} (h : byValue? goal = some a) :
    ∃ b s, HasValue goal b ∧ s.Reports "constant_evaluation" (b = true) ∧ a.steps = [s] ∧
      a.verdict.method? = provedBy? [(.constant, s)] := by
  unfold byValue? at h
  dsimp only at h
  split at h
  · cases h
  rename_i hclosed
  split at h
  · rename_i hvalue
    cases h
    exact ⟨true, _, ⟨Bool.eq_false_iff.2 hclosed, hvalue⟩, ⟨rfl, by simp⟩, rfl, rfl⟩
  · rename_i hvalue
    cases h
    exact ⟨false, _, ⟨Bool.eq_false_iff.2 hclosed, hvalue⟩, ⟨rfl, by simp⟩, rfl, rfl⟩
  · cases h

theorem byValue?_eq_none_iff : byValue? goal = none ↔ ∀ b, ¬ HasValue goal b := by
  constructor
  · rintro h b ⟨hclosed, hvalue⟩
    cases b <;> simp [byValue?, hclosed, hvalue] at h
  · intro h
    cases hvalue : byValue? goal with
    | none => rfl
    | some a =>
      obtain ⟨b, _, hb, _⟩ := byValue?_eq_some hvalue
      exact absurd hb (h b)

theorem supported_iff :
    e.Supported goal k ↔ ∃ supports, goal.conjuncts.mapM (e.support? k) = some supports := by
  rw [Supported, ← isSome_mapM, Option.isSome_iff_exists]

theorem reports_runRules :
    List.Forall₂ (fun r s => s.Reports r.name (∃ found, r.run goal k = .matched found))
      e.registry.rules (e.runRules goal k).1 := by
  unfold runRules
  dsimp only
  rw [List.map_map]
  refine List.forall₂_map_right_iff.2 (List.forall₂_same.2 fun r _ => ?_)
  dsimp only [Function.comp_apply]
  cases r.run goal k with
  | matched found => exact ⟨rfl, by simp [ruleStep]⟩
  | declined => exact ⟨rfl, by simp [ruleStep]⟩
  | faulted fault => exact ⟨rfl, by simp [ruleStep]⟩

theorem reports_shapeStep :
    (shapeStep goal k).Reports "linear_fast_path" ((LinearProof.byShape goal k).proven = true) where
  rule := by
    show (LinearProof.byShape goal k).rule = "linear_fast_path"
    unfold LinearProof.byShape
    dsimp only
    split
    · rfl
    · split
      · split <;> rfl
      · split <;> rfl
      · rfl
  proved := beq_iff_eq.symm

theorem reports_refutationStep (maxRows : Nat) :
    (refutationStep goal k maxRows).Reports "fourier_motzkin"
      ((LinearProof.byRefutation goal k maxRows).proven = true) where
  rule := by
    show (LinearProof.byRefutation goal k maxRows).rule = "fourier_motzkin"
    unfold LinearProof.byRefutation
    dsimp only
    split <;> rfl
  proved := beq_iff_eq.symm

theorem reports_verdictStep (description : String) (facts : List Fact) (v : SolverVerdict) :
    (verdictStep description facts v).Reports "smt" (v = .proven) := by
  cases v with
  | proven => exact ⟨rfl, by simp [verdictStep]⟩
  | refuted => exact ⟨rfl, by simp [verdictStep]⟩
  | unknown why => exact ⟨rfl, by simp [verdictStep]⟩

/-- A solver that is attached and wanted leaves a step, even if it is not ready. -/
theorem leftBy_runSolver :
    Step.LeftBy (e.runSolver goal k).1 (e.config.useSolver = true ∧ e.solver.isSome = true) "smt"
      (e.SolverProves goal k) := by
  unfold runSolver SolverProves
  cases e.config.useSolver with
  | false => exact ⟨fun h => absurd h.1 Bool.false_ne_true, fun _ => rfl⟩
  | true =>
    cases e.solver with
    | none => exact ⟨fun h => absurd h.2 Bool.false_ne_true, fun _ => rfl⟩
    | some s =>
      refine ⟨fun _ => ?_, fun h => absurd ⟨rfl, rfl⟩ h⟩
      rw [if_pos rfl]
      dsimp only
      split
      · rename_i hready
        obtain ⟨hrule, hproved⟩ := reports_verdictStep ("external solver " ++ s.name) k.facts
          (s.check ⟨goal, k.atoms.map (·.condition)⟩)
        exact ⟨_, rfl, hrule, by simp [hproved, hready]⟩
      · rename_i hready
        exact ⟨_, rfl, rfl, by simp [verdictStep, hready]⟩

/-! ## The goal as a whole -/

/-- The step of a search for a shape, if it is reached. -/
def shapeSteps (e : Engine) (goal : Expr) (k : Known) : List Step :=
  if e.config.fastPath = true ∧ anyProved (e.runRules goal k).1 = false then [shapeStep goal k]
  else []

/-- The step of a search by refutation, if it is reached. -/
def refutationSteps (e : Engine) (goal : Expr) (k : Known) : List Step :=
  if e.config.fourierMotzkin = true ∧
      anyProved ((e.runRules goal k).1 ++ e.shapeSteps goal k) = false then
    [refutationStep goal k e.config.maxRows]
  else []

/-- The step of the solver, if it is reached. -/
def solverSteps (e : Engine) (goal : Expr) (k : Known) : List Step :=
  if anyProved ((e.runRules goal k).1 ++ e.shapeSteps goal k ++ e.refutationSteps goal k) = true then
    []
  else (e.runSolver goal k).1

theorem runLinear_eq (hrules : anyProved (e.runRules goal k).1 = false) :
    e.runLinear goal k = e.shapeSteps goal k ++ e.refutationSteps goal k := by
  simp only [refutationSteps, shapeSteps, anyProved_append, hrules, Bool.false_or, and_true]
  unfold runLinear
  -- Refutation is left out when it is turned off, or when the shape is tried and proves the goal.
  cases e.config.fastPath <;> cases e.config.fourierMotzkin <;>
    cases h : anyProved [shapeStep goal k] <;>
    simp_all [anyProved_nil, shapeStep, refutationStep]

theorem procedureTrace_steps :
    e.ProcedureTrace goal k (e.runRules goal k).1 (e.shapeSteps goal k) (e.refutationSteps goal k)
      (e.solverSteps goal k) where
  ofRules := reports_runRules
  ofShape := Step.leftBy_ite reports_shapeStep
  ofRefutation := Step.leftBy_ite (reports_refutationStep _)
  ofSolver := by
    obtain ⟨hruns, hskipped⟩ := @leftBy_runSolver e goal k
    unfold solverSteps
    split
    · rename_i hproved
      exact ⟨fun h => absurd hproved (Bool.eq_false_iff.1 h.2.2), fun _ => rfl⟩
    · rename_i hopen
      refine ⟨fun h => hruns ⟨h.1, h.2.1⟩, fun h => hskipped fun hasked => h ?_⟩
      exact ⟨hasked.1, hasked.2, Bool.eq_false_iff.2 hopen⟩

/-- The steps with the strategies that they belong to. -/
def procedureTrace (e : Engine) (goal : Expr) (k : Known) : List (Method × Step) :=
  (e.runRules goal k).1.map (.algebraic, ·) ++
    (e.shapeSteps goal k ++ e.refutationSteps goal k).map (.linear, ·) ++
    (e.solverSteps goal k).map (.smt, ·)

theorem steps_procedureTrace :
    (e.procedureTrace goal k).map (·.2) =
      (e.runRules goal k).1 ++ (e.shapeSteps goal k ++ e.refutationSteps goal k) ++
        e.solverSteps goal k := by
  simp [procedureTrace, Function.comp_def]

theorem provedBy?_procedureTrace :
    provedBy? (e.procedureTrace goal k) =
      if anyProved (e.runRules goal k).1 then some .algebraic
      else if anyProved (e.shapeSteps goal k ++ e.refutationSteps goal k) then some .linear
      else if anyProved (e.solverSteps goal k) then some .smt
      else none := by
  rw [procedureTrace, provedBy?_append, provedBy?_append, provedBy?_map, provedBy?_map,
    provedBy?_map]
  split
  · rfl
  · split <;> rfl

theorem byProcedure_trace :
    (e.byProcedure goal k).steps = (e.procedureTrace goal k).map (·.2) ∧
      (e.byProcedure goal k).verdict.method? = provedBy? (e.procedureTrace goal k) := by
  rw [steps_procedureTrace, provedBy?_procedureTrace]
  unfold byProcedure
  dsimp only
  cases hrules : anyProved (e.runRules goal k).1 with
  | true =>
    -- A match of a rule leaves nothing to the other strategies.
    have hshape : e.shapeSteps goal k = [] := by simp [shapeSteps, hrules]
    have hrefutation : e.refutationSteps goal k = [] := by
      simp [refutationSteps, anyProved_append, hrules]
    have hsolver : e.solverSteps goal k = [] := by simp [solverSteps, anyProved_append, hrules]
    simp [hshape, hrefutation, hsolver, Verdict.method?]
  | false =>
    have hsolver : e.solverSteps goal k =
        if anyProved (e.shapeSteps goal k ++ e.refutationSteps goal k) then []
        else (e.runSolver goal k).1 := by
      rw [solverSteps, List.append_assoc, anyProved_append, hrules, Bool.false_or]
    rw [runLinear_eq hrules, hsolver]
    cases hlinear : anyProved (e.shapeSteps goal k ++ e.refutationSteps goal k) with
    | true => simp [Verdict.method?]
    | false => cases hsmt : anyProved (e.runSolver goal k).1 <;> simp [Verdict.method?, hsmt]

/-- **The steps for a goal as a whole are a trace of it**, and the method is that of the first one
that proves it. -/
theorem exists_wholeTrace (e : Engine) (goal : Expr) (k : Known) :
    ∃ trace, e.WholeTrace goal k trace ∧ (e.searchWhole goal k).steps = trace.map (·.2) ∧
      (e.searchWhole goal k).verdict.method? = provedBy? trace := by
  cases hvalue : byValue? goal with
  | some a =>
    obtain ⟨b, s, hb, hs, hsteps, hmethod⟩ := byValue?_eq_some hvalue
    rw [searchWhole, hvalue]
    exact ⟨_, .value hb hs, hsteps, hmethod⟩
  | none =>
    have hnone := byValue?_eq_none_iff.1 hvalue
    cases hsupports : goal.conjuncts.mapM (e.support? k) with
    | some supports =>
      obtain ⟨s, hwhole, hrule, hproved, _⟩ := searchWhole_of_supports hvalue hsupports
      rw [hwhole]
      have hsupported : e.Supported goal k := supported_iff.2 ⟨_, hsupports⟩
      refine ⟨_, .identity hnone hsupported ⟨hrule, iff_of_true hproved trivial⟩, rfl, ?_⟩
      simp [provedBy?, hproved, Verdict.method?]
    | none =>
      have hnot : ¬ e.Supported goal k := by
        rw [supported_iff, hsupports]
        simp
      rw [searchWhole_of_no_supports hvalue hsupports]
      exact ⟨_, .procedure hnone hnot procedureTrace_steps, byProcedure_trace⟩

/-! ## The search -/

theorem steps_searchParts (whole : Attempt) :
    (e.searchParts goal k whole).steps =
      whole.steps ++ splitStep goal.conjuncts
        (goal.conjuncts.filter fun p => !(e.searchWhole p k).isProven) ::
        goal.conjuncts.flatMap fun p => (e.searchWhole p k).steps.map (markStep p) := by
  unfold searchParts
  dsimp only
  rw [List.flatMap_map, List.filter_map, List.map_map]
  simp [Function.comp_def]

theorem reports_splitStep (parts unproven : List Expr) :
    (splitStep parts unproven).Reports "conjunction" (unproven = []) where
  rule := rfl
  proved := by cases unproven <;> simp [splitStep]

/-- A conjunction that is open as a whole leaves the trace of a split. -/
theorem trace_searchParts {trace : List (Method × Step)} (hvalue : byValue? goal = none)
    (hconjunction : goal.isConjunction = true) (htrace : e.WholeTrace goal k trace)
    (hopen : provedBy? trace = none) {whole : Attempt} (hsteps : whole.steps = trace.map (·.2)) :
    e.Trace goal k (e.searchParts goal k whole).steps
      (e.searchParts goal k whole).verdict.method? := by
  -- Each conjunct has its own trace, and the split succeeds if all of them hold a proof.
  choose partTrace hpart hpartSteps hpartMethod using fun p => e.exists_wholeTrace p k
  have hproven : ∀ p, (e.searchWhole p k).isProven = true ↔ provedBy? (partTrace p) ≠ none :=
    fun p => isProven_iff_provedBy? (hpartMethod p)
  let parts := goal.conjuncts.map fun p => (p, partTrace p)
  let s := splitStep goal.conjuncts (goal.conjuncts.filter fun p => !(e.searchWhole p k).isProven)
  have hs : s.status = .proved ↔ ∀ p ∈ goal.conjuncts, (e.searchWhole p k).isProven = true := by
    rw [(reports_splitStep _ _).proved, List.filter_eq_nil_iff]
    simp
  have hflat : (goal.conjuncts.flatMap fun p => (e.searchWhole p k).steps.map (markStep p)) =
      parts.flatMap fun part => part.2.map (markStep part.1 ·.2) := by
    simp [parts, List.flatMap_map, hpartSteps, Function.comp_def]
  rw [steps_searchParts, method?_searchParts, hsteps, hflat, ← if_congr hs rfl rfl]
  refine .split (byValue?_eq_none_iff.1 hvalue) hconjunction htrace hopen ⟨rfl, hs.trans ?_⟩ rfl ?_
    ?_
  · simp only [parts, List.forall_mem_map, hproven]
  · simp [parts, Function.comp_def]
  · simp only [parts, List.forall_mem_map]
    exact fun p _ => hpart p

/-- **Every search leaves a trace**, with the method that its steps add up to. -/
theorem trace_search (e : Engine) (goal : Expr) (k : Known) :
    e.Trace goal k (e.search goal k).steps (e.search goal k).verdict.method? := by
  obtain ⟨trace, htrace, hsteps, hmethod⟩ := e.exists_wholeTrace goal k
  have hproven := isProven_iff_provedBy? hmethod
  rw [search_eq]
  split
  · rename_i hsplit
    obtain ⟨hvalue, hconjunction, hopen⟩ := hsplit
    refine trace_searchParts hvalue hconjunction htrace ?_ hsteps
    exact not_not.1 fun h => Bool.eq_false_iff.1 hopen (hproven.2 h)
  · rename_i hwhole
    rw [hsteps, hmethod]
    refine .whole htrace ?_
    by_contra hno
    obtain ⟨hvalue, hno⟩ := not_or.1 hno
    obtain ⟨hconjunction, hopen⟩ := not_or.1 hno
    exact hwhole ⟨byValue?_eq_none_iff.2 (not_exists.1 hvalue),
      Bool.eq_true_of_not_eq_false hconjunction, Bool.eq_false_iff.2 fun h => hopen (hproven.1 h)⟩

/-! ## Certificates -/

/-- A certificate whose steps bear out what it says of a goal: it is a success or a failure, with a
method or with a reason; the steps are a trace of the goal with this method; and they cite given
facts only, if the rules do. -/
structure Justifies (e : Engine) (goal : Goal) (facts : List Fact) (c : Certificate) : Prop where
  success_iff : c.outcome = .success ↔ c.method.isSome = true
  method_iff : c.method.isSome = true ↔ c.failureReason = none
  settled : c.outcome ≠ .pending
  trace : e.Trace (e.registry.brands.expand goal.condition).canonical
    (.ofFacts e.registry.brands facts) c.steps c.method
  proved_iff : (e.registry.brands.expand goal.condition).canonical.isConjunction = false →
    (c.outcome = .success ↔ ∃ s ∈ c.steps, s.status = .proved)
  cites : (∀ r ∈ e.registry.rules, r.CitesKnown) → ∀ s ∈ c.steps, s.usedFacts ⊆ facts

theorem Trace.proved_iff {steps : List Step} {method : Option Method}
    (h : e.Trace goal k steps method) (hgoal : goal.isConjunction = false) :
    method.isSome = true ↔ ∃ s ∈ steps, s.status = .proved := by
  cases h with
  | whole _ _ => rw [Option.isSome_iff_ne_none, provedBy?_ne_none]
  | split _ hconjunction => exact absurd hconjunction (Bool.eq_false_iff.1 hgoal)

theorem success_conclude_iff (goal : Goal) (facts : List Fact) (a : Attempt) :
    (e.conclude goal facts a).certificate.outcome = .success ↔
      (e.conclude goal facts a).certificate.method.isSome = true := by
  unfold conclude
  cases a.verdict <;> simp [Certificate.succeed, Certificate.fail, Certificate.start]

theorem method_conclude_iff (goal : Goal) (facts : List Fact) (a : Attempt) :
    (e.conclude goal facts a).certificate.method.isSome = true ↔
      (e.conclude goal facts a).certificate.failureReason = none := by
  unfold conclude
  cases a.verdict <;> simp [Certificate.succeed, Certificate.fail, Certificate.start]

theorem outcome_conclude_ne_pending (goal : Goal) (facts : List Fact) (a : Attempt) :
    (e.conclude goal facts a).certificate.outcome ≠ .pending := by
  unfold conclude
  cases a.verdict <;> simp [Certificate.succeed, Certificate.fail]

/-- **The trace of a certificate justifies its verdict**, whatever the rules, the settings and the
solver are. -/
theorem prove_justifies (e : Engine) (goal : Goal) (facts : List Fact) (outcome : ProofOutcome)
    (h : e.prove goal facts = .ok outcome) : e.Justifies goal facts outcome.certificate := by
  obtain ⟨_, _, rfl⟩ := (prove_eq_ok goal facts).1 h
  have htrace := e.trace_search (e.registry.brands.expand goal.condition).canonical
    (.ofFacts e.registry.brands facts)
  refine ⟨success_conclude_iff _ _ _, method_conclude_iff _ _ _, outcome_conclude_ne_pending _ _ _,
    ?_, ?_, ?_⟩
  · rw [steps_conclude, method_conclude]
    exact htrace
  · intro hgoal
    rw [success_conclude_iff, steps_conclude, method_conclude]
    exact htrace.proved_iff hgoal
  · intro hrules s hs
    rw [steps_conclude] at hs
    exact cites_search Known.grounded_ofFacts hrules hs

/-- A conjunction that stays open although a rule proves its first conjunct: among the steps for the
whole are a rule that breaks down, a refutation that meets its limit and a solver that is not
ready, and none of them is a proof. -/
theorem prove_justifies_open :
    let odd : Rule := .ofTest "odd" "the goal is about an odd number" fun _ _ =>
      .error (.breakdown none)
    let registry : Registry :=
      { Registry.empty 0 with rules := [Rule.positiveImpliesNonNegative, odd] }
    let e : Engine := ⟨registry, { maxRows := 0 }, some ⟨"slow", .initializing, fun _ => .proven⟩⟩
    let goal : Goal := ⟨.and (.compare .ge (.var "x") (.num .zero))
      (.compare .gt (.var "y") (.num .zero)), none⟩
    let facts : List Fact := [⟨"x", .compare .gt (.var "x") (.num .zero)⟩]
    ∃ outcome, e.prove goal facts = .ok outcome ∧ e.Justifies goal facts outcome.certificate ∧
      (∀ r ∈ e.registry.rules, r.CitesKnown) ∧ outcome.certificate.method = none ∧
      outcome.certificate.steps.map (fun s => (s.rule, s.status)) =
        [("positive_implies_non_negative", .failed), ("odd", .inconclusive),
          ("linear_fast_path", .failed), ("fourier_motzkin", .inconclusive),
          ("smt", .inconclusive),
          ("conjunction", .failed),
          ("positive_implies_non_negative", .proved), ("odd", .inconclusive),
          ("positive_implies_non_negative", .failed), ("odd", .inconclusive),
          ("linear_fast_path", .failed), ("fourier_motzkin", .inconclusive),
          ("smt", .inconclusive)] := by
  intro odd registry e goal facts
  have hprove := (prove_eq_ok (e := e) goal facts).2 ⟨by cbv, by cbv, rfl⟩
  have hrules : ∀ r ∈ e.registry.rules, r.CitesKnown := by
    refine List.forall_mem_cons.2 ⟨Rule.builtin_citesKnown _ ?_, List.forall_mem_singleton.2 ?_⟩
    · simp [Rule.builtin]
    · exact Rule.ofTest_citesKnown _ _ _
  have hsplit := @search_eq e (e.registry.brands.expand goal.condition).canonical
    (.ofFacts e.registry.brands facts)
  rw [if_pos ⟨by cbv, by cbv, by cbv⟩] at hsplit
  refine ⟨_, hprove, prove_justifies e goal facts _ hprove, hrules, ?_, ?_⟩
  · have hy : Expr.compare .gt (.var "y") (.num .zero) ∈
        (e.registry.brands.expand goal.condition).canonical.conjuncts := List.elem_iff.1 (by cbv)
    have hopen : (e.searchWhole (.compare .gt (.var "y") (.num .zero))
        (.ofFacts e.registry.brands facts)).isProven = false := by cbv
    rw [method_conclude, hsplit, method?_searchParts,
      if_neg fun hall => Bool.eq_false_iff.1 hopen (hall _ hy)]
  · rw [steps_conclude, hsplit, steps_searchParts]
    cbv

end Engine

end Discharge
