import Discharge.Proofs.Engine.FactSets
import Discharge.Proofs.Engine.Trace
import Mathlib

/-!
# Faulty rules are contained

A rule that goes wrong does no harm. Put in its place the rule that declines wherever it goes wrong
(`Rule.contained`): every proof ends the same way, and each faulty run (`Engine.faults`) leaves an
inconclusive step where the other rule leaves a failed one, and one warning. Nor does the order of
the rules matter for how a proof ends. Both comparisons are between an engine and the same engine
with other rules (`Engine.withRules`), and rest on one observation: the rules enter the verdict only
through the question whether one of them matches (`Engine.verdict_search_withRules`).
-/

namespace Discharge

/-! ## Rules that decline instead -/

/-- The fault, if the rule went wrong. -/
def RuleOutcome.fault? : RuleOutcome → Option RuleFault
  | .faulted fault => some fault
  | _ => none

/-- Declining in the place of a fault. -/
def RuleOutcome.contained : RuleOutcome → RuleOutcome
  | .faulted _ => .declined
  | outcome => outcome

/-- The rule that declines wherever this one goes wrong, and otherwise does the same. -/
def Rule.contained (r : Rule) : Rule where
  name := r.name
  description := r.description
  run goal known := (r.run goal known).contained

/-- A run of a rule that went wrong on a condition. -/
structure FaultyRun where
  condition : Expr
  rule : Rule
  fault : RuleFault

namespace FaultyRun

/-- The warning for a faulty run. -/
def warning (f : FaultyRun) : Warning where
  kind := .ruleFault
  brand := none
  message := "rule `" ++ f.rule.name ++ "` faulted on `" ++ f.condition.text ++ "`: " ++
    f.fault.message
  certificate := none

/-- A faulty run leaves an inconclusive step that tells the fault, and declining a failed one that
is the same otherwise. -/
structure Leaves (f : FaultyRun) (s s' : Step) : Prop where
  rule : s.rule = f.rule.name
  inconclusive : s.status = .inconclusive
  justification : s.justification = "rule faulted: " ++ f.fault.message
  declined : s' = { s with justification := "pattern did not match", status := .failed }

end FaultyRun

/-- The steps of two searches, in the first of which rules went wrong: they are the same but for the
steps of the faulty runs, which stand in the order of these. -/
inductive StepsContain : List FaultyRun → List Step → List Step → Prop
  | nil : StepsContain [] [] []
  | same {faults : List FaultyRun} {steps steps' : List Step} (s : Step)
      (h : StepsContain faults steps steps') : StepsContain faults (s :: steps) (s :: steps')
  | fault {faults : List FaultyRun} {steps steps' : List Step} {f : FaultyRun} {s s' : Step}
      (hf : f.Leaves s s') (h : StepsContain faults steps steps') :
      StepsContain (f :: faults) (s :: steps) (s' :: steps')

namespace StepsContain

variable {faults more : List FaultyRun} {steps steps' after after' : List Step}

theorem refl (steps : List Step) : StepsContain [] steps steps := by
  induction steps with
  | nil => exact .nil
  | cons s steps ih => exact .same s ih

theorem append (h : StepsContain faults steps steps') (hafter : StepsContain more after after') :
    StepsContain (faults ++ more) (steps ++ after) (steps' ++ after') := by
  induction h with
  | nil => exact hafter
  | same s _ ih => exact .same s ih
  | fault hf _ ih => exact .fault hf ih

theorem append_same (h : StepsContain faults steps steps') (after : List Step) :
    StepsContain faults (steps ++ after) (steps' ++ after) := by
  have happend := h.append (refl after)
  rwa [List.append_nil] at happend

/-- The steps of a conjunct say which one that is, whether a rule went wrong or not. -/
theorem map_markStep (h : StepsContain faults steps steps') (part : Expr) :
    StepsContain faults (steps.map (Engine.markStep part)) (steps'.map (Engine.markStep part)) := by
  induction h with
  | nil => exact .nil
  | same s _ ih => exact .same _ ih
  | fault hf _ ih =>
    refine .fault ⟨hf.rule, hf.inconclusive, hf.justification, ?_⟩ ih
    rw [hf.declined]
    rfl

theorem flatMap {parts : List Expr} {faults : Expr → List FaultyRun}
    {steps steps' : Expr → List Step} (h : ∀ p, StepsContain (faults p) (steps p) (steps' p)) :
    StepsContain (parts.flatMap faults) (parts.flatMap steps) (parts.flatMap steps') := by
  induction parts with
  | nil => exact .nil
  | cons p parts ih => exact (h p).append ih

end StepsContain

/-- How a proof ends: its outcome and its method. -/
def ProofOutcome.ending (o : ProofOutcome) : Outcome × Option Method :=
  (o.certificate.outcome, o.certificate.method)

/-- The outcome of a proof in which rules went wrong, and that with rules that decline instead: both
end the same way, with the same steps but for those of the faulty runs; and the warnings are one for
each faulty run, in their order, and then those of the same kinds and brands as with the other
rules, which give no warning about a rule. -/
structure ProofOutcome.ContainsFaults (o o' : ProofOutcome) (faults : List FaultyRun) : Prop where
  outcome : o.certificate.outcome = o'.certificate.outcome
  method : o.certificate.method = o'.certificate.method
  failureReason : o.certificate.failureReason = o'.certificate.failureReason
  classification : o.classification = o'.classification
  steps : StepsContain faults o.certificate.steps o'.certificate.steps
  warnings : ∃ rest, o.warnings = faults.map FaultyRun.warning ++ rest ∧
    rest.map (fun w => (w.kind, w.brand)) = o'.warnings.map fun w => (w.kind, w.brand)
  noFault : ∀ w ∈ o'.warnings, w.kind ≠ .ruleFault

/-- The reason of a refutation. -/
def Verdict.refutation? : Verdict → Option String
  | .refuted reason => some reason
  | _ => none

namespace Engine

variable {e : Engine} {goal : Expr} {k : Known} {rules : List Rule}

/-! ## Other rules -/

/-- The engine with other rules in its registry. -/
def withRules (e : Engine) (rules : List Rule) : Engine :=
  { e with registry := { e.registry with rules := rules } }

/-- The engine whose rules decline wherever those of this one go wrong. -/
def contained (e : Engine) : Engine := e.withRules (e.registry.rules.map Rule.contained)

theorem refutation?_eq (attempts : List Attempt) :
    refutation? attempts = (attempts.map (·.verdict)).findSome? Verdict.refutation? := by
  rw [List.findSome?_map]
  rfl

/-- The search for a goal as a whole gets to the rules: neither its value nor the facts settle
it. -/
def reachesRules (e : Engine) (goal : Expr) (k : Known) : Bool :=
  (byValue? goal).isNone && (byIdentity? goal k).isNone && (e.byWidening? goal k).isNone

theorem searchWhole_of_reachesRules (h : e.reachesRules goal k = true) :
    e.searchWhole goal k = e.byProcedure goal k := by
  simp only [reachesRules, Bool.and_eq_true, Option.isNone_iff_eq_none] at h
  obtain ⟨⟨hvalue, hidentity⟩, hwidening⟩ := h
  rw [searchWhole, hvalue, hidentity, hwidening]

/-- A goal that is settled before the rules is settled in the same way with other rules. -/
theorem searchWhole_of_not_reachesRules (rules : List Rule) (h : e.reachesRules goal k = false) :
    (e.withRules rules).searchWhole goal k = e.searchWhole goal k ∧
      (e.searchWhole goal k).warnings = [] := by
  have hwiden : (e.withRules rules).byWidening? goal k = e.byWidening? goal k := rfl
  simp only [searchWhole, hwiden]
  cases hvalue : byValue? goal with
  | some a => exact ⟨rfl, (byValue?_settles hvalue).2⟩
  | none =>
    cases hidentity : byIdentity? goal k with
    | some a =>
      obtain ⟨used, _, ha⟩ := Option.bind_eq_some_iff.1 hidentity
      cases ha
      exact ⟨rfl, rfl⟩
    | none =>
      cases hwidening : e.byWidening? goal k with
      | some a =>
        obtain ⟨used, _, ha⟩ := Option.bind_eq_some_iff.1 hwidening
        cases ha
        exact ⟨rfl, rfl⟩
      | none => simp [reachesRules, hvalue, hidentity, hwidening] at h

/-! ## Verdicts -/

/-- How an attempt on the conjuncts ends is a matter of how the attempts on each of them end. -/
theorem verdict_searchParts_congr {e' : Engine} {whole whole' : Attempt}
    (h : ∀ p, (e'.searchWhole p k).verdict = (e.searchWhole p k).verdict) :
    (e'.searchParts goal k whole').verdict = (e.searchParts goal k whole).verdict := by
  have hproven : ∀ p, (e'.searchWhole p k).isProven = (e.searchWhole p k).isProven := fun p => by
    rw [Attempt.isProven_eq, h, ← Attempt.isProven_eq]
  unfold searchParts
  dsimp only
  simp only [refutation?_eq, List.map_map, List.filter_map, Function.comp_def, h, hproven]

section

variable (hmatch : ∀ p, anyProved ((e.withRules rules).runRules p k).1 =
  anyProved (e.runRules p k).1)
include hmatch

theorem verdict_byProcedure_withRules (p : Expr) :
    ((e.withRules rules).byProcedure p k).verdict = (e.byProcedure p k).verdict := by
  have hlinear : (e.withRules rules).runLinear p k = e.runLinear p k := rfl
  have hsolver : (e.withRules rules).runSolver p k = e.runSolver p k := rfl
  unfold byProcedure
  simp only [hmatch p, hlinear, hsolver]
  split
  · rfl
  · split <;> rfl

theorem verdict_searchWhole_withRules (p : Expr) :
    ((e.withRules rules).searchWhole p k).verdict = (e.searchWhole p k).verdict := by
  cases hreach : e.reachesRules p k with
  | false => rw [(searchWhole_of_not_reachesRules _ hreach).1]
  | true =>
    have hreach' : (e.withRules rules).reachesRules p k = true := hreach
    rw [searchWhole_of_reachesRules hreach, searchWhole_of_reachesRules hreach']
    exact verdict_byProcedure_withRules hmatch p

theorem isProven_searchWhole_withRules (p : Expr) :
    ((e.withRules rules).searchWhole p k).isProven = (e.searchWhole p k).isProven := by
  rw [Attempt.isProven_eq, verdict_searchWhole_withRules hmatch, ← Attempt.isProven_eq]

/-- **The rules enter the verdict only through whether one of them matches.** -/
theorem verdict_search_withRules (goal : Expr) :
    ((e.withRules rules).search goal k).verdict = (e.search goal k).verdict := by
  rw [search_eq, search_eq, isProven_searchWhole_withRules hmatch]
  split
  · exact verdict_searchParts_congr (verdict_searchWhole_withRules hmatch)
  · exact verdict_searchWhole_withRules hmatch goal

end

/-- The step of a rule proves the goal just when the rule matches. -/
theorem anyProved_runRules_eq :
    anyProved (e.runRules goal k).1 =
      e.registry.rules.any fun r => (ruleStep r (r.run goal k)).status == .proved := by
  rw [anyProved, runRules]
  dsimp only
  rw [List.any_map, List.any_map]
  rfl

theorem anyProved_runRules_perm (h : rules.Perm e.registry.rules) (goal : Expr) :
    anyProved ((e.withRules rules).runRules goal k).1 = anyProved (e.runRules goal k).1 := by
  rw [anyProved_runRules_eq, anyProved_runRules_eq]
  exact h.any_eq

theorem anyProved_runRules_contained (goal : Expr) :
    anyProved (e.contained.runRules goal k).1 = anyProved (e.runRules goal k).1 := by
  rw [anyProved_runRules_eq, anyProved_runRules_eq, contained, withRules, List.any_map]
  refine congrArg e.registry.rules.any (funext fun r => ?_)
  dsimp only [Function.comp_apply, Rule.contained]
  cases r.run goal k <;> rfl

/-! ## Faulty runs -/

/-- The runs of rules on a goal as a whole: each rule is run once, if the search gets to them. -/
def wholeRuns (e : Engine) (goal : Expr) (k : Known) : List (Expr × Rule) :=
  if e.reachesRules goal k then e.registry.rules.map (goal, ·) else []

/-- The search goes on with the conjuncts of the goal. -/
def splits (e : Engine) (goal : Expr) (k : Known) : Bool :=
  (byValue? goal).isNone && goal.isConjunction && !(e.searchWhole goal k).isProven

/-- The runs of rules in a search, in their order. -/
def runs (e : Engine) (goal : Expr) (k : Known) : List (Expr × Rule) :=
  e.wholeRuns goal k ++ if e.splits goal k then goal.conjuncts.flatMap (e.wholeRuns · k) else []

/-- The run as a faulty one, if the rule goes wrong. -/
def faultyRun? (k : Known) (run : Expr × Rule) : Option FaultyRun :=
  (run.2.run run.1 k).fault?.map (⟨run.1, run.2, ·⟩)

/-- The runs in which a rule goes wrong, in their order. -/
def faults (e : Engine) (goal : Expr) (k : Known) : List FaultyRun :=
  (e.runs goal k).filterMap (faultyRun? k)

/-- The faulty runs on a goal as a whole. -/
def wholeFaults (e : Engine) (goal : Expr) (k : Known) : List FaultyRun :=
  (e.wholeRuns goal k).filterMap (faultyRun? k)

theorem faults_eq :
    e.faults goal k = e.wholeFaults goal k ++
      if e.splits goal k then goal.conjuncts.flatMap (e.wholeFaults · k) else [] := by
  rw [faults, runs, List.filterMap_append]
  split
  · rw [List.filterMap_flatMap]
    rfl
  · rfl

theorem wholeFaults_of_reachesRules (h : e.reachesRules goal k = true) :
    e.wholeFaults goal k = e.registry.rules.filterMap fun r => faultyRun? k (goal, r) := by
  rw [wholeFaults, wholeRuns, if_pos h, List.filterMap_map]
  rfl

theorem wholeFaults_of_not_reachesRules (h : e.reachesRules goal k = false) :
    e.wholeFaults goal k = [] := by
  rw [wholeFaults, wholeRuns, h]
  rfl

/-! ## Steps -/

/-- A rule and the one that declines in its place leave the same step, unless the rule goes
wrong. -/
theorem stepsContain_rule (r : Rule) {faults : List FaultyRun} {steps steps' : List Step}
    (h : StepsContain faults steps steps') :
    StepsContain ((faultyRun? k (goal, r)).toList ++ faults)
      (ruleStep r (r.run goal k) :: steps)
      (ruleStep r.contained (r.contained.run goal k) :: steps') := by
  have hrun : r.contained.run goal k = (r.run goal k).contained := rfl
  rw [hrun, faultyRun?]
  cases r.run goal k with
  | matched found => exact .same _ h
  | declined => exact .same _ h
  | faulted fault => exact .fault ⟨rfl, rfl, rfl, rfl⟩ h

theorem stepsContain_runRules :
    StepsContain (e.registry.rules.filterMap fun r => faultyRun? k (goal, r))
      (e.runRules goal k).1 (e.contained.runRules goal k).1 := by
  unfold runRules contained withRules
  dsimp only
  simp only [List.map_map, Function.comp_def]
  induction e.registry.rules with
  | nil => exact .nil
  | cons r rules ih =>
    have hfaults : (r :: rules).filterMap (fun r => faultyRun? k (goal, r)) =
        (faultyRun? k (goal, r)).toList ++ rules.filterMap fun r => faultyRun? k (goal, r) := by
      rw [List.filterMap_cons]
      cases faultyRun? k (goal, r) <;> rfl
    rw [hfaults]
    exact stepsContain_rule r ih

theorem stepsContain_byProcedure :
    StepsContain (e.registry.rules.filterMap fun r => faultyRun? k (goal, r))
      (e.byProcedure goal k).steps (e.contained.byProcedure goal k).steps := by
  have hlinear : e.contained.runLinear goal k = e.runLinear goal k := rfl
  have hsolver : e.contained.runSolver goal k = e.runSolver goal k := rfl
  have hrules := @stepsContain_runRules e goal k
  unfold byProcedure
  simp only [anyProved_runRules_contained goal, hlinear, hsolver]
  split
  · exact hrules
  · split
    · exact hrules.append_same _
    · exact (hrules.append_same _).append_same _

theorem stepsContain_searchWhole (p : Expr) :
    StepsContain (e.wholeFaults p k) (e.searchWhole p k).steps
      (e.contained.searchWhole p k).steps := by
  cases hreach : e.reachesRules p k with
  | false =>
    rw [contained, (searchWhole_of_not_reachesRules _ hreach).1,
      wholeFaults_of_not_reachesRules hreach]
    exact .refl _
  | true =>
    have hreach' : e.contained.reachesRules p k = true := hreach
    rw [searchWhole_of_reachesRules hreach, searchWhole_of_reachesRules hreach',
      wholeFaults_of_reachesRules hreach]
    exact stepsContain_byProcedure

theorem splits_iff :
    e.splits goal k = true ↔ byValue? goal = none ∧ goal.isConjunction = true ∧
      (e.searchWhole goal k).isProven = false := by
  simp [splits, and_assoc]

/-- **The steps are the same but for those of faulty runs.** -/
theorem stepsContain_search (goal : Expr) :
    StepsContain (e.faults goal k) (e.search goal k).steps (e.contained.search goal k).steps := by
  have hproven : ∀ p, (e.contained.searchWhole p k).isProven = (e.searchWhole p k).isProven :=
    isProven_searchWhole_withRules anyProved_runRules_contained
  rw [faults_eq, search_eq, search_eq, hproven]
  simp only [← splits_iff]
  split
  · rw [steps_searchParts, steps_searchParts]
    simp only [hproven]
    refine (stepsContain_searchWhole goal).append (.same _ (.flatMap fun p => ?_))
    exact (stepsContain_searchWhole p).map_markStep p
  · rw [List.append_nil]
    exact stepsContain_searchWhole goal

/-! ## Warnings -/

theorem ruleWarning?_eq (r : Rule) :
    ruleWarning? goal r (r.run goal k) = (faultyRun? k (goal, r)).map FaultyRun.warning := by
  rw [faultyRun?]
  cases r.run goal k <;> rfl

theorem warnings_byProcedure :
    (e.byProcedure goal k).warnings =
      (e.registry.rules.filterMap fun r => faultyRun? k (goal, r)).map FaultyRun.warning := by
  have hrules : (e.runRules goal k).2 =
      (e.registry.rules.filterMap fun r => faultyRun? k (goal, r)).map FaultyRun.warning := by
    unfold runRules
    dsimp only
    rw [List.filterMap_map, List.map_filterMap]
    exact congrArg (e.registry.rules.filterMap ·) (funext ruleWarning?_eq)
  unfold byProcedure
  dsimp only
  split
  · exact hrules
  · split <;> exact hrules

theorem warnings_wholeFaults (p : Expr) :
    (e.searchWhole p k).warnings = (e.wholeFaults p k).map FaultyRun.warning := by
  cases hreach : e.reachesRules p k with
  | false =>
    rw [(searchWhole_of_not_reachesRules [] hreach).2,
      wholeFaults_of_not_reachesRules hreach]
    rfl
  | true =>
    rw [searchWhole_of_reachesRules hreach, wholeFaults_of_reachesRules hreach]
    exact warnings_byProcedure

/-- **Each faulty run gives one warning**, and nothing else gives one during the search. -/
theorem warnings_faults (goal : Expr) :
    (e.search goal k).warnings = (e.faults goal k).map FaultyRun.warning := by
  rw [faults_eq, search_eq]
  simp only [← splits_iff]
  split
  · simp [searchParts, warnings_wholeFaults, List.flatMap_map, List.map_flatMap]
  · rw [List.append_nil]
    exact warnings_wholeFaults goal

theorem faults_contained (goal : Expr) : e.contained.faults goal k = [] := by
  have hwhole : ∀ p, e.contained.wholeFaults p k = [] := by
    intro p
    refine List.filterMap_eq_nil_iff.2 fun run hrun => ?_
    unfold wholeRuns at hrun
    split at hrun
    · obtain ⟨_, hr, rfl⟩ := List.mem_map.1 hrun
      obtain ⟨r, _, rfl⟩ := List.mem_map.1 hr
      show (((r.run p k).contained.fault?).map _ : Option FaultyRun) = none
      cases r.run p k <;> rfl
    · cases hrun
  rw [faults_eq, hwhole]
  simp [hwhole]

/-! ## Outcomes -/

/-- To the warnings of the search at most the one about a compile-time brand is added. -/
theorem warnings_conclude (goal : Goal) (facts : List Fact) (a : Attempt) :
    ∃ rest, (e.conclude goal facts a).warnings = a.warnings ++ rest ∧
      rest.map (fun w => (w.kind, w.brand)) =
        (if a.isProven then none else e.fallbackKey? (e.classify goal)).toList := by
  unfold conclude Attempt.isProven
  cases a.verdict with
  | proven m => exact ⟨[], (List.append_nil _).symm, rfl⟩
  | refuted reason => exact ⟨_, rfl, map_fallbackWarning? _ _ _⟩
  | unproven reason => exact ⟨_, rfl, map_fallbackWarning? _ _ _⟩

theorem kind_of_fallbackKey? {info : Option Classification} {key : WarningKind × Option String}
    (h : e.fallbackKey? info = some key) : key.1 = .compileTimeFallback := by
  obtain ⟨info, _, h⟩ := Option.bind_eq_some_iff.1 h
  split at h
  · cases h
    rfl
  · cases h

/-- Attempts that end in the same way lead to the same outcome, whatever the rules are. -/
theorem conclude_withRules (goal : Goal) (facts : List Fact) {a a' : Attempt}
    (h : a'.verdict = a.verdict) :
    let o := e.conclude goal facts a
    let o' := (e.withRules rules).conclude goal facts a'
    o.certificate.outcome = o'.certificate.outcome ∧ o.certificate.method = o'.certificate.method ∧
      o.certificate.failureReason = o'.certificate.failureReason ∧
      o.classification = o'.classification := by
  unfold conclude
  rw [h]
  cases a.verdict <;> exact ⟨rfl, rfl, rfl, rfl⟩

theorem containsFaults_conclude (goal : Goal) (facts : List Fact) {a a' : Attempt}
    {faults : List FaultyRun} (hverdict : a'.verdict = a.verdict)
    (hsteps : StepsContain faults a.steps a'.steps)
    (hwarnings : a.warnings = faults.map FaultyRun.warning) (hnone : a'.warnings = []) :
    (e.conclude goal facts a).ContainsFaults (e.contained.conclude goal facts a') faults := by
  obtain ⟨houtcome, hmethod, hreason, hclass⟩ := e.conclude_withRules goal facts hverdict
  have hproven : a'.isProven = a.isProven := by
    rw [Attempt.isProven_eq, hverdict, ← Attempt.isProven_eq]
  obtain ⟨rest, hrest, hkeys⟩ := e.warnings_conclude goal facts a
  obtain ⟨rest', hrest', hkeys'⟩ := e.contained.warnings_conclude goal facts a'
  -- Both engines classify the goal alike, so that they warn about the same brand if at all.
  have hsame : rest.map (fun w => (w.kind, w.brand)) = rest'.map fun w => (w.kind, w.brand) := by
    rw [hkeys, hkeys', hproven]
    rfl
  rw [hnone, List.nil_append] at hrest'
  refine ⟨houtcome, hmethod, hreason, hclass, ?_, ⟨rest, ?_, ?_⟩, fun w hw => ?_⟩
  · rw [steps_conclude, steps_conclude]
    exact hsteps
  · rw [hrest, hwarnings]
  · rw [hrest', hsame]
  · rw [hrest'] at hw
    have hkey := List.mem_map_of_mem (f := fun w : Warning => (w.kind, w.brand)) hw
    rw [hkeys', Option.mem_toList] at hkey
    split at hkey
    · cases hkey
    · have hkind := kind_of_fallbackKey? hkey
      dsimp only at hkind
      simp [hkind]

/-- Whether a goal and facts are malformed does not depend on the engine. -/
theorem prove_error_or_ok (goal : Goal) (facts : List Fact) :
    (∃ err, ∀ e : Engine, e.prove goal facts = .error err) ∨
      ∀ e : Engine, e.prove goal facts = .ok (e.conclude goal facts
        (e.search (e.registry.brands.expand goal.condition).canonical
          (.ofFacts e.registry.brands facts))) := by
  cases hgoal : validateGoal goal.condition with
  | error err => exact .inl ⟨err, fun e => by rw [prove, hgoal]; rfl⟩
  | ok _ =>
    cases hfacts : facts.forM validateFact with
    | error err => exact .inl ⟨err, fun e => by rw [prove, hgoal, hfacts]; rfl⟩
    | ok _ => exact .inr fun e => (prove_eq_ok goal facts).2 ⟨hgoal, hfacts, rfl⟩

/-- **Faulty rules are contained.** Rules that decline wherever the rules of the registry go wrong
lead to an outcome that differs only in what each faulty run leaves, and rules in another order lead
to the same outcome by the same method. -/
theorem prove_contains_faults (e : Engine) (goal : Goal) (facts : List Fact) :
    ((∃ err, e.prove goal facts = .error err ∧ e.contained.prove goal facts = .error err) ∨
      ∃ o o', e.prove goal facts = .ok o ∧ e.contained.prove goal facts = .ok o' ∧
        o.ContainsFaults o' (e.faults (e.registry.brands.expand goal.condition).canonical
          (.ofFacts e.registry.brands facts))) ∧
    ∀ rules : List Rule, rules.Perm e.registry.rules →
      ((e.withRules rules).prove goal facts).map ProofOutcome.ending =
        (e.prove goal facts).map ProofOutcome.ending := by
  rcases prove_error_or_ok goal facts with ⟨err, herr⟩ | hok
  · exact ⟨.inl ⟨err, herr e, herr _⟩, fun rules _ => by rw [herr, herr]⟩
  · refine ⟨.inr ⟨_, _, hok e, hok _, ?_⟩, fun rules hperm => ?_⟩
    · refine containsFaults_conclude goal facts ?_ (stepsContain_search _) (warnings_faults _) ?_
      · exact verdict_search_withRules anyProved_runRules_contained _
      · rw [warnings_faults, faults_contained]
        rfl
    · rw [hok, hok]
      have hverdict := verdict_search_withRules (anyProved_runRules_perm hperm)
        (k := .ofFacts e.registry.brands facts) (e.registry.brands.expand goal.condition).canonical
      obtain ⟨houtcome, hmethod, _⟩ := e.conclude_withRules goal facts hverdict
      exact congrArg Except.ok (Prod.ext houtcome.symm hmethod.symm)

/-- A rule that gives up, a rule that proves the first conjunct and a rule that breaks down, run on
the whole goal and on both conjuncts: six runs of nine go wrong. -/
theorem prove_contains_faults_parts :
    let odd : Rule := .ofTest "odd" "the goal is about an odd number" fun _ _ =>
      .error (.error ["odd", "no number"])
    let broken : Rule := .ofTest "broken" "a rule that breaks down" fun _ _ =>
      .error (.breakdown none)
    let registry : Registry :=
      { Registry.empty 0 with rules := [odd, Rule.positiveImpliesNonNegative, broken] }
    let e : Engine := ⟨registry, {}, none⟩
    let goal : Goal := ⟨.and (.compare .ge (.var "x") (.num .zero))
      (.compare .gt (.var "y") (.num .zero)), none⟩
    let facts : List Fact := [⟨"x", .compare .gt (.var "x") (.num .zero)⟩]
    ∃ o o', e.prove goal facts = .ok o ∧ e.contained.prove goal facts = .ok o' ∧
      o.ContainsFaults o' (e.faults (e.registry.brands.expand goal.condition).canonical
        (.ofFacts e.registry.brands facts)) ∧
      (e.faults (e.registry.brands.expand goal.condition).canonical
        (.ofFacts e.registry.brands facts)).map (fun f => (f.rule.name, f.condition.text)) =
        [("odd", "x >= 0 && y > 0"), ("broken", "x >= 0 && y > 0"), ("odd", "x >= 0"),
          ("broken", "x >= 0"), ("odd", "y > 0"), ("broken", "y > 0")] := by
  intro odd broken registry e goal facts
  have hprove := (prove_eq_ok (e := e) goal facts).2 ⟨by cbv, by cbv, rfl⟩
  rcases (prove_contains_faults e goal facts).1 with ⟨err, herr, _⟩ | ⟨o, o', ho, ho', hfaults⟩
  · rw [hprove] at herr
    cases herr
  · refine ⟨o, o', ho, ho', hfaults, ?_⟩
    cbv

end Engine

end Discharge
