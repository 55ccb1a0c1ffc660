import Discharge.Proofs.Brand.Printable
import Discharge.Proofs.Engine.Citations

/-!
# The subgoals of a proof

A step lists the conditions it established on the way. There are two sources of them: a conjunction
that is split lists its conjuncts, and a rule that matches lists what it likes
(`Engine.subgoals_search`). The built-in rules and those made from a test list parts of the goal and
comparisons among the facts, which are printable where the goal and the facts are
(`Rule.ReportsPrintable`).
-/

namespace Discharge

/-! ## What the facts state -/

theorem Expr.isBoolean_instantiate (e : Expr) (x : String) :
    (e.instantiate x).isBoolean = e.isBoolean := by
  unfold instantiate
  induction e with
  | var y =>
    rw [substitute]
    split <;> rfl
  | branded y b =>
    rw [substitute]
    split <;> rfl
  | and l r ihl ihr => exact congrArg₂ (· && ·) ihl ihr
  | or l r ihl ihr => exact congrArg₂ (· && ·) ihl ihr
  | not e ih => exact ih
  | _ => rfl

namespace Known

variable {k : Known}

/-- Every condition that the facts state is printable. -/
def Printable (k : Known) : Prop := ∀ a ∈ k.atoms, a.condition.Printable

theorem printable_ofFacts {c : Catalog} (hc : c.Printable) {facts : List Fact}
    (hpredicate : ∀ f ∈ facts, f.predicate.Printable ∧ f.predicate.isBoolean = true)
    (hname : ∀ f ∈ facts, Expr.Ordinary f.variableName) : (ofFacts c facts).Printable := by
  intro a ha
  obtain ⟨hf, hp⟩ := states_ofFacts.1 ⟨a, ha, rfl, rfl⟩
  obtain ⟨p, hp, heq⟩ := List.mem_map.1 hp
  obtain ⟨hprintable, hbool⟩ := hpredicate _ hf
  rw [← heq]
  refine (Expr.Printable.conjuncts ?_ p hp).canonical
  refine c.printable_expand hc (hprintable.instantiate (hname _ hf)) ?_
  rw [Fact.resolved, Expr.isBoolean_instantiate, hbool]

theorem Printable.comparison (hk : k.Printable) {c : Comparison} (hc : c ∈ k.comparisons) :
    (Expr.compare c.op c.left c.right).Printable := by
  obtain ⟨a, ha, hac⟩ := List.mem_filterMap.1 hc
  have hprintable := hk a ha
  unfold comparisonOf? at hac
  split at hac
  · rename_i hcondition
    cases hac
    rwa [hcondition] at hprintable
  · cases hac

end Known

/-! ## Rules -/

namespace Rule

/-- A match of the rule lists printable subgoals, where the goal and the facts are printable. -/
def ReportsPrintable (r : Rule) : Prop :=
  ∀ goal k found, goal.Printable → k.Printable → r.run goal k = .matched found →
    ∀ p ∈ found.subgoals, p.Printable

variable {goal term : Expr} {k : Known} {found : RuleMatch}

theorem ofFinder_reportsPrintable {name description : String}
    {find? : Expr → Known → Option RuleMatch}
    (h : ∀ goal k found, goal.Printable → k.Printable → find? goal k = some found →
      ∀ p ∈ found.subgoals, p.Printable) : (ofFinder name description find?).ReportsPrintable := by
  intro goal k found hgoal hk hrun
  exact h goal k found hgoal hk (ofFinder_matched.1 hrun)

theorem printable_comparedWithZero? {o : CompareOp} (hgoal : goal.Printable)
    (h : comparedWithZero? o goal = some term) : term.Printable := by
  unfold comparedWithZero? at h
  split at h
  · split at h <;> cases h
    cases hgoal with
    | compare hl _ => exact hl
  · cases h

theorem printable_positiveGoal (h : term.Printable) : (positiveGoal term).Printable :=
  .compare h (.num ⟨0, 0, by decide, by decide, rfl⟩)

theorem printable_allPositive? {what : String} {terms : List Expr}
    (hterms : ∀ t ∈ terms, t.Printable) (h : allPositive? what terms k = some found) :
    ∀ p ∈ found.subgoals, p.Printable := by
  unfold allPositive? at h
  split at h
  · cases h
  obtain ⟨used, _, h⟩ := Option.bind_eq_some_iff.1 h
  cases h
  exact List.forall_mem_map.2 fun t ht => printable_positiveGoal (hterms t ht)

theorem printable_chain? (hk : k.Printable) {a c : Expr} {strict : Bool}
    (h : chain? goal a c strict k = some found) : ∀ p ∈ found.subgoals, p.Printable := by
  obtain ⟨first, hfirst, second, hsecond, _, rfl⟩ := Known.findChain?_eq_some h
  exact List.forall_mem_cons.2 ⟨hk.comparison (List.mem_filter.1 hfirst).1,
    List.forall_mem_singleton.2 (hk.comparison (List.mem_filter.1 hsecond).1)⟩

theorem builtin_reportsPrintable : ∀ r ∈ builtin, r.ReportsPrintable := by
  simp only [builtin, List.forall_mem_cons]
  refine ⟨ofFinder_reportsPrintable fun goal k found hgoal hk h => ?_,
    ofFinder_reportsPrintable fun goal k found hgoal hk h => ?_,
    ofFinder_reportsPrintable fun goal k found hgoal hk h => ?_,
    ofFinder_reportsPrintable fun goal k found hgoal hk h => ?_,
    ofFinder_reportsPrintable fun goal k found hgoal hk h => ?_, List.forall_mem_nil _⟩
  · -- `identity`
    obtain ⟨a, _, rfl⟩ := Option.map_eq_some_iff.1 h
    exact List.forall_mem_nil _
  · -- `positiveImpliesNonNegative`
    obtain ⟨term, hterm, h⟩ := Option.bind_eq_some_iff.1 h
    split at h
    · cases h
    obtain ⟨used, _, h⟩ := Option.bind_eq_some_iff.1 h
    cases h
    exact List.forall_mem_singleton.2
      (printable_positiveGoal (printable_comparedWithZero? hgoal hterm))
  · -- `sumOfPositives`
    obtain ⟨term, hterm, h⟩ := Option.bind_eq_some_iff.1 h
    exact printable_allPositive? ((printable_comparedWithZero? hgoal hterm).operands .add) h
  · -- `productOfPositives`
    obtain ⟨term, hterm, h⟩ := Option.bind_eq_some_iff.1 h
    exact printable_allPositive? ((printable_comparedWithZero? hgoal hterm).operands .mul) h
  · -- `transitivity`
    split at h
    · exact printable_chain? hk h
    · exact printable_chain? hk h
    · cases h

theorem mem_register {r s : Rule} {rules : List Rule} (h : s ∈ r.register rules) :
    s = r ∨ s ∈ rules := by
  unfold register at h
  split at h
  · obtain ⟨t, ht, hs⟩ := List.mem_map.1 h
    split at hs
    · exact .inl hs.symm
    · exact .inr (hs ▸ ht)
  · exact (List.mem_append.1 h).symm.imp_left List.mem_singleton.1

theorem ofTest_reportsPrintable (name description : String)
    (test : Expr → List Fact → Except RuleFault Bool) :
    (ofTest name description test).ReportsPrintable := by
  intro goal k found _ _ h
  unfold ofTest at h
  dsimp only at h
  split at h
  · cases h
    exact List.forall_mem_nil _
  · cases h
  · cases h

end Rule

/-! ## The engine -/

namespace Engine

variable {e : Engine} {goal : Expr} {k : Known} {s : Step}

/-- The step lists what a rule reports that matches the goal. -/
def ListsMatch (e : Engine) (goal : Expr) (k : Known) (s : Step) : Prop :=
  ∃ r ∈ e.registry.rules, ∃ found, r.run goal k = .matched found ∧ s.subgoals = found.subgoals

theorem subgoals_byProcedure (hs : s ∈ (e.byProcedure goal k).steps) :
    s.subgoals = [] ∨ e.ListsMatch goal k s := by
  rcases mem_steps_byProcedure hs with hs | hs | hs
  · obtain ⟨⟨r, o⟩, ho, rfl⟩ := List.mem_map.1 hs
    obtain ⟨r, hr, ⟨⟩⟩ := List.mem_map.1 ho
    dsimp only
    cases hrun : r.run goal k with
    | matched found => exact .inr ⟨r, hr, found, hrun, rfl⟩
    | declined => exact .inl rfl
    | faulted fault => exact .inl rfl
  · rcases mem_runLinear_iff.1 hs with ⟨_, rfl⟩ | ⟨_, _, rfl⟩
    · exact .inl rfl
    · exact .inl rfl
  · unfold runSolver at hs
    split at hs
    · cases hs
    dsimp only at hs
    split at hs
    · rw [List.mem_singleton.1 hs]
      unfold verdictStep
      split <;> exact .inl rfl
    · rw [List.mem_singleton.1 hs]
      exact .inl rfl

theorem subgoals_searchWhole (hs : s ∈ (e.searchWhole goal k).steps) :
    s.subgoals = [] ∨ e.ListsMatch goal k s := by
  unfold searchWhole at hs
  split at hs
  · rename_i a ha
    unfold byValue? at ha
    dsimp only at ha
    split at ha
    · cases ha
    · split at ha <;> cases ha <;> rw [List.mem_singleton.1 hs] <;> exact .inl rfl
  split at hs
  · rename_i a ha
    obtain ⟨used, _, ha⟩ := Option.bind_eq_some_iff.1 ha
    cases ha
    rw [List.mem_singleton.1 hs]
    exact .inl rfl
  split at hs
  · rename_i a ha
    obtain ⟨used, _, ha⟩ := Option.bind_eq_some_iff.1 ha
    cases ha
    rw [List.mem_singleton.1 hs]
    exact .inl rfl
  · exact subgoals_byProcedure hs

/-- **Where subgoals come from**: from a split of the goal, or from a rule that matches the goal or
one of its conjuncts. -/
theorem subgoals_search (hs : s ∈ (e.search goal k).steps) :
    s.subgoals = [] ∨ s.subgoals = goal.conjuncts ∨
      ∃ p, (p = goal ∨ p ∈ goal.conjuncts) ∧ e.ListsMatch p k s := by
  rcases mem_steps_search hs with ⟨unproven, rfl⟩ | ⟨p, hp, step, hstep, _, heq⟩
  · exact .inr (.inl rfl)
  · rcases subgoals_searchWhole hstep with hnil | ⟨r, hr, found, hrun, hfound⟩
    · exact .inl (heq.trans hnil)
    · exact .inr (.inr ⟨p, hp, r, hr, found, hrun, heq.trans hfound⟩)

/-- The subgoals of a printable goal are printable, if the rules report such subgoals. -/
theorem printable_subgoals_search (hrules : ∀ r ∈ e.registry.rules, r.ReportsPrintable)
    (hgoal : goal.Printable) (hk : k.Printable) (hs : s ∈ (e.search goal k).steps) :
    ∀ p ∈ s.subgoals, p.Printable := by
  rcases subgoals_search hs with hnil | hparts | ⟨p, hp, r, hr, found, hrun, hfound⟩
  · rw [hnil]
    exact List.forall_mem_nil _
  · rw [hparts]
    exact hgoal.conjuncts
  · rw [hfound]
    refine hrules r hr p k found ?_ hk hrun
    rcases hp with rfl | hp
    · exact hgoal
    · exact hgoal.conjuncts p hp

end Engine

end Discharge
