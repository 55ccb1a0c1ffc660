import Discharge.Proofs.Engine.Strategies
import Mathlib

/-!
# Proofs can be replayed from the facts they cite

A certificate names the facts that its steps used. Where all rules are built-in or tests, and no
solver is asked, these are enough: the same goal is proved again from the cited facts alone
(`Engine.prove_cited`), though perhaps by another strategy. This is so for the goal as a whole,
since one of its steps cites all that the proof rests on, and for a conjunction that is proved in
parts, since the steps of the parts are among its own.
-/

namespace Discharge

/-- The step proved something, and used the fact for it. -/
def Step.cites (s : Step) (f : Fact) : Bool := s.status == .proved && s.usedFacts.contains f

/-- Some step that proved something used the fact. -/
def Certificate.cites (c : Certificate) (f : Fact) : Bool := c.steps.any (·.cites f)

theorem Step.cites_of_mem {s : Step} (hs : s.status = .proved) {f : Fact} (hf : f ∈ s.usedFacts) :
    s.cites f = true := by
  simp [cites, hs, hf]

/-- The rule is built in, or made from a test. -/
def Rule.Plain (r : Rule) : Prop :=
  r ∈ Rule.builtin ∨ ∃ name description test, r = Rule.ofTest name description test

namespace Engine

variable {e : Engine} {goal : Expr} {facts : List Fact} {cited : Fact → Bool}

/-- A match of a plain rule stands when all facts that it cites are kept. -/
theorem matched_filter {c : Catalog} {r : Rule} (hr : r.Plain) {found : RuleMatch}
    (h : r.run goal (.ofFacts c facts) = .matched found)
    (hk : (Known.ofFacts c (facts.filter cited)).Retains (.ofFacts c facts) found.usedFacts) :
    ∃ found', r.run goal (.ofFacts c (facts.filter cited)) = .matched found' := by
  rcases hr with hbuiltin | ⟨name, description, test, rfl⟩
  · exact Rule.builtin_local r hbuiltin goal _ _ found h hk
  · -- A test cites every fact, so that none has been dropped.
    have hsame : facts.filter cited = facts := List.filter_eq_self.2 fun f hf =>
      (List.mem_filter.1 (hk.mem f (Rule.ofTest_cites h f hf) hf)).2
    exact ⟨found, (Rule.ofTest_congr hsame).trans h⟩

/-- A refutation stands when all facts that it cites are kept, since the others state nothing
linear. -/
theorem byRefutation_filter {c : Catalog} {maxRows : Nat}
    (h : (LinearProof.byRefutation goal (.ofFacts c facts) maxRows).proven = true)
    (hk : (Known.ofFacts c (facts.filter cited)).Retains (.ofFacts c facts)
      (LinearProof.byRefutation goal (.ofFacts c facts) maxRows).usedFacts) :
    (LinearProof.byRefutation goal (.ofFacts c (facts.filter cited)) maxRows).proven = true := by
  have hsame : ∀ d, d ∈ LinearProof.assumed (.ofFacts c facts) ↔
      d ∈ LinearProof.assumed (.ofFacts c (facts.filter cited)) := fun d =>
    ⟨LinearProof.mem_assumed_of_retains hk (fun _ => LinearProof.byRefutation_cites h) d,
      LinearProof.assumed_mono (fun _ hf => (List.mem_filter.1 hf).1) d⟩
  rw [LinearProof.proven, ← LinearProof.byRefutation_congr hsame]
  exact h

section

variable (hrules : ∀ r ∈ e.registry.rules, r.Plain) (hsolver : e.solver = none)
include hrules hsolver

/-- A goal that is proven as a whole is proven from the facts that the steps cite. -/
theorem isProven_searchWhole_filter {c : Catalog}
    (h : (e.searchWhole goal (.ofFacts c facts)).isProven = true)
    (hcited : ∀ s ∈ (e.searchWhole goal (.ofFacts c facts)).steps, ∀ f,
      s.cites f = true → cited f = true) :
    (e.searchWhole goal (.ofFacts c (facts.filter cited))).isProven = true := by
  cases hvalue : byValue? goal with
  | some a =>
    rw [searchWhole, hvalue] at h ⊢
    exact h
  | none =>
    -- The step that proves the goal cites all that its proof rests on, so none of it is dropped.
    obtain ⟨s, hs, hproved, m, hm⟩ := exists_step_of_isProven hsolver hvalue h
    have hk : (Known.ofFacts c (facts.filter cited)).Retains (.ofFacts c facts) s.usedFacts :=
      Known.retains_ofFacts fun f hf hmem =>
        List.mem_filter.2 ⟨hmem, hcited s hs f (Step.cites_of_mem hproved hf)⟩
    obtain ⟨fs, hfs⟩ := hm.retained hk (fun r hr _ => matched_filter (hrules r hr))
      fun _ => byRefutation_filter
    exact (isProven_searchWhole_iff hsolver hvalue).2 ⟨m, fs, hfs⟩

theorem isProven_search_filter {c : Catalog}
    (h : (e.search goal (.ofFacts c facts)).isProven = true)
    (hcited : ∀ s ∈ (e.search goal (.ofFacts c facts)).steps, ∀ f,
      s.cites f = true → cited f = true) :
    (e.search goal (.ofFacts c (facts.filter cited))).isProven = true := by
  rw [search_eq] at h hcited ⊢
  split
  · -- The goal is split: either it was before, or it was proven as a whole and is again.
    rename_i hsplit
    obtain ⟨hvalue, hconj, hunproven⟩ := hsplit
    rw [isProven_searchParts_iff]
    intro p hp
    split at h
    · rename_i hsplit
      rw [if_pos hsplit] at hcited
      refine isProven_searchWhole_filter hrules hsolver (isProven_searchParts_iff.1 h p hp) ?_
      intro s hs f hf
      exact hcited _ (mem_steps_searchParts hp hs) f hf
    · rename_i hsplit
      rw [if_neg hsplit] at hcited
      rw [isProven_searchWhole_filter hrules hsolver h hcited] at hunproven
      cases hunproven
  · rename_i hwhole
    split at h
    · rename_i hsplit
      by_contra hunproven
      exact hwhole ⟨hsplit.1, hsplit.2.1, Bool.eq_false_iff.2 hunproven⟩
    · rename_i hsplit
      rw [if_neg hsplit] at hcited
      exact isProven_searchWhole_filter hrules hsolver h hcited

end

/-- **Proofs can be replayed from the facts they cite**: with built-in rules and tests, and no
solver, a goal that is proven from facts is proven from those that the certificate cites. -/
theorem prove_cited (registry : Registry) (config : Config)
    (hrules : ∀ r ∈ registry.rules, r.Plain) (goal : Goal) (facts : List Fact)
    (outcome : ProofOutcome) (h : Engine.prove ⟨registry, config, none⟩ goal facts = .ok outcome)
    (hproven : outcome.isProven = true) :
    ∃ outcome', Engine.prove ⟨registry, config, none⟩ goal
        (facts.filter outcome.certificate.cites) = .ok outcome' ∧ outcome'.isProven = true := by
  obtain ⟨hgoal, hfacts, rfl⟩ := (prove_eq_ok goal facts).1 h
  have hvalid : ∀ cited : Fact → Bool, (facts.filter cited).forM validateFact = .ok () :=
    fun cited => forM_ok fun f hf => forM_eq_ok hfacts f (List.mem_filter.1 hf).1
  refine ⟨_, (prove_eq_ok goal _).2 ⟨hgoal, hvalid _, rfl⟩, ?_⟩
  rw [isProven_conclude] at hproven ⊢
  refine isProven_search_filter hrules rfl hproven fun s hs f hf => ?_
  rw [Certificate.cites, steps_conclude]
  exact List.any_eq_true.2 ⟨s, hs, hf⟩

/-- A conjunction that is proved in parts, beside a rule that is a test and a fact on `w` that is not
needed. -/
theorem prove_cited_sum :
    let never : Rule := .ofTest "never" "no goal at all" fun _ _ => .ok false
    let registry : Registry := { Registry.empty 0 with rules := Rule.builtin ++ [never] }
    let e : Engine := ⟨registry, { fourierMotzkin := false }, none⟩
    let positive (x : String) : Fact := ⟨x, .compare .gt (.var x) (.num .zero)⟩
    let sum : Expr := .compare .ge (.arith .add (.var "x") (.var "y")) (.num .zero)
    let goal : Goal := ⟨.and sum (positive "z").predicate, none⟩
    let facts := ["x", "y", "z", "w"].map positive
    let cited := ["x", "y", "z"].map positive
    ∃ outcome outcome', (∀ r ∈ registry.rules, r.Plain) ∧
      e.prove goal facts = .ok outcome ∧ outcome.isProven = true ∧
      facts.filter outcome.certificate.cites = cited ∧
      e.prove goal cited = .ok outcome' ∧ outcome'.isProven = true := by
  intro never registry e positive sum goal facts cited
  have hrules : ∀ r ∈ registry.rules, r.Plain := by
    intro r hr
    rcases List.mem_append.1 hr with hr | hr
    · exact .inl hr
    · exact .inr ⟨_, _, _, List.mem_singleton.1 hr⟩
  let attempt := e.search (e.registry.brands.expand goal.condition).canonical
    (.ofFacts e.registry.brands facts)
  have hprove : e.prove goal facts = .ok (e.conclude goal facts attempt) :=
    (prove_eq_ok goal facts).2 ⟨by cbv, by cbv, rfl⟩
  have hproven : (e.conclude goal facts attempt).isProven = true := by
    rw [isProven_conclude]
    cbv
  have hcited : facts.filter (e.conclude goal facts attempt).certificate.cites = cited := by
    unfold Certificate.cites
    rw [steps_conclude]
    cbv
  obtain ⟨outcome', hreplay, hproven'⟩ := prove_cited registry { fourierMotzkin := false } hrules
    goal facts _ hprove hproven
  rw [hcited] at hreplay
  exact ⟨_, outcome', hrules, hprove, hproven, hcited, hreplay, hproven'⟩

end Engine

end Discharge
