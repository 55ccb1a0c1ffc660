import Discharge.Proofs.Engine.Strategies

/-!
# Only given facts are cited

A step lists the facts it used. Whatever is looked up among the known facts comes with one of them,
so that no strategy cites anything else (`Engine.cites_search`). A rule can cite what it likes; the
built-in rules and those made from a test cite known facts only (`Rule.CitesKnown`).
-/

namespace Discharge

/-! ## Bounds and signs -/

namespace Known.Grounded

variable {k : Known} (hk : k.Grounded)
include hk

theorem identical? {p : Expr} {a : Atom} (h : k.identical? p = some a) : a.fact ∈ k.facts :=
  hk a (List.mem_of_find?_eq_some h)

theorem tightest? {bound? : Comparison → Option Bound} {tighter : Bound → Bound → Bool}
    (hfact : ∀ c b, bound? c = some b → b.fact = c.fact) {b : Bound}
    (h : Known.tightest? tighter (k.comparisons.filterMap bound?) = some b) :
    b.fact ∈ k.facts := by
  obtain ⟨c, hc, hcb⟩ := List.mem_filterMap.1 (tightest?_mem b h)
  rw [hfact c b hcb]
  exact hk.comparison hc

theorem lowerBound? {t : Expr} {b : Bound} (h : k.lowerBound? t = some b) : b.fact ∈ k.facts :=
  hk.tightest? (fun _ _ => fact_lowerOf?) h

theorem upperBound? {t : Expr} {b : Bound} (h : k.upperBound? t = some b) : b.fact ∈ k.facts :=
  hk.tightest? (fun _ _ => fact_upperOf?) h

theorem positive? {t : Expr} {fs : List Fact} (h : k.positive? t = some fs) : fs ⊆ k.facts := by
  unfold Known.positive? at h
  split at h
  · split at h <;> cases h
    exact List.nil_subset _
  · obtain ⟨b, hb, h⟩ := Option.bind_eq_some_iff.1 h
    split at h <;> cases h
    exact List.cons_subset.2 ⟨hk.lowerBound? hb, List.nil_subset _⟩

theorem nonNegative? {t : Expr} {fs : List Fact} (h : k.nonNegative? t = some fs) :
    fs ⊆ k.facts := by
  unfold Known.nonNegative? at h
  split at h
  · split at h <;> cases h
    exact List.nil_subset _
  · obtain ⟨b, hb, h⟩ := Option.bind_eq_some_iff.1 h
    split at h <;> cases h
    exact List.cons_subset.2 ⟨hk.lowerBound? hb, List.nil_subset _⟩

end Known.Grounded

/-! ## Linear arithmetic -/

namespace LinearProof

variable {k : Known} (hk : k.Grounded)
include hk

theorem cites_sumOfBounded? {term : Expr} {q : Fraction} {strict : Bool} {reasoned : Reasoned}
    (h : sumOfBounded? term q strict k = some reasoned) : reasoned.2 ⊆ k.facts := by
  unfold sumOfBounded? at h
  dsimp only at h
  split at h
  · cases h
  obtain ⟨used, hused, h⟩ := Option.bind_eq_some_iff.1 h
  split at h <;> cases h
  intro f hf
  obtain ⟨u, hu, hf⟩ := List.mem_flatMap.1 hf
  obtain ⟨s, _, hsu⟩ := forall₂_mem_right (mapM_eq_some.1 hused) u hu
  split at hsu
  · rename_i hpos
    cases hsu
    exact hk.positive? hpos hf
  · obtain ⟨fs, hfs, rfl⟩ := Option.map_eq_some_iff.1 hsu
    exact hk.nonNegative? hfs hf

theorem cites_weakerLower? {term : Expr} {q : Fraction} {strict : Bool} {reasoned : Reasoned}
    (h : weakerLower? term q strict k = some reasoned) : reasoned.2 ⊆ k.facts := by
  obtain ⟨b, hb, h⟩ := Option.bind_eq_some_iff.1 h
  obtain ⟨_, h⟩ := Option.ite_none_right_eq_some.1 h
  cases h
  exact List.cons_subset.2 ⟨hk.lowerBound? hb, List.nil_subset _⟩

theorem cites_weakerUpper? {term : Expr} {q : Fraction} {strict : Bool} {reasoned : Reasoned}
    (h : weakerUpper? term q strict k = some reasoned) : reasoned.2 ⊆ k.facts := by
  obtain ⟨b, hb, h⟩ := Option.bind_eq_some_iff.1 h
  obtain ⟨_, h⟩ := Option.ite_none_right_eq_some.1 h
  cases h
  exact List.cons_subset.2 ⟨hk.upperBound? hb, List.nil_subset _⟩

theorem fact_linearOrdering {c : Comparison} (hc : c ∈ linearOrderings k) : c.fact ∈ k.facts :=
  hk.comparison (List.mem_filter.1 hc).1

theorem cites_chained? {a c : Expr} {strict : Bool} {reasoned : Reasoned}
    (h : chained? a c strict k = some reasoned) : reasoned.2 ⊆ k.facts := by
  simp only [chained?, Option.orElse_eq_orElse, Option.orElse_eq_or] at h
  rcases Option.or_eq_some_iff.1 h with hdirect | ⟨_, htwo⟩
  · obtain ⟨x, hx, hfound⟩ := List.exists_of_findSome?_eq_some hdirect
    split at hfound <;> cases hfound
    exact List.cons_subset.2 ⟨fact_linearOrdering hk hx, List.nil_subset _⟩
  · obtain ⟨first, hfirst, second, hsecond, _, rfl⟩ := Known.findChain?_eq_some htwo
    exact List.cons_subset.2 ⟨fact_linearOrdering hk hfirst,
      List.cons_subset.2 ⟨fact_linearOrdering hk hsecond, List.nil_subset _⟩⟩

theorem cites_shape? {l r : Expr} {strict : Bool} {reasoned : Reasoned}
    (h : shape? l r strict k = some reasoned) : reasoned.2.eraseDups ⊆ k.facts := by
  intro f hf
  replace hf := List.mem_eraseDups.1 hf
  simp only [shape?, Option.orElse_eq_orElse, Option.orElse_eq_or] at h
  rcases Option.or_eq_some_iff.1 h with hbounded | ⟨_, hchain⟩
  · split at hbounded
    · cases hbounded
    · rcases Option.or_eq_some_iff.1 hbounded with hsum | ⟨_, hlower⟩
      · exact cites_sumOfBounded? hk hsum hf
      · exact cites_weakerLower? hk hlower hf
    · exact cites_weakerUpper? hk hbounded hf
    · cases hbounded
  · exact cites_chained? hk hchain hf

theorem cites_byShape (goal : Expr) : (byShape goal k).usedFacts ⊆ k.facts := by
  unfold byShape
  dsimp only
  split
  · exact List.nil_subset _
  split
  · split
    · rename_i hshape
      exact cites_shape? hk hshape
    · exact List.nil_subset _
  · split
    · rename_i hshape
      exact cites_shape? hk hshape
    · exact List.nil_subset _
  · exact List.nil_subset _

theorem cites_byRefutation (goal : Expr) (maxRows : Nat) :
    (byRefutation goal k maxRows).usedFacts ⊆ k.facts := by
  unfold byRefutation
  dsimp only
  split
  · intro f hf
    obtain ⟨⟨d, f⟩, hd, rfl⟩ := List.mem_map.1 (List.mem_eraseDups.1 hf)
    obtain ⟨c, hc, hcd⟩ := List.mem_filterMap.1 hd
    obtain ⟨_, _, hd⟩ := Option.map_eq_some_iff.1 hcd
    cases hd
    exact hk.comparison hc
  · exact List.nil_subset _
  · exact List.nil_subset _

end LinearProof

/-! ## Rules -/

namespace Rule

/-- A match of the rule cites known facts only. -/
def CitesKnown (r : Rule) : Prop :=
  ∀ goal k found, k.Grounded → r.run goal k = .matched found → found.usedFacts ⊆ k.facts

variable {k : Known} {found : RuleMatch}

theorem ofFinder_citesKnown {name description : String} {find? : Expr → Known → Option RuleMatch}
    (h : ∀ goal k found, k.Grounded → find? goal k = some found → found.usedFacts ⊆ k.facts) :
    (ofFinder name description find?).CitesKnown := by
  intro goal k found hk hrun
  exact h goal k found hk (ofFinder_matched.1 hrun)

theorem cites_allPositive? (hk : k.Grounded) {what : String} {terms : List Expr}
    (h : allPositive? what terms k = some found) : found.usedFacts ⊆ k.facts := by
  unfold allPositive? at h
  split at h
  · cases h
  obtain ⟨used, hused, h⟩ := Option.bind_eq_some_iff.1 h
  cases h
  intro f hf
  obtain ⟨fs, hfs, hf⟩ := List.mem_flatten.1 (List.mem_eraseDups.1 hf)
  obtain ⟨t, _, hpos⟩ := forall₂_mem_right (mapM_eq_some.1 hused) fs hfs
  exact hk.positive? hpos hf

theorem cites_chain? (hk : k.Grounded) {goal a c : Expr} {strict : Bool}
    (h : chain? goal a c strict k = some found) : found.usedFacts ⊆ k.facts := by
  obtain ⟨first, hfirst, second, hsecond, _, rfl⟩ := Known.findChain?_eq_some h
  intro f hf
  rcases List.mem_cons.1 (List.mem_eraseDups.1 hf) with rfl | hf
  · exact hk.comparison (List.mem_filter.1 hfirst).1
  · rw [List.mem_singleton.1 hf]
    exact hk.comparison (List.mem_filter.1 hsecond).1

/-- **Built-in rules cite known facts only.** -/
theorem builtin_citesKnown : ∀ r ∈ builtin, r.CitesKnown := by
  simp only [builtin, List.forall_mem_cons]
  refine ⟨ofFinder_citesKnown fun goal k found hk h => ?_,
    ofFinder_citesKnown fun goal k found hk h => ?_,
    ofFinder_citesKnown fun goal k found hk h => ?_,
    ofFinder_citesKnown fun goal k found hk h => ?_,
    ofFinder_citesKnown fun goal k found hk h => ?_, List.forall_mem_nil _⟩
  · -- `identity`
    obtain ⟨a, ha, rfl⟩ := Option.map_eq_some_iff.1 h
    exact List.cons_subset.2 ⟨hk.identical? ha, List.nil_subset _⟩
  · -- `positiveImpliesNonNegative`
    obtain ⟨term, _, h⟩ := Option.bind_eq_some_iff.1 h
    split at h
    · cases h
    obtain ⟨used, hused, h⟩ := Option.bind_eq_some_iff.1 h
    cases h
    exact hk.positive? hused
  · -- `sumOfPositives`
    obtain ⟨term, _, h⟩ := Option.bind_eq_some_iff.1 h
    exact cites_allPositive? hk h
  · -- `productOfPositives`
    obtain ⟨term, _, h⟩ := Option.bind_eq_some_iff.1 h
    exact cites_allPositive? hk h
  · -- `transitivity`
    split at h
    · exact cites_chain? hk h
    · exact cites_chain? hk h
    · cases h

theorem ofTest_citesKnown (name description : String)
    (test : Expr → List Fact → Except RuleFault Bool) :
    (ofTest name description test).CitesKnown := by
  intro goal k found _ h
  unfold ofTest at h
  dsimp only at h
  split at h
  · cases h
    exact fun f hf => List.mem_eraseDups.1 hf
  · cases h
  · cases h

end Rule

/-! ## The engine -/

namespace Engine

variable {e : Engine} {goal : Expr} {k : Known}

theorem cites_support? (hk : k.Grounded) {p : Expr} {s : Fact × Option (List Edge)}
    (h : e.support? k p = some s) : s.1 ∈ k.facts := by
  unfold support? at h
  split at h
  · rename_i a ha
    cases h
    exact hk.identical? ha
  · obtain ⟨f, hf, hpath⟩ := List.exists_of_findSome?_eq_some h
    obtain ⟨path, _, rfl⟩ := Option.map_eq_some_iff.1 hpath
    exact hf

theorem cites_byValue? {a : Attempt} (h : byValue? goal = some a) {s : Step} (hs : s ∈ a.steps) :
    s.usedFacts = [] := by
  unfold byValue? at h
  dsimp only at h
  split at h
  · cases h
  · split at h <;> cases h <;> rw [List.mem_singleton.1 hs]

theorem cites_runSolver {s : Step} (hs : s ∈ (e.runSolver goal k).1) : s.usedFacts ⊆ k.facts := by
  unfold runSolver at hs
  split at hs
  · cases hs
  · dsimp only at hs
    split at hs
    · rw [List.mem_singleton.1 hs]
      unfold verdictStep
      split
      · exact List.Subset.refl _
      · exact List.nil_subset _
      · exact List.nil_subset _
    · rw [List.mem_singleton.1 hs]
      exact List.nil_subset _

theorem mem_steps_byProcedure {s : Step} (hs : s ∈ (e.byProcedure goal k).steps) :
    s ∈ (e.runRules goal k).1 ∨ s ∈ e.runLinear goal k ∨ s ∈ (e.runSolver goal k).1 := by
  unfold byProcedure at hs
  dsimp only at hs
  split at hs
  · exact .inl hs
  split at hs
  · rcases List.mem_append.1 hs with hs | hs
    · exact .inl hs
    · exact .inr (.inl hs)
  · rcases List.mem_append.1 hs with hs | hs
    · rcases List.mem_append.1 hs with hs | hs
      · exact .inl hs
      · exact .inr (.inl hs)
    · exact .inr (.inr hs)

/-- A step of a search splits the goal, or is one of the search for the goal or for one of its
conjuncts, with another description perhaps. -/
theorem mem_steps_search {s : Step} (hs : s ∈ (e.search goal k).steps) :
    (∃ unproven, s = splitStep goal.conjuncts unproven) ∨
      ∃ p, (p = goal ∨ p ∈ goal.conjuncts) ∧ ∃ step ∈ (e.searchWhole p k).steps,
        s.usedFacts = step.usedFacts ∧ s.subgoals = step.subgoals := by
  rw [search_eq] at hs
  split at hs
  · rcases List.mem_append.1 hs with hs | hs
    · exact .inr ⟨goal, .inl rfl, s, hs, rfl, rfl⟩
    rcases List.mem_cons.1 hs with rfl | hs
    · exact .inl ⟨_, rfl⟩
    · obtain ⟨part, hpart, hs⟩ := List.mem_flatMap.1 hs
      obtain ⟨p, hp, rfl⟩ := List.mem_map.1 hpart
      obtain ⟨step, hstep, rfl⟩ := List.mem_map.1 hs
      exact .inr ⟨p, .inr hp, step, hstep, rfl, rfl⟩
  · exact .inr ⟨goal, .inl rfl, s, hs, rfl, rfl⟩

section

variable (hk : k.Grounded) (hrules : ∀ r ∈ e.registry.rules, r.CitesKnown)
include hk hrules

theorem cites_byProcedure {s : Step} (hs : s ∈ (e.byProcedure goal k).steps) :
    s.usedFacts ⊆ k.facts := by
  rcases mem_steps_byProcedure hs with hs | hs | hs
  · obtain ⟨⟨r, o⟩, ho, rfl⟩ := List.mem_map.1 hs
    obtain ⟨r, hr, ⟨⟩⟩ := List.mem_map.1 ho
    dsimp only
    cases hrun : r.run goal k with
    | matched found => exact hrules r hr goal k found hk hrun
    | declined => exact List.nil_subset _
    | faulted fault => exact List.nil_subset _
  · rcases mem_runLinear_iff.1 hs with ⟨_, rfl⟩ | ⟨_, _, rfl⟩
    · exact LinearProof.cites_byShape hk goal
    · exact LinearProof.cites_byRefutation hk goal e.config.maxRows
  · exact cites_runSolver hs

theorem cites_searchWhole {s : Step} (hs : s ∈ (e.searchWhole goal k).steps) :
    s.usedFacts ⊆ k.facts := by
  cases hvalue : byValue? goal with
  | some a =>
    rw [searchWhole, hvalue] at hs
    rw [cites_byValue? hvalue hs]
    exact List.nil_subset _
  | none =>
    cases hsupports : goal.conjuncts.mapM (e.support? k) with
    | some supports =>
      obtain ⟨step, hwhole, _, _, hused⟩ := searchWhole_of_supports hvalue hsupports
      rw [hwhole] at hs
      rw [List.mem_singleton.1 hs, hused]
      intro f hf
      obtain ⟨t, ht, rfl⟩ := List.mem_map.1 (List.mem_eraseDups.1 hf)
      obtain ⟨p, _, hp⟩ := forall₂_mem_right (mapM_eq_some.1 hsupports) t ht
      exact cites_support? hk hp
    | none =>
      rw [searchWhole_of_no_supports hvalue hsupports] at hs
      exact cites_byProcedure hk hrules hs

/-- **Every fact that a step cites is known**, if the rules cite known facts only. -/
theorem cites_search {s : Step} (hs : s ∈ (e.search goal k).steps) : s.usedFacts ⊆ k.facts := by
  rcases mem_steps_search hs with ⟨unproven, rfl⟩ | ⟨p, _, step, hstep, hused, _⟩
  · exact List.nil_subset _
  · rw [hused]
    exact cites_searchWhole hk hrules hstep

end

end Engine

end Discharge
