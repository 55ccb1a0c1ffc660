import Discharge.Proofs.Engine.Widening
import Discharge.Proofs.Linear.Soundness
import Discharge.Proofs.Rule.Soundness

/-!
# The engine is sound

A goal that the engine proves without a solver is not false wherever the facts are true. Each
strategy is shown to keep to this, on a canonical goal and the canonical conditions that the facts
state, and the search hands it on from the conjuncts to the goal. For the built-in registry this
gives the main result (`Engine.prove_sound`): if the facts are true and the goal has a truth value,
it is true.
-/

namespace Discharge

variable {ρ : Lookup ℚ} {known : Known} {goal : Expr}

/-- What a registry has to guarantee: sound rules, brands with plain predicates over names, and
edges that are valid. -/
structure Registry.SoundAt (ρ : Lookup ℚ) (r : Registry) : Prop where
  rules : ∀ rule ∈ r.rules, rule.Sound
  sorted : r.brands.brands.Sorted
  unbranded : ∀ p ∈ r.brands.brands, p.2.Unbranded
  named : ∀ p ∈ r.brands.brands, p.2.Named
  edges : ∀ d ∈ r.widening, ∀ x,
    r.brands.Holds .rational ρ d.source x → r.brands.Holds .rational ρ d.target x

/-- The built-in registry is sound everywhere. -/
theorem Registry.builtin_soundAt (token : Nat) (ρ : Lookup ℚ) : (builtin token).SoundAt ρ where
  rules := Rule.builtin_sound
  sorted := Catalog.builtin_brands_spec.1
  unbranded := Catalog.unbranded_builtin
  named := Catalog.named_builtin
  edges := fun _ hd _ => WideningGraph.builtin_valid hd

/-- What a fact says, with its brands replaced, is true. -/
def Fact.TrueAt (c : Catalog) (ρ : Lookup ℚ) (f : Fact) : Prop :=
  (c.expand f.resolved).evalIn .rational ρ = some (.bool true)

/-- The facts, and so the conditions they state, are true and about variables. -/
structure Known.Established (c : Catalog) (ρ : Lookup ℚ) (k : Known) : Prop where
  named : k.Named
  trueAt : k.TrueAt ρ
  facts : ∀ f ∈ k.facts, f.TrueAt c ρ

theorem Attempt.isProven_iff {a : Attempt} :
    a.isProven = true ↔ ∃ method, a.verdict = .proven method := by
  unfold isProven
  cases a.verdict <;> simp

/-! ## The conditions that facts state -/

namespace Known

variable {c : Catalog} {facts : List Fact}

theorem mem_ofFacts {a : Atom} (h : a ∈ (ofFacts c facts).atoms) :
    ∃ f ∈ facts, ∃ p ∈ (c.expand f.resolved).conjuncts, a.condition = p.canonical := by
  obtain ⟨⟨f, i⟩, hf, ha⟩ := List.mem_flatMap.1 h
  obtain ⟨e, he, rfl⟩ := List.mem_map.1 ha
  obtain ⟨p, hp, rfl⟩ := List.mem_map.1 he
  exact ⟨f, List.fst_mem_of_mem_zipIdx hf, p, hp, rfl⟩

theorem trueAt_ofFacts (h : ∀ f ∈ facts, f.TrueAt c ρ) : (ofFacts c facts).TrueAt ρ := by
  intro a ha
  obtain ⟨f, hf, p, hp, hcond⟩ := mem_ofFacts ha
  rw [hcond]
  exact Expr.evalIn_conjuncts_canonical
    (Expr.evalIn_canonical Arithmetic.rational_lawful (h f hf)) p hp

theorem named_ofFacts (hc : ∀ p ∈ c.brands, p.2.Named)
    (h : ∀ f ∈ facts, f.predicate.Named ∧ Expr.isName f.variableName = true) :
    (ofFacts c facts).Named := by
  intro a ha
  obtain ⟨f, hf, p, hp, hcond⟩ := mem_ofFacts ha
  obtain ⟨hpredicate, hname⟩ := h f hf
  rw [hcond]
  have hresolved : f.resolved.Named := Expr.named_instantiate hpredicate hname
  exact Expr.named_canonical (Expr.named_conjuncts (Catalog.named_expand hc hresolved) p hp)

end Known

namespace Engine

variable {e : Engine}

/-! ## Evaluation and identity -/

theorem byValue?_sound {a : Attempt} (h : byValue? goal = some a) (ha : a.isProven = true) :
    goal.NotFalse ρ := by
  unfold byValue? at h
  dsimp only at h
  split at h
  · cases h
  split at h
  · rename_i hv
    exact Expr.notFalse_of_true (Expr.eval?_evalIn_rational (fun h => by cases h) hv)
  · cases h
    cases ha
  · cases h

theorem byIdentity?_sound (hk : known.TrueAt ρ) {a : Attempt}
    (h : byIdentity? goal known = some a) : goal.NotFalse ρ := by
  obtain ⟨used, hused, _⟩ := Option.bind_eq_some_iff.1 h
  obtain ⟨atoms, hatoms, _⟩ := Option.bind_eq_some_iff.1 hused
  refine Expr.notFalse_of_conjuncts fun p hp => ?_
  obtain ⟨a, _, ha⟩ := forall₂_mem_left (mapM_eq_some.1 hatoms) p hp
  exact Expr.notFalse_of_true (hk.identical ha)

/-! ## Widening -/

section

variable (hr : e.registry.SoundAt ρ) (hk : known.Established e.registry.brands ρ)
include hr

theorem pathTo?_sound {f : Fact} (hf : f.TrueAt e.registry.brands ρ) {condition : Expr}
    {path : List Edge} (h : e.pathTo? condition f = some path) :
    condition.evalIn .rational ρ = some (.bool true) :=
  pathTo?_holds Arithmetic.rational_lawful hr.sorted hr.unbranded
    (fun d hd _ _ x => hr.edges d hd x) hf h

include hk

theorem support?_sound {condition : Expr} {s : Fact × Option (List Edge)}
    (h : e.support? known condition = some s) :
    condition.evalIn .rational ρ = some (.bool true) := by
  unfold support? at h
  split at h
  · rename_i hid
    exact hk.trueAt.identical hid
  · obtain ⟨f, hf, hpath⟩ := List.exists_of_findSome?_eq_some h
    obtain ⟨path, hpath, _⟩ := Option.map_eq_some_iff.1 hpath
    exact pathTo?_sound hr (hk.facts f hf) hpath

theorem byWidening?_sound {a : Attempt} (h : e.byWidening? goal known = some a) :
    goal.NotFalse ρ := by
  obtain ⟨_, hused, _⟩ := Option.bind_eq_some_iff.1 h
  obtain ⟨supports, hsupports, _⟩ := Option.bind_eq_some_iff.1 hused
  refine Expr.notFalse_of_conjuncts fun p hp => ?_
  obtain ⟨s, _, hs⟩ := forall₂_mem_left (mapM_eq_some.1 hsupports) p hp
  exact Expr.notFalse_of_true (support?_sound hr hk hs)

/-! ## Rules and linear arithmetic -/

theorem runRules_sound (h : anyProved (e.runRules goal known).1 = true) : goal.NotFalse ρ := by
  obtain ⟨step, hstep, hproved⟩ := List.any_eq_true.1 h
  obtain ⟨⟨r, o⟩, ho, rfl⟩ := List.mem_map.1 hstep
  obtain ⟨r, hrule, ⟨⟩⟩ := List.mem_map.1 ho
  cases hrun : r.run goal known with
  | matched found => exact hr.rules r hrule goal known found hrun ρ hk.trueAt
  | declined => simp [hrun, ruleStep] at hproved
  | faulted fault => simp [hrun, ruleStep] at hproved

omit hr hk in
/-- A step of linear arithmetic is by shape or by refutation. -/
theorem mem_runLinear {s : Step} (h : s ∈ e.runLinear goal known) :
    s.status = (LinearProof.byShape goal known).status ∨
      s.status = (LinearProof.byRefutation goal known e.config.maxRows).status := by
  unfold runLinear at h
  grind [LinearProof.toStep]

omit hr in
theorem runLinear_sound (hgoal : goal.Named) (h : anyProved (e.runLinear goal known) = true) :
    goal.NotFalse ρ := by
  obtain ⟨step, hstep, hproved⟩ := List.any_eq_true.1 h
  rcases mem_runLinear hstep with hs | hs <;> rw [hs] at hproved
  · exact LinearProof.notFalse_of_byShape hgoal hk.named hproved hk.trueAt
  · exact LinearProof.notFalse_of_byRefutation hgoal hk.named hproved hk.trueAt

/-! ## The search -/

variable (hsolver : e.solver = none)
include hsolver

theorem byProcedure_sound (hgoal : goal.Named)
    (h : (e.byProcedure goal known).isProven = true) : goal.NotFalse ρ := by
  unfold byProcedure at h
  dsimp only at h
  split at h
  · rename_i hrules
    exact runRules_sound hr hk hrules
  split at h
  · rename_i hlinear
    exact runLinear_sound hk hgoal hlinear
  · simp [runSolver, hsolver, anyProved, Attempt.isProven] at h

theorem searchWhole_sound (hgoal : goal.Named)
    (h : (e.searchWhole goal known).isProven = true) : goal.NotFalse ρ := by
  unfold searchWhole at h
  split at h
  · rename_i hvalue
    exact byValue?_sound hvalue h
  split at h
  · rename_i hidentity
    exact byIdentity?_sound hk.trueAt hidentity
  split at h
  · rename_i hwidening
    exact byWidening?_sound hr hk hwidening
  · exact byProcedure_sound hr hk hsolver hgoal h

omit hr hk hsolver in
/-- A goal that is proven in parts has all of its conjuncts proven. -/
theorem isProven_searchParts {whole : Attempt}
    (h : (e.searchParts goal known whole).isProven = true) :
    ∀ p ∈ goal.conjuncts, (e.searchWhole p known).isProven = true := by
  intro p hp
  by_contra hunproven
  obtain ⟨method, hverdict⟩ := Attempt.isProven_iff.1 h
  have hmem : (p, e.searchWhole p known) ∈ (goal.conjuncts.map fun p =>
      (p, e.searchWhole p known)).filter fun part => !part.2.isProven := by
    simpa [hp] using hunproven
  unfold searchParts at hverdict
  dsimp only at hverdict
  rw [if_neg (by simpa using List.ne_nil_of_mem hmem)] at hverdict
  split at hverdict <;> cases hverdict

theorem searchParts_sound (hgoal : goal.Named) {whole : Attempt}
    (h : (e.searchParts goal known whole).isProven = true) : goal.NotFalse ρ := by
  refine Expr.notFalse_of_conjuncts fun p hp => ?_
  exact searchWhole_sound hr hk hsolver (Expr.named_conjuncts hgoal p hp)
    (isProven_searchParts h p hp)

/-- **The search is sound**: a goal that it proves is not false where the facts are true. -/
theorem search_sound (hgoal : goal.Named) (h : (e.search goal known).isProven = true) :
    goal.NotFalse ρ := by
  unfold search at h
  dsimp only at h
  split at h
  · split at h
    · exact searchParts_sound hr hk hsolver hgoal h
    · exact searchWhole_sound hr hk hsolver hgoal h
  · exact searchWhole_sound hr hk hsolver hgoal h

end

/-! ## Proving -/

/-- The outcome is a proof just when the search has found one. -/
theorem isProven_conclude (goal : Goal) (facts : List Fact) (a : Attempt) :
    (e.conclude goal facts a).isProven = a.isProven := by
  unfold conclude Attempt.isProven
  cases a.verdict <;> rfl

/-- Whatever the registry, a goal with variables that the facts state is proven. -/
theorem isProven_search_of_identity {used : List Fact} (hvalue : byValue? goal = none)
    (h : identicalFacts? goal known = some used) : (e.search goal known).isProven = true := by
  simp [search, searchWhole, hvalue, byIdentity?, h, Attempt.isProven]

/-- The variable of a fact that passes validation is a name. -/
theorem isName_of_validateFact {f : Fact} (h : validateFact f = .ok ()) :
    Expr.isName f.variableName = true := by
  unfold validateFact at h
  split at h
  · cases h
  · rename_i hvalid
    simp only [Bool.or_eq_true, not_or, Bool.not_eq_true', Bool.not_eq_false] at hvalid
    exact hvalid.1

/-- A proof is attempted when the goal and the facts pass validation, and ends as the search
does. -/
theorem prove_eq_ok (goal : Goal) (facts : List Fact) {outcome : ProofOutcome} :
    e.prove goal facts = .ok outcome ↔
      validateGoal goal.condition = .ok () ∧ facts.forM validateFact = .ok () ∧
      e.conclude goal facts (e.search (e.registry.brands.expand goal.condition).canonical
        (Known.ofFacts e.registry.brands facts)) = outcome := by
  constructor
  · intro h
    obtain ⟨⟨⟩, hgoal, h⟩ := except_bind_ok.1 h
    obtain ⟨⟨⟩, hfacts, h⟩ := except_bind_ok.1 h
    exact ⟨hgoal, hfacts, Except.ok.inj h⟩
  · rintro ⟨hgoal, hfacts, rfl⟩
    exact except_bind_ok.2 ⟨(), hgoal, except_bind_ok.2 ⟨(), hfacts, rfl⟩⟩

/-- A goal and facts that pass validation end in a proof when the search finds one. -/
theorem exists_prove_isProven (goal : Goal) (facts : List Fact)
    (hgoal : validateGoal goal.condition = .ok ()) (hfacts : facts.forM validateFact = .ok ())
    (hsearch : (e.search (e.registry.brands.expand goal.condition).canonical
      (Known.ofFacts e.registry.brands facts)).isProven = true) :
    ∃ outcome, e.prove goal facts = .ok outcome ∧ outcome.isProven = true := by
  refine ⟨_, (prove_eq_ok goal facts).2 ⟨hgoal, hfacts, rfl⟩, ?_⟩
  rw [isProven_conclude]
  exact hsearch

/-- **Proving is sound** for a registry that is: if the facts are true, a proven goal is not
false. -/
theorem notFalse_of_prove (hr : e.registry.SoundAt ρ) (hsolver : e.solver = none) {goal : Goal}
    {facts : List Fact} (hgoal : goal.condition.Named) (hnamed : ∀ f ∈ facts, f.predicate.Named)
    (hfacts : ∀ f ∈ facts, f.TrueAt e.registry.brands ρ) {outcome : ProofOutcome}
    (h : e.prove goal facts = .ok outcome) (hproven : outcome.isProven = true) :
    (e.registry.brands.expand goal.condition).NotFalse ρ := by
  obtain ⟨_, hvalid, rfl⟩ := (prove_eq_ok goal facts).1 h
  have hk : (Known.ofFacts e.registry.brands facts).Established e.registry.brands ρ :=
    { named := Known.named_ofFacts hr.named fun f hf =>
        ⟨hnamed f hf, isName_of_validateFact (forM_eq_ok hvalid f hf)⟩
      trueAt := Known.trueAt_ofFacts hfacts
      facts := hfacts }
  have htarget := Expr.named_canonical (Catalog.named_expand hr.named hgoal)
  -- The search was for the canonical form, which is false where the goal is.
  intro hfalse
  rw [isProven_conclude] at hproven
  exact search_sound hr hk hsolver htarget hproven
    (Expr.evalIn_canonical Arithmetic.rational_lawful hfalse)

/-- **The engine is sound**: with the built-in registry and no solver, a goal that is proven from
facts is true under every assignment of rationals to variables and their lengths that makes the
facts true and gives the goal a truth value. -/
theorem prove_sound (token : Nat) (config : Config) (goal : Goal) (facts : List Fact)
    (hgoal : ∃ text, Expr.parse text = .ok goal.condition)
    (hpredicates : ∀ f ∈ facts, ∃ text, Expr.parse text = .ok f.predicate)
    (outcome : ProofOutcome)
    (h : Engine.prove ⟨Registry.builtin token, config, none⟩ goal facts = .ok outcome)
    (hproven : outcome.isProven = true) (ρ : Lookup ℚ)
    (hfacts : ∀ f ∈ facts,
      (Catalog.builtin.expand f.resolved).evalIn .rational ρ = some (.bool true))
    (b : Bool) (hb : (Catalog.builtin.expand goal.condition).evalIn .rational ρ = some (.bool b)) :
    b = true := by
  obtain ⟨text, hparse⟩ := hgoal
  have hnamed : ∀ f ∈ facts, f.predicate.Named := fun f hf =>
    (hpredicates f hf).elim fun _ => Expr.named_of_parse
  have hgoal := notFalse_of_prove (e := ⟨Registry.builtin token, config, none⟩)
    (Registry.builtin_soundAt token ρ) rfl (Expr.named_of_parse hparse) hnamed hfacts h hproven
  cases b with
  | true => rfl
  | false => exact absurd hb hgoal

set_option maxRecDepth 4096 in
/-- A port is at most 65535 and an array that is not empty has a positive length, at 80 and 3. -/
theorem prove_sound_port_length :
    let upper : Expr := .compare .le (.var "x") (.num (.ofWord 65535 (by decide)))
    let long : Expr := .compare .gt (.member (.var "y") "length") (.num .zero)
    let goal : Goal := ⟨.and upper long, none⟩
    let facts : List Fact := [⟨"x", .branded "$" "Port"⟩, ⟨"y", .branded "$" "NonEmpty"⟩]
    let ρ : Lookup ℚ :=
      ⟨fun x => if x = "x" then some 80 else none, fun y => if y = "y" then some 3 else none⟩
    ∃ (outcome : ProofOutcome) (b : Bool),
      Engine.prove ⟨Registry.builtin 0, {}, none⟩ goal facts = .ok outcome ∧
      outcome.isProven = true ∧
      (∀ f ∈ facts, (Catalog.builtin.expand f.resolved).evalIn .rational ρ = some (.bool true)) ∧
      (Catalog.builtin.expand goal.condition).evalIn .rational ρ = some (.bool b) ∧ b = true := by
  intro upper long goal facts ρ
  have hgoal : Expr.parse "x <= 65535 && y.length > 0" = .ok goal.condition := by cbv
  have hport : Expr.parse "$: Port" = .ok (.branded "$" "Port") := by cbv
  have hnonEmpty : Expr.parse "$: NonEmpty" = .ok (.branded "$" "NonEmpty") := by cbv
  have hpredicates : ∀ f ∈ facts, ∃ text, Expr.parse text = .ok f.predicate :=
    List.forall_mem_cons.2 ⟨⟨_, hport⟩, List.forall_mem_singleton.2 ⟨_, hnonEmpty⟩⟩
  have hexpand : Catalog.builtin.expand goal.condition = goal.condition :=
    Expr.expand_eq_self ⟨trivial, trivial⟩
  -- The facts state both conjuncts, so that the search ends with identity.
  have hvalue : byValue? goal.condition.canonical = none := by cbv
  have hstated : identicalFacts? goal.condition.canonical (Known.ofFacts Catalog.builtin facts) =
      some facts := by cbv
  have hsearch := isProven_search_of_identity (e := ⟨Registry.builtin 0, {}, none⟩) hvalue hstated
  rw [← hexpand] at hsearch
  obtain ⟨outcome, hprove, hproven⟩ := exists_prove_isProven goal facts (by cbv) (by cbv) hsearch
  have hx : Catalog.builtin.expand (.branded "x" "Port") =
      .and (.compare .ge (.var "x") (.num .one)) upper := by cbv
  have hy : Catalog.builtin.expand (.branded "y" "NonEmpty") = long := by cbv
  have hfacts : ∀ f ∈ facts,
      (Catalog.builtin.expand f.resolved).evalIn .rational ρ = some (.bool true) := by
    refine List.forall_mem_cons.2 ⟨?_, List.forall_mem_singleton.2 ?_⟩
    · exact (congrArg (Expr.evalIn .rational ρ) hx).trans rfl
    · exact (congrArg (Expr.evalIn .rational ρ) hy).trans rfl
  have hb : (Catalog.builtin.expand goal.condition).evalIn .rational ρ = some (.bool true) :=
    (congrArg (Expr.evalIn .rational ρ) hexpand).trans rfl
  exact ⟨outcome, true, hprove, hproven, hfacts, hb,
    prove_sound 0 {} goal facts ⟨_, hgoal⟩ hpredicates _ hprove hproven ρ hfacts true hb⟩

end Engine

end Discharge
