import Discharge.Proofs.Brand.Expansion
import Discharge.Proofs.Engine.Strategies
import Mathlib

/-!
# Proving a condition from itself

A goal is brought into canonical form and then split, a fact is split and its parts are then brought
into canonical form. A fact therefore need not be found to state the goal that it repeats. It is
just when the two ways split it alike (`Expr.SplitsAlike`); a condition that is no conjunction is
proved from itself even if they do not, since a rule compares it as a whole. `Engine.prove_itself`
puts this together for the built-in registry.
-/

namespace Discharge

namespace Known

variable {c : Catalog} {f : Fact} {q : Expr}

theorem conditions_ofFacts_singleton (c : Catalog) (f : Fact) :
    (ofFacts c [f]).atoms.map (·.condition) = f.atoms c := by
  simp [ofFacts, Function.comp_def]

theorem isSome_identical?_iff {k : Known} :
    (k.identical? q).isSome = true ↔ q ∈ k.atoms.map (·.condition) := by
  rw [identical?, List.find?_isSome, List.mem_map]
  simp only [beq_iff_eq]

end Known

theorem Fact.atoms_of_no_placeholder {P : Expr} (h : Expr.placeholder ∉ P.names) (c : Catalog)
    (v : String) : Fact.atoms c ⟨v, P⟩ = (c.expand P).conjuncts.map (·.canonical) := by
  rw [atoms, resolved, Expr.instantiate_eq_self h]

namespace Engine

variable {e : Engine} {goal : Expr} {k : Known}

theorem byValue?_of_hasFreeVars (h : goal.hasFreeVars = true) : byValue? goal = none :=
  if_pos h

/-- A goal is proved by identity where the facts state all its conjuncts. -/
theorem exists_identicalFacts? (h : ∀ q ∈ goal.conjuncts, q ∈ k.atoms.map (·.condition)) :
    ∃ used, identicalFacts? goal k = some used := by
  have hall : ∀ q ∈ goal.conjuncts, (k.identical? q).isSome = true := fun q hq =>
    Known.isSome_identical?_iff.2 (h q hq)
  obtain ⟨atoms, hatoms⟩ := Option.isSome_iff_exists.1 (isSome_mapM.2 hall)
  exact ⟨_, by rw [identicalFacts?, hatoms]; rfl⟩

/-- The rule for identical facts proves a goal that is one of the atoms, even a conjunction. -/
theorem isProven_search_of_atom (hrule : Rule.identity ∈ e.registry.rules)
    (hvalue : byValue? goal = none) (h : goal ∈ k.atoms.map (·.condition)) :
    (e.search goal k).isProven = true := by
  have hwhole : (e.searchWhole goal k).isProven = true := by
    cases hsupports : goal.conjuncts.mapM (e.support? k) with
    | some supports =>
      obtain ⟨s, hs, _⟩ := searchWhole_of_supports hvalue hsupports
      rw [hs]
      rfl
    | none =>
      obtain ⟨a, ha⟩ := Option.isSome_iff_exists.1 (Known.isSome_identical?_iff.2 h)
      have hmatch : ∃ found, Rule.identity.run goal k = .matched found := by
        rw [Rule.identity, Rule.ofFinder]
        simp [ha]
      obtain ⟨found, hfound⟩ := hmatch
      have hrules := anyProved_runRules.2 ⟨_, .rule hrule hfound⟩
      rw [searchWhole_of_no_supports hvalue hsupports, byProcedure]
      simp [hrules, Attempt.isProven]
  rw [search_eq, if_neg fun hsplit => ?_]
  · exact hwhole
  · rw [hwhole] at hsplit
    exact absurd hsplit.2.2 (by decide)

/-! ## Conjunctions -/

theorem refute_conjunct {assumptions : List Constraint} {maxRows : Nat} {q : Expr}
    (h : ∃ evidence, LinearProof.refute assumptions maxRows goal = .ok evidence)
    (hq : q ∈ goal.conjuncts) :
    ∃ evidence, LinearProof.refute assumptions maxRows q = .ok evidence := by
  induction goal with
  | and l r ihl ihr =>
    obtain ⟨evidence, h⟩ := h
    rw [LinearProof.refute] at h
    obtain ⟨a, ha, h⟩ := except_bind_ok.1 h
    obtain ⟨b, hb, _⟩ := except_bind_ok.1 h
    exact (List.mem_append.1 hq).elim (ihl ⟨a, ha⟩) (ihr ⟨b, hb⟩)
  | _ =>
    obtain rfl := List.mem_singleton.1 hq
    exact h

/-- What is no comparison is matched by a built-in rule only as one of the atoms. -/
theorem mem_atoms_of_matched {r : Rule} (hr : r ∈ Rule.builtin)
    (hgoal : ∀ o l r, goal ≠ .compare o l r) {found : RuleMatch}
    (h : r.run goal k = .matched found) : goal ∈ k.atoms.map (·.condition) := by
  have hzero : ∀ o, Rule.comparedWithZero? o goal = none := by
    intro o
    cases goal with
    | compare o' l r => exact absurd rfl (hgoal o' l r)
    | _ => rfl
  rw [← Known.isSome_identical?_iff]
  simp only [Rule.builtin, List.mem_cons, List.not_mem_nil, or_false] at hr
  rcases hr with rfl | rfl | rfl | rfl | rfl
  · rw [Rule.identity, Rule.ofFinder] at h
    cases hid : k.identical? goal with
    | some a => rfl
    | none => simp [hid] at h
  · simp [Rule.positiveImpliesNonNegative, Rule.ofFinder, hzero] at h
  · simp [Rule.sumOfPositives, Rule.ofFinder, hzero] at h
  · simp [Rule.productOfPositives, Rule.ofFinder, hzero] at h
  · cases goal with
    | compare o' l r => exact absurd rfl (hgoal o' l r)
    | _ => cases h

/-- A way to prove a conjunction as a whole that is not stated as a whole proves each conjunct. -/
theorem Proves.conjunct (hrules : e.registry.rules = Rule.builtin)
    (hgoal : goal.isConjunction = true) (hatom : goal ∉ k.atoms.map (·.condition)) {m : Method}
    {fs : List Fact} (h : e.Proves goal k m fs) {q : Expr} (hq : q ∈ goal.conjuncts) :
    ∃ m fs, e.Proves q k m fs := by
  have hone := Expr.conjuncts_of_not_conjunction (Expr.not_conjunction_of_mem_conjuncts hq)
  cases h with
  | support h =>
    obtain ⟨s, _, hs⟩ := forall₂_mem_left (mapM_eq_some.1 h) q hq
    have hsupport : q.conjuncts.mapM (e.support? k) = some [s] := by
      rw [hone, mapM_eq_some]
      exact .cons hs .nil
    exact ⟨_, _, .support hsupport⟩
  | rule hr h =>
    refine absurd (mem_atoms_of_matched (hrules ▸ hr) ?_ h) hatom
    rintro o l r rfl
    cases hgoal
  | shape hfast h =>
    obtain ⟨o, l, r, rfl, _⟩ := LinearProof.byShape_eq h
    cases hgoal
  | refutation hfm h =>
    have hrefuted := refute_conjunct (LinearProof.proven_byRefutation.1 h) hq
    exact ⟨_, _, .refutation hfm (LinearProof.proven_byRefutation.2 hrefuted)⟩

/-- A condition that a fact states is proved by identity. -/
theorem proves_of_atom {q : Expr} (hq : q.isConjunction = false)
    (h : q ∈ k.atoms.map (·.condition)) : ∃ m fs, e.Proves q k m fs := by
  obtain ⟨a, ha⟩ := Option.isSome_iff_exists.1 (Known.isSome_identical?_iff.2 h)
  have hsupport : q.conjuncts.mapM (e.support? k) = some [(a.fact, none)] := by
    rw [Expr.conjuncts_of_not_conjunction hq, mapM_eq_some]
    exact .cons (support?_of_identical ha) .nil
  exact ⟨_, _, .support hsupport⟩

/-! ## The search for a condition that has been split into facts -/

section

variable {E : Expr} (hatoms : k.atoms.map (·.condition) = E.conjuncts.map (·.canonical))
  (hvalue : byValue? E.canonical = none)
include hatoms hvalue

theorem isProven_search_of_not_conjunction (hrule : Rule.identity ∈ e.registry.rules)
    (h : E.isConjunction = false) : (e.search E.canonical k).isProven = true := by
  refine isProven_search_of_atom hrule hvalue ?_
  rw [hatoms, Expr.conjuncts_of_not_conjunction h]
  exact List.mem_singleton.2 rfl

theorem isProven_search_of_splitsAlike (h : E.SplitsAlike) :
    (e.search E.canonical k).isProven = true := by
  have hstated : ∀ q ∈ E.canonical.conjuncts, q ∈ k.atoms.map (·.condition) := by
    intro q hq
    rw [hatoms]
    exact List.mem_map.2 (h q hq)
  obtain ⟨used, hused⟩ := exists_identicalFacts? hstated
  exact isProven_search_of_identity hvalue hused

/-- A conjunction is proved from its conjuncts just when each conjunct that only its canonical form
has is proved. -/
theorem isProven_search_conjunction_iff (hrules : e.registry.rules = Rule.builtin)
    (hsolver : e.solver = none) (hE : E.isConjunction = true)
    (hvars : ∀ q ∈ E.canonical.conjuncts, q.hasFreeVars = true) :
    (e.search E.canonical k).isProven = true ↔
      ∀ p ∈ E.conjuncts, p.canonical.isConjunction = true →
        ∀ q ∈ p.canonical.conjuncts, ∃ m fs, e.Proves q k m fs := by
  have hgoal : E.canonical.isConjunction = true := by
    cases E with
    | and l r => rfl
    | _ => cases hE
  have hatom : E.canonical ∉ k.atoms.map (·.condition) := by
    rw [hatoms]
    intro hmem
    obtain ⟨p, hp, heq⟩ := List.mem_map.1 hmem
    exact Expr.canonical_ne_of_mem_conjuncts hE hp heq
  -- As a whole or in parts, the goal is proved just when each of its conjuncts is.
  have hparts : (e.search E.canonical k).isProven = true ↔
      ∀ q ∈ E.canonical.conjuncts, ∃ m fs, e.Proves q k m fs := by
    have hpart : ∀ q ∈ E.canonical.conjuncts,
        (e.searchWhole q k).isProven = true ↔ ∃ m fs, e.Proves q k m fs := fun q hq =>
      isProven_searchWhole_iff hsolver (byValue?_of_hasFreeVars (hvars q hq))
    rw [search_eq]
    split
    · rw [isProven_searchParts_iff]
      exact forall₂_congr hpart
    · rename_i hwhole
      have hproven : (e.searchWhole E.canonical k).isProven = true := by
        by_contra hunproven
        exact hwhole ⟨hvalue, hgoal, Bool.eq_false_iff.2 hunproven⟩
      obtain ⟨m, fs, hproves⟩ := (isProven_searchWhole_iff hsolver hvalue).1 hproven
      exact iff_of_true hproven fun q hq => hproves.conjunct hrules hgoal hatom hq
  rw [hparts, Expr.conjuncts_canonical]
  constructor
  · intro h p hp _ q hq
    exact h q (List.mem_flatMap.2 ⟨p, hp, hq⟩)
  · intro h q hq
    obtain ⟨p, hp, hq⟩ := List.mem_flatMap.1 hq
    cases hhidden : p.canonical.isConjunction with
    | true => exact h p hp hhidden q hq
    | false =>
      rw [Expr.conjuncts_of_not_conjunction hhidden] at hq
      obtain rfl := List.mem_singleton.1 hq
      refine proves_of_atom hhidden ?_
      rw [hatoms]
      exact List.mem_map_of_mem hp

end

/-- **When a condition proves itself.** A condition with variables is proved from a fact that
repeats it if, with its brands expanded, it is no conjunction, or if its canonical form splits into
the canonical forms of its conjuncts. The latter holds unless a pair of negations hides a
conjunction in one of the conjuncts. Where every part has variables this is exact: the condition
proves itself just when the conjuncts that are hidden in this way are each proved by some
strategy. -/
theorem prove_itself (token : Nat) (config : Config) (brand : Option String) {v : String} {P : Expr}
    (hP : P.isBoolean = true) (hfree : P.hasFreeVars = true)
    (hplaceholder : Expr.placeholder ∉ P.names) (hv : Expr.isName v = true)
    (hv' : v ≠ Expr.placeholder) :
    let e : Engine := ⟨Registry.builtin token, config, none⟩
    let expanded := Catalog.builtin.expand P
    ∃ o, e.prove ⟨P, brand⟩ [⟨v, P⟩] = .ok o ∧
      (expanded.isConjunction = false → o.isProven = true) ∧
      (expanded.SplitsAlike → o.isProven = true) ∧
      ((∀ p ∈ expanded.conjuncts, p.canonical.isConjunction = false) → expanded.SplitsAlike) ∧
      (expanded.isConjunction = true →
        (∀ q ∈ expanded.canonical.conjuncts, q.hasFreeVars = true) →
        (o.isProven = true ↔ ∀ p ∈ expanded.conjuncts, p.canonical.isConjunction = true →
          ∀ q ∈ p.canonical.conjuncts,
            ∃ m fs, e.Proves q (.ofFacts Catalog.builtin [⟨v, P⟩]) m fs)) := by
  intro e expanded
  have hbrands : e.registry.brands = Catalog.builtin := rfl
  have hrules : e.registry.rules = Rule.builtin := rfl
  have hsolver : e.solver = none := rfl
  have hatoms : (Known.ofFacts Catalog.builtin [⟨v, P⟩]).atoms.map (·.condition) =
      expanded.conjuncts.map (·.canonical) := by
    rw [Known.conditions_ofFacts_singleton, Fact.atoms_of_no_placeholder hplaceholder]
  have hvalue : byValue? expanded.canonical = none := by
    obtain ⟨x, hx⟩ := Expr.hasFreeVars_iff.1 hfree
    have hexpanded : x ∈ expanded.names :=
      Catalog.mem_names_expand (fun _ _ => Catalog.placeholder_mem_builtin) hx
    exact byValue?_of_hasFreeVars
      (Expr.hasFreeVars_iff.2 ⟨x, Expr.mem_names_canonical.2 hexpanded⟩)
  have hgoal : validateGoal P = .ok () := if_pos hP
  have hfact : validateFact ⟨v, P⟩ = .ok () := by simp [validateFact, hP, hv, hv']
  have hprove := (prove_eq_ok (e := e) ⟨P, brand⟩ [⟨v, P⟩]).2
    ⟨hgoal, forM_ok (List.forall_mem_singleton.2 hfact), rfl⟩
  clear_value e
  refine ⟨_, hprove, ?_⟩
  rw [isProven_conclude, hbrands]
  exact ⟨isProven_search_of_not_conjunction hatoms hvalue (hrules ▸ List.mem_cons_self),
    isProven_search_of_splitsAlike hatoms hvalue, Expr.splitsAlike_of_no_hidden,
    isProven_search_conjunction_iff hatoms hvalue hrules hsolver⟩

/-- A brand and a comparison under two negations: the brand splits before canonical forms are
taken, and the negations hide no conjunction. -/
theorem prove_itself_port :
    let x : Expr := .compare .gt (.var "x") (.num .zero)
    let P : Expr := .and (.branded "p" "Port") (.not (.not x))
    P.isBoolean = true ∧ P.hasFreeVars = true ∧ Expr.placeholder ∉ P.names ∧
      ∃ o, prove ⟨Registry.builtin 0, {}, none⟩ ⟨P, none⟩ [⟨"p", P⟩] = .ok o ∧
        o.isProven = true := by
  intro x P
  have hbool : P.isBoolean = true := rfl
  have hfree : P.hasFreeVars = true := rfl
  have hplaceholder : Expr.placeholder ∉ P.names := by decide
  obtain ⟨o, hprove, _, hproven, hsplits, _⟩ :=
    prove_itself 0 {} none hbool hfree hplaceholder (v := "p") (by rfl) (by decide)
  refine ⟨hbool, hfree, hplaceholder, o, hprove, hproven (hsplits ?_)⟩
  have hexpand : Catalog.builtin.expand P = .and
      (.and (.compare .ge (.var "p") (.num .one))
        (.compare .le (.var "p") (.num (.ofWord 65535 (by decide)))))
      (.not (.not x)) := by cbv
  rw [hexpand]
  decide

/-- No strategy proves a variable that the facts do not state. -/
theorem not_proves_var (hrules : e.registry.rules = Rule.builtin) {x : String}
    (hatom : .var x ∉ k.atoms.map (·.condition))
    (hpath : ∀ f ∈ k.facts, e.pathTo? (.var x) f = none) {m : Method} {fs : List Fact} :
    ¬ e.Proves (.var x) k m fs := by
  intro h
  cases h with
  | support h =>
    obtain ⟨s, _, hs⟩ := forall₂_mem_left (mapM_eq_some.1 h) _ (List.mem_singleton.2 rfl)
    unfold support? at hs
    split at hs
    · rename_i a ha
      exact hatom (Known.isSome_identical?_iff.1 (ha ▸ rfl))
    · obtain ⟨f, hf, hpath'⟩ := List.exists_of_findSome?_eq_some hs
      rw [hpath f hf] at hpath'
      cases hpath'
  | rule hr h => exact hatom (mem_atoms_of_matched (hrules ▸ hr) (fun _ _ _ hp => by cases hp) h)
  | shape _ h =>
    obtain ⟨o, l, r, heq, _⟩ := LinearProof.byShape_eq h
    cases heq
  | refutation _ h =>
    obtain ⟨evidence, h⟩ := LinearProof.proven_byRefutation.1 h
    cases h

/-- A conjunction under two negations, in a conjunction: the fact states its conjuncts only
together, and the goal asks for each. -/
theorem prove_itself_hidden :
    let P : Expr := .and (.not (.not (.and (.var "a") (.var "b")))) (.var "c")
    Expr.parse "!!(a && b) && c" = .ok P ∧
      ∃ o, prove ⟨Registry.builtin 0, {}, none⟩ ⟨P, none⟩ [⟨"a", P⟩] = .ok o ∧
        o.isProven = false := by
  intro P
  have hexpand : Catalog.builtin.expand P = P := Expr.expand_eq_self (by simp [P, Expr.Unbranded])
  have hatoms : (Known.ofFacts Catalog.builtin [⟨"a", P⟩]).atoms.map (·.condition) =
      P.conjuncts.map (·.canonical) := by
    rw [Known.conditions_ofFacts_singleton, Fact.atoms_of_no_placeholder (by decide), hexpand]
  have hbrand : ∀ c : Catalog, c.brands = Catalog.builtin.brands → c.brandOf? P = none := by
    intro c hc
    rw [Catalog.builtin_brands] at hc
    simp only [P, Catalog.brandOf?, hc]
    cbv
  have hsearch : ∀ e : Engine, e.registry.brands = Catalog.builtin →
      e.registry.rules = Rule.builtin → e.solver = none →
      (e.search P.canonical (Known.ofFacts Catalog.builtin [⟨"a", P⟩])).isProven = false := by
    intro e hbrands hrules hsolver
    have hpath : e.pathTo? (.var "a") ⟨"a", P⟩ = none := by
      have hnone : e.brandOfFact? ⟨"a", P⟩ = none := by
        refine Eq.trans ?_ (hbrand e.registry.brands (by rw [hbrands]))
        rfl
      rw [pathTo?, hnone]
      rfl
    rw [Bool.eq_false_iff, Ne, isProven_search_conjunction_iff hatoms (by rfl) hrules hsolver rfl
      (by decide)]
    intro hproves
    obtain ⟨m, fs, h⟩ := hproves _ List.mem_cons_self rfl (.var "a") List.mem_cons_self
    refine not_proves_var hrules ?_ (fun f hf => ?_) h
    · rw [hatoms]
      decide
    · obtain rfl : f = ⟨"a", P⟩ := List.mem_singleton.1 hf
      exact hpath
  have hfact : [⟨"a", P⟩].forM validateFact = .ok () := by cbv
  refine ⟨by cbv, _, (prove_eq_ok _ _).2 ⟨rfl, hfact, rfl⟩, ?_⟩
  rw [isProven_conclude]
  have hunproven := hsearch ⟨Registry.builtin 0, {}, none⟩ rfl rfl rfl
  exact (congrArg (fun E : Expr => (search _ E.canonical _).isProven) hexpand).trans hunproven

end Engine

end Discharge
