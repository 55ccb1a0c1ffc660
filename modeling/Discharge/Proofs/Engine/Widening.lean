import Discharge.Engine.Basic
import Discharge.Proofs.Fact.Retained
import Discharge.Proofs.Registry

/-!
# Widening in proofs

A fact gives a brand to a variable, by annotation or by restating what the brand says, and the brand
widens along edges between known brands. If these edges are valid, a condition that a wider brand
states is true wherever the fact is (`Engine.pathTo?_holds`). So the facts that a proof by widening
uses make every conjunct of its goal true (`Engine.widenedFacts?_sound`). Neither cycles nor edges
to unknown brands matter: a path never enters a brand that is not known.
-/

namespace Discharge

/-- Every edge between known brands is valid: at each variable, under each lookup, the target is true
if the source is. -/
def Registry.EdgesValid (r : Registry) : Prop :=
  ∀ d ∈ r.widening, r.brands.contains d.source = true → r.brands.contains d.target = true →
    ∀ (x : String) (env : String → Option Fraction) (p q : Expr),
      r.brands.predicateFor? d.source x = some p → r.brands.predicateFor? d.target x = some q →
      p.canonical.eval? env = some (.bool true) → q.canonical.eval? env = some (.bool true)

namespace Engine

variable {e : Engine}

/-- The brand of a fact is the one that is recognized in what it says. -/
theorem brandOfFact?_eq (f : Fact) : e.brandOfFact? f = e.registry.brands.brandOf? f.resolved := by
  unfold brandOfFact?
  split
  · rename_i x b hb
    rw [Fact.resolved, hb]
    rfl
  · rfl

section

variable {N : Type} {A : Arithmetic N} (hA : A.Lawful) {ρ : Lookup N}
  (hsorted : e.registry.brands.brands.Sorted)
  (hplain : ∀ p ∈ e.registry.brands.brands, p.2.Unbranded)
  (hedges : ∀ d ∈ e.registry.widening, e.registry.brands.contains d.source = true →
    e.registry.brands.contains d.target = true → ∀ x,
    e.registry.brands.Holds A ρ d.source x → e.registry.brands.Holds A ρ d.target x)
  {condition : Expr}
include hA hsorted hplain hedges

/-- **Widening is sound**: a condition that a wider brand states is true where the fact is. -/
theorem pathTo?_holds {f : Fact}
    (hf : (e.registry.brands.expand f.resolved).evalIn A ρ = some (.bool true)) {path : List Edge}
    (h : e.pathTo? condition f = some path) : condition.evalIn A ρ = some (.bool true) := by
  obtain ⟨⟨brand, x⟩, hbrand, h⟩ := Option.bind_eq_some_iff.1 h
  obtain ⟨⟨wider, path'⟩, hfind, _⟩ := Option.bind_eq_some_iff.1 h
  rw [brandOfFact?_eq] at hbrand
  have hstart : e.registry.brands.Holds A ρ brand x :=
    Catalog.brandOf?_sound hA hsorted hplain hbrand hf
  have hmem : (wider, path') ∈ e.registry.wideningsOf brand := List.mem_of_find?_eq_some hfind
  have hwider : e.registry.brands.Holds A ρ wider x :=
    (WideningGraph.path_of_mem_reachable hmem).induct
      (WideningGraph.live_of_mem_reachable hmem) (P := fun b => e.registry.brands.Holds A ρ b x)
      (fun d hd hsource htarget => hedges d hd hsource htarget x) hstart
  -- The condition is the canonical form of a conjunct of what the wider brand says.
  obtain ⟨q, hq, htrue⟩ := hwider
  have hstates := List.find?_some hfind
  simp only [hq, Option.any_some, List.any_eq_true, beq_iff_eq] at hstates
  obtain ⟨p, hp, rfl⟩ := hstates
  exact Expr.evalIn_conjuncts_canonical htrue p hp

/-- What a fact supports is true where the fact is. -/
theorem support?_holds {facts : List Fact} {s : Fact × Option (List Edge)}
    (h : e.support? (.ofFacts e.registry.brands facts) condition = some s)
    (hs : (e.registry.brands.expand s.1.resolved).evalIn A ρ = some (.bool true)) :
    condition.evalIn A ρ = some (.bool true) := by
  unfold support? at h
  split at h
  · rename_i a hid
    obtain rfl := Option.some.inj h
    have hcond : a.condition = condition := by simpa using List.find?_some hid
    have hstates := Known.states_ofFacts.1 ⟨a, List.mem_of_find?_eq_some hid, hcond, rfl⟩
    obtain ⟨p, hp, rfl⟩ := List.mem_map.1 hstates.2
    exact Expr.evalIn_conjuncts_canonical (Expr.evalIn_canonical hA hs) p hp
  · obtain ⟨f, _, hfound⟩ := List.exists_of_findSome?_eq_some h
    obtain ⟨path, hpath, rfl⟩ := Option.map_eq_some_iff.1 hfound
    exact pathTo?_holds hA hsorted hplain hedges hs hpath

/-- The facts that widening uses make every conjunct of the goal true. -/
theorem widenedFacts?_holds {goal : Expr} {facts used : List Fact} {edges : List Edge}
    (h : e.widenedFacts? goal (.ofFacts e.registry.brands facts) = some (used, edges))
    (hused : ∀ f ∈ used, (e.registry.brands.expand f.resolved).evalIn A ρ = some (.bool true)) :
    ∀ p ∈ goal.conjuncts, p.evalIn A ρ = some (.bool true) := by
  intro p hp
  obtain ⟨supports, hsupports, h⟩ := Option.bind_eq_some_iff.1 h
  split at h
  · cases h
    obtain ⟨s, hs, hps⟩ := forall₂_mem_left (mapM_eq_some.1 hsupports) p hp
    refine support?_holds hA hsorted hplain hedges hps (hused s.1 ?_)
    exact List.mem_eraseDups.2 (List.mem_map.2 ⟨s, hs, rfl⟩)
  · cases h

end

/-- **Widening is sound relative to the registered edges**: in a registry whose brands all say
something, without annotations, and whose edges between known brands are valid, a lookup that makes
the facts true which widening uses makes every conjunct of the goal true. -/
theorem widenedFacts?_sound (r : Registry) (hr : r.Arises)
    (hplain : ∀ b p, r.brands.predicate? b = some p → p.Unbranded)
    (htotal : ∀ b, r.brands.contains b = true → (r.brands.predicate? b).isSome = true)
    (hedges : r.EdgesValid) (config : Config) (solver : Option Solver) (goal : Expr)
    (facts used : List Fact) (edges : List Edge)
    (h : Engine.widenedFacts? ⟨r, config, solver⟩ goal (.ofFacts r.brands facts) =
      some (used, edges))
    (env : String → Option Fraction)
    (hused : ∀ f ∈ used, (r.brands.expand f.resolved).eval? env = some (.bool true)) :
    ∀ p ∈ goal.conjuncts, p.eval? env = some (.bool true) := by
  have hunbranded : ∀ p ∈ r.brands.brands, p.2.Unbranded := by
    intro p hp
    refine hplain p.1 p.2 ?_
    rw [Catalog.predicate?, hr.sorted_brands.find?_of_mem hp]
  have hvalid : ∀ d ∈ r.widening, r.brands.contains d.source = true →
      r.brands.contains d.target = true → ∀ x,
      r.brands.Holds .word ⟨env, fun _ => none⟩ d.source x →
      r.brands.Holds .word ⟨env, fun _ => none⟩ d.target x := by
    rintro d hd hsource htarget x ⟨p, hp, htrue⟩
    obtain ⟨q, hq⟩ := Option.isSome_iff_exists.1 (htotal d.target htarget)
    have hq : r.brands.predicateFor? d.target x = some (q.instantiate x) := by
      rw [Catalog.predicateFor?, hq, Option.map_some]
    exact ⟨_, hq, Expr.eval?_eq_some_iff.1
      (hedges d hd hsource htarget x env p _ hp hq (Expr.eval?_eq_some_iff.2 htrue))⟩
  intro p hp
  refine Expr.eval?_eq_some_iff.2 (widenedFacts?_holds (e := ⟨r, config, solver⟩)
    Arithmetic.word_lawful hr.sorted_brands hunbranded hvalid h ?_ p hp)
  exact fun f hf => Expr.eval?_eq_some_iff.1 (hused f hf)

/-- A positive number is not zero, although its brand also widens to an unknown brand, and the wider
brand to itself. -/
theorem widenedFacts?_sound_positive :
    let above (x : String) : Expr := .compare .gt (.var x) (.num .zero)
    let apart (x : String) : Expr := .or (above x) (.compare .lt (.var x) (.num .zero))
    let edge (a b : String) : Edge := ⟨a, b, "", ""⟩
    let changes : List Change := [.brand "Positive" (above "$"), .brand "NonZero" (apart "$"),
      .edge (edge "Positive" "Ghost"), .edge (edge "Positive" "NonZero"),
      .edge (edge "NonZero" "NonZero")]
    let r : Registry := changes.foldl Registry.apply (Registry.empty 0)
    let goal : Expr := .and (above "x") (apart "x").canonical
    let facts : List Fact := [⟨"x", .branded "$" "Positive"⟩]
    let env : String → Option Fraction := fun x => if x = "x" then some .one else none
    r.Arises ∧ (∀ b p, r.brands.predicate? b = some p → p.Unbranded) ∧
      (∀ b, r.brands.contains b = true → (r.brands.predicate? b).isSome = true) ∧ r.EdgesValid ∧
      Engine.widenedFacts? ⟨r, {}, none⟩ goal (.ofFacts r.brands facts) =
        some (facts, [edge "Positive" "NonZero"]) ∧
      (∀ f ∈ facts, (r.brands.expand f.resolved).eval? env = some (.bool true)) ∧
      ∀ p ∈ goal.conjuncts, p.eval? env = some (.bool true) := by
  intro above apart edge changes r goal facts env
  have hbrands : r.brands = ⟨[("NonZero", apart "$"), ("Positive", above "$")], []⟩ := by cbv
  have hwidening : r.widening =
      [edge "NonZero" "NonZero", edge "Positive" "Ghost", edge "Positive" "NonZero"] := by cbv
  have hr : r.Arises := (((((Registry.Arises.empty 0).apply _).apply _).apply _).apply _).apply _
  have hfamilies : r.brands.families = [] := by rw [hbrands]
  have hplain : ∀ b p, r.brands.predicate? b = some p → p.Unbranded := by
    intro b p hp
    rw [Catalog.predicate?_of_no_families hfamilies, hbrands] at hp
    have hmem := Table.mem_of_find? hp
    simp only [List.mem_cons, Prod.mk.injEq, List.not_mem_nil, or_false] at hmem
    rcases hmem with ⟨_, rfl⟩ | ⟨_, rfl⟩
    · exact ⟨trivial, trivial⟩
    · exact trivial
  have htotal : ∀ b, r.brands.contains b = true → (r.brands.predicate? b).isSome = true := by
    intro b hb
    rwa [Catalog.contains_of_no_families hfamilies] at hb
  have hpositive : ∀ x, r.brands.predicateFor? "Positive" x = some (above x) := by
    intro x
    rw [hbrands]
    rfl
  have hnonZero : ∀ x, r.brands.predicateFor? "NonZero" x = some (apart x) := by
    intro x
    rw [hbrands]
    rfl
  have hghost : r.brands.contains "Ghost" = false := by
    rw [hbrands]
    rfl
  have hedges : r.EdgesValid := by
    intro d hd _ hknown x env p q hp hq htrue
    simp only [hwidening, List.mem_cons, List.not_mem_nil, or_false] at hd
    rcases hd with rfl | rfl | rfl
    · obtain rfl : p = q := Option.some.inj (hp.symm.trans hq)
      exact htrue
    · rw [hghost] at hknown
      cases hknown
    · obtain rfl := Option.some.inj (hp.symm.trans (hpositive x))
      obtain rfl := Option.some.inj (hq.symm.trans (hnonZero x))
      show (Expr.or (above x).canonical _).eval? env = _
      rw [Expr.eval?, htrue]
      rfl
  have hwidened : Engine.widenedFacts? ⟨r, {}, none⟩ goal (.ofFacts r.brands facts) =
      some (facts, [edge "Positive" "NonZero"]) := by cbv
  have hused : ∀ f ∈ facts, (r.brands.expand f.resolved).eval? env = some (.bool true) :=
    List.forall_mem_singleton.2 (by cbv)
  exact ⟨hr, hplain, htotal, hedges, hwidened, hused,
    widenedFacts?_sound r hr hplain htotal hedges {} none goal facts facts _ hwidened env hused⟩

end Engine

end Discharge
