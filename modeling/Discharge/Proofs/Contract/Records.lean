import Discharge.Proofs.Engine.Subgoals
import Discharge.Proofs.Json.Records

/-!
# Decision records are read back

The decisions on a contract are stored with the expressions they rest on, as texts: the condition,
what is assumed of the parameters, and the facts and subgoals of every step. The brand of a
parameter is any text at all, and what is assumed of the parameter is annotated with it. For a
contract that is written with ordinary names, the records can be read back just when each of these
brands is written as a brand (`Engine.decide_roundtrip`).
-/

namespace Discharge

/-- The names are ordinary, and no text literal holds a quote. -/
structure Expr.Plain (e : Expr) : Prop where
  names : ∀ x ∈ e.names, Ordinary x
  strings : ∀ s ∈ e.strings, '\'' ∉ s.toList

theorem Expr.Plain.printable {e : Expr} (h : e.Plain) (hreadable : e.Readable) : e.Printable :=
  printable_of_readable hreadable h.names h.strings

theorem Expr.IsBrand.isName_or_numbered {b : String} (h : IsBrand b) :
    isName b = true ∨ '<' ∈ b.toList := by
  cases h with
  | plain h => exact .inl h
  | numbered h hnumbers => exact .inr (by simp [String.toList_append])

/-! ## Registries -/

/-- The change brings in only what is printable, and rules that cite known facts only. -/
def Change.Writable : Change → Prop
  | .rule r => r.CitesKnown ∧ r.ReportsPrintable
  | .brand _ p => p.Printable
  | .family f => ∀ b p, f.predicate? b = some p → p.Printable
  | _ => True

namespace Registry

/-- Brands and rules keep to what is printable, and rules cite known facts only. -/
structure Writable (r : Registry) : Prop where
  brands : r.brands.Printable
  rules : ∀ rule ∈ r.rules, rule.CitesKnown ∧ rule.ReportsPrintable

theorem builtin_writable (token : Nat) : (builtin token).Writable where
  brands := Catalog.printable_builtin
  rules rule h := ⟨Rule.builtin_citesKnown rule h, Rule.builtin_reportsPrintable rule h⟩

/-- A change that brings in nothing else keeps a registry writable. -/
theorem Writable.apply {r : Registry} (hr : r.Writable) {c : Change} (hc : c.Writable) :
    (r.apply c).Writable where
  brands := by
    cases c with
    | brand name p =>
      refine ⟨fun q hq => ?_, hr.brands.families⟩
      rcases Table.mem_insert hq with rfl | hq
      · exact hc
      · exact hr.brands.brands q hq
    | family f =>
      refine ⟨hr.brands.brands, List.forall_mem_append.2 ⟨fun g hg => ?_,
        List.forall_mem_singleton.2 hc⟩⟩
      exact hr.brands.families g (List.mem_filter.1 hg).1
    | clearBrands => exact ⟨List.forall_mem_nil _, List.forall_mem_nil _⟩
    | _ => exact hr.brands
  rules := by
    cases c with
    | rule rule =>
      intro s hs
      rcases Rule.mem_register hs with rfl | hs
      · exact hc
      · exact hr.rules s hs
    | clearRules => exact List.forall_mem_nil _
    | _ => exact hr.rules

end Registry

/-! ## Contracts -/

theorem Argument.mem_facts {a : Argument} {f : Fact} :
    f ∈ a.facts ↔ f.variableName = a.name ∧
      ((∃ b, a.brand = some b ∧ f.predicate = .branded a.name b) ∨
        ∃ t, a.refinement = some t ∧ Expr.parse t = .ok f.predicate) := by
  have htoOption : ∀ t p, (Expr.parse t).toOption = some p ↔ Expr.parse t = .ok p := by
    intro t p
    cases Expr.parse t <;> simp [Except.toOption]
  obtain ⟨x, p⟩ := f
  simp only [facts, List.mem_append, Option.mem_toList, Option.map_eq_some_iff,
    Option.bind_eq_some_iff, Fact.mk.injEq, htoOption]
  constructor
  · rintro (⟨b, hb, rfl, rfl⟩ | ⟨q, ⟨t, ht, hparse⟩, rfl, rfl⟩)
    · exact ⟨rfl, .inl ⟨b, hb, rfl⟩⟩
    · exact ⟨rfl, .inr ⟨t, ht, hparse⟩⟩
  · rintro ⟨rfl, ⟨b, hb, rfl⟩ | ⟨t, ht, hparse⟩⟩
    · exact .inl ⟨b, hb, rfl, rfl⟩
    · exact .inr ⟨p, ⟨t, ht, hparse⟩, rfl, rfl⟩

theorem Condition.readable_of_ofJson? {j : Json} {cond : Condition} (h : ofJson? j = some cond) :
    cond.condition.Readable := by
  obtain ⟨r, _, h⟩ := Option.bind_eq_some_iff.1 h
  obtain ⟨kind, _, h⟩ := Option.bind_eq_some_iff.1 h
  obtain ⟨condition, hcondition, h⟩ := Option.bind_eq_some_iff.1 h
  obtain ⟨brand, _, h⟩ := Option.bind_eq_some_iff.1 h
  cases h
  obtain ⟨j', _, hexpr⟩ := Option.bind_eq_some_iff.1 hcondition
  cases j' with
  | str t =>
    cases hparse : Expr.parse t with
    | ok p =>
      simp only [Json.asExpr?, hparse] at hexpr
      cases hexpr
      exact Expr.readable_of_parse hparse
    | error err =>
      simp only [Json.asExpr?, hparse] at hexpr
      cases hexpr
  | _ => cases hexpr

namespace Contract

variable {c : Contract}

/-- The facts that the parameters give. -/
def facts (c : Contract) : List Fact := c.params.flatMap Argument.facts

/-- The contract is written with ordinary names and without quotes in its text literals. -/
structure Plain (c : Contract) : Prop where
  conditions : ∀ cond ∈ c.conditions, cond.condition.Plain
  params : ∀ a ∈ c.params, Expr.Ordinary a.name
  refinements : ∀ a ∈ c.params, ∀ t p, a.refinement = some t → Expr.parse t = .ok p → p.Plain

/-- The brands of the parameters are written as brands. -/
def BrandsWritten (c : Contract) : Prop := ∀ a ∈ c.params, ∀ b, a.brand = some b → Expr.IsBrand b

theorem readable_of_ofJson? {j : Json} (h : ofJson? j = some c) :
    ∀ cond ∈ c.conditions, cond.condition.Readable := by
  obtain ⟨r, _, h⟩ := Option.bind_eq_some_iff.1 h
  obtain ⟨function, _, h⟩ := Option.bind_eq_some_iff.1 h
  obtain ⟨params, _, h⟩ := Option.bind_eq_some_iff.1 h
  obtain ⟨conditions, hconditions, h⟩ := Option.bind_eq_some_iff.1 h
  cases h
  obtain ⟨j', _, hlist⟩ := Option.bind_eq_some_iff.1 hconditions
  intro cond hcond
  cases j' with
  | arr items =>
    obtain ⟨item, _, hitem⟩ := forall₂_mem_right (mapM_eq_some.1 hlist) cond hcond
    exact Condition.readable_of_ofJson? hitem
  | _ => cases hlist

theorem ordinary_of_mem_facts (hc : c.Plain) : ∀ f ∈ c.facts, Expr.Ordinary f.variableName := by
  intro f hf
  obtain ⟨a, ha, hf⟩ := List.mem_flatMap.1 hf
  rw [(Argument.mem_facts.1 hf).1]
  exact hc.params a ha

theorem printable_of_mem_facts (hc : c.Plain) (hbrands : c.BrandsWritten) :
    ∀ f ∈ c.facts, f.predicate.Printable := by
  intro f hf
  obtain ⟨a, ha, hf⟩ := List.mem_flatMap.1 hf
  obtain ⟨_, ⟨b, hb, hpredicate⟩ | ⟨t, ht, hparse⟩⟩ := Argument.mem_facts.1 hf
  · rw [hpredicate]
    exact .branded (hc.params a ha) (hbrands a ha b hb)
  · exact (hc.refinements a ha t _ ht hparse).printable (Expr.readable_of_parse hparse)

end Contract

/-! ## Decisions -/

namespace Engine

variable {e : Engine} {c : Contract} {records : List DecisionRecord} {r : DecisionRecord}

theorem isBoolean_of_validateGoal {goal : Expr} (h : validateGoal goal = .ok ()) :
    goal.isBoolean = true := by
  unfold validateGoal at h
  split at h
  · assumption
  · cases h

theorem isBoolean_of_validateFact {f : Fact} (h : validateFact f = .ok ()) :
    f.predicate.isBoolean = true := by
  unfold validateFact at h
  split at h
  · cases h
  split at h
  · assumption
  · cases h

theorem exprs_conclude (goal : Goal) (facts : List Fact) (a : Attempt) :
    (e.conclude goal facts a).certificate.exprs =
      goal.condition :: (facts.map (·.predicate) ++ a.steps.flatMap Step.exprs) := by
  unfold conclude
  cases a.verdict <;> rfl

theorem version_conclude (goal : Goal) (facts : List Fact) (a : Attempt) :
    (e.conclude goal facts a).certificate.version = 1 := by
  unfold conclude
  cases a.verdict <;> rfl

theorem generation_conclude (goal : Goal) (facts : List Fact) (a : Attempt) :
    (e.conclude goal facts a).certificate.generation = e.registry.generation := by
  unfold conclude
  cases a.verdict <;> rfl

/-- The steps of the search for a proof of a condition of the contract. -/
def stepsFor (e : Engine) (c : Contract) (condition : Expr) : List Step :=
  (e.search (e.registry.brands.expand condition).canonical
    (Known.ofFacts e.registry.brands c.facts)).steps

/-- A record is about a condition of the contract, and comes from the search for its proof. -/
structure RecordsDecision (e : Engine) (c : Contract) (cond : Condition) (r : DecisionRecord) :
    Prop where
  condition : cond.condition.isBoolean = true
  facts : ∀ f ∈ c.facts, f.predicate.isBoolean = true
  version : r.certificate.version = 1
  generation : r.certificate.generation = e.registry.generation
  exprs : r.exprs = cond.condition :: cond.condition ::
    (c.facts.map (·.predicate) ++ (e.stepsFor c cond.condition).flatMap Step.exprs)

theorem recordsDecision_of_mem (h : e.decide c = .ok records) (hr : r ∈ records) :
    ∃ cond ∈ c.conditions, e.RecordsDecision c cond r := by
  obtain ⟨cond, hcond, h⟩ := forall₂_mem_right (mapM_ok_iff.1 h) r hr
  obtain ⟨o, hprove, h⟩ := except_bind_ok.1 h
  obtain ⟨hgoal, hfacts, rfl⟩ := (prove_eq_ok _ _).1 hprove
  cases h
  refine ⟨cond, hcond, isBoolean_of_validateGoal hgoal,
    fun f hf => isBoolean_of_validateFact (forM_eq_ok hfacts f hf), version_conclude _ _ _,
    generation_conclude _ _ _, ?_⟩
  rw [DecisionRecord.exprs, exprs_conclude]
  rfl

/-- What is assumed of a parameter with a brand is read back only if the brand is written as one. -/
theorem RecordsDecision.brandsWritten {cond : Condition} (h : e.RecordsDecision c cond r)
    (hread : ∀ x ∈ r.exprs, Expr.parse x.text = .ok x) : c.BrandsWritten := by
  intro a ha b hb
  have hfact : Fact.mk a.name (.branded a.name b) ∈ c.facts :=
    List.mem_flatMap.2 ⟨a, ha, Argument.mem_facts.2 ⟨rfl, .inl ⟨b, hb, rfl⟩⟩⟩
  have hmem : Expr.branded a.name b ∈ r.exprs := by
    rw [h.exprs]
    exact List.mem_cons_of_mem _ (List.mem_cons_of_mem _
      (List.mem_append_left _ (List.mem_map.2 ⟨_, hfact, rfl⟩)))
  cases Expr.readable_of_parse (hread _ hmem) with
  | branded _ hb => exact hb

/-- Where the brands are written as brands, everything that is stored is printable. -/
theorem RecordsDecision.printable {cond : Condition} (h : e.RecordsDecision c cond r)
    (he : e.registry.Writable) (hcondition : cond.condition.Printable) (hc : c.Plain)
    (hbrands : c.BrandsWritten) : ∀ x ∈ r.exprs, x.Printable := by
  have hfacts := Contract.printable_of_mem_facts hc hbrands
  have hgoal := (Catalog.printable_expand he.brands hcondition h.condition).canonical
  have hknown : (Known.ofFacts e.registry.brands c.facts).Printable :=
    Known.printable_ofFacts he.brands (fun f hf => ⟨hfacts f hf, h.facts f hf⟩)
      (Contract.ordinary_of_mem_facts hc)
  have hsteps : ∀ s ∈ e.stepsFor c cond.condition, ∀ x ∈ s.exprs, x.Printable := by
    intro s hs
    refine List.forall_mem_append.2 ⟨List.forall_mem_map.2 fun f hf => ?_,
      printable_subgoals_search (fun rule h => (he.rules rule h).2) hgoal hknown hs⟩
    exact hfacts f
      (cites_search Known.grounded_ofFacts (fun rule h => (he.rules rule h).1) hs hf)
  rw [h.exprs]
  exact List.forall_mem_cons.2 ⟨hcondition, List.forall_mem_cons.2 ⟨hcondition,
    List.forall_mem_append.2 ⟨List.forall_mem_map.2 hfacts, List.forall_mem_flatMap.2 hsteps⟩⟩⟩

/-- **When decision records are read back.** A record comes back, apart from its stamp, just when
every expression in it is read back from its text. That takes brands of parameters that are written
as brands. For a contract with ordinary names and no quotes in its text literals it takes nothing
else, whatever the settings and the solver, under a registry whose brands and rules keep to what is
printable. -/
theorem decide_roundtrip (e : Engine) (he : e.registry.generation ≤ Json.max64) (j : Json)
    (c : Contract) (hj : Contract.ofJson? j = some c) (records : List DecisionRecord)
    (h : e.decide c = .ok records) (r : DecisionRecord) (hr : r ∈ records) :
    (DecisionRecord.ofJson? r.toJson = some r.unstamped ↔
        ∀ x ∈ r.exprs, Expr.parse x.text = .ok x) ∧
      ((∀ x ∈ r.exprs, Expr.parse x.text = .ok x) → c.BrandsWritten) ∧
      (e.registry.Writable → c.Plain → c.BrandsWritten →
        ∀ x ∈ r.exprs, Expr.parse x.text = .ok x) := by
  obtain ⟨cond, hcond, hrecord⟩ := recordsDecision_of_mem h hr
  have hversion : r.certificate.version ≤ Json.max32 := hrecord.version ▸ by decide
  have hgeneration : r.certificate.generation ≤ Json.max64 := hrecord.generation ▸ he
  refine ⟨DecisionRecord.ofJson?_toJson_iff hversion hgeneration, hrecord.brandsWritten, ?_⟩
  intro hregistry hc hbrands x hx
  have hcondition : cond.condition.Printable :=
    (hc.conditions cond hcond).printable (Contract.readable_of_ofJson? hj cond hcond)
  exact (hrecord.printable hregistry hcondition hc hbrands x hx).parse_eq

/-- Conditions and facts that pass validation are decided, each condition in a record. -/
theorem exists_decide (hgoals : ∀ cond ∈ c.conditions, validateGoal cond.condition = .ok ())
    (hfacts : ∀ f ∈ c.facts, validateFact f = .ok ()) :
    ∃ records, e.decide c = .ok records ∧ records.length = c.conditions.length := by
  obtain ⟨records, h⟩ : ∃ records, e.decide c = .ok records := by
    refine exists_mapM_ok fun cond hcond => ?_
    have hprove := (prove_eq_ok (e := e) ⟨cond.condition, cond.brand⟩ c.facts).2
      ⟨hgoals cond hcond, forM_ok hfacts, rfl⟩
    exact ⟨_, except_bind_ok.2 ⟨_, hprove, rfl⟩⟩
  exact ⟨records, h, (mapM_ok_iff.1 h).length_eq.symm⟩

/-- A number and a length are added, of parameters with brands, in a registry with a rule of its own:
the rule for sums lists a subgoal for each of them. -/
theorem decide_roundtrip_sum :
    let j : Json := .obj [("function", .str "f"),
      ("params", .arr [
        .obj [("name", .str "x"), ("brand", .str "Positive"), ("refinement", .str "$ >= 0")],
        .obj [("name", .str "v"), ("brand", .str "Vec<3>")]]),
      ("conditions", .arr [
        .obj [("kind", .str "precondition"), ("expr", .str "x + v.length > 0")]])]
    let registry := (Registry.builtin 0).apply (.rule (.ofTest "any" "x" fun _ _ => .ok true))
    ∃ c r, Contract.ofJson? j = some c ∧ decide ⟨registry, {}, none⟩ c = .ok [r] ∧
      c.Plain ∧ c.BrandsWritten ∧ DecisionRecord.ofJson? r.toJson = some r.unstamped := by
  have hrefinement : Expr.parse "$ >= 0" = .ok (.compare .ge (.var "$") (.num .zero)) := by cbv
  intro j registry
  let sum : Expr := .compare .gt (.arith .add (.var "x") (.member (.var "v") "length")) (.num .zero)
  let c : Contract := ⟨"f", [⟨"x", some "Positive", some "$ >= 0"⟩, ⟨"v", some "Vec<3>", none⟩],
    [⟨.precondition, sum, none⟩]⟩
  have hj : Contract.ofJson? j = some c := by cbv
  have hordinary : ∀ y ∈ ["x", "v", "$"], Expr.Ordinary y := by
    simp only [List.forall_mem_cons]
    refine ⟨?_, ?_, ?_, List.forall_mem_nil _⟩ <;>
      exact ⟨⟨by rfl, by decide, by decide⟩, by decide⟩
  have hplain : c.Plain := by
    refine ⟨List.forall_mem_singleton.2 ⟨fun y hy => hordinary y ?_, by decide⟩,
      List.forall_mem_cons.2 ⟨hordinary "x" (by decide),
        List.forall_mem_singleton.2 (hordinary "v" (by decide))⟩,
      List.forall_mem_cons.2 ⟨?_, List.forall_mem_singleton.2 ?_⟩⟩
    · revert y
      decide
    · rintro t p ⟨⟩ hparse
      cases hrefinement.symm.trans hparse
      exact ⟨List.forall_mem_singleton.2 (hordinary "$" (by decide)), by decide⟩
    · rintro t p ⟨⟩
  have hbrands : c.BrandsWritten := by
    refine List.forall_mem_cons.2 ⟨?_, List.forall_mem_singleton.2 ?_⟩
    · rintro b ⟨⟩
      exact .plain (by rfl)
    · rintro b ⟨⟩
      exact @Expr.IsBrand.numbered "Vec" [['3']] (by rfl) (by simp [Fraction.Digits])
  have hfacts : ∀ f ∈ c.facts, validateFact f = .ok () := by
    have hlist : c.facts = [⟨"x", .branded "x" "Positive"⟩,
        ⟨"x", .compare .ge (.var "$") (.num .zero)⟩, ⟨"v", .branded "v" "Vec<3>"⟩] := by
      simp [c, Contract.facts, Argument.facts, hrefinement, Except.toOption]
    rw [hlist]
    decide
  have hregistry : registry.Writable := (Registry.builtin_writable 0).apply
    ⟨Rule.ofTest_citesKnown _ _ _, Rule.ofTest_reportsPrintable _ _ _⟩
  have hgeneration : registry.generation ≤ Json.max64 := Nat.succ_le_succ (Nat.zero_le _)
  clear_value registry
  obtain ⟨records, h, hlength⟩ := exists_decide (e := ⟨registry, {}, none⟩) (c := c)
    (List.forall_mem_singleton.2 (by rfl)) hfacts
  obtain ⟨r, rfl⟩ := List.length_eq_one_iff.1 hlength
  refine ⟨c, r, hj, h, hplain, hbrands, ?_⟩
  have hroundtrip := decide_roundtrip _ hgeneration j c hj [r] h r (List.mem_singleton.2 rfl)
  exact hroundtrip.1.2 (hroundtrip.2.2 hregistry hplain hbrands)

/-- A parameter whose brand holds a blank: what is assumed of it cannot be read. -/
theorem decide_roundtrip_blank :
    let j : Json := .obj [("function", .str "f"),
      ("params", .arr [.obj [("name", .str "x"), ("brand", .str "Non Empty")]]),
      ("conditions", .arr [.obj [("kind", .str "precondition"), ("expr", .str "x > 0")]])]
    ∃ c r, Contract.ofJson? j = some c ∧ decide ⟨Registry.builtin 0, {}, none⟩ c = .ok [r] ∧
      ¬ (∀ x ∈ r.exprs, Expr.parse x.text = .ok x) ∧
      DecisionRecord.ofJson? r.toJson ≠ some r.unstamped := by
  intro j
  let c : Contract := ⟨"f", [⟨"x", some "Non Empty", none⟩],
    [⟨.precondition, .compare .gt (.var "x") (.num .zero), none⟩]⟩
  have hj : Contract.ofJson? j = some c := by cbv
  obtain ⟨records, h, hlength⟩ := exists_decide (e := ⟨Registry.builtin 0, {}, none⟩) (c := c)
    (List.forall_mem_singleton.2 (by rfl)) (List.forall_mem_singleton.2 (by rfl))
  obtain ⟨r, rfl⟩ := List.length_eq_one_iff.1 hlength
  obtain ⟨cond, _, hrecord⟩ := recordsDecision_of_mem h (List.mem_singleton.2 rfl)
  have hunread : ¬ ∀ x ∈ r.exprs, Expr.parse x.text = .ok x := by
    intro hread
    have hbrand := hrecord.brandsWritten hread _ (List.mem_singleton.2 rfl) "Non Empty" rfl
    rcases hbrand.isName_or_numbered with hname | hopen
    · cases hname
    · exact absurd hopen (by decide)
  refine ⟨c, r, hj, h, hunread, fun hback => hunread ?_⟩
  exact (DecisionRecord.ofJson?_toJson_iff (hrecord.version ▸ by decide)
    (hrecord.generation ▸ Nat.zero_le _)).1 hback

end Engine

end Discharge
