import Discharge.Proofs.Engine.Soundness
import Discharge.Proofs.Linear.Retained
import Discharge.Proofs.Rule.Retained

/-!
# What a proof rests on

Apart from its value, a goal is proved in one of four ways, each of which rests on certain facts
(`Engine.Proves`). Without a solver the search takes the first method that succeeds
(`Engine.method?_searchWhole`), and one of its steps is that proof and cites those facts
(`Engine.exists_step_of_isProven`). Two searches can therefore be compared way by way: where the
facts of a proof are retained there is a proof by the same method again (`Engine.Proves.retained`).
-/

namespace Discharge

/-- The method of the proof, if one has been found. -/
def Verdict.method? : Verdict → Option Method
  | .proven m => some m
  | _ => none

theorem Attempt.isProven_eq (a : Attempt) : a.isProven = a.verdict.method?.isSome := by
  unfold isProven
  cases a.verdict <;> rfl

namespace Engine

variable {e : Engine} {goal : Expr} {k k' : Known}

/-- A way to prove a goal by a method from given facts. -/
inductive Proves (e : Engine) (goal : Expr) (k : Known) : Method → List Fact → Prop
  | support {supports : List (Fact × Option (List Edge))}
      (h : goal.conjuncts.mapM (e.support? k) = some supports) :
      Proves e goal k .typeIdentity (supports.map (·.1)).eraseDups
  | rule {r : Rule} {found : RuleMatch} (hr : r ∈ e.registry.rules)
      (h : r.run goal k = .matched found) : Proves e goal k .algebraic found.usedFacts
  | shape (hfast : e.config.fastPath = true) (h : (LinearProof.byShape goal k).proven = true) :
      Proves e goal k .linear (LinearProof.byShape goal k).usedFacts
  | refutation (hfm : e.config.fourierMotzkin = true)
      (h : (LinearProof.byRefutation goal k e.config.maxRows).proven = true) :
      Proves e goal k .linear (LinearProof.byRefutation goal k e.config.maxRows).usedFacts

/-! ## Support by facts -/

/-- A condition that a fact states is supported by that fact. -/
theorem support?_of_identical {p : Expr} {a : Atom} (h : k.identical? p = some a) :
    e.support? k p = some (a.fact, none) := by
  rw [support?, h]

theorem identicalFacts?_eq_some {used : List Fact} (h : identicalFacts? goal k = some used) :
    ∃ supports, goal.conjuncts.mapM (e.support? k) = some supports ∧
      (supports.map (·.1)).eraseDups = used := by
  obtain ⟨atoms, hatoms, h⟩ := Option.bind_eq_some_iff.1 h
  refine ⟨atoms.map fun a => (a.fact, none), mapM_eq_some.2 ?_, ?_⟩
  · exact List.forall₂_map_right_iff.2
      ((mapM_eq_some.1 hatoms).imp fun _ _ => support?_of_identical)
  · rw [List.map_map]
    exact Option.some.inj h

/-- A goal whose conjuncts are supported but not all stated takes a widening. -/
theorem widenedFacts?_of_supports (hid : identicalFacts? goal k = none)
    {supports : List (Fact × Option (List Edge))}
    (h : goal.conjuncts.mapM (e.support? k) = some supports) :
    ∃ edges, e.widenedFacts? goal k = some ((supports.map (·.1)).eraseDups, edges) := by
  have hwiden : supports.any (·.2.isSome) = true := by
    by_contra hnone
    have hall : ∀ p ∈ goal.conjuncts, (k.identical? p).isSome = true := by
      intro p hp
      obtain ⟨s, hs, hps⟩ := forall₂_mem_left (mapM_eq_some.1 h) p hp
      unfold support? at hps
      split at hps
      · rename_i a ha
        exact ha ▸ rfl
      · obtain ⟨f, _, hf⟩ := List.exists_of_findSome?_eq_some hps
        obtain ⟨path, _, rfl⟩ := Option.map_eq_some_iff.1 hf
        exact absurd (List.any_eq_true.2 ⟨_, hs, rfl⟩) hnone
    obtain ⟨atoms, hatoms⟩ := Option.isSome_iff_exists.1 (isSome_mapM.2 hall)
    simp [identicalFacts?, hatoms] at hid
  exact ⟨_, Option.bind_eq_some_iff.2 ⟨supports, h, if_pos hwiden⟩⟩

/-- A goal that the facts support is proved by identity or widening, in one step. -/
theorem searchWhole_of_supports (hvalue : byValue? goal = none)
    {supports : List (Fact × Option (List Edge))}
    (h : goal.conjuncts.mapM (e.support? k) = some supports) :
    ∃ s, e.searchWhole goal k = { verdict := .proven .typeIdentity, steps := [s] } ∧
      s.rule = "type_identity" ∧ s.status = .proved ∧
      s.usedFacts = (supports.map (·.1)).eraseDups := by
  simp only [searchWhole, hvalue]
  cases hid : identicalFacts? goal k with
  | some used =>
    obtain ⟨supports', h', rfl⟩ := identicalFacts?_eq_some (e := e) hid
    obtain rfl : supports = supports' := Option.some.inj (h.symm.trans h')
    simp [byIdentity?, hid]
  | none =>
    obtain ⟨edges, hedges⟩ := widenedFacts?_of_supports hid h
    simp [byIdentity?, hid, byWidening?, hedges]

theorem searchWhole_of_no_supports (hvalue : byValue? goal = none)
    (h : goal.conjuncts.mapM (e.support? k) = none) :
    e.searchWhole goal k = e.byProcedure goal k := by
  have hid : identicalFacts? goal k = none := by
    by_contra hsome
    obtain ⟨used, hused⟩ := Option.ne_none_iff_exists'.1 hsome
    obtain ⟨supports, hsupports, _⟩ := identicalFacts?_eq_some (e := e) hused
    rw [h] at hsupports
    cases hsupports
  simp [searchWhole, hvalue, byIdentity?, hid, byWidening?, widenedFacts?, h]

/-! ## Rules and linear arithmetic -/

theorem anyProved_nil : anyProved [] = false := rfl

/-- A rule that matches leaves a step that proves the goal, and no other does. -/
theorem mem_runRules {s : Step} (hs : s.status = .proved) (h : s ∈ (e.runRules goal k).1) :
    e.Proves goal k .algebraic s.usedFacts := by
  obtain ⟨⟨r, o⟩, ho, rfl⟩ := List.mem_map.1 h
  obtain ⟨r, hr, ⟨⟩⟩ := List.mem_map.1 ho
  dsimp only at hs ⊢
  cases hrun : r.run goal k with
  | matched found => exact .rule hr hrun
  | declined => simp [hrun, ruleStep] at hs
  | faulted fault => simp [hrun, ruleStep] at hs

theorem anyProved_runRules :
    anyProved (e.runRules goal k).1 = true ↔ ∃ fs, e.Proves goal k .algebraic fs := by
  constructor
  · intro h
    obtain ⟨s, hs, hproved⟩ := List.any_eq_true.1 h
    exact ⟨_, mem_runRules (beq_iff_eq.1 hproved) hs⟩
  · rintro ⟨_, hproves⟩
    cases hproves with
    | rule hr h =>
      refine List.any_eq_true.2 ⟨_, List.mem_map.2 ⟨_, List.mem_map.2 ⟨_, hr, rfl⟩, rfl⟩, ?_⟩
      simp [h, ruleStep]

/-- The step of a search for a shape. -/
def shapeStep (goal : Expr) (k : Known) : Step :=
  (LinearProof.byShape goal k).toStep "linear arithmetic fast path"

/-- The step of a search by refutation. -/
def refutationStep (goal : Expr) (k : Known) (maxRows : Nat) : Step :=
  (LinearProof.byRefutation goal k maxRows).toStep "Fourier–Motzkin refutation"

/-- Which steps linear arithmetic takes: refutation is left out where a shape proves the goal. -/
theorem mem_runLinear_iff {s : Step} :
    s ∈ e.runLinear goal k ↔
      e.config.fastPath = true ∧ s = shapeStep goal k ∨
      ¬ (e.config.fastPath = true ∧ (LinearProof.byShape goal k).proven = true) ∧
        e.config.fourierMotzkin = true ∧ s = refutationStep goal k e.config.maxRows := by
  have hproven : ((shapeStep goal k).status == .proved) = (LinearProof.byShape goal k).proven := rfl
  unfold runLinear
  cases e.config.fastPath <;> cases e.config.fourierMotzkin <;>
    cases h : (LinearProof.byShape goal k).proven <;>
    simp_all [anyProved, shapeStep, refutationStep]

theorem mem_runLinear_proved {s : Step} (hs : s.status = .proved) (h : s ∈ e.runLinear goal k) :
    e.Proves goal k .linear s.usedFacts := by
  rcases mem_runLinear_iff.1 h with ⟨hfast, rfl⟩ | ⟨_, hfm, rfl⟩
  · exact .shape hfast (beq_iff_eq.2 hs)
  · exact .refutation hfm (beq_iff_eq.2 hs)

theorem anyProved_runLinear :
    anyProved (e.runLinear goal k) = true ↔ ∃ fs, e.Proves goal k .linear fs := by
  constructor
  · intro h
    obtain ⟨s, hs, hproved⟩ := List.any_eq_true.1 h
    exact ⟨_, mem_runLinear_proved (beq_iff_eq.1 hproved) hs⟩
  · rintro ⟨_, hproves⟩
    by_cases hshape : e.config.fastPath = true ∧ (LinearProof.byShape goal k).proven = true
    · exact List.any_eq_true.2 ⟨_, mem_runLinear_iff.2 (.inl ⟨hshape.1, rfl⟩), hshape.2⟩
    · cases hproves with
      | shape hfast h => exact absurd ⟨hfast, h⟩ hshape
      | refutation hfm h =>
        exact List.any_eq_true.2 ⟨_, mem_runLinear_iff.2 (.inr ⟨hshape, hfm, rfl⟩), h⟩

/-! ## The goal as a whole -/

section

variable (hsolver : e.solver = none)
include hsolver

/-- Without a solver, the rules and then linear arithmetic decide how the attempt ends. -/
theorem byProcedure_eq :
    e.byProcedure goal k =
      { verdict :=
          if anyProved (e.runRules goal k).1 then .proven .algebraic
          else if anyProved (e.runLinear goal k) then .proven .linear
          else .unproven ("no strategy proved `" ++ goal.text ++ "`")
        steps := (e.runRules goal k).1 ++
          if anyProved (e.runRules goal k).1 then [] else e.runLinear goal k
        warnings := (e.runRules goal k).2 } := by
  have hrun : e.runSolver goal k = ([], []) := by simp [runSolver, hsolver]
  unfold byProcedure
  cases hrules : anyProved (e.runRules goal k).1 <;>
    cases hlinear : anyProved (e.runLinear goal k) <;>
    simp [hrun, hrules, hlinear, anyProved_nil]

variable (hvalue : byValue? goal = none)
include hvalue

open Classical in
/-- The method of a proof is the first one by which there is a proof. -/
theorem method?_searchWhole :
    (e.searchWhole goal k).verdict.method? =
      [Method.typeIdentity, .algebraic, .linear].find? fun m => ∃ fs, e.Proves goal k m fs := by
  cases hsupports : goal.conjuncts.mapM (e.support? k) with
  | some supports =>
    obtain ⟨s, hs, _⟩ := searchWhole_of_supports hvalue hsupports
    have hproves : ∃ fs, e.Proves goal k .typeIdentity fs := ⟨_, .support hsupports⟩
    simp [hs, hproves, Verdict.method?]
  | none =>
    have hnot : ¬ ∃ fs, e.Proves goal k .typeIdentity fs := by
      rintro ⟨_, ⟨h⟩⟩
      rw [hsupports] at h
      cases h
    rw [searchWhole_of_no_supports hvalue hsupports, byProcedure_eq hsolver]
    simp only [anyProved_runRules, anyProved_runLinear, List.find?_cons, hnot, decide_false]
    by_cases hrule : ∃ fs, e.Proves goal k .algebraic fs
    · simp [hrule, Verdict.method?]
    · by_cases hlinear : ∃ fs, e.Proves goal k .linear fs <;> simp [hrule, hlinear, Verdict.method?]

theorem isProven_searchWhole_iff :
    (e.searchWhole goal k).isProven = true ↔ ∃ m fs, e.Proves goal k m fs := by
  classical
  rw [Attempt.isProven_eq, method?_searchWhole hsolver hvalue, List.find?_isSome]
  simp only [decide_eq_true_eq]
  constructor
  · rintro ⟨m, _, hm⟩
    exact ⟨m, hm⟩
  · rintro ⟨m, fs, h⟩
    refine ⟨m, ?_, fs, h⟩
    cases h <;> simp

/-- **A proof is one of its steps**, which cites the facts that the proof rests on. -/
theorem exists_step_of_isProven (h : (e.searchWhole goal k).isProven = true) :
    ∃ s ∈ (e.searchWhole goal k).steps, s.status = .proved ∧
      ∃ m, e.Proves goal k m s.usedFacts := by
  cases hsupports : goal.conjuncts.mapM (e.support? k) with
  | some supports =>
    obtain ⟨s, hs, _, hproved, hused⟩ := searchWhole_of_supports hvalue hsupports
    rw [hs]
    exact ⟨s, List.mem_singleton.2 rfl, hproved, .typeIdentity, hused ▸ .support hsupports⟩
  | none =>
    rw [searchWhole_of_no_supports hvalue hsupports, byProcedure_eq hsolver] at h ⊢
    cases hrules : anyProved (e.runRules goal k).1 with
    | true =>
      obtain ⟨s, hs, hproved⟩ := List.any_eq_true.1 hrules
      have hproved := beq_iff_eq.1 hproved
      exact ⟨s, List.mem_append_left _ hs, hproved, _, mem_runRules hproved hs⟩
    | false =>
      cases hlinear : anyProved (e.runLinear goal k) with
      | true =>
        obtain ⟨s, hs, hproved⟩ := List.any_eq_true.1 hlinear
        have hproved := beq_iff_eq.1 hproved
        exact ⟨s, List.mem_append_right _ hs, hproved, _, mem_runLinear_proved hproved hs⟩
      | false => simp [hrules, hlinear, Attempt.isProven] at h

/-- Where nothing proves the goal, the search by refutation is among the steps. -/
theorem refutationStep_mem (hfm : e.config.fourierMotzkin = true)
    (h : ¬ (e.searchWhole goal k).isProven = true) :
    refutationStep goal k e.config.maxRows ∈ (e.searchWhole goal k).steps := by
  rw [isProven_searchWhole_iff hsolver hvalue] at h
  have hno : ∀ m, ¬ ∃ fs, e.Proves goal k m fs := fun m hm => h ⟨m, hm⟩
  have hsupports : goal.conjuncts.mapM (e.support? k) = none := by
    cases hs : goal.conjuncts.mapM (e.support? k) with
    | none => rfl
    | some supports => exact absurd ⟨_, .support hs⟩ (hno .typeIdentity)
  have hrules := Bool.eq_false_iff.2 fun hany => hno .algebraic (anyProved_runRules.1 hany)
  rw [searchWhole_of_no_supports hvalue hsupports, byProcedure_eq hsolver]
  refine List.mem_append_right _ ?_
  rw [hrules]
  refine mem_runLinear_iff.2 (.inr ⟨?_, hfm, rfl⟩)
  rintro ⟨hfast, hshape⟩
  exact hno .linear ⟨_, .shape hfast hshape⟩

end

/-! ## The search -/

theorem byValue?_settles {a : Attempt} (h : byValue? goal = some a) :
    (∀ reason, a.verdict ≠ .unproven reason) ∧ a.warnings = [] := by
  unfold byValue? at h
  dsimp only at h
  split at h
  · cases h
  · split at h <;> cases h <;> exact ⟨nofun, rfl⟩

/-- A goal that its value does not settle is proven or left open. -/
theorem verdict_searchWhole (hvalue : byValue? goal = none) :
    (∃ m, (e.searchWhole goal k).verdict = .proven m) ∨
      ∃ reason, (e.searchWhole goal k).verdict = .unproven reason := by
  cases hsupports : goal.conjuncts.mapM (e.support? k) with
  | some supports =>
    obtain ⟨s, hs, _⟩ := searchWhole_of_supports hvalue hsupports
    exact .inl ⟨.typeIdentity, by rw [hs]⟩
  | none =>
    rw [searchWhole_of_no_supports hvalue hsupports]
    unfold byProcedure
    dsimp only
    split
    · exact .inl ⟨_, rfl⟩
    split
    · exact .inl ⟨_, rfl⟩
    dsimp only
    split
    · exact .inl ⟨_, rfl⟩
    · exact .inr ⟨_, rfl⟩

/-- A goal is split when it is a conjunction that is neither settled by its value nor proven as a
whole. -/
theorem search_eq :
    e.search goal k =
      if byValue? goal = none ∧ goal.isConjunction = true ∧
          (e.searchWhole goal k).isProven = false then
        e.searchParts goal k (e.searchWhole goal k)
      else e.searchWhole goal k := by
  unfold search
  dsimp only
  -- A value settles the goal one way or the other, so that only a goal without one is left open.
  cases hvalue : byValue? goal with
  | some a =>
    have hwhole : e.searchWhole goal k = a := by rw [searchWhole, hvalue]
    simp only [hwhole, reduceCtorEq, false_and, if_false]
    split
    · rename_i reason hreason
      exact absurd hreason ((byValue?_settles hvalue).1 reason)
    · rfl
  | none =>
    rcases verdict_searchWhole (e := e) (k := k) hvalue with ⟨m, hm⟩ | ⟨reason, hm⟩
    · simp [hm, Attempt.isProven]
    · simp [hm, Attempt.isProven]

theorem method?_searchParts {whole : Attempt} :
    (e.searchParts goal k whole).verdict.method? =
      if ∀ p ∈ goal.conjuncts, (e.searchWhole p k).isProven = true then some .conjunction
      else none := by
  split
  · rename_i hall
    have hnil : (goal.conjuncts.map fun p => (p, e.searchWhole p k)).filter
        (fun part => !part.2.isProven) = [] := by
      rw [List.filter_eq_nil_iff]
      intro part hpart
      obtain ⟨p, hp, rfl⟩ := List.mem_map.1 hpart
      simp [hall p hp]
    unfold searchParts
    dsimp only
    rw [hnil]
    rfl
  · rename_i hnot
    cases h : (e.searchParts goal k whole).verdict with
    | proven m => exact absurd (isProven_searchParts (Attempt.isProven_iff.2 ⟨m, h⟩)) hnot
    | refuted reason => rfl
    | unproven reason => rfl

theorem isProven_searchParts_iff {whole : Attempt} :
    (e.searchParts goal k whole).isProven = true ↔
      ∀ p ∈ goal.conjuncts, (e.searchWhole p k).isProven = true := by
  rw [Attempt.isProven_eq, method?_searchParts]
  split <;> simp_all

/-- A search succeeds if another one does and each goal that is proven there as a whole is proven
here. -/
theorem isProven_search_of_whole {e' : Engine}
    (hwhole : ∀ p, (e.searchWhole p k).isProven = true → (e'.searchWhole p k').isProven = true)
    (h : (e.search goal k).isProven = true) : (e'.search goal k').isProven = true := by
  rw [search_eq] at h ⊢
  split
  · rename_i hsplit
    rw [isProven_searchParts_iff]
    intro p hp
    split at h
    · exact hwhole p (isProven_searchParts_iff.1 h p hp)
    · exact absurd (hwhole goal h) (Bool.eq_false_iff.1 hsplit.2.2)
  · rename_i hopen
    split at h
    · rename_i hsplit
      by_contra hunproven
      exact hopen ⟨hsplit.1, hsplit.2.1, Bool.eq_false_iff.2 hunproven⟩
    · exact hwhole goal h

theorem mem_steps_searchParts {whole : Attempt} {p : Expr} (hp : p ∈ goal.conjuncts) {s : Step}
    (hs : s ∈ (e.searchWhole p k).steps) :
    markStep p s ∈ (e.searchParts goal k whole).steps := by
  refine List.mem_append_right _ (List.mem_cons_of_mem _ (List.mem_flatMap.2 ?_))
  exact ⟨(p, e.searchWhole p k), List.mem_map.2 ⟨p, hp, rfl⟩, List.mem_map.2 ⟨s, hs, rfl⟩⟩

/-- The steps of the certificate are those of the search. -/
theorem steps_conclude (goal : Goal) (facts : List Fact) (a : Attempt) :
    (e.conclude goal facts a).certificate.steps = a.steps := by
  unfold conclude
  cases a.verdict <;> rfl

theorem method_conclude (goal : Goal) (facts : List Fact) (a : Attempt) :
    (e.conclude goal facts a).certificate.method = a.verdict.method? := by
  unfold conclude
  cases a.verdict <;> rfl

/-! ## From other facts -/

/-- A condition that a retained fact supports is supported. -/
theorem support?_local {p : Expr} {s : Fact × Option (List Edge)} (h : e.support? k p = some s)
    (hk : k'.Retains k [s.1]) : (e.support? k' p).isSome = true := by
  unfold support? at h ⊢
  cases hid' : k'.identical? p with
  | some a => rfl
  | none =>
    split at h
    · rename_i a ha
      cases h
      obtain ⟨b, hb⟩ := Known.Retains.identical? ha hk
      rw [hid'] at hb
      cases hb
    · obtain ⟨f, hf, hpath⟩ := List.exists_of_findSome?_eq_some h
      obtain ⟨path, hpath, rfl⟩ := Option.map_eq_some_iff.1 hpath
      refine List.findSome?_isSome_iff.2 ⟨f, hk.mem f (List.mem_singleton.2 rfl) hf, ?_⟩
      simp [hpath]

/-- **A proof is found again where its facts are retained**, by the same method, if this holds of
the rules and of refutation. -/
theorem Proves.retained {m : Method} {fs : List Fact} (h : e.Proves goal k m fs)
    (hk : k'.Retains k fs)
    (hrules : ∀ r ∈ e.registry.rules, ∀ found, r.run goal k = .matched found →
      k'.Retains k found.usedFacts → ∃ found', r.run goal k' = .matched found')
    (hrefutation : e.config.fourierMotzkin = true →
      (LinearProof.byRefutation goal k e.config.maxRows).proven = true →
      k'.Retains k (LinearProof.byRefutation goal k e.config.maxRows).usedFacts →
      (LinearProof.byRefutation goal k' e.config.maxRows).proven = true) :
    ∃ fs', e.Proves goal k' m fs' := by
  cases h with
  | @support supports h =>
    have hall : ∀ p ∈ goal.conjuncts, (e.support? k' p).isSome = true := by
      intro p hp
      obtain ⟨s, hs, hps⟩ := forall₂_mem_left (mapM_eq_some.1 h) p hp
      have hmem : s.1 ∈ (supports.map (·.1)).eraseDups :=
        List.mem_eraseDups.2 (List.mem_map.2 ⟨s, hs, rfl⟩)
      exact support?_local hps (hk.subset (by simpa using hmem))
    obtain ⟨supports', h'⟩ := Option.isSome_iff_exists.1 (isSome_mapM.2 hall)
    exact ⟨_, .support h'⟩
  | rule hr h =>
    obtain ⟨found', h'⟩ := hrules _ hr _ h hk
    exact ⟨_, .rule hr h'⟩
  | shape hfast h => exact ⟨_, .shape hfast (LinearProof.byShape_local h hk)⟩
  | refutation hfm h => exact ⟨_, .refutation hfm (hrefutation hfm h hk)⟩

end Engine

end Discharge
