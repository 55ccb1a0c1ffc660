import Discharge.Proofs.Fact.Retained
import Discharge.Proofs.Linear.Order
import Discharge.Proofs.Linear.Progress
import Discharge.Proofs.Linear.Shape

/-!
# Linear proofs from other facts

A proof by shape needs only the facts that it cites (`LinearProof.byShape_local`). A refutation
depends on all linear comparisons. It is the same where the assumed constraints are the same, in
whatever order and however often they occur (`LinearProof.refute_congr`). Where there are more of
them, what was refuted is refuted again or meets a limit (`LinearProof.refute_mono`): since
elimination is exact, it cannot find the larger system feasible.
-/

namespace Discharge.LinearProof

variable {k k' : Known}

/-! ## Shapes -/

/-- A summand that was positive still is, and one that was not negative is that or positive. -/
theorem boundedSummand_local {s : Expr} {u : List Fact × Bool}
    (h : (match k.positive? s with
      | some fs => some (fs, true)
      | none => (k.nonNegative? s).map (·, false)) = some u) (hk : k'.Retains k u.1) :
    ∃ v, (match k'.positive? s with
      | some fs => some (fs, true)
      | none => (k'.nonNegative? s).map (·, false)) = some v ∧ (u.2 = true → v.2 = true) := by
  split at h
  · rename_i fs hfs
    obtain rfl := Option.some.inj h
    obtain ⟨gs, hgs⟩ := Known.Retains.positive? hfs hk
    rw [hgs]
    exact ⟨_, rfl, id⟩
  · obtain ⟨fs, hfs, rfl⟩ := Option.map_eq_some_iff.1 h
    obtain ⟨gs, hgs⟩ := Known.Retains.nonNegative? hfs hk
    cases k'.positive? s with
    | some gs' => exact ⟨_, rfl, fun hfalse => absurd hfalse Bool.false_ne_true⟩
    | none =>
      rw [hgs]
      exact ⟨_, rfl, fun hfalse => absurd hfalse Bool.false_ne_true⟩

theorem sumOfBounded?_local {term : Expr} {q : Fraction} {strict : Bool} {reasoned : Reasoned}
    (h : sumOfBounded? term q strict k = some reasoned) (hk : k'.Retains k reasoned.2) :
    (sumOfBounded? term q strict k').isSome = true := by
  unfold sumOfBounded? at h ⊢
  dsimp only at h ⊢
  split at h
  · cases h
  rename_i hshape
  obtain ⟨used, hused, h⟩ := Option.bind_eq_some_iff.1 h
  have hall := mapM_eq_some.1 hused
  split at h
  · cases h
  rename_i hstrict
  obtain rfl := Option.some.inj h
  have hku : ∀ u ∈ used, k'.Retains k u.1 := fun u hu =>
    hk.subset fun f hf => List.mem_flatMap.2 ⟨u, hu, hf⟩
  obtain ⟨used', hused'⟩ := Option.isSome_iff_exists.1 (isSome_mapM.2 fun s hs => by
    obtain ⟨u, hu, hsu⟩ := forall₂_mem_left hall s hs
    obtain ⟨v, hv, _⟩ := boundedSummand_local hsu (hku u hu)
    exact Option.isSome_iff_exists.2 ⟨v, hv⟩)
  rw [if_neg hshape, Option.isSome_iff_exists]
  refine ⟨_, Option.bind_eq_some_iff.2 ⟨used', hused', if_neg ?_⟩⟩
  cases strict with
  | false => simp
  | true =>
    obtain ⟨u, hu, hpos⟩ : ∃ u ∈ used, u.2 = true := by simpa using hstrict
    obtain ⟨s, hs, hsu⟩ := forall₂_mem_right hall u hu
    obtain ⟨v, hv, huv⟩ := boundedSummand_local hsu (hku u hu)
    obtain ⟨w, hw, hsw⟩ := forall₂_mem_left (mapM_eq_some.1 hused') s hs
    rw [hv] at hsw
    obtain rfl := Option.some.inj hsw
    simpa using ⟨v.1, huv hpos ▸ hw⟩

/-- A known bound implies a bound when it is at least as tight. -/
theorem weaker_iff {x y : ℚ} {strict known lt le eq : Bool} (hlt : lt = true ↔ x < y)
    (hle : le = true ↔ x ≤ y) (heq : eq = true ↔ y = x) :
    (if strict = true then lt || (eq && known) else le) = true ↔
      Known.tightness x strict ≤ Known.tightness y known := by
  rw [Known.tightness_le]
  cases strict with
  | false => simp [hle, le_iff_lt_or_eq]
  | true => simp [hlt, heq, @eq_comm ℚ y]

theorem weakerLower?_local {term : Expr} {q : Fraction} {strict : Bool} {reasoned : Reasoned}
    (h : weakerLower? term q strict k = some reasoned) (hk : k'.Retains k reasoned.2) :
    (weakerLower? term q strict k').isSome = true := by
  have hweaker : ∀ b : Bound,
      (if strict = true then q.lt b.value || (b.value == q && b.strict) else q.le b.value) = true ↔
        Known.tightness q.toRat strict ≤ Known.lowerTightness b := fun b =>
    weaker_iff Fraction.lt_iff Fraction.le_iff (by rw [beq_iff_eq, Fraction.toRat_inj])
  refine Known.isSome_shown hweaker h fun b hb hreasoned => ?_
  subst hreasoned
  exact Known.Retains.lowerBound? hb hk

theorem weakerUpper?_local {term : Expr} {q : Fraction} {strict : Bool} {reasoned : Reasoned}
    (h : weakerUpper? term q strict k = some reasoned) (hk : k'.Retains k reasoned.2) :
    (weakerUpper? term q strict k').isSome = true := by
  have hweaker : ∀ b : Bound,
      (if strict = true then b.value.lt q || (b.value == q && b.strict) else b.value.le q) = true ↔
        Known.tightness (-q.toRat) strict ≤ Known.upperTightness b := fun b =>
    weaker_iff (by rw [neg_lt_neg_iff, Fraction.lt_iff]) (by rw [neg_le_neg_iff, Fraction.le_iff])
      (by rw [beq_iff_eq, neg_inj, Fraction.toRat_inj])
  refine Known.isSome_shown hweaker h fun b hb hreasoned => ?_
  subst hreasoned
  exact Known.Retains.upperBound? hb hk

/-- An ordering of linear terms that a retained fact states is among those that can be chained. -/
theorem linearOrdering_local {fs : List Fact} (hk : k'.Retains k fs) {c : Comparison}
    (hc : c ∈ linearOrderings k) (hf : c.fact ∈ fs) :
    ∃ i, { c with source := i } ∈ linearOrderings k' := by
  obtain ⟨hc, hlinear⟩ := List.mem_filter.1 hc
  obtain ⟨i, hi⟩ := hk.comparison hc hf
  exact ⟨i, List.mem_filter.2 ⟨hi, hlinear⟩⟩

theorem chained?_local {a c : Expr} {strict : Bool} {reasoned : Reasoned}
    (h : chained? a c strict k = some reasoned) (hk : k'.Retains k reasoned.2) :
    (chained? a c strict k').isSome = true := by
  simp only [chained?, Option.orElse_eq_orElse, Option.orElse_eq_or, Option.isSome_or,
    Bool.or_eq_true] at h ⊢
  rcases Option.or_eq_some_iff.1 h with hdirect | ⟨_, htwo⟩
  · left
    obtain ⟨x, hx, hfound⟩ := List.exists_of_findSome?_eq_some hdirect
    split at hfound
    · rename_i hmatch
      obtain rfl := Option.some.inj hfound
      obtain ⟨i, hi⟩ := linearOrdering_local hk hx (List.mem_singleton.2 rfl)
      refine List.findSome?_isSome_iff.2 ⟨_, hi, ?_⟩
      rw [if_pos hmatch]
      rfl
    · cases hfound
  · right
    obtain ⟨first, hfirst, second, hsecond, hchain, rfl⟩ := Known.findChain?_eq_some htwo
    obtain ⟨i, hi⟩ := linearOrdering_local hk hfirst List.mem_cons_self
    obtain ⟨j, hj⟩ := linearOrdering_local hk hsecond
      (List.mem_cons_of_mem _ List.mem_cons_self)
    exact Known.isSome_findChain? hi hj hchain

theorem shape?_local {l r : Expr} {strict : Bool} {reasoned : Reasoned}
    (h : shape? l r strict k = some reasoned) (hk : k'.Retains k reasoned.2) :
    (shape? l r strict k').isSome = true := by
  simp only [shape?, Option.orElse_eq_orElse, Option.orElse_eq_or, Option.isSome_or,
    Bool.or_eq_true] at h ⊢
  rcases Option.or_eq_some_iff.1 h with hbounded | ⟨_, hchain⟩
  · left
    split at hbounded
    · cases hbounded
    · rcases Option.or_eq_some_iff.1 hbounded with hsum | ⟨_, hlower⟩
      · simp [sumOfBounded?_local hsum hk]
      · simp [weakerLower?_local hlower hk]
    · exact weakerUpper?_local hbounded hk
    · cases hbounded
  · exact .inr (chained?_local hchain hk)

/-- An ordering of linear terms is proved by its shape as soon as there is one. -/
theorem byShape_of_shape? {o : CompareOp} (ho : o = .gt ∨ o = .ge) {l r : Expr}
    (hl : l.linearize.isOk = true) (hr : r.linearize.isOk = true) {reasoned : Reasoned}
    (h : shape? l r o.isStrict k = some reasoned) :
    byShape (.compare o l r) k =
      ⟨"linear_fast_path", .proved, reasoned.1, reasoned.2.eraseDups⟩ := by
  have hlinear : (Expr.compare o l r).isLinear = true := by rw [Expr.isLinear, hl, hr]; rfl
  unfold byShape
  rcases ho with rfl | rfl <;> simp only [CompareOp.isStrict] at h <;> simp [hlinear, h]

/-- **A proof by shape cites what it needs.** -/
theorem byShape_local {goal : Expr} (h : (byShape goal k).proven = true)
    (hk : k'.Retains k (byShape goal k).usedFacts) : (byShape goal k').proven = true := by
  obtain ⟨o, l, r, rfl, ho, hl, hr, reasoned, hshape⟩ := byShape_eq h
  have hl := isOk_iff.2 hl
  have hr := isOk_iff.2 hr
  rw [byShape_of_shape? ho hl hr hshape] at hk
  have hk : k'.Retains k reasoned.2 := hk.subset fun f hf => List.mem_eraseDups.2 hf
  obtain ⟨reasoned', hshape'⟩ := Option.isSome_iff_exists.1 (shape?_local hshape hk)
  rw [byShape_of_shape? ho hl hr hshape']
  rfl

/-! ## Refutation from the same constraints -/

section

variable {cs ds : List Constraint} {maxRows : Nat}

theorem contradict_congr (h : ∀ c, c ∈ cs ↔ c ∈ ds) (o : CompareOp) (l r : Expr) :
    contradict cs maxRows o l r = contradict ds maxRows o l r := by
  unfold contradict
  cases Constraint.ofComparison o l r with
  | error e => rfl
  | ok c =>
    have hsame : ∀ d, d ∈ cs ++ [c] ↔ d ∈ ds ++ [c] := fun d => by
      rw [List.mem_append, List.mem_append, h]
    dsimp only
    rw [Feasibility.check_congr hsame]

/-- **A refutation depends only on which constraints are assumed.** -/
theorem refute_congr (h : ∀ c, c ∈ cs ↔ c ∈ ds) (goal : Expr) :
    refute cs maxRows goal = refute ds maxRows goal := by
  induction goal with
  | bool b => cases b <;> rfl
  | and l r ihl ihr => rw [refute, refute, ihl, ihr]
  | or l r ihl ihr => rw [refute, refute, ihl, ihr]
  | compare o l r =>
    rw [refute, refute]
    congr 1
    funext n
    exact contradict_congr h n l r
  | _ => rfl

/-! ## Refutation from more constraints -/

/-- The outcome is a proof, or a limit was met. -/
def NotRefused {α : Type} (x : Except Refusal α) : Prop :=
  (∃ a, x = .ok a) ∨ ∃ limit, x = .error (.limit limit)

theorem contradict_mono (hds : ∀ c ∈ ds, c.form.WF) (hsub : ∀ c ∈ cs, c ∈ ds) {o : CompareOp}
    {l r : Expr} {evidence : Evidence} (h : contradict cs maxRows o l r = .ok evidence) :
    NotRefused (contradict ds maxRows o l r) := by
  obtain ⟨a, b, ha, hb, hno⟩ := contradict_ok h
  obtain ⟨c, hc⟩ : ∃ c, Constraint.ofComparison o l r = .ok c := by
    unfold contradict at h
    split at h
    · cases h
    · exact ⟨_, by assumption⟩
  cases hd : contradict ds maxRows o l r with
  | ok e => exact .inl ⟨e, rfl⟩
  | error why =>
    rcases contradict_error hds hc hd with ⟨limit, rfl⟩ | ⟨σ, hσ, hgoal⟩
    · exact .inr ⟨limit, rfl⟩
    · -- A solution beside the larger system is one beside the smaller, which has none.
      exact absurd ((Expr.holdsAt_compare ha hb σ).1 hgoal) (hno σ fun c hc => hσ c (hsub c hc))

/-- **With more constraints, what was refuted is refuted again unless a limit is met.** -/
theorem refute_mono (hds : ∀ c ∈ ds, c.form.WF) (hsub : ∀ c ∈ cs, c ∈ ds) {goal : Expr}
    {evidence : List Evidence} (h : refute cs maxRows goal = .ok evidence) :
    NotRefused (refute ds maxRows goal) := by
  induction goal generalizing evidence with
  | bool b =>
    cases b with
    | true => exact .inl ⟨_, rfl⟩
    | false => cases h
  | compare o l r =>
    rw [refute] at h ⊢
    cases hd : (negations o).mapM fun n => contradict ds maxRows n l r with
    | ok e => exact .inl ⟨e, rfl⟩
    | error why =>
      obtain ⟨n, hn, hrefused⟩ := mapM_eq_error hd
      obtain ⟨_, _, hev⟩ := mapM_eq_ok h n hn
      rcases contradict_mono hds hsub hev with ⟨e, he⟩ | ⟨limit, hlimit⟩
      · rw [hrefused] at he
        cases he
      · rw [hrefused] at hlimit
        cases hlimit
        exact .inr ⟨limit, rfl⟩
  | and l r ihl ihr =>
    rw [refute] at h
    obtain ⟨_, hl, h⟩ := except_bind_ok.1 h
    obtain ⟨_, hr, _⟩ := except_bind_ok.1 h
    cases hd : refute ds maxRows (.and l r) with
    | ok e => exact .inl ⟨e, rfl⟩
    | error why =>
      rcases refute_and_error hd with hd | hd
      · exact hd ▸ ihl hl
      · exact hd ▸ ihr hr
  | or l r ihl ihr =>
    -- One side was proved; if now neither is, that side has met a limit, which is reported.
    have hside := (refute_or_ok h).imp ihl ihr
    cases hd : refute ds maxRows (.or l r) with
    | ok e => exact .inl ⟨e, rfl⟩
    | error why =>
      obtain ⟨first, second, hl, hr, ⟨⟨limit, rfl⟩, rfl⟩ | ⟨hfirst, rfl⟩⟩ := refute_or_error hd
      · exact .inr ⟨limit, rfl⟩
      · rcases hside with hleft | hright
        · rcases hl ▸ hleft with ⟨_, ⟨⟩⟩ | ⟨limit, ⟨⟩⟩
          exact absurd rfl (hfirst limit)
        · exact hr ▸ hright
  | _ => cases h

/-- A limit that ends a refutation is one on the rows, or an overflow. -/
theorem refute_limit (hcs : ∀ c ∈ cs, c.form.WF) {goal : Expr} {limit : Limit}
    (h : refute cs maxRows goal = .error (.limit limit)) : Feasibility.ByLimit maxRows limit := by
  induction goal with
  | bool b => cases b <;> cases h
  | compare o l r =>
    rw [refute] at h
    obtain ⟨n, _, hn⟩ := mapM_eq_error h
    unfold contradict at hn
    split at hn
    · cases hn
    rename_i c hc
    split at hn
    · cases hn
    · cases hn
    · rename_i limit' done hcheck
      cases hn
      have hwf : ∀ d ∈ cs ++ [c], d.form.WF := List.forall_mem_append.2
        ⟨hcs, List.forall_mem_singleton.2 (Constraint.IsComparison.wf ⟨n, l, r, hc⟩)⟩
      exact Feasibility.check_inconclusive hwf (congrArg Prod.fst hcheck)
  | and l r ihl ihr => exact (refute_and_error h).elim ihl ihr
  | or l r ihl ihr =>
    obtain ⟨first, second, hl, hr, ⟨_, rfl⟩ | ⟨_, rfl⟩⟩ := refute_or_error h
    · exact ihl hl
    · exact ihr hr
  | _ => cases h

end

/-! ## Refutation from other facts -/

section

variable {fs : List Fact} {goal : Expr} {maxRows : Nat}

/-- A constraint that some retained fact states is assumed. -/
theorem mem_assumed_of_retains (hk : k'.Retains k fs)
    (hfs : ∀ c ∈ k.comparisons, (constraintOf? c).isSome = true → c.fact ∈ fs) :
    ∀ d ∈ assumed k, d ∈ assumed k' := by
  intro d hd
  obtain ⟨c, hc, hcd⟩ := List.mem_filterMap.1 hd
  obtain ⟨i, hi⟩ := hk.comparison hc (hfs c hc (hcd ▸ rfl))
  exact List.mem_filterMap.2 ⟨_, hi, hcd⟩

/-- More facts state more constraints. -/
theorem assumed_mono {c : Catalog} {facts facts' : List Fact} (hsub : ∀ f ∈ facts, f ∈ facts') :
    ∀ d ∈ assumed (.ofFacts c facts), d ∈ assumed (.ofFacts c facts') :=
  mem_assumed_of_retains (Known.retains_ofFacts fun f hf _ => hsub f hf)
    fun _ hd _ => Known.grounded_ofFacts.comparison hd

/-- A refutation cites every fact that states a constraint. -/
theorem byRefutation_cites (h : (byRefutation goal k maxRows).proven = true) {c : Comparison}
    (hc : c ∈ k.comparisons) (hlinear : (constraintOf? c).isSome = true) :
    c.fact ∈ (byRefutation goal k maxRows).usedFacts := by
  obtain ⟨d, hd⟩ := Option.isSome_iff_exists.1 hlinear
  unfold byRefutation at h ⊢
  dsimp only at h ⊢
  split at h
  · refine List.mem_eraseDups.2 (List.mem_map.2 ⟨(d, c.fact), ?_, rfl⟩)
    exact List.mem_filterMap.2 ⟨c, hc, Option.map_eq_some_iff.2 ⟨d, hd, rfl⟩⟩
  · cases h
  · cases h

/-- A refutation succeeds wherever the same constraints are assumed. -/
theorem byRefutation_congr (h : ∀ d, d ∈ assumed k ↔ d ∈ assumed k') :
    (byRefutation goal k maxRows).status = (byRefutation goal k' maxRows).status := by
  rw [status_byRefutation, status_byRefutation, refute_congr h]

/-- A refutation that succeeds does so again when more constraints are assumed, or meets a limit. -/
theorem byRefutation_mono (hsub : ∀ d ∈ assumed k, d ∈ assumed k')
    (h : (byRefutation goal k maxRows).proven = true) :
    (byRefutation goal k' maxRows).proven = true ∨
      ∃ limit, Feasibility.ByLimit maxRows limit ∧
        byRefutation goal k' maxRows = ⟨"fourier_motzkin", .inconclusive, limit.message, []⟩ := by
  obtain ⟨evidence, hev⟩ := proven_byRefutation.1 h
  rcases refute_mono (wf_assumed k') hsub hev with hok | ⟨limit, hlimit⟩
  · exact .inl (proven_byRefutation.2 hok)
  · refine .inr ⟨limit, refute_limit (wf_assumed k') hlimit, ?_⟩
    rw [byRefutation_eq, hlimit]

end

end Discharge.LinearProof
