import Discharge.Proofs.Fact.Retained

/-!
# The tightest literal bound

A condition can state a literal bound on a term from either side; an equation states one from both
(`Side.States`). The bounds that are read off the atoms of the facts are those which some fact
states (`Side.mem_bounds_iff`), and the one that is looked up is the tightest of them
(`Side.bound?_eq_some`). Two tightest bounds imply each other, so they agree in their value and in
whether they are strict, whatever the order of the facts (`Side.Implies.antisymm`).
-/

namespace Discharge

/-- The sides from which a term can be bounded. -/
inductive Side where
  | lower
  | upper

namespace Side

/-- The tightest literal bound on a term from the given side. -/
def bound? : Side → Known → Expr → Option Bound
  | lower => Known.lowerBound?
  | upper => Known.upperBound?

/-- A condition states that the literal `q` bounds a term from the given side. -/
inductive States : Side → (term condition : Expr) → (q : Fraction) → (strict : Bool) → Prop
  | above {t : Expr} {q : Fraction} : States lower t (.compare .gt t (.num q)) q true
  | atLeast {t : Expr} {q : Fraction} : States lower t (.compare .ge t (.num q)) q false
  | below {t : Expr} {q : Fraction} : States upper t (.compare .gt (.num q) t) q true
  | atMost {t : Expr} {q : Fraction} : States upper t (.compare .ge (.num q) t) q false
  | equal {side : Side} {t : Expr} {q : Fraction} : States side t (.compare .eq t (.num q)) q false
  | equals {side : Side} {t : Expr} {q : Fraction} : States side t (.compare .eq (.num q) t) q false

/-- The bound `q` of a term implies the bound `q'` from the same side. -/
def Implies : Side → (q : Fraction) → (strict : Bool) → (q' : Fraction) → (strict' : Bool) → Prop
  | lower, q, s, q', s' => q'.toRat < q.toRat ∨ q' = q ∧ (s' = true → s = true)
  | upper, q, s, q', s' => q.toRat < q'.toRat ∨ q' = q ∧ (s' = true → s = true)

/-- Bounds that imply each other are the same. -/
theorem Implies.antisymm {side : Side} {q q' : Fraction} {s s' : Bool}
    (h : side.Implies q s q' s') (h' : side.Implies q' s' q s) : q = q' ∧ s = s' := by
  have hstrict : (s' = true → s = true) → (s = true → s' = true) → s = s' := by
    cases s <;> cases s' <;> simp
  cases side with
  | lower =>
    rcases h with hlt | ⟨rfl, hs⟩ <;> rcases h' with hlt' | ⟨hq, hs'⟩
    · exact absurd hlt (lt_asymm hlt')
    · exact absurd hlt (hq ▸ lt_irrefl _)
    · exact absurd hlt' (lt_irrefl _)
    · exact ⟨rfl, hstrict hs hs'⟩
  | upper =>
    rcases h with hlt | ⟨rfl, hs⟩ <;> rcases h' with hlt' | ⟨hq, hs'⟩
    · exact absurd hlt (lt_asymm hlt')
    · exact absurd hlt (hq ▸ lt_irrefl _)
    · exact absurd hlt' (lt_irrefl _)
    · exact ⟨rfl, hstrict hs hs'⟩

/-! ## Bounds that are read off comparisons -/

/-- The bound on a term from the given side that a comparison states. -/
def of? : Side → Expr → Comparison → Option Bound
  | lower => Known.lowerOf?
  | upper => Known.upperOf?

/-- How tight a bound from the given side is. -/
def tightness : Side → Bound → ℚ ×ₗ Bool
  | lower => Known.lowerTightness
  | upper => Known.upperTightness

/-- The tightest bound is at least as tight as each of the bounds, and is one of them. -/
theorem bound?_spec (side : Side) (k : Known) (t : Expr) :
    (∀ b, side.bound? k t = some b → b ∈ k.comparisons.filterMap (side.of? t)) ∧
      ∀ b ∈ k.comparisons.filterMap (side.of? t),
        ∃ c, side.bound? k t = some c ∧ side.tightness b ≤ side.tightness c := by
  cases side with
  | lower => exact ⟨Known.tightest?_mem, fun b hb => Known.le_tightest? Known.lowerTighter_iff hb⟩
  | upper => exact ⟨Known.tightest?_mem, fun b hb => Known.le_tightest? Known.upperTighter_iff hb⟩

theorem implies_iff {side : Side} {b c : Bound} :
    side.Implies b.value b.strict c.value c.strict ↔ side.tightness c ≤ side.tightness b := by
  cases side with
  | lower =>
    rw [tightness, Known.lowerTightness, Known.lowerTightness, Known.tightness_le,
      Fraction.toRat_inj, Implies]
  | upper =>
    rw [tightness, Known.upperTightness, Known.upperTightness, Known.tightness_le,
      neg_lt_neg_iff, neg_inj, Fraction.toRat_inj, Implies]

/-- A bound from below that is read off a comparison is one that the comparison states. -/
theorem states_of_lowerOf? {t : Expr} {c : Comparison} {b : Bound}
    (h : Known.lowerOf? t c = some b) :
    States lower t (.compare c.op c.left c.right) b.value b.strict := by
  unfold Known.lowerOf? at h
  split at h
  · rename_i hop
    obtain ⟨hl, hr, hs⟩ := Known.bound_eq_some h
    rw [hop, hl, hr, hs]
    exact .above
  · rename_i hop
    obtain ⟨hl, hr, hs⟩ := Known.bound_eq_some h
    rw [hop, hl, hr, hs]
    exact .atLeast
  · rename_i hop
    obtain ⟨hs, ⟨hl, hr⟩ | ⟨hr, hl⟩⟩ := Known.equationBound?_eq_some h <;> rw [hop, hl, hr, hs]
    · exact .equal
    · exact .equals
  · cases h

theorem states_of_upperOf? {t : Expr} {c : Comparison} {b : Bound}
    (h : Known.upperOf? t c = some b) :
    States upper t (.compare c.op c.left c.right) b.value b.strict := by
  unfold Known.upperOf? at h
  split at h
  · rename_i hop
    obtain ⟨hr, hl, hs⟩ := Known.bound_eq_some h
    rw [hop, hl, hr, hs]
    exact .below
  · rename_i hop
    obtain ⟨hr, hl, hs⟩ := Known.bound_eq_some h
    rw [hop, hl, hr, hs]
    exact .atMost
  · rename_i hop
    obtain ⟨hs, ⟨hl, hr⟩ | ⟨hr, hl⟩⟩ := Known.equationBound?_eq_some h <;> rw [hop, hl, hr, hs]
    · exact .equal
    · exact .equals
  · cases h

theorem equationBound?_equals (t : Expr) (q : Fraction) (i : Nat) (f : Fact) :
    Known.equationBound? t ⟨.eq, .num q, t, i, f⟩ = some ⟨q, false, f⟩ := by
  unfold Known.equationBound?
  split
  · rename_i hq
    obtain rfl : Expr.num q = t := hq
    rfl
  · exact if_pos rfl

/-- **The bounds that are read off a comparison are those which it states.** -/
theorem of?_eq_some_iff {side : Side} {t : Expr} {c : Comparison} {b : Bound} :
    side.of? t c = some b ↔
      side.States t (.compare c.op c.left c.right) b.value b.strict ∧ b.fact = c.fact := by
  constructor
  · intro h
    cases side with
    | lower => exact ⟨states_of_lowerOf? h, Known.fact_lowerOf? h⟩
    | upper => exact ⟨states_of_upperOf? h, Known.fact_upperOf? h⟩
  · obtain ⟨o, l, r, i, f⟩ := c
    obtain ⟨q, s, f'⟩ := b
    rintro ⟨h, rfl⟩
    cases h with
    | above => exact if_pos rfl
    | atLeast => exact if_pos rfl
    | below => exact if_pos rfl
    | atMost => exact if_pos rfl
    | equal => cases side <;> exact if_pos rfl
    | equals => cases side <;> exact equationBound?_equals _ _ _ _

theorem States.exists_compare {side : Side} {t p : Expr} {q : Fraction} {s : Bool}
    (h : side.States t p q s) : ∃ o l r, p = .compare o l r := by
  cases h <;> exact ⟨_, _, _, rfl⟩

/-- **The bounds among which the tightest is chosen are those which some fact states.** -/
theorem mem_bounds_iff {side : Side} {k : Known} {t : Expr} {b : Bound} :
    b ∈ k.comparisons.filterMap (side.of? t) ↔
      ∃ p, k.States b.fact p ∧ side.States t p b.value b.strict := by
  rw [List.mem_filterMap]
  constructor
  · rintro ⟨c, hc, hb⟩
    obtain ⟨hstates, hfact⟩ := of?_eq_some_iff.1 hb
    obtain ⟨a, ha, hac⟩ := List.mem_filterMap.1 hc
    unfold Known.comparisonOf? at hac
    split at hac
    · rename_i hcond
      cases hac
      exact ⟨_, ⟨a, ha, hcond, hfact.symm⟩, hstates⟩
    · cases hac
  · rintro ⟨p, ⟨a, ha, hcond, hfact⟩, hstates⟩
    obtain ⟨o, l, r, rfl⟩ := hstates.exists_compare
    refine ⟨⟨o, l, r, a.source, a.fact⟩, List.mem_filterMap.2 ⟨a, ha, ?_⟩, ?_⟩
    · rw [Known.comparisonOf?, hcond]
    · exact of?_eq_some_iff.2 ⟨hstates, hfact.symm⟩

/-! ## The tightest bound -/

variable {side : Side} {k : Known} {t : Expr}

theorem bound?_eq_none_iff :
    side.bound? k t = none ↔ ∀ f p q s, k.States f p → ¬ side.States t p q s := by
  constructor
  · intro hnone f p q s hp hstates
    obtain ⟨c, hc, -⟩ := (bound?_spec side k t).2 ⟨q, s, f⟩ (mem_bounds_iff.2 ⟨p, hp, hstates⟩)
    rw [hnone] at hc
    cases hc
  · intro hno
    refine Option.eq_none_iff_forall_ne_some.2 fun b hb => ?_
    obtain ⟨p, hp, hstates⟩ := mem_bounds_iff.1 ((bound?_spec side k t).1 b hb)
    exact hno b.fact p b.value b.strict hp hstates

/-- The bound that is looked up is stated by its fact, and implies every bound that is stated. -/
theorem bound?_eq_some {b : Bound} (h : side.bound? k t = some b) :
    (∃ p, k.States b.fact p ∧ side.States t p b.value b.strict) ∧
      ∀ f p q s, k.States f p → side.States t p q s → side.Implies b.value b.strict q s := by
  refine ⟨mem_bounds_iff.1 ((bound?_spec side k t).1 b h), fun f p q s hp hstates => ?_⟩
  obtain ⟨c, hc, hle⟩ := (bound?_spec side k t).2 ⟨q, s, f⟩ (mem_bounds_iff.2 ⟨p, hp, hstates⟩)
  obtain rfl : b = c := Option.some.inj (h.symm.trans hc)
  exact implies_iff.2 hle

/-- What is known with the same conditions stated bounds a term alike. -/
theorem bound?_congr {k' : Known} (h : ∀ f p, k.States f p ↔ k'.States f p) :
    (side.bound? k t).map (fun b => (b.value, b.strict)) =
      (side.bound? k' t).map fun b => (b.value, b.strict) := by
  have hnone : side.bound? k t = none ↔ side.bound? k' t = none := by
    simp only [bound?_eq_none_iff, h]
  cases hb : side.bound? k t with
  | none => rw [hnone.1 hb]
  | some b =>
    obtain ⟨b', hb'⟩ := Option.ne_none_iff_exists'.1 fun hn => by simp [hnone.2 hn] at hb
    obtain ⟨⟨p, hp, hstates⟩, himplies⟩ := bound?_eq_some hb
    obtain ⟨⟨p', hp', hstates'⟩, himplies'⟩ := bound?_eq_some hb'
    -- Each of the two bounds is stated where the other is the tightest.
    obtain ⟨hvalue, hstrict⟩ :=
      (himplies _ _ _ _ ((h _ _).2 hp') hstates').antisymm
        (himplies' _ _ _ _ ((h _ _).1 hp) hstates)
    rw [hb', Option.map_some, Option.map_some, hvalue, hstrict]

/-- Among any facts, a term has no literal bound from a side exactly when no fact states one. The
bound that is looked up otherwise is stated by an atom of the fact that comes with it, and implies
every bound on the term from that side that any fact states. Its value and whether it is strict do
not depend on the order or the repetition of the facts. -/
theorem bound?_tightest (side : Side) (c : Catalog) (facts : List Fact) (t : Expr) :
    (side.bound? (.ofFacts c facts) t = none ↔
        ∀ f ∈ facts, ∀ p ∈ f.atoms c, ∀ q s, ¬ side.States t p q s) ∧
      (∀ b, side.bound? (.ofFacts c facts) t = some b →
        (b.fact ∈ facts ∧ ∃ p ∈ b.fact.atoms c, side.States t p b.value b.strict) ∧
          ∀ f ∈ facts, ∀ p ∈ f.atoms c, ∀ q s, side.States t p q s →
            side.Implies b.value b.strict q s) ∧
      ∀ facts', (∀ f, f ∈ facts' ↔ f ∈ facts) →
        (side.bound? (.ofFacts c facts') t).map (fun b => (b.value, b.strict)) =
          (side.bound? (.ofFacts c facts) t).map fun b => (b.value, b.strict) := by
  refine ⟨?_, fun b hb => ?_, fun facts' hsame => bound?_congr fun f p => ?_⟩
  · rw [bound?_eq_none_iff]
    simp only [Known.states_ofFacts]
    exact ⟨fun h f hf p hp q s => h f p q s ⟨hf, hp⟩, fun h f p q s hp => h f hp.1 p hp.2 q s⟩
  · obtain ⟨⟨p, hp, hstates⟩, himplies⟩ := bound?_eq_some hb
    simp only [Known.states_ofFacts] at hp himplies
    exact ⟨⟨hp.1, p, hp.2, hstates⟩, fun f hf p hp q s => himplies f p q s ⟨hf, hp⟩⟩
  · rw [Known.states_ofFacts, Known.states_ofFacts, hsame]

/-- Of `x >= 1`, `x > 1` and `x == 1` the second is the tightest from below, in either order of the
facts, and the third from above. -/
theorem bound?_tightest_strict :
    let atLeast : Fact := ⟨"x", .compare .ge (.var "x") (.num .one)⟩
    let above : Fact := ⟨"x", .compare .gt (.var "x") (.num .one)⟩
    let equal : Fact := ⟨"x", .compare .eq (.var "x") (.num .one)⟩
    lower.bound? (.ofFacts .empty [atLeast, above, equal]) (.var "x") = some ⟨.one, true, above⟩ ∧
      (lower.bound? (.ofFacts .empty [equal, above, atLeast]) (.var "x")).map
        (fun b => (b.value, b.strict)) = some (.one, true) ∧
      upper.bound? (.ofFacts .empty [atLeast, above, equal]) (.var "x") =
        some ⟨.one, false, equal⟩ := by
  intro atLeast above equal
  have hlower : lower.bound? (.ofFacts .empty [atLeast, above, equal]) (.var "x") =
      some ⟨.one, true, above⟩ := by decide +kernel
  refine ⟨hlower, ?_, by decide +kernel⟩
  have horder := (bound?_tightest lower .empty [atLeast, above, equal] (.var "x")).2.2
    [equal, above, atLeast] fun f => by simp [or_comm, or_left_comm]
  rw [horder, hlower]
  rfl

end Side

end Discharge
