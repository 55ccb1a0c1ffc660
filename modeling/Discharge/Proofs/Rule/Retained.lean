import Discharge.Proofs.Fact.Retained
import Discharge.Proofs.Rule.Soundness

/-!
# Built-in rules cite what they need

A rule that proves a goal from some facts proves it again wherever the facts that it cited are
known (`Rule.Local`), whatever else is known there: additional facts neither hide the cited ones nor
weaken a bound. All built-in rules are of this kind (`Rule.builtin_local`). A rule made from a test
is not, since the test may look for the absence of a fact, but then it cites every fact.
-/

namespace Discharge.Rule

/-- The facts that the rule cites are enough for it. -/
def Local (r : Rule) : Prop :=
  ∀ goal k k' found, r.run goal k = .matched found → k'.Retains k found.usedFacts →
    ∃ found', r.run goal k' = .matched found'

variable {k k' : Known}

theorem ofFinder_local {name description : String} {find? : Expr → Known → Option RuleMatch}
    (h : ∀ goal k k' found, find? goal k = some found → k'.Retains k found.usedFacts →
      ∃ found', find? goal k' = some found') : (ofFinder name description find?).Local := by
  intro goal k k' found hrun hk
  obtain ⟨found', hfound⟩ := h goal k k' found (ofFinder_matched.1 hrun) hk
  exact ⟨found', ofFinder_matched.2 hfound⟩

theorem identity_local : identity.Local := by
  refine ofFinder_local fun goal k k' found h hk => ?_
  obtain ⟨a, ha, rfl⟩ := Option.map_eq_some_iff.1 h
  obtain ⟨b, hb⟩ := Known.Retains.identical? ha hk
  exact ⟨_, Option.map_eq_some_iff.2 ⟨b, hb, rfl⟩⟩

theorem positiveImpliesNonNegative_local : positiveImpliesNonNegative.Local := by
  refine ofFinder_local fun goal k k' found h hk => ?_
  obtain ⟨term, hterm, h⟩ := Option.bind_eq_some_iff.1 h
  split at h
  · cases h
  rename_i hnum
  obtain ⟨used, hused, h⟩ := Option.bind_eq_some_iff.1 h
  obtain rfl := Option.some.inj h
  obtain ⟨used', hused'⟩ := Known.Retains.positive? hused hk
  exact ⟨_, Option.bind_eq_some_iff.2 ⟨term, hterm, (if_neg hnum).trans
    (Option.bind_eq_some_iff.2 ⟨used', hused', rfl⟩)⟩⟩

theorem allPositive?_local {what : String} {terms : List Expr} {found : RuleMatch}
    (h : allPositive? what terms k = some found) (hk : k'.Retains k found.usedFacts) :
    ∃ found', allPositive? what terms k' = some found' := by
  unfold allPositive? at h ⊢
  split at h
  · cases h
  rename_i hlen
  obtain ⟨used, hused, h⟩ := Option.bind_eq_some_iff.1 h
  obtain rfl := Option.some.inj h
  have hall : ∀ t ∈ terms, (k'.positive? t).isSome = true := by
    intro t ht
    obtain ⟨fs, hfs, hpos⟩ := forall₂_mem_left (mapM_eq_some.1 hused) t ht
    have hsub : fs ⊆ used.flatten.eraseDups := fun f hf =>
      List.mem_eraseDups.2 (List.mem_flatten.2 ⟨fs, hfs, hf⟩)
    exact Option.isSome_iff_exists.2 (Known.Retains.positive? hpos (hk.subset hsub))
  obtain ⟨used', hused'⟩ := Option.isSome_iff_exists.1 (isSome_mapM.2 hall)
  exact ⟨_, (if_neg hlen).trans (Option.bind_eq_some_iff.2 ⟨used', hused', rfl⟩)⟩

theorem sumOfPositives_local : sumOfPositives.Local := by
  refine ofFinder_local fun goal k k' found h hk => ?_
  obtain ⟨term, hterm, h⟩ := Option.bind_eq_some_iff.1 h
  obtain ⟨found', hfound'⟩ := allPositive?_local h hk
  exact ⟨found', Option.bind_eq_some_iff.2 ⟨term, hterm, hfound'⟩⟩

theorem productOfPositives_local : productOfPositives.Local := by
  refine ofFinder_local fun goal k k' found h hk => ?_
  obtain ⟨term, hterm, h⟩ := Option.bind_eq_some_iff.1 h
  obtain ⟨found', hfound'⟩ := allPositive?_local h hk
  exact ⟨found', Option.bind_eq_some_iff.2 ⟨term, hterm, hfound'⟩⟩

theorem chain?_local {goal a c : Expr} {strict : Bool} {found : RuleMatch}
    (h : chain? goal a c strict k = some found) (hk : k'.Retains k found.usedFacts) :
    ∃ found', chain? goal a c strict k' = some found' := by
  obtain ⟨first, hfirst, second, hsecond, hchain, rfl⟩ := Known.findChain?_eq_some h
  obtain ⟨hfirst, hfop⟩ := List.mem_filter.1 hfirst
  obtain ⟨hsecond, hsop⟩ := List.mem_filter.1 hsecond
  obtain ⟨i, hi⟩ := hk.comparison hfirst (List.mem_eraseDups.2 List.mem_cons_self)
  obtain ⟨j, hj⟩ := hk.comparison hsecond
    (List.mem_eraseDups.2 (List.mem_cons_of_mem _ List.mem_cons_self))
  exact Option.isSome_iff_exists.1 (Known.isSome_findChain? (List.mem_filter.2 ⟨hi, hfop⟩)
    (List.mem_filter.2 ⟨hj, hsop⟩) hchain)

theorem transitivity_local : transitivity.Local := by
  refine ofFinder_local fun goal k k' found h hk => ?_
  split at h
  · exact chain?_local h hk
  · exact chain?_local h hk
  · cases h

/-- **Every built-in rule cites what it needs.** -/
theorem builtin_local : ∀ r ∈ builtin, r.Local := by
  simp only [builtin, List.forall_mem_cons]
  exact ⟨identity_local, positiveImpliesNonNegative_local, sumOfPositives_local,
    productOfPositives_local, transitivity_local, List.forall_mem_nil _⟩

/-! ## Rules that are tests -/

section

variable {name description : String} {test : Expr → List Fact → Except RuleFault Bool} {goal : Expr}

/-- A rule made from a test sees nothing but the facts. -/
theorem ofTest_congr (h : k'.facts = k.facts) :
    (ofTest name description test).run goal k' = (ofTest name description test).run goal k := by
  simp only [ofTest, h]

/-- A rule made from a test cites every fact. -/
theorem ofTest_cites {found : RuleMatch}
    (h : (ofTest name description test).run goal k = .matched found) :
    ∀ f ∈ k.facts, f ∈ found.usedFacts := by
  intro f hf
  unfold ofTest at h
  dsimp only at h
  split at h
  · cases h
    exact List.mem_eraseDups.2 hf
  · cases h
  · cases h

end

/-- Built-in rules do not go wrong. -/
theorem builtin_not_faulted {r : Rule} (hr : r ∈ builtin) {goal : Expr} {fault : RuleFault} :
    r.run goal k ≠ .faulted fault := by
  have hfinder : ∀ (name description : String) (find? : Expr → Known → Option RuleMatch),
      (ofFinder name description find?).run goal k ≠ .faulted fault := by
    intro name description find?
    unfold ofFinder
    dsimp only
    split <;> nofun
  simp only [builtin, List.mem_cons, List.not_mem_nil, or_false] at hr
  rcases hr with rfl | rfl | rfl | rfl | rfl <;> exact hfinder _ _ _

end Discharge.Rule
