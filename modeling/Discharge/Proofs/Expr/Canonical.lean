import Discharge.Expr.Canonical
import Discharge.Proofs.Expr.Meaning

/-!
# Canonical forms keep their value

Over an arithmetic whose comparisons can be turned around and negated, a condition that has a
result has the same one in its canonical form (`evalIn_canonical`). Since the canonical form of a
negation looks into the negated condition, the induction carries the statement for an expression
together with that for its negation. The evaluator of conditions is such an arithmetic
(`eval?_canonical`).
-/

namespace Discharge

variable {N : Type}

/-- The laws of an arithmetic that canonical forms rely on. -/
structure Arithmetic.Lawful (A : Arithmetic N) : Prop where
  holds_flipped : ∀ o a b, A.holds o.flipped b a = A.holds o a b
  holds_negated : ∀ o a b, A.holds o.negated a b = !A.holds o a b
  neg_literal : ∀ {q n}, q.neg? = some n → A.neg? (A.literal q) = some (A.literal n)

theorem CompareOp.ofSame?_flipped (o : CompareOp) (same : Bool) :
    o.flipped.ofSame? same = o.ofSame? same := by
  cases o <;> rfl

theorem CompareOp.ofSame?_negated (o : CompareOp) (same : Bool) :
    o.negated.ofSame? same = (o.ofSame? same).map (! ·) := by
  cases o <;> simp [negated, ofSame?]

namespace Arithmetic

theorem rational_lawful : rational.Lawful where
  holds_flipped _ _ _ := decide_eq_decide.2 CompareOp.relates_flipped
  holds_negated o a b := by
    show decide _ = !decide _
    rw [← decide_not]
    exact decide_eq_decide.2 CompareOp.relates_negated
  neg_literal h := congrArg some (Fraction.toRat_neg? h).symm

theorem word_lawful : word.Lawful where
  holds_flipped o a b := by
    show o.flipped.holds b a = o.holds a b
    rw [Bool.eq_iff_iff, CompareOp.holds_iff_relates, CompareOp.holds_iff_relates]
    exact CompareOp.relates_flipped
  holds_negated o a b := by
    show o.negated.holds a b = !o.holds a b
    rw [Bool.eq_iff_iff, Bool.not_eq_true', ← Bool.not_eq_true, CompareOp.holds_iff_relates,
      CompareOp.holds_iff_relates]
    exact CompareOp.relates_negated
  neg_literal h := h

namespace Lawful

variable {A : Arithmetic N} (hA : A.Lawful)
include hA

theorem compare?_flipped (o : CompareOp) (a b : Result N) :
    A.compare? o.flipped b a = A.compare? o a b := by
  cases a with
  | num a =>
    cases b with
    | num b => exact congrArg some (hA.holds_flipped o a b)
    | _ => rfl
  | str a =>
    cases b with
    | str b => rw [compare?, compare?, CompareOp.ofSame?_flipped, BEq.comm]
    | _ => rfl
  | bool a =>
    cases b with
    | bool b => rw [compare?, compare?, CompareOp.ofSame?_flipped, BEq.comm]
    | _ => rfl

theorem compare?_negated (o : CompareOp) (a b : Result N) :
    A.compare? o.negated a b = (A.compare? o a b).map (! ·) := by
  cases a with
  | num a =>
    cases b with
    | num b => exact congrArg some (hA.holds_negated o a b)
    | _ => rfl
  | str a =>
    cases b with
    | str b => exact CompareOp.ofSame?_negated o _
    | _ => rfl
  | bool a =>
    cases b with
    | bool b => exact CompareOp.ofSame?_negated o _
    | _ => rfl

end Lawful

end Arithmetic

namespace Expr

variable {A : Arithmetic N} (hA : A.Lawful) {ρ : Lookup N}
include hA

theorem evalIn_compare_flipped {o : CompareOp} {l r : Expr} {v : Result N}
    (h : (compare o l r).evalIn A ρ = some v) : (compare o.flipped r l).evalIn A ρ = some v := by
  obtain ⟨a, b, c, ha, hb, hc, rfl⟩ := evalIn_compare.1 h
  exact evalIn_compare.2 ⟨b, a, c, hb, ha, (hA.compare?_flipped o a b).trans hc, rfl⟩

/-- Turning a comparison into its canonical direction keeps its value. -/
theorem evalIn_orient {o : CompareOp} {l r : Expr} {v : Result N}
    (h : (compare o l r).evalIn A ρ = some v) : (orient o l r).evalIn A ρ = some v := by
  rcases orient_eq o l r with heq | heq
  · rw [heq]
    exact h
  · rw [heq]
    exact evalIn_compare_flipped hA h

theorem evalIn_negate {e : Expr} {v : Result N} (h : (neg e).evalIn A ρ = some v) :
    (negate e).evalIn A ρ = some v := by
  cases e with
  | num q =>
    rw [negate]
    split
    · rename_i n hn
      obtain ⟨_, p, hq, hp, rfl⟩ := evalIn_neg.1 h
      cases hq
      rw [hA.neg_literal hn] at hp
      cases hp
      rfl
    · exact h
  | _ => exact h

omit hA in
/-- Where the canonical form of a negation negates the canonical form, the negation needs no
argument of its own. -/
theorem keeps_not {e : Expr} (hnot : (not e).canonical = not e.canonical)
    (he : ∀ v, e.evalIn A ρ = some v → e.canonical.evalIn A ρ = some v) :
    (∀ v, e.evalIn A ρ = some v → e.canonical.evalIn A ρ = some v) ∧
      ∀ v, (not e).evalIn A ρ = some v → (not e).canonical.evalIn A ρ = some v := by
  refine ⟨he, fun v h => ?_⟩
  obtain ⟨b, hb, rfl⟩ := evalIn_not.1 h
  rw [hnot]
  exact evalIn_not.2 ⟨b, he _ hb, rfl⟩

/-- The value of an expression, and that of its negation, are those of the canonical forms. -/
theorem evalIn_canonical_and_not (e : Expr) :
    (∀ v, e.evalIn A ρ = some v → e.canonical.evalIn A ρ = some v) ∧
      ∀ v, (not e).evalIn A ρ = some v → (not e).canonical.evalIn A ρ = some v := by
  induction e with
  | bool b => exact ⟨fun v h => h, fun v h => h⟩
  | num q => exact keeps_not rfl fun v h => h
  | str s => exact keeps_not rfl fun v h => h
  | var x => exact keeps_not rfl fun v h => h
  | branded x b => exact keeps_not rfl fun v h => h
  | not e ih =>
    refine ⟨ih.2, fun v h => ?_⟩
    obtain ⟨b, hb, rfl⟩ := evalIn_not.1 h
    obtain ⟨c, hc, hcb⟩ := evalIn_not.1 hb
    cases hcb
    rw [canonical, Bool.not_not]
    exact ih.1 _ hc
  | compare o l r ihl ihr =>
    constructor
    · intro v h
      obtain ⟨a, b, c, ha, hb, hc, rfl⟩ := evalIn_compare.1 h
      exact evalIn_orient hA (evalIn_compare.2 ⟨a, b, c, ihl.1 _ ha, ihr.1 _ hb, hc, rfl⟩)
    · intro v h
      obtain ⟨c, hcmp, rfl⟩ := evalIn_not.1 h
      obtain ⟨a, b, _, ha, hb, hc, hcb⟩ := evalIn_compare.1 hcmp
      cases hcb
      have hneg : A.compare? o.negated a b = some !c := by rw [hA.compare?_negated, hc]; rfl
      exact evalIn_orient hA (evalIn_compare.2 ⟨a, b, _, ihl.1 _ ha, ihr.1 _ hb, hneg, rfl⟩)
  | member e f ih =>
    refine keeps_not rfl fun v h => ?_
    -- A length is looked up by the spelling of its term, which for a variable is canonical.
    rcases evalIn_member.1 h with ⟨n, hn, rfl⟩ | ⟨_, a, ha, hm⟩
    · cases e with
      | var x => exact h
      | _ => cases hn
    · obtain ⟨s, _, rfl, _⟩ := Arithmetic.member?_eq_some.1 hm
      have hs := ih.1 _ ha
      exact evalIn_member.2 (.inr ⟨lengthOf?_of_str hs, _, hs, hm⟩)
  | neg e ih =>
    refine keeps_not rfl fun v h => ?_
    obtain ⟨q, p, hq, hp, rfl⟩ := evalIn_neg.1 h
    exact evalIn_negate hA (evalIn_neg.2 ⟨q, p, ih.1 _ hq, hp, rfl⟩)
  | arith o l r ihl ihr =>
    refine keeps_not rfl fun v h => ?_
    obtain ⟨a, b, c, ha, hb, hc, rfl⟩ := evalIn_arith.1 h
    exact evalIn_arith.2 ⟨a, b, c, ihl.1 _ ha, ihr.1 _ hb, hc, rfl⟩
  | and l r ihl ihr =>
    refine keeps_not rfl fun v h => ?_
    rcases evalIn_and.1 h with ⟨hl, rfl⟩ | ⟨hl, b, hr, rfl⟩
    · exact evalIn_and.2 (.inl ⟨ihl.1 _ hl, rfl⟩)
    · exact evalIn_and.2 (.inr ⟨ihl.1 _ hl, b, ihr.1 _ hr, rfl⟩)
  | or l r ihl ihr =>
    refine keeps_not rfl fun v h => ?_
    rcases evalIn_or.1 h with ⟨hl, rfl⟩ | ⟨hl, b, hr, rfl⟩
    · exact evalIn_or.2 (.inl ⟨ihl.1 _ hl, rfl⟩)
    · exact evalIn_or.2 (.inr ⟨ihl.1 _ hl, b, ihr.1 _ hr, rfl⟩)
  | call f as ih =>
    refine keeps_not rfl fun v h => ?_
    obtain ⟨e, a, rfl, ha, hc⟩ := evalIn_call.1 h
    exact evalIn_call.2 ⟨e.canonical, a, rfl, (ih e List.mem_cons_self).1 _ ha, hc⟩
  | invoke e f as ih _ =>
    refine keeps_not rfl fun v h => ?_
    obtain ⟨rfl, a, ha, hi⟩ := evalIn_invoke.1 h
    exact evalIn_invoke.2 ⟨rfl, a, ih.1 _ ha, hi⟩

/-- **Canonicalization preserves meaning**: whatever has a value keeps it. -/
theorem evalIn_canonical {e : Expr} {v : Result N} (h : e.evalIn A ρ = some v) :
    e.canonical.evalIn A ρ = some v :=
  (evalIn_canonical_and_not hA e).1 v h

omit hA in
/-- Where a canonical form is true, so are those of the conjuncts. -/
theorem evalIn_conjuncts_canonical {e : Expr}
    (h : e.canonical.evalIn A ρ = some (.bool true)) :
    ∀ p ∈ e.conjuncts, p.canonical.evalIn A ρ = some (.bool true) := by
  induction e with
  | and l r ihl ihr =>
    rcases evalIn_and.1 h with ⟨_, ⟨⟩⟩ | ⟨hl, _, hr, ⟨⟩⟩
    exact List.forall_mem_append.2 ⟨ihl hl, ihr hr⟩
  | _ => exact List.forall_mem_singleton.2 h

end Expr

namespace Expr

/-- **The evaluator does not tell a condition from its canonical form**: under any lookup, whatever
has a value has the same one in canonical form. -/
theorem eval?_canonical (env : String → Option Fraction) (e : Expr) (v : Value)
    (h : e.eval? env = some v) : e.canonical.eval? env = some v :=
  eval?_eq_some_iff.2 (evalIn_canonical Arithmetic.word_lawful (eval?_eq_some_iff.1 h))

/-- `!(-1 >= x) && !!('b' != ' a '.trim()) || 1 / 0 > 0`, of which the last part has no value. -/
theorem eval?_canonical_nested :
    let e : Expr := .or
      (.and (.not (.compare .ge (.neg (.num .one)) (.var "x")))
        (.not (.not (.compare .ne (.str "b") (.invoke (.str " a ") "trim" [])))))
      (.compare .gt (.arith .div (.num .one) (.num .zero)) (.num .zero))
    let env (x : String) := if x = "x" then some Fraction.one else none
    e.eval? env = some (.bool true) ∧ e.canonical ≠ e ∧
      e.canonical.eval? env = some (.bool true) := by
  intro e env
  have h : e.eval? env = some (.bool true) := by decide +kernel
  have hne : e.canonical ≠ e := by decide
  exact ⟨h, hne, eval?_canonical env e _ h⟩

end Expr

end Discharge
