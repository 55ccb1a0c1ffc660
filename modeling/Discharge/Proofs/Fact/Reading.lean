import Discharge.Fact.Known
import Discharge.Proofs.Expr.Meaning
import Discharge.Proofs.Linear.Row

/-!
# What bounds say

The strategies look up literal bounds and orderings among the comparisons that the facts state. What
they conclude from one holds for every way of reading terms as numbers (`Reading`) in which those
comparisons hold (`Known.HoldsIn`): terms may be read by their exact value, or by their linear form.
-/

namespace Discharge

/-- A way to read some terms as numbers. Literals stand for themselves, and a sum is read by its
parts. -/
structure Reading where
  Reads : Expr → ℚ → Prop
  literal : ∀ {q x}, Reads (.num q) x ↔ x = q.toRat
  sum : ∀ {l r x}, Reads (.arith .add l r) x → ∃ y z, Reads l y ∧ Reads r z ∧ x = y + z

/-- Every comparison among the facts, apart from `!=`, holds of the numbers that its sides are read
as. -/
def Known.HoldsIn (R : Reading) (k : Known) : Prop :=
  ∀ c ∈ k.comparisons, c.op ≠ .ne →
    ∀ x y, R.Reads c.left x → R.Reads c.right y → c.op.Relates x y

variable {R : Reading} {k : Known}

/-! ## Bounds -/

namespace Known

theorem asNum_eq_some {e : Expr} {q : Fraction} : e.asNum = some q ↔ e = .num q := by
  cases e <;> simp [Expr.asNum]

/-- The tightest of some bounds is one of them. -/
theorem tightest?_mem {tighter : Bound → Bound → Bool} {bs : List Bound} :
    ∀ b, tightest? tighter bs = some b → b ∈ bs := by
  refine List.foldlRecOn bs _ (motive := fun best => ∀ b, best = some b → b ∈ bs)
    (fun b hb => (by cases hb)) ?_
  intro best ih a ha b hb
  cases best with
  | none =>
    cases hb
    exact ha
  | some c =>
    dsimp only at hb
    split at hb
    · cases hb
      exact ha
    · exact ih b hb

/-- A bound read off one side of a comparison when the other is the term. -/
theorem bound_eq_some {side other term : Expr} {strict : Bool} {f : Fact} {b : Bound}
    (h : (if side = term then other.asNum.map (⟨·, strict, f⟩) else none) = some b) :
    side = term ∧ other = .num b.value ∧ b.strict = strict := by
  split at h
  · rename_i hside
    obtain ⟨q, hq, rfl⟩ := Option.map_eq_some_iff.1 h
    exact ⟨hside, asNum_eq_some.1 hq, rfl⟩
  · cases h

theorem equationBound?_eq_some {term : Expr} {c : Comparison} {b : Bound}
    (h : equationBound? term c = some b) :
    b.strict = false ∧
      (c.left = term ∧ c.right = .num b.value ∨ c.right = term ∧ c.left = .num b.value) := by
  unfold equationBound? at h
  split at h
  · rename_i hl
    obtain ⟨q, hq, rfl⟩ := Option.map_eq_some_iff.1 h
    exact ⟨rfl, .inl ⟨hl, asNum_eq_some.1 hq⟩⟩
  · obtain ⟨hr, hl, hs⟩ := bound_eq_some h
    exact ⟨hs, .inr ⟨hr, hl⟩⟩

theorem equationBound?_sound {term : Expr} {c : Comparison} {b : Bound}
    (hc : ∀ x y, R.Reads c.left x → R.Reads c.right y → x = y)
    (h : equationBound? term c = some b) {x : ℚ} (hx : R.Reads term x) :
    b.strict = false ∧ x = b.value.toRat := by
  have hb : R.Reads (.num b.value) b.value.toRat := R.literal.2 rfl
  obtain ⟨hs, ⟨hl, hr⟩ | ⟨hr, hl⟩⟩ := equationBound?_eq_some h
  · exact ⟨hs, hc x _ (hl ▸ hx) (hr ▸ hb)⟩
  · exact ⟨hs, (hc _ x (hl ▸ hb) (hr ▸ hx)).symm⟩

/-- A comparison states the lower bounds that are read off it. -/
theorem lowerOf?_sound {term : Expr} {c : Comparison} {b : Bound}
    (hc : c.op ≠ .ne → ∀ x y, R.Reads c.left x → R.Reads c.right y → c.op.Relates x y)
    (h : lowerOf? term c = some b) {x : ℚ} (hx : R.Reads term x) :
    AboveZero b.strict (x - b.value.toRat) := by
  have hb : R.Reads (.num b.value) b.value.toRat := R.literal.2 rfl
  unfold lowerOf? at h
  split at h
  · rename_i hop
    obtain ⟨hl, hr, hs⟩ := bound_eq_some h
    rw [hop, hl, hr] at hc
    rw [hs]
    exact sub_pos.2 (hc nofun x _ hx hb)
  · rename_i hop
    obtain ⟨hl, hr, hs⟩ := bound_eq_some h
    rw [hop, hl, hr] at hc
    rw [hs]
    exact sub_nonneg.2 (hc nofun x _ hx hb)
  · rename_i hop
    rw [hop] at hc
    obtain ⟨hs, hxb⟩ := equationBound?_sound (hc nofun) h hx
    rw [hs, hxb, sub_self]
    exact le_rfl (α := ℚ)
  · cases h

/-- A comparison states the upper bounds that are read off it. -/
theorem upperOf?_sound {term : Expr} {c : Comparison} {b : Bound}
    (hc : c.op ≠ .ne → ∀ x y, R.Reads c.left x → R.Reads c.right y → c.op.Relates x y)
    (h : upperOf? term c = some b) {x : ℚ} (hx : R.Reads term x) :
    AboveZero b.strict (b.value.toRat - x) := by
  have hb : R.Reads (.num b.value) b.value.toRat := R.literal.2 rfl
  unfold upperOf? at h
  split at h
  · rename_i hop
    obtain ⟨hr, hl, hs⟩ := bound_eq_some h
    rw [hop, hl, hr] at hc
    rw [hs]
    exact sub_pos.2 (hc nofun _ x hb hx)
  · rename_i hop
    obtain ⟨hr, hl, hs⟩ := bound_eq_some h
    rw [hop, hl, hr] at hc
    rw [hs]
    exact sub_nonneg.2 (hc nofun _ x hb hx)
  · rename_i hop
    rw [hop] at hc
    obtain ⟨hs, hxb⟩ := equationBound?_sound (hc nofun) h hx
    rw [hs, hxb, sub_self]
    exact le_rfl (α := ℚ)
  · cases h

theorem lowerBound?_sound (hk : k.HoldsIn R) {term : Expr} {b : Bound}
    (h : k.lowerBound? term = some b) {x : ℚ} (hx : R.Reads term x) :
    AboveZero b.strict (x - b.value.toRat) := by
  obtain ⟨c, hc, hb⟩ := List.mem_filterMap.1 (tightest?_mem b h)
  exact lowerOf?_sound (hk c hc) hb hx

theorem upperBound?_sound (hk : k.HoldsIn R) {term : Expr} {b : Bound}
    (h : k.upperBound? term = some b) {x : ℚ} (hx : R.Reads term x) :
    AboveZero b.strict (b.value.toRat - x) := by
  obtain ⟨c, hc, hb⟩ := List.mem_filterMap.1 (tightest?_mem b h)
  exact upperOf?_sound (hk c hc) hb hx

/-! ## Signs of terms -/

/-- A term that the facts show to be positive is read as a positive number. -/
theorem positive?_sound (hk : k.HoldsIn R) {term : Expr} {fs : List Fact}
    (h : k.positive? term = some fs) {x : ℚ} (hx : R.Reads term x) : 0 < x := by
  unfold positive? at h
  split at h
  · split at h
    · rename_i hq
      rw [R.literal.1 hx]
      exact Fraction.isPositive_iff.1 hq
    · cases h
  · obtain ⟨b, hb, h⟩ := Option.bind_eq_some_iff.1 h
    have habove := lowerBound?_sound hk hb hx
    split at h
    · rename_i hsign
      rcases Bool.or_eq_true_iff.1 hsign with hpos | hzero
      · exact (Fraction.isPositive_iff.1 hpos).trans_le (sub_nonneg.1 habove.nonneg)
      · obtain ⟨hz, hs⟩ := Bool.and_eq_true_iff.1 hzero
        rw [hs, Fraction.isZero_iff.1 hz, sub_zero] at habove
        exact habove
    · cases h

/-- A term that the facts show not to be negative is not read as a negative number. -/
theorem nonNegative?_sound (hk : k.HoldsIn R) {term : Expr} {fs : List Fact}
    (h : k.nonNegative? term = some fs) {x : ℚ} (hx : R.Reads term x) : 0 ≤ x := by
  unfold nonNegative? at h
  split at h
  · split at h
    · cases h
    · rename_i hq
      rw [R.literal.1 hx]
      exact Fraction.isNegative_eq_false_iff.1 (Bool.eq_false_iff.2 hq)
  · obtain ⟨b, hb, h⟩ := Option.bind_eq_some_iff.1 h
    have habove := lowerBound?_sound hk hb hx
    split at h
    · cases h
    · rename_i hneg
      have hb := Fraction.isNegative_eq_false_iff.1 (Bool.eq_false_iff.2 hneg)
      exact hb.trans (sub_nonneg.1 habove.nonneg)

/-- An ordering among the facts holds of what its sides are read as. -/
theorem ordering_sound (hk : k.HoldsIn R) {c : Comparison} (hc : c ∈ k.comparisons)
    (hop : c.op = .gt ∨ c.op = .ge) {x y : ℚ} (hx : R.Reads c.left x) (hy : R.Reads c.right y) :
    AboveZero c.op.isStrict (x - y) := by
  have hrel := hk c hc
  rcases hop with hop | hop
  · rw [hop] at hrel ⊢
    exact sub_pos.2 (hrel nofun x y hx hy)
  · rw [hop] at hrel ⊢
    exact sub_nonneg.2 (hrel nofun x y hx hy)

/-- Two orderings with a common term give an ordering of the others. -/
theorem chain_sound (hk : k.HoldsIn R) {first second : Comparison} (hf : first ∈ k.comparisons)
    (hfop : first.op = .gt ∨ first.op = .ge) (hs : second ∈ k.comparisons)
    (hsop : second.op = .gt ∨ second.op = .ge) (hmid : first.right = second.left) {x y z : ℚ}
    (hx : R.Reads first.left x) (hy : R.Reads first.right y) (hz : R.Reads second.right z) :
    AboveZero (first.op.isStrict || second.op.isStrict) (x - z) := by
  have hxy := ordering_sound hk hf hfop hx hy
  have hyz := ordering_sound hk hs hsop (hmid ▸ hy) hz
  rw [← sub_add_sub_cancel x y z]
  exact hxy.add hyz

end Known

/-! ## Operands -/

namespace Reading

/-- A property of numbers that passes from the parts of an operation to the whole passes from the
operands of a nested one. -/
theorem of_operands {o : ArithOp} {P : ℚ → Prop}
    (hstep : ∀ {l r x}, R.Reads (.arith o l r) x →
      ∃ y z, R.Reads l y ∧ R.Reads r z ∧ (P y → P z → P x))
    {e : Expr} (hop : ∀ s ∈ e.operands o, ∀ y, R.Reads s y → P y) {x : ℚ} (hx : R.Reads e x) :
    P x := by
  -- Only an operation with the same operator is taken apart; anything else is its one operand.
  induction e generalizing x with
  | arith p l r ihl ihr =>
    rw [Expr.operands] at hop
    split at hop
    · rename_i hp
      subst hp
      obtain ⟨y, z, hy, hz, hP⟩ := hstep hx
      exact hP (ihl (fun s hs => hop s (List.mem_append_left _ hs)) hy)
        (ihr (fun s hs => hop s (List.mem_append_right _ hs)) hz)
    · exact hop _ (List.mem_singleton.2 rfl) x hx
  | _ => exact hop _ (List.mem_singleton.2 rfl) x hx

theorem sum_nonneg {e : Expr} (hop : ∀ s ∈ e.operands .add, ∀ y, R.Reads s y → 0 ≤ y) {x : ℚ}
    (hx : R.Reads e x) : 0 ≤ x := by
  refine of_operands (fun {l r x} h => ?_) hop hx
  obtain ⟨y, z, hy, hz, rfl⟩ := R.sum h
  exact ⟨y, z, hy, hz, add_nonneg⟩

/-- A sum without negative summands is positive if one of them is. -/
theorem sum_pos {e : Expr} (hop : ∀ s ∈ e.operands .add, ∀ y, R.Reads s y → 0 ≤ y)
    (hpos : ∃ s ∈ e.operands .add, ∀ y, R.Reads s y → 0 < y) {x : ℚ} (hx : R.Reads e x) :
    0 < x := by
  induction e generalizing x with
  | arith p l r ihl ihr =>
    rw [Expr.operands] at hop hpos
    split at hop
    · rename_i hp
      subst hp
      rw [if_pos rfl] at hpos
      have hl := fun s hs => hop s (List.mem_append_left _ hs)
      have hr := fun s hs => hop s (List.mem_append_right _ hs)
      obtain ⟨y, z, hy, hz, rfl⟩ := R.sum hx
      obtain ⟨s, hs, hspos⟩ := hpos
      rcases List.mem_append.1 hs with hs | hs
      · exact add_pos_of_pos_of_nonneg (ihl hl ⟨s, hs, hspos⟩ hy) (sum_nonneg hr hz)
      · exact add_pos_of_nonneg_of_pos (sum_nonneg hl hy) (ihr hr ⟨s, hs, hspos⟩ hz)
    · rename_i hp
      rw [if_neg hp] at hpos
      obtain ⟨s, hs, hspos⟩ := hpos
      exact hspos x (List.mem_singleton.1 hs ▸ hx)
  | _ =>
    obtain ⟨s, hs, hspos⟩ := hpos
    exact hspos x (List.mem_singleton.1 hs ▸ hx)

end Reading

/-! ## The exact reading -/

variable {ρ : Lookup ℚ}

/-- Terms read by their exact value. -/
def Reading.exact (ρ : Lookup ℚ) : Reading where
  Reads e x := e.evalIn .rational ρ = some (.num x)
  literal := by
    intro q x
    constructor
    · intro h
      cases h
      rfl
    · rintro rfl
      rfl
  sum := by
    intro l r x h
    obtain ⟨y, z, _, hy, hz, hsum, hx⟩ := Expr.evalIn_arith.1 h
    cases hsum
    cases hx
    exact ⟨y, z, hy, hz, rfl⟩

/-- Every condition that the facts state is true. -/
def Known.TrueAt (ρ : Lookup ℚ) (k : Known) : Prop :=
  ∀ a ∈ k.atoms, a.condition.evalIn .rational ρ = some (.bool true)

/-- The condition may have no truth value, but it is not false. -/
def Expr.NotFalse (ρ : Lookup ℚ) (e : Expr) : Prop := e.evalIn .rational ρ ≠ some (.bool false)

theorem Expr.notFalse_of_true {e : Expr} (h : e.evalIn .rational ρ = some (.bool true)) :
    e.NotFalse ρ := by
  rw [NotFalse, h]
  nofun

/-- A conjunction is not false if none of its conjuncts is. -/
theorem Expr.notFalse_of_conjuncts {e : Expr} (h : ∀ p ∈ e.conjuncts, p.NotFalse ρ) :
    e.NotFalse ρ := by
  induction e with
  | and l r ihl ihr =>
    obtain ⟨hl, hr⟩ := List.forall_mem_append.1 h
    intro hfalse
    rcases evalIn_and.1 hfalse with ⟨hlf, _⟩ | ⟨_, _, hrf, ⟨⟩⟩
    · exact ihl hl hlf
    · exact ihr hr hrf
  | _ => exact h _ (List.mem_singleton.2 rfl)

/-- An ordering only has a truth value when both sides are numbers. -/
theorem Expr.evalIn_ordering {o : CompareOp} (ho : o = .gt ∨ o = .ge) {l r : Expr} {t : Bool}
    (h : (compare o l r).evalIn .rational ρ = some (.bool t)) :
    ∃ x y, (Reading.exact ρ).Reads l x ∧ (Reading.exact ρ).Reads r y ∧
      t = decide (o.Relates x y) := by
  obtain ⟨a, b, c, ha, hb, hc, hct⟩ := evalIn_compare.1 h
  cases hct
  rcases a with a | x | a <;> rcases b with b | y | b
  case num.num =>
    cases hc
    exact ⟨x, y, ha, hb, rfl⟩
  all_goals rcases ho with rfl | rfl <;> cases hc

theorem Expr.notFalse_ordering {o : CompareOp} (ho : o = .gt ∨ o = .ge) {l r : Expr}
    (h : ∀ x y, (Reading.exact ρ).Reads l x → (Reading.exact ρ).Reads r y → o.Relates x y) :
    (compare o l r).NotFalse ρ := by
  intro hfalse
  obtain ⟨x, y, hx, hy, ht⟩ := evalIn_ordering ho hfalse
  exact of_decide_eq_false ht.symm (h x y hx hy)

namespace Known

/-- A condition that is among those the facts state is true. -/
theorem TrueAt.identical (hk : k.TrueAt ρ) {e : Expr} {a : Atom} (h : k.identical? e = some a) :
    e.evalIn .rational ρ = some (.bool true) := by
  unfold identical? at h
  have hsame : a.condition = e := by simpa using List.find?_some h
  exact hsame ▸ hk a (List.mem_of_find?_eq_some h)

theorem mem_comparisons {c : Comparison} (hc : c ∈ k.comparisons) :
    ∃ a ∈ k.atoms, a.condition = .compare c.op c.left c.right := by
  obtain ⟨a, ha, hac⟩ := List.mem_filterMap.1 hc
  unfold comparisonOf? at hac
  split at hac
  · rename_i hcond
    cases hac
    exact ⟨a, ha, hcond⟩
  · cases hac

theorem TrueAt.comparison (hk : k.TrueAt ρ) {c : Comparison} (hc : c ∈ k.comparisons) :
    (Expr.compare c.op c.left c.right).evalIn .rational ρ = some (.bool true) := by
  obtain ⟨a, ha, hcond⟩ := mem_comparisons hc
  exact hcond ▸ hk a ha

/-- Where the conditions that the facts state are true, their comparisons hold of exact values. -/
theorem TrueAt.holdsIn (hk : k.TrueAt ρ) : k.HoldsIn (.exact ρ) := by
  intro c hc _ x y hx hy
  have htrue := hk.comparison hc
  rw [Expr.evalIn_compare_num hx hy, Option.some.injEq, Result.bool.injEq] at htrue
  exact of_decide_eq_true htrue

end Known

end Discharge
