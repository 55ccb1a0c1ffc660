import Discharge.Expr.Canonical
import Mathlib.Data.String.Basic

/-!
# Canonical forms are fixed

`IsCanonical` is the grammar of canonical forms. It is given without the function that computes
them: an order relation is written with `>` or `>=`, the sides of an equality stand in the order of
their texts, a negation stands in front of nothing that could absorb it, and a literal carries its
own sign unless the negated literal is no word. Canonicalization always ends in this grammar
(`isCanonical_canonical`) and leaves what is in it alone (`canonical_eq_self`), so a second pass
changes nothing.

The canonical form of a negation looks at what is negated. `canonicalInduct` follows it: a negation
of a negation, of a comparison and of a truth value are cases of their own.
-/

namespace Discharge.Expr

variable {e l r : Expr}

/-! ## Negations -/

/-- A negation in front of the expression stays there. -/
def KeepsNot : Expr → Prop
  | .bool _ | .not _ | .compare .. => False
  | _ => True

theorem canonical_not (h : e.KeepsNot) : (not e).canonical = not e.canonical := by
  cases e with
  | bool _ | not _ | compare _ _ _ => exact h.elim
  | _ => rfl

theorem keepsNot_negate (e : Expr) : (negate e).KeepsNot := by
  cases e with
  | num q =>
    rw [negate]
    split <;> trivial
  | _ => trivial

theorem KeepsNot.canonical (h : e.KeepsNot) : e.canonical.KeepsNot := by
  cases e with
  | bool _ | not _ | compare _ _ _ => exact h.elim
  | neg e => exact keepsNot_negate e.canonical
  | _ => trivial

/-- Induction along the computation of canonical forms. -/
@[elab_as_elim]
theorem canonicalInduct {motive : Expr → Prop}
    (bool : ∀ b, motive (.bool b)) (num : ∀ q, motive (.num q)) (str : ∀ s, motive (.str s))
    (var : ∀ x, motive (.var x)) (branded : ∀ x b, motive (.branded x b))
    (member : ∀ e f, motive e → motive (.member e f)) (neg : ∀ e, motive e → motive (.neg e))
    (notNot : ∀ e, motive e → motive (.not (.not e)))
    (notCompare : ∀ o l r, motive l → motive r → motive (.not (.compare o l r)))
    (notBool : ∀ b, motive (.not (.bool b)))
    (not : ∀ e, e.KeepsNot → motive e → motive (.not e))
    (arith : ∀ o l r, motive l → motive r → motive (.arith o l r))
    (compare : ∀ o l r, motive l → motive r → motive (.compare o l r))
    (and : ∀ l r, motive l → motive r → motive (.and l r))
    (or : ∀ l r, motive l → motive r → motive (.or l r))
    (call : ∀ f as, (∀ a ∈ as, motive a) → motive (.call f as))
    (invoke : ∀ e f as, motive e → (∀ a ∈ as, motive a) → motive (.invoke e f as))
    (e : Expr) : motive e := by
  have keeps : ∀ {e : Expr}, e.KeepsNot → motive e → motive e ∧ motive (.not e) :=
    fun h he => ⟨he, not _ h he⟩
  -- The statement for an expression is carried along with that for its negation.
  suffices h : motive e ∧ motive (.not e) from h.1
  induction e with
  | bool b => exact ⟨bool b, notBool b⟩
  | num q => exact keeps trivial (num q)
  | str s => exact keeps trivial (str s)
  | var x => exact keeps trivial (var x)
  | branded x b => exact keeps trivial (branded x b)
  | member e f ih => exact keeps trivial (member e f ih.1)
  | neg e ih => exact keeps trivial (neg e ih.1)
  | not e ih => exact ⟨ih.2, notNot e ih.1⟩
  | arith o l r ihl ihr => exact keeps trivial (arith o l r ihl.1 ihr.1)
  | compare o l r ihl ihr => exact ⟨compare o l r ihl.1 ihr.1, notCompare o l r ihl.1 ihr.1⟩
  | and l r ihl ihr => exact keeps trivial (and l r ihl.1 ihr.1)
  | or l r ihl ihr => exact keeps trivial (or l r ihl.1 ihr.1)
  | call f as ih => exact keeps trivial (call f as fun a ha => (ih a ha).1)
  | invoke e f as ih ihs => exact keeps trivial (invoke e f as ih.1 fun a ha => (ihs a ha).1)

/-! ## The grammar of canonical forms -/

/-- The expression is in canonical form. -/
inductive IsCanonical : Expr → Prop
  | bool (b : Bool) : IsCanonical (.bool b)
  | num (q : Fraction) : IsCanonical (.num q)
  | str (s : String) : IsCanonical (.str s)
  | var (x : String) : IsCanonical (.var x)
  | branded (x b : String) : IsCanonical (.branded x b)
  | member {e : Expr} (f : String) (he : IsCanonical e) : IsCanonical (.member e f)
  /-- A sign stands in front of a literal only where the literal cannot carry it. -/
  | neg {e : Expr} (he : IsCanonical e) (hnum : ∀ q, e = .num q → q.neg? = none) :
      IsCanonical (.neg e)
  | not {e : Expr} (he : IsCanonical e) (hnot : e.KeepsNot) : IsCanonical (.not e)
  | arith (o : ArithOp) {l r : Expr} (hl : IsCanonical l) (hr : IsCanonical r) :
      IsCanonical (.arith o l r)
  | ordering {o : CompareOp} {l r : Expr} (ho : o = .gt ∨ o = .ge) (hl : IsCanonical l)
      (hr : IsCanonical r) : IsCanonical (.compare o l r)
  | equality {o : CompareOp} {l r : Expr} (ho : o = .eq ∨ o = .ne) (hl : IsCanonical l)
      (hr : IsCanonical r) (hle : l.text ≤ r.text) : IsCanonical (.compare o l r)
  | and {l r : Expr} (hl : IsCanonical l) (hr : IsCanonical r) : IsCanonical (.and l r)
  | or {l r : Expr} (hl : IsCanonical l) (hr : IsCanonical r) : IsCanonical (.or l r)
  | call (f : String) {as : List Expr} (has : ∀ a ∈ as, IsCanonical a) : IsCanonical (.call f as)
  | invoke {e : Expr} (f : String) {as : List Expr} (he : IsCanonical e)
      (has : ∀ a ∈ as, IsCanonical a) : IsCanonical (.invoke e f as)

/-! ## Canonicalization ends in the grammar -/

theorem isCanonical_negate (h : e.IsCanonical) : (negate e).IsCanonical := by
  cases e with
  | num q =>
    rw [negate]
    split
    · exact .num _
    · rename_i hq
      refine .neg h fun q' hq' => ?_
      cases hq'
      exact hq
  | _ => exact .neg h fun q hq => by cases hq

theorem isCanonical_orient (o : CompareOp) (hl : l.IsCanonical) (hr : r.IsCanonical) :
    (orient o l r).IsCanonical := by
  cases o with
  | lt => exact .ordering (.inl rfl) hr hl
  | le => exact .ordering (.inr rfl) hr hl
  | gt => exact .ordering (.inl rfl) hl hr
  | ge => exact .ordering (.inr rfl) hl hr
  | eq =>
    rw [orient]
    split
    · rename_i hle
      exact .equality (.inl rfl) hl hr hle
    · rename_i hle
      exact .equality (.inl rfl) hr hl (le_of_not_ge hle)
  | ne =>
    rw [orient]
    split
    · rename_i hle
      exact .equality (.inr rfl) hl hr hle
    · rename_i hle
      exact .equality (.inr rfl) hr hl (le_of_not_ge hle)

theorem forall_mem_canonicalList {P : Expr → Prop} {as : List Expr} :
    (∀ a ∈ canonicalList as, P a) ↔ ∀ a ∈ as, P a.canonical := by
  rw [canonicalList_eq_map, List.forall_mem_map]

/-- Canonicalization gives a canonical form. -/
theorem isCanonical_canonical (e : Expr) : e.canonical.IsCanonical := by
  induction e using canonicalInduct with
  | bool b => exact .bool b
  | num q => exact .num q
  | str s => exact .str s
  | var x => exact .var x
  | branded x b => exact .branded x b
  | member e f ih => exact .member f ih
  | neg e ih => exact isCanonical_negate ih
  | notNot e ih => exact ih
  | notCompare o l r ihl ihr => exact isCanonical_orient o.negated ihl ihr
  | notBool b => exact .bool !b
  | not e hkeeps ih =>
    rw [canonical_not hkeeps]
    exact .not ih hkeeps.canonical
  | arith o l r ihl ihr => exact .arith o ihl ihr
  | compare o l r ihl ihr => exact isCanonical_orient o ihl ihr
  | and l r ihl ihr => exact .and ihl ihr
  | or l r ihl ihr => exact .or ihl ihr
  | call f as ih => exact .call f (forall_mem_canonicalList.2 ih)
  | invoke e f as ih ihs => exact .invoke f ih (forall_mem_canonicalList.2 ihs)

/-! ## Canonicalization leaves the grammar alone -/

theorem negate_eq_neg (h : ∀ q, e = .num q → q.neg? = none) : negate e = neg e := by
  cases e with
  | num q => rw [negate, h q rfl]
  | _ => rfl

theorem orient_eq_self_of_ordering {o : CompareOp} (ho : o = .gt ∨ o = .ge) (l r : Expr) :
    orient o l r = compare o l r := by
  obtain rfl | rfl := ho <;> rfl

theorem orient_eq_self_of_le {o : CompareOp} (ho : o = .eq ∨ o = .ne) (hle : l.text ≤ r.text) :
    orient o l r = compare o l r := by
  obtain rfl | rfl := ho <;> exact if_pos hle

theorem canonicalList_eq_self {as : List Expr} (h : ∀ a ∈ as, a.canonical = a) :
    canonicalList as = as := by
  rw [canonicalList_eq_map, List.map_congr_left h, List.map_id']

/-- A canonical form is its own canonical form. -/
theorem canonical_eq_self (h : e.IsCanonical) : e.canonical = e := by
  induction h with
  | bool _ | num _ | str _ | var _ | branded _ _ => rfl
  | member f _ ih => rw [canonical, ih]
  | neg _ hnum ih => rw [canonical, ih, negate_eq_neg hnum]
  | not _ hnot ih => rw [canonical_not hnot, ih]
  | arith o _ _ ihl ihr => rw [canonical, ihl, ihr]
  | ordering ho _ _ ihl ihr => rw [canonical, ihl, ihr, orient_eq_self_of_ordering ho]
  | equality ho _ _ hle ihl ihr => rw [canonical, ihl, ihr, orient_eq_self_of_le ho hle]
  | and _ _ ihl ihr => rw [canonical, ihl, ihr]
  | or _ _ ihl ihr => rw [canonical, ihl, ihr]
  | call f _ ih => rw [canonical, canonicalList_eq_self ih]
  | invoke f _ _ ih ihs => rw [canonical, ih, canonicalList_eq_self ihs]

/-- **Canonicalization is idempotent**: every expression is taken into the grammar of canonical
forms, and the expressions that canonicalization leaves alone are those of the grammar. -/
theorem canonical_canonical (e : Expr) :
    e.canonical.canonical = e.canonical ∧ e.canonical.IsCanonical ∧
      (e.canonical = e ↔ e.IsCanonical) := by
  have hcanonical := isCanonical_canonical e
  refine ⟨canonical_eq_self hcanonical, hcanonical, ?_, canonical_eq_self⟩
  intro h
  rwa [h] at hcanonical

end Discharge.Expr
