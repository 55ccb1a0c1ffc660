import Discharge.Linear.Form
import Discharge.Proofs.Checked
import Discharge.Proofs.Fraction.Exact
import Mathlib.Algebra.BigOperators.Group.List.Basic
import Mathlib.Data.String.Basic
import Mathlib.Tactic.LinearCombination

/-!
# What linear forms denote

Under a valuation of the atoms a form denotes a rational number (`LinearForm.value`), and each
checked operation on forms that gives a result denotes the same operation on numbers. A form is well
formed (`LinearForm.WF`) when its atoms stand in strict order and no coefficient is zero; then the
coefficient of an atom says how the value depends on that atom alone (`LinearForm.value_update`).
Linearization only builds well-formed forms (`Expr.linearize_wf`).
-/

namespace Discharge

/-- A rational number for each atom. -/
abbrev Valuation := String → ℚ

namespace Coefficients

/-- The sum that coefficients denote. -/
def value (σ : Valuation) (cs : Coefficients) : ℚ := (cs.map fun p => p.2.toRat * σ p.1).sum

@[simp] theorem value_nil (σ : Valuation) : value σ [] = 0 := rfl

@[simp] theorem value_cons (σ : Valuation) (p : String × Fraction) (cs : Coefficients) :
    value σ (p :: cs) = p.2.toRat * σ p.1 + value σ cs := by
  simp [value]

/-- Atoms in strict order, and no coefficient that is zero. -/
structure WF (cs : Coefficients) : Prop where
  sorted : cs.Pairwise fun p q => p.1 < q.1
  nonzero : ∀ p ∈ cs, p.2.toRat ≠ 0

theorem WF.nil : WF [] := ⟨.nil, by simp⟩

theorem WF.tail {p : String × Fraction} {cs : Coefficients} (h : WF (p :: cs)) : WF cs :=
  ⟨(List.pairwise_cons.1 h.sorted).2, fun q hq => h.nonzero q (List.mem_cons_of_mem _ hq)⟩

theorem WF.cons {p : String × Fraction} {cs : Coefficients} (hp : p.2.toRat ≠ 0)
    (hlt : ∀ q ∈ cs, p.1 < q.1) (h : WF cs) : WF (p :: cs) :=
  ⟨List.pairwise_cons.2 ⟨hlt, h.sorted⟩, List.forall_mem_cons.2 ⟨hp, h.nonzero⟩⟩

/-! ## Adding a multiple of an atom -/

/-- An atom is added to the first coefficient, before it, or after it. -/
theorem add?_cons {x y : String} {c d : Fraction} {cs ds : Coefficients}
    (h : add? x c ((y, d) :: cs) = some ds) :
    (x = y ∧ ∃ s, d.add? c = some s ∧ ds = if s.isZero then cs else (y, s) :: cs) ∨
      (x < y ∧ ds = (x, c) :: (y, d) :: cs) ∨
      (y < x ∧ ∃ es, add? x c cs = some es ∧ ds = (y, d) :: es) := by
  rw [add?] at h
  by_cases hxy : x = y
  · rw [if_pos hxy] at h
    obtain ⟨s, hs, h⟩ := Option.bind_eq_some_iff.1 h
    exact .inl ⟨hxy, s, hs, (Option.some.inj h).symm⟩
  rw [if_neg hxy] at h
  by_cases hlt : x < y
  · rw [if_pos hlt] at h
    exact .inr (.inl ⟨hlt, (Option.some.inj h).symm⟩)
  · rw [if_neg hlt] at h
    obtain ⟨es, hes, h⟩ := Option.bind_eq_some_iff.1 h
    exact .inr (.inr ⟨lt_of_le_of_ne (not_lt.1 hlt) (Ne.symm hxy), es, hes,
      (Option.some.inj h).symm⟩)

theorem value_add? (σ : Valuation) {x : String} {c : Fraction} {cs ds : Coefficients}
    (h : add? x c cs = some ds) : value σ ds = value σ cs + c.toRat * σ x := by
  induction cs generalizing ds with
  | nil =>
    obtain rfl := Option.some.inj h
    simp
  | cons p cs ih =>
    rcases add?_cons h with ⟨rfl, s, hs, rfl⟩ | ⟨-, rfl⟩ | ⟨-, es, hes, rfl⟩
    · have hs' := Fraction.toRat_add? hs
      split
      · rename_i hz
        rw [Fraction.isZero_iff.1 hz] at hs'
        rw [value_cons]
        linear_combination σ p.1 * hs'
      · rw [value_cons, value_cons, hs']
        ring
    · rw [value_cons]
      ring
    · rw [value_cons, value_cons, ih hes]
      ring

/-- No atom appears but the one added and those that were there. -/
theorem mem_add? {x : String} {c : Fraction} {cs ds : Coefficients} (h : add? x c cs = some ds) :
    ∀ p ∈ ds, p.1 = x ∨ ∃ q ∈ cs, q.1 = p.1 := by
  induction cs generalizing ds with
  | nil =>
    obtain rfl := Option.some.inj h
    simp
  | cons p cs ih =>
    intro q hq
    rcases add?_cons h with ⟨rfl, s, -, rfl⟩ | ⟨-, rfl⟩ | ⟨-, es, hes, rfl⟩
    · split at hq
      · exact .inr ⟨q, List.mem_cons_of_mem _ hq, rfl⟩
      · rcases List.mem_cons.1 hq with rfl | hq
        · exact .inl rfl
        · exact .inr ⟨q, List.mem_cons_of_mem _ hq, rfl⟩
    · rcases List.mem_cons.1 hq with rfl | hq
      · exact .inl rfl
      · exact .inr ⟨q, hq, rfl⟩
    · rcases List.mem_cons.1 hq with rfl | hq
      · exact .inr ⟨_, List.mem_cons_self, rfl⟩
      · rcases ih hes q hq with hx | ⟨r, hr, e⟩
        · exact .inl hx
        · exact .inr ⟨r, List.mem_cons_of_mem _ hr, e⟩

theorem WF.add? {x : String} {c : Fraction} {cs ds : Coefficients} (hcs : WF cs)
    (hc : c.toRat ≠ 0) (h : Coefficients.add? x c cs = some ds) : WF ds := by
  induction cs generalizing ds with
  | nil =>
    obtain rfl := Option.some.inj h
    exact .cons hc (by simp) .nil
  | cons p cs ih =>
    have hlt : ∀ q ∈ cs, p.1 < q.1 := (List.pairwise_cons.1 hcs.sorted).1
    rcases add?_cons h with ⟨rfl, s, -, rfl⟩ | ⟨hxy, rfl⟩ | ⟨hyx, es, hes, rfl⟩
    · split
      · exact hcs.tail
      · rename_i hz
        exact .cons (fun e => hz (Fraction.isZero_iff.2 e)) hlt hcs.tail
    · refine .cons hc (fun q hq => ?_) hcs
      rcases List.mem_cons.1 hq with rfl | hq
      · exact hxy
      · exact lt_trans hxy (hlt q hq)
    · refine .cons (hcs.nonzero _ List.mem_cons_self) (fun q hq => ?_) (ih hcs.tail hes)
      rcases mem_add? hes q hq with hx | ⟨r, hr, e⟩
      · exact hx ▸ hyx
      · exact e ▸ hlt r hr

/-! ## The coefficient of an atom -/

theorem get_cons (p : String × Fraction) (cs : Coefficients) (x : String) :
    get (p :: cs) x = if x = p.1 then p.2 else get cs x := by
  by_cases hx : x = p.1
  · rw [get, List.lookup_cons, if_pos hx, hx, beq_self_eq_true]
    rfl
  · rw [get, List.lookup_cons, if_neg hx, beq_false_of_ne hx]
    rfl

/-- An atom that does not occur has coefficient zero. -/
theorem get_of_notMem {cs : Coefficients} {x : String} (h : ∀ p ∈ cs, p.1 ≠ x) :
    get cs x = .zero := by
  induction cs with
  | nil => rfl
  | cons p cs ih =>
    rw [get_cons, if_neg (Ne.symm (h p List.mem_cons_self))]
    exact ih fun q hq => h q (List.mem_cons_of_mem _ hq)

/-- The value depends on one atom through its coefficient. -/
theorem value_update {cs : Coefficients} (hcs : WF cs) (σ : Valuation) (x : String) (v : ℚ) :
    value (Function.update σ x v) cs = value σ cs + (get cs x).toRat * (v - σ x) := by
  induction cs with
  | nil => simp [get]
  | cons p cs ih =>
    have hlt : ∀ q ∈ cs, p.1 < q.1 := (List.pairwise_cons.1 hcs.sorted).1
    rw [value_cons, value_cons, ih hcs.tail, get_cons]
    by_cases hx : x = p.1
    · have h0 : get cs x = .zero := get_of_notMem fun q hq => hx ▸ (hlt q hq).ne'
      rw [if_pos hx, h0, ← hx, Function.update_self, Fraction.toRat_zero]
      ring
    · rw [if_neg hx, Function.update_of_ne (Ne.symm hx)]
      ring

end Coefficients

namespace LinearForm

/-- The number that a form denotes. -/
def value (σ : Valuation) (f : LinearForm) : ℚ := f.constant.toRat + f.coeffs.value σ

/-- The coefficients are well formed. -/
def WF (f : LinearForm) : Prop := f.coeffs.WF

/-! ## Forms of one term -/

@[simp] theorem value_ofConstant (σ : Valuation) (c : Fraction) :
    (ofConstant c).value σ = c.toRat := by
  simp [value, ofConstant]

@[simp] theorem value_ofAtom (σ : Valuation) (x : String) : (ofAtom x).value σ = σ x := by
  simp [value, ofAtom]

theorem wf_ofConstant (c : Fraction) : (ofConstant c).WF := .nil

theorem wf_ofAtom (x : String) : (ofAtom x).WF :=
  .cons (by rw [Fraction.toRat_one]; exact one_ne_zero) (by simp) .nil

theorem value_of_isConstant {f : LinearForm} (h : f.isConstant = true) (σ : Valuation) :
    f.value σ = f.constant.toRat := by
  rw [value, List.isEmpty_iff.1 h, Coefficients.value_nil, add_zero]

theorem value_update {f : LinearForm} (hf : f.WF) (σ : Valuation) (x : String) (v : ℚ) :
    f.value (Function.update σ x v) = f.value σ + (f.coeff x).toRat * (v - σ x) := by
  rw [value, value, Coefficients.value_update hf, coeff, add_assoc]

/-! ## Sums -/

/-- Adding the coefficients of one form to those of another, one after the other. -/
theorem value_foldlM_add? (σ : Valuation) {as bs cs : Coefficients}
    (h : bs.foldlM (fun cs (x, c) => Coefficients.add? x c cs) as = some cs) :
    cs.value σ = as.value σ + bs.value σ := by
  induction bs generalizing as with
  | nil =>
    obtain rfl := Option.some.inj h
    simp
  | cons p bs ih =>
    rw [List.foldlM_cons] at h
    simp only [Option.bind_eq_bind, Option.bind_eq_some_iff] at h
    obtain ⟨ds, hds, h⟩ := h
    rw [ih h, Coefficients.value_add? σ hds, Coefficients.value_cons, add_assoc]

theorem wf_foldlM_add? {as bs cs : Coefficients} (has : as.WF) (hbs : ∀ p ∈ bs, p.2.toRat ≠ 0)
    (h : bs.foldlM (fun cs (x, c) => Coefficients.add? x c cs) as = some cs) : cs.WF := by
  induction bs generalizing as with
  | nil =>
    obtain rfl := Option.some.inj h
    exact has
  | cons p bs ih =>
    rw [List.foldlM_cons] at h
    simp only [Option.bind_eq_bind, Option.bind_eq_some_iff] at h
    obtain ⟨ds, hds, h⟩ := h
    exact ih (has.add? (hbs p List.mem_cons_self) hds)
      (fun q hq => hbs q (List.mem_cons_of_mem _ hq)) h

theorem add?_eq_some {f g k : LinearForm} (h : f.add? g = some k) :
    f.constant.add? g.constant = some k.constant ∧
      g.coeffs.foldlM (fun cs (x, c) => Coefficients.add? x c cs) f.coeffs = some k.coeffs := by
  simp only [add?, Option.bind_eq_bind, Option.bind_eq_some_iff] at h
  obtain ⟨c, hc, cs, hcs, h⟩ := h
  obtain rfl := Option.some.inj h
  exact ⟨hc, hcs⟩

theorem value_add? (σ : Valuation) {f g k : LinearForm} (h : f.add? g = some k) :
    k.value σ = f.value σ + g.value σ := by
  obtain ⟨hc, hcs⟩ := add?_eq_some h
  rw [value, value, value, Fraction.toRat_add? hc, value_foldlM_add? σ hcs]
  ring

theorem WF.add? {f g k : LinearForm} (hf : f.WF) (hg : g.WF) (h : f.add? g = some k) : k.WF :=
  wf_foldlM_add? hf hg.nonzero (add?_eq_some h).2

/-! ## Multiples -/

/-- Multiplying each coefficient. -/
theorem value_forall₂_mul? (σ : Valuation) {k : Fraction} {cs ds : Coefficients}
    (h : List.Forall₂ (fun p q => p.1 = q.1 ∧ p.2.mul? k = some q.2) cs ds) :
    ds.value σ = k.toRat * cs.value σ := by
  induction h with
  | nil => simp
  | cons hpq _ ih =>
    rw [Coefficients.value_cons, Coefficients.value_cons, ih, Fraction.toRat_mul? hpq.2, hpq.1]
    ring

theorem wf_forall₂_mul? {k : Fraction} (hk : k.toRat ≠ 0) {cs ds : Coefficients} (hcs : cs.WF)
    (h : List.Forall₂ (fun p q => p.1 = q.1 ∧ p.2.mul? k = some q.2) cs ds) : ds.WF := by
  induction h with
  | nil => exact .nil
  | cons hpq hrest ih =>
    refine .cons ?_ (fun r hr => ?_) (ih hcs.tail)
    · rw [Fraction.toRat_mul? hpq.2]
      exact mul_ne_zero (hcs.nonzero _ List.mem_cons_self) hk
    · obtain ⟨q, hq, e, -⟩ := forall₂_mem_right hrest r hr
      rw [← hpq.1, ← e]
      exact (List.pairwise_cons.1 hcs.sorted).1 q hq

/-- A multiple of a form is the zero form, or each number in the form multiplied. -/
theorem scale?_eq_some {f g : LinearForm} {k : Fraction} (h : f.scale? k = some g) :
    (k.toRat = 0 ∧ g = ofConstant .zero) ∨
      (k.toRat ≠ 0 ∧ f.constant.mul? k = some g.constant ∧
        List.Forall₂ (fun p q => p.1 = q.1 ∧ p.2.mul? k = some q.2) f.coeffs g.coeffs) := by
  unfold scale? at h
  split at h
  · rename_i hk
    exact .inl ⟨Fraction.isZero_iff.1 hk, (Option.some.inj h).symm⟩
  · rename_i hk
    simp only [Option.bind_eq_bind, Option.bind_eq_some_iff, mapM_eq_some] at h
    obtain ⟨cs, hcs, c, hc, h⟩ := h
    obtain rfl := Option.some.inj h
    refine .inr ⟨fun e => hk (Fraction.isZero_iff.2 e), hc, hcs.imp fun p q hpq => ?_⟩
    obtain ⟨d, hd, e⟩ := hpq
    obtain rfl := Option.some.inj e
    exact ⟨rfl, hd⟩

theorem value_scale? (σ : Valuation) {f g : LinearForm} {k : Fraction} (h : f.scale? k = some g) :
    g.value σ = k.toRat * f.value σ := by
  rcases scale?_eq_some h with ⟨hk, rfl⟩ | ⟨-, hc, hcs⟩
  · rw [hk, value_ofConstant, Fraction.toRat_zero, zero_mul]
  · rw [value, value, Fraction.toRat_mul? hc, value_forall₂_mul? σ hcs]
    ring

theorem WF.scale? {f g : LinearForm} {k : Fraction} (hf : f.WF) (h : f.scale? k = some g) :
    g.WF := by
  rcases scale?_eq_some h with ⟨-, rfl⟩ | ⟨hk, -, hcs⟩
  · exact wf_ofConstant _
  · exact wf_forall₂_mul? hk hf hcs

theorem neg?_eq_some {f g : LinearForm} (h : f.neg? = some g) :
    ∃ k : Fraction, k.toRat = -1 ∧ f.scale? k = some g := by
  rw [neg?, Option.bind_eq_bind, Option.bind_eq_some_iff] at h
  obtain ⟨k, hk, h⟩ := h
  exact ⟨k, by rw [Fraction.toRat_neg? hk, Fraction.toRat_one], h⟩

theorem value_neg? (σ : Valuation) {f g : LinearForm} (h : f.neg? = some g) :
    g.value σ = -f.value σ := by
  obtain ⟨k, hk, h⟩ := neg?_eq_some h
  rw [value_scale? σ h, hk, neg_one_mul]

theorem WF.neg? {f g : LinearForm} (hf : f.WF) (h : f.neg? = some g) : g.WF := by
  obtain ⟨k, -, h⟩ := neg?_eq_some h
  exact hf.scale? h

theorem value_sub? (σ : Valuation) {f g k : LinearForm} (h : f.sub? g = some k) :
    k.value σ = f.value σ - g.value σ := by
  obtain ⟨n, hn, h⟩ := Option.bind_eq_some_iff.1 h
  rw [value_add? σ h, value_neg? σ hn, sub_eq_add_neg]

theorem WF.sub? {f g k : LinearForm} (hf : f.WF) (hg : g.WF) (h : f.sub? g = some k) : k.WF := by
  obtain ⟨n, hn, h⟩ := Option.bind_eq_some_iff.1 h
  exact hf.add? (hg.neg? hn) h

end LinearForm

namespace Expr

/-! ## Linearization -/

theorem orOverflow_eq_ok {o : Option LinearForm} {f : LinearForm} :
    orOverflow o = .ok f ↔ o = some f := by
  cases o with
  | none => exact ⟨fun h => (by cases h), fun h => (by cases h)⟩
  | some g => exact ⟨fun h => (by cases h; rfl), fun h => (by cases h; rfl)⟩

/-- A product is linear when one factor is constant. -/
theorem mulForm_ok {e : Expr} {a b f : LinearForm} (h : arithForm e .mul a b = .ok f) :
    a.isConstant = true ∧ b.scale? a.constant = some f ∨
      b.isConstant = true ∧ a.scale? b.constant = some f := by
  simp only [arithForm] at h
  split at h
  · rename_i ha
    exact .inl ⟨ha, orOverflow_eq_ok.1 h⟩
  split at h
  · rename_i hb
    exact .inr ⟨hb, orOverflow_eq_ok.1 h⟩
  · cases h

/-- A quotient is linear when the divisor is constant and not zero. -/
theorem divForm_ok {e : Expr} {a b f : LinearForm} (h : arithForm e .div a b = .ok f) :
    b.isConstant = true ∧ ∃ k, Fraction.one.div? b.constant = some k ∧ a.scale? k = some f := by
  simp only [arithForm] at h
  split at h
  · cases h
  rename_i hb
  rw [Bool.not_eq_true', Bool.not_eq_false] at hb
  split at h
  · rename_i k hk
    exact ⟨hb, k, hk, orOverflow_eq_ok.1 h⟩
  · cases h

/-- A remainder is linear when it is constant. -/
theorem remForm_ok {e : Expr} {a b f : LinearForm} (h : arithForm e .rem a b = .ok f) :
    (a.isConstant = true ∧ b.isConstant = true) ∧
      ∃ c, a.constant.rem? b.constant = some c ∧ .ofConstant c = f := by
  simp only [arithForm] at h
  split at h
  · rename_i hab
    exact ⟨Bool.and_eq_true_iff.1 hab, Option.map_eq_some_iff.1 (orOverflow_eq_ok.1 h)⟩
  · cases h

/-- A power is linear when its exponent is constant, and either its base is too or the exponent is
zero or one. -/
theorem powerForm_ok {e : Expr} {base exponent f : LinearForm}
    (h : powerForm e base exponent = .ok f) :
    exponent.isConstant = true ∧
      (base.isConstant = true ∧
          (∃ c, base.constant.pow? exponent.constant.num.toNat = some c ∧ .ofConstant c = f) ∨
        exponent.constant.num = 0 ∧ .ofConstant .one = f ∨
        exponent.constant.num = 1 ∧ base = f) := by
  unfold powerForm at h
  split at h
  · cases h
  rename_i hexponent
  rw [Bool.not_eq_true', Bool.not_eq_false] at hexponent
  refine ⟨hexponent, ?_⟩
  dsimp only at h
  split at h
  · cases h
  split at h
  · rename_i hbase
    split at h
    · cases h
    · exact .inl ⟨hbase, Option.map_eq_some_iff.1 (orOverflow_eq_ok.1 h)⟩
  split at h
  · rename_i hzero
    cases h
    exact .inr (.inl ⟨hzero, rfl⟩)
  split at h
  · rename_i hone
    cases h
    exact .inr (.inr ⟨hone, rfl⟩)
  · cases h

theorem wf_arithForm {e : Expr} {o : ArithOp} {a b f : LinearForm} (ha : a.WF) (hb : b.WF)
    (h : arithForm e o a b = .ok f) : f.WF := by
  cases o with
  | add => exact ha.add? hb (orOverflow_eq_ok.1 h)
  | sub => exact ha.sub? hb (orOverflow_eq_ok.1 h)
  | mul =>
    rcases mulForm_ok h with ⟨-, hf⟩ | ⟨-, hf⟩
    · exact hb.scale? hf
    · exact ha.scale? hf
  | div =>
    obtain ⟨-, k, -, hf⟩ := divForm_ok h
    exact ha.scale? hf
  | rem =>
    obtain ⟨-, c, -, rfl⟩ := remForm_ok h
    exact LinearForm.wf_ofConstant c
  | pow =>
    obtain ⟨-, ⟨-, c, -, rfl⟩ | ⟨-, rfl⟩ | ⟨-, rfl⟩⟩ := powerForm_ok h
    · exact LinearForm.wf_ofConstant c
    · exact LinearForm.wf_ofConstant _
    · exact ha

/-- **Linearization builds well-formed forms.** -/
theorem linearize_wf {e : Expr} {f : LinearForm} (h : e.linearize = .ok f) : f.WF := by
  induction e generalizing f with
  | num q => cases h; exact LinearForm.wf_ofConstant q
  | var x => cases h; exact LinearForm.wf_ofAtom x
  | member e field _ =>
    rw [linearize] at h
    split at h
    · cases h
      exact LinearForm.wf_ofAtom _
    · cases h
  | neg e ih =>
    obtain ⟨g, hg, h⟩ := except_bind_ok.1 h
    exact (ih hg).neg? (orOverflow_eq_ok.1 h)
  | arith o l r ihl ihr =>
    obtain ⟨a, ha, h⟩ := except_bind_ok.1 h
    obtain ⟨b, hb, h⟩ := except_bind_ok.1 h
    exact wf_arithForm (ihl ha) (ihr hb) h
  | _ => cases h

end Expr

end Discharge
