import Discharge.Proofs.Linear.Exact
import Discharge.Proofs.Linear.Progress

/-!
# Linear forms state what their terms state

An assignment gives a number to a variable and to the length of a variable (`Lookup.AtomValue`).
Under an assignment that gives a term a value, each atom that is left in the linear form of the term
has a number (`Expr.exists_atomValue`): the operations on forms bring in no atom
(`LinearForm.mem_atoms_of_combination`), and no part of an arithmetic term goes without a value. The
value of the term is the constant of the form and the sum of the numbers of its atoms, each times
its coefficient, and a constraint made from a comparison holds just when the comparison does.
-/

namespace Discharge

/-- The assignment gives the number to the atom. -/
inductive Lookup.AtomValue (ρ : Lookup ℚ) : String → ℚ → Prop
  | value {x : String} {q : ℚ} (hx : Expr.isName x = true) (h : ρ.value x = some q) :
      AtomValue ρ x q
  | length {x : String} {q : ℚ} (hx : Expr.isName x = true) (h : ρ.length x = some q) :
      AtomValue ρ (x ++ ".length") q

namespace LinearForm

variable {f g k : LinearForm} {σ τ : Valuation}

/-! ## Atoms of a form -/

/-- The value of a form depends only on the atoms that occur in it. -/
theorem value_congr (h : ∀ a ∈ f.atoms, σ a = τ a) : f.value σ = f.value τ := by
  have hterms : f.coeffs.map (fun p => p.2.toRat * σ p.1) =
      f.coeffs.map (fun p => p.2.toRat * τ p.1) := by
    refine List.map_congr_left fun p hp => ?_
    rw [h p.1 (List.mem_map_of_mem hp)]
  rw [value, value, Coefficients.value, Coefficients.value, hterms]

/-- The value of a form, written with the coefficients of its atoms. -/
theorem value_eq_sum (hf : f.WF) (σ : Valuation) :
    f.value σ = f.constant.toRat + (f.atoms.map fun a => (f.coeff a).toRat * σ a).sum := by
  have hterms : f.coeffs.map (fun p => p.2.toRat * σ p.1) =
      f.atoms.map fun a => (f.coeff a).toRat * σ a := by
    rw [atoms, List.map_map]
    refine List.map_congr_left fun p hp => ?_
    rw [Function.comp_apply, coeff, Coefficients.get_of_mem hf hp]
  rw [value, Coefficients.value, hterms]

theorem nodup_atoms (hf : f.WF) : f.atoms.Nodup := by
  rw [atoms, List.nodup_iff_pairwise_ne, List.pairwise_map]
  exact hf.sorted.imp fun h => h.ne

/-- A form that always has the value of a combination of two forms has only atoms of those. -/
theorem mem_atoms_of_combination (hf : f.WF) (hg : g.WF) (hk : k.WF) {p q : ℚ}
    (h : ∀ σ, k.value σ = p * f.value σ + q * g.value σ) {a : String} (ha : a ∈ k.atoms) :
    a ∈ f.atoms ∨ a ∈ g.atoms := by
  by_contra hne
  obtain ⟨hnf, hng⟩ := not_or.1 hne
  rw [mem_atoms_iff hf, not_not, toRat_coeff hf] at hnf
  rw [mem_atoms_iff hg, not_not, toRat_coeff hg] at hng
  refine (mem_atoms_iff hk).1 ha ?_
  rw [toRat_coeff hk, h, h]
  linear_combination p * hnf + q * hng

theorem mem_atoms_scale? (hf : f.WF) {c : Fraction} (h : f.scale? c = some k) {a : String}
    (ha : a ∈ k.atoms) : a ∈ f.atoms := by
  have hvalue : ∀ σ, k.value σ = c.toRat * f.value σ + 0 * f.value σ := fun σ => by
    rw [value_scale? σ h, zero_mul, add_zero]
  exact (mem_atoms_of_combination hf hf (hf.scale? h) hvalue ha).elim id id

theorem mem_atoms_neg? (hf : f.WF) (h : f.neg? = some k) {a : String} (ha : a ∈ k.atoms) :
    a ∈ f.atoms := by
  obtain ⟨c, -, h⟩ := neg?_eq_some h
  exact mem_atoms_scale? hf h ha

theorem mem_atoms_add? (hf : f.WF) (hg : g.WF) (h : f.add? g = some k) {a : String}
    (ha : a ∈ k.atoms) : a ∈ f.atoms ∨ a ∈ g.atoms := by
  have hvalue : ∀ σ, k.value σ = 1 * f.value σ + 1 * g.value σ := fun σ => by
    rw [value_add? σ h, one_mul, one_mul]
  exact mem_atoms_of_combination hf hg (hf.add? hg h) hvalue ha

theorem mem_atoms_sub? (hf : f.WF) (hg : g.WF) (h : f.sub? g = some k) {a : String}
    (ha : a ∈ k.atoms) : a ∈ f.atoms ∨ a ∈ g.atoms := by
  have hvalue : ∀ σ, k.value σ = 1 * f.value σ + (-1) * g.value σ := fun σ => by
    rw [value_sub? σ h]
    ring
  exact mem_atoms_of_combination hf hg (hf.sub? hg h) hvalue ha

end LinearForm

/-- The form of a constraint is the difference of the two sides that it compares. -/
theorem Constraint.form_ofComparison {o : CompareOp} {l r : Expr} {c : Constraint}
    (h : ofComparison o l r = .ok c) :
    ∃ a b, l.linearize = .ok a ∧ r.linearize = .ok b ∧
      (a.sub? b = some c.form ∨ b.sub? a = some c.form) := by
  obtain ⟨a, ha, h⟩ := except_bind_ok.1 h
  obtain ⟨b, hb, h⟩ := except_bind_ok.1 h
  refine ⟨a, b, ha, hb, ?_⟩
  cases o with
  | gt | ge | eq =>
    obtain ⟨d, hd, h⟩ := except_bind_ok.1 h
    cases h
    exact .inl (Expr.orOverflow_eq_ok.1 hd)
  | lt | le =>
    obtain ⟨d, hd, h⟩ := except_bind_ok.1 h
    cases h
    exact .inr (Expr.orOverflow_eq_ok.1 hd)
  | ne => cases h

namespace Expr

variable {ρ : Lookup ℚ} {σ : Valuation}

/-- The atoms of an operation are those of its operands. -/
theorem mem_atoms_arithForm {e : Expr} {o : ArithOp} {a b f : LinearForm} (ha : a.WF) (hb : b.WF)
    (h : arithForm e o a b = .ok f) {x : String} (hx : x ∈ f.atoms) :
    x ∈ a.atoms ∨ x ∈ b.atoms := by
  cases o with
  | add => exact LinearForm.mem_atoms_add? ha hb (orOverflow_eq_ok.1 h) hx
  | sub => exact LinearForm.mem_atoms_sub? ha hb (orOverflow_eq_ok.1 h) hx
  | mul =>
    rcases mulForm_ok h with ⟨-, hf⟩ | ⟨-, hf⟩
    · exact .inr (LinearForm.mem_atoms_scale? hb hf hx)
    · exact .inl (LinearForm.mem_atoms_scale? ha hf hx)
  | div =>
    obtain ⟨-, k, -, hf⟩ := divForm_ok h
    exact .inl (LinearForm.mem_atoms_scale? ha hf hx)
  | rem =>
    obtain ⟨-, c, -, rfl⟩ := remForm_ok h
    cases hx
  | pow =>
    obtain ⟨-, ⟨-, c, -, rfl⟩ | ⟨-, rfl⟩ | ⟨-, rfl⟩⟩ := powerForm_ok h
    · cases hx
    · cases hx
    · exact .inl hx

theorem text_length (x : String) : (member (var x) "length").text = x ++ ".length" := by
  rw [String.ext_iff, toList_text_length]
  simp

/-- The number of an atom is the one that the assignment gives to its text. -/
theorem atoms_of_atomValue {a : String} {q : ℚ} (h : ρ.AtomValue a q) : ρ.atoms a = q := by
  cases h with
  | value hx h => rw [atoms_variable hx, h, Option.getD_some]
  | length hx h => rw [← text_length, atoms_length hx, h, Option.getD_some]

/-- **Where a term has a value, each atom of its linear form has a number.** -/
theorem exists_atomValue {e : Expr} (hnamed : e.Named) {f : LinearForm} (h : e.linearize = .ok f)
    {v : Result ℚ} (hv : e.evalIn .rational ρ = some v) :
    ∀ a ∈ f.atoms, ∃ q, ρ.AtomValue a q := by
  induction e generalizing f v with
  | num q =>
    cases h
    exact List.forall_mem_nil _
  | var x =>
    cases h
    obtain ⟨q, hq, -⟩ := Option.map_eq_some_iff.1 hv
    exact List.forall_mem_singleton.2 ⟨q, .value (named_var.1 hnamed) hq⟩
  | member e field ih =>
    rw [linearize] at h
    split at h
    · rename_i hatom
      obtain ⟨-, hbase⟩ := Bool.and_eq_true_iff.1 hatom
      cases h
      obtain ⟨x, n, rfl, rfl, hn, -⟩ := evalIn_atom hbase hv
      refine List.forall_mem_singleton.2 ⟨n, ?_⟩
      rw [text_length]
      exact .length (named_var.1 hnamed) hn
    · cases h
  | neg e ih =>
    obtain ⟨g, hg, h⟩ := except_bind_ok.1 h
    obtain ⟨q, -, hq, -, -⟩ := evalIn_neg.1 hv
    intro a ha
    exact ih hnamed hg hq a
      (LinearForm.mem_atoms_neg? (linearize_wf hg) (orOverflow_eq_ok.1 h) ha)
  | arith o l r ihl ihr =>
    obtain ⟨hl, hr⟩ := named_arith.1 hnamed
    obtain ⟨a, ha, h⟩ := except_bind_ok.1 h
    obtain ⟨b, hb, h⟩ := except_bind_ok.1 h
    obtain ⟨p, q, -, hp, hq, -, -⟩ := evalIn_arith.1 hv
    intro x hx
    rcases mem_atoms_arithForm (linearize_wf ha) (linearize_wf hb) h hx with hx | hx
    · exact ihl hl ha hp x hx
    · exact ihr hr hb hq x hx
  | _ => cases h

theorem exists_atomValue_ofComparison {o : CompareOp} {l r : Expr} {c : Constraint} (hl : l.Named)
    (hr : r.Named) (h : Constraint.ofComparison o l r = .ok c) {v w : Result ℚ}
    (hv : l.evalIn .rational ρ = some v) (hw : r.evalIn .rational ρ = some w) :
    ∀ a ∈ c.form.atoms, ∃ q, ρ.AtomValue a q := by
  obtain ⟨a, b, ha, hb, hform⟩ := Constraint.form_ofComparison h
  intro x hx
  have hmem : x ∈ a.atoms ∨ x ∈ b.atoms := by
    rcases hform with hd | hd
    · exact LinearForm.mem_atoms_sub? (linearize_wf ha) (linearize_wf hb) hd hx
    · exact (LinearForm.mem_atoms_sub? (linearize_wf hb) (linearize_wf ha) hd hx).symm
  rcases hmem with hx | hx
  · exact exists_atomValue hl ha hv x hx
  · exact exists_atomValue hr hb hw x hx

/-- The linear form has the value of the term under every valuation that agrees with the assignment
on the atoms of the form. -/
theorem eq_value_of_linearize {e : Expr} (hnamed : e.Named) {f : LinearForm}
    (h : e.linearize = .ok f) {v : Result ℚ} (hv : e.evalIn .rational ρ = some v)
    (hσ : ∀ a ∈ f.atoms, ρ.AtomValue a (σ a)) : v = .num (f.value σ) := by
  rw [linearize_exact hnamed h hv]
  congr 1
  exact LinearForm.value_congr fun a ha => atoms_of_atomValue (hσ a ha)

/-- **Linearization is exact.** The form of a term has each of its atoms once and no coefficient
that is zero. Wherever the term has a value, each atom has a number, and the value is the constant
and the sum of these numbers times their coefficients. A constraint made from a comparison holds
just when the comparison does, wherever both sides have values. -/
theorem linearize_faithful :
    (∀ (e : Expr) (f : LinearForm), e.Named → e.linearize = .ok f →
      f.atoms.Nodup ∧ (∀ p ∈ f.coeffs, p.2.isZero = false) ∧
      ∀ (ρ : Lookup ℚ) (v : Result ℚ), e.evalIn .rational ρ = some v →
        (∀ a ∈ f.atoms, ∃ q, ρ.AtomValue a q) ∧
        ∀ σ : Valuation, (∀ a ∈ f.atoms, ρ.AtomValue a (σ a)) →
          v = .num (f.constant.toRat + (f.atoms.map fun a => (f.coeff a).toRat * σ a).sum)) ∧
    ∀ (o : CompareOp) (l r : Expr) (c : Constraint), l.Named → r.Named →
      Constraint.ofComparison o l r = .ok c →
      ∀ (ρ : Lookup ℚ) (v w : Result ℚ), l.evalIn .rational ρ = some v →
        r.evalIn .rational ρ = some w →
        (∀ a ∈ c.form.atoms, ∃ q, ρ.AtomValue a q) ∧
        ∀ σ : Valuation, (∀ a ∈ c.form.atoms, ρ.AtomValue a (σ a)) →
          ∃ b, (compare o l r).evalIn .rational ρ = some (.bool b) ∧ (b = true ↔ c.Holds σ) := by
  constructor
  · intro e f hnamed h
    have hwf := linearize_wf h
    refine ⟨LinearForm.nodup_atoms hwf,
      fun p hp => Fraction.isZero_eq_false_iff.2 (hwf.nonzero p hp), fun ρ v hv => ?_⟩
    refine ⟨exists_atomValue hnamed h hv, fun σ hσ => ?_⟩
    rw [← LinearForm.value_eq_sum hwf]
    exact eq_value_of_linearize hnamed h hv hσ
  · intro o l r c hl hr h ρ v w hv hw
    refine ⟨exists_atomValue_ofComparison hl hr h hv hw, fun σ hσ => ?_⟩
    obtain ⟨a, b, ha, hb, -, hc⟩ := Constraint.holds_ofComparison h
    have hvalue : c.form.value ρ.atoms = c.form.value σ :=
      LinearForm.value_congr fun x hx => atoms_of_atomValue (hσ x hx)
    rw [linearize_exact hl ha hv] at hv
    rw [linearize_exact hr hb hw] at hw
    refine ⟨_, evalIn_compare_num hv hw, ?_⟩
    rw [decide_eq_true_iff, ← hc, Constraint.Holds, Constraint.Holds, hvalue]

/-- `(x - x + 2) * (s.length / 4) + 7 % 4 - y ** 1`, of which `x` cancels, and its comparison with
`x ** 0`. -/
theorem linearize_faithful_cancelled :
    let number (n : Int) (h : Word.Fits n) : Expr := .num (.ofWord n h)
    let two : Expr := .arith .add (.arith .sub (.var "x") (.var "x")) (number 2 (by decide))
    let quarter : Expr := .arith .div (.member (.var "s") "length") (number 4 (by decide))
    let three : Expr := .arith .rem (number 7 (by decide)) (number 4 (by decide))
    let e : Expr := .arith .sub (.arith .add (.arith .mul two quarter) three)
      (.arith .pow (.var "y") (number 1 (by decide)))
    let unit : Expr := .arith .pow (.var "x") (number 0 (by decide))
    let half : Fraction := ⟨1, 2, by decide, by decide, by decide, by decide⟩
    let minus : Fraction := .ofWord (-1) (by decide)
    let f : LinearForm := ⟨[("s.length", half), ("y", minus)], .ofWord 3 (by decide)⟩
    let c : Constraint := ⟨⟨[("s.length", half), ("y", minus)], .ofWord 2 (by decide)⟩, .ge⟩
    let ρ : Lookup ℚ := ⟨fun x => if x = "x" then some 7 else if x = "y" then some 3 else none,
      fun x => if x = "s" then some 5 else none⟩
    let σ : Valuation := fun a => if a = "y" then 3 else 5
    e.linearize = .ok f ∧ e.evalIn .rational ρ = some (.num (5 / 2)) ∧
      (.num (5 / 2) : Result ℚ) =
        .num (f.constant.toRat + (f.atoms.map fun a => (f.coeff a).toRat * σ a).sum) ∧
      Constraint.ofComparison .ge e unit = .ok c ∧
      ∃ b, (compare .ge e unit).evalIn .rational ρ = some (.bool b) ∧ (b = true ↔ c.Holds σ) := by
  intro number two quarter three e unit half minus f c ρ σ
  have hlinear : e.linearize = .ok f := by decide +kernel
  have hvalue : e.evalIn .rational ρ = some (.num (5 / 2)) := by decide +kernel
  have hunit : unit.evalIn .rational ρ = some (.num 1) := by decide +kernel
  have hconstraint : Constraint.ofComparison .ge e unit = .ok c := by decide +kernel
  have hnames : ∀ x ∈ e.names ++ unit.names, isName x = true := by decide +kernel
  obtain ⟨hnamed, hnamedUnit⟩ := List.forall_mem_append.1 hnames
  have hnumbers : ∀ a ∈ ["s.length", "y"], ρ.AtomValue a (σ a) :=
    List.forall_mem_cons.2 ⟨.length (x := "s") (by decide) rfl,
      List.forall_mem_singleton.2 (.value (by decide) rfl)⟩
  refine ⟨hlinear, hvalue, ?_, hconstraint, ?_⟩
  · exact ((linearize_faithful.1 e f hnamed hlinear).2.2 ρ _ hvalue).2 σ hnumbers
  · exact (linearize_faithful.2 .ge e unit c hnamed hnamedUnit hconstraint ρ _ _ hvalue hunit).2
      σ hnumbers

end Expr

end Discharge
