import Discharge.Proofs.Expr.Meaning
import Discharge.Proofs.Expr.Names
import Discharge.Proofs.Linear.Form

/-!
# Linearization is exact

An assignment of numbers to variables and to their lengths gives a number to every atom
(`Lookup.atoms`): an atom with a point in it is the length of the variable before the point. Under
it the linear form of a term has the exact value of the term, wherever the term has one
(`Expr.linearize_exact`).
-/

namespace Discharge

/-- The number that an atom stands for. Atoms without one count as zero. -/
def Lookup.atoms (ρ : Lookup ℚ) : Valuation := fun a =>
  if '.' ∈ a.toList then (ρ.length (String.ofList (a.toList.takeWhile (· != '.')))).getD 0
  else (ρ.value a).getD 0

namespace Expr

variable {ρ : Lookup ℚ}

/-! ## Atoms -/

theorem point_notMem_of_isName {x : String} (hx : isName x = true) : '.' ∉ x.toList := by
  unfold isName at hx
  split at hx
  · cases hx
  · rename_i c cs hcs
    obtain ⟨hc, hrest⟩ := Bool.and_eq_true_iff.1 hx
    rw [hcs]
    intro hmem
    rcases List.mem_cons.1 hmem with rfl | hmem
    · revert hc
      decide
    · have := List.all_eq_true.1 hrest _ hmem
      revert this
      decide

theorem atoms_variable {x : String} (hx : isName x = true) :
    ρ.atoms x = (ρ.value x).getD 0 :=
  if_neg (point_notMem_of_isName hx)

theorem toList_text_length (x : String) :
    (member (var x) "length").text.toList = x.toList ++ '.' :: "length".toList := by
  simp [text, operandText, precedence]

theorem atoms_length {x : String} (hx : isName x = true) :
    ρ.atoms (member (var x) "length").text = (ρ.length x).getD 0 := by
  have hpoint := point_notMem_of_isName hx
  have hkeep : ∀ c ∈ x.toList, (c != '.') = true := by
    intro c hc
    rw [bne_iff_ne]
    rintro rfl
    exact hpoint hc
  have hbefore : (x.toList ++ '.' :: "length".toList).takeWhile (· != '.') = x.toList := by
    rw [List.takeWhile_append_of_pos hkeep]
    exact List.append_nil _
  unfold Lookup.atoms
  rw [toList_text_length, hbefore, String.ofList_toList]
  exact if_pos (List.mem_append_right _ List.mem_cons_self)

/-- A field of a variable or of a member only has a value if it is the length of the variable. -/
theorem evalIn_atom {e : Expr} (hbase : e.isAtomBase = true) {f : String} {v : Result ℚ}
    (hv : (member e f).evalIn .rational ρ = some v) :
    ∃ x n, e = var x ∧ f = "length" ∧ ρ.length x = some n ∧ v = .num n := by
  cases e with
  | var x =>
    rcases evalIn_member.1 hv with ⟨n, hn, rfl⟩ | ⟨_, a, ha, hm⟩
    · rw [Lookup.lengthOf?] at hn
      split at hn
      · rename_i hf
        exact ⟨x, n, rfl, hf, hn, rfl⟩
      · cases hn
    · obtain ⟨s, _, rfl, _⟩ := Arithmetic.member?_eq_some.1 hm
      obtain ⟨_, _, hs⟩ := Option.map_eq_some_iff.1 ha
      cases hs
  | member e g =>
    rcases evalIn_member.1 hv with ⟨n, hn, _⟩ | ⟨_, a, ha, hm⟩
    · cases hn
    · -- A member is a number, and a number has no fields.
      obtain ⟨s, _, rfl, _⟩ := Arithmetic.member?_eq_some.1 hm
      rcases evalIn_member.1 ha with ⟨_, _, hs⟩ | ⟨_, _, _, hm'⟩
      · cases hs
      · obtain ⟨_, _, _, _, _, hs⟩ := Arithmetic.member?_eq_some.1 hm'
        cases hs
  | _ => cases hbase

/-! ## Operations -/

/-- The form of an operation has the exact value of the operation. -/
theorem value_arithForm {e : Expr} {o : ArithOp} {a b f : LinearForm}
    (h : arithForm e o a b = .ok f) {σ : Valuation} {q : ℚ}
    (hq : o.rational? (a.value σ) (b.value σ) = some q) : f.value σ = q := by
  cases o with
  | add =>
    rw [LinearForm.value_add? σ (orOverflow_eq_ok.1 h)]
    exact Option.some.inj hq
  | sub =>
    rw [LinearForm.value_sub? σ (orOverflow_eq_ok.1 h)]
    exact Option.some.inj hq
  | mul =>
    rw [← Option.some.inj hq]
    rcases mulForm_ok h with ⟨ha, hf⟩ | ⟨hb, hf⟩
    · rw [LinearForm.value_scale? σ hf, LinearForm.value_of_isConstant ha]
    · rw [LinearForm.value_scale? σ hf, LinearForm.value_of_isConstant hb, mul_comm]
  | div =>
    obtain ⟨hb, k, hk, hf⟩ := divForm_ok h
    obtain ⟨hzero, hk⟩ := Fraction.toRat_div? hk
    rw [LinearForm.value_of_isConstant hb] at hq
    rw [LinearForm.value_scale? σ hf, hk, Fraction.toRat_one, one_div_mul_eq_div]
    exact Option.some.inj ((if_neg hzero).symm.trans hq)
  | rem =>
    obtain ⟨⟨ha, hb⟩, c, hc, rfl⟩ := remForm_ok h
    obtain ⟨hint, hc⟩ := Fraction.toRat_rem? hc
    rw [LinearForm.value_of_isConstant ha, LinearForm.value_of_isConstant hb] at hq
    rw [LinearForm.value_ofConstant, hc]
    exact Option.some.inj ((if_pos hint).symm.trans hq)
  | pow =>
    obtain ⟨hb, hcases⟩ := powerForm_ok h
    rw [LinearForm.value_of_isConstant hb] at hq
    have hq : a.value σ ^ b.constant.num.toNat = q := by
      rw [ArithOp.rational?] at hq
      split at hq
      · exact Option.some.inj hq
      · cases hq
    rcases hcases with ⟨ha, c, hc, rfl⟩ | ⟨hzero, rfl⟩ | ⟨hone, rfl⟩
    · rw [LinearForm.value_ofConstant, Fraction.toRat_pow? hc, ← hq,
        LinearForm.value_of_isConstant ha]
    · rw [LinearForm.value_ofConstant, ← hq, hzero]
      exact (pow_zero _).symm
    · rw [← hq, hone]
      exact (pow_one _).symm

/-! ## Terms -/

/-- **Linearization is exact**: where a term has a value, it is the number that its linear form
has. -/
theorem linearize_exact {e : Expr} (hnamed : e.Named) {f : LinearForm} (h : e.linearize = .ok f)
    {v : Result ℚ} (hv : e.evalIn .rational ρ = some v) : v = .num (f.value ρ.atoms) := by
  induction e generalizing f v with
  | num q =>
    cases h
    cases hv
    rw [LinearForm.value_ofConstant]
    rfl
  | var x =>
    cases h
    obtain ⟨a, ha, rfl⟩ := Option.map_eq_some_iff.1 hv
    rw [LinearForm.value_ofAtom, atoms_variable (named_var.1 hnamed), ha, Option.getD_some]
  | member e field ih =>
    rw [linearize] at h
    split at h
    · rename_i hatom
      obtain ⟨hfield, hbase⟩ := Bool.and_eq_true_iff.1 hatom
      obtain rfl := of_decide_eq_true hfield
      cases h
      obtain ⟨x, n, rfl, _, hn, rfl⟩ := evalIn_atom hbase hv
      rw [LinearForm.value_ofAtom, atoms_length (named_var.1 hnamed), hn, Option.getD_some]
    · cases h
  | neg e ih =>
    obtain ⟨g, hg, h⟩ := except_bind_ok.1 h
    obtain ⟨q, p, hq, hp, rfl⟩ := evalIn_neg.1 hv
    cases ih hnamed hg hq
    cases hp
    rw [LinearForm.value_neg? _ (orOverflow_eq_ok.1 h)]
  | arith o l r ihl ihr =>
    obtain ⟨hl, hr⟩ := named_arith.1 hnamed
    obtain ⟨a, ha, h⟩ := except_bind_ok.1 h
    obtain ⟨b, hb, h⟩ := except_bind_ok.1 h
    obtain ⟨p, q, c, hp, hq, hc, rfl⟩ := evalIn_arith.1 hv
    cases ihl hl ha hp
    cases ihr hr hb hq
    rw [value_arithForm h hc]
  | _ => cases h

end Expr

end Discharge
