import Discharge.Proofs.Expr.Tokens
import Discharge.Proofs.Linear.Exact
import Discharge.Proofs.Smt.Reading
import Discharge.Solver.Program

/-!
# Queries are faithful

Numbers for variables and their lengths make a model for a solver (`Model.ofLookup`). Where an
expression has a value, its term has that value in the model (`Term.Renders.value`), and a
condition is true if and only if its formula holds there (`Formula.Renders.holds`). Where an
expression has none, the solver still sees some number: so a condition may have a value although a
part of it has none, and its formula still holds if and only if it is true. Numbers under which the
assumptions are true and the goal is false are a model of the query (`Query.Asks.satisfies`), and a
solver that finds none has shown the goal (`Query.ofExprs_faithful`).
-/

namespace Discharge.Smt

open Discharge.Expr (isName isNamePart)

/-! ## What symbols stand for -/

/-- The symbol is that of a variable, or of the length of one. -/
inductive Symbol.StandsFor : Symbol → Expr → Prop
  | var {x : String} (hx : isName x = true) : StandsFor (.ofName x false) (.var x)
  | length {x : String} (hx : isName x = true) :
    StandsFor (.ofName (Expr.member (.var x) "length").text true) (.member (.var x) "length")

theorem isNamePart_of_mem_name {x : String} (hx : isName x = true) :
    x.toList ≠ [] ∧ ∀ c ∈ x.toList, isNamePart c = true := by
  obtain ⟨c, cs, hcs, hc, hrest⟩ := Expr.isName_iff.1 hx
  rw [hcs]
  exact ⟨List.cons_ne_nil _ _,
    List.forall_mem_cons.2 ⟨Expr.isNamePart_of_isNameStart hc, hrest⟩⟩

namespace Symbol.StandsFor

variable {s t : Symbol} {a b : Expr}

theorem eq_ofName (h : s.StandsFor a) : s = ofName a.text s.isLength := by
  cases h with
  | var hx => rfl
  | length hx => rfl

/-- A symbol is that of a length if and only if there is a point in it. -/
theorem isLength_iff (h : s.StandsFor a) : s.isLength = true ↔ '.' ∈ a.text.toList := by
  cases h with
  | var hx => exact ⟨nofun, fun h => absurd h (Expr.point_notMem_of_isName hx)⟩
  | length hx =>
    rw [Expr.toList_text_length]
    exact ⟨fun _ => List.mem_append_right _ List.mem_cons_self, fun _ => rfl⟩

theorem text_ne_nil (h : s.StandsFor a) : a.text.toList ≠ [] := by
  cases h with
  | var hx => exact (isNamePart_of_mem_name hx).1
  | length hx =>
    rw [Expr.toList_text_length]
    exact List.append_ne_nil_of_left_ne_nil (isNamePart_of_mem_name hx).1 _

theorem notMem_text (h : s.StandsFor a) {c : Char} (hpart : isNamePart c = false) (hc : c ≠ '.') :
    c ∉ a.text.toList := by
  have hname : ∀ {x}, isName x = true → c ∉ x.toList := fun hx hmem =>
    Bool.false_ne_true (hpart.symm.trans ((isNamePart_of_mem_name hx).2 c hmem))
  cases h with
  | var hx => exact hname hx
  | length hx =>
    rw [Expr.toList_text_length]
    intro hmem
    rcases List.mem_append.1 hmem with hmem | hmem
    · exact hname hx hmem
    · exact hname (x := "length") (by decide) ((List.mem_cons.1 hmem).resolve_left hc)

theorem content_eq (h : s.StandsFor a) : s.content = a.text := by
  rw [h.eq_ofName]
  exact content_ofName (h.notMem_text (by decide) (by decide)) _

theorem legible (h : s.StandsFor a) : s.Legible := by
  unfold Legible
  rw [h.content_eq, h.eq_ofName]
  exact spells_ofName h.text_ne_nil (h.notMem_text (by decide) (by decide))
    (h.notMem_text (by decide) (by decide)) _

theorem tokenize_name (h : s.StandsFor a) : tokenize s.name.toList = some [.symbol s.content] := by
  have hspells := h.legible [] nofun
  rw [List.append_nil] at hspells
  rw [hspells]
  simp [tokenize, SExpr.tokens]

/-- Different variables and lengths have symbols that are read as different names. -/
theorem eq_of_content (ha : s.StandsFor a) (hb : t.StandsFor b) (h : s.content = t.content) :
    s = t ∧ a = b := by
  have htext : a.text = b.text := ha.content_eq.symm.trans (h.trans hb.content_eq)
  have hlength : s.isLength = t.isLength := by
    rw [Bool.eq_iff_iff, ha.isLength_iff, hb.isLength_iff, htext]
  refine ⟨by rw [ha.eq_ofName, hb.eq_ofName, htext, hlength], ?_⟩
  cases ha with
  | var hx =>
    cases hb with
    | var hy => exact congrArg Expr.var htext
    | length hy => cases hlength
  | length hx =>
    cases hb with
    | var hy => cases hlength
    | length hy =>
      have hchars := congrArg String.toList htext
      rw [Expr.toList_text_length, Expr.toList_text_length] at hchars
      rw [String.toList_injective (List.append_cancel_right hchars)]

end Symbol.StandsFor

/-! ## What terms and formulas stand for -/

/-- The term stands for the expression. -/
inductive Term.Renders : Expr → Term → Prop
  | literal (q : Fraction) : Renders (.num q) (.literal q)
  | symbol {e : Expr} {s : Symbol} (h : s.StandsFor e) : Renders e (.symbol s)
  | neg {e : Expr} {t : Term} (h : Renders e t) : Renders (.neg e) (.neg t)
  | app {o : ArithOp} {op : Op} {l r : Expr} {a b : Term} (ho : op? o = some op) (hl : Renders l a)
    (hr : Renders r b) : Renders (.arith o l r) (.app op a b)
  | power {l r : Expr} {a : Term} {n : Nat} (hl : Renders l a) (hn : exponent? r = some n) :
    Renders (.arith .pow l r) (.power a n)

/-- The formula stands for the condition. -/
inductive Formula.Renders : Expr → Formula → Prop
  | bool (b : Bool) : Renders (.bool b) (.bool b)
  | compare {l r : Expr} {a b : Term} (o : CompareOp) (hl : Term.Renders l a)
    (hr : Term.Renders r b) : Renders (.compare o l r) (.compare o a b)
  | and {l r : Expr} {f g : Formula} (hl : Renders l f) (hr : Renders r g) :
    Renders (.and l r) (.and f g)
  | or {l r : Expr} {f g : Formula} (hl : Renders l f) (hr : Renders r g) :
    Renders (.or l r) (.or f g)
  | not {e : Expr} {f : Formula} (h : Renders e f) : Renders (.not e) (.not f)

theorem Term.renders_of_ofExpr {e : Expr} (hnamed : e.Named) {t : Term} (h : ofExpr e = .ok t) :
    Renders e t := by
  induction e generalizing t with
  | num q =>
    cases h
    exact .literal q
  | var x =>
    cases h
    exact .symbol (.var (Expr.named_var.1 hnamed))
  | member e f =>
    cases e with
    | var x =>
      rw [ofExpr] at h
      split at h
      · rename_i hf
        cases h
        subst hf
        exact .symbol (.length (Expr.named_var.1 hnamed))
      · cases h
    | _ => cases h
  | neg e ih =>
    obtain ⟨a, ha, h⟩ := except_bind_ok.1 h
    cases h
    exact .neg (ih hnamed ha)
  | arith o l r ihl ihr =>
    obtain ⟨hl, hr⟩ := Expr.named_arith.1 hnamed
    obtain ⟨a, ha, hresult⟩ := except_bind_ok.1 h
    clear h
    split at hresult
    · rename_i hn
      cases hresult
      exact .power (ihl hl ha) hn
    · rename_i ho _
      obtain ⟨b, hb, hresult⟩ := except_bind_ok.1 hresult
      cases hresult
      exact .app ho (ihl hl ha) (ihr hr hb)
    · cases hresult
  | _ => cases h

theorem Formula.renders_of_ofExpr {e : Expr} (hnamed : e.Named) {f : Formula}
    (h : ofExpr e = .ok f) : Renders e f := by
  induction e generalizing f with
  | bool b =>
    cases h
    exact .bool b
  | compare o l r =>
    obtain ⟨hl, hr⟩ := Expr.named_compare.1 hnamed
    obtain ⟨a, ha, h⟩ := except_bind_ok.1 h
    obtain ⟨b, hb, h⟩ := except_bind_ok.1 h
    cases h
    exact .compare o (Term.renders_of_ofExpr hl ha) (Term.renders_of_ofExpr hr hb)
  | and l r ihl ihr =>
    obtain ⟨hl, hr⟩ := Expr.named_and.1 hnamed
    obtain ⟨a, ha, h⟩ := except_bind_ok.1 h
    obtain ⟨b, hb, h⟩ := except_bind_ok.1 h
    cases h
    exact .and (ihl hl ha) (ihr hr hb)
  | or l r ihl ihr =>
    obtain ⟨hl, hr⟩ := Expr.named_or.1 hnamed
    obtain ⟨a, ha, h⟩ := except_bind_ok.1 h
    obtain ⟨b, hb, h⟩ := except_bind_ok.1 h
    cases h
    exact .or (ihl hl ha) (ihr hr hb)
  | not e ih =>
    obtain ⟨a, ha, h⟩ := except_bind_ok.1 h
    cases h
    exact .not (ih hnamed ha)
  | _ => cases h

theorem Term.Renders.standsFor {e : Expr} {t : Term} (h : Renders e t) {s : Symbol}
    (hs : s ∈ t.symbols) : ∃ a, s.StandsFor a := by
  induction h with
  | literal q => cases hs
  | symbol h =>
    cases List.mem_singleton.1 hs
    exact ⟨_, h⟩
  | neg _ ih => exact ih hs
  | app _ _ _ ihl ihr => exact (List.mem_append.1 hs).elim ihl ihr
  | power _ _ ih => exact ih hs

theorem Formula.Renders.standsFor {e : Expr} {f : Formula} (h : Renders e f) {s : Symbol}
    (hs : s ∈ f.symbols) : ∃ a, s.StandsFor a := by
  induction h with
  | bool b => cases hs
  | compare _ hl hr => exact (List.mem_append.1 hs).elim hl.standsFor hr.standsFor
  | and _ _ ihl ihr => exact (List.mem_append.1 hs).elim ihl ihr
  | or _ _ ihl ihr => exact (List.mem_append.1 hs).elim ihl ihr
  | not _ ih => exact ih hs

/-! ## Values -/

/-- An operation of the solver. -/
noncomputable def Op.apply (M : Model) : Op → ℝ → ℝ → ℝ
  | .add, a, b => a + b
  | .sub, a, b => a - b
  | .mul, a, b => a * b
  | .div, a, b => M.divide a b

/-- The number that a term stands for. -/
noncomputable def Term.value (M : Model) : Term → ℝ
  | .literal q => (q.toRat : ℝ)
  | .symbol s => M.constant s.content
  | .neg t => -t.value M
  | .app o l r => o.apply M (l.value M) (r.value M)
  | .power t n => t.value M ^ n

/-- The comparison holds of two real numbers. -/
def RelatesReals : CompareOp → ℝ → ℝ → Prop
  | .lt, a, b => a < b
  | .le, a, b => a ≤ b
  | .gt, a, b => a > b
  | .ge, a, b => a ≥ b
  | .eq, a, b => a = b
  | .ne, a, b => a ≠ b

/-- The formula is true. -/
def Formula.Holds (M : Model) : Formula → Prop
  | .bool b => b = true
  | .compare o l r => RelatesReals o (l.value M) (r.value M)
  | .and l r => l.Holds M ∧ r.Holds M
  | .or l r => l.Holds M ∨ r.Holds M
  | .not f => ¬ f.Holds M

theorem relatesReals_cast {o : CompareOp} {a b : ℚ} :
    RelatesReals o a b ↔ o.Relates a b := by
  cases o <;> simp [RelatesReals, CompareOp.Relates]

section Reading

variable (M : Model)

theorem real?_unary {e : SExpr} {a : ℝ} (f : String) (h : e.real? M = some a) :
    (SExpr.list [.symbol f, e]).real? M = M.operate? f [a] := by
  simp [SExpr.real?, SExpr.reals?, h]

theorem real?_binary {d e : SExpr} {a b : ℝ} (f : String) (hd : d.real? M = some a)
    (he : e.real? M = some b) :
    (SExpr.list [.symbol f, d, e]).real? M = M.operate? f [a, b] := by
  simp [SExpr.real?, SExpr.reals?, hd, he]

theorem reals?_replicate {e : SExpr} {a : ℝ} (h : e.real? M = some a) (n : Nat) :
    SExpr.reals? M (List.replicate n e) = some (List.replicate n a) := by
  induction n with
  | zero => rfl
  | succ n ih => simp [List.replicate_succ, SExpr.reals?, h, ih]

theorem real?_literal (q : Fraction) : (literalSExpr q).real? M = some (q.toRat : ℝ) := by
  -- Without its sign the number is that of its absolute value.
  have habs : (if q.isInteger then SExpr.decimal q.num.natAbs
      else .list [.symbol "/", .decimal q.num.natAbs, .decimal q.den]).real? M =
        some ((|q.toRat| : ℚ) : ℝ) := by
    split
    · rename_i hint
      have hden : q.den = 1 := by simpa [Fraction.isInteger] using hint
      rw [Fraction.abs_toRat, hden]
      simp [SExpr.real?]
    · have hden : ((q.den : ℚ) : ℝ) ≠ 0 := by exact_mod_cast q.den_ne_zero
      rw [real?_binary M "/" rfl rfl, Fraction.abs_toRat, Rat.cast_div]
      simp only [Model.operate?, List.foldl, Model.divide, if_neg hden]
      simp
  unfold literalSExpr
  dsimp only
  split
  · rename_i hneg
    rw [real?_unary M "-" habs, abs_of_neg (Fraction.isNegative_iff.1 hneg)]
    simp [Model.operate?]
  · rename_i hneg
    rw [habs, abs_of_nonneg (Fraction.isNegative_eq_false_iff.1 (Bool.not_eq_true _ ▸ hneg))]

theorem foldl_mul_replicate (a b : ℝ) (n : Nat) :
    (List.replicate n b).foldl (· * ·) a = a * b ^ n := by
  induction n generalizing a with
  | zero => simp
  | succ n ih => rw [List.replicate_succ, List.foldl_cons, ih, pow_succ', mul_assoc]

/-- A term is read as its value. -/
theorem Term.real?_sexpr (t : Term) : t.sexpr.real? M = some (t.value M) := by
  induction t with
  | literal q => exact real?_literal M q
  | symbol s => rfl
  | neg t ih =>
    rw [sexpr, real?_unary M "-" ih]
    rfl
  | app o l r ihl ihr =>
    rw [sexpr, real?_binary M o.symbol ihl ihr]
    cases o <;> simp [Model.operate?, Op.symbol, value, Op.apply]
  | power t n ih =>
    rcases n with _ | _ | n
    · simp [sexpr, SExpr.real?, value]
    · simpa [sexpr, value] using ih
    · have hproduct : M.operate? "*" (List.replicate (n + 2) (t.value M)) =
          some (t.value M ^ (n + 2)) := by
        rw [pow_succ' _ (n + 1), ← foldl_mul_replicate]
        simp [List.replicate_succ, Model.operate?]
      rw [sexpr, if_neg (by omega), if_neg (by omega), value, ← hproduct]
      simp [SExpr.real?, reals?_replicate M ih]

/-- A formula is read as what it says. -/
theorem Formula.truth?_sexpr (f : Formula) : f.sexpr.truth? M = some (f.Holds M) := by
  induction f with
  | bool b => cases b <;> simp [sexpr, SExpr.truth?, Holds]
  | compare o l r =>
    cases o <;> simp [sexpr, relation, SExpr.truth?, isConnective, SExpr.reals?, Term.real?_sexpr,
      relate?, Holds, RelatesReals]
  | and l r ihl ihr =>
    simp [sexpr, SExpr.truth?, isConnective, SExpr.truths?, ihl, ihr, connect?, Holds]
  | or l r ihl ihr =>
    simp [sexpr, SExpr.truth?, isConnective, SExpr.truths?, ihl, ihr, connect?, Holds]
  | not f ih => simp [sexpr, SExpr.truth?, isConnective, SExpr.truths?, ih, connect?, Holds]

theorem Formula.satisfies_iff (f : Formula) : M.Satisfies f.sexpr ↔ f.Holds M := by
  rw [Model.Satisfies, f.truth?_sexpr M]
  exact ⟨fun ⟨_, hp, h⟩ => (Option.some.inj hp).mpr h, fun h => ⟨_, rfl, h⟩⟩

end Reading

/-! ## Numbers for variables are a model -/

/-- The model in which constants are the numbers that variables and lengths stand for. -/
def Model.ofLookup (ρ : Lookup ℚ) (overZero : ℝ → ℝ) : Model where
  constant name := (ρ.atoms name : ℝ)
  overZero := overZero

section Values

variable {ρ : Lookup ℚ} (overZero : ℝ → ℝ)

theorem Symbol.StandsFor.constant {s : Symbol} {e : Expr} (h : s.StandsFor e) {v : Result ℚ}
    (hv : e.evalIn .rational ρ = some v) :
    ∃ q : ℚ, v = .num q ∧ (Model.ofLookup ρ overZero).constant s.content = q := by
  rw [h.content_eq]
  cases h with
  | @var x hx =>
    obtain ⟨q, hq, rfl⟩ := Option.map_eq_some_iff.1 hv
    have hatom : ρ.atoms x = q := by rw [Expr.atoms_variable hx, hq, Option.getD_some]
    exact ⟨q, rfl, congrArg Rat.cast hatom⟩
  | @length x hx =>
    obtain ⟨y, n, hy, -, hn, rfl⟩ := Expr.evalIn_atom rfl hv
    cases hy
    have hatom : ρ.atoms (Expr.member (.var x) "length").text = n := by
      rw [Expr.atoms_length hx, hn, Option.getD_some]
    exact ⟨n, rfl, congrArg Rat.cast hatom⟩

theorem Symbol.StandsFor.constant_nonneg {s : Symbol} {e : Expr} (h : s.StandsFor e)
    (hlength : s.isLength = true) (hρ : ∀ x n, ρ.length x = some n → 0 ≤ n) :
    0 ≤ (Model.ofLookup ρ overZero).constant s.content := by
  rw [h.content_eq]
  cases h with
  | var hx => cases hlength
  | @length x hx =>
    have hatom : 0 ≤ ρ.atoms (Expr.member (.var x) "length").text := by
      rw [Expr.atoms_length hx]
      cases hn : ρ.length x with
      | none => exact le_refl 0
      | some n => exact hρ x n hn
    exact Rat.cast_nonneg.2 hatom

theorem Op.apply_ofLookup {o : ArithOp} {op : Op} (ho : Term.op? o = some op) {a b c : ℚ}
    (h : o.rational? a b = some c) : op.apply (Model.ofLookup ρ overZero) a b = c := by
  cases o with
  | add =>
    cases ho
    cases h
    exact (Rat.cast_add a b).symm
  | sub =>
    cases ho
    cases h
    exact (Rat.cast_sub a b).symm
  | mul =>
    cases ho
    cases h
    exact (Rat.cast_mul a b).symm
  | div =>
    cases ho
    rw [ArithOp.rational?] at h
    split at h
    · cases h
    · rename_i hb
      cases h
      have hcast : (b : ℝ) ≠ 0 := Rat.cast_ne_zero.2 hb
      exact (if_neg hcast).trans (Rat.cast_div a b).symm
  | rem => cases ho
  | pow => cases ho

theorem Term.pow_of_exponent? {r : Expr} {n : Nat} (hn : exponent? r = some n) {a b c : ℚ}
    (hr : r.evalIn .rational ρ = some (.num b)) (h : ArithOp.pow.rational? a b = some c) :
    c = a ^ n := by
  cases r with
  | num q =>
    rw [exponent?] at hn
    split at hn
    · cases hn
      cases hr
      rw [ArithOp.rational?] at h
      split at h
      · cases h
        rfl
      · cases h
    · cases hn
  | _ => cases hn

/-- Where an expression has a value, its term has that value. -/
theorem Term.Renders.value {e : Expr} {t : Term} (h : Renders e t) {v : Result ℚ}
    (hv : e.evalIn .rational ρ = some v) :
    ∃ q : ℚ, v = .num q ∧ t.value (Model.ofLookup ρ overZero) = q := by
  induction h generalizing v with
  | literal q =>
    cases hv
    exact ⟨q.toRat, rfl, rfl⟩
  | symbol h => exact h.constant overZero hv
  | neg _ ih =>
    obtain ⟨q, p, hq, hp, rfl⟩ := Expr.evalIn_neg.1 hv
    obtain ⟨_, heq, hvalue⟩ := ih hq
    cases heq
    cases hp
    exact ⟨-q, rfl, by rw [Term.value, hvalue, Rat.cast_neg]⟩
  | app ho _ _ ihl ihr =>
    obtain ⟨a, b, c, ha, hb, hc, rfl⟩ := Expr.evalIn_arith.1 hv
    obtain ⟨_, hal, hl⟩ := ihl ha
    obtain ⟨_, hbr, hr⟩ := ihr hb
    cases hal
    cases hbr
    refine ⟨c, rfl, ?_⟩
    rw [Term.value, hl, hr, Op.apply_ofLookup overZero ho hc]
  | power _ hn ih =>
    obtain ⟨a, b, c, ha, hb, hc, rfl⟩ := Expr.evalIn_arith.1 hv
    obtain ⟨_, hal, hl⟩ := ih ha
    cases hal
    refine ⟨c, rfl, ?_⟩
    rw [Term.value, hl, Term.pow_of_exponent? hn hb hc, Rat.cast_pow]

/-- Where a condition has a value, its formula holds if and only if it is true. -/
theorem Formula.Renders.holds {e : Expr} {f : Formula} (h : Renders e f) {v : Result ℚ}
    (hv : e.evalIn .rational ρ = some v) :
    ∃ b, v = .bool b ∧ (f.Holds (Model.ofLookup ρ overZero) ↔ b = true) := by
  induction h generalizing v with
  | bool b =>
    cases hv
    exact ⟨b, rfl, Iff.rfl⟩
  | compare o hl hr =>
    obtain ⟨a, b, c, ha, hb, hc, rfl⟩ := Expr.evalIn_compare.1 hv
    obtain ⟨p, rfl, hp⟩ := hl.value overZero ha
    obtain ⟨q, rfl, hq⟩ := hr.value overZero hb
    cases hc
    refine ⟨_, rfl, ?_⟩
    rw [Holds, hp, hq, relatesReals_cast]
    exact (decide_eq_true_iff).symm
  | and _ _ ihl ihr =>
    -- Where the left condition decides, the right one may have no value; its formula still has one.
    rcases Expr.evalIn_and.1 hv with ⟨hl, rfl⟩ | ⟨hl, b, hr, rfl⟩
    · obtain ⟨_, heq, hholds⟩ := ihl hl
      cases heq
      exact ⟨false, rfl, by simp [Holds, hholds]⟩
    · obtain ⟨_, heq, hholds⟩ := ihl hl
      obtain ⟨_, heq', hholds'⟩ := ihr hr
      cases heq
      cases heq'
      exact ⟨b, rfl, by simp [Holds, hholds, hholds']⟩
  | or _ _ ihl ihr =>
    rcases Expr.evalIn_or.1 hv with ⟨hl, rfl⟩ | ⟨hl, b, hr, rfl⟩
    · obtain ⟨_, heq, hholds⟩ := ihl hl
      cases heq
      exact ⟨true, rfl, by simp [Holds, hholds]⟩
    · obtain ⟨_, heq, hholds⟩ := ihl hl
      obtain ⟨_, heq', hholds'⟩ := ihr hr
      cases heq
      cases heq'
      exact ⟨b, rfl, by simp [Holds, hholds, hholds']⟩
  | not _ ih =>
    obtain ⟨b, hb, rfl⟩ := Expr.evalIn_not.1 hv
    obtain ⟨_, heq, hholds⟩ := ih hb
    cases heq
    exact ⟨!b, rfl, by simp [Holds, hholds]⟩

end Values

/-! ## Constants -/

theorem subset_content_append {cs ds : List String} {l r : List Symbol}
    (hl : cs ⊆ l.map Symbol.content) (hr : ds ⊆ r.map Symbol.content) :
    cs ++ (ds ++ []) ⊆ (l ++ r).map Symbol.content := by
  rw [List.append_nil, List.map_append]
  exact List.append_subset.2
    ⟨List.subset_append_of_subset_left _ hl, List.subset_append_of_subset_right _ hr⟩

theorem termConstants_literal (q : Fraction) : (literalSExpr q).termConstants = [] := by
  unfold literalSExpr
  cases q.isInteger <;> cases q.isNegative <;> rfl

theorem termConstantsList_replicate {e : SExpr} {cs : List String} (h : e.termConstants ⊆ cs)
    (n : Nat) : SExpr.termConstantsList (List.replicate n e) ⊆ cs := by
  induction n with
  | zero => exact List.nil_subset _
  | succ n ih => exact List.append_subset.2 ⟨h, ih⟩

/-- The constants of a term are its symbols. -/
theorem Term.constants_subset (t : Term) :
    t.sexpr.termConstants ⊆ t.symbols.map Symbol.content := by
  induction t with
  | literal q =>
    rw [sexpr, termConstants_literal]
    exact List.nil_subset _
  | symbol s => exact List.Subset.refl _
  | neg t ih => exact List.append_subset.2 ⟨ih, List.nil_subset _⟩
  | app o l r ihl ihr => exact subset_content_append ihl ihr
  | power t n ih =>
    unfold sexpr
    split
    · exact List.nil_subset _
    split
    · exact ih
    · exact termConstantsList_replicate ih n

theorem Formula.isConnective_relation (o : CompareOp) : isConnective (relation o) = false := by
  cases o <;> decide

/-- The constants of a formula are its symbols. -/
theorem Formula.constants_subset (f : Formula) :
    f.sexpr.constants ⊆ f.symbols.map Symbol.content := by
  induction f with
  | bool b => exact List.nil_subset _
  | compare o l r =>
    rw [sexpr, SExpr.constants, isConnective_relation]
    exact subset_content_append l.constants_subset r.constants_subset
  | and l r ihl ihr => exact subset_content_append ihl ihr
  | or l r ihl ihr => exact subset_content_append ihl ihr
  | not f ih => exact List.append_subset.2 ⟨ih, List.nil_subset _⟩

/-! ## Declarations -/

theorem declarations_append (s t : List Command) :
    declarations (s ++ t) = declarations s ++ declarations t := List.filterMap_append

namespace Query

variable {q : Query}

theorem declarations_header (q : Query) : declarations q.header = q.symbols.map Symbol.content := by
  have hdeclare : ∀ s, (declare s).filterMap Command.declared? = [s.content] := by
    intro s
    unfold declare
    cases s.isLength <;> rfl
  rw [declarations, header, List.filterMap_flatMap]
  simp only [hdeclare]
  exact List.map_eq_flatMap.symm

theorem declarations_body (q : Query) : declarations q.body = [] := by
  simp [declarations, body, List.filterMap_map, Function.comp_def, Command.declared?]

/-- What is asserted of a length comes after its declaration. -/
theorem constants_header {symbols : List Symbol} {before after : List Command} {f : SExpr}
    (h : symbols.flatMap declare = before ++ .assert f :: after) :
    f.constants ⊆ declarations before := by
  induction symbols generalizing before with
  | nil => simp at h
  | cons s symbols ih =>
    rw [List.flatMap_cons, declare, List.cons_append] at h
    rcases before with _ | ⟨c, before⟩
    · cases h
    rw [List.cons_append, List.cons.injEq] at h
    obtain ⟨rfl, htail⟩ := h
    split at htail
    · rcases before with _ | ⟨d, before⟩
      · cases htail
        exact List.Subset.refl _
      · rw [List.singleton_append, List.cons_append, List.cons.injEq] at htail
        obtain ⟨rfl, hrest⟩ := htail
        have hbefore : f.constants ⊆ declarations before := ih hrest
        exact List.subset_cons_of_subset _ hbefore
    · exact List.subset_cons_of_subset _ (ih htail)

theorem nodup_eraseDups {α : Type} [BEq α] [LawfulBEq α] (as : List α) : as.eraseDups.Nodup := by
  induction hn : as.length using Nat.strong_induction_on generalizing as with
  | _ n ih =>
    cases as with
    | nil => exact List.nodup_nil
    | cons a as =>
      rw [List.eraseDups_cons, List.nodup_cons, List.mem_eraseDups]
      refine ⟨fun h => by simp at h, ih _ ?_ _ rfl⟩
      have := List.length_filter_le (fun b => !b == a) as
      simp only [List.length_cons] at hn
      omega

/-- The query asks whether the assumptions that can be said entail the goal. -/
structure Asks (q : Query) (goal : Expr) (assumptions : List Expr) : Prop where
  renders_goal : Formula.Renders goal q.goal
  renders_assumption : ∀ f ∈ q.assumptions, ∃ a ∈ assumptions, Formula.Renders a f
  asserted : ∀ a ∈ assumptions, ∀ f, Formula.ofExpr a = .ok f →
    f ∈ q.assumptions ∧ Formula.Renders a f
  mem_symbols : ∀ s, s ∈ q.symbols ↔ ∃ f ∈ q.goal :: q.assumptions, s ∈ f.symbols
  nodup : q.symbols.Nodup

theorem asks_of_ofExprs {goal : Expr} {assumptions : List Expr} (hgoal : goal.Named)
    (hassumptions : ∀ a ∈ assumptions, a.Named) (h : ofExprs goal assumptions = .ok q) :
    q.Asks goal assumptions := by
  have htoOption : ∀ a f, (Formula.ofExpr a).toOption = some f ↔ Formula.ofExpr a = .ok f := by
    intro a f
    cases Formula.ofExpr a <;> simp [Except.toOption]
  obtain ⟨g, hg, h⟩ := except_bind_ok.1 h
  cases h
  refine ⟨Formula.renders_of_ofExpr hgoal hg, fun f hf => ?_, fun a ha f hf => ⟨?_, ?_⟩,
    fun s => ?_, nodup_eraseDups _⟩
  · obtain ⟨a, ha, hf⟩ := List.mem_filterMap.1 hf
    exact ⟨a, ha, Formula.renders_of_ofExpr (hassumptions a ha) ((htoOption a f).1 hf)⟩
  · exact List.mem_filterMap.2 ⟨a, ha, (htoOption a f).2 hf⟩
  · exact Formula.renders_of_ofExpr (hassumptions a ha) hf
  · rw [List.mem_eraseDups, List.mem_mergeSort, List.mem_flatMap]

theorem mem_body {f : SExpr} :
    .assert f ∈ q.body ↔ (∃ a ∈ q.assumptions, a.sexpr = f) ∨ f = q.goal.not.sexpr := by
  simp [body]

namespace Asks

variable {goal : Expr} {assumptions : List Expr} (h : q.Asks goal assumptions)

include h

theorem renders {f : Formula} (hf : f ∈ q.goal :: q.assumptions) : ∃ a, Formula.Renders a f := by
  rcases List.mem_cons.1 hf with rfl | hf
  · exact ⟨goal, h.renders_goal⟩
  · obtain ⟨a, _, ha⟩ := h.renders_assumption f hf
    exact ⟨a, ha⟩

theorem symbols_subset {f : Formula} (hf : f ∈ q.goal :: q.assumptions) : f.symbols ⊆ q.symbols :=
  fun s hs => (h.mem_symbols s).2 ⟨f, hf, hs⟩

theorem standsFor {s : Symbol} (hs : s ∈ q.symbols) : ∃ e, s.StandsFor e := by
  obtain ⟨f, hf, hs⟩ := (h.mem_symbols s).1 hs
  obtain ⟨a, ha⟩ := h.renders hf
  exact ha.standsFor hs

theorem script?_eq : script? q.text = some (q.header ++ q.body) := by
  have hlegible : ∀ s ∈ q.symbols, s.Legible := by
    intro s hs
    obtain ⟨e, he⟩ := h.standsFor hs
    exact he.legible
  refine script?_text hlegible (fun a ha s hs => ?_) fun s hs => ?_
  · exact hlegible s (h.symbols_subset (List.mem_cons_of_mem _ ha) hs)
  · exact hlegible s (h.symbols_subset List.mem_cons_self hs)

/-- The constants of an assumption and of the goal are declared before both. -/
theorem constants_body {f : SExpr} (hf : .assert f ∈ q.body) :
    f.constants ⊆ declarations q.header := by
  have hdeclared : ∀ g : Formula, g.symbols ⊆ q.symbols →
      g.sexpr.constants ⊆ declarations q.header := fun g hg => by
    rw [declarations_header]
    exact List.Subset.trans g.constants_subset (List.map_subset _ hg)
  rcases mem_body.1 hf with ⟨a, ha, rfl⟩ | rfl
  · exact hdeclared a (h.symbols_subset (List.mem_cons_of_mem _ ha))
  · exact hdeclared q.goal.not (h.symbols_subset (f := q.goal) List.mem_cons_self)

/-- A constant is declared before it is used. -/
theorem constants_subset {before after : List Command} {f : SExpr}
    (hsplit : q.header ++ q.body = before ++ .assert f :: after) :
    f.constants ⊆ declarations before := by
  -- The assertion stands after the first assumption, is the first one, or belongs to the header.
  rcases List.append_eq_append_iff.1 hsplit with ⟨asserted, rfl, hbody⟩ | ⟨left, hheader, hrest⟩
  · rw [declarations_append]
    refine List.subset_append_of_subset_left _ (h.constants_body ?_)
    rw [hbody]
    exact List.mem_append_right _ List.mem_cons_self
  · rcases left with _ | ⟨c, left⟩
    · rw [List.append_nil] at hheader
      rw [← hheader]
      refine h.constants_body ?_
      rw [← List.nil_append q.body, ← hrest]
      exact List.mem_cons_self
    · obtain ⟨rfl, -⟩ := List.cons.inj hrest
      exact constants_header hheader

theorem nodup_declarations : (declarations (q.header ++ q.body)).Nodup := by
  rw [declarations_append, declarations_body, List.append_nil, declarations_header]
  refine h.nodup.map_on fun s hs t ht hcontent => ?_
  obtain ⟨_, ha⟩ := h.standsFor hs
  obtain ⟨_, hb⟩ := h.standsFor ht
  exact (ha.eq_of_content hb hcontent).1

section Countermodels

variable {ρ : Lookup ℚ} (overZero : ℝ → ℝ)

/-- What is asserted of lengths is true, where they are not negative. -/
theorem satisfies_header (hρ : ∀ x n, ρ.length x = some n → 0 ≤ n) {f : SExpr}
    (hf : .assert f ∈ q.header) : (Model.ofLookup ρ overZero).Satisfies f := by
  obtain ⟨s, hs, hf⟩ := List.mem_flatMap.1 hf
  obtain ⟨e, he⟩ := h.standsFor hs
  unfold declare at hf
  split at hf
  · rename_i hlength
    cases (List.mem_cons.1 hf).resolve_left nofun with
    | tail _ h => cases h
    | head =>
      refine ⟨_, ?_, he.constant_nonneg overZero hlength hρ⟩
      simp [SExpr.truth?, isConnective, SExpr.reals?, SExpr.real?, relate?]
  · cases (List.mem_cons.1 hf).resolve_left nofun

/-- Numbers under which the assumptions are true and the goal is false satisfy what is asserted. -/
theorem satisfies (hρ : ∀ x n, ρ.length x = some n → 0 ≤ n)
    (htrue : ∀ a ∈ assumptions, a.evalIn .rational ρ = some (.bool true))
    (hfalse : goal.evalIn .rational ρ = some (.bool false)) {f : SExpr}
    (hf : .assert f ∈ q.header ++ q.body) : (Model.ofLookup ρ overZero).Satisfies f := by
  rcases List.mem_append.1 hf with hf | hf
  · exact h.satisfies_header overZero hρ hf
  rcases mem_body.1 hf with ⟨g, hg, rfl⟩ | rfl
  · obtain ⟨a, ha, hrenders⟩ := h.renders_assumption g hg
    obtain ⟨_, heq, hholds⟩ := hrenders.holds overZero (htrue a ha)
    cases heq
    exact (g.satisfies_iff _).2 (hholds.2 rfl)
  · obtain ⟨_, heq, hholds⟩ := h.renders_goal.holds overZero hfalse
    cases heq
    exact (Formula.satisfies_iff _ q.goal.not).2 fun hgoal => Bool.false_ne_true (hholds.1 hgoal)

/-- Numbers that satisfy what is asserted make no assumption false that can be said, and do not
make the goal true. -/
theorem of_satisfies
    (hall : ∀ f, .assert f ∈ q.header ++ q.body → (Model.ofLookup ρ overZero).Satisfies f) :
    (∀ a ∈ assumptions, ∀ f, Formula.ofExpr a = .ok f →
        a.evalIn .rational ρ ≠ some (.bool false)) ∧
      goal.evalIn .rational ρ ≠ some (.bool true) := by
  refine ⟨fun a ha f hf hfalse => ?_, fun htrue => ?_⟩
  · obtain ⟨hmem, hrenders⟩ := h.asserted a ha f hf
    obtain ⟨_, heq, hholds⟩ := hrenders.holds overZero hfalse
    cases heq
    have hasserted := hall f.sexpr (List.mem_append_right _ (mem_body.2 (.inl ⟨f, hmem, rfl⟩)))
    exact Bool.false_ne_true (hholds.1 ((f.satisfies_iff _).1 hasserted))
  · obtain ⟨_, heq, hholds⟩ := h.renders_goal.holds overZero htrue
    cases heq
    have hasserted := hall q.goal.not.sexpr (List.mem_append_right _ (mem_body.2 (.inr rfl)))
    exact (Formula.satisfies_iff _ q.goal.not).1 hasserted (hholds.2 rfl)

end Countermodels

end Asks

end Query

end Discharge.Smt

namespace Discharge

open Smt

/-- The program says that a script has no model only if it has none. -/
def Program.Correct (p : Program) : Prop :=
  ∀ text script, script? text = some script → verdict (p.reply text) = .proven →
    ¬ Satisfiable script

/-- The query for a goal is read as a script in which every constant is declared once and before it
is used, all of them before the assumptions and the goal. Different variables and lengths are
different constants. Numbers under which the assumptions are true and the goal is false satisfy
whatever is asserted, and numbers that satisfy it make no assumption false that is asserted, and do
not make the goal true. So if a correct program answers that there are no such numbers, then
wherever the assumptions are true the goal is, if it has a value. -/
theorem Smt.Query.ofExprs_faithful {goal : Expr} {assumptions : List Expr} {q : Query}
    (hgoal : goal.Named) (hassumptions : ∀ a ∈ assumptions, a.Named)
    (hq : Query.ofExprs goal assumptions = .ok q) :
    script? q.text = some (q.header ++ q.body) ∧
      (∀ before f after, q.header ++ q.body = before ++ .assert f :: after → ∀ name ∈ f.constants,
        name ∈ declarations before ∧ (declarations (q.header ++ q.body)).count name = 1) ∧
      declarations q.body = [] ∧
      (∀ a b s t, a.Named → b.Named → Term.ofExpr a = .ok (.symbol s) →
        Term.ofExpr b = .ok (.symbol t) → tokenize s.name.toList = tokenize t.name.toList →
        a = b) ∧
      (∀ (ρ : Lookup ℚ) (overZero : ℝ → ℝ), (∀ x n, ρ.length x = some n → 0 ≤ n) →
        (∀ a ∈ assumptions, a.evalIn .rational ρ = some (.bool true)) →
        goal.evalIn .rational ρ = some (.bool false) →
        ∀ f, .assert f ∈ q.header ++ q.body → (Model.ofLookup ρ overZero).Satisfies f) ∧
      (∀ (ρ : Lookup ℚ) (overZero : ℝ → ℝ),
        (∀ f, .assert f ∈ q.header ++ q.body → (Model.ofLookup ρ overZero).Satisfies f) →
        (∀ a ∈ assumptions, ∀ f, Formula.ofExpr a = .ok f →
          a.evalIn .rational ρ ≠ some (.bool false)) ∧
        goal.evalIn .rational ρ ≠ some (.bool true)) ∧
      (∀ (p : Program) (binary : String), p.Correct →
        Program.answer binary (.ok p) ⟨goal, assumptions⟩ = .proven →
        ∀ ρ : Lookup ℚ, (∀ x n, ρ.length x = some n → 0 ≤ n) →
          (∀ a ∈ assumptions, a.evalIn .rational ρ = some (.bool true)) →
          ∀ v, goal.evalIn .rational ρ = some v → v = .bool true) := by
  have h := asks_of_ofExprs hgoal hassumptions hq
  refine ⟨h.script?_eq, fun before f after hsplit name hname => ?_, declarations_body q,
    fun a b s t ha hb hs ht heq => ?_, fun ρ overZero hρ htrue hfalse f hf => ?_,
    fun ρ overZero hall => h.of_satisfies overZero hall,
    fun p binary hp hproven ρ hρ htrue v hv => ?_⟩
  · have hbefore := h.constants_subset hsplit hname
    refine ⟨hbefore, List.count_eq_one_of_mem h.nodup_declarations ?_⟩
    rw [hsplit, declarations_append]
    exact List.mem_append_left _ hbefore
  · cases Term.renders_of_ofExpr ha hs with | symbol ha =>
    cases Term.renders_of_ofExpr hb ht with | symbol hb =>
    rw [ha.tokenize_name, hb.tokenize_name] at heq
    simp only [Option.some.injEq, List.cons.injEq, Token.symbol.injEq, and_true] at heq
    exact (ha.eq_of_content hb heq).2
  · exact h.satisfies overZero hρ htrue hfalse hf
  · rw [Program.answer, hq] at hproven
    obtain ⟨b, rfl, -⟩ := h.renders_goal.holds (fun _ => 0) hv
    cases b with
    | true => rfl
    | false =>
      refine absurd ⟨Model.ofLookup ρ fun _ => 0, fun f hf => ?_⟩ (hp _ _ h.script?_eq hproven)
      exact h.satisfies _ hρ htrue hv hf

/-- A square and a positive length have a positive sum, which a program says that knows no other
answer. -/
theorem Smt.Query.ofExprs_faithful_length :
    let goal : Expr := .compare .gt
      (.arith .add (.arith .mul (.var "$a") (.var "$a")) (.member (.var "xs") "length"))
      (.num .zero)
    let assumption : Expr := .compare .gt (.member (.var "xs") "length") (.num .zero)
    let a : Symbol := ⟨"|$a|", false⟩
    let n : Symbol := ⟨"|xs.length|", true⟩
    let q : Query := ⟨[a, n], [.compare .gt (.symbol n) (.literal .zero)],
      .compare .gt (.app .add (.app .mul (.symbol a) (.symbol a)) (.symbol n)) (.literal .zero)⟩
    let p : Program := ⟨0, fun text => if text = q.text then "unsat" else "unknown"⟩
    goal.Named ∧ assumption.Named ∧ Query.ofExprs goal [assumption] = .ok q ∧ p.Correct ∧
      Program.answer "z3" (.ok p) ⟨goal, [assumption]⟩ = .proven ∧
      ∀ ρ : Lookup ℚ, (∀ x n, ρ.length x = some n → 0 ≤ n) →
        assumption.evalIn .rational ρ = some (.bool true) →
        ∀ v, goal.evalIn .rational ρ = some v → v = .bool true := by
  intro goal assumption a n q p
  have hgoal : goal.Named := by
    unfold Expr.Named
    decide
  have hassumption : assumption.Named := by
    unfold Expr.Named
    decide
  have hq : Query.ofExprs goal [assumption] = .ok q := by
    have ha : Symbol.ofName "$a" false = a := by decide +kernel
    have htext : (Expr.member (.var "xs") "length").text = "xs.length" := by decide +kernel
    have hn : Symbol.ofName "xs.length" true = n := by decide +kernel
    have hsort : [a, a, n, n].mergeSort Symbol.le = [a, a, n, n] :=
      List.mergeSort_of_pairwise (by decide)
    have hdups : [a, a, n, n].eraseDups = [a, n] := by decide
    simp [goal, assumption, q, Query.ofExprs, Formula.ofExpr, Term.ofExpr, ha, htext, hn, Term.op?,
      bind, Except.bind, pure, Except.pure, Except.toOption, Formula.symbols, Term.symbols, hsort,
      hdups]
  obtain ⟨hscript, -, -, -, -, -, hproven⟩ :=
    Query.ofExprs_faithful hgoal (List.forall_mem_singleton.2 hassumption) hq
  have hp : p.Correct := by
    rintro text script hread hverdict ⟨M, hM⟩
    by_cases htext : text = q.text
    · rw [htext] at hread
      cases hscript.symm.trans hread
      have hlength := hM _
        (List.mem_append_right _ (mem_body.2 (.inl ⟨_, List.mem_cons_self, rfl⟩)))
      have hsum := hM _ (List.mem_append_right _ (mem_body.2 (.inr rfl)))
      rw [Formula.satisfies_iff] at hlength hsum
      simp only [q, Formula.Holds, RelatesReals, Term.value, Op.apply, Fraction.toRat_zero,
        Rat.cast_zero] at hlength hsum
      nlinarith [mul_self_nonneg (M.constant a.content)]
    · have hunknown : Program.verdict "unknown" ≠ .proven := by decide +kernel
      exact hunknown (by simpa [p, htext] using hverdict)
  have hanswer : Program.answer "z3" (.ok p) ⟨goal, [assumption]⟩ = .proven := by
    have hunsat : Program.verdict "unsat" = .proven := by decide +kernel
    rw [Program.answer, hq]
    simpa [p] using hunsat
  refine ⟨hgoal, hassumption, hq, hp, hanswer, fun ρ hρ htrue => ?_⟩
  exact hproven p "z3" hp hanswer ρ hρ (List.forall_mem_singleton.2 htrue)

end Discharge
