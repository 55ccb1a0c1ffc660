import Discharge.Proofs.Expr.Levels
import Discharge.Proofs.Expr.Readable

/-!
# The text of a condition is read back

Printing a condition that has been read, and reading the text, gives the same condition
(`parse_text`), as long as no text literal in it holds the quote it is printed between. The proof
follows the structure of the condition: at its own level of precedence the text of each shape is
put together from the texts of the operands, which are in parentheses just where they bind too
weakly for their place. Reading a text never nests deeper than the text is long.
-/

namespace Discharge.Expr

open Reader

mutual

/-- The text literals of an expression, from left to right. -/
def strings : Expr → List String
  | .str s => [s]
  | .bool _ | .num _ | .var _ | .branded .. => []
  | .member e _ => e.strings
  | .neg e | .not e => e.strings
  | .arith _ l r | .compare _ l r | .and l r | .or l r => l.strings ++ r.strings
  | .call _ as => stringsList as
  | .invoke e _ as => e.strings ++ stringsList as

/-- The text literals of a list of arguments. -/
def stringsList : List Expr → List String
  | [] => []
  | a :: as => a.strings ++ stringsList as

end

theorem strings_subset_stringsList {a : Expr} {as : List Expr} (ha : a ∈ as) :
    a.strings ⊆ stringsList as := by
  induction as with
  | nil => cases ha
  | cons b as ih =>
    rw [stringsList]
    rcases List.mem_cons.1 ha with rfl | ha
    · exact List.subset_append_left _ _
    · exact List.subset_append_of_subset_right _ (ih ha)

/-! ## The characters of a text -/

/-- The characters of the text of an expression. -/
def chars (e : Expr) : List Char := e.text.toList

/-- The characters of an operand in a place that asks for the given strength. -/
def operandChars (least : Nat) (e : Expr) : List Char := (operandText least e e.text).toList

/-- The characters of the arguments of a call, with the parentheses. -/
def argChars (as : List Expr) : List Char :=
  '(' :: (List.intercalate [',', ' '] (as.map (operandChars 1)) ++ [')'])

section

variable {e l r : Expr} {as : List Expr}

attribute [local simp] text

theorem operandChars_paren {least : Nat} (h : e.precedence < least) :
    operandChars least e = '(' :: (chars e ++ [')']) := by
  simp [operandChars, operandText, h, chars]

theorem operandChars_bare {least : Nat} (h : least ≤ e.precedence) :
    operandChars least e = chars e := by
  simp [operandChars, operandText, h.not_gt, chars]

theorem chars_str {s : String} : chars (.str s) = '\'' :: (s.toList ++ ['\'']) := by
  simp [chars]

theorem chars_var {x : String} : chars (.var x) = x.toList ++ [] := by
  simp [chars]

theorem chars_member {f : String} : chars (.member e f) = operandChars 9 e ++ '.' :: f.toList := by
  simp [chars, operandChars]

theorem chars_neg : chars (.neg e) = '-' :: operandChars 8 e := by
  simp [chars, operandChars]

theorem chars_not : chars (.not e) = '!' :: operandChars 8 e := by
  simp [chars, operandChars]

theorem chars_pow : chars (.arith .pow l r) =
    operandChars 9 l ++ ' ' :: '*' :: '*' :: ' ' :: operandChars 7 r := by
  simp [chars, operandChars]

theorem chars_arith {o : ArithOp} (ho : o ≠ .pow) : chars (.arith o l r) =
    operandChars o.precedence l ++ ' ' :: (o.symbol.toList ++ ' ' ::
      operandChars (o.precedence + 1) r) := by
  simp [chars, operandChars]

theorem chars_compare {o : CompareOp} : chars (.compare o l r) =
    operandChars (o.precedence + 1) l ++ ' ' :: (o.symbol.toList ++ ' ' ::
      operandChars (o.precedence + 1) r) := by
  simp [chars, operandChars]

theorem chars_and : chars (.and l r) =
    operandChars 2 l ++ ' ' :: '&' :: '&' :: ' ' :: operandChars 3 r := by
  simp [chars, operandChars]

theorem chars_or : chars (.or l r) =
    operandChars 1 l ++ ' ' :: '|' :: '|' :: ' ' :: operandChars 2 r := by
  simp [chars, operandChars]

theorem map_toList_argTexts (as : List Expr) :
    (argTexts as).map String.toList = as.map (operandChars 1) := by
  induction as with
  | nil => rfl
  | cons a as ih => simp [argTexts, ih, operandChars]

theorem chars_call {f : String} : chars (.call f as) = f.toList ++ argChars as := by
  simp [chars, argChars, map_toList_argTexts]

theorem chars_invoke {f : String} : chars (.invoke e f as) =
    operandChars 9 e ++ '.' :: f.toList ++ argChars as := by
  simp [chars, argChars, map_toList_argTexts, operandChars]

theorem chars_branded {x b : String} :
    chars (.branded x b) = x.toList ++ ':' :: ' ' :: b.toList := by
  simp [chars]

end

/-! ## How a text starts -/

section

variable {e : Expr} {least : Nat}

theorem opens_operandChars (least : Nat) (h : Opens (chars e)) : Opens (operandChars least e) := by
  by_cases hp : e.precedence < least
  · rw [operandChars_paren hp]
    exact opens_cons rfl _
  · rwa [operandChars_bare (not_lt.1 hp)]

theorem printed_operandChars (least : Nat)
    (h : ∃ c cs, chars e = c :: cs ∧ Text.isSpace c = false) :
    ∃ c cs, operandChars least e = c :: cs ∧ Text.isSpace c = false := by
  by_cases hp : e.precedence < least
  · exact ⟨'(', _, operandChars_paren hp, rfl⟩
  · rwa [operandChars_bare (not_lt.1 hp)]

theorem unsigned_operandChars (hleast : 8 ≤ least)
    (h : 8 ≤ e.precedence → Grammar.Unsigned (chars e)) :
    Grammar.Unsigned (operandChars least e) := by
  by_cases hp : e.precedence < least
  · rw [operandChars_paren hp]
    exact ⟨'(', _, rfl, rfl, by decide⟩
  · rw [operandChars_bare (not_lt.1 hp)]
    exact h (hleast.trans (not_lt.1 hp))

theorem notAnnotation_operandChars (hleast : 1 ≤ least)
    (h : 1 ≤ e.precedence → ∀ rest, Boundary rest → NotAnnotation (chars e ++ rest))
    {rest : List Char} (hrest : Boundary rest) : NotAnnotation (operandChars least e ++ rest) := by
  by_cases hp : e.precedence < least
  · rw [operandChars_paren hp]
    exact .inl ⟨'(', _, rfl, rfl, rfl⟩
  · rw [operandChars_bare (not_lt.1 hp)]
    exact h (hleast.trans (not_lt.1 hp)) rest hrest

end

/-- How the text of an expression starts: with no white space, with no sign where the expression
binds more tightly than one, and not as an annotation unless it is one. -/
structure Starts (e : Expr) : Prop where
  printed : ∃ c cs, chars e = c :: cs ∧ Text.isSpace c = false
  unsigned : 8 ≤ e.precedence → Grammar.Unsigned (chars e)
  notAnnotation : 1 ≤ e.precedence → ∀ rest, Boundary rest → NotAnnotation (chars e ++ rest)

theorem unsigned_name {x : String} (hx : isName x = true) (cs : List Char) :
    Grammar.Unsigned (x.toList ++ cs) := by
  obtain ⟨c, ds, hcs, hc, _⟩ := isName_iff.1 hx
  rw [hcs]
  have hblank := not_isBlank_of_isNamePart (isNamePart_of_isNameStart hc)
  refine ⟨c, ds ++ cs, rfl, hblank, ?_, ?_, ?_⟩ <;>
    · rintro rfl
      cases hc

theorem unsigned_digits {ds : List Char} (hne : ds ≠ []) (hds : Fraction.Digits ds)
    (cs : List Char) : Grammar.Unsigned (ds ++ cs) := by
  obtain ⟨c, ds, rfl⟩ := List.exists_cons_of_ne_nil hne
  have hc := hds c List.mem_cons_self
  have hblank := not_isBlank_of_isNamePart (isNamePart_of_isDigit hc)
  refine ⟨c, ds ++ cs, rfl, hblank, ?_, ?_, ?_⟩ <;>
    · rintro rfl
      cases hc

namespace Starts

theorem opens {e : Expr} (h : e.Starts) : Opens (chars e) := by
  obtain ⟨c, cs, hcs, hc⟩ := h.printed
  exact hcs ▸ opens_cons (not_isBlank_of_not_isSpace hc) cs

/-- A text that starts with a name, after which no colon follows. -/
theorem of_name {e : Expr} {x : String} {cs : List Char} (hx : isName x = true)
    (h : chars e = x.toList ++ cs) (hcs : ∀ rest, Boundary rest → Boundary (cs ++ rest)) :
    e.Starts where
  printed := by
    obtain ⟨c, ds, hds, hc, _⟩ := isName_iff.1 hx
    exact ⟨c, ds ++ cs, by rw [h, hds]; rfl,
      not_isSpace_of_isNamePart (isNamePart_of_isNameStart hc)⟩
  unsigned _ := h ▸ unsigned_name hx cs
  notAnnotation _ rest hrest := by
    rw [h, List.append_assoc]
    exact .inr ⟨x, cs ++ rest, hx, rfl, hcs rest hrest⟩

/-- A text that starts with a character that no name starts with. -/
theorem of_char {e : Expr} {c : Char} {cs : List Char} (h : chars e = c :: cs)
    (hc : Text.isSpace c = false) (hname : isNameStart c = false)
    (hsign : 8 ≤ e.precedence → Grammar.Unsigned (chars e)) : e.Starts where
  printed := ⟨c, cs, h, hc⟩
  unsigned := hsign
  notAnnotation _ rest _ :=
    .inl ⟨c, cs ++ rest, by rw [h]; rfl, not_isBlank_of_not_isSpace hc, hname⟩

/-- A text that starts with the text of an operand, after which no colon follows. -/
theorem of_operand {e l : Expr} {least : Nat} {cs : List Char} (hl : l.Starts) (hleast : 1 ≤ least)
    (h : chars e = operandChars least l ++ cs) (hcs : ∀ rest, Boundary (cs ++ rest))
    (hp : 8 ≤ e.precedence → 8 ≤ least) : e.Starts where
  printed := by
    obtain ⟨c, ds, hds, hc⟩ := printed_operandChars least hl.printed
    exact ⟨c, ds ++ cs, by rw [h, hds]; rfl, hc⟩
  unsigned hp' := by
    obtain ⟨c, ds, hds, hc, hsign⟩ := unsigned_operandChars (hp hp') hl.unsigned
    exact ⟨c, ds ++ cs, by rw [h, hds]; rfl, hc, hsign⟩
  notAnnotation _ rest _ := by
    rw [h, List.append_assoc]
    exact notAnnotation_operandChars hleast hl.notAnnotation (hcs rest)

end Starts

/-- The reserved names can be variables. -/
theorem isVariable_of_mem_namespaces {x : String} (hx : x ∈ namespaces) : IsVariable x := by
  simp only [namespaces, List.mem_cons, List.not_mem_nil, or_false] at hx
  rcases hx with rfl | rfl | rfl | rfl | rfl <;> exact ⟨by decide, by decide, by decide⟩

theorem boundary_operator {c : Char} {cs : List Char} (hblank : isBlank c = false)
    (hcolon : c ≠ ':') : Boundary (' ' :: c :: cs) :=
  (Follow.operator hblank hcolon (Nat.lt_succ_self _)).toBoundary

theorem boundary_argChars (as : List Expr) (rest : List Char) : Boundary (argChars as ++ rest) :=
  (Follow.paren _).toBoundary

/-- The text of an expression that can be read starts as it should. -/
theorem starts_of_readable {e : Expr} (h : e.Readable) : e.Starts := by
  induction h with
  | bool b =>
    cases b with
    | true =>
      have hchars : chars (.bool true) = "true".toList ++ [] := rfl
      exact .of_name (by decide) hchars fun _ => id
    | false =>
      have hchars : chars (.bool false) = "false".toList ++ [] := rfl
      exact .of_name (by decide) hchars fun _ => id
  | @num q hq =>
    obtain ⟨whole, places, _, hne, hwhole, _, htext, _⟩ := Fraction.text_of_isDecimal hq
    have hchars : chars (.num q) = q.signChars ++ (whole ++ Fraction.pointed places) := htext
    by_cases hneg : q.num < 0
    · rw [Fraction.signChars, if_pos hneg] at hchars
      refine .of_char hchars rfl rfl fun hp => ?_
      simp [precedence, Fraction.isNegative, hneg] at hp
    · rw [Fraction.signChars, if_neg hneg] at hchars
      have hunsigned : Grammar.Unsigned (chars (.num q)) := hchars ▸ unsigned_digits hne hwhole _
      obtain ⟨c, cs, rfl⟩ := List.exists_cons_of_ne_nil hne
      have hc := hwhole c List.mem_cons_self
      refine .of_char hchars (not_isSpace_of_isNamePart (isNamePart_of_isDigit hc)) ?_
        fun _ => hunsigned
      by_contra hname
      rw [isDigit_of_isNameStart (Bool.not_eq_false _ ▸ hname)] at hc
      cases hc
  | str s =>
    exact .of_char chars_str rfl rfl fun _ => chars_str ▸ ⟨'\'', _, rfl, rfl, by decide⟩
  | var hx => exact .of_name hx.isName chars_var fun _ => id
  | member he hf ih =>
    exact .of_operand ih (by decide) chars_member (fun rest => (Follow.field hf rest).toBoundary)
      fun _ => by decide
  | neg he hnum ih => exact .of_char chars_neg rfl rfl fun h => absurd h (by decide : ¬ 8 ≤ 7)
  | not he ih => exact .of_char chars_not rfl rfl fun h => absurd h (by decide : ¬ 8 ≤ 7)
  | @arith o l r hl hr ihl ihr =>
    by_cases ho : o = .pow
    · subst ho
      exact .of_operand ihl (by decide) chars_pow
        (fun rest => boundary_operator rfl (by decide)) fun _ => by decide
    · have hp := ArithOp.precedence_of_ne_pow ho
      refine .of_operand ihl (by omega) (chars_arith ho) (fun rest => ?_) fun h => ?_
      · cases o <;> exact boundary_operator rfl (by decide)
      · have h : 8 ≤ o.precedence := h
        omega
  | @compare o l r hl hr ihl ihr =>
    refine .of_operand ihl (Nat.le_add_left 1 _) chars_compare (fun rest => ?_) ?_
    · cases o <;> exact boundary_operator rfl (by decide)
    · have hp := o.precedence_eq
      intro h
      have h : 8 ≤ o.precedence := h
      omega
  | and hl hr ihl ihr =>
    exact .of_operand ihl (by decide) chars_and (fun rest => boundary_operator rfl (by decide))
      fun h => absurd h (by decide : ¬ 8 ≤ 2)
  | or hl hr ihl ihr =>
    exact .of_operand ihl (by decide) chars_or (fun rest => boundary_operator rfl (by decide))
      fun h => absurd h (by decide : ¬ 8 ≤ 1)
  | @call f as hf has ih =>
    cases hf with
    | plain hx => exact .of_name hx.isName chars_call fun rest _ => boundary_argChars as rest
    | @reserved x f hx hf =>
      have hchars : chars (.call (x ++ "." ++ f) as) =
          x.toList ++ '.' :: (f.toList ++ argChars as) := by
        rw [chars_call]
        simp
      refine .of_name (isVariable_of_mem_namespaces hx).isName hchars fun rest _ => ?_
      have hfield := (Follow.field hf (argChars as ++ rest)).toBoundary
      rwa [← List.append_assoc, ← List.cons_append] at hfield
  | @invoke e f as he hfree hf has ih ihs =>
    have hchars := (chars_invoke (e := e) (f := f)).trans (List.append_assoc _ _ (argChars as))
    refine .of_operand ih (by decide) hchars (fun rest => ?_) fun _ => by decide
    exact List.append_assoc _ _ rest ▸ (Follow.field hf _).toBoundary
  | @branded x b hx hb =>
    obtain ⟨c, cs, hcs, hc, _⟩ := isName_iff.1 hx
    exact ⟨⟨c, _, by rw [chars_branded, hcs]; rfl,
        not_isSpace_of_isNamePart (isNamePart_of_isNameStart hc)⟩,
      fun h => absurd h (by decide : ¬ 8 ≤ 0), fun h => absurd h (by decide : ¬ 1 ≤ 0)⟩

/-! ## Reading the text -/

theorem precedence_le (e : Expr) : e.precedence ≤ 10 := by
  cases e with
  | num q =>
    rw [precedence]
    split <;> decide
  | compare o l r =>
    have := o.precedence_eq
    rw [precedence]
    omega
  | arith o l r => cases o <;> simp [precedence, ArithOp.precedence]
  | _ => simp [precedence]

/-- The text of an expression is read back wherever it may stand: on its own level of precedence
and every weaker one, and as a condition. The grammar need not nest deeper than the text is long. -/
structure Written (e : Expr) : Prop where
  level : ∀ n, (chars e).length ≤ n → ∀ p, 1 ≤ p → p ≤ e.precedence →
    (Grammar.level n).At p (chars e) e
  condition : ∀ n, (chars e).length ≤ n → ∀ rest, Closed rest →
    (Grammar.level n).conditionLevel (chars e ++ rest) = .ok e rest

/-- It is enough to read the text on the level of the expression itself. -/
theorem Written.of_at {e : Expr} (he : e.Readable) (hp : 1 ≤ e.precedence)
    (h : ∀ n, (chars e).length ≤ n → (Grammar.level n).At e.precedence (chars e) e) :
    e.Written := by
  have hs := starts_of_readable he
  have hlevel : ∀ n, (chars e).length ≤ n → ∀ p, 1 ≤ p → p ≤ e.precedence →
      (Grammar.level n).At p (chars e) e := fun n hn p hp1 hpe =>
    (h n hn).of_le hp1 hpe e.precedence_le fun _ hp8 => hs.unsigned hp8
  refine ⟨hlevel, fun n hn rest hrest => ?_⟩
  exact (hlevel n hn 1 le_rfl hp).condition hrest
    (hs.notAnnotation hp rest (hrest.follow Nat.one_pos).toBoundary)

/-- An operand is read back in its place, with parentheses if it needs them. -/
theorem Written.operand {e : Expr} (h : e.Written) {n least : Nat} (hleast : 1 ≤ least)
    (hleast' : least ≤ 10) (hn : (operandChars least e).length ≤ n) :
    (Grammar.level n).At least (operandChars least e) e := by
  by_cases hp : e.precedence < least
  · rw [operandChars_paren hp] at hn ⊢
    simp only [List.length_cons, List.length_append, List.length_nil] at hn
    obtain ⟨m, rfl⟩ : ∃ m, n = m + 1 := ⟨n - 1, by omega⟩
    -- In parentheses stands a whole condition, one level deeper.
    have hparen := Grammar.primary_paren (g := Grammar.level (m + 1)) (h.condition m (by omega))
    exact Grammar.At.of_le (q := 10) hparen hleast hleast' le_rfl fun _ _ =>
      ⟨'(', _, rfl, rfl, by decide⟩
  · rw [operandChars_bare (not_lt.1 hp)] at hn ⊢
    exact h.level n hn least hleast (not_lt.1 hp)

theorem Written.postfixes {e : Expr} (h : e.Written) {n : Nat}
    (hn : (operandChars 9 e).length ≤ n) : (Grammar.level n).Postfixes (operandChars 9 e) e := by
  have hat : (Grammar.level n).At 9 (operandChars 9 e) e := h.operand (by decide) (by decide) hn
  exact hat

/-- What is read behind a sign or as an exponent nests one level deeper. -/
theorem Written.unary {e : Expr} (h : e.Written) (he : e.Readable) {m least : Nat}
    (hleast : least = 7 ∨ least = 8) (hm : (operandChars least e).length ≤ m) :
    (Grammar.level (m + 1)).unary.Reads (Follow 7) (operandChars least e) e := by
  have hat := h.operand (by omega) (by omega) hm
  refine hat.of_le (p := 7) (by decide) (by omega) (by omega) fun _ hp => ?_
  exact unsigned_operandChars hp (starts_of_readable he).unsigned

theorem primary_var {g : Grammar} {x : String} (hx : IsVariable x) :
    g.primary.Reads (Follow 10) x.toList (.var x) := by
  have hword := Grammar.primary_word (g := g) hx.isName
  rwa [if_neg hx.ne_true, if_neg hx.ne_false] at hword

theorem negate_of_ne_num {e : Expr} (h : ∀ q, e ≠ .num q) : negate e = .neg e := by
  cases e with
  | num q => exact absurd rfl (h q)
  | _ => rfl

theorem applySuffix?_reserved {x f : String} (hx : x ∈ namespaces) (as : List Expr) :
    applySuffix? (.member (.var x) f) (.args as) = some (.call (x ++ "." ++ f) as) := by
  rw [applySuffix?, if_pos (List.contains_iff_mem.2 hx)]

theorem applySuffix?_free {e : Expr} (h : ∀ x ∈ namespaces, e ≠ .var x) (f : String)
    (as : List Expr) : applySuffix? (.member e f) (.args as) = some (.invoke e f as) := by
  cases e with
  | var x => rw [applySuffix?, if_neg fun hx => h x (List.contains_iff_mem.1 hx) rfl]
  | _ => rfl

theorem length_le_intercalate {cs : List Char} {css : List (List Char)} (h : cs ∈ css) :
    cs.length ≤ (List.intercalate [',', ' '] css).length := by
  induction css with
  | nil => cases h
  | cons ds css ih =>
    cases css with
    | nil =>
      obtain rfl := List.mem_singleton.1 h
      simp
    | cons es css =>
      rw [List.intercalate_cons_cons]
      simp only [List.length_append]
      rcases List.mem_cons.1 h with rfl | h
      · omega
      · have := ih h
        omega

/-- The arguments of a call are read back as its last suffix. -/
theorem postfixes_args {as : List Expr} (has : ∀ a ∈ as, a.Readable) (hw : ∀ a ∈ as, a.Written)
    {n : Nat} (hn : (argChars as).length ≤ n) {cs : List Char} {e e' : Expr}
    (h : (Grammar.level n).Postfixes cs e) (he : applySuffix? e (.args as) = some e') :
    (Grammar.level n).Postfixes (cs ++ argChars as) e' := by
  simp only [argChars, List.length_cons, List.length_append, List.length_nil] at hn
  obtain ⟨m, rfl⟩ : ∃ m, n = m + 1 := ⟨n - 1, by omega⟩
  have hargs : List.Forall₂ (fun cs a => Opens cs ∧
      (Grammar.level m).disjunctionLevel.Reads (Follow 1) cs a) (as.map (operandChars 1)) as := by
    rw [List.forall₂_map_left_iff, List.forall₂_same]
    intro a ha
    have hlen := length_le_intercalate (List.mem_map_of_mem (f := operandChars 1) ha)
    exact ⟨opens_operandChars 1 (starts_of_readable (has a ha)).opens,
      ((hw a ha).operand le_rfl (by decide) (by omega)).disjunction⟩
  exact h.suffix (opens_cons rfl _) (fun _ => .paren _)
    (Grammar.suffix_args hargs Grammar.disjunctionLevel_miss) he

namespace Written

theorem num {q : Fraction} (hq : q.IsDecimal) : Written (.num q) := by
  obtain ⟨whole, places, abs, hne, hwhole, hplaces, htext, habs, hval⟩ :=
    Fraction.text_of_isDecimal hq
  have hchars : chars (.num q) = q.signChars ++ (whole ++ Fraction.pointed places) := htext
  have hdigits : ∀ n, (Grammar.level n).At 10 (whole ++ Fraction.pointed places) (.num abs) :=
    fun _ => Grammar.primary_number hne hwhole hplaces habs
  by_cases hneg : q.num < 0
  · have hp : precedence (.num q) = 7 := by simp [precedence, Fraction.isNegative, hneg]
    rw [Fraction.signChars, if_pos hneg] at hchars
    refine .of_at (.num hq) (by omega) fun n hn => ?_
    rw [hchars] at hn ⊢
    rw [hp]
    obtain ⟨m, rfl⟩ : ∃ m, n = m + 1 := ⟨n - 1, by simp at hn; omega⟩
    -- The sign is read on its own, and what follows is then negated.
    have hunsigned := unsigned_digits hne hwhole (Fraction.pointed places)
    have hunary : (Grammar.level m).At 7 (whole ++ Fraction.pointed places) (.num abs) :=
      (hdigits m).of_le (by decide) (by decide) le_rfl fun _ _ => hunsigned
    have hread := Grammar.unaryLevel_neg (g := Grammar.level (m + 1)) hunary hunsigned.opens
    rwa [negate, Fraction.neg?_of_abs hval hneg] at hread
  · have hp : precedence (.num q) = 10 := by simp [precedence, Fraction.isNegative, hneg]
    rw [Fraction.signChars, if_neg hneg] at hchars
    refine .of_at (.num hq) (by omega) fun n _ => ?_
    rw [hchars, hp, ← Fraction.eq_of_abs hval hneg]
    exact hdigits n

section

variable {e l r : Expr}

theorem member (h : e.Written) (he : e.Readable) {f : String} (hf : isName f = true) :
    Written (.member e f) := by
  refine .of_at (.member he hf) (by simp [precedence]) fun n hn => ?_
  rw [chars_member, List.length_append] at hn
  rw [chars_member]
  exact (h.postfixes (n := n) (by omega)).field hf

theorem neg (h : e.Written) (he : e.Readable) (hnum : ∀ q, e ≠ .num q) : Written (.neg e) := by
  refine .of_at (.neg he hnum) (by simp [precedence]) fun n hn => ?_
  rw [chars_neg, List.length_cons] at hn
  obtain ⟨m, rfl⟩ : ∃ m, n = m + 1 := ⟨n - 1, by omega⟩
  have hread := Grammar.unaryLevel_neg (h.unary he (.inr rfl) (Nat.le_of_succ_le_succ hn))
    (opens_operandChars 8 (starts_of_readable he).opens)
  rw [chars_neg]
  rwa [negate_of_ne_num hnum] at hread

theorem not (h : e.Written) (he : e.Readable) : Written (.not e) := by
  refine .of_at (.not he) (by simp [precedence]) fun n hn => ?_
  rw [chars_not, List.length_cons] at hn
  obtain ⟨m, rfl⟩ : ∃ m, n = m + 1 := ⟨n - 1, by omega⟩
  rw [chars_not]
  exact Grammar.unaryLevel_not (h.unary he (.inr rfl) (by omega))
    (unsigned_operandChars le_rfl (starts_of_readable he).unsigned)

variable (hl : l.Written) (hr : r.Written) (hl' : l.Readable) (hr' : r.Readable)
include hl hr hl' hr'

theorem pow : Written (.arith .pow l r) := by
  refine .of_at (.arith hl' hr') (by simp [precedence, ArithOp.precedence]) fun n hn => ?_
  simp only [chars_pow, List.length_append, List.length_cons] at hn
  obtain ⟨m, rfl⟩ : ∃ m, n = m + 1 := ⟨n - 1, by omega⟩
  rw [chars_pow]
  have hbase := hl.postfixes (n := m + 1) (by omega)
  exact Grammar.power_pow hbase.reads (hr.unary hr' (.inl rfl) (by omega))
    (opens_operandChars 7 (starts_of_readable hr').opens)

theorem arith {o : ArithOp} (ho : o ≠ .pow) : Written (.arith o l r) := by
  have hp := ArithOp.precedence_of_ne_pow ho
  have hp' : precedence (.arith o l r) = o.precedence := rfl
  refine .of_at (.arith hl' hr') (by omega) fun n hn => ?_
  simp only [chars_arith ho, List.length_append, List.length_cons] at hn
  rw [chars_arith ho, hp']
  exact .arith ho (hl.operand (by omega) (by omega) (by omega))
    (hr.operand (by omega) (by omega) (by omega))
    (opens_operandChars _ (starts_of_readable hr').opens)

theorem compare {o : CompareOp} : Written (.compare o l r) := by
  have hp := o.precedence_eq
  have hp' : precedence (.compare o l r) = o.precedence := rfl
  refine .of_at (.compare hl' hr') (by omega) fun n hn => ?_
  simp only [chars_compare, List.length_append, List.length_cons] at hn
  rw [chars_compare, hp']
  exact .compare (hl.operand (by omega) (by omega) (by omega))
    (hr.operand (by omega) (by omega) (by omega))
    (opens_operandChars _ (starts_of_readable hr').opens)

theorem and : Written (.and l r) := by
  refine .of_at (.and hl' hr') (by simp [precedence]) fun n hn => ?_
  simp only [chars_and, List.length_append, List.length_cons] at hn
  rw [chars_and]
  exact .and (hl.operand (by decide) (by decide) (by omega))
    (hr.operand (by decide) (by decide) (by omega))
    (opens_operandChars 3 (starts_of_readable hr').opens)

theorem or : Written (.or l r) := by
  refine .of_at (.or hl' hr') (by simp [precedence]) fun n hn => ?_
  simp only [chars_or, List.length_append, List.length_cons] at hn
  rw [chars_or]
  exact .or (hl.operand (by decide) (by decide) (by omega))
    (hr.operand (by decide) (by decide) (by omega))
    (opens_operandChars 2 (starts_of_readable hr').opens)

end

section

variable {as : List Expr} (has : ∀ a ∈ as, a.Readable) (hw : ∀ a ∈ as, a.Written)
include has hw

theorem call {f : String} (hf : IsFunction f) : Written (.call f as) := by
  refine .of_at (.call hf has) (by simp [precedence]) fun n hn => ?_
  rw [chars_call, List.length_append] at hn
  rw [chars_call]
  cases hf with
  | plain hx => exact postfixes_args has hw (by omega) (.of_primary (primary_var hx)) rfl
  | @reserved x f hx hf =>
    have hbase := Grammar.Postfixes.of_primary (g := Grammar.level n)
      (primary_var (isVariable_of_mem_namespaces hx))
    have hname : (x ++ "." ++ f).toList = x.toList ++ '.' :: f.toList := by simp
    rw [hname]
    exact postfixes_args has hw (by omega) (hbase.field hf) (applySuffix?_reserved hx as)

theorem invoke {e : Expr} (h : e.Written) (he : e.Readable) (hfree : ∀ x ∈ namespaces, e ≠ .var x)
    {f : String} (hf : isName f = true) : Written (.invoke e f as) := by
  refine .of_at (.invoke he hfree hf has) (by simp [precedence]) fun n hn => ?_
  simp only [chars_invoke, List.length_append] at hn
  rw [chars_invoke]
  have hbase := h.postfixes (n := n) (by omega)
  exact postfixes_args has hw (by omega) (hbase.field hf) (applySuffix?_free hfree f as)

end

theorem branded {x b : String} (hx : isName x = true) (hb : IsBrand b) : Written (.branded x b) where
  level n _ p hp hp' := absurd (hp.trans hp') (by simp [precedence])
  condition n _ rest hrest := by
    rw [chars_branded, List.append_assoc]
    exact Grammar.conditionLevel_annotation hx hb hrest

end Written

/-- **Every expression that can be read is read back from its text**, unless a text literal holds
the quote. -/
theorem written_of_readable {e : Expr} (h : e.Readable) (hs : ∀ s ∈ e.strings, '\'' ∉ s.toList) :
    e.Written := by
  induction h with
  | bool b =>
    refine .of_at (.bool b) (by simp [precedence]) fun n _ => ?_
    cases b with
    | true => exact Grammar.primary_word (x := "true") rfl
    | false => exact Grammar.primary_word (x := "false") rfl
  | num hq => exact .num hq
  | str s =>
    refine .of_at (.str s) (by simp [precedence]) fun n _ => ?_
    rw [chars_str]
    exact Grammar.primary_text (hs s (List.mem_singleton.2 rfl))
  | var hx => exact .of_at (.var hx) (by simp [precedence]) fun n _ => primary_var hx
  | branded hx hb => exact .branded hx hb
  | member he hf ih => exact (ih hs).member he hf
  | neg he hnum ih => exact (ih hs).neg he hnum
  | not he ih => exact (ih hs).not he
  | @arith o l r hl hr ihl ihr =>
    obtain ⟨hsl, hsr⟩ := List.forall_mem_append.1 hs
    by_cases ho : o = .pow
    · subst ho
      exact .pow (ihl hsl) (ihr hsr) hl hr
    · exact .arith (ihl hsl) (ihr hsr) hl hr ho
  | compare hl hr ihl ihr =>
    obtain ⟨hsl, hsr⟩ := List.forall_mem_append.1 hs
    exact .compare (ihl hsl) (ihr hsr) hl hr
  | and hl hr ihl ihr =>
    obtain ⟨hsl, hsr⟩ := List.forall_mem_append.1 hs
    exact .and (ihl hsl) (ihr hsr) hl hr
  | or hl hr ihl ihr =>
    obtain ⟨hsl, hsr⟩ := List.forall_mem_append.1 hs
    exact .or (ihl hsl) (ihr hsr) hl hr
  | call hf has ih =>
    refine .call has (fun a ha => ih a ha fun s hsa => ?_) hf
    exact hs s (strings_subset_stringsList ha hsa)
  | invoke he hfree hf has ih ihs =>
    obtain ⟨hse, hsas⟩ := List.forall_mem_append.1 hs
    refine .invoke has (fun a ha => ihs a ha fun s hsa => ?_) (ih hse) he hfree hf
    exact hsas s (strings_subset_stringsList ha hsa)

/-! ## Printing and reading -/

theorem not_isEmpty_trimChars {c : Char} (hc : Text.isSpace c = false) (cs : List Char) :
    (Text.trimChars (c :: cs)).isEmpty = false := by
  have hstart : Text.trimStart (c :: cs) = c :: cs := List.dropWhile_cons_of_neg (by simp [hc])
  rw [Text.trimChars, hstart, List.isEmpty_reverse, List.isEmpty_eq_false_iff]
  intro hnil
  have hspace := List.dropWhile_eq_nil_iff.1 hnil c (by simp)
  rw [hc] at hspace
  cases hspace

/-- **Printing, then reading, gives back every condition that has been read**, unless a text literal
in it holds the quote it is printed between. -/
theorem parse_text (t : String) (e : Expr) (h : parse t = .ok e)
    (hs : ∀ s ∈ e.strings, '\'' ∉ s.toList) : parse e.text = .ok e := by
  have he := readable_of_parse h
  have hstarts := starts_of_readable he
  have hcondition := (written_of_readable he hs).condition _ le_rfl [] (.inl rfl)
  rw [List.append_nil] at hcondition
  have hread : spaced (Grammar.level ((chars e).length + 1)).condition (chars e) = .ok e [] :=
    spaced_of_opens hstarts.opens hcondition
  obtain ⟨c, cs, hcs, hc⟩ := hstarts.printed
  have hblank : (Text.trimChars (chars e)).isEmpty = false := hcs ▸ not_isEmpty_trimChars hc cs
  change parseChars (chars e) = .ok e
  simp only [parseChars, hblank, hread, Bool.false_eq_true, if_false]

set_option maxRecDepth 1024 in
/-- Signs before a power, a comparison and a difference, a number with a field, a function of a
reserved name, a method and an annotation. -/
theorem parse_text_nested :
    let t :=
      "!(-x ** -2 == (a < b)) && -(2.50 - n) / 5.length >= Math.max(s.at(\"a b\"), (i: I<1,2>))"
    let power : Expr := .neg (.arith .pow (.var "x") (.num (.ofWord (-2) (by decide))))
    let difference : Expr := .arith .sub (.num ⟨5, 2, by decide, by decide, by decide, by decide⟩)
      (.var "n")
    let e : Expr := .and
      (.not (.compare .eq power (.compare .lt (.var "a") (.var "b"))))
      (.compare .ge
        (.arith .div (.neg difference) (.member (.num (.ofWord 5 (by decide))) "length"))
        (.call "Math.max" [.invoke (.var "s") "at" [.str "a b"], .branded "i" "I<1, 2>"]))
    parse t = .ok e ∧ (∀ s ∈ e.strings, '\'' ∉ s.toList) ∧ parse e.text = .ok e := by
  refine ⟨?read, ?quotes, parse_text _ _ ?read ?quotes⟩
  · cbv
  · decide

end Discharge.Expr
