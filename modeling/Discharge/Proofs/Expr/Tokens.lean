import Discharge.Expr.Parser
import Discharge.Proofs.Fraction.Decimal
import Discharge.Proofs.Reader.Steps
import Mathlib

/-!
# Tokens of conditions

How names, numbers, texts, brands and operators are read off the front of a text. A token is read
back only where the text that follows does not extend it: `Boundary rest` is what all tokens ask
for. An expression moreover asks that no operator follows that would bind to it; `strength` is how
tightly the operator at the start of a text binds, and `Follow p rest` says that a reader of what
binds at least as tightly as `p` stops before `rest`.
-/

namespace Discharge.Expr

open Reader
open Fraction (Digits pointed)

/-! ## What may follow -/

/-- The text does not go on with the token before it, and does not make an annotation of it. -/
structure Boundary (rest : List Char) : Prop where
  name : ∀ c ds, rest = c :: ds → isNamePart c = false
  place : ∀ c ds, rest = '.' :: c :: ds → c.isDigit = false
  colon : ∀ ds, skip rest ≠ ':' :: ds

/-- How tightly the operator at the start of a text binds, in the scale of `Expr.precedence`. -/
def strength : List Char → Nat
  | '.' :: _ | '(' :: _ => 9
  | '*' :: '*' :: _ => 8
  | '*' :: _ | '/' :: _ | '%' :: _ => 6
  | '+' :: _ | '-' :: _ => 5
  | '<' :: _ | '>' :: _ => 4
  | '=' :: _ | '!' :: _ => 3
  | '&' :: _ => 2
  | '|' :: _ => 1
  | _ => 0

/-- A reader of what binds at least as tightly as `p` stops before the text. -/
structure Follow (p : Nat) (rest : List Char) : Prop extends Boundary rest where
  strength_lt : strength (skip rest) < p

theorem Follow.mono {p p' : Nat} {rest : List Char} (h : Follow p rest) (hp : p ≤ p') :
    Follow p' rest :=
  ⟨h.toBoundary, h.strength_lt.trans_le hp⟩

theorem isNamePart_of_isDigit {c : Char} (hc : c.isDigit = true) : isNamePart c = true := by
  simp [isNamePart, Char.isAlphanum, hc]

theorem isNamePart_of_isNameStart {c : Char} (hc : isNameStart c = true) : isNamePart c = true := by
  unfold isNameStart at hc
  unfold isNamePart Char.isAlphanum
  simp only [Bool.or_eq_true] at hc ⊢
  tauto

/-- A name does not start with a digit. -/
theorem isDigit_of_isNameStart {c : Char} (hc : isNameStart c = true) : c.isDigit = false := by
  rw [Bool.eq_false_iff]
  intro hdigit
  simp only [isNameStart, Bool.or_eq_true] at hc
  rcases hc with (hc | hc) | hc
  · simp only [Char.isAlpha, Char.isUpper, Char.isLower, Char.isDigit, Bool.or_eq_true,
      Bool.and_eq_true, decide_eq_true_eq, UInt32.le_iff_toNat_le, ge_iff_le] at hc hdigit
    have : 'Z'.val.toNat = 90 := rfl
    have : 'A'.val.toNat = 65 := rfl
    have : 'a'.val.toNat = 97 := rfl
    have : '9'.val.toNat = 57 := rfl
    omega
  · obtain rfl := eq_of_beq hc
    cases hdigit
  · obtain rfl := eq_of_beq hc
    cases hdigit

theorem not_isNameStart_of_isDigit {c : Char} (hc : c.isDigit = true) : isNameStart c = false :=
  Bool.eq_false_iff.2 fun hstart =>
    Bool.false_ne_true ((isDigit_of_isNameStart hstart).symm.trans hc)

theorem not_isNameStart_of_not_isNamePart {c : Char} (hc : isNamePart c = false) :
    isNameStart c = false :=
  Bool.eq_false_iff.2 fun hstart =>
    Bool.false_ne_true (hc.symm.trans (isNamePart_of_isNameStart hstart))

theorem not_isDigit_of_not_isNamePart {c : Char} (hc : isNamePart c = false) :
    c.isDigit = false :=
  Bool.eq_false_iff.2 fun hdigit =>
    Bool.false_ne_true (hc.symm.trans (isNamePart_of_isDigit hdigit))

/-- Names and numbers hold no white space. -/
theorem not_isSpace_of_isNamePart {c : Char} (hc : isNamePart c = true) :
    Text.isSpace c = false := by
  rw [Bool.eq_false_iff]
  intro hspace
  simp only [isNamePart, Bool.or_eq_true] at hc
  rcases hc with (hc | hc) | hc
  · simp only [Char.isAlphanum, Char.isAlpha, Char.isUpper, Char.isLower, Char.isDigit,
      Bool.or_eq_true, Bool.and_eq_true, decide_eq_true_eq, UInt32.le_iff_toNat_le, ge_iff_le] at hc
    simp only [Text.isSpace, Bool.or_eq_true, Bool.and_eq_true, decide_eq_true_eq, Char.toNat,
      Nat.beq_eq_true_eq] at hspace
    have : 'Z'.val.toNat = 90 := rfl
    have : 'A'.val.toNat = 65 := rfl
    have : 'a'.val.toNat = 97 := rfl
    have : 'z'.val.toNat = 122 := rfl
    have : '0'.val.toNat = 48 := rfl
    have : '9'.val.toNat = 57 := rfl
    omega
  · obtain rfl := eq_of_beq hc
    cases hspace
  · obtain rfl := eq_of_beq hc
    cases hspace

theorem not_isBlank_of_not_isSpace {c : Char} (hc : Text.isSpace c = false) :
    isBlank c = false := by
  rw [Bool.eq_false_iff]
  intro hblank
  simp only [isBlank, Bool.or_eq_true] at hblank
  rcases hblank with ((hblank | hblank) | hblank) | hblank <;>
    · obtain rfl := eq_of_beq hblank
      cases hc

theorem not_isBlank_of_isNamePart {c : Char} (hc : isNamePart c = true) : isBlank c = false :=
  not_isBlank_of_not_isSpace (not_isSpace_of_isNamePart hc)

theorem opens_digits {ds : List Char} (hne : ds ≠ []) (hds : Digits ds) : Opens ds := by
  obtain ⟨c, cs, rfl⟩ := List.exists_cons_of_ne_nil hne
  exact opens_cons (not_isBlank_of_isNamePart (isNamePart_of_isDigit (hds c List.mem_cons_self))) cs

/-- An operator between two blanks follows. -/
theorem Follow.operator {p : Nat} {c : Char} {ds : List Char} (hblank : isBlank c = false)
    (hcolon : c ≠ ':') (hp : strength (c :: ds) < p) : Follow p (' ' :: c :: ds) where
  name d es h := by
    cases h
    rfl
  place d es h := by cases h
  colon es h := by
    rw [skip_space, skip_cons hblank] at h
    cases h
    exact hcolon rfl
  strength_lt := by rwa [skip_space, skip_cons hblank]

/-- A character follows that is no blank and belongs to no token. -/
theorem Follow.mark {p : Nat} {c : Char} {ds : List Char} (hblank : isBlank c = false)
    (hname : isNamePart c = false) (hcolon : c ≠ ':') (hplace : c ≠ '.')
    (hp : strength (c :: ds) < p) : Follow p (c :: ds) where
  name d es h := by
    cases h
    exact hname
  place d es h := by
    cases h
    exact absurd rfl hplace
  colon es h := by
    rw [skip_cons hblank] at h
    cases h
    exact hcolon rfl
  strength_lt := by rwa [skip_cons hblank]

theorem Follow.nil {p : Nat} (hp : 0 < p) : Follow p [] where
  name c ds h := by cases h
  place c ds h := by cases h
  colon ds h := by cases h
  strength_lt := hp

theorem Follow.close {p : Nat} (hp : 0 < p) (rest : List Char) : Follow p (')' :: rest) :=
  .mark rfl rfl (by decide) (by decide) hp

theorem Follow.comma {p : Nat} (hp : 0 < p) (rest : List Char) : Follow p (',' :: rest) :=
  .mark rfl rfl (by decide) (by decide) hp

theorem Follow.paren (rest : List Char) : Follow 10 ('(' :: rest) :=
  .mark rfl rfl (by decide) (by decide) (by decide : 9 < 10)

/-! ## Names -/

theorem isName_iff {x : String} :
    isName x = true ↔ ∃ c cs, x.toList = c :: cs ∧ isNameStart c = true ∧
      ∀ d ∈ cs, isNamePart d = true := by
  unfold isName
  cases x.toList with
  | nil => simp
  | cons c cs => simp

/-- A field follows. -/
theorem Follow.field {f : String} (hf : isName f = true) (rest : List Char) :
    Follow 10 ('.' :: (f.toList ++ rest)) := by
  obtain ⟨c, cs, hcs, hc, _⟩ := isName_iff.1 hf
  rw [hcs]
  refine ⟨⟨?_, ?_, ?_⟩, (by decide : 9 < 10)⟩
  · intro d ds h
    cases h
    rfl
  · intro d ds h
    cases h
    exact isDigit_of_isNameStart hc
  · intro ds h
    cases h

theorem opens_name {x : String} (hx : isName x = true) : Opens x.toList := by
  obtain ⟨c, cs, hcs, hc, _⟩ := isName_iff.1 hx
  rw [hcs]
  exact opens_cons (not_isBlank_of_isNamePart (isNamePart_of_isNameStart hc)) cs

theorem nameReader_append {x : String} (hx : isName x = true) {rest : List Char}
    (hrest : ∀ c ds, rest = c :: ds → isNamePart c = false) :
    nameReader (x.toList ++ rest) = .ok x rest := by
  obtain ⟨c, cs, hcs, hc, hpart⟩ := isName_iff.1 hx
  rw [hcs]
  refine (bind_ok (satisfy_cons hc _)).trans ((bind_ok (run_append hpart hrest)).trans ?_)
  rw [pure_run, ← hcs, String.ofList_toList]

theorem nameReader_miss {c : Char} (hc : isNameStart c = false) (cs : List Char) :
    nameReader (c :: cs) = .miss (c :: cs) :=
  bind_miss (satisfy_miss fun d ds h => by cases h; exact hc)

/-! ## Numbers and texts -/

theorem Boundary.not_isDigit {rest : List Char} (h : Boundary rest) :
    ∀ c ds, rest = c :: ds → c.isDigit = false := fun c ds hrest =>
  not_isDigit_of_not_isNamePart (h.name c ds hrest)

/-- What is made of the digits of a number, once it is known that no name follows them. -/
theorem numberReader_eq {whole places rest : List Char} (hne : whole ≠ [])
    (hwhole : Digits whole) (hplaces : Digits places)
    (hdigit : ∀ c ds, rest = c :: ds → c.isDigit = false)
    (hplace : places = [] → ∀ c ds, rest = '.' :: c :: ds → c.isDigit = false) :
    numberReader (whole ++ (pointed places ++ rest)) =
      (do
        notNext isNameStart
        match Fraction.ofDecimalChars? (whole ++ pointed places) with
        | some q => return .num q
        | none => abort (whole ++ (pointed places ++ rest)) .outOfRange : Reader Expr) rest := by
  have hpoint : ∀ c ds, pointed places ++ rest = c :: ds → c.isDigit = false := by
    unfold pointed
    split
    · exact hdigit
    · intro c ds h
      cases h
      rfl
  have hoptional : optional (do
      let point ← char '.'
      return point :: (← run1 Char.isDigit)) (pointed places ++ rest) =
      .ok (if places = [] then none else some (pointed places)) rest := by
    unfold pointed
    split
    · rename_i hnone
      -- A point may follow, but then it belongs to a field.
      by_cases hpoint : ∃ ds, rest = '.' :: ds
      · obtain ⟨ds, rfl⟩ := hpoint
        refine optional_miss ((bind_ok (char_cons '.' ds)).trans (bind_miss (run1_miss ?_)))
        intro c es h
        exact hplace hnone c es (h ▸ rfl)
      · exact optional_miss (bind_miss (char_miss fun ds h => hpoint ⟨ds, h⟩))
    · rename_i hplaces_ne
      refine optional_ok ((bind_ok (char_cons '.' _)).trans ?_)
      exact bind_ok (run1_append hplaces_ne hplaces hdigit)
  refine (bind_ok rfl).trans ((bind_ok (run1_append hne hwhole hpoint)).trans ?_)
  refine (bind_ok hoptional).trans ?_
  have hdigits : whole ++ (if places = [] then none else some (pointed places)).getD [] =
      whole ++ pointed places := by
    unfold pointed
    split <;> rfl
  exact hdigits ▸ rfl

theorem numberReader_append {whole places rest : List Char} {q : Fraction} (hne : whole ≠ [])
    (hwhole : Digits whole) (hplaces : Digits places)
    (hq : Fraction.ofDecimalChars? (whole ++ pointed places) = some q) (hrest : Boundary rest) :
    numberReader (whole ++ (pointed places ++ rest)) = .ok (.num q) rest := by
  have hend : notNext isNameStart rest = .ok () rest := notNext_ok fun c ds h =>
    not_isNameStart_of_not_isNamePart (hrest.name c ds h)
  refine (numberReader_eq hne hwhole hplaces hrest.not_isDigit fun _ => hrest.place).trans ?_
  refine (bind_ok hend).trans ?_
  rw [hq]
  rfl

theorem numberReader_miss {c : Char} (hc : c.isDigit = false) (cs : List Char) :
    numberReader (c :: cs) = .miss (c :: cs) :=
  (bind_ok rfl).trans (bind_miss (run1_miss fun d ds h => by cases h; exact hc))

theorem quoted_append {quote : Char} {s : List Char} (hs : quote ∉ s) (rest : List Char) :
    quoted quote (quote :: (s ++ quote :: rest)) = .ok (String.ofList s) rest := by
  have hrun : run (· != quote) (s ++ quote :: rest) = .ok s (quote :: rest) :=
    run_append (fun c hc => bne_iff_ne.2 fun h => hs (h ▸ hc)) fun c ds h => by
      cases h
      exact bne_self_eq_false _
  exact (bind_ok (char_cons quote _)).trans ((bind_ok hrun).trans (bind_ok (char_cons quote rest)))

theorem textReader_append {s : String} (hs : '\'' ∉ s.toList) (rest : List Char) :
    textReader ('\'' :: (s.toList ++ '\'' :: rest)) = .ok (.str s) rest := by
  refine (bind_ok (orElse_ok (quoted_append hs rest))).trans ?_
  rw [String.ofList_toList]
  rfl

theorem textReader_miss {c : Char} (hc : c ≠ '\'') (hc' : c ≠ '"') (cs : List Char) :
    ∃ place, textReader (c :: cs) = .miss place := by
  have hmiss : ∀ quote, c ≠ quote → quoted quote (c :: cs) = .miss (c :: cs) := fun quote h =>
    bind_miss (char_miss fun ds hds => by cases hds; exact h rfl)
  exact ⟨_, bind_miss ((orElse_miss (hmiss _ hc)).trans (hmiss _ hc'))⟩

/-- What a word stands for: a truth value or a variable. -/
theorem wordReader_append {x : String} (hx : isName x = true) {rest : List Char}
    (hrest : Boundary rest) :
    wordReader (x.toList ++ rest) =
      .ok (if x = "true" then .bool true else if x = "false" then .bool false else .var x) rest :=
  bind_ok (nameReader_append hx hrest.name)

/-! ## Brands -/

/-- The name of a brand as it is written, with its numbers if it has any. -/
inductive IsBrand : String → Prop
  | plain {name : String} (h : isName name = true) : IsBrand name
  | numbered {name : String} {numbers : List (List Char)} (h : isName name = true)
      (hnumbers : ∀ n ∈ numbers, n ≠ [] ∧ Digits n) :
      IsBrand (name ++ "<" ++ ", ".intercalate (numbers.map String.ofList) ++ ">")

theorem IsBrand.opens {b : String} (hb : IsBrand b) : Opens b.toList := by
  cases hb with
  | plain h => exact opens_name h
  | numbered h hnumbers =>
    rw [String.append_assoc, String.append_assoc, String.toList_append]
    exact (opens_name h).append _

/-- A condition has come to its end. -/
def Closed (rest : List Char) : Prop := rest = [] ∨ ∃ ds, rest = ')' :: ds

theorem Closed.skip_eq {rest : List Char} (h : Closed rest) : skip rest = rest := by
  rcases h with rfl | ⟨ds, rfl⟩
  · rfl
  · exact skip_cons rfl ds

theorem Closed.follow {rest : List Char} (h : Closed rest) {p : Nat} (hp : 0 < p) :
    Follow p rest := by
  rcases h with rfl | ⟨ds, rfl⟩
  · exact .nil hp
  · exact .close hp ds

/-- The numbers of a brand between their brackets. -/
theorem numbers_append {numbers : List (List Char)} (h : ∀ n ∈ numbers, n ≠ [] ∧ Digits n)
    (rest : List Char) :
    sepBy (spaced (char ',')) (run1 Char.isDigit)
      (List.intercalate [',', ' '] numbers ++ '>' :: rest) = .ok numbers ('>' :: rest) := by
  have hreads : List.Forall₂ (fun cs a => Opens cs ∧ (run1 Char.isDigit).Reads
      (fun rest => ∀ c ds, rest = c :: ds → c.isDigit = false) cs a) numbers numbers := by
    refine List.forall₂_same.2 fun n hn => ?_
    obtain ⟨hne, hdigits⟩ := h n hn
    exact ⟨opens_digits hne hdigits,
      fun rest hrest => ⟨rest, run1_append hne hdigits hrest, .refl rest⟩⟩
  have hstop : ∀ ds, skip ('>' :: rest) ≠ ',' :: ds := fun ds hds => by
    rw [skip_cons rfl] at hds
    cases hds
  have hclose : ∀ c ds, '>' :: rest = c :: ds → c.isDigit = false := by
    intro c ds hds
    cases hds
    rfl
  have hcomma : ∀ es c ds, ',' :: es = c :: ds → c.isDigit = false := by
    intro es c ds hds
    cases hds
    rfl
  obtain ⟨rest', hread, hleft⟩ := sepBy_intercalate hcomma hreads hclose hstop fun _ =>
    ⟨_, run1_miss hclose⟩
  rwa [hleft.eq_of_skip (skip_cons rfl rest)] at hread

theorem brandReader_append {b : String} (hb : IsBrand b) {rest : List Char} (hrest : Closed rest) :
    brandReader (b.toList ++ rest) = .ok b rest := by
  cases hb with
  | plain h =>
    have hnone : ∀ ds, skip rest ≠ '<' :: ds := by
      rw [hrest.skip_eq]
      rcases hrest with rfl | ⟨ds, rfl⟩ <;> nofun
    refine (bind_ok (nameReader_append h (hrest.follow Nat.one_pos).name)).trans ?_
    exact bind_ok (optional_miss (bind_miss (spaced_char_miss hnone)))
  | @numbered name numbers h hnumbers =>
    have hchars :
        (name ++ "<" ++ ", ".intercalate (numbers.map String.ofList) ++ ">").toList ++ rest =
        name.toList ++ '<' :: (List.intercalate [',', ' '] numbers ++ '>' :: rest) := by
      simp [String.toList_intercalate, Function.comp_def]
    have hopen : skip (List.intercalate [',', ' '] numbers ++ '>' :: rest) =
        List.intercalate [',', ' '] numbers ++ '>' :: rest :=
      skip_intercalate (fun n hn => opens_digits (hnumbers n hn).1 (hnumbers n hn).2)
        (opens_cons rfl rest)
    rw [hchars]
    refine (bind_ok (nameReader_append h ?_)).trans ?_
    · intro c ds hds
      cases hds
      rfl
    · refine bind_ok (optional_ok ((bind_ok (spaced_char rfl _)).trans ?_))
      rw [hopen]
      refine (bind_ok (numbers_append hnumbers rest)).trans ?_
      refine (bind_ok (spaced_char rfl rest)).trans ?_
      rw [hrest.skip_eq]
      rfl

theorem annotationReader_append {x b : String} (hx : isName x = true) (hb : IsBrand b)
    {rest : List Char} (hrest : Closed rest) :
    annotationReader (x.toList ++ ':' :: ' ' :: (b.toList ++ rest)) = .ok (.branded x b) rest := by
  have hname : spaced nameReader (x.toList ++ ':' :: ' ' :: (b.toList ++ rest)) =
      .ok x (':' :: ' ' :: (b.toList ++ rest)) := by
    refine spaced_of_opens ((opens_name hx).append _) (nameReader_append hx ?_)
    intro c ds hds
    cases hds
    rfl
  have hbrand : spaced brandReader (' ' :: (b.toList ++ rest)) = .ok b (skip rest) := by
    refine spaced_ok ?_
    rw [skip_space, (hb.opens.append rest).skip_eq]
    exact brandReader_append hb hrest
  rw [hrest.skip_eq] at hbrand
  have hend : endOrNext (· == ')') rest = .ok () rest := by
    rcases hrest with rfl | ⟨ds, rfl⟩ <;> rfl
  refine (bind_ok hname).trans ((bind_ok (char_cons ':' _)).trans ?_)
  exact (bind_ok hbrand).trans (bind_ok hend)

/-- The text does not start with a name and a colon. -/
def NotAnnotation (cs : List Char) : Prop :=
  (∃ c ds, cs = c :: ds ∧ isBlank c = false ∧ isNameStart c = false) ∨
    ∃ x rest, isName x = true ∧ cs = x.toList ++ rest ∧ Boundary rest

theorem annotationReader_miss {cs : List Char} (h : NotAnnotation cs) :
    ∃ place, annotationReader cs = .miss place := by
  rcases h with ⟨c, ds, rfl, hblank, hc⟩ | ⟨x, rest, hx, rfl, hrest⟩
  · have hname : nameReader (skip (c :: ds)) = .miss (c :: ds) := by
      rw [skip_cons hblank]
      exact nameReader_miss hc ds
    exact ⟨_, bind_miss (spaced_miss hname)⟩
  · have hname : spaced nameReader (x.toList ++ rest) = .ok x (skip rest) :=
      spaced_of_opens ((opens_name hx).append rest) (nameReader_append hx hrest.name)
    exact ⟨_, (bind_ok hname).trans (bind_miss (char_miss hrest.colon))⟩

/-! ## Operators -/

/-- An operator that the given word stands for is read where the word is followed by a blank. -/
theorem sumOp_ok {o : ArithOp} (ho : o = .add ∨ o = .sub) (rest : List Char) :
    sumOp (o.symbol.toList ++ ' ' :: rest) = .ok o (' ' :: rest) := by
  rcases ho with rfl | rfl <;> rfl

theorem productOp_ok {o : ArithOp} (ho : o = .mul ∨ o = .div ∨ o = .rem) (rest : List Char) :
    productOp (o.symbol.toList ++ ' ' :: rest) = .ok o (' ' :: rest) := by
  rcases ho with rfl | rfl | rfl <;> rfl

theorem relationOp_ok {o : CompareOp} (ho : o.precedence = 4) (rest : List Char) :
    relationOp (o.symbol.toList ++ ' ' :: rest) = .ok o (' ' :: rest) := by
  cases o <;> first | rfl | cases ho

theorem equalityOp_ok {o : CompareOp} (ho : o.precedence = 3) (rest : List Char) :
    equalityOp (o.symbol.toList ++ ' ' :: rest) = .ok o (' ' :: rest) := by
  cases o <;> first | rfl | cases ho

theorem strength_star (cs : List Char) : 6 ≤ strength ('*' :: cs) := by
  unfold strength
  split <;> simp_all

/-- An operator with a word for it misses where the text does not start as the word does. -/
theorem operator_miss {α : Type} {w : String} {op : α} {c : Char} {ds cs : List Char}
    (hw : w.toList = c :: ds) (h : ∀ es, cs ≠ c :: es) : operator w op cs = .miss cs := by
  unfold operator
  rw [hw]
  exact bind_miss (word_miss h)

/-- A weaker operator does not start with the character of a stronger one. -/
theorem ne_cons_of_strength {c : Char} {cs : List Char} {p : Nat} (h : strength cs < p)
    (hc : ∀ ds, p ≤ strength (c :: ds)) : ∀ ds, cs ≠ c :: ds := by
  rintro ds rfl
  exact absurd h (hc ds).not_gt

theorem productOp_miss {cs : List Char} (h : strength cs < 6) : productOp cs = .miss cs := by
  have hstar := ne_cons_of_strength h strength_star
  refine (orElse_miss (bind_miss (operator_miss rfl hstar))).trans ?_
  refine (orElse_miss (operator_miss rfl (ne_cons_of_strength h fun _ => le_rfl))).trans ?_
  exact operator_miss rfl (ne_cons_of_strength h fun _ => le_rfl)

theorem sumOp_miss {cs : List Char} (h : strength cs < 5) : sumOp cs = .miss cs := by
  refine (orElse_miss (operator_miss rfl (ne_cons_of_strength h fun _ => le_rfl))).trans ?_
  exact operator_miss rfl (ne_cons_of_strength h fun _ => le_rfl)

theorem relationOp_miss {cs : List Char} (h : strength cs < 4) : relationOp cs = .miss cs := by
  have hless : ∀ ds, cs ≠ '<' :: ds := ne_cons_of_strength h fun _ => le_rfl
  have hgreater : ∀ ds, cs ≠ '>' :: ds := ne_cons_of_strength h fun _ => le_rfl
  refine (orElse_miss (operator_miss rfl hless)).trans ?_
  refine (orElse_miss (operator_miss rfl hgreater)).trans ?_
  exact (orElse_miss (operator_miss rfl hless)).trans (operator_miss rfl hgreater)

theorem equalityOp_miss {cs : List Char} (h : strength cs < 3) : equalityOp cs = .miss cs := by
  have hequal : ∀ ds, cs ≠ '=' :: ds := ne_cons_of_strength h fun _ => le_rfl
  have hnot : ∀ ds, cs ≠ '!' :: ds := ne_cons_of_strength h fun _ => le_rfl
  refine (orElse_miss (operator_miss rfl hequal)).trans ?_
  refine (orElse_miss (operator_miss rfl hnot)).trans ?_
  exact (orElse_miss (operator_miss rfl hequal)).trans (operator_miss rfl hnot)

end Discharge.Expr
