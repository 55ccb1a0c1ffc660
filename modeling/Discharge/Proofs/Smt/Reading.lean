import Discharge.Proofs.Checked
import Discharge.Proofs.Fraction.Decimal
import Discharge.Proofs.Smt.Script
import Discharge.Smt.Query

/-!
# How queries are read

A query is written as a text, and read by the solver as a script. `Spells cs e` says that the
characters `cs` are read as the S-expression `e`, provided that whatever follows does not go on with
a name. Expressions that are spelled so make a list when blanks stand between them and parentheses
around them (`Spells.list`), and a symbol is read as the name it was made from
(`Symbol.spells_ofName`). So each part of a query is read as the expression it was written for, and
the query as its script (`Query.script?_text`).
-/

namespace Discharge.Smt

/-! ## Tokens of expressions -/

namespace SExpr

/-- Structural induction: a list may assume the statement of each item. -/
@[induction_eliminator]
theorem induct {motive : SExpr → Prop} (symbol : ∀ s, motive (.symbol s))
    (decimal : ∀ q, motive (.decimal q))
    (list : ∀ es, (∀ e ∈ es, motive e) → motive (.list es)) (e : SExpr) : motive e :=
  @SExpr.rec motive (fun es => ∀ e ∈ es, motive e) symbol decimal list
    (fun _ h => absurd h List.not_mem_nil)
    (fun _ _ he ht _ h => (List.mem_cons.1 h).elim (fun e => e ▸ he) (ht _)) e

mutual

/-- The tokens of an expression. -/
def tokens : SExpr → List Token
  | .symbol s => [.symbol s]
  | .decimal q => [.decimal q]
  | .list es => .opening :: (tokensList es ++ [.closing])

/-- The tokens of several expressions. -/
def tokensList : List SExpr → List Token
  | [] => []
  | e :: es => e.tokens ++ tokensList es

end

end SExpr

open SExpr

theorem tokensList_append (es fs : List SExpr) :
    tokensList (es ++ fs) = tokensList es ++ tokensList fs := by
  induction es with
  | nil => rfl
  | cons e es ih => simp [tokensList, ih]

theorem build_tokensList (es : List SExpr)
    (h : ∀ e ∈ es, ∀ tokens items stack,
      build (e.tokens ++ tokens) (items :: stack) = build tokens ((e :: items) :: stack))
    (tokens : List Token) (items : List SExpr) (stack : List (List SExpr)) :
    build (tokensList es ++ tokens) (items :: stack) =
      build tokens ((es.reverse ++ items) :: stack) := by
  induction es generalizing items with
  | nil => rfl
  | cons e es ih =>
    obtain ⟨he, hes⟩ := List.forall_mem_cons.1 h
    rw [tokensList, List.append_assoc, he, ih hes, List.reverse_cons, List.append_assoc]
    rfl

/-- The tokens of an expression are put together to that expression. -/
theorem build_tokens (e : SExpr) (tokens : List Token) (items : List SExpr)
    (stack : List (List SExpr)) :
    build (e.tokens ++ tokens) (items :: stack) = build tokens ((e :: items) :: stack) := by
  induction e generalizing tokens items stack with
  | symbol s => rfl
  | decimal q => rfl
  | list es ih =>
    rw [SExpr.tokens, List.cons_append, List.append_assoc, build, build_tokensList es ih,
      List.append_nil, List.singleton_append, build, List.reverse_reverse]

theorem build_all (es : List SExpr) : build (tokensList es) [[]] = some es := by
  have h := build_tokensList es (fun e _ => build_tokens e) [] [] []
  rw [List.append_nil, List.append_nil] at h
  rw [h, build, List.reverse_reverse]

/-! ## Characters -/

theorem isBlank_of_isAtomChar {c : Char} (h : isAtomChar c = true) : Reader.isBlank c = false := by
  by_contra hblank
  simp only [Reader.isBlank, Bool.not_eq_false, Bool.or_eq_true, beq_iff_eq] at hblank
  rcases hblank with ((rfl | rfl) | rfl) | rfl <;> exact absurd h (by decide)

theorem ne_of_isAtomChar {c d : Char} (h : isAtomChar c = true) (hd : isAtomChar d = false) :
    c ≠ d := by
  rintro rfl
  rw [hd] at h
  cases h

/-- The text does not go on with a character of a name. -/
def Stops (rest : List Char) : Prop := ∀ c ∈ rest.head?, isAtomChar c = false

theorem stops_cons {c : Char} (h : isAtomChar c = false) (rest : List Char) :
    Stops (c :: rest) := by
  rintro d hd
  cases hd
  exact h

theorem dropWhile_of_stops {rest : List Char} (h : Stops rest) :
    rest.takeWhile isAtomChar = [] ∧ rest.dropWhile isAtomChar = rest := by
  cases rest with
  | nil => exact ⟨rfl, rfl⟩
  | cons c rest =>
    have hc := h c rfl
    exact ⟨List.takeWhile_cons_of_neg (by simp [hc]), List.dropWhile_cons_of_neg (by simp [hc])⟩

theorem tokenize_blank {c : Char} (hc : Reader.isBlank c = true) (rest : List Char) :
    tokenize (c :: rest) = tokenize rest := by
  rw [tokenize, if_pos hc]

theorem tokenize_opening (rest : List Char) :
    tokenize ('(' :: rest) = (tokenize rest).map (.opening :: ·) := by
  rw [tokenize, if_neg (by decide), if_pos rfl]

theorem tokenize_closing (rest : List Char) :
    tokenize (')' :: rest) = (tokenize rest).map (.closing :: ·) := by
  rw [tokenize, if_neg (by decide), if_neg (by decide), if_pos rfl]

theorem tokenize_quoted {cs : List Char} (hbar : '|' ∉ cs) (hslash : '\\' ∉ cs) (rest : List Char) :
    tokenize ('|' :: (cs ++ '|' :: rest)) =
      (tokenize rest).map (.symbol (String.ofList cs) :: ·) := by
  have hcs : ∀ c ∈ cs, (c != '|') = true := fun c hc => bne_iff_ne.2 fun h => hbar (h ▸ hc)
  have htake : (cs ++ '|' :: rest).takeWhile (· != '|') = cs := by
    rw [List.takeWhile_append_of_pos hcs, List.takeWhile_cons_of_neg (by simp), List.append_nil]
  have hdrop : (cs ++ '|' :: rest).dropWhile (· != '|') = '|' :: rest := by
    rw [List.dropWhile_append_of_pos hcs, List.dropWhile_cons_of_neg (by simp)]
  rw [tokenize, if_neg (by decide), if_neg (by decide), if_neg (by decide), if_pos rfl, htake,
    hdrop, if_neg (by simp [hslash])]
  rfl

theorem tokenize_atom {c : Char} {cs : List Char} (hc : isAtomChar c = true)
    (hcs : ∀ d ∈ cs, isAtomChar d = true) {token : Token}
    (htoken : Token.ofAtom? (c :: cs) = some token) {rest : List Char} (hrest : Stops rest) :
    tokenize (c :: cs ++ rest) = (tokenize rest).map (token :: ·) := by
  obtain ⟨hnone, hall⟩ := dropWhile_of_stops hrest
  have htake : (cs ++ rest).takeWhile isAtomChar = cs := by
    rw [List.takeWhile_append_of_pos hcs, hnone, List.append_nil]
  have hdrop : (cs ++ rest).dropWhile isAtomChar = rest := by
    rw [List.dropWhile_append_of_pos hcs, hall]
  rw [List.cons_append, tokenize, if_neg (by simp [isBlank_of_isAtomChar hc]),
    if_neg (ne_of_isAtomChar hc (by decide)), if_neg (ne_of_isAtomChar hc (by decide)),
    if_neg (ne_of_isAtomChar hc (by decide)), if_pos hc, htake, hdrop, htoken]
  rfl

/-! ## Spelling -/

/-- The characters are read as the expression, if what follows does not go on with a name. -/
def Spells (cs : List Char) (e : SExpr) : Prop :=
  ∀ rest, Stops rest → tokenize (cs ++ rest) = (tokenize rest).map (e.tokens ++ ·)

/-- A name without bars. -/
theorem spells_name {c : Char} {cs : List Char} (hc : isAtomChar c = true)
    (hdigit : c.isDigit = false) (hcs : ∀ d ∈ cs, isAtomChar d = true) :
    Spells (c :: cs) (.symbol (String.ofList (c :: cs))) :=
  fun _ hrest => tokenize_atom hc hcs (if_neg (by simp [hdigit])) hrest

/-- A name with bars. -/
theorem spells_quoted {cs : List Char} (hbar : '|' ∉ cs) (hslash : '\\' ∉ cs) :
    Spells ('|' :: (cs ++ ['|'])) (.symbol (String.ofList cs)) := by
  intro rest _
  rw [List.cons_append, List.append_assoc, List.singleton_append, tokenize_quoted hbar hslash]
  rfl

theorem stops_args (args : List (List Char)) (rest : List Char) :
    Stops (args.flatMap (' ' :: ·) ++ ')' :: rest) := by
  cases args with
  | nil => exact stops_cons (by decide) _
  | cons arg args => exact stops_cons (by decide) _

theorem tokenize_args {args : List (List Char)} {es : List SExpr} (h : List.Forall₂ Spells args es)
    (rest : List Char) :
    tokenize (args.flatMap (' ' :: ·) ++ ')' :: rest) =
      (tokenize rest).map (tokensList es ++ .closing :: ·) := by
  induction h with
  | nil => exact tokenize_closing rest
  | cons he _ ih =>
    rw [List.flatMap_cons, List.cons_append, List.cons_append, tokenize_blank rfl,
      List.append_assoc, he _ (stops_args _ rest), ih, Option.map_map, tokensList]
    simp [Function.comp_def]

/-- An operator and its operands, with blanks between them. -/
theorem Spells.list {op : List Char} {e : SExpr} (hop : Spells op e) {args : List (List Char)}
    {es : List SExpr} (hargs : List.Forall₂ Spells args es) :
    Spells ('(' :: (op ++ args.flatMap (' ' :: ·) ++ [')'])) (.list (e :: es)) := by
  intro rest _
  rw [List.cons_append, tokenize_opening, List.append_assoc, List.append_assoc,
    List.singleton_append, hop _ (stops_args args rest), tokenize_args hargs, Option.map_map,
    Option.map_map]
  simp [Function.comp_def, tokens, tokensList]

/-! ## Symbols and numbers -/

/-- The name needs no bars. -/
def isWord (name : String) : Bool :=
  !name.toList.isEmpty && !name.toList.head?.any Char.isDigit && name.toList.all isAtomChar

theorem spells_word {name : String} (h : isWord name = true) :
    Spells name.toList (.symbol name) := by
  unfold isWord at h
  cases hcs : name.toList with
  | nil => simp [hcs] at h
  | cons c cs =>
    simp only [hcs, List.isEmpty_cons, Bool.not_false, Bool.true_and, Bool.and_eq_true,
      Bool.not_eq_true', List.all_eq_true] at h
    obtain ⟨hc, hrest⟩ := List.forall_mem_cons.1 h.2
    have hspells := spells_name hc h.1 hrest
    rwa [← hcs, String.ofList_toList, hcs] at hspells

theorem isAtomChar_of_simple {c : Char} (h : (c.isAlphanum || c == '_') = true) :
    isAtomChar c = true := by
  rcases Bool.or_eq_true_iff.1 h with h | h
  · rw [isAtomChar, h, Bool.true_or]
  · rw [beq_iff_eq.1 h]
    decide

/-- Without bars of its own, a name is kept as it is. -/
theorem Symbol.name_ofName {x : String} (hbar : '|' ∉ x.toList) (isLength : Bool) :
    (ofName x isLength).name = if isSimple x then x else "|" ++ x ++ "|" := by
  have hmap : (x.toList.map fun c => if c = '|' then '_' else c) = x.toList :=
    (List.map_congr_left fun c hc => if_neg (ne_of_mem_of_not_mem hc hbar)).trans (List.map_id _)
  rw [ofName, hmap, String.ofList_toList]

/-- A symbol is read as the name it was made from. -/
theorem Symbol.spells_ofName {x : String} (hne : x.toList ≠ []) (hbar : '|' ∉ x.toList)
    (hslash : '\\' ∉ x.toList) (isLength : Bool) :
    Spells (ofName x isLength).name.toList (.symbol x) := by
  rw [name_ofName hbar]
  split
  · rename_i hsimple
    obtain ⟨hall, hdigit⟩ := Bool.and_eq_true_iff.1 hsimple
    have hatoms : x.toList.all isAtomChar = true :=
      List.all_eq_true.2 fun c hc => isAtomChar_of_simple (List.all_eq_true.1 hall c hc)
    refine spells_word ?_
    rw [isWord, hdigit, hatoms]
    simpa using hne
  · have h := spells_quoted hbar hslash
    rw [String.ofList_toList] at h
    simpa using h

/-- Digits with one place, which is a zero. -/
theorem decimal?_whole (n : Nat) : decimal? (Nat.toDigits 10 n ++ ['.', '0']) = some (n : ℚ) := by
  have hdigits := Fraction.digits_toDigits n
  have htake : (Nat.toDigits 10 n ++ ['.', '0']).takeWhile Char.isDigit = Nat.toDigits 10 n := by
    rw [List.takeWhile_append_of_pos hdigits]
    exact List.append_nil _
  have hdrop : (Nat.toDigits 10 n ++ ['.', '0']).dropWhile Char.isDigit = ['.', '0'] := by
    rw [List.dropWhile_append_of_pos hdigits]
    rfl
  have hvalue : Fraction.digitsValue (Nat.toDigits 10 n ++ ['0']) = 10 * n := by
    rw [Fraction.digitsValue_append, Fraction.digitsValue_toDigits]
    rfl
  unfold decimal?
  rw [hdrop]
  simp [htake, hvalue]

theorem spells_decimal (n : Nat) : Spells (toString n ++ ".0").toList (.decimal n) := by
  intro rest hrest
  have htext : (toString n ++ ".0").toList = Nat.toDigits 10 n ++ ['.', '0'] := by
    rw [String.toList_append, Nat.toString_eq_ofList_toDigits, String.toList_ofList]
    rfl
  have hchar : ∀ c : Char, c.isDigit = true → isAtomChar c = true := by
    intro c hc
    simp [isAtomChar, Char.isAlphanum, hc]
  obtain ⟨d, ds, hds⟩ := List.exists_cons_of_ne_nil (Nat.toDigits_ne_nil (b := 10) (n := n))
  have hdigits := Fraction.digits_toDigits n
  have hwhole := decimal?_whole n
  rw [hds, List.cons_append] at hwhole
  rw [hds] at hdigits
  obtain ⟨hd, hrestDigits⟩ := List.forall_mem_cons.1 hdigits
  rw [htext, hds]
  have hall : ∀ c ∈ ds ++ ['.', '0'], isAtomChar c = true :=
    List.forall_mem_append.2 ⟨fun c hc => hchar c (hrestDigits c hc), by simp [isAtomChar]⟩
  refine tokenize_atom (hchar d hd) hall ?_ hrest
  refine (if_pos (by simp [hd])).trans ?_
  exact congrArg (Option.map Token.decimal) hwhole

/-! ## Terms and formulas -/

/-- The name that a symbol is read as: bars do not belong to it. -/
def Symbol.content (s : Symbol) : String := String.ofList (s.name.toList.filter (· != '|'))

theorem Symbol.content_ofName {x : String} (hbar : '|' ∉ x.toList) (isLength : Bool) :
    (ofName x isLength).content = x := by
  have hfilter : x.toList.filter (· != '|') = x.toList :=
    List.filter_eq_self.2 fun c hc => bne_iff_ne.2 (ne_of_mem_of_not_mem hc hbar)
  rw [content, name_ofName hbar]
  split
  · rw [hfilter, String.ofList_toList]
  · simp [hfilter]

/-- The symbol is read as its name. -/
def Symbol.Legible (s : Symbol) : Prop := Spells s.name.toList (.symbol s.content)

/-- The expression that a number is written as. -/
def literalSExpr (q : Fraction) : SExpr :=
  let body :=
    if q.isInteger then .decimal q.num.natAbs
    else .list [.symbol "/", .decimal q.num.natAbs, .decimal q.den]
  if q.isNegative then .list [.symbol "-", body] else body

/-- The expression that a term is written as. -/
def Term.sexpr : Term → SExpr
  | .literal q => literalSExpr q
  | .symbol s => .symbol s.content
  | .neg t => .list [.symbol "-", t.sexpr]
  | .app o l r => .list [.symbol o.symbol, l.sexpr, r.sexpr]
  | .power t n =>
    if n = 0 then .decimal 1
    else if n = 1 then t.sexpr
    else .list (.symbol "*" :: List.replicate n t.sexpr)

/-- The expression that a formula is written as. -/
def Formula.sexpr : Formula → SExpr
  | .bool b => .symbol (if b then "true" else "false")
  | .compare o l r => .list [.symbol (relation o), l.sexpr, r.sexpr]
  | .and l r => .list [.symbol "and", l.sexpr, r.sexpr]
  | .or l r => .list [.symbol "or", l.sexpr, r.sexpr]
  | .not f => .list [.symbol "not", f.sexpr]

section Operands

variable {f : String} {a b : String} {d e : SExpr}

theorem spells_unary (hf : Spells f.toList (.symbol f)) (ha : Spells a.toList d) :
    Spells ("(" ++ f ++ " " ++ a ++ ")").toList (.list [.symbol f, d]) := by
  have h := hf.list (.cons ha .nil)
  simpa using h

theorem spells_binary (hf : Spells f.toList (.symbol f)) (ha : Spells a.toList d)
    (hb : Spells b.toList e) :
    Spells ("(" ++ f ++ " " ++ a ++ " " ++ b ++ ")").toList (.list [.symbol f, d, e]) := by
  have h := hf.list (.cons ha (.cons hb .nil))
  simpa using h

end Operands

theorem blank_intercalate {css : List (List Char)} (h : css ≠ []) :
    ' ' :: List.intercalate [' '] css = css.flatMap (' ' :: ·) := by
  obtain ⟨cs, css, rfl⟩ := List.exists_cons_of_ne_nil h
  clear h
  induction css generalizing cs with
  | nil => simp
  | cons ds css ih =>
    rw [List.intercalate_cons_cons, List.flatMap_cons, ← ih, List.append_assoc]
    rfl

theorem spells_literal (q : Fraction) : Spells (literalText q).toList (literalSExpr q) := by
  have hbody : Spells (if q.isInteger then toString q.num.natAbs ++ ".0"
        else "(/ " ++ toString q.num.natAbs ++ ".0 " ++ toString q.den ++ ".0)").toList
      (if q.isInteger then .decimal q.num.natAbs
        else .list [.symbol "/", .decimal q.num.natAbs, .decimal q.den]) := by
    split
    · exact spells_decimal _
    · have h := spells_binary (f := "/") (spells_word (by decide))
        (spells_decimal q.num.natAbs) (spells_decimal q.den)
      simpa using h
  unfold literalText literalSExpr
  dsimp only
  split
  · have h := spells_unary (f := "-") (spells_word (by decide)) hbody
    simpa using h
  · exact hbody

theorem Op.spells_symbol (o : Op) : Spells o.symbol.toList (.symbol o.symbol) := by
  cases o <;> exact spells_word (by decide)

theorem Formula.spells_relation (o : CompareOp) :
    Spells (relation o).toList (.symbol (relation o)) := by
  cases o <;> exact spells_word (by decide)

/-- A term is read as its expression. -/
theorem Term.spells_text {t : Term} (h : ∀ s ∈ t.symbols, s.Legible) :
    Spells t.text.toList t.sexpr := by
  induction t with
  | literal q => exact spells_literal q
  | symbol s => exact h s (List.mem_singleton_self s)
  | neg t ih =>
    have h := spells_unary (Op.spells_symbol .sub) (ih h)
    simpa [text, sexpr, Op.symbol] using h
  | app o l r ihl ihr =>
    obtain ⟨hl, hr⟩ := List.forall_mem_append.1 h
    exact spells_binary o.spells_symbol (ihl hl) (ihr hr)
  | power t n ih =>
    unfold text sexpr
    split
    · exact spells_decimal 1
    split
    · exact ih h
    rename_i hzero _
    have hargs : List.Forall₂ Spells (List.replicate n t.text.toList)
        (List.replicate n t.sexpr) :=
      List.forall₂_iff_zip.2 ⟨by simp, fun hmem => by
        simp only [List.zip_replicate, Nat.min_self, List.mem_replicate, Prod.mk.injEq] at hmem
        obtain ⟨-, rfl, rfl⟩ := hmem
        exact ih h⟩
    have happ := (Op.spells_symbol .mul).list hargs
    rw [← blank_intercalate (by simp [hzero])] at happ
    simpa [Op.symbol, String.toList_intercalate] using happ

/-- A formula is read as its expression. -/
theorem Formula.spells_text {f : Formula} (h : ∀ s ∈ f.symbols, s.Legible) :
    Spells f.text.toList f.sexpr := by
  induction f with
  | bool b => cases b <;> exact spells_word (by decide)
  | compare o l r =>
    obtain ⟨hl, hr⟩ := List.forall_mem_append.1 h
    exact spells_binary (spells_relation o) (Term.spells_text hl) (Term.spells_text hr)
  | and l r ihl ihr =>
    obtain ⟨hl, hr⟩ := List.forall_mem_append.1 h
    have h := spells_binary (f := "and") (spells_word (by decide)) (ihl hl) (ihr hr)
    simpa [text, sexpr] using h
  | or l r ihl ihr =>
    obtain ⟨hl, hr⟩ := List.forall_mem_append.1 h
    have h := spells_binary (f := "or") (spells_word (by decide)) (ihl hl) (ihr hr)
    simpa [text, sexpr] using h
  | not f ih =>
    have h := spells_unary (f := "not") (spells_word (by decide)) (ih h)
    simpa [text, sexpr] using h

/-! ## Scripts -/

/-- The expression that a command is written as. -/
def Command.sexpr : Command → SExpr
  | .declare name => .list [.symbol "declare-const", .symbol name, .symbol "Real"]
  | .assert formula => .list [.symbol "assert", formula]
  | .checkSat => .list [.symbol "check-sat"]

theorem Command.ofSExpr?_sexpr (c : Command) : ofSExpr? c.sexpr = some c := by
  cases c <;> simp [sexpr, ofSExpr?]

/-- The text is read as the commands, whatever follows. -/
def Reads (text : String) (script : List Command) : Prop :=
  ∀ rest, tokenize (text.toList ++ rest) =
    (tokenize rest).map (tokensList (script.map Command.sexpr) ++ ·)

theorem Reads.append {s t : String} {script script' : List Command} (hs : Reads s script)
    (ht : Reads t script') : Reads (s ++ t) (script ++ script') := by
  intro rest
  rw [String.toList_append, List.append_assoc, hs, ht, Option.map_map, List.map_append,
    tokensList_append]
  simp [Function.comp_def]

theorem reads_empty : Reads "" [] := fun rest => by simp [tokensList]

theorem reads_join {α : Type} {as : List α} {line : α → String} {commands : α → List Command}
    (h : ∀ a ∈ as, Reads (line a) (commands a)) :
    Reads (String.join (as.map line)) (as.flatMap commands) := by
  induction as with
  | nil => exact reads_empty
  | cons a as ih =>
    obtain ⟨ha, has⟩ := List.forall_mem_cons.1 h
    rw [List.map_cons, String.join_cons, List.flatMap_cons]
    exact ha.append (ih has)

/-- A command on a line of its own. -/
theorem reads_line {line : String} {cs : List Char} {c : Command} (h : Spells cs c.sexpr)
    (hline : line.toList = cs ++ ['\n']) : Reads line [c] := by
  intro rest
  rw [hline, List.append_assoc, List.singleton_append, h _ (stops_cons (by decide) rest),
    tokenize_blank (by decide)]
  simp [tokensList]

theorem script?_of_reads {text : String} {script : List Command} (h : Reads text script) :
    script? text = some script := by
  have htokens : tokenize text.toList = some (tokensList (script.map Command.sexpr)) := by
    simpa [tokenize] using h []
  unfold script?
  rw [htokens, Option.bind_eq_bind, Option.bind_some, build_all, Option.bind_eq_bind,
    Option.bind_some, mapM_eq_some, List.forall₂_map_left_iff, List.forall₂_same]
  exact fun c _ => c.ofSExpr?_sexpr

/-! ## Queries -/

theorem spells_assert {text : String} {f : SExpr} (h : Spells text.toList f) :
    Spells ("(assert " ++ text ++ ")").toList (Command.assert f).sexpr := by
  have h := spells_unary (f := "assert") (spells_word (by decide)) h
  simpa [Command.sexpr] using h

namespace Query

/-- The commands that declare a constant; a length is not negative. -/
def declare (s : Symbol) : List Command :=
  .declare s.content ::
    if s.isLength then [.assert (.list [.symbol ">=", .symbol s.content, .decimal 0])] else []

/-- What comes before the assumptions. -/
def header (q : Query) : List Command := q.symbols.flatMap declare

/-- The assumptions, the negated goal and the question. -/
def body (q : Query) : List Command :=
  (q.assumptions.map fun a => Command.assert a.sexpr) ++
    [Command.assert q.goal.not.sexpr, Command.checkSat]

theorem reads_declaration {s : Symbol} (h : s.Legible) : Reads (declaration s) (declare s) := by
  have hdeclare : Reads ("(declare-const " ++ s.name ++ " Real)\n") [.declare s.content] := by
    refine reads_line (spells_binary (f := "declare-const") (b := "Real") ?_ h ?_) (by simp)
    · exact spells_word (by decide)
    · exact spells_word (by decide)
  have hbound : Reads (if s.isLength then "(assert (>= " ++ s.name ++ " 0.0))\n" else "")
      (if s.isLength then [.assert (.list [.symbol ">=", .symbol s.content, .decimal 0])]
        else []) := by
    split
    · have hzero : Spells "0.0".toList (.decimal 0) := by exact_mod_cast spells_decimal 0
      refine reads_line (spells_assert (spells_binary (f := ">=") ?_ h hzero)) (by simp)
      exact spells_word (by decide)
    · exact reads_empty
  exact hdeclare.append hbound

/-- The text of a query is read as its script. -/
theorem script?_text {q : Query} (hsymbols : ∀ s ∈ q.symbols, s.Legible)
    (hassumptions : ∀ a ∈ q.assumptions, ∀ s ∈ a.symbols, s.Legible)
    (hgoal : ∀ s ∈ q.goal.symbols, s.Legible) :
    script? q.text = some (q.header ++ q.body) := by
  have hheader : Reads (String.join (q.symbols.map declaration)) q.header :=
    reads_join fun s hs => reads_declaration (hsymbols s hs)
  have hassume : Reads (String.join (q.assumptions.map fun a => "(assert " ++ a.text ++ ")\n"))
      (q.assumptions.map fun a => .assert a.sexpr) := by
    rw [List.map_eq_flatMap (f := fun a => Command.assert (Formula.sexpr a))]
    refine reads_join fun a ha => ?_
    exact reads_line (spells_assert (Formula.spells_text (hassumptions a ha))) (by simp)
  have hnegated : Reads ("(assert (not " ++ q.goal.text ++ "))\n")
      [.assert q.goal.not.sexpr] :=
    reads_line (spells_assert (Formula.spells_text (f := q.goal.not) hgoal))
      (by simp [Formula.text])
  have hcheck : Reads "(check-sat)\n" [.checkSat] := by
    have hword : Spells "check-sat".toList (.symbol "check-sat") := spells_word (by decide)
    exact reads_line (hword.list .nil) (by simp)
  have hend : q.text = String.join (q.symbols.map declaration) ++
      (String.join (q.assumptions.map fun a => "(assert " ++ a.text ++ ")\n") ++
        ("(assert (not " ++ q.goal.text ++ "))\n" ++ "(check-sat)\n")) := by
    refine String.toList_injective ?_
    simp [text]
  rw [hend]
  exact script?_of_reads (hheader.append (hassume.append (hnegated.append hcheck)))

end Query

end Discharge.Smt
