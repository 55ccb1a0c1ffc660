import Discharge.Proofs.Expr.Lexemes

/-!
# Readers of lexemes

A reader is lexical when the first lexeme of a text decides what it makes of the text: it takes the
lexeme as a whole, or misses, or stops (`Verdict`). The readers of names, numbers, texts and
operators are lexical. A few readers are not, since they take a character off a longer operator or
digits off a longer number; only brands use these.
-/

namespace Discharge.Expr

open Reader
open Fraction (Digits pointed)

variable {α : Type} {c d e : Char} {cs t w rest : List Char} {T T' : List Char → Prop}
  {r s : Reader α}

/-- What a reader makes of the texts that start with the lexeme `t`. Lexemes that it takes are
in `T`. -/
inductive Verdict (T : List Char → Prop) (r : Reader α) (t : List Char) : Prop
  | ok (a : α) (h : ∀ rest, Heads t rest → T t ∧ r (t ++ rest) = .ok a rest)
  | miss (h : ∀ rest, Heads t rest → ∃ p, r (t ++ rest) = .miss p)
  | stop (h : ∀ rest, Heads t rest → ∃ p fault, r (t ++ rest) = .stop p fault)

/-- The first lexeme of a text decides what the reader makes of the text. -/
structure Lexical (T : List Char → Prop) (r : Reader α) : Prop where
  nil : ∃ p, r [] = .miss p
  verdict : ∀ c w, Verdict T r (c :: w)

/-- The text starts with a character of a class. -/
def StartsWith (p : Char → Bool) (t : List Char) : Prop := ∃ c w, t = c :: w ∧ p c = true

namespace Lexical

theorem mono (h : Lexical T r) (hT : ∀ t, T t → T' t) : Lexical T' r where
  nil := h.nil
  verdict c w := by
    cases h.verdict c w with
    | ok a h => exact .ok a fun rest hrest => ⟨hT _ (h rest hrest).1, (h rest hrest).2⟩
    | miss h => exact .miss h
    | stop h => exact .stop h

theorem orElse (hr : Lexical T r) (hs : Lexical T s) : Lexical T (orElse r s) where
  nil := by
    obtain ⟨p, hp⟩ := hr.nil
    obtain ⟨q, hq⟩ := hs.nil
    exact ⟨q, (orElse_miss hp).trans hq⟩
  verdict c w := by
    cases hr.verdict c w with
    | ok a h => exact .ok a fun rest hrest => ⟨(h rest hrest).1, orElse_ok (h rest hrest).2⟩
    | stop h =>
      refine .stop fun rest hrest => ?_
      obtain ⟨p, fault, hp⟩ := h rest hrest
      exact ⟨p, fault, by simp only [Reader.orElse, hp]⟩
    | miss hmiss =>
      have heq : ∀ rest, Heads (c :: w) rest →
          Reader.orElse r s (c :: w ++ rest) = s (c :: w ++ rest) := fun rest hrest => by
        obtain ⟨p, hp⟩ := hmiss rest hrest
        exact orElse_miss hp
      cases hs.verdict c w with
      | ok a h =>
        exact .ok a fun rest hrest => ⟨(h rest hrest).1, (heq rest hrest).trans (h rest hrest).2⟩
      | miss h => exact .miss fun rest hrest => heq rest hrest ▸ h rest hrest
      | stop h => exact .stop fun rest hrest => heq rest hrest ▸ h rest hrest

theorem map {β : Type} (hr : Lexical T r) (f : α → β) :
    Lexical T (do let a ← r; return f a : Reader β) where
  nil := by
    obtain ⟨p, hp⟩ := hr.nil
    exact ⟨p, bind_miss hp⟩
  verdict c w := by
    cases hr.verdict c w with
    | ok a h => exact .ok (f a) fun rest hrest => ⟨(h rest hrest).1, bind_ok (h rest hrest).2⟩
    | miss h =>
      refine .miss fun rest hrest => ?_
      obtain ⟨p, hp⟩ := h rest hrest
      exact ⟨p, bind_miss hp⟩
    | stop h =>
      refine .stop fun rest hrest => ?_
      obtain ⟨p, fault, hp⟩ := h rest hrest
      exact ⟨p, fault, by simp only [Bind.bind, hp]⟩

end Lexical

/-! ## Names -/

/-- Where a run of characters of a class ends, the class does. -/
theorem of_takeWhile_append_eq {p : Char → Bool} (h : (w ++ rest).takeWhile p = w) :
    (∀ d ∈ w, p d = true) ∧ ∀ d ds, rest = d :: ds → p d = false := by
  have hw : ∀ d ∈ w, p d = true := fun d hd => List.mem_takeWhile_imp (h.symm ▸ hd)
  refine ⟨hw, fun d ds hrest => ?_⟩
  rw [List.takeWhile_append_of_pos hw, hrest] at h
  cases hd : p d with
  | false => rfl
  | true => simp [hd] at h

theorem Heads.name (h : Heads (c :: w) rest) (hc : isNameStart c = true) :
    (∀ d ∈ w, isNamePart d = true) ∧ ∀ d ds, rest = d :: ds → isNamePart d = false := by
  cases h with
  | intro _ h =>
    rw [lexeme, if_pos hc] at h
    exact of_takeWhile_append_eq (List.cons.inj h).2

theorem lexical_nameReader : Lexical (StartsWith isNameStart) nameReader where
  nil := ⟨[], rfl⟩
  verdict c w := by
    cases hc : isNameStart c with
    | false => exact .miss fun rest _ => ⟨_, nameReader_miss hc _⟩
    | true =>
      refine .ok (String.ofList (c :: w)) fun rest h => ⟨⟨c, w, rfl, hc⟩, ?_⟩
      obtain ⟨hw, hrest⟩ := h.name hc
      exact (bind_ok (satisfy_cons hc _)).trans (bind_ok (run_append hw hrest))

theorem lexical_wordReader : Lexical (StartsWith isNameStart) wordReader :=
  lexical_nameReader.map _

/-! ## Numbers -/

theorem isNameStart_of_isNamePart (hc : isNamePart c = true) (hdigit : c.isDigit = false) :
    isNameStart c = true := by
  simpa [isNamePart, isNameStart, Char.isAlphanum, hdigit] using hc

theorem decimals_cases (cs : List Char) :
    (decimals cs = [] ∧ ∀ d ds, cs = '.' :: d :: ds → d.isDigit = false) ∨
      ∃ d ds, cs = '.' :: d :: ds ∧ d.isDigit = true ∧
        decimals cs = '.' :: d :: ds.takeWhile isNamePart := by
  by_cases h : ∃ d ds, cs = '.' :: d :: ds
  · obtain ⟨d, ds, rfl⟩ := h
    cases hd : d.isDigit with
    | true => exact .inr ⟨d, ds, rfl, hd, by simp [decimals, hd]⟩
    | false =>
      refine .inl ⟨by simp [decimals, hd], fun d' ds' heq => ?_⟩
      cases heq
      exact hd
  · refine .inl ⟨?_, fun d ds heq => absurd ⟨d, ds, heq⟩ h⟩
    unfold decimals
    split
    · rename_i d ds
      exact absurd ⟨d, ds, rfl⟩ h
    · rfl

/-- A lexeme that starts with a digit has only characters of names, before and after its point if
it has one. -/
theorem Heads.number (h : Heads (c :: w) rest) (hc : c.isDigit = true) :
    (∀ d ds, rest = d :: ds → isNamePart d = false) ∧
      (((∀ d ∈ w, isNamePart d = true) ∧ ∀ d ds, rest = '.' :: d :: ds → d.isDigit = false) ∨
        ∃ n d q, w = n ++ '.' :: d :: q ∧ (∀ e ∈ n, isNamePart e = true) ∧ d.isDigit = true ∧
          ∀ e ∈ q, isNamePart e = true) := by
  cases h with
  | intro _ h =>
    rw [lexeme, if_neg (by simp [not_isNameStart_of_isDigit hc]), if_pos hc] at h
    have hw := (List.cons.inj h).2
    have hsplit :
        (w ++ rest).takeWhile isNamePart ++ (w ++ rest).dropWhile isNamePart = w ++ rest :=
      List.takeWhile_append_dropWhile
    generalize hfront : (w ++ rest).takeWhile isNamePart = front at hw hsplit
    generalize (w ++ rest).dropWhile isNamePart = after at hw hsplit
    rcases decimals_cases after with ⟨hnone, hplace⟩ | ⟨d, ds, rfl, hd, hsome⟩
    · rw [hnone, List.append_nil] at hw
      rw [hw] at hsplit
      obtain rfl := List.append_cancel_left hsplit
      obtain ⟨hparts, hrest⟩ := of_takeWhile_append_eq (hfront.trans hw)
      exact ⟨hrest, .inl ⟨hparts, hplace⟩⟩
    · rw [hsome] at hw
      have hds : ds = ds.takeWhile isNamePart ++ rest := by
        rw [← hw, List.append_assoc] at hsplit
        simpa using List.append_cancel_left hsplit
      obtain ⟨hparts, hrest⟩ := of_takeWhile_append_eq (congrArg (·.takeWhile isNamePart) hds).symm
      exact ⟨hrest, .inr ⟨front, d, _, hw.symm,
        fun e he => List.mem_takeWhile_imp (hfront.symm ▸ he), hd, hparts⟩⟩

/-- Characters of names are digits, or digits and then a letter. -/
theorem digits_or_name (h : ∀ e ∈ cs, isNamePart e = true) :
    Digits cs ∨ ∃ ds e v, cs = ds ++ e :: v ∧ Digits ds ∧ isNameStart e = true := by
  induction cs with
  | nil => exact .inl (List.forall_mem_nil _)
  | cons c cs ih =>
    obtain ⟨hc, hcs⟩ := List.forall_mem_cons.1 h
    cases hdigit : c.isDigit with
    | false =>
      exact .inr ⟨[], c, cs, rfl, List.forall_mem_nil _, isNameStart_of_isNamePart hc hdigit⟩
    | true =>
      rcases ih hcs with hds | ⟨ds, e, v, rfl, hds, he⟩
      · exact .inl (List.forall_mem_cons.2 ⟨hdigit, hds⟩)
      · exact .inr ⟨c :: ds, e, v, rfl, List.forall_mem_cons.2 ⟨hdigit, hds⟩, he⟩

/-- No number is read from digits that a letter follows. -/
theorem numberReader_name {whole : List Char} (places : List Char) (hne : whole ≠ [])
    (hwhole : Digits whole) (hplaces : Digits places) (he : isNameStart e = true)
    (rest : List Char) :
    ∃ p, numberReader (whole ++ (pointed places ++ e :: rest)) = .miss p := by
  refine ⟨e :: rest, (numberReader_eq hne hwhole hplaces ?_ ?_).trans (bind_miss ?_)⟩
  · intro c ds h
    cases h
    exact isDigit_of_isNameStart he
  · intro _ c ds h
    cases h
    cases he
  · exact if_pos he

/-- The lexeme is a number. -/
def IsNumeral (t : List Char) : Prop :=
  ∃ whole places, t = whole ++ pointed places ∧ whole ≠ [] ∧ Digits whole ∧ Digits places

theorem pointed_ne_nil {places : List Char} (h : places ≠ []) : pointed places = '.' :: places :=
  if_neg h

theorem numberReader_numeral {whole places : List Char} (hne : whole ≠ []) (hwhole : Digits whole)
    (hplaces : Digits places) (h : Heads (whole ++ pointed places) rest) :
    numberReader (whole ++ pointed places ++ rest) =
      match Fraction.ofDecimalChars? (whole ++ pointed places) with
      | some q => .ok (.num q) rest
      | none => .stop (whole ++ (pointed places ++ rest)) .outOfRange := by
  obtain ⟨c, v, rfl⟩ := List.exists_cons_of_ne_nil hne
  obtain ⟨hrest, hcases⟩ := Heads.number h (hwhole c List.mem_cons_self)
  have hend : notNext isNameStart rest = .ok () rest := notNext_ok fun d ds hds =>
    not_isNameStart_of_not_isNamePart (hrest d ds hds)
  rw [List.append_assoc]
  refine (numberReader_eq hne hwhole hplaces
    (fun d ds hds => not_isDigit_of_not_isNamePart (hrest d ds hds)) ?_).trans ?_
  · rintro rfl
    rcases hcases with ⟨-, hplace⟩ | ⟨n, d, q, hv, -⟩
    · exact hplace
    · -- The digits have no point in them.
      have hpoint : '.' ∈ v := by
        have hv : v = n ++ '.' :: d :: q := by simpa [pointed] using hv
        simp [hv]
      cases hwhole '.' (List.mem_cons_of_mem c hpoint)
  · refine (bind_ok hend).trans ?_
    cases Fraction.ofDecimalChars? (c :: v ++ pointed places) <;> rfl

theorem numberReader_not_numeral (hc : c.isDigit = true) (hnot : ¬ IsNumeral (c :: w))
    (h : Heads (c :: w) rest) : ∃ p, numberReader (c :: w ++ rest) = .miss p := by
  have hdigit : ∀ {ds}, Digits ds → Digits (c :: ds) := fun hds =>
    List.forall_mem_cons.2 ⟨hc, hds⟩
  -- A letter comes after the digits before the point, or after those behind it.
  rcases (h.number hc).2 with ⟨hw, -⟩ | ⟨n, d, q, rfl, hn, hd, hq⟩
  · rcases digits_or_name hw with hds | ⟨ds, e, v, rfl, hds, he⟩
    · exact absurd ⟨c :: w, [], by simp [pointed], by simp, hdigit hds, List.forall_mem_nil _⟩ hnot
    · have := numberReader_name [] (List.cons_ne_nil c ds) (hdigit hds) (List.forall_mem_nil _) he
        (v ++ rest)
      simpa [pointed] using this
  · rcases digits_or_name hn with hds | ⟨ds, e, v, rfl, hds, he⟩
    · rcases digits_or_name hq with hps | ⟨ps, e, v, rfl, hps, he⟩
      · refine absurd ⟨c :: n, d :: q, ?_, by simp, hdigit hds, ?_⟩ hnot
        · simp [pointed_ne_nil]
        · exact List.forall_mem_cons.2 ⟨hd, hps⟩
      · have := numberReader_name (d :: ps) (List.cons_ne_nil c n) (hdigit hds)
          (List.forall_mem_cons.2 ⟨hd, hps⟩) he (v ++ rest)
        simpa [pointed_ne_nil] using this
    · have := numberReader_name [] (List.cons_ne_nil c ds) (hdigit hds) (List.forall_mem_nil _) he
        (v ++ '.' :: d :: q ++ rest)
      simpa [pointed] using this

theorem lexical_numberReader : Lexical (StartsWith Char.isDigit) numberReader where
  nil := ⟨[], rfl⟩
  verdict c w := by
    cases hc : c.isDigit with
    | false => exact .miss fun rest _ => ⟨_, numberReader_miss hc _⟩
    | true =>
      by_cases hnumeral : IsNumeral (c :: w)
      · obtain ⟨whole, places, hw, hne, hwhole, hplaces⟩ := hnumeral
        rw [hw]
        cases hq : Fraction.ofDecimalChars? (whole ++ pointed places) with
        | some q =>
          refine .ok (.num q) fun rest h => ⟨hw ▸ ⟨c, w, rfl, hc⟩, ?_⟩
          rw [numberReader_numeral hne hwhole hplaces h, hq]
        | none =>
          refine .stop fun rest h => ⟨whole ++ (pointed places ++ rest), .outOfRange, ?_⟩
          rw [numberReader_numeral hne hwhole hplaces h, hq]
      · exact .miss fun rest h => numberReader_not_numeral hc hnumeral h

/-! ## Texts -/

theorem quoted_miss {quote : Char} (h : c ≠ quote) (cs : List Char) :
    quoted quote (c :: cs) = .miss (c :: cs) :=
  bind_miss (char_miss fun _ hds => h (List.cons.inj hds).1)

/-- A quote that is never closed starts no text. -/
theorem quoted_open (h : c ∉ cs) : quoted c (c :: cs) = .miss [] := by
  have hother : ∀ d ∈ cs, (d != c) = true := fun d hd => bne_iff_ne.2 fun hdc => h (hdc ▸ hd)
  have hrun : run (· != c) cs = .ok cs [] := by
    rw [run, List.takeWhile_eq_self_iff.2 hother, List.dropWhile_eq_nil_iff.2 hother]
  exact (bind_ok (char_cons c cs)).trans ((bind_ok hrun).trans (bind_miss rfl))

theorem Heads.quote (h : Heads (c :: w) rest) (hc : isQuote c = true) :
    (∃ s, w = s ++ [c] ∧ c ∉ s) ∨ (w = [] ∧ c ∉ rest) := by
  cases h with
  | intro _ h =>
    rw [lexeme_quote hc] at h
    by_cases hmem : c ∈ w ++ rest
    · rw [if_pos hmem] at h
      refine .inl ⟨_, (List.cons.inj h).2.symm, fun hin => ?_⟩
      simpa using List.mem_takeWhile_imp hin
    · rw [if_neg hmem] at h
      exact .inr ⟨(List.cons.inj h).2.symm, fun hin => hmem (List.mem_append_right w hin)⟩

theorem lexical_quoted {quote : Char} (hquote : isQuote quote = true) :
    Lexical (StartsWith isQuote) (quoted quote) where
  nil := ⟨[], rfl⟩
  verdict c w := by
    by_cases hc : c = quote
    · subst hc
      by_cases hclosed : ∃ s, w = s ++ [c] ∧ c ∉ s
      · obtain ⟨s, rfl, hs⟩ := hclosed
        refine .ok (String.ofList s) fun rest _ => ⟨⟨c, _, rfl, hquote⟩, ?_⟩
        simpa using quoted_append hs rest
      · refine .miss fun rest h => ⟨[], ?_⟩
        obtain ⟨rfl, hopen⟩ := (h.quote hquote).resolve_left hclosed
        exact quoted_open hopen
    · exact .miss fun rest _ => ⟨_, quoted_miss hc _⟩

theorem lexical_textReader : Lexical (StartsWith isQuote) textReader :=
  ((lexical_quoted rfl).orElse (lexical_quoted rfl)).map Expr.str

/-! ## Operators -/

/-- A lexeme that is the same character in every text. -/
theorem lexeme_single (hc : isMark c = true) (h : ∀ o ∈ compounds, o.head? ≠ some c)
    (cs : List Char) : lexeme c cs = [c] := by
  have hnone : compounds.find? (·.isPrefixOf (c :: cs)) = none := by
    refine List.find?_eq_none.2 fun o ho hstarts => ?_
    obtain ⟨d, o, rfl⟩ := List.exists_cons_of_ne_nil (ne_nil_of_mem_compounds ho)
    obtain ⟨rfl, -⟩ := List.cons_prefix_cons.1 (List.isPrefixOf_iff_prefix.1 hstarts)
    exact h _ ho rfl
  rw [lexeme_mark hc, hnone]
  rfl

theorem lexical_char (hc : isMark c = true) (h : ∀ o ∈ compounds, o.head? ≠ some c) :
    Lexical (· = [c]) (char c) where
  nil := ⟨[], rfl⟩
  verdict d w := by
    by_cases hd : d = c
    · subst hd
      refine .ok d fun rest hrest => ?_
      cases hrest with
      | intro _ hlexeme =>
        obtain rfl : [] = w := (List.cons.inj ((lexeme_single hc h _).symm.trans hlexeme)).2
        exact ⟨rfl, char_cons d rest⟩
    · exact .miss fun rest _ => ⟨_, char_miss fun _ hds => hd (List.cons.inj hds).1⟩

/-- A character that starts an operator. -/
def isOperatorStart (c : Char) : Bool := isMark c && c != '(' && c != ')' && c != '.'

/-- The word is a compound operator, or a single mark. -/
def IsSymbol (o : List Char) : Prop := o ∈ compounds ∨ (o.length = 1 ∧ o.all isMark = true)

instance (o : List Char) : Decidable (IsSymbol o) := inferInstanceAs (Decidable (_ ∨ _))

theorem IsSymbol.ne_nil {o : List Char} (h : IsSymbol o) : o ≠ [] := by
  rcases h with h | ⟨h, -⟩
  · exact ne_nil_of_mem_compounds h
  · rintro rfl
    cases h

theorem IsSymbol.isMark {o : List Char} (h : IsSymbol (c :: o)) : isMark c = true := by
  rcases h with h | ⟨-, h⟩
  · exact isMark_of_mem_compounds h List.mem_cons_self
  · exact List.all_eq_true.1 h c List.mem_cons_self

/-- Whether a text starts with a symbol, its first lexeme shows. -/
theorem Heads.symbol_iff (h : Heads t rest) {o : List Char} (ho : IsSymbol o) :
    o <+: t ++ rest ↔ o <+: t := by
  rcases ho with ho | ⟨ho, -⟩
  · exact h.prefix_iff ho
  · obtain ⟨c, rfl⟩ := List.length_eq_one_iff.1 ho
    cases h
    simp

theorem operator_eq (o : String) (a : α) (cs : List Char) :
    operator o a cs =
      if o.toList.isPrefixOf cs then .ok a (cs.drop o.toList.length) else .miss cs := by
  by_cases h : o.toList.isPrefixOf cs = true
  · rw [if_pos h]
    exact bind_ok (if_pos h)
  · rw [if_neg h]
    exact bind_miss (if_neg h)

theorem operator_unit (o : String) : operator o () = word o.toList :=
  funext fun cs => operator_eq o () cs

/-- The first of some operators that the text starts with is read. -/
theorem firstOf_operators (ops : List (String × α)) (cs : List Char) :
    firstOf (ops.map fun p => operator p.1 p.2) cs =
      match ops.find? fun p => p.1.toList.isPrefixOf cs with
      | some p => .ok p.2 (cs.drop p.1.toList.length)
      | none => .miss cs := by
  induction ops with
  | nil => rfl
  | cons p ops ih =>
    have hword := operator_eq p.1 p.2 cs
    have hfirst : firstOf ((p :: ops).map fun p => operator p.1 p.2) cs =
        orElse (operator p.1 p.2) (firstOf (ops.map fun p => operator p.1 p.2)) cs := by
      cases ops with
      | nil =>
        simp only [List.map_cons, List.map_nil, firstOf, orElse, hword, fail]
        split <;> rfl
      | cons q ops => rfl
    rw [hfirst, List.find?_cons]
    cases hstarts : p.1.toList.isPrefixOf cs with
    | true =>
      rw [if_pos hstarts] at hword
      exact orElse_ok hword
    | false =>
      rw [hstarts, if_neg (by simp)] at hword
      exact (orElse_miss hword).trans ih

/-- Operators are lexical, if the first of them that a compound operator starts with is all of
it. -/
theorem lexical_operators (ops : List (String × α)) (hops : ∀ p ∈ ops, IsSymbol p.1.toList)
    (hwhole : ∀ t ∈ compounds, ∀ p ∈ ops.find? fun p => p.1.toList.isPrefixOf t,
      p.1.toList = t)
    (hstart : ∀ p ∈ ops, p.1.toList.head?.any isOperatorStart = true) :
    Lexical (StartsWith isOperatorStart) (firstOf (ops.map fun p => operator p.1 p.2)) where
  nil := by
    refine ⟨[], ?_⟩
    have hnone : (ops.find? fun p => p.1.toList.isPrefixOf []) = none := by
      refine List.find?_eq_none.2 fun p hp hstarts => (hops p hp).ne_nil ?_
      exact List.prefix_nil.1 (List.isPrefixOf_iff_prefix.1 hstarts)
    rw [firstOf_operators, hnone]
  verdict c w := by
    have hfind : ∀ rest, Heads (c :: w) rest →
        (ops.find? fun p => p.1.toList.isPrefixOf (c :: w ++ rest)) =
          ops.find? fun p => p.1.toList.isPrefixOf (c :: w) := fun rest h =>
      List.find?_congr fun p hp => Bool.eq_iff_iff.2 (by
        rw [List.isPrefixOf_iff_prefix, List.isPrefixOf_iff_prefix]
        exact h.symbol_iff (hops p hp))
    cases hp : ops.find? fun p => p.1.toList.isPrefixOf (c :: w) with
    | none => exact .miss fun rest h => ⟨_, by rw [firstOf_operators, hfind rest h, hp]⟩
    | some p =>
      refine .ok p.2 fun rest h => ?_
      have hmem := List.mem_of_find?_eq_some hp
      have hstarts : p.1.toList <+: c :: w := by simpa using List.find?_some hp
      obtain ⟨d, o, hdo⟩ := List.exists_cons_of_ne_nil (hops p hmem).ne_nil
      have heq : p.1.toList = c :: w := by
        rw [hdo] at hstarts
        obtain ⟨rfl, how⟩ := List.cons_prefix_cons.1 hstarts
        rcases h.eq_or_mem (IsSymbol.isMark (hdo ▸ hops p hmem)) with rfl | hcompound
        · rw [hdo, List.prefix_nil.1 how]
        · exact hwhole _ hcompound p hp
      refine ⟨⟨c, w, rfl, by simpa [heq] using hstart p hmem⟩, ?_⟩
      rw [firstOf_operators, hfind rest h, hp]
      simp [heq]

/-- A character that a longer operator starts with is lexical if it minds what makes it longer. -/
theorem lexical_guarded {a : α} (hr : ∀ cs, r (c :: cs) = .ok a cs)
    (hmiss : ∀ cs, (∀ ds, cs ≠ c :: ds) → ∃ p, r cs = .miss p) (hc : isMark c = true)
    (hmem : [c, d] ∈ compounds) (honly : ∀ o ∈ compounds, [c] <+: o → [c, d] <+: o)
    (hstart : isOperatorStart c = true) :
    Lexical (StartsWith isOperatorStart) (do let a ← r; notNext (· == d); return a : Reader α) where
  nil := by
    obtain ⟨p, hp⟩ := hmiss [] fun ds h => List.cons_ne_nil c ds h.symm
    exact ⟨p, bind_miss hp⟩
  verdict e w := by
    by_cases he : e = c
    · subst he
      cases w with
      | nil =>
        refine .ok a fun rest h => ⟨⟨e, [], rfl, hstart⟩, ?_⟩
        refine (bind_ok (hr rest)).trans (bind_ok (notNext_ok ?_))
        rintro f fs rfl
        -- Otherwise the longer operator would be the lexeme.
        refine beq_eq_false_iff_ne.2 fun hf => ?_
        have := (h.prefix_iff hmem).1 (by simp [hf])
        simp at this
      | cons f fs =>
        refine .miss fun rest h => ?_
        have hcompound := (h.eq_or_mem hc).resolve_left (List.cons_ne_nil f fs)
        have hstarts := honly _ hcompound (by simp)
        obtain rfl : d = f := by simpa using hstarts
        exact ⟨_, (bind_ok (hr _)).trans (bind_miss (if_pos (beq_self_eq_true d)))⟩
    · refine .miss fun rest _ => ?_
      obtain ⟨p, hp⟩ := hmiss (e :: w ++ rest) fun _ hds => he (List.cons.inj hds).1
      exact ⟨p, bind_miss hp⟩

theorem lexical_productOp : Lexical (StartsWith isOperatorStart) productOp := by
  have hstar : Lexical (StartsWith isOperatorStart)
      (do let op ← operator "*" .mul; notNext (· == '*'); return op : Reader ArithOp) :=
    lexical_guarded (c := '*') (fun cs => operator_eq "*" _ _)
      (fun cs h => ⟨cs, operator_miss rfl h⟩) rfl (by decide) (by decide) rfl
  exact hstar.orElse (lexical_operators [("/", ArithOp.div), ("%", .rem)] (by decide) (by decide)
    (by decide))

theorem lexical_sumOp : Lexical (StartsWith isOperatorStart) sumOp :=
  lexical_operators [("+", ArithOp.add), ("-", .sub)] (by decide) (by decide) (by decide)

theorem lexical_relationOp : Lexical (StartsWith isOperatorStart) relationOp :=
  lexical_operators [("<=", CompareOp.le), (">=", .ge), ("<", .lt), (">", .gt)] (by decide)
    (by decide) (by decide)

theorem lexical_equalityOp : Lexical (StartsWith isOperatorStart) equalityOp :=
  lexical_operators [("===", CompareOp.eq), ("!==", .ne), ("==", .eq), ("!=", .ne)] (by decide)
    (by decide) (by decide)

theorem lexical_word (o : String) (ho : IsSymbol o.toList)
    (hwhole : ∀ t ∈ compounds, o.toList <+: t → o.toList = t)
    (hstart : o.toList.head?.any isOperatorStart = true) :
    Lexical (StartsWith isOperatorStart) (word o.toList) := by
  rw [← operator_unit]
  refine lexical_operators [(o, ())] (by simpa using ho) (fun t ht p hp => ?_)
    (by simpa using hstart)
  obtain rfl : p = (o, ()) := by simpa using List.mem_of_find?_eq_some hp
  exact hwhole t ht (by simpa using List.find?_some hp)

theorem lexical_not : Lexical (StartsWith isOperatorStart)
    (do let c ← char '!'; notNext (· == '='); return c : Reader Char) :=
  lexical_guarded (char_cons '!') (fun cs h => ⟨cs, char_miss h⟩) rfl (by decide) (by decide) rfl

theorem lexical_minus : Lexical (StartsWith isOperatorStart) (char '-') :=
  (lexical_char rfl (by decide)).mono fun _ ht => ⟨'-', [], ht, rfl⟩

end Discharge.Expr
