import Discharge.Proofs.Expr.Tokens

/-!
# Lexemes

The grammar of conditions reads characters, and no lexer comes before it. `lexemes` is the lexer
that goes with it: it leaves out blanks and always takes the longest lexeme. `Heads t rest` says
that `t` is the first lexeme of `t ++ rest`, and `Aligned front rest` that no lexeme reaches from
`front` into `rest`. A blank between the two then leaves the lexemes as they are
(`Aligned.uncons`, `heads_of_blank`).
-/

namespace Discharge.Expr

open Reader

/-! ## The lexer -/

/-- The operators of more than one character. An operator comes before those it starts with. -/
def compounds : List (List Char) :=
  [['=', '=', '='], ['!', '=', '='], ['=', '='], ['!', '='], ['<', '='], ['>', '='], ['*', '*'],
    ['&', '&'], ['|', '|']]

def isQuote (c : Char) : Bool := c == '\'' || c == '"'

/-- A character of an operator: it stands in no name and no number, and is no quote and no blank. -/
def isMark (c : Char) : Bool := !isNamePart c && !isQuote c && !isBlank c

/-- The decimal places at the start of a text, with their point. -/
def decimals : List Char → List Char
  | '.' :: d :: cs => if d.isDigit then '.' :: d :: cs.takeWhile isNamePart else []
  | _ => []

/-- The lexeme that starts with the character `c`: a name, a number, a text in quotes or an
operator. Letters that follow the digits of a number directly belong to the lexeme, though no
number is read from it. A quote that is never closed is a lexeme of its own. -/
def lexeme (c : Char) (cs : List Char) : List Char :=
  if isNameStart c then c :: cs.takeWhile isNamePart
  else if c.isDigit then c :: (cs.takeWhile isNamePart ++ decimals (cs.dropWhile isNamePart))
  else if isQuote c then if c ∈ cs then c :: (cs.takeWhile (· != c) ++ [c]) else [c]
  else (compounds.find? (·.isPrefixOf (c :: cs))).getD [c]

/-- The lexemes of a text of which the first `n` characters belong to a lexeme before it. -/
def lexemesFrom : Nat → List Char → List (List Char)
  | _, [] => []
  | n + 1, _ :: cs => lexemesFrom n cs
  | 0, c :: cs =>
    if isBlank c then lexemesFrom 0 cs
    else lexeme c cs :: lexemesFrom ((lexeme c cs).length - 1) cs

/-- The lexemes of a text. -/
def lexemes (cs : List Char) : List (List Char) := lexemesFrom 0 cs

/-- The text `t` is the first lexeme of `t ++ rest`. -/
inductive Heads : List Char → List Char → Prop
  | intro {c : Char} {w rest : List Char} (hc : isBlank c = false)
      (h : lexeme c (w ++ rest) = c :: w) : Heads (c :: w) rest

/-- No lexeme reaches from the front of a text into the rest of it. -/
def Aligned (front rest : List Char) : Prop :=
  lexemes (front ++ rest) = lexemes front ++ lexemes rest

variable {b c : Char} {cs t u w rest : List Char}

theorem isMark_iff : isMark c = true ↔
    isNamePart c = false ∧ isQuote c = false ∧ isBlank c = false := by
  simp [isMark, and_assoc]

theorem isMark_of_mem_compounds {o : List Char} (ho : o ∈ compounds) (hc : c ∈ o) :
    isMark c = true :=
  List.all_eq_true.1 ((by decide : ∀ o ∈ compounds, o.all isMark = true) o ho) c hc

theorem ne_nil_of_mem_compounds {o : List Char} (ho : o ∈ compounds) : o ≠ [] :=
  (by decide : ∀ o ∈ compounds, o ≠ []) o ho

/-! ## The first lexeme -/

theorem decimals_isPrefix (cs : List Char) : decimals cs <+: cs := by
  unfold decimals
  split
  · split
    · exact (List.prefix_cons_inj _).2 ((List.prefix_cons_inj _).2 (List.takeWhile_prefix _))
    · exact List.nil_prefix
  · exact List.nil_prefix

/-- What closes a text in quotes ends it. -/
theorem takeWhile_quote_isPrefix (h : c ∈ cs) : cs.takeWhile (· != c) ++ [c] <+: cs := by
  induction cs with
  | nil => cases h
  | cons d ds ih =>
    by_cases hd : d = c
    · simp [hd]
    · have hmem : c ∈ ds := (List.mem_cons.1 h).resolve_left (Ne.symm hd)
      simpa [hd] using ih hmem

/-- A lexeme is the start of the text it is taken from. -/
theorem exists_lexeme (c : Char) (cs : List Char) :
    ∃ w rest, lexeme c cs = c :: w ∧ cs = w ++ rest := by
  unfold lexeme
  split
  · exact ⟨_, _, rfl, List.takeWhile_append_dropWhile.symm⟩
  split
  · obtain ⟨rest, hrest⟩ := decimals_isPrefix (cs.dropWhile isNamePart)
    refine ⟨_, rest, rfl, ?_⟩
    rw [List.append_assoc, hrest, List.takeWhile_append_dropWhile]
  split
  · split
    · rename_i hmem
      obtain ⟨rest, hrest⟩ := takeWhile_quote_isPrefix hmem
      exact ⟨_, rest, rfl, hrest.symm⟩
    · exact ⟨[], cs, rfl, rfl⟩
  · cases hfind : compounds.find? (·.isPrefixOf (c :: cs)) with
    | none => exact ⟨[], cs, rfl, rfl⟩
    | some o =>
      have hne : o ≠ [] := ne_nil_of_mem_compounds (List.mem_of_find?_eq_some hfind)
      have hstart : o.isPrefixOf (c :: cs) = true := by simpa using List.find?_some hfind
      obtain ⟨rest, hrest⟩ := List.isPrefixOf_iff_prefix.1 hstart
      obtain ⟨d, w, rfl⟩ := List.exists_cons_of_ne_nil hne
      obtain ⟨rfl, htail⟩ := List.cons.inj hrest
      exact ⟨w, rest, rfl, htail.symm⟩

theorem exists_heads (hc : isBlank c = false) (cs : List Char) :
    ∃ t rest, c :: cs = t ++ rest ∧ Heads t rest := by
  obtain ⟨w, rest, hlexeme, rfl⟩ := exists_lexeme c cs
  exact ⟨c :: w, rest, rfl, hc, hlexeme⟩

theorem lexemesFrom_eq (n : Nat) (cs : List Char) : lexemesFrom n cs = lexemes (cs.drop n) := by
  induction n generalizing cs with
  | zero => rfl
  | succ n ih =>
    cases cs with
    | nil => rfl
    | cons c cs => exact ih cs

theorem lexemes_blank (hb : isBlank b = true) (cs : List Char) : lexemes (b :: cs) = lexemes cs :=
  if_pos hb

/-- The lexemes of a text are its first one and those of the rest. -/
theorem Heads.lexemes_eq (h : Heads t rest) : lexemes (t ++ rest) = t :: lexemes rest := by
  cases h with
  | @intro c w _ hc h =>
    rw [List.cons_append, lexemes, lexemesFrom, if_neg (by simp [hc]), h, lexemesFrom_eq]
    simp

example : lexemes "(x.size>=3.5)".toList =
    ["(", "x", ".", "size", ">=", "3.5", ")"].map String.toList := by decide +kernel

/-! ## Blanks between lexemes -/

theorem takeWhile_blank {p : Char → Bool} (hb : p b = false) (u rest : List Char) :
    (u ++ b :: rest).takeWhile p = u.takeWhile p ∧
      (u ++ b :: rest).dropWhile p = u.dropWhile p ++ b :: rest := by
  induction u with
  | nil => simp [hb]
  | cons c u ih =>
    cases hc : p c with
    | true => simpa [hc] using ih
    | false => simp [hc]

theorem not_isNamePart_of_isBlank (hb : isBlank b = true) : isNamePart b = false :=
  Bool.eq_false_iff.2 fun h =>
    Bool.false_ne_true ((not_isBlank_of_isNamePart h).symm.trans hb)

theorem decimals_blank (hb : isBlank b = true) (u rest : List Char) :
    decimals (u ++ b :: rest) = decimals u := by
  have hname := not_isNamePart_of_isBlank hb
  have hdigit := not_isDigit_of_not_isNamePart hname
  have hpoint : b ≠ '.' := by
    rintro rfl
    cases hb
  rcases u with _ | ⟨x, _ | ⟨d, u⟩⟩
  · simp [decimals, hpoint]
  · by_cases hx : x = '.'
    · simp [decimals, hx, hdigit]
    · simp [decimals, hx]
  · by_cases hx : x = '.'
    · simp [decimals, hx, (takeWhile_blank hname u rest).1]
    · simp [decimals, hx]

/-- What has no blank in it ends before a blank. -/
theorem isPrefixOf_blank {o : List Char} (ho : ∀ c ∈ o, isBlank c = false) (hb : isBlank b = true)
    (u rest : List Char) : o.isPrefixOf (u ++ b :: rest) = o.isPrefixOf u := by
  induction o generalizing u with
  | nil => simp
  | cons x o ih =>
    obtain ⟨hx, ho⟩ := List.forall_mem_cons.1 ho
    cases u with
    | nil =>
      have hne : x ≠ b := by
        rintro rfl
        cases hx.symm.trans hb
      simp [List.isPrefixOf, hne]
    | cons c u => simp [List.isPrefixOf, ih ho]

theorem lexeme_blank (hb : isBlank b = true) (hc : isQuote c = false) (u rest : List Char) :
    lexeme c (u ++ b :: rest) = lexeme c u := by
  obtain ⟨htake, hdrop⟩ := takeWhile_blank (not_isNamePart_of_isBlank hb) u rest
  have hfind : compounds.find? (·.isPrefixOf (c :: (u ++ b :: rest))) =
      compounds.find? (·.isPrefixOf (c :: u)) :=
    List.find?_congr fun o ho => isPrefixOf_blank
      (fun c hc => (isMark_iff.1 (isMark_of_mem_compounds ho hc)).2.2) hb (c :: u) rest
  simp [lexeme, htake, hdrop, decimals_blank hb, hfind, hc]

theorem lexeme_quote (hc : isQuote c = true) (cs : List Char) :
    lexeme c cs = if c ∈ cs then c :: (cs.takeWhile (· != c) ++ [c]) else [c] := by
  have hname : isNameStart c = false ∧ c.isDigit = false := by
    rcases Bool.or_eq_true_iff.1 hc with h | h <;>
      · obtain rfl := eq_of_beq h
        decide
  simp [lexeme, hname.1, hname.2, hc]

/-- A quote is closed in the lexeme that starts with it, or nowhere. -/
theorem mem_of_lexeme_quote (hc : isQuote c = true) (h : lexeme c (w ++ rest) = c :: w)
    (hmem : c ∈ w ++ rest) : c ∈ w := by
  rw [lexeme_quote hc, if_pos hmem] at h
  rw [← (List.cons.inj h).2]
  simp

theorem lexeme_closed (hc : isQuote c = true) (hmem : c ∈ w) (u rest : List Char) :
    lexeme c (w ++ u) = lexeme c (w ++ rest) := by
  have htake : ∀ v, (w ++ v).takeWhile (· != c) = w.takeWhile (· != c) := by
    intro v
    obtain ⟨w₁, w₂, rfl⟩ := List.append_of_mem hmem
    rw [List.append_assoc, List.cons_append, (takeWhile_blank (by simp) w₁ _).1,
      (takeWhile_blank (by simp) w₁ _).1]
  rw [lexeme_quote hc, lexeme_quote hc, htake, htake, if_pos (List.mem_append_left _ hmem),
    if_pos (List.mem_append_left _ hmem)]

/-- **A blank after the first lexeme, or later, leaves the first lexeme as it is.** -/
theorem heads_of_blank (h : Heads t u) (hrest : Heads t (u ++ rest)) (hb : isBlank b = true) :
    Heads t (u ++ b :: rest) := by
  cases h with
  | @intro c w _ hc h =>
    cases hrest with
    | intro _ hrest =>
      refine ⟨hc, ?_⟩
      cases hq : isQuote c with
      | false => rw [← List.append_assoc, lexeme_blank hb hq, h]
      | true =>
        by_cases hmem : c ∈ w
        · rw [lexeme_closed hq hmem _ u, h]
        · -- The quote is never closed, and no blank closes it.
          have hopen : c ∉ w ++ (u ++ rest) := fun hin => hmem (mem_of_lexeme_quote hq hrest hin)
          have hne : c ≠ b := by
            rintro rfl
            cases hc.symm.trans hb
          have hopen' : c ∉ w ++ (u ++ b :: rest) := by simpa [hne] using hopen
          rw [lexeme_quote hq, if_neg hopen] at hrest
          rw [lexeme_quote hq, if_neg hopen', hrest]

namespace Aligned

theorem of_blank (hb : isBlank b = true) (h : Aligned (b :: u) rest) : Aligned u rest := by
  unfold Aligned at h
  rwa [List.cons_append, lexemes_blank hb, lexemes_blank hb] at h

/-- The first lexeme of the front is the first of the whole text. -/
theorem uncons (hc : isBlank c = false) (h : Aligned (c :: u) rest) :
    ∃ t v, c :: u = t ++ v ∧ Heads t v ∧ Heads t (v ++ rest) ∧ Aligned v rest := by
  obtain ⟨t, v, htv, ht⟩ := exists_heads hc u
  obtain ⟨s, y, hsy, hs⟩ := exists_heads hc (u ++ rest)
  rw [Aligned, List.cons_append, hsy, hs.lexemes_eq, htv, ht.lexemes_eq, List.cons_append] at h
  obtain ⟨rfl, hlexemes⟩ := List.cons.inj h
  have hy : y = v ++ rest := by
    rw [← List.cons_append, htv, List.append_assoc] at hsy
    exact (List.append_cancel_left hsy).symm
  rw [hy] at hs hlexemes
  exact ⟨s, v, htv, ht, hs, hlexemes⟩

end Aligned

/-! ## Operators -/

theorem lexeme_mark (hc : isMark c = true) (cs : List Char) :
    lexeme c cs = (compounds.find? (·.isPrefixOf (c :: cs))).getD [c] := by
  obtain ⟨hname, hquote, -⟩ := isMark_iff.1 hc
  simp [lexeme, not_isNameStart_of_not_isNamePart hname, not_isDigit_of_not_isNamePart hname,
    hquote]

/-- A lexeme of marks is a compound operator or a single character. -/
theorem Heads.eq_or_mem (h : Heads (c :: w) rest) (hc : isMark c = true) :
    w = [] ∨ c :: w ∈ compounds := by
  cases h with
  | intro _ h =>
    rw [lexeme_mark hc] at h
    cases hfind : compounds.find? (·.isPrefixOf (c :: (w ++ rest))) with
    | none =>
      rw [hfind] at h
      exact .inl (List.cons.inj h).2.symm
    | some o =>
      rw [hfind] at h
      exact .inr (h ▸ List.mem_of_find?_eq_some hfind)

/-- The operator that is found starts with every compound operator that the text starts with. -/
theorem prefix_of_find? {o o' : List Char} (h : compounds.find? (·.isPrefixOf cs) = some o)
    (ho' : o' ∈ compounds) (hcs : o' <+: cs) : o' <+: o := by
  obtain ⟨ho, before, after, heq, hbefore⟩ := List.find?_eq_some_iff_append.1 h
  have hsorted : compounds.Pairwise fun x y => ¬ x <+: y := by decide +kernel
  rw [heq] at ho' hsorted
  rcases List.mem_append.1 ho' with hmem | hmem
  · have := hbefore o' hmem
    simp [List.isPrefixOf_iff_prefix.2 hcs] at this
  · rcases List.mem_cons.1 hmem with rfl | hmem
    · exact List.prefix_rfl
    · have hnot : ¬ o <+: o' :=
        (List.pairwise_cons.1 (List.pairwise_append.1 hsorted).2.1).1 o' hmem
      exact (List.prefix_or_prefix_of_prefix (List.isPrefixOf_iff_prefix.1 (by simpa using ho))
        hcs).resolve_left hnot

/-- The first lexeme starts with every compound operator that the text starts with. -/
theorem Heads.prefix_iff (h : Heads t rest) {o : List Char} (ho : o ∈ compounds) :
    o <+: t ++ rest ↔ o <+: t := by
  refine ⟨fun hstarts => ?_, fun hstarts => hstarts.trans (List.prefix_append t rest)⟩
  cases h with
  | @intro c w _ hc h =>
    have hmark : isMark c = true := by
      obtain ⟨d, o, rfl⟩ := List.exists_cons_of_ne_nil (ne_nil_of_mem_compounds ho)
      obtain ⟨rfl, -⟩ := List.cons_prefix_cons.1 hstarts
      exact isMark_of_mem_compounds ho List.mem_cons_self
    rw [lexeme_mark hmark] at h
    cases hfind : compounds.find? (·.isPrefixOf (c :: (w ++ rest))) with
    | none =>
      have := List.find?_eq_none.1 hfind o ho
      exact absurd (List.isPrefixOf_iff_prefix.2 hstarts) this
    | some found =>
      rw [hfind] at h
      exact h ▸ prefix_of_find? hfind ho hstarts

end Discharge.Expr
