import Discharge.Proofs.Expr.Cut

/-!
# Conditions with blanks put in

Every reader of the grammar, run on a text and on the text with a blank between two lexemes, stays
in step (`Grammar.Alike`). So the blank changes nothing, except between a member and the parenthesis
that closes a group, where the condition is no longer read (`parse_blank`).

The readers of a brand take single characters, and may stop in the middle of a lexeme: `Torn` texts
go on in the middle of one. Nothing in a brand goes on from there.
-/

namespace Discharge.Expr

open Reader
open Fraction (Digits)

namespace Cut

variable {k : Cut} {c : Char} {x x' y y' : List Char} {n : Nat} {s : List Bracket}

/-! ## Brands -/

/-- A character in the middle of a lexeme, at which a reader of a brand stops. -/
def isTear (c : Char) : Bool := c == '=' || c == '.' || isNameStart c

/-- Both texts go on in the middle of the same lexeme. -/
def Torn : TextRel := fun x x' =>
  ∃ c y y', x = c :: y ∧ x' = c :: y' ∧ isTear c = true ∧ y.length ≤ y'.length

/-- Two texts in a brand. -/
def InBrand (k : Cut) (s : List Bracket) : TextRel := fun x x' =>
  (∃ last, last ≠ .member ∧ k.Near ⟨last, s⟩ x x') ∨ Torn x x'

theorem InBrand.length_le (h : k.InBrand s x x') : x.length ≤ x'.length := by
  rcases h with ⟨last, -, hnear⟩ | ⟨c, y, y', rfl, rfl, -, hlen⟩
  · exact hnear.length_le
  · exact Nat.succ_le_succ hlen

theorem of_isTear (hc : isTear c = true) : isBlank c = false ∧ c.isDigit = false := by
  simp only [isTear, Bool.or_eq_true] at hc
  rcases hc with (hc | hc) | hc
  · rw [eq_of_beq hc]
    exact ⟨rfl, rfl⟩
  · rw [eq_of_beq hc]
    exact ⟨rfl, rfl⟩
  · exact ⟨not_isBlank_of_isNamePart (isNamePart_of_isNameStart hc), isDigit_of_isNameStart hc⟩

/-- Two texts in a brand, after blanks. -/
def InBrandSettled (k : Cut) (s : List Bracket) : TextRel := fun x x' =>
  k.InBrand s x x' ∧ skip x' = x'

theorem InBrand.skip (h : k.InBrand s x x') :
    k.InBrandSettled s (Reader.skip x) (Reader.skip x') := by
  rcases h with ⟨last, hlast, hnear⟩ | ⟨c, y, y', rfl, rfl, hc, hlen⟩
  · have hsettled := hnear.settled fun h => hlast h.1
    exact ⟨.inl ⟨last, hlast, hsettled.1⟩, hsettled.2⟩
  · rw [skip_cons (of_isTear hc).1, skip_cons (of_isTear hc).1]
    exact ⟨.inr ⟨c, y, y', rfl, rfl, hc, hlen⟩, skip_cons (of_isTear hc).1 y'⟩

/-- A reader of a character takes a lexeme, or the start of one that goes on with an equals sign. -/
theorem takes_char (hc : isOperatorStart c = true) (htear : isTear c = false)
    (honly : ∀ o ∈ compounds, [c] <+: o → [c, '='] <+: o) :
    Takes k.Breaks n (k.InBrandSettled s) (char c) (char c) (k.InBrand s) := by
  have hmiss : ∀ {d : Char} {ds : List Char}, d ≠ c → char c (d :: ds) = .miss (d :: ds) :=
    fun hd => char_miss fun _ h => hd (List.cons.inj h).1
  rintro m hm x x' ⟨⟨⟨last, hlast, hnear⟩ | ⟨d, y, y', rfl, rfl, hd, -⟩, hskip⟩, hlen⟩
  · rcases Settled.lexeme ⟨hnear, hskip⟩ with
      ⟨rfl, rfl⟩ | ⟨d, w, y, y', rfl, rfl, hy, hy', hnear⟩
    · exact .miss
    · by_cases hd : d = c
      · subst hd
        have hmark : isMark d = true := by
          simp only [isOperatorStart, Bool.and_eq_true] at hc
          exact hc.1.1.1
        rw [List.cons_append, List.cons_append, char_cons, char_cons]
        refine .ok ⟨?_, by simpa using hlen⟩
        rcases hy.eq_or_mem hmark with rfl | hmem
        · rw [Scan.step_operator ⟨d, [], rfl, hc⟩] at hnear
          exact .inl ⟨.operator, by decide, hnear⟩
        · obtain ⟨v, hv⟩ := honly _ hmem (by simp)
          obtain rfl := (List.cons.inj hv).2
          exact .inr ⟨'=', v ++ y, v ++ y', rfl, rfl, rfl, by simpa using hnear.length_le⟩
      · rw [List.cons_append, List.cons_append, hmiss hd, hmiss hd]
        exact .miss
  · have hne : d ≠ c := by
      rintro rfl
      cases htear.symm.trans hd
    rw [hmiss hne, hmiss hne]
    exact .miss

/-- A lexeme that starts with a digit is all digits, or goes on behind its digits. -/
theorem digits_or_tear {w rest : List Char} (h : Heads (c :: w) rest) (hc : c.isDigit = true) :
    Digits w ∨ ∃ ds e v, w = ds ++ e :: v ∧ Digits ds ∧ isTear e = true := by
  have hletter : ∀ e, isNameStart e = true → isTear e = true := fun e he => by simp [isTear, he]
  rcases (h.number hc).2 with ⟨hw, -⟩ | ⟨m, d, q, rfl, hm, -⟩
  · rcases digits_or_name hw with hds | ⟨ds, e, v, rfl, hds, he⟩
    · exact .inl hds
    · exact .inr ⟨ds, e, v, rfl, hds, hletter e he⟩
  · rcases digits_or_name hm with hds | ⟨ds, e, v, rfl, hds, he⟩
    · exact .inr ⟨m, '.', d :: q, rfl, hds, rfl⟩
    · exact .inr ⟨ds, e, v ++ '.' :: d :: q, by simp, hds, hletter e he⟩

/-- A reader of digits takes a number, or the digits at the start of a lexeme. -/
theorem takes_digits :
    Takes k.Breaks n (k.InBrandSettled s) (run1 Char.isDigit) (run1 Char.isDigit)
      (k.InBrand s) := by
  have hmiss : ∀ {d : Char} {ds : List Char}, d.isDigit = false →
      run1 Char.isDigit (d :: ds) = .miss (d :: ds) := fun hd =>
    run1_miss fun _ _ h => (List.cons.inj h).1 ▸ hd
  have hread : ∀ {d : Char} {ds rest : List Char}, d.isDigit = true → Digits ds →
      (∀ e es, rest = e :: es → e.isDigit = false) →
      run1 Char.isDigit (d :: ds ++ rest) = .ok (d :: ds) rest := fun hd hds hrest =>
    run1_append (List.cons_ne_nil _ _) (List.forall_mem_cons.2 ⟨hd, hds⟩) hrest
  rintro m hm x x' ⟨⟨⟨last, hlast, hnear⟩ | ⟨d, y, y', rfl, rfl, hd, -⟩, hskip⟩, hlen⟩
  · rcases Settled.lexeme ⟨hnear, hskip⟩ with
      ⟨rfl, rfl⟩ | ⟨d, w, y, y', rfl, rfl, hy, hy', hnear⟩
    · exact .miss
    · cases hd : d.isDigit with
      | false =>
        rw [List.cons_append, List.cons_append, hmiss hd, hmiss hd]
        exact .miss
      | true =>
        rcases digits_or_tear hy hd with hw | ⟨ds, e, v, rfl, hds, he⟩
        · have hend : ∀ {z : List Char}, Heads (d :: w) z →
              ∀ e es, z = e :: es → e.isDigit = false := fun hz e es hes =>
            not_isDigit_of_not_isNamePart ((hz.number hd).1 e es hes)
          rw [hread hd hw (hend hy), hread hd hw (hend hy')]
          refine .ok ⟨.inl ⟨.operand, by decide, ?_⟩, ?_⟩
          · rwa [Scan.step_digit ⟨d, w, rfl, hd⟩] at hnear
          · simp at hlen
            omega
        · have hend : ∀ z e' es, e :: (v ++ z) = e' :: es → e'.isDigit = false :=
            fun z e' es hes => (List.cons.inj hes).1 ▸ (of_isTear he).2
          have hsplit : ∀ z, d :: (ds ++ e :: v) ++ z = d :: ds ++ e :: (v ++ z) := by simp
          rw [hsplit, hsplit, hread hd hds (hend y), hread hd hds (hend y')]
          refine .ok ⟨.inr ⟨e, v ++ y, v ++ y', rfl, rfl, he, ?_⟩, ?_⟩
          · simpa using hnear.length_le
          · simp at hlen ⊢
            omega
  · rw [hmiss (of_isTear hd).2, hmiss (of_isTear hd).2]
    exact .miss

theorem takes_spaced_char (hc : isOperatorStart c = true) (htear : isTear c = false)
    (honly : ∀ o ∈ compounds, [c] <+: o → [c, '='] <+: o) :
    Takes k.Breaks n (k.InBrand s) (spaced (char c)) (spaced (char c)) (k.InBrandSettled s) :=
  Takes.spaced (fun _ _ h => h.skip) (takes_char hc htear honly) fun _ _ h => h.skip

theorem takes_brandReader :
    Takes k.Breaks (n + 1) (k.Settled ⟨.operator, s⟩) brandReader brandReader (k.InBrand s) := by
  have hname : Takes k.Breaks (n + 1) (k.Settled ⟨.operator, s⟩) nameReader nameReader
      (k.InBrand s) :=
    (takes_of_lexical lexical_nameReader fun t ht => Scan.step_name ht).mono (fun _ _ h => h)
      fun _ _ h => .inl ⟨.operand, by decide, h⟩
  have hnumbers : Keeps k.Breaks n (k.InBrandSettled s)
      (sepBy (spaced (char ',')) (run1 Char.isDigit))
      (sepBy (spaced (char ',')) (run1 Char.isDigit)) (k.InBrand s) :=
    Keeps.sepBy ⟨[], rfl⟩ (fun _ _ h => h.length_le) (takes_spaced_char rfl rfl (by decide))
      takes_digits (fun _ _ h => h.1) fun _ _ h => h
  have hless : Takes k.Breaks n (k.InBrand s) (spaced (char '<')) (spaced (char '<'))
      (k.InBrandSettled s) :=
    takes_spaced_char rfl rfl (by decide)
  have hgreater : Takes k.Breaks n (k.InBrand s) (spaced (char '>')) (spaced (char '>'))
      (k.InBrand s) :=
    (takes_spaced_char rfl rfl (by decide)).mono (fun _ _ h => h) fun _ _ h => h.1
  refine hname.bind fun name => Keeps.bind (Keeps.optional ?_ fun _ _ h => h) fun numbers => .pure _
  exact hless.keeps.bind fun _ => hnumbers.bind fun ns => hgreater.keeps.bind fun _ => .pure ns

/-- Only an end or a closing parenthesis follows a brand. -/
theorem keeps_endOrNext :
    Keeps k.Breaks n (k.InBrandSettled s) (endOrNext (· == ')')) (endOrNext (· == ')'))
      (k.Done s) := by
  rintro m hm x x' ⟨⟨⟨last, hlast, hnear⟩ | ⟨d, y, y', rfl, rfl, hd, -⟩, hskip⟩, hlen⟩
  · have hdone : k.Done s x x' := ⟨last, .inr hskip, hnear⟩
    rcases Settled.lexeme ⟨hnear, hskip⟩ with ⟨rfl, rfl⟩ | ⟨d, w, y, y', rfl, rfl, -⟩
    · exact .ok ⟨hdone, hlen⟩
    · by_cases hd : (d == ')') = true
      · rw [List.cons_append, List.cons_append, endOrNext, endOrNext, if_pos hd, if_pos hd]
        exact .ok ⟨hdone, hlen⟩
      · rw [List.cons_append, List.cons_append, endOrNext, endOrNext, if_neg hd, if_neg hd]
        exact .miss
  · have hne : ¬ (d == ')') = true := fun h => by
      obtain rfl := eq_of_beq h
      cases hd
    rw [endOrNext, endOrNext, if_neg hne, if_neg hne]
    exact .miss

theorem takes_annotationReader :
    Takes k.Breaks (n + 1) (k.Near ⟨.operator, s⟩) annotationReader annotationReader
      (k.Done s) := by
  have hoperator := Scan.not_endsMember (by decide : Last.operator ≠ .member) s
  have hoperand := Scan.not_endsMember (by decide : Last.operand ≠ .member) s
  have hname : Takes k.Breaks (n + 1) (k.Near ⟨.operator, s⟩) (spaced nameReader)
      (spaced nameReader) (k.Settled ⟨.operand, s⟩) :=
    Takes.spaced (fun _ _ h => h.settled hoperator)
      (takes_of_lexical lexical_nameReader fun t ht => Scan.step_name ht)
      fun _ _ h => h.settled hoperand
  have hcolon : Takes k.Breaks n (k.Settled ⟨.operand, s⟩) (char ':') (char ':')
      (k.Near ⟨.operator, s⟩) :=
    takes_of_lexical (lexical_char rfl (by decide)) fun t ht => ht ▸ rfl
  have hbrand : Keeps k.Breaks n (k.Near ⟨.operator, s⟩) (spaced brandReader)
      (spaced brandReader) (k.InBrandSettled s) := by
    refine Takes.keeps (Takes.anti ?_ (Nat.le_succ n))
    exact Takes.spaced (fun _ _ h => h.settled hoperator) takes_brandReader fun _ _ h => h.skip
  exact hname.bind fun name => hcolon.keeps.bind fun _ => hbrand.bind fun brand =>
    keeps_endOrNext.bind fun _ => .pure _

/-! ## The grammar -/

/-- Operands with operators between them. -/
theorem takes_leftAssoc {α : Type} {op : Reader α} {operand operand' : Reader Expr}
    (build : α → Expr → Expr → Expr) (hop : Lexical (StartsWith isOperatorStart) op)
    (hclose : ∀ ds, ∃ p, op (')' :: ds) = .miss p)
    (h : Takes k.Breaks (n + 1) (k.Near ⟨.operator, s⟩) operand operand' (k.After s)) :
    Takes k.Breaks (n + 1) (k.Near ⟨.operator, s⟩) (leftAssoc op build operand)
      (leftAssoc op build operand') (k.After s) := by
  have hlink : Takes k.Breaks (n + 1) (k.After s) (do let o ← spaced op; return (o, ← operand))
      (do let o ← spaced op; return (o, ← operand')) (k.After s) :=
    (takes_operator hop hclose).bind fun o =>
      (h.anti (Nat.le_succ n)).keeps.bind fun e => .pure _
  have hnil : ∃ p, (do let o ← spaced op; return (o, ← operand) : Reader (α × Expr)) [] =
      .miss p := by
    obtain ⟨p, hp⟩ := hop.nil
    exact ⟨p, bind_miss (spaced_miss hp)⟩
  exact h.bind fun first => (Keeps.many hnil (fun _ _ h => h.length_le)
    (hlink.anti (Nat.le_succ n))).bind fun more => .pure _

end Cut

namespace Grammar

open Cut

variable {k : Cut} {n : Nat} {g g' : Grammar} {s : List Bracket}

/-- The readers that two grammars use inside themselves stay in step on texts shorter than `n`. -/
structure Alike (k : Cut) (n : Nat) (g g' : Grammar) : Prop where
  condition : ∀ s, Takes k.Breaks n (k.Near ⟨.operator, s⟩) g.condition g'.condition (k.Done s)
  disjunction : ∀ s,
    Takes k.Breaks n (k.Near ⟨.operator, s⟩) g.disjunction g'.disjunction (k.After s)
  unary : ∀ s, Takes k.Breaks n (k.Near ⟨.operator, s⟩) g.unary g'.unary (k.After s)

namespace Alike

variable (hg : Alike k n g g')
include hg

theorem primary (s : List Bracket) :
    Takes k.Breaks (n + 1) (k.Near ⟨.operator, s⟩) g.primary g'.primary
      (k.Settled ⟨.operand, s⟩) := by
  have hopen : Takes k.Breaks (n + 1) (k.Settled ⟨.operator, s⟩) (char '(') (char '(')
      (k.Near ⟨.operator, .group :: s⟩) :=
    takes_of_lexical (lexical_char rfl (by decide)) fun t ht => ht ▸ rfl
  have hgroup : Takes k.Breaks (n + 1) (k.Settled ⟨.operator, s⟩)
      (do let _ ← char '('; let e ← g.condition; let _ ← commit (char ')'); return e)
      (do let _ ← char '('; let e ← g'.condition; let _ ← commit (char ')'); return e)
      (k.Near ⟨.operand, s⟩) :=
    hopen.bind fun _ => (hg.condition (.group :: s)).keeps.bind fun e =>
      keeps_close.bind fun _ => .pure e
  exact Takes.spaced (fun _ _ h => h.settled (Scan.not_endsMember (by decide) s))
    (.firstOf (.cons (takes_of_lexical lexical_numberReader fun t ht => Scan.step_digit ht)
      (.cons (takes_of_lexical lexical_textReader fun t ht => Scan.step_quote ht)
      (.cons (takes_of_lexical lexical_wordReader fun t ht => Scan.step_name ht)
      (.cons hgroup .nil)))))
    fun _ _ h => h.settled (Scan.not_endsMember (by decide) s)

/-- The arguments of a call, up to the parenthesis that closes it. Blanks may stand before it. -/
theorem arguments (s : List Bracket) :
    Keeps k.Breaks n (k.Near ⟨.operator, .call :: s⟩)
      (do let as ← sepBy (spaced (char ',')) g.disjunction; let _ ← commit (spaced (char ')'))
          return Suffix.args as)
      (do let as ← sepBy (spaced (char ',')) g'.disjunction; let _ ← commit (spaced (char ')'))
          return Suffix.args as)
      (k.Settled ⟨.operand, s⟩) := by
  have hcomma : Takes k.Breaks n (k.After (.call :: s)) (spaced (char ',')) (spaced (char ','))
      (k.Near ⟨.operator, .call :: s⟩) :=
    takes_operator ((lexical_char rfl (by decide)).mono fun _ ht => ⟨',', [], ht, rfl⟩)
      fun _ => ⟨_, rfl⟩
  have hvalues : Keeps k.Breaks n (k.Near ⟨.operator, .call :: s⟩)
      (sepBy (spaced (char ',')) g.disjunction) (sepBy (spaced (char ',')) g'.disjunction)
      (k.Among fun st => st.opened = .call :: s) := by
    refine Keeps.sepBy ⟨[], rfl⟩ (fun _ _ h => h.length_le) hcomma (hg.disjunction (.call :: s))
      (fun _ _ h => ⟨_, rfl, h⟩) ?_
    rintro x x' ⟨last, -, h⟩
    exact ⟨_, rfl, h⟩
  have hclose : Takes k.Breaks n (k.Among fun st => st.opened = .call :: s) (spaced (char ')'))
      (spaced (char ')')) (k.Settled ⟨.operand, s⟩) := by
    refine takes_spaced (lexical_char rfl (by decide)) ?_ ?_ (Scan.not_endsMember (by decide) s)
    · rintro st hst t rfl
      simp [Scan.step, hst]
    · -- A call is open here, not a group.
      intro st hst hends
      rw [Scan.EndsMember, hst] at hends
      cases hends.2
  exact hvalues.bind fun as => hclose.keeps.commit.bind fun _ => .pure _

theorem suffix (s : List Bracket) :
    Takes k.Breaks (n + 1) (k.After s) g.suffix g'.suffix (k.After s) := by
  have hpoint : Takes k.Breaks (n + 1) (k.Among (IsOperand s)) (spaced (char '.'))
      (spaced (char '.')) (k.Settled ⟨.point, s⟩) := by
    refine takes_spaced (lexical_char rfl (by decide)) ?_ (fun _ _ _ _ => ⟨_, rfl⟩)
      (Scan.not_endsMember (by decide) s)
    rintro st ⟨-, rfl⟩ t rfl
    rfl
  have hname : Takes k.Breaks n (k.Settled ⟨.point, s⟩) nameReader nameReader
      (k.Near ⟨.member, s⟩) :=
    takes_of_lexical lexical_nameReader fun t ht => Scan.step_name ht
  have hfield : Takes k.Breaks (n + 1) (k.Among (IsOperand s))
      (do let _ ← spaced (char '.'); return Suffix.field (← nameReader))
      (do let _ ← spaced (char '.'); return Suffix.field (← nameReader)) (k.Near ⟨.member, s⟩) :=
    hpoint.bind fun _ => hname.keeps.bind fun f => .pure _
  have hopen : Takes k.Breaks (n + 1) (k.Among (IsOperand s)) (spaced (char '('))
      (spaced (char '(')) (k.Near ⟨.operator, .call :: s⟩) := by
    refine (takes_spaced (lexical_char rfl (by decide)) ?_ (fun _ _ _ _ => ⟨_, rfl⟩)
      (Scan.not_endsMember (by decide) _)).mono (fun _ _ h => h) fun _ _ h => h.1
    rintro st ⟨hlast, rfl⟩ t rfl
    simp [Scan.step, hlast.symm]
  have hargs := hopen.bind fun _ => hg.arguments s
  exact .orElse (hfield.mono (fun _ _ h => h.among) fun _ _ h => ⟨.member, .inl rfl, h⟩)
    (hargs.mono (fun _ _ h => h.among) fun _ _ h => h.after)

theorem postfixed (s : List Bracket) :
    Takes k.Breaks (n + 1) (k.Near ⟨.operator, s⟩) g.postfixed g'.postfixed (k.After s) := by
  have hprimary : Takes k.Breaks (n + 1) (k.Near ⟨.operator, s⟩) g.primary g'.primary
      (k.After s) := (hg.primary s).mono (fun _ _ h => h) fun _ _ h => h.after
  have hsuffixes : Keeps k.Breaks n (k.After s) (many g.suffix) (many g'.suffix) (k.After s) :=
    .many ⟨[], rfl⟩ (fun _ _ h => h.length_le) ((hg.suffix s).anti (Nat.le_succ n))
  refine hprimary.bind fun base => hsuffixes.bind fun suffixes => ?_
  cases suffixes.foldlM applySuffix? base with
  | some e => exact .pure e
  | none => exact fun m _ x x' _ => .stop

theorem power (s : List Bracket) :
    Takes k.Breaks (n + 1) (k.Near ⟨.operator, s⟩) g.power g'.power (k.After s) := by
  have hpow : Takes k.Breaks n (k.After s) (spaced (word ['*', '*'])) (spaced (word ['*', '*']))
      (k.Near ⟨.operator, s⟩) :=
    takes_operator (lexical_word "**" (by decide) (by decide) rfl) fun _ => ⟨_, rfl⟩
  have hexponent := hpow.keeps.bind fun _ => (hg.unary s).keeps
  exact (hg.postfixed s).bind fun base => (hexponent.optional fun _ _ h => h).bind fun e => .pure _

theorem unaryLevel (s : List Bracket) :
    Takes k.Breaks (n + 1) (k.Near ⟨.operator, s⟩) g.unaryLevel g'.unaryLevel (k.After s) := by
  have hsign {α : Type} {r : Reader α} (hr : Lexical (StartsWith isOperatorStart) r) :
      Takes k.Breaks (n + 1) (k.Near ⟨.operator, s⟩) (spaced r) (spaced r)
        (k.Near ⟨.operator, s⟩) :=
    Takes.spaced (fun _ _ h => h.settled (Scan.not_endsMember (by decide) s))
      (takes_of_lexical hr fun t ht => Scan.step_operator ht)
      fun _ _ h => (h.settled (Scan.not_endsMember (by decide) s)).1
  exact .firstOf (.cons ((hsign lexical_not).bind fun _ => (hg.unary s).keeps.bind fun e => .pure _)
    (.cons ((hsign lexical_minus).bind fun _ => (hg.unary s).keeps.bind fun e => .pure _)
    (.cons (hg.power s) .nil)))

theorem sum (s : List Bracket) :
    Takes k.Breaks (n + 1) (k.Near ⟨.operator, s⟩) g.sum g'.sum (k.After s) :=
  takes_leftAssoc _ lexical_sumOp (fun _ => ⟨_, rfl⟩)
    (takes_leftAssoc _ lexical_productOp (fun _ => ⟨_, rfl⟩) (hg.unaryLevel s))

theorem relation (s : List Bracket) :
    Takes k.Breaks (n + 1) (k.Near ⟨.operator, s⟩) g.relation g'.relation (k.After s) := by
  have hop : Takes k.Breaks n (k.After s) (spaced relationOp) (spaced relationOp)
      (k.Near ⟨.operator, s⟩) := takes_operator lexical_relationOp fun _ => ⟨_, rfl⟩
  have hright : Keeps k.Breaks n (k.After s) (do let o ← spaced relationOp; return (o, ← g.sum))
      (do let o ← spaced relationOp; return (o, ← g'.sum)) (k.After s) :=
    hop.keeps.bind fun o => ((hg.sum s).anti (Nat.le_succ n)).keeps.bind fun r => .pure _
  exact (hg.sum s).bind fun left => (hright.optional fun _ _ h => h).bind fun right => .pure _

theorem disjunctionLevel (s : List Bracket) :
    Takes k.Breaks (n + 1) (k.Near ⟨.operator, s⟩) g.disjunctionLevel g'.disjunctionLevel
      (k.After s) :=
  takes_leftAssoc _ (lexical_word "||" (by decide) (by decide) rfl) (fun _ => ⟨_, rfl⟩)
    (takes_leftAssoc _ (lexical_word "&&" (by decide) (by decide) rfl) (fun _ => ⟨_, rfl⟩)
    (takes_leftAssoc _ lexical_equalityOp (fun _ => ⟨_, rfl⟩) (hg.relation s)))

theorem conditionLevel (s : List Bracket) :
    Takes k.Breaks (n + 1) (k.Near ⟨.operator, s⟩) g.conditionLevel g'.conditionLevel
      (k.Done s) :=
  .orElse takes_annotationReader
    ((hg.disjunctionLevel s).mono (fun _ _ h => h) fun _ _ h => h.done)

end Alike

/-- **The levels of the grammar stay in step** on texts that they are deep enough for. -/
theorem alike_level (k : Cut) {n i j : Nat} (hi : n ≤ i) (hj : n ≤ j) :
    Alike k n (level i) (level j) := by
  induction n generalizing i j with
  | zero =>
    have hzero : ∀ {P Q : TextRel} {r r' : Reader Expr}, Takes k.Breaks 0 P r r' Q :=
      fun m hm => absurd hm (Nat.not_lt_zero m)
    exact ⟨fun _ => hzero, fun _ => hzero, fun _ => hzero⟩
  | succ n ih =>
    obtain ⟨i, rfl⟩ := Nat.exists_eq_add_of_le' (Nat.succ_le_of_lt (Nat.zero_lt_of_lt hi))
    obtain ⟨j, rfl⟩ := Nat.exists_eq_add_of_le' (Nat.succ_le_of_lt (Nat.zero_lt_of_lt hj))
    have hinner := ih (Nat.le_of_succ_le_succ hi) (Nat.le_of_succ_le_succ hj)
    exact ⟨hinner.conditionLevel, hinner.disjunctionLevel, hinner.unaryLevel⟩

end Grammar

/-! ## Conditions -/

theorem isEmpty_trimChars_iff (cs : List Char) :
    (Text.trimChars cs).isEmpty = true ↔ ∀ c ∈ cs, Text.isSpace c = true := by
  have hsplit : ∀ c ∈ cs, c ∉ Text.trimStart cs → Text.isSpace c = true := by
    intro c hc hnot
    rw [← List.takeWhile_append_dropWhile (p := Text.isSpace) (l := cs)] at hc
    exact List.mem_takeWhile_imp ((List.mem_append.1 hc).resolve_right hnot)
  rw [Text.trimChars, List.isEmpty_reverse, List.isEmpty_iff, Text.trimStart,
    List.dropWhile_eq_nil_iff]
  simp only [List.mem_reverse]
  refine ⟨fun h c hc => ?_, fun h c hc => h c ((List.dropWhile_sublist _).subset hc)⟩
  by_cases hmem : c ∈ Text.trimStart cs
  · exact h c hmem
  · exact hsplit c hc hmem

theorem parseChars_eq_ok {cs : List Char} {e : Expr} :
    parseChars cs = .ok e ↔ (Text.trimChars cs).isEmpty = false ∧
      spaced (Grammar.level (cs.length + 1)).condition cs = .ok e [] := by
  rw [parseChars]
  cases hempty : (Text.trimChars cs).isEmpty with
  | true => simp
  | false =>
    simp only [Bool.false_eq_true, if_false, true_and]
    cases hread : spaced (Grammar.level (cs.length + 1)).condition cs with
    | ok a rest => cases rest <;> simp
    | miss p => simp
    | stop p fault => cases fault <;> simp

/-- The readers of a condition, on the whole text and on the text with the blank. -/
theorem agree_condition {k : Cut} {x x' : List Char} (h : k.Near .start x x') :
    (spaced (Grammar.level (x.length + 1)).condition x).Agree k.Breaks
      (fun y y' => ∃ st, k.Settled st y y')
      (spaced (Grammar.level (x'.length + 1)).condition x') := by
  have hlevels := Grammar.alike_level k le_rfl (Nat.succ_le_succ h.length_le)
  have hread : Takes k.Breaks (x.length + 1) (k.Near .start)
      (spaced (Grammar.level (x.length + 1)).condition)
      (spaced (Grammar.level (x'.length + 1)).condition) fun y y' => ∃ st, k.Settled st y y' := by
    refine Takes.spaced (fun _ _ h => (h.settled (Scan.not_endsMember (by decide) _)).1)
      (hlevels.condition []) ?_
    rintro y y' ⟨last, -, hnear⟩
    refine ⟨_, hnear.settled fun hends => ?_⟩
    -- No group is open any more.
    cases hends.2
  exact (hread x.length (Nat.lt_succ_self _) x x' ⟨h, Nat.lt_succ_self _⟩).mono fun _ _ h => h.1

/-- At the end of the text the blank has been taken, so that it was not in the way. -/
theorem Cut.Settled.end {k : Cut} {st : Scan} {x x' : List Char} (h : k.Settled st x x')
    (hx : x = []) : x' = [] ∧ ¬ k.Breaks := by
  obtain ⟨hnear, hskip⟩ := h
  cases hnear with
  | behind h => exact ⟨hx, h⟩
  | @before u haligned hscan =>
    obtain ⟨rfl, -⟩ := List.append_eq_nil_iff.1 hx
    cases (not_isBlank_of_skip_eq hskip).symm.trans k.isBlank_blank

/-- **A blank between two lexemes changes nothing**, except between a member and the parenthesis
that closes a group. There the condition is no longer read. -/
theorem parse_blank {l r : String} {b : Char} {e : Expr} (hparse : parse (l ++ r) = .ok e)
    (hcut : Aligned l.toList r.toList) (hb : isBlank b = true) :
    (parse (l ++ String.singleton b ++ r) = .ok e ↔
      ¬ ((Scan.after l.toList).EndsMember ∧ r.toList.head? = some ')')) ∧
    ∀ e', parse (l ++ String.singleton b ++ r) = .ok e' → e' = e := by
  have hchars : (l ++ String.singleton b ++ r).toList = l.toList ++ b :: r.toList := by simp
  rw [parse, String.toList_append] at hparse
  rw [parse, hchars]
  obtain ⟨hfull, hread⟩ := parseChars_eq_ok.1 hparse
  have hfull' : (Text.trimChars (l.toList ++ b :: r.toList)).isEmpty = false := by
    rw [Bool.eq_false_iff] at hfull ⊢
    rw [Ne, isEmpty_trimChars_iff] at hfull ⊢
    refine fun h => hfull fun c hc => h c ?_
    rcases List.mem_append.1 hc with hc | hc
    · exact List.mem_append_left _ hc
    · exact List.mem_append_right _ (List.mem_cons_of_mem b hc)
  have hagree := agree_condition (k := ⟨r.toList, b, Scan.after l.toList, hb⟩) (.before hcut rfl)
  rw [hread] at hagree
  simp only [parseChars_eq_ok, hfull', true_and]
  generalize spaced (Grammar.level ((l.toList ++ b :: r.toList).length + 1)).condition
    (l.toList ++ b :: r.toList) = reply at hagree
  cases hagree with
  | ok h =>
    obtain ⟨st, hsettled⟩ := h
    obtain ⟨rfl, hbreaks⟩ := hsettled.end rfl
    refine ⟨⟨fun _ => hbreaks, fun _ => rfl⟩, fun e' he' => ?_⟩
    cases he'
    rfl
  | broken hbreaks =>
    refine ⟨⟨fun h => ?_, fun h => absurd hbreaks h⟩, fun e' he' => ?_⟩
    · cases h
    · cases he'

/-- A line break behind the last member among the arguments of a call. -/
theorem parse_blank_call :
    let l := "(f(2.5, x.size"
    let r := ") >= n && (n: Vec<3>))"
    let e : Expr := .and
      (.compare .ge
        (.call "f" [.num ⟨5, 2, by decide, by decide, by decide, by decide⟩,
          .member (.var "x") "size"])
        (.var "n"))
      (.branded "n" "Vec<3>")
    parse (l ++ r) = .ok e ∧ Aligned l.toList r.toList ∧
      parse (l ++ String.singleton '\n' ++ r) = .ok e := by
  intro l r e
  have hparse : parse (l ++ r) = .ok e := by cbv
  have hcut : Aligned l.toList r.toList := by
    unfold Aligned
    decide +kernel
  exact ⟨hparse, hcut, (parse_blank hparse hcut rfl).1.2 (by decide +kernel)⟩

/-- The parenthesis closes a group. -/
theorem parse_blank_group :
    parse "(x.length)" = .ok (.member (.var "x") "length") ∧
      Aligned "(x.length".toList ")".toList ∧
      parse "(x.length )" = .error (.unexpected 9 ")") := by
  refine ⟨by cbv, ?_, by cbv⟩
  unfold Aligned
  decide +kernel

end Discharge.Expr
