import Discharge.Proofs.Checked
import Discharge.Proofs.Expr.Tokens

/-!
# Reading by levels of precedence

`g.At p cs e` says that the reader for what binds at least as tightly as `p` reads the text `cs` as
`e`, whatever follows that does not bind to it. On the levels of chains, where operators group to
the left, the statement is about the part of the chain that has been read: more of it may follow.
What is read on a level is read on every weaker one (`Grammar.At.of_le`), and one lemma for each
operator puts together what has been read of its operands.
-/

namespace Discharge

theorem CompareOp.precedence_eq (o : CompareOp) : o.precedence = 3 ∨ o.precedence = 4 := by
  cases o <;> simp [CompareOp.precedence]

theorem ArithOp.precedence_of_ne_pow {o : ArithOp} (ho : o ≠ .pow) :
    o.precedence = 5 ∨ o.precedence = 6 := by
  cases o <;> simp_all [ArithOp.precedence]

namespace Expr

open Reader

/-! ## Chains of operators -/

section

variable {α : Type} {op : Reader α} {build : α → Expr → Expr → Expr} {operand : Reader Expr}
  {F G : List Char → Prop} {cs ds : List Char} {e l r : Expr}

/-- One more operator of a chain with its operand. -/
def link (op : Reader α) (operand : Reader Expr) : Reader (α × Expr) := do
  let o ← spaced op
  return (o, ← operand)

/-- The rest of a chain after `e`, of at most `n` operators. -/
def chainFrom (op : Reader α) (build : α → Expr → Expr → Expr) (operand : Reader Expr) (n : Nat)
    (e : Expr) : Reader Expr := do
  let more ← atMost n (link op operand)
  return more.foldl (fun e (o, r) => build o e r) e

/-- The text is read as the part `e` of a chain, which may go on. -/
def Chains (op : Reader α) (build : α → Expr → Expr → Expr) (operand : Reader Expr)
    (F : List Char → Prop) (cs : List Char) (e : Expr) : Prop :=
  ∀ rest, F rest → ∃ rest' n, Left rest rest' ∧ rest'.length ≤ n ∧
    leftAssoc op build operand (cs ++ rest) = chainFrom op build operand n e rest'

theorem link_ok {o : α} {w t : List Char} (ht : skip t = w ++ ' ' :: ds)
    (hop : op (w ++ ' ' :: ds) = .ok o (' ' :: ds)) (hds : Opens ds) {rest : List Char}
    (h : operand ds = .ok r rest) : link op operand t = .ok (o, r) rest := by
  have hspaced : spaced op t = .ok o (skip (' ' :: ds)) := spaced_ok (ht ▸ hop)
  rw [skip_space, hds.skip_eq] at hspaced
  exact (bind_ok hspaced).trans (bind_ok h)

theorem link_miss {rest place : List Char} (h : op (skip rest) = .miss place) :
    link op operand rest = .miss place :=
  bind_miss (spaced_miss h)

theorem chainFrom_link {o : α} {n : Nat} {rest : List Char}
    (h : link op operand cs = .ok (o, r) rest) :
    chainFrom op build operand (n + 1) e cs = chainFrom op build operand n (build o e r) rest := by
  simp only [chainFrom, Bind.bind, atMost, h]
  cases atMost n (link op operand) rest <;> rfl

namespace Chains

/-- A chain starts with any operand. -/
theorem of_reads (h : operand.Reads F cs e) : Chains op build operand F cs e := by
  intro rest hrest
  obtain ⟨rest', hread, hleft⟩ := h rest hrest
  exact ⟨rest', rest'.length, hleft, le_rfl, bind_ok hread⟩

/-- A chain goes on with an operator and an operand. -/
theorem step (hl : Chains op build operand F cs l) (hr : operand.Reads F ds r) (hds : Opens ds)
    {o : α} {w : List Char} (hw : Opens w) (hop : ∀ es, op (w ++ ' ' :: es) = .ok o (' ' :: es))
    (hF : ∀ es, F (' ' :: (w ++ ' ' :: es))) :
    Chains op build operand F (cs ++ ' ' :: (w ++ ' ' :: ds)) (build o l r) := by
  intro rest hrest
  obtain ⟨t, n, hleft, hn, hread⟩ := hl _ (hF (ds ++ rest))
  obtain ⟨rest', hoperand, hleft'⟩ := hr rest hrest
  have ht : skip t = w ++ ' ' :: (ds ++ rest) := by
    rw [hleft.skip_eq, skip_space, (hw.append _).skip_eq]
  have hlink : link op operand t = .ok (o, r) rest' := link_ok ht (hop _) (hds.append rest) hoperand
  -- The operator takes at least one character, so that the bound still suffices.
  have hlen : rest'.length < n := by
    have hle := length_skip_le t
    have hle' := hleft'.length_le
    rw [ht] at hle
    simp at hle
    omega
  obtain ⟨m, rfl⟩ : ∃ m, n = m + 1 := ⟨n - 1, by omega⟩
  refine ⟨rest', m, hleft', by omega, ?_⟩
  rw [← chainFrom_link hlink, ← hread]
  simp

/-- A chain ends where no operator of its own follows. -/
theorem reads (h : Chains op build operand F cs e) (hFG : ∀ rest, G rest → F rest)
    (hmiss : ∀ rest, G rest → ∃ place, op (skip rest) = .miss place) :
    (leftAssoc op build operand).Reads G cs e := by
  intro rest hrest
  obtain ⟨rest', n, hleft, _, hread⟩ := h rest (hFG rest hrest)
  obtain ⟨place, hplace⟩ := hmiss rest hrest
  rw [← hleft.skip_eq] at hplace
  exact ⟨rest', hread.trans (bind_ok (atMost_miss (link_miss hplace))), hleft⟩

end Chains

end

namespace Grammar

variable {g : Grammar} {cs ds : List Char} {e e' l r : Expr}

/-! ## Primary expressions -/

/-- A text starts as no number, text or word does, and is not in parentheses. -/
theorem primary_miss {c : Char} (hc : isBlank c = false) (hdigit : c.isDigit = false)
    (hquote : c ≠ '\'') (hquote' : c ≠ '"') (hname : isNameStart c = false) (hparen : c ≠ '(')
    (cs : List Char) : ∃ place, g.primary (c :: cs) = .miss place := by
  obtain ⟨place, htext⟩ := textReader_miss hquote hquote' cs
  have hopen : char '(' (c :: cs) = .miss (c :: cs) := char_miss fun ds h => by
    cases h
    exact hparen rfl
  refine ⟨c :: cs, spaced_miss ?_⟩
  rw [skip_cons hc]
  refine (orElse_miss (numberReader_miss hdigit cs)).trans ((orElse_miss htext).trans ?_)
  exact (orElse_miss (bind_miss (nameReader_miss hname cs))).trans (bind_miss hopen)

theorem primary_number {whole places : List Char} {q : Fraction} (hne : whole ≠ [])
    (hwhole : Fraction.Digits whole) (hplaces : Fraction.Digits places)
    (hq : Fraction.ofDecimalChars? (whole ++ Fraction.pointed places) = some q) :
    g.primary.Reads (Follow 10) (whole ++ Fraction.pointed places) (.num q) := by
  intro rest hrest
  refine ⟨skip rest, ?_, .skip_right rest⟩
  rw [List.append_assoc]
  exact spaced_of_opens ((opens_digits hne hwhole).append _)
    (orElse_ok (numberReader_append hne hwhole hplaces hq hrest.toBoundary))

theorem primary_text {s : String} (hs : '\'' ∉ s.toList) :
    g.primary.Reads (Follow 10) ('\'' :: (s.toList ++ ['\''])) (.str s) := by
  intro rest _
  refine ⟨skip rest, ?_, .skip_right rest⟩
  have htext : '\'' :: (s.toList ++ ['\'']) ++ rest = '\'' :: (s.toList ++ '\'' :: rest) := by simp
  rw [htext]
  refine spaced_of_opens (opens_cons rfl _) ?_
  exact (orElse_miss (numberReader_miss rfl _)).trans (orElse_ok (textReader_append hs rest))

theorem primary_word {x : String} (hx : isName x = true) :
    g.primary.Reads (Follow 10) x.toList
      (if x = "true" then .bool true else if x = "false" then .bool false else .var x) := by
  intro rest hrest
  refine ⟨skip rest, ?_, .skip_right rest⟩
  have hword := wordReader_append hx hrest.toBoundary
  refine spaced_of_opens ((opens_name hx).append rest) ?_
  obtain ⟨c, cs, hcs, hc, _⟩ := isName_iff.1 hx
  rw [hcs] at hword ⊢
  have hquote : c ≠ '\'' := by
    rintro rfl
    cases hc
  have hquote' : c ≠ '"' := by
    rintro rfl
    cases hc
  obtain ⟨place, htext⟩ := textReader_miss hquote hquote' (cs ++ rest)
  refine (orElse_miss (numberReader_miss (isDigit_of_isNameStart hc) _)).trans ?_
  exact (orElse_miss htext).trans (orElse_ok hword)

/-- A condition in parentheses is read as the condition. -/
theorem primary_paren (h : ∀ rest, Closed rest → g.condition (cs ++ rest) = .ok e rest) :
    g.primary.Reads (Follow 10) ('(' :: (cs ++ [')'])) e := by
  intro rest _
  refine ⟨skip rest, ?_, .skip_right rest⟩
  obtain ⟨place, htext⟩ := textReader_miss (c := '(') (by decide) (by decide) (cs ++ ')' :: rest)
  have hparen : (do
      let _ ← char '('
      let e ← g.condition
      let _ ← commit (char ')')
      return e) ('(' :: (cs ++ ')' :: rest)) = .ok e rest :=
    (bind_ok (char_cons '(' _)).trans ((bind_ok (h _ (.inr ⟨rest, rfl⟩))).trans
      (bind_ok (commit_ok (char_cons ')' rest))))
  have htext' : '(' :: (cs ++ [')']) ++ rest = '(' :: (cs ++ ')' :: rest) := by simp
  rw [htext']
  refine spaced_of_opens (opens_cons rfl _) ?_
  refine (orElse_miss (numberReader_miss rfl _)).trans ((orElse_miss htext).trans ?_)
  exact (orElse_miss (bind_miss (nameReader_miss rfl _))).trans hparen

/-! ## Suffixes -/

/-- The rest of an expression after `e`, of at most `n` suffixes. -/
def suffixesFrom (g : Grammar) (n : Nat) (e : Expr) : Reader Expr := do
  let suffixes ← atMost n g.suffix
  match suffixes.foldlM applySuffix? e with
  | some e => return e
  | none => abort (← remaining) .unexpected

/-- The text is read as the part `e` of an expression with suffixes, more of which may follow. -/
def Postfixes (g : Grammar) (cs : List Char) (e : Expr) : Prop :=
  ∀ rest, Follow 10 rest → ∃ rest' n, Left rest rest' ∧ rest'.length ≤ n ∧
    g.postfixed (cs ++ rest) = g.suffixesFrom n e rest'

theorem suffixesFrom_suffix {s : Suffix} {n : Nat} {rest : List Char}
    (h : g.suffix cs = .ok s rest) (he : applySuffix? e s = some e') :
    g.suffixesFrom (n + 1) e cs = g.suffixesFrom n e' rest := by
  simp only [suffixesFrom, Bind.bind, atMost, h]
  cases atMost n g.suffix rest with
  | ok ss rest' => simp [Pure.pure, he]
  | miss place => rfl
  | stop place fault => rfl

/-- A field that follows. -/
theorem suffix_field {f : String} (hf : isName f = true) :
    g.suffix.Reads (Follow 10) ('.' :: f.toList) (.field f) := by
  intro rest hrest
  refine ⟨rest, ?_, .refl rest⟩
  have hdot : spaced (char '.') ('.' :: (f.toList ++ rest)) = .ok '.' (skip (f.toList ++ rest)) :=
    spaced_char rfl _
  rw [((opens_name hf).append rest).skip_eq] at hdot
  exact orElse_ok ((bind_ok hdot).trans (bind_ok (nameReader_append hf hrest.name)))

/-- No suffix follows. -/
theorem suffix_miss {rest : List Char} (h : strength (skip rest) < 9) :
    ∃ place, g.suffix rest = .miss place := by
  have hdot : spaced (char '.') rest = .miss (skip rest) :=
    spaced_char_miss (ne_cons_of_strength h fun _ => le_rfl)
  have hparen : spaced (char '(') rest = .miss (skip rest) :=
    spaced_char_miss (ne_cons_of_strength h fun _ => le_rfl)
  exact ⟨_, (orElse_miss (bind_miss hdot)).trans (bind_miss hparen)⟩

namespace Postfixes

theorem of_primary (h : g.primary.Reads (Follow 10) cs e) : g.Postfixes cs e := by
  intro rest hrest
  obtain ⟨rest', hread, hleft⟩ := h rest hrest
  exact ⟨rest', rest'.length, hleft, le_rfl, bind_ok hread⟩

/-- One more suffix, of which the text `ds` starts with no blank. -/
theorem suffix (h : g.Postfixes cs e) {s : Suffix} (hds : Opens ds)
    (hF : ∀ rest, Follow 10 (ds ++ rest)) (hs : g.suffix.Reads (Follow 10) ds s)
    (he : applySuffix? e s = some e') : g.Postfixes (cs ++ ds) e' := by
  intro rest hrest
  obtain ⟨t, n, hleft, hn, hread⟩ := h _ (hF rest)
  obtain rfl : t = ds ++ rest := hleft.eq_of_skip (hds.append rest).skip_eq
  obtain ⟨rest', hsuffix, hleft'⟩ := hs rest hrest
  have hlen : rest'.length < n := by
    obtain ⟨c, es, rfl, _⟩ := hds
    have := hleft'.length_le
    simp at hn
    omega
  obtain ⟨m, rfl⟩ : ∃ m, n = m + 1 := ⟨n - 1, by omega⟩
  refine ⟨rest', m, hleft', by omega, ?_⟩
  rw [List.append_assoc, hread, suffixesFrom_suffix hsuffix he]

theorem field (h : g.Postfixes cs e) {f : String} (hf : isName f = true) :
    g.Postfixes (cs ++ '.' :: f.toList) (.member e f) :=
  h.suffix (opens_cons rfl _) (Follow.field hf) (suffix_field hf) rfl

theorem reads (h : g.Postfixes cs e) : g.postfixed.Reads (Follow 9) cs e := by
  intro rest hrest
  obtain ⟨rest', n, hleft, _, hread⟩ := h rest (hrest.mono (by decide))
  obtain ⟨place, hmiss⟩ := suffix_miss (g := g) (hleft.skip_eq ▸ hrest.strength_lt)
  exact ⟨rest', hread.trans (bind_ok (atMost_miss hmiss)), hleft⟩

end Postfixes

/-! ## Powers and signs -/

/-- The text starts with no blank, with no sign, and with nothing that makes a comparison of a sign
before it. -/
def Unsigned (cs : List Char) : Prop :=
  ∃ c ds, cs = c :: ds ∧ isBlank c = false ∧ c ≠ '!' ∧ c ≠ '-' ∧ c ≠ '='

theorem Unsigned.opens (h : Unsigned cs) : Opens cs := by
  obtain ⟨c, ds, rfl, hc, _⟩ := h
  exact opens_cons hc ds

theorem power_of_postfixed (h : g.postfixed.Reads (Follow 9) cs e) :
    g.power.Reads (Follow 7) cs e := by
  intro rest hrest
  obtain ⟨rest', hread, hleft⟩ := h rest (hrest.mono (by decide))
  have hstars : word ['*', '*'] (skip rest') = .miss (skip rest') := by
    rw [hleft.skip_eq, word, if_neg]
    intro hstars
    obtain ⟨ds, hds⟩ := List.isPrefixOf_iff_prefix.1 hstars
    have hlt := hrest.strength_lt
    rw [← hds] at hlt
    exact absurd hlt (by decide : ¬ 8 < 7)
  exact ⟨rest', (bind_ok hread).trans (bind_ok (optional_miss (bind_miss (spaced_miss hstars)))),
    hleft⟩

/-- The base of a power takes suffixes only, and the exponent signs as well. -/
theorem power_pow (hl : g.postfixed.Reads (Follow 9) cs l) (hr : g.unary.Reads (Follow 7) ds r)
    (hds : Opens ds) :
    g.power.Reads (Follow 7) (cs ++ ' ' :: '*' :: '*' :: ' ' :: ds) (.arith .pow l r) := by
  intro rest hrest
  obtain ⟨t, hbase, ht⟩ := hl (' ' :: '*' :: '*' :: ' ' :: (ds ++ rest))
    (.operator rfl (by decide) (by decide : 8 < 9))
  obtain ⟨rest', hexponent, hleft⟩ := hr rest hrest
  have hstars : spaced (word ['*', '*']) t = .ok () (skip (' ' :: (ds ++ rest))) := by
    refine spaced_ok ?_
    rw [ht.skip_eq]
    exact word_append ['*', '*'] (' ' :: (ds ++ rest))
  rw [skip_space, (hds.append rest).skip_eq] at hstars
  refine ⟨rest', ?_, hleft⟩
  rw [List.append_assoc]
  exact (bind_ok hbase).trans (bind_ok (optional_ok ((bind_ok hstars).trans hexponent)))

theorem unaryLevel_eq (g : Grammar) :
    g.unaryLevel = orElse
      (do
        let _ ← spaced do let c ← char '!'; notNext (· == '='); return c
        return .not (← g.unary))
      (orElse
        (do
          let _ ← spaced (char '-')
          return negate (← g.unary))
        g.power) := rfl

/-- Before anything but a sign stands at most a power. -/
theorem unaryLevel_eq_power {c : Char} (hc : isBlank c = false) (hnot : c ≠ '!') (hneg : c ≠ '-')
    (cs : List Char) : g.unaryLevel (c :: cs) = g.power (c :: cs) := by
  have hmiss : ∀ sign, c ≠ sign → char sign (skip (c :: cs)) = .miss (c :: cs) := by
    intro sign hsign
    rw [skip_cons hc]
    exact char_miss fun ds hds => by
      cases hds
      exact hsign rfl
  rw [unaryLevel_eq]
  refine (orElse_miss (bind_miss (spaced_miss (bind_miss (hmiss '!' hnot))))).trans ?_
  exact orElse_miss (bind_miss (spaced_miss (hmiss '-' hneg)))

theorem unaryLevel_of_power (hcs : Unsigned cs) (h : g.power.Reads (Follow 7) cs e) :
    g.unaryLevel.Reads (Follow 7) cs e := by
  intro rest hrest
  obtain ⟨rest', hread, hleft⟩ := h rest hrest
  obtain ⟨c, ds, rfl, hc, hnot, hneg, _⟩ := hcs
  exact ⟨rest', (unaryLevel_eq_power hc hnot hneg _).trans hread, hleft⟩

theorem unaryLevel_not (h : g.unary.Reads (Follow 7) cs e) (hcs : Unsigned cs) :
    g.unaryLevel.Reads (Follow 7) ('!' :: cs) (.not e) := by
  intro rest hrest
  obtain ⟨rest', hread, hleft⟩ := h rest hrest
  have hsign : spaced (do let c ← char '!'; notNext (· == '='); return c) ('!' :: cs ++ rest) =
      .ok '!' (skip (cs ++ rest)) := by
    refine spaced_of_opens (opens_cons rfl _) ((bind_ok (char_cons '!' _)).trans ?_)
    refine bind_ok (notNext_ok fun c ds hds => beq_eq_false_iff_ne.2 ?_)
    obtain ⟨d, es, rfl, _, _, _, heq⟩ := hcs
    cases hds
    exact heq
  rw [(hcs.opens.append rest).skip_eq] at hsign
  exact ⟨rest', orElse_ok ((bind_ok hsign).trans (bind_ok hread)), hleft⟩

theorem unaryLevel_neg (h : g.unary.Reads (Follow 7) cs e) (hcs : Opens cs) :
    g.unaryLevel.Reads (Follow 7) ('-' :: cs) (negate e) := by
  intro rest hrest
  obtain ⟨rest', hread, hleft⟩ := h rest hrest
  have hnot : char '!' (skip ('-' :: cs ++ rest)) = .miss ('-' :: cs ++ rest) := by
    refine char_miss fun ds hds => ?_
    cases hds
  have hsign : spaced (char '-') ('-' :: cs ++ rest) = .ok '-' (skip (cs ++ rest)) :=
    spaced_char rfl _
  rw [(hcs.append rest).skip_eq] at hsign
  refine ⟨rest', ?_, hleft⟩
  rw [unaryLevel_eq]
  refine (orElse_miss (bind_miss (spaced_miss (bind_miss hnot)))).trans ?_
  exact orElse_ok ((bind_ok hsign).trans (bind_ok hread))

/-! ## Relations -/

theorem relation_of_sum (h : g.sum.Reads (Follow 5) cs e) : g.relation.Reads (Follow 4) cs e := by
  intro rest hrest
  obtain ⟨rest', hread, hleft⟩ := h rest (hrest.mono (by decide))
  have hmiss : link relationOp g.sum rest' = .miss (skip rest') :=
    link_miss (relationOp_miss (hleft.skip_eq ▸ hrest.strength_lt))
  exact ⟨rest', (bind_ok hread).trans (bind_ok (optional_miss hmiss)), hleft⟩

theorem opens_symbol (o : CompareOp) : Opens o.symbol.toList := by
  cases o <;> exact opens_cons rfl _

theorem relation_compare {o : CompareOp} (ho : o.precedence = 4) (hl : g.sum.Reads (Follow 5) cs l)
    (hr : g.sum.Reads (Follow 5) ds r) (hds : Opens ds) :
    g.relation.Reads (Follow 4) (cs ++ ' ' :: (o.symbol.toList ++ ' ' :: ds)) (.compare o l r) := by
  intro rest hrest
  have hfollow : Follow 5 (' ' :: (o.symbol.toList ++ ' ' :: (ds ++ rest))) := by
    cases o <;> first
      | exact .operator rfl (by decide) (by decide : 4 < 5)
      | cases ho
  obtain ⟨t, hleftOperand, ht⟩ := hl _ hfollow
  obtain ⟨rest', hright, hleft⟩ := hr rest (hrest.mono (by decide))
  have hlink : link relationOp g.sum t = .ok (o, r) rest' := by
    refine link_ok ?_ (relationOp_ok ho _) (hds.append rest) hright
    rw [ht.skip_eq, skip_space, ((opens_symbol o).append _).skip_eq]
  refine ⟨rest', ?_, hleft⟩
  rw [List.append_assoc, List.cons_append, List.append_assoc]
  exact (bind_ok hleftOperand).trans (bind_ok (optional_ok hlink))

/-! ## Levels -/

/-- The text is read as `e` by what reads everything that binds at least as tightly as `p`. -/
def At (g : Grammar) (p : Nat) (cs : List Char) (e : Expr) : Prop :=
  match p with
  | 1 => Chains (word ['|', '|']) (fun _ => .or) g.conjunctionLevel (Follow 2) cs e
  | 2 => Chains (word ['&', '&']) (fun _ => .and) g.equality (Follow 3) cs e
  | 3 => Chains equalityOp .compare g.relation (Follow 4) cs e
  | 4 => g.relation.Reads (Follow 4) cs e
  | 5 => Chains sumOp .arith g.product (Follow 6) cs e
  | 6 => Chains productOp .arith g.unaryLevel (Follow 7) cs e
  | 7 => g.unaryLevel.Reads (Follow 7) cs e
  | 8 => g.power.Reads (Follow 7) cs e
  | 9 => g.Postfixes cs e
  | _ => g.primary.Reads (Follow 10) cs e

theorem At.product (h : g.At 6 cs e) : g.product.Reads (Follow 6) cs e :=
  Chains.reads h (fun _ hrest => hrest.mono (by decide))
    fun _ hrest => ⟨_, productOp_miss hrest.strength_lt⟩

theorem At.sum (h : g.At 5 cs e) : g.sum.Reads (Follow 5) cs e :=
  Chains.reads h (fun _ hrest => hrest.mono (by decide))
    fun _ hrest => ⟨_, sumOp_miss hrest.strength_lt⟩

theorem At.equality (h : g.At 3 cs e) : g.equality.Reads (Follow 3) cs e :=
  Chains.reads h (fun _ hrest => hrest.mono (by decide))
    fun _ hrest => ⟨_, equalityOp_miss hrest.strength_lt⟩

theorem At.conjunction (h : g.At 2 cs e) : g.conjunctionLevel.Reads (Follow 2) cs e :=
  Chains.reads h (fun _ hrest => hrest.mono (by decide)) fun _ hrest =>
    ⟨_, word_miss (ne_cons_of_strength hrest.strength_lt fun _ => le_rfl)⟩

theorem At.disjunction (h : g.At 1 cs e) : g.disjunctionLevel.Reads (Follow 1) cs e :=
  Chains.reads h (fun _ hrest => hrest.mono (by decide)) fun _ hrest =>
    ⟨_, word_miss (ne_cons_of_strength hrest.strength_lt fun _ => le_rfl)⟩

/-- What is read on one level is read on the next weaker one; at the level of signs it must not
start with one. -/
theorem At.lift {p : Nat} (hp : 1 ≤ p) (hp' : p ≤ 9) (h : g.At (p + 1) cs e)
    (hcs : p = 7 → Unsigned cs) : g.At p cs e := by
  -- A chain starts with any operand; the other levels try an operator of their own and find none.
  interval_cases p
  · exact .of_reads (At.conjunction h)
  · exact .of_reads (At.equality h)
  · exact .of_reads h
  · exact relation_of_sum (At.sum h)
  · exact .of_reads (At.product h)
  · exact .of_reads h
  · exact unaryLevel_of_power (hcs rfl) h
  · exact power_of_postfixed (Postfixes.reads h)
  · exact .of_primary h

/-- **What is read on one level is read on every weaker one.** -/
theorem At.of_le {p q : Nat} (h : g.At q cs e) (hp : 1 ≤ p) (hpq : p ≤ q) (hq : q ≤ 10)
    (hcs : p ≤ 7 → 8 ≤ q → Unsigned cs) : g.At p cs e := by
  induction hpq with
  | refl => exact h
  | @step q hpq ih =>
    have hpq : p ≤ q := hpq
    refine ih (h.lift (hp.trans hpq) (by omega) fun hq7 => hcs (by omega) (by omega)) (by omega) ?_
    intro hp7 hq8
    exact hcs hp7 (by omega)

/-! ## Operators -/

theorem At.or (hl : g.At 1 cs l) (hr : g.At 2 ds r) (hds : Opens ds) :
    g.At 1 (cs ++ ' ' :: '|' :: '|' :: ' ' :: ds) (.or l r) :=
  Chains.step (o := ()) (w := ['|', '|']) hl (At.conjunction hr) hds (opens_cons rfl _)
    (fun es => word_append ['|', '|'] (' ' :: es))
    fun es => .operator rfl (by decide) (by decide : 1 < 2)

theorem At.and (hl : g.At 2 cs l) (hr : g.At 3 ds r) (hds : Opens ds) :
    g.At 2 (cs ++ ' ' :: '&' :: '&' :: ' ' :: ds) (.and l r) :=
  Chains.step (o := ()) (w := ['&', '&']) hl (At.equality hr) hds (opens_cons rfl _)
    (fun es => word_append ['&', '&'] (' ' :: es))
    fun es => .operator rfl (by decide) (by decide : 2 < 3)

/-- Both operands of a comparison bind more tightly than it does. -/
theorem At.compare {o : CompareOp} (hl : g.At (o.precedence + 1) cs l)
    (hr : g.At (o.precedence + 1) ds r) (hds : Opens ds) :
    g.At o.precedence (cs ++ ' ' :: (o.symbol.toList ++ ' ' :: ds)) (.compare o l r) := by
  rcases o.precedence_eq with ho | ho <;> rw [ho] at hl hr ⊢
  · refine Chains.step (.of_reads hl) hr hds (opens_symbol o) (equalityOp_ok ho) fun es => ?_
    cases o <;> first
      | exact .operator rfl (by decide) (by decide : 3 < 4)
      | cases ho
  · exact relation_compare ho (At.sum hl) (At.sum hr) hds

/-- The right operand of a sum or product binds more tightly than it does. -/
theorem At.arith {o : ArithOp} (ho : o ≠ .pow) (hl : g.At o.precedence cs l)
    (hr : g.At (o.precedence + 1) ds r) (hds : Opens ds) :
    g.At o.precedence (cs ++ ' ' :: (o.symbol.toList ++ ' ' :: ds)) (.arith o l r) := by
  have hw : Opens o.symbol.toList := by cases o <;> exact opens_cons rfl _
  cases o with
  | pow => exact absurd rfl ho
  | add =>
    exact Chains.step hl (At.product hr) hds hw (sumOp_ok (.inl rfl))
      fun es => .operator rfl (by decide) (by decide : 5 < 6)
  | sub =>
    exact Chains.step hl (At.product hr) hds hw (sumOp_ok (.inr rfl))
      fun es => .operator rfl (by decide) (by decide : 5 < 6)
  | mul =>
    exact Chains.step hl hr hds hw (productOp_ok (.inl rfl))
      fun es => .operator rfl (by decide) (by decide : 6 < 7)
  | div =>
    exact Chains.step hl hr hds hw (productOp_ok (.inr (.inl rfl)))
      fun es => .operator rfl (by decide) (by decide : 6 < 7)
  | rem =>
    exact Chains.step hl hr hds hw (productOp_ok (.inr (.inr rfl)))
      fun es => .operator rfl (by decide) (by decide : 6 < 7)

/-! ## Arguments -/

/-- No expression starts with a closing parenthesis. -/
theorem disjunctionLevel_miss (cs : List Char) :
    ∃ place, g.disjunctionLevel (')' :: cs) = .miss place := by
  obtain ⟨place, hprimary⟩ := primary_miss (g := g) (c := ')') rfl rfl (by decide) (by decide) rfl
    (by decide) cs
  have hunary : g.unaryLevel (')' :: cs) = .miss place :=
    (unaryLevel_eq_power rfl (by decide) (by decide) cs).trans (bind_miss (bind_miss hprimary))
  exact ⟨place, bind_miss (bind_miss (bind_miss (bind_miss (bind_miss (bind_miss hunary)))))⟩

theorem suffix_args {css : List (List Char)} {as : List Expr}
    (h : List.Forall₂ (fun cs a => Opens cs ∧ g.disjunction.Reads (Follow 1) cs a) css as)
    (hclose : ∀ rest, ∃ place, g.disjunction (')' :: rest) = .miss place) :
    g.suffix.Reads (Follow 10) ('(' :: (List.intercalate [',', ' '] css ++ [')'])) (.args as) := by
  intro rest _
  have hstop : ∀ ds, skip (')' :: rest) ≠ ',' :: ds := fun ds hds => by
    rw [skip_cons rfl] at hds
    cases hds
  obtain ⟨t, hargs, ht⟩ := sepBy_intercalate (Follow.comma Nat.one_pos) h
    (Follow.close Nat.one_pos rest) hstop fun _ => hclose rest
  obtain rfl := ht.eq_of_skip (skip_cons rfl rest)
  have hdot : spaced (char '.') ('(' :: (List.intercalate [',', ' '] css ++ ')' :: rest)) =
      .miss ('(' :: (List.intercalate [',', ' '] css ++ ')' :: rest)) :=
    spaced_char_miss fun ds hds => by cases hds
  have hopen : spaced (char '(') ('(' :: (List.intercalate [',', ' '] css ++ ')' :: rest)) =
      .ok '(' (skip (List.intercalate [',', ' '] css ++ ')' :: rest)) := spaced_char rfl _
  rw [skip_intercalate (fun cs hcs => ((forall₂_mem_left h) cs hcs).elim fun _ ha => ha.2.1)
    (opens_cons rfl rest)] at hopen
  refine ⟨skip rest, ?_, .skip_right rest⟩
  have htext : '(' :: (List.intercalate [',', ' '] css ++ [')']) ++ rest =
      '(' :: (List.intercalate [',', ' '] css ++ ')' :: rest) := by simp
  rw [htext]
  refine (orElse_miss (bind_miss hdot)).trans ((bind_ok hopen).trans ((bind_ok hargs).trans ?_))
  exact bind_ok (commit_ok (spaced_char rfl rest))

/-! ## Conditions -/

theorem conditionLevel_annotation {x b : String} (hx : isName x = true) (hb : IsBrand b)
    {rest : List Char} (hrest : Closed rest) :
    g.conditionLevel (x.toList ++ ':' :: ' ' :: (b.toList ++ rest)) = .ok (.branded x b) rest :=
  orElse_ok (annotationReader_append hx hb hrest)

theorem At.condition (h : g.At 1 cs e) {rest : List Char} (hrest : Closed rest)
    (hcs : NotAnnotation (cs ++ rest)) : g.conditionLevel (cs ++ rest) = .ok e rest := by
  obtain ⟨place, hmiss⟩ := annotationReader_miss hcs
  obtain ⟨rest', hread, hleft⟩ := At.disjunction h rest (hrest.follow (by decide))
  obtain rfl := hleft.eq_of_skip hrest.skip_eq
  exact (orElse_miss hmiss).trans hread

end Grammar

end Expr

end Discharge
