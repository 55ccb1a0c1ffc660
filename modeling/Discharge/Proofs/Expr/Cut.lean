import Discharge.Proofs.Expr.LexicalReaders
import Discharge.Proofs.Reader.Agreement

/-!
# A blank in a condition

A blank is put between two lexemes of a text, at a `Cut`. Readers run on the text and on the text
with the blank, and stay in step: `Cut.Near` relates what is left of the two texts, before the blank
and behind it. Nearly every reader of a lexeme takes the blanks in front of it. The one that does
not closes a group (`Cut.keeps_close`), and the reader of a member leaves the blanks behind the
member. So the blank is in the way exactly between a member and the parenthesis that closes a group.
`Scan` keeps track of the place in the text, lexeme by lexeme, to tell where that is.
-/

namespace Discharge.Expr

open Reader

/-! ## Places in a condition -/

/-- What the last lexeme is. A name after a point is a member. -/
inductive Last where
  | operator
  | point
  | member
  | operand
deriving DecidableEq

/-- What a parenthesis opens. -/
inductive Bracket where
  | group
  | call
deriving DecidableEq

/-- The place after some lexemes: the last of them, and the parentheses that are open. -/
structure Scan where
  last : Last
  opened : List Bracket
deriving DecidableEq

namespace Scan

def start : Scan := ⟨.operator, []⟩

/-- The place after one more lexeme. A parenthesis after an operand opens a call, any other a
group. -/
def step (st : Scan) : List Char → Scan
  | [] => st
  | c :: _ =>
    if c = '(' then
      ⟨.operator, (if st.last = .operand ∨ st.last = .member then .call else .group) :: st.opened⟩
    else if c = ')' then ⟨.operand, st.opened.tail⟩
    else if c = '.' then ⟨.point, st.opened⟩
    else if isNameStart c then ⟨if st.last = .point then .member else .operand, st.opened⟩
    else if isMark c then ⟨.operator, st.opened⟩
    else ⟨.operand, st.opened⟩

/-- The place at the end of a text. -/
def after (cs : List Char) : Scan := (lexemes cs).foldl step start

/-- The place is behind a member, in a group. -/
def EndsMember (st : Scan) : Prop := st.last = .member ∧ st.opened.head? = some .group

instance (st : Scan) : Decidable st.EndsMember := inferInstanceAs (Decidable (_ ∧ _))

variable {st : Scan} {t : List Char}

theorem not_endsMember {last : Last} (h : last ≠ .member) (s : List Bracket) :
    ¬ (⟨last, s⟩ : Scan).EndsMember := fun hends => h hends.1

theorem step_operator (h : StartsWith isOperatorStart t) : st.step t = ⟨.operator, st.opened⟩ := by
  obtain ⟨c, w, rfl, hc⟩ := h
  simp only [isOperatorStart, Bool.and_eq_true, bne_iff_ne] at hc
  obtain ⟨⟨⟨hmark, hopen⟩, hclose⟩, hpoint⟩ := hc
  have hname := not_isNameStart_of_not_isNamePart (isMark_iff.1 hmark).1
  simp [step, hopen, hclose, hpoint, hname, hmark]

theorem ne_of_isNamePart {c : Char} (hc : isNamePart c = true) : c ≠ '(' ∧ c ≠ ')' ∧ c ≠ '.' := by
  refine ⟨?_, ?_, ?_⟩ <;>
    · rintro rfl
      cases hc

theorem step_name (h : StartsWith isNameStart t) :
    st.step t = ⟨if st.last = .point then .member else .operand, st.opened⟩ := by
  obtain ⟨c, w, rfl, hc⟩ := h
  simp [step, ne_of_isNamePart (isNamePart_of_isNameStart hc), hc]

theorem step_digit (h : StartsWith Char.isDigit t) : st.step t = ⟨.operand, st.opened⟩ := by
  obtain ⟨c, w, rfl, hc⟩ := h
  have hpart := isNamePart_of_isDigit hc
  simp [step, ne_of_isNamePart hpart, not_isNameStart_of_isDigit hc, isMark, hpart]

theorem step_quote (h : StartsWith isQuote t) : st.step t = ⟨.operand, st.opened⟩ := by
  obtain ⟨c, w, rfl, hc⟩ := h
  rcases Bool.or_eq_true_iff.1 hc with h | h <;>
    · obtain rfl := eq_of_beq h
      rfl

end Scan

/-! ## The two texts -/

/-- A place in a text where a blank is put in: what follows it, the blank, and where it is. -/
structure Cut where
  rest : List Char
  blank : Char
  scan : Scan
  isBlank_blank : isBlank blank = true

namespace Cut

variable {k : Cut} {st st' : Scan} {x x' : List Char}

/-- The blank is in the way: a group ends with a member, and closes directly behind it. -/
def Breaks (k : Cut) : Prop := k.scan.EndsMember ∧ k.rest.head? = some ')'

/-- What two runs have left to read, the second with the blank put in, at a place of the scan. -/
inductive Near (k : Cut) (st : Scan) : TextRel
  | before {u : List Char} (haligned : Aligned u k.rest)
      (hscan : (lexemes u).foldl Scan.step st = k.scan) :
      Near k st (u ++ k.rest) (u ++ k.blank :: k.rest)
  | behind {x : List Char} (h : ¬ k.Breaks) : Near k st x x

/-- The same, and the second text does not start with a blank. -/
def Settled (k : Cut) (st : Scan) : TextRel := fun x x' => k.Near st x x' ∧ skip x' = x'

theorem Near.length_le (h : k.Near st x x') : x.length ≤ x'.length := by
  cases h with
  | before => simp
  | behind => exact le_rfl

/-- Blanks may be skipped in both texts, except where the blank is in the way. -/
theorem Near.skip (h : k.Near st x x') :
    k.Settled st (skip x) (skip x') ∨
      (k.Breaks ∧ st = k.scan ∧ Reader.skip x = k.rest ∧ Reader.skip x' = k.rest) := by
  cases h with
  | behind h => exact .inl ⟨.behind h, skip_skip _⟩
  | @before u haligned hscan =>
    induction u with
    | nil =>
      rw [List.nil_append, List.nil_append, skip_blank k.isBlank_blank]
      by_cases hbreaks : k.Breaks
      · obtain ⟨ds, hds⟩ := List.head?_eq_some_iff.1 hbreaks.2
        have hskip : Reader.skip k.rest = k.rest := by
          rw [hds]
          exact skip_cons rfl ds
        exact .inr ⟨hbreaks, hscan, hskip, hskip⟩
      · exact .inl ⟨.behind hbreaks, skip_skip _⟩
    | cons c u ih =>
      cases hc : isBlank c with
      | true =>
        rw [List.cons_append, List.cons_append, skip_blank hc, skip_blank hc]
        exact ih (haligned.of_blank hc) (by rwa [lexemes_blank hc] at hscan)
      | false =>
        rw [List.cons_append, List.cons_append, skip_cons hc, skip_cons hc]
        exact .inl ⟨.before haligned hscan, skip_cons hc _⟩

theorem Near.settled (h : k.Near st x x') (hst : ¬ st.EndsMember) :
    k.Settled st (Reader.skip x) (Reader.skip x') :=
  h.skip.resolve_right fun hbroken => hst (hbroken.2.1 ▸ hbroken.1.1)

/-- Two texts that do not start with a blank start with the same lexeme, or end together. -/
theorem Settled.lexeme (h : k.Settled st x x') :
    (x = [] ∧ x' = []) ∨ ∃ c w y y', x = c :: w ++ y ∧ x' = c :: w ++ y' ∧ Heads (c :: w) y ∧
      Heads (c :: w) y' ∧ k.Near (st.step (c :: w)) y y' := by
  obtain ⟨hnear, hskip⟩ := h
  cases hnear with
  | behind h =>
    cases x with
    | nil => exact .inl ⟨rfl, rfl⟩
    | cons c cs =>
      obtain ⟨t, y, hty, ht⟩ := exists_heads (not_isBlank_of_skip_eq hskip) cs
      cases ht with
      | intro hc ht => exact .inr ⟨_, _, y, y, hty, hty, ⟨hc, ht⟩, ⟨hc, ht⟩, .behind h⟩
  | @before u haligned hscan =>
    cases u with
    | nil => cases (not_isBlank_of_skip_eq hskip).symm.trans k.isBlank_blank
    | cons c u =>
      obtain ⟨t, v, htv, hv, hrest, hv'⟩ := haligned.uncons (not_isBlank_of_skip_eq hskip)
      rw [htv, hv.lexemes_eq] at hscan
      rw [htv, List.append_assoc, List.append_assoc]
      have hblank := heads_of_blank hv hrest k.isBlank_blank
      cases hv with
      | intro hc hv =>
        exact .inr ⟨_, _, _, _, rfl, rfl, hrest, hblank, .before hv' hscan⟩

/-! ## Readers of lexemes in step -/

variable {α : Type} {T : List Char → Prop} {r : Reader α} {n : Nat} {s : List Bracket}

theorem takes_of_lexical (hr : Lexical T r) (hstep : ∀ t, T t → st.step t = st') :
    Takes k.Breaks n (k.Settled st) r r (k.Near st') := by
  rintro m hm x x' ⟨hx, hlen⟩
  rcases hx.lexeme with ⟨rfl, rfl⟩ | ⟨c, w, y, y', rfl, rfl, hy, hy', hnear⟩
  · obtain ⟨p, hp⟩ := hr.nil
    rw [hp]
    exact .miss
  · cases hr.verdict c w with
    | ok a h =>
      obtain ⟨ht, hread⟩ := h y hy
      rw [hread, (h y' hy').2]
      refine .ok ⟨hstep _ ht ▸ hnear, ?_⟩
      simp at hlen
      omega
    | miss h =>
      obtain ⟨p, hp⟩ := h y hy
      obtain ⟨p', hp'⟩ := h y' hy'
      rw [hp, hp']
      exact .miss
    | stop h =>
      obtain ⟨p, fault, hp⟩ := h y hy
      rw [hp]
      exact .stop

/-- The place is one of several. -/
def Among (k : Cut) (I : Scan → Prop) : TextRel := fun x x' => ∃ st, I st ∧ k.Near st x x'

/-- What is left once blanks have been skipped. Where the blank is in the way, both texts are just
before the parenthesis. -/
def Skipped (k : Cut) (I : Scan → Prop) : TextRel := fun x x' =>
  ∃ st, I st ∧ (k.Settled st x x' ∨ (st.EndsMember ∧ ∃ ds, x = ')' :: ds ∧ x' = ')' :: ds))

theorem Among.skip {I : Scan → Prop} (h : k.Among I x x') :
    k.Skipped I (Reader.skip x) (Reader.skip x') := by
  obtain ⟨st, hst, hnear⟩ := h
  refine ⟨st, hst, hnear.skip.imp_right ?_⟩
  rintro ⟨hbreaks, hscan, hx, hx'⟩
  obtain ⟨ds, hds⟩ := List.head?_eq_some_iff.1 hbreaks.2
  exact ⟨hscan ▸ hbreaks.1, ds, hx.trans hds, hx'.trans hds⟩

/-- A reader that allows blanks before it takes the blank, if it does not close a group. -/
theorem takes_spaced {I : Scan → Prop} (hr : Lexical T r)
    (hstep : ∀ st, I st → ∀ t, T t → st.step t = st')
    (hclose : ∀ st, I st → st.EndsMember → ∀ ds, ∃ p, r (')' :: ds) = .miss p)
    (hst' : ¬ st'.EndsMember) :
    Takes k.Breaks n (k.Among I) (spaced r) (spaced r) (k.Settled st') := by
  have hread : Takes k.Breaks n (k.Skipped I) r r (k.Near st') := by
    rintro m hm x x' ⟨⟨st, hst, hsettled | ⟨hends, ds, rfl, rfl⟩⟩, hlen⟩
    · exact takes_of_lexical hr (hstep st hst) m hm x x' ⟨hsettled, hlen⟩
    · obtain ⟨p, hp⟩ := hclose st hst hends ds
      rw [hp]
      exact .miss
  exact Takes.spaced (fun x x' h => h.skip) hread fun y y' h => h.settled hst'

/-- What follows an operand: its last lexeme is a member, or blanks behind it have been taken. -/
def After (k : Cut) (s : List Bracket) : TextRel := fun x x' =>
  ∃ last, (last = .member ∨ (last = .operand ∧ skip x' = x')) ∧ k.Near ⟨last, s⟩ x x'

/-- What follows a condition. -/
def Done (k : Cut) (s : List Bracket) : TextRel := fun x x' =>
  ∃ last, (last = .member ∨ skip x' = x') ∧ k.Near ⟨last, s⟩ x x'

theorem After.done (h : k.After s x x') : k.Done s x x' := by
  obtain ⟨last, hlast, hnear⟩ := h
  exact ⟨last, hlast.imp_right And.right, hnear⟩

theorem After.length_le (h : k.After s x x') : x.length ≤ x'.length := by
  obtain ⟨last, -, hnear⟩ := h
  exact hnear.length_le

/-- The place is behind an operand. -/
def IsOperand (s : List Bracket) (st : Scan) : Prop :=
  (st.last = .member ∨ st.last = .operand) ∧ st.opened = s

theorem After.among (h : k.After s x x') : k.Among (IsOperand s) x x' := by
  obtain ⟨last, hlast, hnear⟩ := h
  exact ⟨⟨last, s⟩, ⟨hlast.imp_right And.left, rfl⟩, hnear⟩

theorem Settled.after (h : k.Settled ⟨.operand, s⟩ x x') : k.After s x x' :=
  ⟨.operand, .inr ⟨rfl, h.2⟩, h.1⟩

/-- An operator after an operand. -/
theorem takes_operator (hr : Lexical (StartsWith isOperatorStart) r)
    (hclose : ∀ ds, ∃ p, r (')' :: ds) = .miss p) :
    Takes k.Breaks n (k.After s) (spaced r) (spaced r) (k.Near ⟨.operator, s⟩) := by
  have hspaced : Takes k.Breaks n (k.Among (IsOperand s)) (spaced r) (spaced r)
      (k.Settled ⟨.operator, s⟩) := by
    refine takes_spaced hr ?_ (fun _ _ _ => hclose) (Scan.not_endsMember (by decide) s)
    rintro st ⟨-, rfl⟩ t ht
    exact Scan.step_operator ht
  exact hspaced.mono (fun _ _ h => h.among) fun _ _ h => h.1

/-- **The parenthesis that closes a group** allows no blank before it. So the blank is in the way
where the group ends with a member. -/
theorem keeps_close :
    Keeps k.Breaks n (k.Done (.group :: s)) (commit (char ')')) (commit (char ')'))
      (k.Near ⟨.operand, s⟩) := by
  rintro m hm x x' ⟨⟨last, hlast, hnear⟩, hlen⟩
  by_cases hskip : skip x' = x'
  · have hclose : Takes k.Breaks n (k.Settled ⟨last, .group :: s⟩) (char ')') (char ')')
        (k.Near ⟨.operand, s⟩) :=
      takes_of_lexical (lexical_char rfl (by decide)) fun t ht => ht ▸ rfl
    exact hclose.keeps.commit m hm x x' ⟨⟨hnear, hskip⟩, hlen⟩
  · have hmiss' : char ')' x' = .miss x' := char_miss fun ds hds => hskip (hds ▸ skip_cons rfl ds)
    by_cases hbreaks : k.Breaks
    · rw [commit_miss hmiss']
      exact .broken hbreaks
    · have hmiss : char ')' x = .miss x := by
        refine char_miss fun ds hds => ?_
        cases hnear with
        | behind => exact hskip (hds ▸ skip_cons rfl ds)
        | @before u haligned hscan =>
          cases u with
          | nil =>
            refine hbreaks ⟨?_, List.head?_eq_some_iff.2 ⟨ds, hds⟩⟩
            rw [← hscan, hlast.resolve_right hskip]
            exact ⟨rfl, rfl⟩
          | cons c u =>
            obtain ⟨rfl, -⟩ := List.cons.inj hds
            exact hskip (skip_cons rfl _)
      rw [commit_miss hmiss]
      exact .stop

end Cut

end Discharge.Expr
