import Discharge.Proofs.Expr.NormalForm
import Discharge.Proofs.Fact.Reading

/-!
# Spellings of a condition

`Respelled` is the least congruence under which a comparison may be turned round, a double negation
dropped and a negation moved into a comparison. Canonical forms are made to remove these
differences, and they do so up to one case: the sides of an equality are ordered by their texts, and
two sides that print alike keep the order in which they are given. This can be seen only where one
of them is put in parentheses and the other is not (`text_equality_turned_iff`). An expression
without such an equality is `Settled`. All its spellings are then settled too
(`Respelled.settled_and_look`), and their canonical forms look the same (`Respelled.sameLook`).
-/

namespace Discharge

namespace CompareOp

variable (o : CompareOp)

theorem negated_flipped : o.flipped.negated = o.negated.flipped := by
  cases o <;> rfl

theorem negated_negated : o.negated.negated = o := by
  cases o <;> rfl

theorem flipped_equality_iff : o.flipped = .eq ∨ o.flipped = .ne ↔ o = .eq ∨ o = .ne := by
  cases o <;> decide

theorem negated_equality_iff : o.negated = .eq ∨ o.negated = .ne ↔ o = .eq ∨ o = .ne := by
  cases o <;> decide

end CompareOp

namespace Expr

variable {e e' l l' r r' : Expr}

/-- Two spellings of one condition. -/
inductive Respelled : Expr → Expr → Prop
  | refl (e : Expr) : Respelled e e
  | symm {e e' : Expr} (h : Respelled e e') : Respelled e' e
  | trans {e e' e'' : Expr} (h : Respelled e e') (h' : Respelled e' e'') : Respelled e e''
  | turn (o : CompareOp) (l r : Expr) : Respelled (.compare o l r) (.compare o.flipped r l)
  | notNot (e : Expr) : Respelled (.not (.not e)) e
  | notCompare (o : CompareOp) (l r : Expr) :
      Respelled (.not (.compare o l r)) (.compare o.negated l r)
  | member (f : String) {e e' : Expr} (h : Respelled e e') :
      Respelled (.member e f) (.member e' f)
  | neg {e e' : Expr} (h : Respelled e e') : Respelled (.neg e) (.neg e')
  | not {e e' : Expr} (h : Respelled e e') : Respelled (.not e) (.not e')
  | arith (o : ArithOp) {l l' r r' : Expr} (hl : Respelled l l') (hr : Respelled r r') :
      Respelled (.arith o l r) (.arith o l' r')
  | compare (o : CompareOp) {l l' r r' : Expr} (hl : Respelled l l') (hr : Respelled r r') :
      Respelled (.compare o l r) (.compare o l' r')
  | and {l l' r r' : Expr} (hl : Respelled l l') (hr : Respelled r r') :
      Respelled (.and l r) (.and l' r')
  | or {l l' r r' : Expr} (hl : Respelled l l') (hr : Respelled r r') :
      Respelled (.or l r) (.or l' r')
  | call (f : String) (before after : List Expr) {a a' : Expr} (h : Respelled a a') :
      Respelled (.call f (before ++ a :: after)) (.call f (before ++ a' :: after))
  | receiver (f : String) (as : List Expr) {e e' : Expr} (h : Respelled e e') :
      Respelled (.invoke e f as) (.invoke e' f as)
  | invoke (e : Expr) (f : String) (before after : List Expr) {a a' : Expr} (h : Respelled a a') :
      Respelled (.invoke e f (before ++ a :: after)) (.invoke e f (before ++ a' :: after))

/-! ## What is seen of an expression -/

/-- The expressions cannot be told apart by what is put around them: they have one text, they bind
equally tightly, and they are the same literal if one of them is a literal. -/
structure SameLook (c d : Expr) : Prop where
  text : c.text = d.text
  precedence : c.precedence = d.precedence
  number : c.asNum = d.asNum

namespace SameLook

attribute [local simp] Expr.text

theorem refl (c : Expr) : SameLook c c := ⟨rfl, rfl, rfl⟩

theorem symm {c d : Expr} (h : SameLook c d) : SameLook d c :=
  ⟨h.text.symm, h.precedence.symm, h.number.symm⟩

theorem trans {c d k : Expr} (h : SameLook c d) (h' : SameLook d k) : SameLook c k :=
  ⟨h.text.trans h'.text, h.precedence.trans h'.precedence, h.number.trans h'.number⟩

theorem operandText {c d : Expr} (h : SameLook c d) (least : Nat) :
    operandText least c c.text = operandText least d d.text := by
  rw [Expr.operandText, Expr.operandText, h.text, h.precedence]

theorem member {c d : Expr} (h : SameLook c d) (f : String) :
    SameLook (.member c f) (.member d f) :=
  ⟨by rw [Expr.text, Expr.text, h.operandText], rfl, rfl⟩

theorem not {c d : Expr} (h : SameLook c d) : SameLook (.not c) (.not d) :=
  ⟨by rw [Expr.text, Expr.text, h.operandText], rfl, rfl⟩

theorem arith (o : ArithOp) (hl : SameLook l l') (hr : SameLook r r') :
    SameLook (.arith o l r) (.arith o l' r') := by
  refine ⟨?_, rfl, rfl⟩
  cases o <;> simp [hl.operandText, hr.operandText]

theorem compare (o : CompareOp) (hl : SameLook l l') (hr : SameLook r r') :
    SameLook (.compare o l r) (.compare o l' r') :=
  ⟨by rw [Expr.text, Expr.text, hl.operandText, hr.operandText], rfl, rfl⟩

theorem and (hl : SameLook l l') (hr : SameLook r r') : SameLook (.and l r) (.and l' r') :=
  ⟨by rw [Expr.text, Expr.text, hl.operandText, hr.operandText], rfl, rfl⟩

theorem or (hl : SameLook l l') (hr : SameLook r r') : SameLook (.or l r) (.or l' r') :=
  ⟨by rw [Expr.text, Expr.text, hl.operandText, hr.operandText], rfl, rfl⟩

theorem negate {c d : Expr} (h : SameLook c d) : SameLook (negate c) (negate d) := by
  cases hc : c.asNum with
  | some q =>
    have hd := h.number.symm.trans hc
    rw [Known.asNum_eq_some.1 hc, Known.asNum_eq_some.1 hd]
    exact .refl _
  | none =>
    have hd := h.number.symm.trans hc
    have hneg {k : Expr} (hk : k.asNum = none) : Expr.negate k = .neg k :=
      negate_eq_neg fun q hq => by rw [hq] at hk; cases hk
    rw [hneg hc, hneg hd]
    exact ⟨by rw [Expr.text, Expr.text, h.operandText], rfl, rfl⟩

/-- The direction of a comparison depends only on the texts of its sides. -/
theorem orient (o : CompareOp) (hl : SameLook l l') (hr : SameLook r r') :
    SameLook (orient o l r) (orient o l' r') := by
  cases o with
  | lt => exact compare .gt hr hl
  | le => exact compare .ge hr hl
  | gt => exact compare .gt hl hr
  | ge => exact compare .ge hl hr
  | eq | ne =>
    rw [Expr.orient, Expr.orient, hl.text, hr.text]
    split
    · exact compare _ hl hr
    · exact compare _ hr hl

/-- One argument among others. -/
theorem argTexts {c d : Expr} (h : SameLook c d) (before after : List Expr) :
    argTexts (before ++ c :: after) = argTexts (before ++ d :: after) := by
  induction before with
  | nil => rw [List.nil_append, List.nil_append, Expr.argTexts, Expr.argTexts, h.operandText]
  | cons b before ih =>
    rw [List.cons_append, List.cons_append, Expr.argTexts, Expr.argTexts, ih]

theorem call {c d : Expr} (h : SameLook c d) (f : String) (before after : List Expr) :
    SameLook (.call f (before ++ c :: after)) (.call f (before ++ d :: after)) :=
  ⟨by rw [Expr.text, Expr.text, h.argTexts], rfl, rfl⟩

theorem receiver {c d : Expr} (h : SameLook c d) (f : String) (as : List Expr) :
    SameLook (.invoke c f as) (.invoke d f as) :=
  ⟨by rw [Expr.text, Expr.text, h.operandText], rfl, rfl⟩

theorem invoke {c d : Expr} (h : SameLook c d) (e : Expr) (f : String) (before after : List Expr) :
    SameLook (.invoke e f (before ++ c :: after)) (.invoke e f (before ++ d :: after)) :=
  ⟨by rw [Expr.text, Expr.text, h.argTexts], rfl, rfl⟩

end SameLook

/-! ## Equalities between sides that print alike -/

/-- As sides of an equality, the expressions are put in parentheses alike, if they print alike. -/
def BracketedAlike (l r : Expr) : Prop :=
  l.text = r.text → (l.precedence < 4 ↔ r.precedence < 4)

theorem BracketedAlike.symm (h : BracketedAlike l r) : BracketedAlike r l :=
  fun htext => (h htext.symm).symm

theorem bracketedAlike_congr (hl : SameLook l l') (hr : SameLook r r') :
    BracketedAlike l r ↔ BracketedAlike l' r' := by
  rw [BracketedAlike, BracketedAlike, hl.text, hr.text, hl.precedence, hr.precedence]

theorem text_equality {o : CompareOp} (ho : o = .eq ∨ o = .ne) (l r : Expr) :
    (compare o l r).text =
      operandText 4 l l.text ++ " " ++ o.symbol ++ " " ++ operandText 4 r r.text := by
  obtain rfl | rfl := ho <;> rfl

theorem operandText_eq_of_bracketedAlike (h : BracketedAlike l r) (htext : l.text = r.text) :
    operandText 4 l l.text = operandText 4 r r.text := by
  rw [operandText, operandText, htext]
  exact if_congr (h htext) rfl rfl

/-- Turned round, a comparison keeps its look if its sides are bracketed alike. -/
theorem sameLook_orient_flipped (o : CompareOp)
    (h : o = .eq ∨ o = .ne → BracketedAlike l r) :
    SameLook (orient o l r) (orient o.flipped r l) := by
  cases o with
  | lt | le | gt | ge => exact .refl _
  | eq | ne =>
    have halike := h (by simp)
    rcases lt_trichotomy l.text r.text with hlt | htext | hgt
    · rw [CompareOp.flipped, orient, orient, if_pos hlt.le, if_neg (not_le.2 hlt)]
      exact .refl _
    · -- Neither side comes first, so each spelling keeps its own order.
      rw [CompareOp.flipped, orient, orient, if_pos htext.le, if_pos htext.ge]
      refine ⟨?_, rfl, rfl⟩
      rw [text_equality (by simp), text_equality (by simp),
        operandText_eq_of_bracketedAlike halike htext]
    · rw [CompareOp.flipped, orient, orient, if_neg (not_le.2 hgt), if_pos hgt.le]
      exact .refl _

/-- A text before a blank and the same text in parentheses do not change places unnoticed. -/
theorem exchanged_ne (t between : List Char) :
    t ++ ' ' :: (between ++ '(' :: (t ++ [')'])) ≠ '(' :: (t ++ ')' :: ' ' :: (between ++ t)) := by
  intro h
  -- As far as the left side shows the text and the blank, the right side shows a parenthesis and
  -- the text; counting blanks tells the two apart.
  have hsplit : (t ++ [' ']) ++ (between ++ '(' :: (t ++ [')'])) =
      ('(' :: t) ++ (')' :: ' ' :: (between ++ t)) := by
    simpa using h
  have hfront := List.append_inj_left hsplit (by simp)
  have hcount := congrArg (List.count ' ') hfront
  simp at hcount

/-- **The sides of an equality can be exchanged unnoticed exactly if they are bracketed alike.** -/
theorem text_equality_turned_iff {o : CompareOp} (ho : o = .eq ∨ o = .ne) (l r : Expr) :
    (compare o l r).canonical.text = (compare o r l).canonical.text ↔
      BracketedAlike l.canonical r.canonical := by
  have hflipped : o.flipped = o := by obtain rfl | rfl := ho <;> rfl
  constructor
  · intro h htext
    rw [canonical, canonical, orient_eq_self_of_le ho htext.le, orient_eq_self_of_le ho htext.ge,
      text_equality ho, text_equality ho, operandText, operandText, htext, String.ext_iff] at h
    by_cases hl : l.canonical.precedence < 4 <;> by_cases hr : r.canonical.precedence < 4
    · exact iff_of_true hl hr
    · rw [if_pos hl, if_neg hr] at h
      refine absurd ?_ (exchanged_ne r.canonical.text.toList (o.symbol.toList ++ [' ']))
      simpa using h.symm
    · rw [if_neg hl, if_pos hr] at h
      refine absurd ?_ (exchanged_ne r.canonical.text.toList (o.symbol.toList ++ [' ']))
      simpa using h
    · exact iff_of_false hl hr
  · intro h
    have hlook := sameLook_orient_flipped o fun _ => h
    rw [hflipped] at hlook
    exact hlook.text

/-! ## Settled expressions -/

mutual

/-- The sides of each equality in the expression are bracketed alike in canonical form. -/
def Settled : Expr → Prop
  | .bool _ | .num _ | .str _ | .var _ | .branded .. => True
  | .member e _ | .neg e | .not e => e.Settled
  | .arith _ l r | .and l r | .or l r => l.Settled ∧ r.Settled
  | .compare o l r =>
    l.Settled ∧ r.Settled ∧ (o = .eq ∨ o = .ne → BracketedAlike l.canonical r.canonical)
  | .call _ as => SettledList as
  | .invoke e _ as => e.Settled ∧ SettledList as

/-- Each argument is settled. -/
def SettledList : List Expr → Prop
  | [] => True
  | a :: as => a.Settled ∧ SettledList as

end

theorem settledList_iff {as : List Expr} : SettledList as ↔ ∀ a ∈ as, a.Settled := by
  induction as with
  | nil => simp [SettledList]
  | cons a as ih => simp [SettledList, ih]

theorem settledList_middle {before after : List Expr} :
    SettledList (before ++ e :: after) ↔
      e.Settled ∧ SettledList before ∧ SettledList after := by
  simp only [settledList_iff, List.forall_mem_append, List.forall_mem_cons]
  exact and_left_comm

/-- The expressions, and their negations, look the same in canonical form. -/
structure SameCanonicalLook (e e' : Expr) : Prop where
  plain : SameLook e.canonical e'.canonical
  negated : SameLook (not e).canonical (not e').canonical

theorem SameCanonicalLook.of_keepsNot (he : e.KeepsNot) (he' : e'.KeepsNot)
    (h : SameLook e.canonical e'.canonical) : SameCanonicalLook e e' := by
  refine ⟨h, ?_⟩
  rw [canonical_not he, canonical_not he']
  exact h.not

/-- One spelling is settled exactly if the other is, and then their canonical forms look the
same. -/
theorem Respelled.settled_and_look (h : Respelled e e') :
    (e.Settled ↔ e'.Settled) ∧ (e.Settled → SameCanonicalLook e e') := by
  induction h with
  | refl e => exact ⟨Iff.rfl, fun _ => ⟨.refl _, .refl _⟩⟩
  | symm _ ih =>
    refine ⟨ih.1.symm, fun hs => ?_⟩
    obtain ⟨hplain, hnegated⟩ := ih.2 (ih.1.2 hs)
    exact ⟨hplain.symm, hnegated.symm⟩
  | trans _ _ ih ih' =>
    refine ⟨ih.1.trans ih'.1, fun hs => ?_⟩
    obtain ⟨hplain, hnegated⟩ := ih.2 hs
    obtain ⟨hplain', hnegated'⟩ := ih'.2 (ih.1.1 hs)
    exact ⟨hplain.trans hplain', hnegated.trans hnegated'⟩
  | turn o l r =>
    constructor
    · rw [Settled, Settled, CompareOp.flipped_equality_iff]
      constructor
      · rintro ⟨hl, hr, h⟩
        exact ⟨hr, hl, fun ho => (h ho).symm⟩
      · rintro ⟨hr, hl, h⟩
        exact ⟨hl, hr, fun ho => (h ho).symm⟩
    · rintro ⟨-, -, halike⟩
      refine ⟨sameLook_orient_flipped o halike, ?_⟩
      rw [canonical, canonical, CompareOp.negated_flipped]
      exact sameLook_orient_flipped o.negated fun ho => halike (o.negated_equality_iff.1 ho)
  | notNot e => exact ⟨Iff.rfl, fun _ => ⟨.refl _, .refl _⟩⟩
  | notCompare o l r =>
    constructor
    · rw [Settled, Settled, Settled, CompareOp.negated_equality_iff]
    · refine fun _ => ⟨.refl _, ?_⟩
      rw [canonical, canonical, canonical, CompareOp.negated_negated]
      exact .refl _
  | member f _ ih =>
    exact ⟨ih.1, fun hs => .of_keepsNot trivial trivial ((ih.2 hs).plain.member f)⟩
  | neg _ ih => exact ⟨ih.1, fun hs => .of_keepsNot trivial trivial (ih.2 hs).plain.negate⟩
  | not _ ih => exact ⟨ih.1, fun hs => ⟨(ih.2 hs).negated, (ih.2 hs).plain⟩⟩
  | arith o _ _ ihl ihr =>
    refine ⟨and_congr ihl.1 ihr.1, fun hs => .of_keepsNot trivial trivial ?_⟩
    exact .arith o (ihl.2 hs.1).plain (ihr.2 hs.2).plain
  | compare o _ _ ihl ihr =>
    constructor
    · constructor
      · rintro ⟨hl, hr, h⟩
        have halike := bracketedAlike_congr (ihl.2 hl).plain (ihr.2 hr).plain
        exact ⟨ihl.1.1 hl, ihr.1.1 hr, fun ho => halike.1 (h ho)⟩
      · rintro ⟨hl, hr, h⟩
        have hl := ihl.1.2 hl
        have hr := ihr.1.2 hr
        have halike := bracketedAlike_congr (ihl.2 hl).plain (ihr.2 hr).plain
        exact ⟨hl, hr, fun ho => halike.2 (h ho)⟩
    · rintro ⟨hl, hr, -⟩
      exact ⟨.orient o (ihl.2 hl).plain (ihr.2 hr).plain,
        .orient o.negated (ihl.2 hl).plain (ihr.2 hr).plain⟩
  | and _ _ ihl ihr =>
    refine ⟨and_congr ihl.1 ihr.1, fun hs => .of_keepsNot trivial trivial ?_⟩
    exact .and (ihl.2 hs.1).plain (ihr.2 hs.2).plain
  | or _ _ ihl ihr =>
    refine ⟨and_congr ihl.1 ihr.1, fun hs => .of_keepsNot trivial trivial ?_⟩
    exact .or (ihl.2 hs.1).plain (ihr.2 hs.2).plain
  | call f before after _ ih =>
    rw [Settled, Settled, settledList_middle, settledList_middle]
    refine ⟨and_congr_left fun _ => ih.1, fun hs => .of_keepsNot trivial trivial ?_⟩
    simp only [canonical, canonicalList_eq_map, List.map_append, List.map_cons]
    exact (ih.2 hs.1).plain.call f _ _
  | receiver f as _ ih =>
    refine ⟨and_congr_left fun _ => ih.1, fun hs => .of_keepsNot trivial trivial ?_⟩
    exact (ih.2 hs.1).plain.receiver f _
  | invoke e f before after _ ih =>
    rw [Settled, Settled, settledList_middle, settledList_middle]
    refine ⟨and_congr_right fun _ => and_congr_left fun _ => ih.1,
      fun hs => .of_keepsNot trivial trivial ?_⟩
    simp only [canonical, canonicalList_eq_map, List.map_append, List.map_cons]
    exact (ih.2 hs.2.1).plain.invoke e.canonical f _ _

/-- **The canonical forms of two spellings of a settled condition look the same.** -/
theorem Respelled.sameLook (h : Respelled e e') (hs : e.Settled) :
    SameLook e.canonical e'.canonical :=
  (h.settled_and_look.2 hs).plain

end Expr

end Discharge
