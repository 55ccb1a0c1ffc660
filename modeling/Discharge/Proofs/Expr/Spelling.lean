import Discharge.Proofs.Expr.Printable

/-!
# The spelling of what is read

Names and text literals are copied from the text that is read. So the characters of each of them
stand in that text (`spelledIn_of_parse`), and a condition whose text lacks the letters of the
reserved names and of the truth values is printable (`printable_of_parse`).

`r.YieldsOn S P` says of a reader `r` that from a text over the alphabet `S` it reads what has the
property `P`, and leaves a text over `S`. As for `Yields`, there is one lemma for each way of
putting readers together.
-/

namespace Discharge

/-- All characters belong to the alphabet. -/
def Over (S : Char → Prop) (cs : List Char) : Prop := ∀ c ∈ cs, S c

/-! ## Readers over an alphabet -/

namespace Reader

variable {α β : Type} {S : Char → Prop} {P : α → Prop} {Q : β → Prop}

/-- Over the alphabet, whatever is read has the property. -/
def YieldsOn (S : Char → Prop) (r : Reader α) (P : α → Prop) : Prop :=
  ∀ cs a rest, Over S cs → r cs = .ok a rest → P a ∧ Over S rest

namespace YieldsOn

theorem pure {a : α} (ha : P a) : (Pure.pure a : Reader α).YieldsOn S P := by
  intro cs b rest hcs h
  cases h
  exact ⟨ha, hcs⟩

theorem bind {r : Reader α} {f : α → Reader β} (hr : r.YieldsOn S P)
    (hf : ∀ a, P a → (f a).YieldsOn S Q) : (r >>= f).YieldsOn S Q := by
  intro cs b rest hcs h
  simp only [Bind.bind] at h
  cases hr' : r cs with
  | ok a rest' =>
    rw [hr'] at h
    obtain ⟨ha, hrest⟩ := hr _ _ _ hcs hr'
    exact hf a ha _ _ _ hrest h
  | miss p =>
    rw [hr'] at h
    cases h
  | stop p fault =>
    rw [hr'] at h
    cases h

theorem map {r : Reader α} {f : α → β} (hr : r.YieldsOn S P) (hf : ∀ a, P a → Q (f a)) :
    (f <$> r).YieldsOn S Q :=
  hr.bind fun a ha => .pure (hf a ha)

theorem fail : (Reader.fail : Reader α).YieldsOn S P := by
  intro cs a rest _ h
  cases h

theorem abort {place : List Char} {fault : Fault} :
    (Reader.abort place fault : Reader α).YieldsOn S P := by
  intro cs a rest _ h
  cases h

theorem remaining : Reader.remaining.YieldsOn S fun _ => True := by
  intro cs a rest hcs h
  cases h
  exact ⟨trivial, hcs⟩

theorem orElse {r s : Reader α} (hr : r.YieldsOn S P) (hs : s.YieldsOn S P) :
    (Reader.orElse r s).YieldsOn S P := by
  intro cs a rest hcs h
  unfold Reader.orElse at h
  split at h
  · exact hs _ _ _ hcs h
  · exact hr _ _ _ hcs h

theorem commit {r : Reader α} (hr : r.YieldsOn S P) : (Reader.commit r).YieldsOn S P := by
  intro cs a rest hcs h
  unfold Reader.commit at h
  split at h
  · cases h
  · exact hr _ _ _ hcs h

theorem firstOf {rs : List (Reader α)} (hrs : ∀ r ∈ rs, r.YieldsOn S P) :
    (Expr.firstOf rs).YieldsOn S P := by
  induction rs with
  | nil => exact fail
  | cons r rs ih =>
    cases rs with
    | nil => exact hrs r List.mem_cons_self
    | cons s rs =>
      exact .orElse (hrs r List.mem_cons_self) (ih fun t ht => hrs t (List.mem_cons_of_mem _ ht))

theorem optional {r : Reader α} (hr : r.YieldsOn S P) :
    (Reader.optional r).YieldsOn S fun o => ∀ a, o = some a → P a := by
  intro cs o rest hcs h
  unfold Reader.optional at h
  split at h
  · rename_i hread
    cases h
    obtain ⟨ha, hrest⟩ := hr _ _ _ hcs hread
    refine ⟨fun b hb => ?_, hrest⟩
    cases hb
    exact ha
  · cases h
    exact ⟨fun b hb => (by cases hb), hcs⟩
  · cases h

theorem atMost {r : Reader α} (hr : r.YieldsOn S P) (n : Nat) :
    (Reader.atMost n r).YieldsOn S fun as => ∀ a ∈ as, P a := by
  induction n with
  | zero => exact .pure (List.forall_mem_nil _)
  | succ n ih =>
    intro cs as rest hcs h
    unfold Reader.atMost at h
    split at h
    · rename_i a rest' hread
      obtain ⟨ha, hrest'⟩ := hr _ _ _ hcs hread
      have htail : (do return a :: (← Reader.atMost n r) : Reader (List α)).YieldsOn S
          fun as => ∀ a ∈ as, P a :=
        ih.bind fun _ has => .pure (List.forall_mem_cons.2 ⟨ha, has⟩)
      exact htail _ _ _ hrest' h
    · cases h
      exact ⟨List.forall_mem_nil _, hcs⟩
    · cases h

theorem many {r : Reader α} (hr : r.YieldsOn S P) :
    (Reader.many r).YieldsOn S fun as => ∀ a ∈ as, P a :=
  fun cs _ _ hcs h => atMost hr cs.length _ _ _ hcs h

theorem sepBy {sep : Reader β} {r : Reader α} (hsep : sep.YieldsOn S Q) (hr : r.YieldsOn S P) :
    (Reader.sepBy sep r).YieldsOn S fun as => ∀ a ∈ as, P a := by
  refine hr.optional.bind fun o ho => ?_
  cases o with
  | none => exact .pure (List.forall_mem_nil _)
  | some a =>
    refine bind (many (hsep.bind fun _ _ => hr)) fun as has => ?_
    exact .pure (List.forall_mem_cons.2 ⟨ho a rfl, has⟩)

/-! ### Characters -/

theorem satisfy {p : Char → Bool} : (Reader.satisfy p).YieldsOn S S := by
  intro cs c rest hcs h
  cases cs with
  | nil => cases h
  | cons d cs =>
    rw [Reader.satisfy] at h
    split at h
    · cases h
      exact List.forall_mem_cons.1 hcs
    · cases h

theorem run {p : Char → Bool} : (Reader.run p).YieldsOn S (Over S) := by
  intro cs ds rest hcs h
  cases h
  exact ⟨fun c hc => hcs c (List.takeWhile_subset _ hc),
    fun c hc => hcs c (List.dropWhile_subset _ hc)⟩

theorem run1 {p : Char → Bool} : (Reader.run1 p).YieldsOn S (Over S) := by
  intro cs ds rest hcs h
  unfold Reader.run1 at h
  split at h
  · cases h
  · exact run _ _ _ hcs h

theorem word {w : List Char} : (Reader.word w).YieldsOn S fun _ => True := by
  intro cs a rest hcs h
  unfold Reader.word at h
  split at h
  · cases h
    exact ⟨trivial, fun c hc => hcs c (List.mem_of_mem_drop hc)⟩
  · cases h

theorem notNext {p : Char → Bool} : (Reader.notNext p).YieldsOn S fun _ => True := by
  intro cs a rest hcs h
  cases cs with
  | nil =>
    cases h
    exact ⟨trivial, hcs⟩
  | cons c cs =>
    rw [Reader.notNext] at h
    split at h
    · cases h
    · cases h
      exact ⟨trivial, hcs⟩

theorem endOrNext {p : Char → Bool} : (Reader.endOrNext p).YieldsOn S fun _ => True := by
  intro cs a rest hcs h
  cases cs with
  | nil =>
    cases h
    exact ⟨trivial, hcs⟩
  | cons c cs =>
    rw [Reader.endOrNext] at h
    split at h
    · cases h
      exact ⟨trivial, hcs⟩
    · cases h

theorem spaced {r : Reader α} (hr : r.YieldsOn S P) : (Reader.spaced r).YieldsOn S P :=
  run.bind fun _ _ => hr.bind fun _ ha => run.bind fun _ _ => .pure ha

end YieldsOn

end Reader

/-! ## Expressions over an alphabet -/

namespace Expr

open Reader

variable {S : Char → Prop} {e l r : Expr}

/-- Names and text literals are spelled over the alphabet. -/
structure SpelledIn (S : Char → Prop) (e : Expr) : Prop where
  names : ∀ x ∈ e.names, Over S x.toList
  strings : ∀ s ∈ e.strings, Over S s.toList

theorem SpelledIn.of_append (hl : l.SpelledIn S) (hr : r.SpelledIn S)
    (hnames : e.names = l.names ++ r.names) (hstrings : e.strings = l.strings ++ r.strings) :
    e.SpelledIn S where
  names := hnames ▸ List.forall_mem_append.2 ⟨hl.names, hr.names⟩
  strings := hstrings ▸ List.forall_mem_append.2 ⟨hl.strings, hr.strings⟩

theorem SpelledIn.of_nothing (hnames : e.names = []) (hstrings : e.strings = []) :
    e.SpelledIn S where
  names := hnames ▸ List.forall_mem_nil _
  strings := hstrings ▸ List.forall_mem_nil _

theorem SpelledIn.of_name {x : String} (hx : Over S x.toList) (hnames : e.names = [x])
    (hstrings : e.strings = []) : e.SpelledIn S where
  names := hnames ▸ List.forall_mem_singleton.2 hx
  strings := hstrings ▸ List.forall_mem_nil _

theorem spelledIn_call {f : String} {as : List Expr} (has : ∀ a ∈ as, a.SpelledIn S) :
    (call f as).SpelledIn S where
  names x hx := by
    obtain ⟨a, ha, hx⟩ := mem_namesList.1 hx
    exact (has a ha).names x hx
  strings s hs := by
    obtain ⟨a, ha, hs⟩ := mem_stringsList.1 hs
    exact (has a ha).strings s hs

theorem spelledIn_invoke {f : String} {as : List Expr} (he : e.SpelledIn S)
    (has : ∀ a ∈ as, a.SpelledIn S) : (invoke e f as).SpelledIn S :=
  he.of_append (spelledIn_call (f := f) has) rfl rfl

theorem spelledIn_negate (he : e.SpelledIn S) : (negate e).SpelledIn S := by
  cases e with
  | num q =>
    rw [negate]
    split <;> exact .of_nothing rfl rfl
  | _ => exact ⟨he.names, he.strings⟩

/-! ### Tokens -/

theorem over_ofList {cs : List Char} (h : Over S cs) : Over S (String.ofList cs).toList :=
  String.toList_ofList ▸ h

theorem yieldsOn_nameReader : nameReader.YieldsOn S fun x => Over S x.toList :=
  YieldsOn.satisfy.bind fun _ hc => YieldsOn.run.bind fun _ hcs =>
    .pure (over_ofList (List.forall_mem_cons.2 ⟨hc, hcs⟩))

theorem yieldsOn_numberReader : numberReader.YieldsOn S (SpelledIn S) := by
  have hplaces : (do let point ← char '.'; return point :: (← run1 Char.isDigit) :
      Reader (List Char)).YieldsOn S fun _ => True :=
    YieldsOn.satisfy.bind fun _ _ => YieldsOn.run1.bind fun _ _ => .pure trivial
  refine YieldsOn.remaining.bind fun _ _ => YieldsOn.run1.bind fun _ _ =>
    hplaces.optional.bind fun _ _ => YieldsOn.notNext.bind fun _ _ => ?_
  split
  · exact .pure (.of_nothing rfl rfl)
  · exact .abort

theorem yieldsOn_textReader : textReader.YieldsOn S (SpelledIn S) := by
  have hquoted : ∀ quote, (quoted quote).YieldsOn S fun s => Over S s.toList := fun quote =>
    YieldsOn.satisfy.bind fun _ _ => YieldsOn.run.bind fun _ hcs => YieldsOn.satisfy.bind fun _ _ =>
      .pure (over_ofList hcs)
  exact (YieldsOn.orElse (hquoted _) (hquoted _)).map fun s hs =>
    ⟨List.forall_mem_nil _, List.forall_mem_singleton.2 hs⟩

theorem yieldsOn_wordReader : wordReader.YieldsOn S (SpelledIn S) := by
  refine yieldsOn_nameReader.bind fun x hx => .pure ?_
  split
  · exact .of_nothing rfl rfl
  · split
    · exact .of_nothing rfl rfl
    · exact .of_name hx rfl rfl

theorem yieldsOn_annotationReader : annotationReader.YieldsOn S (SpelledIn S) := by
  have hnumbers : (do
      let _ ← spaced (char '<')
      let ns ← sepBy (spaced (char ',')) (run1 Char.isDigit)
      let _ ← spaced (char '>')
      return ns : Reader (List (List Char))).YieldsOn S fun _ => True :=
    YieldsOn.satisfy.spaced.bind fun _ _ => (YieldsOn.sepBy YieldsOn.satisfy.spaced
      YieldsOn.run1).bind fun _ _ => YieldsOn.satisfy.spaced.bind fun _ _ => .pure trivial
  have hbrand : brandReader.YieldsOn S fun _ => True :=
    yieldsOn_nameReader.bind fun _ _ => hnumbers.optional.bind fun _ _ => .pure trivial
  exact yieldsOn_nameReader.spaced.bind fun _ hx => YieldsOn.satisfy.bind fun _ _ =>
    hbrand.spaced.bind fun _ _ => YieldsOn.endOrNext.bind fun _ _ => .pure (.of_name hx rfl rfl)

/-! ### Suffixes and operators -/

/-- The arguments are spelled over the alphabet. -/
def Suffix.SpelledIn (S : Char → Prop) : Suffix → Prop
  | .field _ => True
  | .args as => ∀ a ∈ as, a.SpelledIn S

theorem spelledIn_applySuffix? {e' : Expr} {s : Suffix} (he : e.SpelledIn S) (hs : s.SpelledIn S)
    (h : applySuffix? e s = some e') : e'.SpelledIn S := by
  unfold applySuffix? at h
  split at h
  · cases h
    exact ⟨he.names, he.strings⟩
  · split at h <;> cases h
    · exact spelledIn_call hs
    · exact spelledIn_invoke ⟨he.names, he.strings⟩ hs
  · cases h
    exact spelledIn_invoke ⟨he.names, he.strings⟩ hs
  · cases h
    exact spelledIn_call hs
  · cases h

theorem spelledIn_foldlM_applySuffix? {ss : List Suffix} (hss : ∀ s ∈ ss, s.SpelledIn S)
    {e' : Expr} (he : e.SpelledIn S) (h : ss.foldlM applySuffix? e = some e') :
    e'.SpelledIn S := by
  induction ss generalizing e with
  | nil =>
    cases h
    exact he
  | cons s ss ih =>
    obtain ⟨hs, hss⟩ := List.forall_mem_cons.1 hss
    obtain ⟨e₁, he₁, h⟩ := Option.bind_eq_some_iff.1 h
    exact ih hss (spelledIn_applySuffix? he hs he₁) h

theorem yieldsOn_operator {α : Type} (w : String) (op : α) :
    (operator w op).YieldsOn S fun _ => True :=
  YieldsOn.word.bind fun _ _ => .pure trivial

theorem yieldsOn_operators {α : Type} (ops : List (String × α)) :
    (firstOf (ops.map fun p => operator p.1 p.2)).YieldsOn S fun _ => True :=
  YieldsOn.firstOf (List.forall_mem_map.2 fun p _ => yieldsOn_operator p.1 p.2)

theorem yieldsOn_leftAssoc {α : Type} {op : Reader α} {build : α → Expr → Expr → Expr}
    {operand : Reader Expr} (hop : op.YieldsOn S fun _ => True)
    (hbuild : ∀ o l r, (build o l r).names = l.names ++ r.names ∧
      (build o l r).strings = l.strings ++ r.strings)
    (hoperand : operand.YieldsOn S (SpelledIn S)) :
    (leftAssoc op build operand).YieldsOn S (SpelledIn S) := by
  have hlink : (do let o ← spaced op; return (o, ← operand) : Reader (α × Expr)).YieldsOn S
      fun p => p.2.SpelledIn S :=
    hop.spaced.bind fun o _ => hoperand.bind fun r hr => .pure hr
  refine hoperand.bind fun first hfirst => hlink.many.bind fun more hmore => .pure ?_
  exact List.foldlRecOn more _ (motive := SpelledIn S) hfirst fun e he p hp =>
    he.of_append (hmore p hp) (hbuild p.1 e p.2).1 (hbuild p.1 e p.2).2

/-! ### The grammar -/

namespace Grammar

variable {g : Grammar}

/-- The readers that the grammar uses inside itself keep to the alphabet. -/
structure KeepsTo (g : Grammar) (S : Char → Prop) : Prop where
  condition : g.condition.YieldsOn S (SpelledIn S)
  disjunction : g.disjunction.YieldsOn S (SpelledIn S)
  unary : g.unary.YieldsOn S (SpelledIn S)

namespace KeepsTo

variable (hg : g.KeepsTo S)
include hg

theorem primary : g.primary.YieldsOn S (SpelledIn S) := by
  refine (YieldsOn.firstOf ?_).spaced
  simp only [List.forall_mem_cons]
  refine ⟨yieldsOn_numberReader, yieldsOn_textReader, yieldsOn_wordReader, ?_,
    List.forall_mem_nil _⟩
  exact YieldsOn.satisfy.bind fun _ _ => hg.condition.bind fun e he =>
    YieldsOn.satisfy.commit.bind fun _ _ => .pure he

theorem suffix : g.suffix.YieldsOn S (Suffix.SpelledIn S) := by
  refine .orElse (YieldsOn.satisfy.spaced.bind fun _ _ => yieldsOn_nameReader.bind fun _ _ =>
    .pure trivial) ?_
  exact YieldsOn.satisfy.spaced.bind fun _ _ =>
    (YieldsOn.sepBy YieldsOn.satisfy.spaced hg.disjunction).bind fun as has =>
      YieldsOn.satisfy.spaced.commit.bind fun _ _ => .pure has

theorem postfixed : g.postfixed.YieldsOn S (SpelledIn S) := by
  refine hg.primary.bind fun base hbase => hg.suffix.many.bind fun ss hss => ?_
  split
  · rename_i e he
    exact .pure (spelledIn_foldlM_applySuffix? hss hbase he)
  · exact YieldsOn.remaining.bind fun _ _ => .abort

theorem power : g.power.YieldsOn S (SpelledIn S) := by
  have hexponent : (optional do spaced (word ['*', '*']); g.unary).YieldsOn S
      fun o => ∀ e, o = some e → e.SpelledIn S :=
    (YieldsOn.word.spaced.bind fun _ _ => hg.unary).optional
  refine hg.postfixed.bind fun base hbase => hexponent.bind fun o ho => .pure ?_
  cases o with
  | none => exact hbase
  | some e => exact hbase.of_append (ho e rfl) rfl rfl

theorem unaryLevel : g.unaryLevel.YieldsOn S (SpelledIn S) := by
  refine YieldsOn.firstOf ?_
  simp only [List.forall_mem_cons]
  refine ⟨?_, ?_, hg.power, List.forall_mem_nil _⟩
  · have hmark : (do let c ← char '!'; notNext (· == '='); return c : Reader Char).YieldsOn S
        fun _ => True :=
      YieldsOn.satisfy.bind fun _ _ => YieldsOn.notNext.bind fun _ _ => .pure trivial
    exact hmark.spaced.bind fun _ _ => hg.unary.bind fun e he => .pure ⟨he.names, he.strings⟩
  · exact YieldsOn.satisfy.spaced.bind fun _ _ => hg.unary.bind fun e he =>
      .pure (spelledIn_negate he)

theorem sum : g.sum.YieldsOn S (SpelledIn S) := by
  have hproduct : productOp.YieldsOn S fun _ => True := by
    refine YieldsOn.firstOf ?_
    simp only [List.forall_mem_cons]
    exact ⟨(yieldsOn_operator _ _).bind fun _ _ => YieldsOn.notNext.bind fun _ _ => .pure trivial,
      yieldsOn_operator _ _, yieldsOn_operator _ _, List.forall_mem_nil _⟩
  have hsum : sumOp.YieldsOn S fun _ => True :=
    yieldsOn_operators [("+", ArithOp.add), ("-", .sub)]
  exact yieldsOn_leftAssoc hsum (fun _ _ _ => ⟨rfl, rfl⟩)
    (yieldsOn_leftAssoc hproduct (fun _ _ _ => ⟨rfl, rfl⟩) hg.unaryLevel)

theorem relation : g.relation.YieldsOn S (SpelledIn S) := by
  have hop : relationOp.YieldsOn S fun _ => True :=
    yieldsOn_operators [("<=", CompareOp.le), (">=", .ge), ("<", .lt), (">", .gt)]
  have hright : (do let o ← spaced relationOp; return (o, ← g.sum) :
      Reader (CompareOp × Expr)).YieldsOn S fun p => p.2.SpelledIn S :=
    hop.spaced.bind fun o _ => hg.sum.bind fun r hr => .pure hr
  refine hg.sum.bind fun left hleft => hright.optional.bind fun o ho => .pure ?_
  cases o with
  | none => exact hleft
  | some p => exact hleft.of_append (ho p rfl) rfl rfl

theorem disjunctionLevel : g.disjunctionLevel.YieldsOn S (SpelledIn S) := by
  have hop : equalityOp.YieldsOn S fun _ => True :=
    yieldsOn_operators [("===", CompareOp.eq), ("!==", .ne), ("==", .eq), ("!=", .ne)]
  refine yieldsOn_leftAssoc .word (fun _ _ _ => ⟨rfl, rfl⟩) ?_
  refine yieldsOn_leftAssoc .word (fun _ _ _ => ⟨rfl, rfl⟩) ?_
  exact yieldsOn_leftAssoc hop (fun _ _ _ => ⟨rfl, rfl⟩) hg.relation

theorem conditionLevel : g.conditionLevel.YieldsOn S (SpelledIn S) :=
  .orElse yieldsOn_annotationReader hg.disjunctionLevel

end KeepsTo

theorem keepsTo_level (n : Nat) : (level n).KeepsTo S := by
  induction n with
  | zero => exact ⟨.fail, .fail, .fail⟩
  | succ n ih => exact ⟨ih.conditionLevel, ih.disjunctionLevel, ih.unaryLevel⟩

end Grammar

/-- **Names and texts are spelled as in the text that is read.** -/
theorem spelledIn_of_parse {text : String} (htext : Over S text.toList)
    (h : parse text = .ok e) : e.SpelledIn S := by
  unfold parse parseChars at h
  split at h
  · cases h
  · dsimp only at h
    split at h
    · rename_i hread
      cases h
      exact ((Grammar.keepsTo_level _).condition.spaced _ _ _ htext hread).1
    all_goals cases h

/-- Letters that tell a name from the reserved ones and from the truth values. -/
def foreignLetters : List Char := ['u', 'f', 'N', 'M', 'A', 'S', 'O']

/-- What is read from a text without those letters, and without a quote, is printable. -/
theorem printable_of_parse {text : String} (hletters : ∀ c ∈ foreignLetters, c ∉ text.toList)
    (hquote : '\'' ∉ text.toList) (h : parse text = .ok e) : e.Printable := by
  have hspelled := spelledIn_of_parse (S := (· ∈ text.toList)) (fun _ hc => hc) h
  have hreadable := readable_of_parse h
  refine printable_of_readable hreadable (fun x hx => ?_) fun s hs hmem =>
    hquote (hspelled.strings s hs _ hmem)
  have hfree : ∀ c ∈ foreignLetters, c ∉ x.toList := fun c hc hmem =>
    hletters c hc (hspelled.names x hx c hmem)
  refine ⟨⟨named_of_readable hreadable x hx, ?_, ?_⟩, ?_⟩
  · rintro rfl
    exact hfree 'u' (by decide) (by decide)
  · rintro rfl
    exact hfree 'f' (by decide) (by decide)
  · have hreserved : ∀ y ∈ namespaces, ∃ c ∈ foreignLetters, c ∈ y.toList := by
      simp [namespaces, foreignLetters]
    intro hmem
    obtain ⟨c, hc, hcx⟩ := hreserved x hmem
    exact hfree c hc hcx

end Expr

end Discharge
