import Discharge.Proofs.Expr.Tokens
import Discharge.Proofs.Reader

/-!
# What can be read

Not every expression can be read from a text. The variables and fields of one that has been read
are names, its literals are decimals, a negated literal is itself a literal, and a method of one of
the reserved names is a function. `Readable` lists these restrictions, constructor by constructor,
and `readable_of_parse` shows along the grammar that they hold.
-/

namespace Discharge.Expr

open Reader

/-- The text is read as a variable. -/
structure IsVariable (x : String) : Prop where
  isName : isName x = true
  ne_true : x ≠ "true"
  ne_false : x ≠ "false"

/-- The text is read as a function: a name, or a method of a reserved name. -/
inductive IsFunction : String → Prop
  | plain {f : String} (h : IsVariable f) : IsFunction f
  | reserved {x f : String} (hx : x ∈ namespaces) (hf : isName f = true) :
      IsFunction (x ++ "." ++ f)

/-- The expression can be read from some text. -/
inductive Readable : Expr → Prop
  | bool (b : Bool) : Readable (.bool b)
  | num {q : Fraction} (hq : q.IsDecimal) : Readable (.num q)
  | str (s : String) : Readable (.str s)
  | var {x : String} (hx : IsVariable x) : Readable (.var x)
  | member {e : Expr} {f : String} (he : Readable e) (hf : isName f = true) : Readable (.member e f)
  | neg {e : Expr} (he : Readable e) (hnum : ∀ q, e ≠ .num q) : Readable (.neg e)
  | not {e : Expr} (he : Readable e) : Readable (.not e)
  | arith {o : ArithOp} {l r : Expr} (hl : Readable l) (hr : Readable r) : Readable (.arith o l r)
  | compare {o : CompareOp} {l r : Expr} (hl : Readable l) (hr : Readable r) :
      Readable (.compare o l r)
  | and {l r : Expr} (hl : Readable l) (hr : Readable r) : Readable (.and l r)
  | or {l r : Expr} (hl : Readable l) (hr : Readable r) : Readable (.or l r)
  | call {f : String} {as : List Expr} (hf : IsFunction f) (has : ∀ a ∈ as, Readable a) :
      Readable (.call f as)
  | invoke {e : Expr} {f : String} {as : List Expr} (he : Readable e)
      (hfree : ∀ x ∈ namespaces, e ≠ .var x) (hf : isName f = true) (has : ∀ a ∈ as, Readable a) :
      Readable (.invoke e f as)
  | branded {x b : String} (hx : isName x = true) (hb : IsBrand b) : Readable (.branded x b)

/-! ## Tokens -/

theorem yields_nameReader : nameReader.Yields fun x => isName x = true := by
  refine Yields.satisfy.bind fun c hc => Yields.run.bind fun cs hcs => .pure ?_
  rw [isName, String.toList_ofList]
  exact Bool.and_eq_true_iff.2 ⟨hc, hcs⟩

theorem yields_numberReader : numberReader.Yields Readable := by
  refine Yields.any.bind fun _ _ => Yields.any.bind fun _ _ => Yields.any.bind fun _ _ =>
    Yields.any.bind fun _ _ => ?_
  split
  · rename_i hq
    exact .pure (.num (Fraction.isDecimal_of_ofDecimalChars? hq))
  · exact .abort

theorem yields_textReader : textReader.Yields Readable :=
  Yields.any.map fun s _ => .str s

theorem yields_wordReader : wordReader.Yields Readable := by
  refine yields_nameReader.bind fun x hx => .pure ?_
  split
  · exact .bool true
  · split
    · exact .bool false
    · exact .var ⟨hx, by assumption, by assumption⟩

theorem yields_brandReader : brandReader.Yields IsBrand := by
  have hnumbers : (do
      let _ ← spaced (char '<')
      let ns ← sepBy (spaced (char ',')) (run1 Char.isDigit)
      let _ ← spaced (char '>')
      return ns : Reader (List (List Char))).Yields
      fun ns => ∀ n ∈ ns, n ≠ [] ∧ Fraction.Digits n :=
    Yields.any.bind fun _ _ => Yields.run1.sepBy.bind fun ns hns => Yields.any.bind fun _ _ =>
      .pure hns
  refine yields_nameReader.bind fun name hname => hnumbers.optional.bind fun o ho => .pure ?_
  cases o with
  | none => exact .plain hname
  | some ns => exact .numbered hname (ho ns rfl)

theorem yields_annotationReader : annotationReader.Yields Readable :=
  yields_nameReader.spaced.bind fun _ hx => Yields.any.bind fun _ _ =>
    yields_brandReader.spaced.bind fun _ hb => Yields.any.bind fun _ _ => .pure (.branded hx hb)

/-! ## Suffixes and operators -/

/-- The field is a name, or the arguments can be read. -/
def Suffix.Readable : Suffix → Prop
  | .field f => isName f = true
  | .args as => ∀ a ∈ as, a.Readable

theorem readable_applySuffix? {e e' : Expr} {s : Suffix} (he : e.Readable) (hs : s.Readable)
    (h : applySuffix? e s = some e') : e'.Readable := by
  unfold applySuffix? at h
  split at h
  · cases h
    exact .member he hs
  · rename_i x f as
    cases he with
    | member hx hf =>
      split at h
      · rename_i hreserved
        cases h
        exact .call (.reserved (List.contains_iff_mem.1 hreserved) hf) hs
      · rename_i hfree
        cases h
        refine .invoke hx (fun y hy hxy => hfree ?_) hf hs
        cases hxy
        exact List.contains_iff_mem.2 hy
  · rename_i e f as hvar
    cases h
    cases he with
    | member he hf => exact .invoke he (fun x _ => hvar x) hf hs
  · cases h
    cases he with
    | var hx => exact .call (.plain hx) hs
  · cases h

theorem readable_foldlM_applySuffix? {ss : List Suffix} (hss : ∀ s ∈ ss, s.Readable) {e e' : Expr}
    (he : e.Readable) (h : ss.foldlM applySuffix? e = some e') : e'.Readable := by
  induction ss generalizing e with
  | nil =>
    cases h
    exact he
  | cons s ss ih =>
    obtain ⟨hs, hss⟩ := List.forall_mem_cons.1 hss
    obtain ⟨e₁, he₁, h⟩ := Option.bind_eq_some_iff.1 h
    exact ih hss (readable_applySuffix? he hs he₁) h

theorem readable_negate {e : Expr} (he : e.Readable) : (negate e).Readable := by
  cases e with
  | num q =>
    cases he with
    | num hq =>
      obtain ⟨q', hq', hdecimal⟩ := hq.neg?
      rw [negate, hq']
      exact .num hdecimal
  | _ => exact .neg he fun q hq => by cases hq

theorem yields_leftAssoc {α : Type} {op : Reader α} {build : α → Expr → Expr → Expr}
    {operand : Reader Expr} (hbuild : ∀ o l r, l.Readable → r.Readable → (build o l r).Readable)
    (hoperand : operand.Yields Readable) : (leftAssoc op build operand).Yields Readable := by
  have hmore : (do let o ← spaced op; return (o, ← operand) : Reader (α × Expr)).Yields
      fun p => p.2.Readable :=
    Yields.any.bind fun o _ => hoperand.bind fun r hr => .pure hr
  refine hoperand.bind fun first hfirst => hmore.many.bind fun more hmore => .pure ?_
  exact List.foldlRecOn more _ (motive := Readable) hfirst
    fun e he p hp => hbuild p.1 e p.2 he (hmore p hp)

/-! ## The grammar -/

namespace Grammar

variable {g : Grammar}

/-- The readers that the grammar uses inside itself read only what can be read. -/
structure YieldsReadable (g : Grammar) : Prop where
  condition : g.condition.Yields Readable
  disjunction : g.disjunction.Yields Readable
  unary : g.unary.Yields Readable

namespace YieldsReadable

variable (hg : g.YieldsReadable)
include hg

theorem primary : g.primary.Yields Readable := by
  refine (Yields.firstOf ?_).spaced
  simp only [List.forall_mem_cons]
  refine ⟨yields_numberReader, yields_textReader, yields_wordReader, ?_, nofun⟩
  exact Yields.any.bind fun _ _ => hg.condition.bind fun e he => Yields.any.bind fun _ _ => .pure he

theorem suffix : g.suffix.Yields Suffix.Readable := by
  refine .orElse (Yields.any.bind fun _ _ => yields_nameReader.bind fun _ hf => .pure hf) ?_
  exact Yields.any.bind fun _ _ => hg.disjunction.sepBy.bind fun as has =>
    Yields.any.bind fun _ _ => .pure has

theorem postfixed : g.postfixed.Yields Readable := by
  refine hg.primary.bind fun base hbase => hg.suffix.many.bind fun ss hss => ?_
  split
  · rename_i e he
    exact .pure (readable_foldlM_applySuffix? hss hbase he)
  · exact Yields.any.bind fun _ _ => .abort

theorem power : g.power.Yields Readable := by
  have hexponent : (optional do spaced (word ['*', '*']); g.unary).Yields
      fun o => ∀ e, o = some e → e.Readable :=
    (Yields.any.bind fun _ _ => hg.unary).optional
  refine hg.postfixed.bind fun base hbase => hexponent.bind fun o ho => .pure ?_
  cases o with
  | none => exact hbase
  | some e => exact .arith hbase (ho e rfl)

theorem unaryLevel : g.unaryLevel.Yields Readable := by
  refine Yields.firstOf ?_
  simp only [List.forall_mem_cons]
  refine ⟨?_, ?_, hg.power, nofun⟩
  · exact Yields.any.bind fun _ _ => hg.unary.bind fun e he => .pure (.not he)
  · exact Yields.any.bind fun _ _ => hg.unary.bind fun e he => .pure (readable_negate he)

theorem sum : g.sum.Yields Readable :=
  yields_leftAssoc (fun _ _ _ hl hr => .arith hl hr)
    (yields_leftAssoc (fun _ _ _ hl hr => .arith hl hr) hg.unaryLevel)

theorem relation : g.relation.Yields Readable := by
  have hright : (do let o ← spaced relationOp; return (o, ← g.sum) :
      Reader (CompareOp × Expr)).Yields fun p => p.2.Readable :=
    Yields.any.bind fun o _ => hg.sum.bind fun r hr => .pure hr
  refine hg.sum.bind fun left hleft => hright.optional.bind fun o ho => .pure ?_
  cases o with
  | none => exact hleft
  | some p => exact .compare hleft (ho p rfl)

theorem disjunctionLevel : g.disjunctionLevel.Yields Readable := by
  refine yields_leftAssoc (fun _ _ _ hl hr => .or hl hr) ?_
  refine yields_leftAssoc (fun _ _ _ hl hr => .and hl hr) ?_
  exact yields_leftAssoc (fun _ _ _ hl hr => .compare hl hr) hg.relation

theorem conditionLevel : g.conditionLevel.Yields Readable :=
  .orElse yields_annotationReader hg.disjunctionLevel

end YieldsReadable

theorem yieldsReadable_level (n : Nat) : (level n).YieldsReadable := by
  induction n with
  | zero => exact ⟨.fail, .fail, .fail⟩
  | succ n ih => exact ⟨ih.conditionLevel, ih.disjunctionLevel, ih.unaryLevel⟩

end Grammar

/-- **What has been read can be read.** -/
theorem readable_of_parse {text : String} {e : Expr} (h : parse text = .ok e) : e.Readable := by
  unfold parse parseChars at h
  split at h
  · cases h
  · dsimp only at h
    split at h
    · rename_i hread
      cases h
      exact (Grammar.yieldsReadable_level _).condition.spaced _ _ _ hread
    all_goals cases h

end Discharge.Expr
