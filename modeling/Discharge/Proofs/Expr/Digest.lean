import Discharge.Expr.Digest
import Discharge.Proofs.Expr.Printable
import Discharge.Proofs.Expr.Respelling
import Mathlib.Data.List.Sort

/-!
# Digests do not depend on spelling

The digest of a condition is shared by all its spellings, and the digest of a set of facts by all
its orders as well, as long as the conditions are settled (`Digest.ofGoal_eq_of_respelled`,
`Digest.ofFacts_eq_of_respelled`). A condition that has been read is settled unless a text literal
in it holds the quote (`Expr.settled_of_readable`). Its canonical form looks like a condition that
is read back from its text (`Expr.looksReadable_canonical`), so that the text tells how tightly it
binds. The canonical form itself need not be read back: where a pair of negations is dropped, a
reserved name may become the receiver of a method, which is read as a function.
-/

namespace Discharge

namespace Expr

variable {c e l r : Expr}

/-! ## What looks like a condition that is read back -/

/-- No text literal in the expression holds the quote. -/
def Quoteless (e : Expr) : Prop := ∀ s ∈ e.strings, '\'' ∉ s.toList

/-- Some condition that is read back from its text looks the same. -/
def LooksReadable (c : Expr) : Prop := ∃ d : Expr, d.Readable ∧ d.Quoteless ∧ SameLook c d

namespace LooksReadable

theorem of_readable (h : e.Readable) (hs : e.Quoteless) : e.LooksReadable :=
  ⟨e, h, hs, .refl e⟩

theorem member (h : c.LooksReadable) {f : String} (hf : isName f = true) :
    (member c f).LooksReadable := by
  obtain ⟨d, hd, hs, hlook⟩ := h
  exact ⟨.member d f, .member hd hf, hs, hlook.member f⟩

theorem not (h : c.LooksReadable) : (not c).LooksReadable := by
  obtain ⟨d, hd, hs, hlook⟩ := h
  exact ⟨.not d, .not hd, hs, hlook.not⟩

theorem negate (h : c.LooksReadable) : (negate c).LooksReadable := by
  obtain ⟨d, hd, hs, hlook⟩ := h
  refine ⟨Expr.negate d, readable_negate hd, ?_, hlook.negate⟩
  have hstrings : (Expr.negate d).strings = d.strings := by
    cases d with
    | num q =>
      rw [Expr.negate]
      split <;> rfl
    | _ => rfl
  rwa [Quoteless, hstrings]

/-- Whatever joins two operands keeps this. -/
theorem binary {build : Expr → Expr → Expr}
    (hreadable : ∀ {l r}, l.Readable → r.Readable → (build l r).Readable)
    (hstrings : ∀ l r, (build l r).strings = l.strings ++ r.strings)
    (hlook : ∀ {l l' r r'}, SameLook l l' → SameLook r r' → SameLook (build l r) (build l' r'))
    (hl : l.LooksReadable) (hr : r.LooksReadable) : (build l r).LooksReadable := by
  obtain ⟨l', hl', hsl, hlookl⟩ := hl
  obtain ⟨r', hr', hsr, hlookr⟩ := hr
  refine ⟨build l' r', hreadable hl' hr', ?_, hlook hlookl hlookr⟩
  rw [Quoteless, hstrings]
  exact List.forall_mem_append.2 ⟨hsl, hsr⟩

theorem arith (o : ArithOp) (hl : l.LooksReadable) (hr : r.LooksReadable) :
    (arith o l r).LooksReadable :=
  binary .arith (fun _ _ => rfl) (.arith o) hl hr

theorem compare (o : CompareOp) (hl : l.LooksReadable) (hr : r.LooksReadable) :
    (compare o l r).LooksReadable :=
  binary .compare (fun _ _ => rfl) (.compare o) hl hr

theorem and (hl : l.LooksReadable) (hr : r.LooksReadable) : (and l r).LooksReadable :=
  binary .and (fun _ _ => rfl) .and hl hr

theorem or (hl : l.LooksReadable) (hr : r.LooksReadable) : (or l r).LooksReadable :=
  binary .or (fun _ _ => rfl) .or hl hr

theorem orient (o : CompareOp) (hl : l.LooksReadable) (hr : r.LooksReadable) :
    (orient o l r).LooksReadable := by
  rcases orient_eq o l r with heq | heq
  · rw [heq]
    exact .compare o hl hr
  · rw [heq]
    exact .compare o.flipped hr hl

/-- Arguments that look like conditions that are read back are printed as such. -/
theorem exists_args {cs : List Expr} (h : ∀ c ∈ cs, c.LooksReadable) :
    ∃ ds : List Expr, (∀ d ∈ ds, d.Readable) ∧ (∀ s ∈ stringsList ds, '\'' ∉ s.toList) ∧
      argTexts cs = argTexts ds := by
  induction cs with
  | nil => exact ⟨[], List.forall_mem_nil _, List.forall_mem_nil _, rfl⟩
  | cons c cs ih =>
    obtain ⟨hc, hcs⟩ := List.forall_mem_cons.1 h
    obtain ⟨d, hd, hs, hlook⟩ := hc
    obtain ⟨ds, hds, hss, htexts⟩ := ih hcs
    refine ⟨d :: ds, List.forall_mem_cons.2 ⟨hd, hds⟩, List.forall_mem_append.2 ⟨hs, hss⟩, ?_⟩
    rw [argTexts, argTexts, hlook.operandText, htexts]

theorem call {f : String} {cs : List Expr} (hf : IsFunction f) (hcs : ∀ c ∈ cs, c.LooksReadable) :
    (call f cs).LooksReadable := by
  obtain ⟨ds, hds, hss, htexts⟩ := exists_args hcs
  exact ⟨.call f ds, .call hf hds, hss, by rw [text, text, htexts], rfl, rfl⟩

/-- A method of a reserved name looks like a function. -/
theorem invoke {f : String} {cs : List Expr} (hc : c.LooksReadable) (hf : isName f = true)
    (hcs : ∀ c ∈ cs, c.LooksReadable) : (invoke c f cs).LooksReadable := by
  obtain ⟨d, hd, hs, hlook⟩ := hc
  obtain ⟨ds, hds, hss, htexts⟩ := exists_args hcs
  by_cases hreserved : ∃ x ∈ namespaces, d = .var x
  · obtain ⟨x, hx, rfl⟩ := hreserved
    refine ⟨.call (x ++ "." ++ f) ds, .call (.reserved hx hf) hds, hss, ?_, rfl, rfl⟩
    rw [text, text, htexts, hlook.operandText]
    rfl
  · have hfree : ∀ x ∈ namespaces, d ≠ .var x := fun x hx heq => hreserved ⟨x, hx, heq⟩
    refine ⟨.invoke d f ds, .invoke hd hfree hf hds, List.forall_mem_append.2 ⟨hs, hss⟩, ?_,
      rfl, rfl⟩
    rw [text, text, htexts, hlook.operandText]

end LooksReadable

/-- The canonical form of a condition that can be read looks like one that is read back. -/
theorem looksReadable_canonical (h : e.Readable) (hs : e.Quoteless) :
    e.canonical.LooksReadable := by
  induction e using canonicalInduct with
  | bool _ | num _ | str _ | var _ | branded _ _ => exact .of_readable h hs
  | member e f ih =>
    cases h with
    | member he hf => exact .member (ih he hs) hf
  | neg e ih =>
    cases h with
    | neg he _ => exact .negate (ih he hs)
  | notNot e ih =>
    cases h with
    | not h =>
      cases h with
      | not he => exact ih he hs
  | notCompare o l r ihl ihr =>
    obtain ⟨hsl, hsr⟩ := List.forall_mem_append.1 hs
    cases h with
    | not h =>
      cases h with
      | compare hl hr => exact .orient o.negated (ihl hl hsl) (ihr hr hsr)
  | notBool b => exact .of_readable (.bool !b) (List.forall_mem_nil _)
  | not e hkeeps ih =>
    rw [canonical_not hkeeps]
    cases h with
    | not he => exact .not (ih he hs)
  | arith o l r ihl ihr =>
    obtain ⟨hsl, hsr⟩ := List.forall_mem_append.1 hs
    cases h with
    | arith hl hr => exact .arith o (ihl hl hsl) (ihr hr hsr)
  | compare o l r ihl ihr =>
    obtain ⟨hsl, hsr⟩ := List.forall_mem_append.1 hs
    cases h with
    | compare hl hr => exact .orient o (ihl hl hsl) (ihr hr hsr)
  | and l r ihl ihr =>
    obtain ⟨hsl, hsr⟩ := List.forall_mem_append.1 hs
    cases h with
    | and hl hr => exact .and (ihl hl hsl) (ihr hr hsr)
  | or l r ihl ihr =>
    obtain ⟨hsl, hsr⟩ := List.forall_mem_append.1 hs
    cases h with
    | or hl hr => exact .or (ihl hl hsl) (ihr hr hsr)
  | call f as ih =>
    cases h with
    | call hf has =>
      refine .call hf (forall_mem_canonicalList.2 fun a ha => ih a ha (has a ha) ?_)
      exact fun s hsa => hs s (strings_subset_stringsList ha hsa)
  | invoke e f as ih ihs =>
    obtain ⟨hse, hsas⟩ := List.forall_mem_append.1 hs
    cases h with
    | invoke he _ hf has =>
      refine .invoke (ih he hse) hf (forall_mem_canonicalList.2 fun a ha => ihs a ha (has a ha) ?_)
      exact fun s hsa => hsas s (strings_subset_stringsList ha hsa)

/-- The text of what looks like a condition that is read back tells how tightly it binds. -/
theorem LooksReadable.bracketedAlike (hl : l.LooksReadable) (hr : r.LooksReadable) :
    BracketedAlike l r := by
  obtain ⟨l', hl', hsl, hlookl⟩ := hl
  obtain ⟨r', hr', hsr, hlookr⟩ := hr
  intro htext
  have hread := hl'.parse_eq hsl
  rw [← hlookl.text, htext, hlookr.text, hr'.parse_eq hsr] at hread
  cases hread
  rw [hlookl.precedence, hlookr.precedence]

/-- **A condition that has been read is settled**, unless a text literal in it holds the quote. -/
theorem settled_of_readable (h : e.Readable) (hs : e.Quoteless) : e.Settled := by
  induction h with
  | bool _ | num _ | str _ | var _ | branded _ _ => trivial
  | member _ _ ih => exact ih hs
  | neg _ _ ih => exact ih hs
  | not _ ih => exact ih hs
  | arith _ _ ihl ihr =>
    obtain ⟨hsl, hsr⟩ := List.forall_mem_append.1 hs
    exact ⟨ihl hsl, ihr hsr⟩
  | compare hl hr ihl ihr =>
    obtain ⟨hsl, hsr⟩ := List.forall_mem_append.1 hs
    refine ⟨ihl hsl, ihr hsr, fun _ => ?_⟩
    exact (looksReadable_canonical hl hsl).bracketedAlike (looksReadable_canonical hr hsr)
  | and _ _ ihl ihr =>
    obtain ⟨hsl, hsr⟩ := List.forall_mem_append.1 hs
    exact ⟨ihl hsl, ihr hsr⟩
  | or _ _ ihl ihr =>
    obtain ⟨hsl, hsr⟩ := List.forall_mem_append.1 hs
    exact ⟨ihl hsl, ihr hsr⟩
  | call _ _ ih =>
    refine settledList_iff.2 fun a ha => ih a ha ?_
    exact fun s hsa => hs s (strings_subset_stringsList ha hsa)
  | invoke _ _ _ _ ih ihs =>
    obtain ⟨hse, hsas⟩ := List.forall_mem_append.1 hs
    refine ⟨ih hse, settledList_iff.2 fun a ha => ihs a ha ?_⟩
    exact fun s hsa => hsas s (strings_subset_stringsList ha hsa)

end Expr

namespace Digest

open Discharge.Expr (Respelled Settled parse BracketedAlike)

/-! ## Digests -/

/-- The facts, taken in some order, are spellings of the others. -/
def FactsRespelled (facts facts' : List (String × Expr)) : Prop :=
  ∃ ordered, facts.Perm ordered ∧
    List.Forall₂ (fun f f' => f.1 = f'.1 ∧ Respelled f.2 f'.2) ordered facts'

/-- The line that a fact contributes. -/
def line (fact : String × Expr) : String := fact.1 ++ "|" ++ fact.2.canonical.text

theorem ofFacts_eq (facts : List (String × Expr)) :
    ofFacts facts = "factsfnv1a64:" ++ hex (((facts.map line).mergeSort (· ≤ ·)).foldl
      (fun h line => extend (extend h line) ";") Hash.offsetBasis) := rfl

/-- All spellings of a settled condition have one digest. -/
theorem ofGoal_eq_of_respelled {e e' : Expr} (h : Respelled e e') (hs : e.Settled) :
    ofGoal e = ofGoal e' := by
  rw [ofGoal, ofGoal, (h.sameLook hs).text]

theorem mergeSort_eq_of_perm {xs ys : List String} (h : xs.Perm ys) :
    xs.mergeSort (· ≤ ·) = ys.mergeSort (· ≤ ·) := by
  have hperm : (xs.mergeSort (· ≤ ·)).Perm (ys.mergeSort (· ≤ ·)) :=
    (List.mergeSort_perm xs _).trans (h.trans (List.mergeSort_perm ys _).symm)
  exact hperm.eq_of_pairwise' (List.pairwise_mergeSort' (· ≤ ·) xs)
    (List.pairwise_mergeSort' (· ≤ ·) ys)

/-- All spellings of a set of settled facts have one digest, whatever their order. -/
theorem ofFacts_eq_of_respelled {facts facts' : List (String × Expr)}
    (h : FactsRespelled facts facts') (hs : ∀ f ∈ facts, f.2.Settled) :
    ofFacts facts = ofFacts facts' := by
  obtain ⟨ordered, hperm, hrespelled⟩ := h
  have hlines : ordered.map line = facts'.map line := by
    have hs : ∀ f ∈ ordered, f.2.Settled := fun f hf => hs f (hperm.mem_iff.2 hf)
    clear hperm
    induction hrespelled with
    | nil => rfl
    | cons hf _ ih =>
      obtain ⟨hsf, hs⟩ := List.forall_mem_cons.1 hs
      rw [List.map_cons, List.map_cons, ih hs, line, line, hf.1, (hf.2.sameLook hsf).text]
  rw [ofFacts_eq, ofFacts_eq, ← hlines, mergeSort_eq_of_perm (hperm.map line)]

/-- **Digests do not depend on spelling or order**, for conditions in which the sides of an equality
that print alike are bracketed alike. Conditions that have been read are such, unless a text literal
holds the quote. Where the sides are bracketed otherwise, exchanging them changes the text that
is hashed. -/
theorem respelled_digest (e e' : Expr) (facts facts' : List (String × Expr)) (o : CompareOp)
    (l r : Expr) :
    (Respelled e e' → e.Settled → ofGoal e = ofGoal e') ∧
    (FactsRespelled facts facts' → (∀ f ∈ facts, f.2.Settled) →
      ofFacts facts = ofFacts facts') ∧
    (∀ t : String, parse t = .ok e → (∀ s ∈ e.strings, '\'' ∉ s.toList) → e.Settled) ∧
    (o = .eq ∨ o = .ne →
      ((Expr.compare o l r).canonical.text = (Expr.compare o r l).canonical.text ↔
        BracketedAlike l.canonical r.canonical)) := by
  refine ⟨ofGoal_eq_of_respelled, ofFacts_eq_of_respelled, fun t ht => ?_,
    fun ho => Expr.text_equality_turned_iff ho l r⟩
  exact Expr.settled_of_readable (Expr.readable_of_parse ht)

/-- Two spellings of `!(a == x < 5) && s.at(1) != !!b`, which is read and holds no quote. -/
theorem respelled_digest_nested :
    let five : Expr := .num (.ofWord 5 (by decide))
    let below : Expr := .compare .lt (.var "x") five
    let item : Expr := .invoke (.var "s") "at" [.num .one]
    let e : Expr := .and (.not (.compare .eq (.var "a") below))
      (.compare .ne item (.not (.not (.var "b"))))
    let e' : Expr := .and (.compare .ne (.compare .gt five (.var "x")) (.var "a"))
      (.compare .ne (.var "b") item)
    parse "!(a == x < 5) && s.at(1) != !!b" = .ok e ∧ Respelled e e' ∧ e.Settled ∧
      ofGoal e = ofGoal e' ∧
      ofFacts [("a", e), ("b", item)] = ofFacts [("b", item), ("a", e')] := by
  intro five below item e e'
  have hparse : parse "!(a == x < 5) && s.at(1) != !!b" = .ok e := by decide +kernel
  have hleft : Respelled (.not (.compare .eq (.var "a") below))
      (.compare .ne (.compare .gt five (.var "x")) (.var "a")) :=
    (Respelled.notCompare .eq _ _).trans
      ((Respelled.turn .ne _ _).trans (.compare .ne (.turn .lt _ _) (.refl _)))
  have hright : Respelled (.compare .ne item (.not (.not (.var "b"))))
      (.compare .ne (.var "b") item) :=
    (Respelled.turn .ne _ _).trans (.compare .ne (.notNot _) (.refl _))
  have hrespelled : Respelled e e' := .and hleft hright
  obtain ⟨hgoal, hfacts, hsettled, -⟩ := respelled_digest e e' [("a", e), ("b", item)]
    [("b", item), ("a", e')] .eq e e'
  have hs := hsettled _ hparse (by decide)
  refine ⟨hparse, hrespelled, hs, hgoal hrespelled hs, hfacts ?_ ?_⟩
  · exact ⟨_, .swap _ _ _, .cons ⟨rfl, .refl _⟩ (.cons ⟨rfl, hrespelled⟩ .nil)⟩
  · exact List.forall_mem_cons.2 ⟨hs, List.forall_mem_singleton.2 ⟨trivial, trivial, trivial⟩⟩

/-- A literal that holds quotes prints like a comparison of two literals. An equality of the two has
another digest when its sides are exchanged. -/
theorem respelled_digest_quoted :
    let literal : Expr := .str "a' == 'b"
    let comparison : Expr := .compare .eq (.str "a") (.str "b")
    let e : Expr := .compare .eq literal comparison
    let e' : Expr := .compare .eq comparison literal
    parse "\"a' == 'b\" == ('a' == 'b')" = .ok e ∧ parse "('a' == 'b') == \"a' == 'b\"" = .ok e' ∧
      Respelled e e' ∧ ofGoal e ≠ ofGoal e' ∧ ofFacts [("x", e)] ≠ ofFacts [("x", e')] := by
  intro literal comparison e e'
  refine ⟨by decide +kernel, by decide +kernel, .turn .eq _ _, by decide +kernel, ?_⟩
  rw [ofFacts_eq, ofFacts_eq, List.map_singleton, List.map_singleton, List.mergeSort_singleton,
    List.mergeSort_singleton]
  decide +kernel

end Digest

end Discharge
