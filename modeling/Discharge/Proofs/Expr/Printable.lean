import Discharge.Proofs.Expr.Names
import Discharge.Proofs.Expr.RoundTrip

/-!
# Conditions that stay readable

A condition that has been read is read back from its text, unless a text literal holds the quote.
What is made of it need not be: a name that only annotates may be a truth value, a reserved name may
become the receiver of a method when a pair of negations around it is dropped. `Printable` rules
this out by asking for ordinary names (`Ordinary`). It is kept by everything that is done with
conditions: canonical forms, conjuncts and operands, and saying the condition of another ordinary
name.
-/

namespace Discharge.Expr

open Reader

/-- The name of a variable that is no truth value and reserved for no functions. -/
structure Ordinary (x : String) : Prop extends IsVariable x where
  not_reserved : x ∉ namespaces

/-- The expression can be read, its names are ordinary, and no text literal holds a quote. -/
inductive Printable : Expr → Prop
  | bool (b : Bool) : Printable (.bool b)
  | num {q : Fraction} (hq : q.IsDecimal) : Printable (.num q)
  | str {s : String} (hs : '\'' ∉ s.toList) : Printable (.str s)
  | var {x : String} (hx : Ordinary x) : Printable (.var x)
  | member {e : Expr} {f : String} (he : Printable e) (hf : isName f = true) :
      Printable (.member e f)
  | neg {e : Expr} (he : Printable e) (hnum : ∀ q, e ≠ .num q) : Printable (.neg e)
  | not {e : Expr} (he : Printable e) : Printable (.not e)
  | arith {o : ArithOp} {l r : Expr} (hl : Printable l) (hr : Printable r) :
      Printable (.arith o l r)
  | compare {o : CompareOp} {l r : Expr} (hl : Printable l) (hr : Printable r) :
      Printable (.compare o l r)
  | and {l r : Expr} (hl : Printable l) (hr : Printable r) : Printable (.and l r)
  | or {l r : Expr} (hl : Printable l) (hr : Printable r) : Printable (.or l r)
  | call {f : String} {as : List Expr} (hf : IsFunction f) (has : ∀ a ∈ as, Printable a) :
      Printable (.call f as)
  | invoke {e : Expr} {f : String} {as : List Expr} (he : Printable e) (hf : isName f = true)
      (has : ∀ a ∈ as, Printable a) : Printable (.invoke e f as)
  | branded {x b : String} (hx : Ordinary x) (hb : IsBrand b) : Printable (.branded x b)

variable {e : Expr}

/-! ## Printing and reading -/

theorem mem_stringsList {s : String} {as : List Expr} :
    s ∈ stringsList as ↔ ∃ a ∈ as, s ∈ a.strings := by
  induction as with
  | nil => simp [stringsList]
  | cons a as ih => simp [stringsList, ih]

theorem Printable.readable (h : e.Printable) : e.Readable := by
  induction h with
  | bool b => exact .bool b
  | num hq => exact .num hq
  | str hs => exact .str _
  | var hx => exact .var hx.toIsVariable
  | member _ hf ih => exact .member ih hf
  | neg _ hnum ih => exact .neg ih hnum
  | not _ ih => exact .not ih
  | arith _ _ ihl ihr => exact .arith ihl ihr
  | compare _ _ ihl ihr => exact .compare ihl ihr
  | and _ _ ihl ihr => exact .and ihl ihr
  | or _ _ ihl ihr => exact .or ihl ihr
  | call hf _ ih => exact .call hf ih
  | invoke he hf _ ih ihs =>
    refine .invoke ih ?_ hf ihs
    rintro x hx rfl
    cases he with
    | var hordinary => exact hordinary.not_reserved hx
  | branded hx hb => exact .branded hx.isName hb

theorem Printable.quoteless (h : e.Printable) : ∀ s ∈ e.strings, '\'' ∉ s.toList := by
  induction h with
  | str hs => exact List.forall_mem_singleton.2 hs
  | arith _ _ ihl ihr => exact List.forall_mem_append.2 ⟨ihl, ihr⟩
  | compare _ _ ihl ihr => exact List.forall_mem_append.2 ⟨ihl, ihr⟩
  | and _ _ ihl ihr => exact List.forall_mem_append.2 ⟨ihl, ihr⟩
  | or _ _ ihl ihr => exact List.forall_mem_append.2 ⟨ihl, ihr⟩
  | member _ _ ih => exact ih
  | neg _ _ ih => exact ih
  | not _ ih => exact ih
  | call _ _ ih =>
    intro s hs
    obtain ⟨a, ha, hs⟩ := mem_stringsList.1 hs
    exact ih a ha s hs
  | invoke _ _ _ ih ihs =>
    refine List.forall_mem_append.2 ⟨ih, fun s hs => ?_⟩
    obtain ⟨a, ha, hs⟩ := mem_stringsList.1 hs
    exact ihs a ha s hs
  | _ => exact List.forall_mem_nil _

/-- What can be read is printable, if its names are ordinary and its texts hold no quote. -/
theorem printable_of_readable (h : e.Readable) (hnames : ∀ x ∈ e.names, Ordinary x)
    (hstrings : ∀ s ∈ e.strings, '\'' ∉ s.toList) : e.Printable := by
  induction h with
  | bool b => exact .bool b
  | num hq => exact .num hq
  | str s => exact .str (hstrings s (List.mem_singleton.2 rfl))
  | var _ => exact .var (hnames _ (List.mem_singleton.2 rfl))
  | branded _ hb => exact .branded (hnames _ (List.mem_singleton.2 rfl)) hb
  | member _ hf ih => exact .member (ih hnames hstrings) hf
  | neg _ hnum ih => exact .neg (ih hnames hstrings) hnum
  | not _ ih => exact .not (ih hnames hstrings)
  | arith _ _ ihl ihr =>
    obtain ⟨hnl, hnr⟩ := List.forall_mem_append.1 hnames
    obtain ⟨hsl, hsr⟩ := List.forall_mem_append.1 hstrings
    exact .arith (ihl hnl hsl) (ihr hnr hsr)
  | compare _ _ ihl ihr =>
    obtain ⟨hnl, hnr⟩ := List.forall_mem_append.1 hnames
    obtain ⟨hsl, hsr⟩ := List.forall_mem_append.1 hstrings
    exact .compare (ihl hnl hsl) (ihr hnr hsr)
  | and _ _ ihl ihr =>
    obtain ⟨hnl, hnr⟩ := List.forall_mem_append.1 hnames
    obtain ⟨hsl, hsr⟩ := List.forall_mem_append.1 hstrings
    exact .and (ihl hnl hsl) (ihr hnr hsr)
  | or _ _ ihl ihr =>
    obtain ⟨hnl, hnr⟩ := List.forall_mem_append.1 hnames
    obtain ⟨hsl, hsr⟩ := List.forall_mem_append.1 hstrings
    exact .or (ihl hnl hsl) (ihr hnr hsr)
  | call hf _ ih =>
    exact .call hf fun a ha => ih a ha (fun x hx => hnames x (mem_namesList.2 ⟨a, ha, hx⟩))
      fun s hs => hstrings s (mem_stringsList.2 ⟨a, ha, hs⟩)
  | invoke _ _ hf _ ih ihs =>
    obtain ⟨hne, hnas⟩ := List.forall_mem_append.1 hnames
    obtain ⟨hse, hsas⟩ := List.forall_mem_append.1 hstrings
    exact .invoke (ih hne hse) hf fun a ha =>
      ihs a ha (fun x hx => hnas x (mem_namesList.2 ⟨a, ha, hx⟩))
        fun s hs => hsas s (mem_stringsList.2 ⟨a, ha, hs⟩)

/-- The text of an expression that can be read is read as that expression, if no text literal holds
the quote. -/
theorem Readable.parse_eq (h : e.Readable) (hs : ∀ s ∈ e.strings, '\'' ∉ s.toList) :
    parse e.text = .ok e := by
  have hstarts := starts_of_readable h
  have hcondition := (written_of_readable h hs).condition _ le_rfl [] (.inl rfl)
  rw [List.append_nil] at hcondition
  have hread : spaced (Grammar.level ((chars e).length + 1)).condition (chars e) = .ok e [] :=
    spaced_of_opens hstarts.opens hcondition
  obtain ⟨c, cs, hcs, hc⟩ := hstarts.printed
  have hblank : (Text.trimChars (chars e)).isEmpty = false := hcs ▸ not_isEmpty_trimChars hc cs
  change parseChars (chars e) = .ok e
  simp only [parseChars, hblank, hread, Bool.false_eq_true, if_false]

theorem Printable.parse_eq (h : e.Printable) : parse e.text = .ok e :=
  h.readable.parse_eq h.quoteless

/-! ## What is made of printable expressions -/

theorem printable_negate (h : e.Printable) : (negate e).Printable := by
  cases e with
  | num q =>
    cases h with
    | num hq =>
      obtain ⟨q', hq', hdecimal⟩ := hq.neg?
      rw [negate, hq']
      exact .num hdecimal
  | _ => exact .neg h fun q hq => by cases hq

theorem printable_orient {o : CompareOp} {l r : Expr} (hl : l.Printable) (hr : r.Printable) :
    (orient o l r).Printable := by
  rcases orient_eq o l r with heq | heq
  · rw [heq]
    exact .compare hl hr
  · rw [heq]
    exact .compare hr hl

theorem printable_canonical_and_not (h : e.Printable) :
    e.canonical.Printable ∧ (not e).canonical.Printable := by
  induction h with
  | bool b => exact ⟨.bool b, .bool _⟩
  | num hq => exact ⟨.num hq, .not (.num hq)⟩
  | str hs => exact ⟨.str hs, .not (.str hs)⟩
  | var hx => exact ⟨.var hx, .not (.var hx)⟩
  | branded hx hb => exact ⟨.branded hx hb, .not (.branded hx hb)⟩
  | member _ hf ih => exact ⟨.member ih.1 hf, .not (.member ih.1 hf)⟩
  | neg _ _ ih => exact ⟨printable_negate ih.1, .not (printable_negate ih.1)⟩
  | not _ ih => exact ⟨ih.2, ih.1⟩
  | arith _ _ ihl ihr => exact ⟨.arith ihl.1 ihr.1, .not (.arith ihl.1 ihr.1)⟩
  | compare _ _ ihl ihr => exact ⟨printable_orient ihl.1 ihr.1, printable_orient ihl.1 ihr.1⟩
  | and _ _ ihl ihr => exact ⟨.and ihl.1 ihr.1, .not (.and ihl.1 ihr.1)⟩
  | or _ _ ihl ihr => exact ⟨.or ihl.1 ihr.1, .not (.or ihl.1 ihr.1)⟩
  | @call f as hf _ ih =>
    have has : ∀ a ∈ canonicalList as, a.Printable := by
      rw [canonicalList_eq_map, List.forall_mem_map]
      exact fun a ha => (ih a ha).1
    exact ⟨.call hf has, .not (.call hf has)⟩
  | @invoke e f as _ hf _ ih ihs =>
    have has : ∀ a ∈ canonicalList as, a.Printable := by
      rw [canonicalList_eq_map, List.forall_mem_map]
      exact fun a ha => (ihs a ha).1
    exact ⟨.invoke ih.1 hf has, .not (.invoke ih.1 hf has)⟩

theorem Printable.canonical (h : e.Printable) : e.canonical.Printable :=
  (printable_canonical_and_not h).1

theorem Printable.conjuncts (h : e.Printable) : ∀ p ∈ e.conjuncts, p.Printable := by
  induction h with
  | and _ _ ihl ihr => exact List.forall_mem_append.2 ⟨ihl, ihr⟩
  | _ => exact List.forall_mem_singleton.2 (by constructor <;> assumption)

theorem Printable.operands (h : e.Printable) (o : ArithOp) : ∀ p ∈ e.operands o, p.Printable := by
  induction h with
  | arith hl hr ihl ihr =>
    rw [Expr.operands]
    split
    · exact List.forall_mem_append.2 ⟨ihl, ihr⟩
    · exact List.forall_mem_singleton.2 (.arith hl hr)
  | _ => exact List.forall_mem_singleton.2 (by constructor <;> assumption)

/-- Said of an ordinary name, a condition stays printable. -/
theorem Printable.instantiate (h : e.Printable) {x : String} (hx : Ordinary x) :
    (e.instantiate x).Printable := by
  unfold Expr.instantiate
  induction h with
  | bool b => exact .bool b
  | num hq => exact .num hq
  | str hs => exact .str hs
  | var hy =>
    rw [substitute]
    split
    · exact .var hx
    · exact .var hy
  | branded hy hb =>
    rw [substitute]
    split
    · exact .branded hx hb
    · exact .branded hy hb
  | member _ hf ih => exact .member ih hf
  | @neg e _ hnum ih =>
    refine .neg ih fun q hq => ?_
    cases e with
    | num q => exact hnum q rfl
    | var y =>
      rw [substitute] at hq
      split at hq <;> cases hq
    | _ => cases hq
  | not _ ih => exact .not ih
  | arith _ _ ihl ihr => exact .arith ihl ihr
  | compare _ _ ihl ihr => exact .compare ihl ihr
  | and _ _ ihl ihr => exact .and ihl ihr
  | or _ _ ihl ihr => exact .or ihl ihr
  | call hf _ ih =>
    rw [substitute, substituteList_eq_map]
    exact .call hf (List.forall_mem_map.2 ih)
  | invoke _ hf _ ih ihs =>
    rw [substitute, substituteList_eq_map]
    exact .invoke ih hf (List.forall_mem_map.2 ihs)

end Discharge.Expr
