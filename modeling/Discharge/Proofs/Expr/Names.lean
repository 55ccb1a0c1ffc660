import Discharge.Proofs.Expr.Readable

/-!
# Names in conditions

The variables of a condition that has been read from a text are names (`named_of_parse`). So are
those of what is made of it: its canonical form, its conjuncts and the condition said of another
name.
-/

namespace Discharge.Expr

/-- Every variable of the expression is a name. -/
def Named (e : Expr) : Prop := ∀ x ∈ e.names, isName x = true

theorem mem_namesList {x : String} {as : List Expr} :
    x ∈ namesList as ↔ ∃ a ∈ as, x ∈ a.names := by
  induction as with
  | nil => simp [namesList]
  | cons a as ih => simp [namesList, ih]

section Parts

variable {l r e : Expr} {as : List Expr}

theorem named_var {x : String} : (var x).Named ↔ isName x = true := List.forall_mem_singleton

theorem named_branded {x b : String} : (branded x b).Named ↔ isName x = true :=
  List.forall_mem_singleton

theorem named_arith {o : ArithOp} : (arith o l r).Named ↔ l.Named ∧ r.Named :=
  List.forall_mem_append

theorem named_compare {o : CompareOp} : (compare o l r).Named ↔ l.Named ∧ r.Named :=
  List.forall_mem_append

theorem named_and : (and l r).Named ↔ l.Named ∧ r.Named := List.forall_mem_append

theorem named_or : (or l r).Named ↔ l.Named ∧ r.Named := List.forall_mem_append

theorem named_call {f : String} : (call f as).Named ↔ ∀ a ∈ as, a.Named := by
  simp only [Named, names, mem_namesList]
  exact ⟨fun h a ha x hx => h x ⟨a, ha, hx⟩, fun h x ⟨a, ha, hx⟩ => h a ha x hx⟩

theorem named_invoke {f : String} : (invoke e f as).Named ↔ e.Named ∧ ∀ a ∈ as, a.Named := by
  rw [← named_call (f := f)]
  exact List.forall_mem_append

end Parts

/-! ## Reading -/

/-- The variables of what can be read are names. -/
theorem named_of_readable {e : Expr} (h : e.Readable) : e.Named := by
  induction h with
  | bool b => nofun
  | num hq => nofun
  | str s => nofun
  | var hx => exact named_var.2 hx.isName
  | branded hx hb => exact named_branded.2 hx
  | member he hf ih => exact ih
  | neg he hnum ih => exact ih
  | not he ih => exact ih
  | arith hl hr ihl ihr => exact named_arith.2 ⟨ihl, ihr⟩
  | compare hl hr ihl ihr => exact named_compare.2 ⟨ihl, ihr⟩
  | and hl hr ihl ihr => exact named_and.2 ⟨ihl, ihr⟩
  | or hl hr ihl ihr => exact named_or.2 ⟨ihl, ihr⟩
  | call hf has ih => exact named_call.2 ih
  | invoke he hfree hf has ih ihs => exact named_invoke.2 ⟨ih, ihs⟩

/-- **The variables of a condition that has been read are names.** -/
theorem named_of_parse {text : String} {e : Expr} (h : parse text = .ok e) : e.Named :=
  named_of_readable (readable_of_parse h)

theorem named_negate {e : Expr} (he : e.Named) : (negate e).Named := by
  cases e with
  | num q =>
    rw [negate]
    split <;> exact List.forall_mem_nil _
  | _ => exact he

/-! ## Keeping names -/

theorem named_orient {o : CompareOp} {l r : Expr} (hl : l.Named) (hr : r.Named) :
    (orient o l r).Named := by
  rcases orient_eq o l r with heq | heq
  · rw [heq]
    exact named_compare.2 ⟨hl, hr⟩
  · rw [heq]
    exact named_compare.2 ⟨hr, hl⟩

/-- The canonical forms of an expression and of its negation keep to its names. -/
theorem named_canonical_and_not {e : Expr} (he : e.Named) :
    e.canonical.Named ∧ (not e).canonical.Named := by
  induction e with
  | bool b => exact ⟨he, he⟩
  | num q => exact ⟨he, he⟩
  | str s => exact ⟨he, he⟩
  | var x => exact ⟨he, he⟩
  | branded x b => exact ⟨he, he⟩
  | member e f ih => exact ⟨(ih he).1, (ih he).1⟩
  | neg e ih => exact ⟨named_negate (ih he).1, named_negate (ih he).1⟩
  | not e ih => exact ⟨(ih he).2, (ih he).1⟩
  | arith o l r ihl ihr =>
    obtain ⟨hl, hr⟩ := named_arith.1 he
    have h : (arith o l r).canonical.Named := named_arith.2 ⟨(ihl hl).1, (ihr hr).1⟩
    exact ⟨h, h⟩
  | compare o l r ihl ihr =>
    obtain ⟨hl, hr⟩ := named_compare.1 he
    exact ⟨named_orient (ihl hl).1 (ihr hr).1, named_orient (ihl hl).1 (ihr hr).1⟩
  | and l r ihl ihr =>
    obtain ⟨hl, hr⟩ := named_and.1 he
    have h : (and l r).canonical.Named := named_and.2 ⟨(ihl hl).1, (ihr hr).1⟩
    exact ⟨h, h⟩
  | or l r ihl ihr =>
    obtain ⟨hl, hr⟩ := named_or.1 he
    have h : (or l r).canonical.Named := named_or.2 ⟨(ihl hl).1, (ihr hr).1⟩
    exact ⟨h, h⟩
  | call f as ih =>
    have has : ∀ a ∈ canonicalList as, a.Named := by
      rw [canonicalList_eq_map, List.forall_mem_map]
      exact fun a ha => (ih a ha (named_call.1 he a ha)).1
    have h : (call f as).canonical.Named := named_call.2 has
    exact ⟨h, h⟩
  | invoke e f as ih ihs =>
    obtain ⟨he, has⟩ := named_invoke.1 he
    have has : ∀ a ∈ canonicalList as, a.Named := by
      rw [canonicalList_eq_map, List.forall_mem_map]
      exact fun a ha => (ihs a ha (has a ha)).1
    have h : (invoke e f as).canonical.Named := named_invoke.2 ⟨(ih he).1, has⟩
    exact ⟨h, h⟩

theorem named_canonical {e : Expr} (he : e.Named) : e.canonical.Named :=
  (named_canonical_and_not he).1

theorem named_conjuncts {e : Expr} (he : e.Named) : ∀ p ∈ e.conjuncts, p.Named := by
  induction e with
  | and l r ihl ihr =>
    obtain ⟨hl, hr⟩ := named_and.1 he
    exact List.forall_mem_append.2 ⟨ihl hl, ihr hr⟩
  | _ => exact List.forall_mem_singleton.2 he

theorem substituteList_eq_map (as : List Expr) (x : String) (v : Expr) :
    substituteList as x v = as.map (·.substitute x v) := by
  induction as with
  | nil => rfl
  | cons a as ih => simp [substituteList, ih]

/-- Said of a name, a condition keeps to names. -/
theorem named_instantiate {e : Expr} (he : e.Named) {x : String} (hx : isName x = true) :
    (e.instantiate x).Named := by
  unfold instantiate
  induction e with
  | bool b => exact he
  | num q => exact he
  | str s => exact he
  | var y =>
    rw [substitute]
    split
    · exact named_var.2 hx
    · exact he
  | branded y b =>
    rw [substitute]
    split
    · exact named_branded.2 hx
    · exact he
  | member e f ih => exact ih he
  | neg e ih => exact ih he
  | not e ih => exact ih he
  | arith o l r ihl ihr =>
    obtain ⟨hl, hr⟩ := named_arith.1 he
    exact named_arith.2 ⟨ihl hl, ihr hr⟩
  | compare o l r ihl ihr =>
    obtain ⟨hl, hr⟩ := named_compare.1 he
    exact named_compare.2 ⟨ihl hl, ihr hr⟩
  | and l r ihl ihr =>
    obtain ⟨hl, hr⟩ := named_and.1 he
    exact named_and.2 ⟨ihl hl, ihr hr⟩
  | or l r ihl ihr =>
    obtain ⟨hl, hr⟩ := named_or.1 he
    exact named_or.2 ⟨ihl hl, ihr hr⟩
  | call f as ih =>
    rw [substitute, substituteList_eq_map, named_call, List.forall_mem_map]
    exact fun a ha => ih a ha (named_call.1 he a ha)
  | invoke e f as ih ihs =>
    obtain ⟨he, has⟩ := named_invoke.1 he
    rw [substitute, substituteList_eq_map, named_invoke, List.forall_mem_map]
    exact ⟨ih he, fun a ha => ihs a ha (has a ha)⟩

end Discharge.Expr
