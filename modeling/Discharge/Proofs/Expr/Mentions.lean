import Discharge.Proofs.Expr.Names
import Mathlib

/-!
# What a condition mentions

The canonical form of a condition mentions the same names. Instantiating a condition that does not
mention the placeholder leaves it as it is, and one that does mentions the name put for it.

A condition may be split first and the parts brought into canonical form, or the other way round.
The second way may split further, since a pair of negations around a conjunction is dropped
(`conjuncts_canonical`); `SplitsAlike` says that it yields nothing new.
-/

namespace Discharge.Expr

variable {e : Expr} {x : String}

/-! ## Names -/

theorem hasFreeVars_iff : e.hasFreeVars = true ↔ ∃ x, x ∈ e.names := by
  rw [hasFreeVars, Bool.not_eq_true', List.isEmpty_eq_false_iff_exists_mem]

theorem mem_names_negate : x ∈ (negate e).names ↔ x ∈ e.names := by
  cases e with
  | num q =>
    rw [negate]
    split <;> rfl
  | _ => rfl

theorem mem_names_orient {o : CompareOp} {l r : Expr} :
    x ∈ (orient o l r).names ↔ x ∈ l.names ∨ x ∈ r.names := by
  rcases orient_eq o l r with heq | heq
  · rw [heq]
    exact List.mem_append
  · rw [heq, or_comm]
    exact List.mem_append

theorem mem_namesList_map {f : Expr → Expr} {as : List Expr}
    (h : ∀ a ∈ as, x ∈ (f a).names ↔ x ∈ a.names) :
    x ∈ namesList (as.map f) ↔ x ∈ namesList as := by
  simp only [mem_namesList, List.mem_map, exists_exists_and_eq_and]
  exact exists_congr fun a => and_congr_right (h a)

/-- Negating a condition does not change what its canonical form mentions either. -/
theorem mem_names_canonical_and_not :
    (x ∈ e.canonical.names ↔ x ∈ e.names) ∧ (x ∈ (not e).canonical.names ↔ x ∈ e.names) := by
  induction e with
  | bool b => exact ⟨.rfl, .rfl⟩
  | num q => exact ⟨.rfl, .rfl⟩
  | str s => exact ⟨.rfl, .rfl⟩
  | var y => exact ⟨.rfl, .rfl⟩
  | branded y b => exact ⟨.rfl, .rfl⟩
  | member e f ih => exact ⟨ih.1, ih.1⟩
  | neg e ih => exact ⟨mem_names_negate.trans ih.1, mem_names_negate.trans ih.1⟩
  | not e ih => exact ⟨ih.2, ih.1⟩
  | arith o l r ihl ihr =>
    have h : x ∈ (arith o l r).canonical.names ↔ x ∈ (arith o l r).names := by
      simp only [canonical, names, List.mem_append, ihl.1, ihr.1]
    exact ⟨h, h⟩
  | compare o l r ihl ihr =>
    have h : ∀ p, x ∈ (orient p l.canonical r.canonical).names ↔ x ∈ (compare o l r).names := by
      intro p
      rw [mem_names_orient, ihl.1, ihr.1]
      exact List.mem_append.symm
    exact ⟨h o, h o.negated⟩
  | and l r ihl ihr =>
    have h : x ∈ (and l r).canonical.names ↔ x ∈ (and l r).names := by
      simp only [canonical, names, List.mem_append, ihl.1, ihr.1]
    exact ⟨h, h⟩
  | or l r ihl ihr =>
    have h : x ∈ (or l r).canonical.names ↔ x ∈ (or l r).names := by
      simp only [canonical, names, List.mem_append, ihl.1, ihr.1]
    exact ⟨h, h⟩
  | call f as ih =>
    have h : x ∈ (call f as).canonical.names ↔ x ∈ (call f as).names := by
      rw [canonical, canonicalList_eq_map]
      exact mem_namesList_map fun a ha => (ih a ha).1
    exact ⟨h, h⟩
  | invoke e f as ih ihs =>
    have has : x ∈ namesList (as.map canonical) ↔ x ∈ namesList as :=
      mem_namesList_map fun a ha => (ihs a ha).1
    have h : x ∈ (invoke e f as).canonical.names ↔ x ∈ (invoke e f as).names := by
      simp only [canonical, canonicalList_eq_map, names, List.mem_append, ih.1, has]
    exact ⟨h, h⟩

theorem mem_names_canonical : x ∈ e.canonical.names ↔ x ∈ e.names :=
  mem_names_canonical_and_not.1

/-- A condition that does not mention the placeholder says the same of every name. -/
theorem instantiate_eq_self (h : placeholder ∉ e.names) (x : String) : e.instantiate x = e := by
  unfold instantiate
  induction e with
  | var y => rw [substitute, if_neg fun hy => h (List.mem_singleton.2 hy.symm)]
  | branded y b => rw [substitute, if_neg fun hy => h (List.mem_singleton.2 hy.symm)]
  | call f as ih =>
    have has : ∀ a ∈ as, placeholder ∉ a.names := fun a ha hmem => h (mem_namesList.2 ⟨a, ha, hmem⟩)
    rw [substitute, substituteList_eq_map,
      List.map_congr_left fun a ha => ih a ha (has a ha), List.map_id']
  | invoke e f as ih ihs =>
    simp only [names, List.mem_append, not_or, mem_namesList, not_exists, not_and] at h
    rw [substitute, substituteList_eq_map, ih h.1,
      List.map_congr_left fun a ha => ihs a ha (h.2 a ha), List.map_id']
  | _ => simp_all [names, substitute]

/-- A condition on the placeholder, said of a name, mentions that name. -/
theorem mem_names_instantiate (h : placeholder ∈ e.names) (x : String) :
    x ∈ (e.instantiate x).names := by
  unfold instantiate
  induction e with
  | var y =>
    rw [substitute, if_pos (List.mem_singleton.1 h).symm]
    exact List.mem_singleton.2 rfl
  | branded y b =>
    rw [substitute, if_pos (List.mem_singleton.1 h).symm]
    exact List.mem_singleton.2 rfl
  | call f as ih =>
    obtain ⟨a, ha, hmem⟩ := mem_namesList.1 h
    rw [substitute, substituteList_eq_map]
    exact mem_namesList.2 ⟨_, List.mem_map_of_mem ha, ih a ha hmem⟩
  | invoke e f as ih ihs =>
    rw [substitute, substituteList_eq_map, names, List.mem_append]
    rcases List.mem_append.1 h with he | has
    · exact .inl (ih he)
    · obtain ⟨a, ha, hmem⟩ := mem_namesList.1 has
      exact .inr (mem_namesList.2 ⟨_, List.mem_map_of_mem ha, ihs a ha hmem⟩)
  | _ => simp_all [names, substitute] <;> tauto

/-! ## Conjuncts -/

theorem conjuncts_of_not_conjunction (h : e.isConjunction = false) : e.conjuncts = [e] := by
  cases e with
  | and l r => cases h
  | _ => rfl

/-- The canonical form splits into what the canonical forms of the conjuncts split into. -/
theorem conjuncts_canonical (e : Expr) :
    e.canonical.conjuncts = e.conjuncts.flatMap (·.canonical.conjuncts) := by
  induction e with
  | and l r ihl ihr => rw [canonical, conjuncts, conjuncts, List.flatMap_append, ihl, ihr]
  | _ => exact (List.flatMap_singleton _ _).symm

theorem not_conjunction_of_mem_conjuncts {p : Expr} (h : p ∈ e.conjuncts) :
    p.isConjunction = false := by
  induction e with
  | and l r ihl ihr => exact (List.mem_append.1 h).elim ihl ihr
  | _ =>
    obtain rfl := List.mem_singleton.1 h
    rfl

theorem length_conjuncts_pos (e : Expr) : 0 < e.conjuncts.length := by
  induction e with
  | and l r ihl ihr =>
    rw [conjuncts, List.length_append]
    omega
  | _ => exact Nat.one_pos

/-- A conjunction splits into more parts than any of its conjuncts does, also in canonical form. -/
theorem canonical_ne_of_mem_conjuncts {p : Expr} (h : e.isConjunction = true)
    (hp : p ∈ e.conjuncts) : p.canonical ≠ e.canonical := by
  have hle : ∀ {e p : Expr}, p ∈ e.conjuncts →
      p.canonical.conjuncts.length ≤ e.canonical.conjuncts.length := by
    intro e p hp
    have hmem := List.mem_map_of_mem (f := (·.canonical.conjuncts)) hp
    rw [conjuncts_canonical e, List.flatMap_def]
    exact (List.sublist_flatten_of_mem hmem).length_le
  intro heq
  cases e with
  | and l r =>
    have hlength := congrArg (·.conjuncts.length) heq
    simp only [canonical, conjuncts, List.length_append] at hlength
    have hl := length_conjuncts_pos l.canonical
    have hr := length_conjuncts_pos r.canonical
    rcases List.mem_append.1 hp with hp | hp
    · have := hle hp
      omega
    · have := hle hp
      omega
  | _ => cases h

/-- Splitting the canonical form gives nothing but canonical forms of conjuncts. -/
def SplitsAlike (e : Expr) : Prop :=
  ∀ q ∈ e.canonical.conjuncts, ∃ p ∈ e.conjuncts, p.canonical = q

theorem splitsAlike_of_no_hidden (h : ∀ p ∈ e.conjuncts, p.canonical.isConjunction = false) :
    e.SplitsAlike := by
  intro q hq
  rw [conjuncts_canonical] at hq
  obtain ⟨p, hp, hq⟩ := List.mem_flatMap.1 hq
  rw [conjuncts_of_not_conjunction (h p hp)] at hq
  exact ⟨p, hp, (List.mem_singleton.1 hq).symm⟩

end Discharge.Expr
