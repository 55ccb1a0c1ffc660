import Discharge.Proofs.Brand.Expansion
import Discharge.Proofs.Expr.Spelling

/-!
# Brands that say printable things

With brands replaced by what they say, a printable condition stays printable, if the predicates of
the brands are (`Catalog.printable_expand`). Those of the built-in brands are
(`Catalog.printable_builtin`): what is filled into the template of the family of vectors consists of
digits, because the automaton of its pattern takes only digits between the two marks of its group.
-/

namespace Discharge

/-! ## Matching -/

namespace Pattern

variable {code : Array State} {text : Array Char} {I : Trial → Prop}

/-- A match ends in a trial that accepts, and of which whatever every step keeps is true. -/
theorem search_invariant
    (hstep : ∀ t s, I t → code[t.state]? = some s → ∀ t' ∈ s.step text t, I t') {n : Nat}
    {waiting : List Trial} (hwaiting : ∀ t ∈ waiting, I t) {tried : Array Bool}
    {marks : List (Nat × Nat)} (h : search code text n waiting tried = some marks) :
    ∃ t, I t ∧ code[t.state]? = some .accept ∧ t.marks = marks := by
  induction n generalizing waiting tried with
  | zero => cases h
  | succ n ih =>
    cases waiting with
    | nil => cases h
    | cons t waiting =>
      obtain ⟨ht, hwaiting⟩ := List.forall_mem_cons.1 hwaiting
      unfold search at h
      dsimp only at h
      split at h
      · exact ih hwaiting h
      split at h
      · exact ih hwaiting h
      · rename_i hcode
        cases h
        exact ⟨t, ht, hcode, rfl⟩
      · rename_i s _ hcode
        exact ih (List.forall_mem_append.2 ⟨hstep t s ht hcode, hwaiting⟩) h

end Pattern

/-! ## Vectors -/

namespace Family

open Pattern

/-- The characters of the text from one place up to another are digits. -/
def DigitsBetween (text : Array Char) (a b : Nat) : Prop :=
  ∀ i, a ≤ i → i < b → ∃ c, text[i]? = some c ∧ Text.isDigit c = true

/-- What a trial remembers, by its state: nothing before the group, where it opens inside it, and
where it closes too behind it. What lies between are digits. -/
inductive VectorTrial (text : Array Char) : Trial → Prop
  | before {state place : Nat} (h : state ≤ 5) : VectorTrial text ⟨state, place, []⟩
  | inside {state place a : Nat} (h : 6 ≤ state) (h' : state ≤ 8)
      (hdigits : DigitsBetween text a place) : VectorTrial text ⟨state, place, [(openSlot 1, a)]⟩
  | behind {state place a b : Nat} (h : 9 ≤ state) (hdigits : DigitsBetween text a b) :
      VectorTrial text ⟨state, place, [(closeSlot 1, b), (openSlot 1, a)]⟩

theorem automaton_vector : vectorPattern.automaton = #[.atStart 1, .take (.char 'V') 2,
    .take (.char 'e') 3, .take (.char 'c') 4, .take (.char '<') 5, .mark (openSlot 1) 6,
    .take .digit 7, .branch 6 8, .mark (closeSlot 1) 9, .take (.char '>') 10, .atFinish 11,
    .accept] := rfl

theorem mem_step_take {text : Array Char} {t t' : Trial} {c : CharClass} {next : Nat}
    (h : t' ∈ (State.take c next).step text t) :
    t' = { t with state := next, place := t.place + 1 } ∧
      ∃ d, text[t.place]? = some d ∧ c.contains d = true := by
  rw [State.step] at h
  split at h
  · rename_i d hd
    split at h
    · rename_i hc
      exact ⟨List.mem_singleton.1 h, d, hd, hc⟩
    · cases h
  · cases h

theorem DigitsBetween.succ {text : Array Char} {a b : Nat} (h : DigitsBetween text a b) {c : Char}
    (hc : text[b]? = some c) (hdigit : Text.isDigit c = true) : DigitsBetween text a (b + 1) := by
  intro i hi hlt
  rcases Nat.lt_succ_iff_lt_or_eq.1 hlt with hlt | rfl
  · exact h i hi hlt
  · exact ⟨c, hc, hdigit⟩

theorem vectorTrial_step {text : Array Char} {t : Trial} {s : State} (ht : VectorTrial text t)
    (hs : vectorPattern.automaton[t.state]? = some s) :
    ∀ t' ∈ s.step text t, VectorTrial text t' := by
  rw [automaton_vector] at hs
  intro t' ht'
  cases ht with
  | @before state place h =>
    interval_cases state <;> cases hs
    any_goals
      rw [(mem_step_take ht').1]
      exact .before (by decide)
    · rw [List.mem_singleton.1 (List.mem_ite_nil_right.1 ht').2]
      exact .before (by decide)
    · rw [List.mem_singleton.1 ht']
      exact .inside (by decide) (by decide) fun i hi hlt => absurd hlt (Nat.not_lt.2 hi)
  | @inside state place a h h' hdigits =>
    interval_cases state <;> cases hs
    · obtain ⟨rfl, c, hc, hdigit⟩ := mem_step_take ht'
      exact .inside (by decide) (by decide) (hdigits.succ hc hdigit)
    · rcases List.mem_pair.1 ht' with rfl | rfl
      · exact .inside (by decide) (by decide) hdigits
      · exact .inside (by decide) (by decide) hdigits
    · rw [List.mem_singleton.1 ht']
      exact .behind (by decide) hdigits
  | @behind state place a b h hdigits =>
    obtain ⟨hlt, _⟩ := Array.getElem?_eq_some_iff.1 hs
    have hsize : state < 12 := hlt
    interval_cases state <;> cases hs
    · rw [(mem_step_take ht').1]
      exact .behind (by decide) hdigits
    · rw [List.mem_singleton.1 (List.mem_ite_nil_right.1 ht').2]
      exact .behind (by decide) hdigits
    · cases ht'

theorem DigitsBetween.of_mem {cs : List Char} {a b : Nat} (h : DigitsBetween cs.toArray a b)
    {c : Char} (hc : c ∈ (cs.drop a).take (b - a)) : Text.isDigit c = true := by
  obtain ⟨i, hi⟩ := List.mem_iff_getElem?.1 hc
  rw [List.getElem?_take] at hi
  split at hi
  · rw [List.getElem?_drop] at hi
    obtain ⟨d, hd, hdigit⟩ := h (a + i) (Nat.le_add_right a i) (by omega)
    rw [List.getElem?_toArray, hi] at hd
    cases hd
    exact hdigit
  · cases hi

/-- What the group of a vector matches are digits. -/
theorem groups_vector {b : String} {groups : List String}
    (h : vectorPattern.groups? b = some groups) :
    ∃ ds, groups = [String.ofList ds] ∧ ∀ c ∈ ds, Text.isDigit c = true := by
  obtain ⟨marks, hmarks, h⟩ := Option.bind_eq_some_iff.1 h
  obtain ⟨t, ht, haccept, rfl⟩ := search_invariant (I := VectorTrial b.toList.toArray)
    (fun t s => vectorTrial_step)
    (List.forall_mem_map.2 fun i _ => .before (Nat.zero_le 5)) hmarks
  cases ht with
  | @before state place h => interval_cases state <;> cases haccept
  | @inside state place a h h' _ => interval_cases state <;> cases haccept
  | @behind state place a b' _ hdigits =>
    cases h
    exact ⟨_, rfl, fun c => hdigits.of_mem⟩

theorem printable_vector {b : String} {p : Expr} (h : vector.predicate? b = some p) :
    p.Printable := by
  obtain ⟨groups, hgroups, hp⟩ := Option.bind_eq_some_iff.1 h
  obtain ⟨ds, rfl, hdigits⟩ := groups_vector hgroups
  rw [Catalog.fill_vector] at hp
  cases hparse : Expr.parse ("$.length == " ++ String.ofList ds) with
  | error err =>
    rw [hparse] at hp
    cases hp
  | ok q =>
    rw [hparse] at hp
    cases hp
    have hfree : ∀ c, c ∉ "$.length == ".toList → Text.isDigit c = false →
        c ∉ ("$.length == " ++ String.ofList ds).toList := by
      intro c htemplate hc hmem
      rw [String.toList_append] at hmem
      rcases List.mem_append.1 hmem with hmem | hmem
      · exact htemplate hmem
      · rw [String.toList_ofList] at hmem
        exact Bool.false_ne_true (hc.symm.trans (hdigits c hmem))
    have hletters : ∀ c ∈ Expr.foreignLetters,
        c ∉ "$.length == ".toList ∧ Text.isDigit c = false := by
      simp only [Expr.foreignLetters, List.forall_mem_cons]
      refine ⟨?_, ?_, ?_, ?_, ?_, ?_, ?_, List.forall_mem_nil _⟩ <;> exact ⟨by decide, by rfl⟩
    exact Expr.printable_of_parse (fun c hc => hfree c (hletters c hc).1 (hletters c hc).2)
      (hfree _ (by decide) (by rfl)) hparse

end Family

/-! ## Expansion -/

namespace Catalog

variable {c : Catalog} {e : Expr}

/-- The predicates of all brands are printable, registered or derived from a family. -/
structure Printable (c : Catalog) : Prop where
  brands : ∀ q ∈ c.brands, q.2.Printable
  families : ∀ f ∈ c.families, ∀ b p, f.predicate? b = some p → p.Printable

theorem Printable.predicate? (hc : c.Printable) {b : String} {p : Expr}
    (h : c.predicate? b = some p) : p.Printable := by
  unfold Catalog.predicate? at h
  split at h
  · rename_i hfind
    cases h
    exact hc.brands _ (Table.mem_of_find? hfind)
  · obtain ⟨f, hf, hp⟩ := Option.bind_eq_some_iff.1 h
    exact hc.families f (List.mem_of_find?_eq_some hf) b p hp

/-- With its brands replaced, a printable condition stays printable. A number cannot come to stand
behind a sign, because a condition has no sign at its top. -/
theorem printable_expand (hc : c.Printable) (he : e.Printable) (hbool : e.isBoolean = true) :
    (c.expand e).Printable := by
  induction he with
  | branded hx hb =>
    rw [expand, predicateFor?]
    cases hp : c.predicate? _ with
    | none => exact .branded hx hb
    | some p => exact (hc.predicate? hp).instantiate hx
  | and _ _ ihl ihr =>
    obtain ⟨hl, hr⟩ := Bool.and_eq_true_iff.1 hbool
    exact .and (ihl hl) (ihr hr)
  | or _ _ ihl ihr =>
    obtain ⟨hl, hr⟩ := Bool.and_eq_true_iff.1 hbool
    exact .or (ihl hl) (ihr hr)
  | not _ ih => exact .not (ih hbool)
  | neg _ _ _ => cases hbool
  | _ => (constructor <;> assumption)

theorem printable_builtin : builtin.Printable where
  brands := by
    have hnames : ∀ q ∈ builtin.brands, q.2.names ⊆ ["$"] ∧ q.2.strings = [] := by
      rw [builtin_brands]
      decide
    intro q hq
    obtain ⟨hplaceholder, hstrings⟩ := hnames q hq
    refine Expr.printable_of_readable (builtin_brands_spec.2 q hq) (fun x hx => ?_) ?_
    · rw [List.mem_singleton.1 (hplaceholder hx)]
      exact ⟨⟨by rfl, by decide, by decide⟩, by decide⟩
    · rw [hstrings]
      exact List.forall_mem_nil _
  families := by
    rw [builtin_families]
    exact List.forall_mem_singleton.2 fun b p => Family.printable_vector

end Catalog

end Discharge
