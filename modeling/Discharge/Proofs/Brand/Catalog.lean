import Discharge.Brand.Catalog
import Discharge.Proofs.Expr.Canonical
import Discharge.Proofs.Expr.Names
import Mathlib

/-!
# What brands say

A brand holds of a variable when the canonical form of its predicate does (`Catalog.Holds`). A
condition that restates the predicate of a registered brand for a variable says that the brand holds
of that variable (`Catalog.brandOf?_sound`). The reverse lookup compares canonical forms without
replacing brands in them, which is harmless as long as no registered predicate contains one.
-/

namespace Discharge

/-! ## Tables -/

namespace Table

variable {α : Type} {t : Table α} {key : String} {value : α}

/-- Keys in strict order. -/
def Sorted (t : Table α) : Prop := t.Pairwise fun p q => p.1 < q.1

theorem mem_insert {p : String × α} (h : p ∈ t.insert key value) : p = (key, value) ∨ p ∈ t := by
  induction t with
  | nil => exact .inl (List.mem_singleton.1 h)
  | cons q rest ih =>
    rw [insert] at h
    split at h
    · rename_i hkey
      rcases List.mem_cons.1 h with rfl | h
      · exact .inl (by rw [hkey])
      · exact .inr (List.mem_cons_of_mem _ h)
    split at h
    · rcases List.mem_cons.1 h with rfl | h
      · exact .inl rfl
      · exact .inr h
    · rcases List.mem_cons.1 h with rfl | h
      · exact .inr List.mem_cons_self
      · rcases ih h with rfl | h
        · exact .inl rfl
        · exact .inr (List.mem_cons_of_mem _ h)

theorem mem_of_find? (h : t.find? key = some value) : (key, value) ∈ t := by
  obtain ⟨before, after, rfl, _⟩ := List.lookup_eq_some_iff.1 h
  exact List.mem_append_right _ List.mem_cons_self

theorem Sorted.insert (h : t.Sorted) (key : String) (value : α) : (t.insert key value).Sorted := by
  induction t with
  | nil => exact List.pairwise_singleton _ _
  | cons q rest ih =>
    obtain ⟨hq, hrest⟩ := List.pairwise_cons.1 h
    rw [Table.insert]
    split
    · exact List.pairwise_cons.2 ⟨hq, hrest⟩
    split
    · rename_i hlt
      refine List.pairwise_cons.2 ⟨fun p hp => ?_, h⟩
      rcases List.mem_cons.1 hp with rfl | hp
      · exact hlt
      · exact lt_trans hlt (hq p hp)
    · rename_i hne hlt
      refine List.pairwise_cons.2 ⟨fun p hp => ?_, ih hrest⟩
      rcases mem_insert hp with rfl | hp
      · exact lt_of_le_of_ne (not_lt.1 hlt) (Ne.symm hne)
      · exact hq p hp

/-- An entry of a sorted table is found under its key. -/
theorem Sorted.find?_of_mem (h : t.Sorted) (hmem : (key, value) ∈ t) :
    t.find? key = some value := by
  induction t with
  | nil => cases hmem
  | cons q rest ih =>
    obtain ⟨hq, hrest⟩ := List.pairwise_cons.1 h
    rw [find?, List.lookup_cons]
    rcases List.mem_cons.1 hmem with rfl | hmem
    · simp
    · have hne : (key == q.1) = false := beq_false_of_ne (hq _ hmem).ne'
      rw [hne]
      exact ih hrest hmem

end Table

/-! ## Conditions without brands -/

namespace Expr

/-- No brand annotation stands among the negations, conjunctions and disjunctions at the top. -/
def Unbranded : Expr → Prop
  | .branded .. => False
  | .and l r | .or l r => l.Unbranded ∧ r.Unbranded
  | .neg e | .not e => e.Unbranded
  | _ => True

theorem expand_eq_self {c : Catalog} {e : Expr} (he : e.Unbranded) : c.expand e = e := by
  induction e with
  | branded x b => exact absurd he id
  | neg e ih => rw [Catalog.expand, ih he]
  | not e ih => rw [Catalog.expand, ih he]
  | and l r ihl ihr => rw [Catalog.expand, ihl he.1, ihr he.2]
  | or l r ihl ihr => rw [Catalog.expand, ihl he.1, ihr he.2]
  | _ => rfl

theorem unbranded_negate {e : Expr} : (negate e).Unbranded ↔ e.Unbranded := by
  cases e with
  | num q =>
    rw [negate]
    split <;> exact Iff.rfl
  | _ => exact Iff.rfl

theorem unbranded_orient (o : CompareOp) (l r : Expr) : (orient o l r).Unbranded := by
  rcases orient_eq o l r with heq | heq <;> rw [heq] <;> trivial

/-- The canonical forms of a condition and of its negation contain the brands of the condition. -/
theorem unbranded_canonical_and_not (e : Expr) :
    (e.canonical.Unbranded ↔ e.Unbranded) ∧ ((not e).canonical.Unbranded ↔ e.Unbranded) := by
  induction e with
  | neg e ih =>
    have h : (neg e).canonical.Unbranded ↔ (neg e).Unbranded := unbranded_negate.trans ih.1
    exact ⟨h, h⟩
  | not e ih => exact ⟨ih.2, ih.1⟩
  | compare o l r _ _ =>
    exact ⟨iff_of_true (unbranded_orient o _ _) trivial,
      iff_of_true (unbranded_orient o.negated _ _) trivial⟩
  | and l r ihl ihr => exact ⟨and_congr ihl.1 ihr.1, and_congr ihl.1 ihr.1⟩
  | or l r ihl ihr => exact ⟨and_congr ihl.1 ihr.1, and_congr ihl.1 ihr.1⟩
  | _ => exact ⟨Iff.rfl, Iff.rfl⟩

theorem unbranded_canonical {e : Expr} : e.canonical.Unbranded ↔ e.Unbranded :=
  (unbranded_canonical_and_not e).1

theorem unbranded_instantiate {e : Expr} (he : e.Unbranded) (x : String) :
    (e.instantiate x).Unbranded := by
  unfold instantiate
  induction e with
  | var y =>
    rw [substitute]
    split <;> trivial
  | branded y b => exact absurd he id
  | neg e ih => exact ih he
  | not e ih => exact ih he
  | and l r ihl ihr => exact ⟨ihl he.1, ihr he.2⟩
  | or l r ihl ihr => exact ⟨ihl he.1, ihr he.2⟩
  | _ => trivial

end Expr

/-! ## Brands of variables -/

namespace Catalog

variable {N : Type} {A : Arithmetic N} {ρ : Lookup N} {c : Catalog} {b x : String}

/-- The brand is known, and the canonical form of its predicate is true of the variable. -/
def Holds (c : Catalog) (A : Arithmetic N) (ρ : Lookup N) (b x : String) : Prop :=
  ∃ p, c.predicateFor? b x = some p ∧ p.canonical.evalIn A ρ = some (.bool true)

/-- A true annotation says that the brand holds. -/
theorem holds_of_branded (hA : A.Lawful)
    (h : (c.expand (.branded x b)).evalIn A ρ = some (.bool true)) : c.Holds A ρ b x := by
  rw [expand] at h
  cases hp : c.predicateFor? b x with
  | none =>
    rw [hp] at h
    cases h
  | some p =>
    rw [hp] at h
    exact ⟨p, hp, Expr.evalIn_canonical hA h⟩

theorem predicateFor?_of_mem (hsorted : c.brands.Sorted) {p : Expr} (hp : (b, p) ∈ c.brands)
    (x : String) : c.predicateFor? b x = some (p.instantiate x) := by
  rw [predicateFor?, predicate?, hsorted.find?_of_mem hp]
  rfl

/-- Without families, the brands that say something are those registered under their names. -/
theorem predicate?_of_no_families (h : c.families = []) : c.predicate? b = c.brands.find? b := by
  rw [predicate?, familyOf?, h]
  cases c.brands.find? b <;> rfl

theorem contains_of_no_families (h : c.families = []) :
    c.contains b = (c.predicate? b).isSome := by
  rw [predicate?_of_no_families h, contains, familyOf?, h, Table.contains]
  simp

/-- **Restating a predicate gives the brand**: a true condition in which a registered brand is
recognized says that the brand holds of the variable. -/
theorem brandOf?_sound (hA : A.Lawful) (hsorted : c.brands.Sorted)
    (hplain : ∀ p ∈ c.brands, p.2.Unbranded) {e : Expr} (h : c.brandOf? e = some (b, x))
    (he : (c.expand e).evalIn A ρ = some (.bool true)) : c.Holds A ρ b x := by
  unfold brandOf? at h
  split at h
  · cases h
    exact holds_of_branded hA he
  · obtain ⟨p, hp, hfound⟩ := List.exists_of_findSome?_eq_some h
    obtain ⟨_, hx, ⟨⟩⟩ := Option.map_eq_some_iff.1 hfound
    have hsame : (p.2.instantiate x).canonical = e.canonical := by simpa using List.find?_some hx
    have hunbranded : e.Unbranded := by
      rw [← Expr.unbranded_canonical, ← hsame, Expr.unbranded_canonical]
      exact Expr.unbranded_instantiate (hplain p hp) x
    rw [Expr.expand_eq_self hunbranded] at he
    exact ⟨_, predicateFor?_of_mem hsorted hp x, hsame ▸ Expr.evalIn_canonical hA he⟩

/-! ## Names -/

theorem named_predicate? (hc : ∀ p ∈ c.brands, p.2.Named) {p : Expr}
    (h : c.predicate? b = some p) : p.Named := by
  unfold predicate? at h
  split at h
  · rename_i q hq
    cases h
    exact hc _ (Table.mem_of_find? hq)
  · obtain ⟨f, _, h⟩ := Option.bind_eq_some_iff.1 h
    obtain ⟨groups, _, h⟩ := Option.bind_eq_some_iff.1 h
    cases hparse : Expr.parse (f.fill groups) with
    | error e =>
      rw [hparse] at h
      cases h
    | ok q =>
      rw [hparse] at h
      cases h
      exact Expr.named_of_parse hparse

/-- With its brands replaced, a condition keeps to names. -/
theorem named_expand (hc : ∀ p ∈ c.brands, p.2.Named) {e : Expr} (he : e.Named) :
    (c.expand e).Named := by
  induction e with
  | branded x b =>
    rw [expand]
    cases hp : c.predicateFor? b x with
    | none => exact he
    | some q =>
      obtain ⟨p, hpredicate, rfl⟩ := Option.map_eq_some_iff.1 hp
      exact Expr.named_instantiate (named_predicate? hc hpredicate) (Expr.named_branded.1 he)
  | neg e ih => exact ih he
  | not e ih => exact ih he
  | and l r ihl ihr =>
    obtain ⟨hl, hr⟩ := Expr.named_and.1 he
    exact Expr.named_and.2 ⟨ihl hl, ihr hr⟩
  | or l r ihl ihr =>
    obtain ⟨hl, hr⟩ := Expr.named_or.1 he
    exact Expr.named_or.2 ⟨ihl hl, ihr hr⟩
  | _ => exact he

/-! ## The built-in catalog -/

/-- Registering keeps the table of brands sorted, and its predicates have been read. -/
theorem foldl_register_spec (brands : List (String × String)) :
    let c := brands.foldl (fun c (brand, text) =>
      match Expr.parse text with
      | .ok p => c.register brand p
      | .error _ => c) empty
    c.brands.Sorted ∧ ∀ p ∈ c.brands, p.2.Readable := by
  refine List.foldlRecOn brands _
    (motive := fun c : Catalog => c.brands.Sorted ∧ ∀ p ∈ c.brands, p.2.Readable)
    ⟨.nil, fun _ h => absurd h List.not_mem_nil⟩ ?_
  rintro c ⟨hsorted, hread⟩ ⟨b, text⟩ _
  dsimp only
  split
  · rename_i p hp
    refine ⟨hsorted.insert b p, fun q hq => ?_⟩
    rcases Table.mem_insert hq with rfl | hq
    · exact Expr.readable_of_parse hp
    · exact hread q hq
  · exact ⟨hsorted, hread⟩

theorem builtin_brands_spec : builtin.brands.Sorted ∧ ∀ p ∈ builtin.brands, p.2.Readable := by
  unfold builtin registerFamily
  -- The texts do not matter, and none of them is to be read here.
  generalize builtinBrands = brands
  exact foldl_register_spec brands

theorem named_builtin : ∀ p ∈ builtin.brands, p.2.Named :=
  fun p hp => Expr.named_of_readable (builtin_brands_spec.2 p hp)

theorem builtin_families : builtin.families = [.vector] := by
  have hfirst : ∀ c : Catalog, c.families = [] →
      (c.registerFamily .vector).families = [.vector] := by
    intro c hc
    rw [registerFamily, hc]
    rfl
  unfold builtin
  generalize builtinBrands = brands
  refine hfirst _ (List.foldlRecOn brands _ (motive := fun c : Catalog => c.families = []) rfl ?_)
  rintro c hc ⟨b, text⟩ _
  dsimp only
  split
  · exact hc
  · exact hc

/-- The predicates of the built-in brands. -/
theorem builtin_brands : builtin.brands = [
    ("Byte", .and (.compare .ge (.var "$") (.num .zero))
      (.compare .le (.var "$") (.num (.ofWord 255 (by decide))))),
    ("Finite", .call "Number.isFinite" [.var "$"]),
    ("NonEmpty", .compare .gt (.member (.var "$") "length") (.num .zero)),
    ("NonNegative", .compare .ge (.var "$") (.num .zero)),
    ("NonZero", .compare .ne (.var "$") (.num .zero)),
    ("Percentage", .and (.compare .ge (.var "$") (.num .zero))
      (.compare .le (.var "$") (.num (.ofWord 100 (by decide))))),
    ("Port", .and (.compare .ge (.var "$") (.num .one))
      (.compare .le (.var "$") (.num (.ofWord 65535 (by decide))))),
    ("Positive", .compare .gt (.var "$") (.num .zero)),
    ("Trimmed", .compare .eq (.var "$") (.invoke (.var "$") "trim" []))] := by
  cbv

theorem unbranded_builtin : ∀ p ∈ builtin.brands, p.2.Unbranded := by
  rw [builtin_brands]
  simp [Expr.Unbranded]

end Catalog

end Discharge
