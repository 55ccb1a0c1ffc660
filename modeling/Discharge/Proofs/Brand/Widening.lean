import Discharge.Brand.Widening
import Discharge.Proofs.Brand.Catalog

/-!
# Widening keeps to the edges

Every brand that the search reaches is reached by a path of stored edges through live brands
(`WideningGraph.path_of_mem_reachable`). So what every edge between live brands hands on from its
source to its target holds of a reachable brand if it holds of the start. The built-in edges hand on
that a brand holds of a variable (`WideningGraph.builtin_valid`).
-/

namespace Discharge

namespace WideningGraph

variable {g : WideningGraph} {live : String → Bool} {a b : String}

/-! ## Paths -/

/-- A path of edges of the graph that enters only live brands. -/
inductive Path (g : WideningGraph) (live : String → Bool) (a : String) : List Edge → String → Prop
  | nil : Path g live a [] a
  | snoc {path : List Edge} {e : Edge} (init : Path g live a path e.source) (mem : e ∈ g)
      (alive : live e.target = true) : Path g live a (path ++ [e]) e.target

theorem Path.live_target {path : List Edge} (h : g.Path live a path b) (ha : live a = true) :
    live b = true := by
  cases h with
  | nil => exact ha
  | snoc _ _ alive => exact alive

/-- What edges between live brands hand on, a path from a live brand hands on. -/
theorem Path.induct {P : String → Prop} {path : List Edge} (h : g.Path live a path b)
    (hlive : live a = true)
    (hedge : ∀ e ∈ g, live e.source = true → live e.target = true → P e.source → P e.target)
    (ha : P a) : P b := by
  induction h with
  | nil => exact ha
  | snoc init mem alive ih => exact hedge _ mem (init.live_target hlive) alive ih

/-- One visit: the brands found next have paths if the visited brand has one. -/
theorem path_of_mem_fresh {seen : List String} {path : List Edge} (h : g.Path live a path b)
    {e : Edge} (he : e ∈ g.fresh live seen b) : g.Path live a (path ++ [e]) e.target := by
  obtain ⟨hmem, hcond⟩ := List.mem_filter.1 he
  simp only [Bool.and_eq_true, beq_iff_eq] at hcond
  obtain ⟨⟨hsource, halive⟩, _⟩ := hcond
  exact .snoc (hsource ▸ h) hmem halive

/-- **The search finds paths**: if every brand in the queue has the path it comes with, so has every
brand that is found. -/
theorem path_of_mem_explore {n : Nat} {queue : List (String × List Edge)} {seen : List String}
    (hqueue : ∀ p ∈ queue, g.Path live a p.2 p.1) :
    ∀ p ∈ g.explore live n queue seen, g.Path live a p.2 p.1 := by
  induction n generalizing queue seen with
  | zero => exact fun _ h => absurd h List.not_mem_nil
  | succ n ih =>
    cases queue with
    | nil => exact fun _ h => absurd h List.not_mem_nil
    | cons q queue =>
      obtain ⟨hq, hqueue⟩ := List.forall_mem_cons.1 hqueue
      have hfound : ∀ p ∈ (g.fresh live seen q.1).map fun e => (e.target, q.2 ++ [e]),
          g.Path live a p.2 p.1 := by
        rw [List.forall_mem_map]
        exact fun e he => path_of_mem_fresh hq he
      rw [explore]
      exact List.forall_mem_append.2
        ⟨hfound, ih (List.forall_mem_append.2 ⟨hqueue, hfound⟩)⟩

theorem path_of_mem_reachable {p : String × List Edge} (h : p ∈ g.reachable live a) :
    g.Path live a p.2 p.1 := by
  unfold reachable at h
  split at h
  · exact path_of_mem_explore (List.forall_mem_singleton.2 .nil) p h
  · cases h

theorem live_of_mem_reachable {p : String × List Edge} (h : p ∈ g.reachable live a) :
    live a = true := by
  by_contra hdead
  rw [reachable, if_neg hdead] at h
  cases h

end WideningGraph

/-! ## Brands that compare a number with a literal -/

namespace Catalog

variable {ρ : Lookup ℚ} {c : Catalog} {b x : String} {q : Fraction}

theorem evalIn_compare_literal {o : CompareOp} :
    (Expr.compare o (.var x) (.num q)).evalIn .rational ρ = some (.bool true) ↔
      ∃ v, ρ.value x = some v ∧ o.Relates v q.toRat := by
  have hq : (Expr.num q).evalIn .rational ρ = some (.num q.toRat) := rfl
  constructor
  · intro h
    obtain ⟨_, _, _, hx, _⟩ := Expr.evalIn_compare.1 h
    obtain ⟨v, hv, rfl⟩ := Option.map_eq_some_iff.1 hx
    rw [Expr.evalIn_compare_num hx hq, Option.some.injEq, Result.bool.injEq] at h
    exact ⟨v, hv, of_decide_eq_true h⟩
  · rintro ⟨v, hv, hrel⟩
    have hx : (Expr.var x).evalIn .rational ρ = some (.num v) := by rw [Expr.evalIn, hv]; rfl
    rw [Expr.evalIn_compare_num hx hq, decide_eq_true hrel]

/-- A brand that states a comparison holds of a variable with such a value. -/
theorem holds_of_compare (hsorted : c.brands.Sorted) {o : CompareOp}
    (hb : (b, .compare o (.var "$") (.num q)) ∈ c.brands) {v : ℚ} (hv : ρ.value x = some v)
    (hq : o.Relates v q.toRat) : c.Holds .rational ρ b x := by
  refine ⟨_, predicateFor?_of_mem hsorted hb x, ?_⟩
  exact Expr.evalIn_canonical Arithmetic.rational_lawful (evalIn_compare_literal.2 ⟨v, hv, hq⟩)

/-- A brand that states a strict lower bound. -/
theorem above_of_holds (hsorted : c.brands.Sorted)
    (hb : (b, .compare .gt (.var "$") (.num q)) ∈ c.brands) (h : c.Holds .rational ρ b x) :
    ∃ v, ρ.value x = some v ∧ q.toRat < v := by
  obtain ⟨p, hp, htrue⟩ := h
  rw [predicateFor?_of_mem hsorted hb x] at hp
  cases hp
  exact evalIn_compare_literal.1 htrue

/-- A brand that states a range that begins with a literal. -/
theorem lower_of_holds (hsorted : c.brands.Sorted) {rest : Expr}
    (hb : (b, .and (.compare .ge (.var "$") (.num q)) rest) ∈ c.brands)
    (h : c.Holds .rational ρ b x) : ∃ v, ρ.value x = some v ∧ q.toRat ≤ v := by
  obtain ⟨p, hp, htrue⟩ := h
  rw [predicateFor?_of_mem hsorted hb x] at hp
  cases hp
  rcases Expr.evalIn_and.1 htrue with ⟨_, hfalse⟩ | ⟨hl, _⟩
  · cases hfalse
  · exact evalIn_compare_literal.1 hl

end Catalog

/-! ## The built-in edges -/

namespace WideningGraph

variable {g : WideningGraph}

theorem mem_insert {d e : Edge} (h : e ∈ g.insert d) : e = d ∨ e ∈ g := by
  induction g with
  | nil => exact .inl (List.mem_singleton.1 h)
  | cons f rest ih =>
    rw [insert] at h
    split at h
    · rcases List.mem_cons.1 h with rfl | h
      · exact .inl rfl
      · exact .inr (List.mem_cons_of_mem _ h)
    split at h
    · rcases List.mem_cons.1 h with rfl | h
      · exact .inl rfl
      · exact .inr h
    · rcases List.mem_cons.1 h with rfl | h
      · exact .inr List.mem_cons_self
      · rcases ih h with rfl | h
        · exact .inl rfl
        · exact .inr (List.mem_cons_of_mem _ h)

theorem mem_builtinEdges {e : Edge} (h : e ∈ builtin) : e ∈ builtinEdges := by
  refine List.foldlRecOn builtinEdges _ (motive := fun g => ∀ e ∈ g, e ∈ builtinEdges)
    (fun _ h => absurd h List.not_mem_nil) (fun g hg d hd e he => ?_) e h
  rcases mem_insert he with rfl | he
  · exact hd
  · exact hg e he

/-- **The built-in edges are valid**: where the source of an edge holds of a variable, so does its
target. -/
theorem builtin_valid {ρ : Lookup ℚ} {e : Edge} (he : e ∈ builtin) {x : String}
    (h : Catalog.builtin.Holds .rational ρ e.source x) :
    Catalog.builtin.Holds .rational ρ e.target x := by
  have hsorted := Catalog.builtin_brands_spec.1
  have hpositive : ("Positive", .compare .gt (.var "$") (.num .zero)) ∈ Catalog.builtin.brands := by
    simp [Catalog.builtin_brands]
  have hnonNegative :
      ("NonNegative", .compare .ge (.var "$") (.num .zero)) ∈ Catalog.builtin.brands := by
    simp [Catalog.builtin_brands]
  have hnonZero : ("NonZero", .compare .ne (.var "$") (.num .zero)) ∈ Catalog.builtin.brands := by
    simp [Catalog.builtin_brands]
  have hrange : ∀ b ∈ ["Byte", "Percentage"], ∃ rest,
      (b, Expr.and (.compare .ge (.var "$") (.num .zero)) rest) ∈ Catalog.builtin.brands := by
    simp [Catalog.builtin_brands]
  have hport : ∃ rest,
      ("Port", Expr.and (.compare .ge (.var "$") (.num .one)) rest) ∈ Catalog.builtin.brands := by
    simp [Catalog.builtin_brands]
  -- Of each source only the lower bound is used.
  have hedges := mem_builtinEdges he
  simp only [builtinEdges, List.mem_cons, List.not_mem_nil, or_false] at hedges
  rcases hedges with rfl | rfl | rfl | rfl | rfl
  · obtain ⟨v, hv, hpos⟩ := Catalog.above_of_holds hsorted hpositive h
    exact Catalog.holds_of_compare hsorted hnonNegative hv (le_of_lt hpos)
  · obtain ⟨v, hv, hpos⟩ := Catalog.above_of_holds hsorted hpositive h
    exact Catalog.holds_of_compare hsorted hnonZero hv hpos.ne'
  · obtain ⟨rest, hb⟩ := hrange "Byte" (by simp)
    obtain ⟨v, hv, hnonneg⟩ := Catalog.lower_of_holds hsorted hb h
    exact Catalog.holds_of_compare hsorted hnonNegative hv hnonneg
  · obtain ⟨rest, hb⟩ := hport
    obtain ⟨v, hv, hone⟩ := Catalog.lower_of_holds hsorted hb h
    exact Catalog.holds_of_compare hsorted hpositive hv (lt_of_lt_of_le one_pos hone)
  · obtain ⟨rest, hb⟩ := hrange "Percentage" (by simp)
    obtain ⟨v, hv, hnonneg⟩ := Catalog.lower_of_holds hsorted hb h
    exact Catalog.holds_of_compare hsorted hnonNegative hv hnonneg

end WideningGraph

end Discharge
