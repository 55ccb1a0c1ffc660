import Discharge.Registry
import Discharge.Proofs.Brand.Reachability
import Mathlib

/-!
# Registries and the brands that widen in them

A registry starts empty or with what is built in, and every other one arises by changes
(`Registry.Arises`). Through all of them its table of brands stays sorted. A brand widens to another
just when a chain of edges between known brands leads there (`Registry.canWiden_iff`), whatever was
known when the edges were registered.
-/

namespace Discharge.Registry

open WideningGraph (ofEdges Path Joined)

variable {r : Registry} {a b : String}

/-- A registry as it can arise: empty or built in, and then changed any number of times. -/
inductive Arises : Registry → Prop
  | empty (token : Nat) : Arises (empty token)
  | builtin (token : Nat) : Arises (builtin token)
  | apply {r : Registry} (h : Arises r) (c : Change) : Arises (r.apply c)

theorem Arises.sorted_brands (h : r.Arises) : r.brands.brands.Sorted := by
  induction h with
  | empty token => exact List.Pairwise.nil
  | builtin token => exact Catalog.builtin_brands_spec.1
  | @apply r _ c ih =>
    cases c with
    | brand name predicate => exact ih.insert name predicate
    | clearBrands => exact List.Pairwise.nil
    | _ => exact ih

theorem canWiden_iff :
    r.canWiden a b = true ↔ Relation.ReflTransGen (Joined r.widening r.brands.contains) a b :=
  WideningGraph.isSome_path?_iff

/-- A brand that no edge leaves widens to itself only. -/
theorem eq_of_canWiden (hleaf : ∀ e ∈ r.widening, e.source ≠ a) (h : r.canWiden a b = true) :
    a = b := by
  rcases (canWiden_iff.1 h).cases_head with heq | ⟨c, ⟨_, _, e, he, hsource, _⟩, _⟩
  · exact heq
  · exact absurd hsource (hleaf e he)

/-- **Widening is reachability along shortest paths.** Whatever edges are registered, and whichever
brands are live, the search from a brand lists every other brand that live brands lead to, once, and
nothing else, each with a chain of stored edges through live brands such that none is shorter.
So in a registry widening is the reflexive and transitive closure of the edges between known brands,
and no edge is followed backwards. -/
theorem widening_exact (edges : List Edge) (live : String → Bool) (a : String) :
    (((ofEdges edges).reachable live a).map (·.1)).Nodup ∧
    (∀ b, b ∈ ((ofEdges edges).reachable live a).map (·.1) ↔
      b ≠ a ∧ Relation.ReflTransGen (Joined edges live) a b) ∧
    (∀ p ∈ (ofEdges edges).reachable live a,
      live a = true ∧ (ofEdges edges).Path live a p.2 p.1 ∧
        ∀ path, (ofEdges edges).Path live a path p.1 → p.2.length ≤ path.length) ∧
    (∀ (r : Registry) (x y : String), r.canWiden x y = true ↔
      Relation.ReflTransGen (Joined r.widening r.brands.contains) x y) ∧
    (∀ (r : Registry) (x : String), r.canWiden x x = true) ∧
    (∀ (r : Registry) (x y z : String),
      r.canWiden x y = true → r.canWiden y z = true → r.canWiden x z = true) ∧
    ∀ (r : Registry) (e : Edge), r.widening = [e] → e.source ≠ e.target →
      r.canWiden e.source e.target = (r.brands.contains e.source && r.brands.contains e.target) ∧
        r.canWiden e.target e.source = false := by
  have hsorted := WideningGraph.sorted_ofEdges edges
  refine ⟨hsorted.nodup_reachable, fun b => ?_, fun p hp => ?_, fun r x y => canWiden_iff,
    fun r x => canWiden_iff.2 .refl, fun r x y z hxy hyz => ?_, fun r e hone hne => ⟨?_, ?_⟩⟩
  · rw [WideningGraph.mem_reachable_iff, WideningGraph.joined_ofEdges]
  · exact ⟨WideningGraph.live_of_mem_reachable hp, WideningGraph.path_of_mem_reachable hp,
      fun _ => hsorted.length_le_of_path hp⟩
  · exact canWiden_iff.2 ((canWiden_iff.1 hxy).trans (canWiden_iff.1 hyz))
  · rw [Bool.eq_iff_iff, canWiden_iff, Bool.and_eq_true]
    constructor
    · intro h
      rcases h.cases_head with heq | ⟨c, ⟨hsource, htarget, d, hd, _, rfl⟩, _⟩
      · exact absurd heq hne
      · obtain rfl : d = e := by simpa [hone] using hd
        exact ⟨hsource, htarget⟩
    · rintro ⟨hsource, htarget⟩
      exact .single ⟨hsource, htarget, e, by simp [hone], rfl, rfl⟩
  · refine Bool.eq_false_iff.2 fun hback => hne (eq_of_canWiden ?_ hback).symm
    simpa [hone] using hne

end Discharge.Registry
