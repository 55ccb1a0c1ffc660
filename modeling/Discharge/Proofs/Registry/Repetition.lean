import Discharge.Proofs.Registry
import Mathlib

/-!
# Registering again what is registered

A registration replaces the entry under the same key. Where the entry that is stored under a key is
registered once more, rules, edges, classifications and brands stay exactly as they are, since each
is replaced in its place. A family is not: it is dropped and added in the last place, so that
families registered after it are tried first from then on. `Registry.apply_stored` says what this
changes: only the brands for which such a family takes over (`Registry.Displaces`).
-/

namespace Discharge

/-! ## Replacing an entry by itself -/

theorem Table.Sorted.insert_of_find? {α : Type} {t : Table α} (h : t.Sorted) {key : String}
    {value : α} (hfind : t.find? key = some value) : t.insert key value = t := by
  induction t with
  | nil => cases hfind
  | cons q rest ih =>
    obtain ⟨hq, hrest⟩ := List.pairwise_cons.1 h
    rw [Table.find?, List.lookup_cons] at hfind
    rw [Table.insert]
    split
    · rename_i hkey
      rw [hkey, beq_self_eq_true] at hfind
      cases hfind
      rfl
    · rename_i hkey
      rw [beq_false_of_ne hkey] at hfind
      -- The entry stands further on, so that its key is not below the first one.
      have hlt : q.1 < key := hq _ (mem_of_find? hfind)
      rw [if_neg (lt_asymm hlt), ih hrest hfind]

theorem WideningGraph.Sorted.insert_of_mem {g : WideningGraph} (h : g.Sorted) {d : Edge}
    (hd : d ∈ g) : g.insert d = g := by
  induction g with
  | nil => cases hd
  | cons f rest ih =>
    obtain ⟨hf, hrest⟩ := List.pairwise_cons.1 h
    rw [WideningGraph.insert]
    rcases List.mem_cons.1 hd with rfl | hd
    · rw [if_pos ⟨rfl, rfl⟩]
    · have hlt : pair f < pair d := hf d hd
      rw [if_neg fun hsame => hlt.ne' (pair_inj.2 hsame), if_neg (before_iff.not.2 (lt_asymm hlt)),
        ih hrest hd]

namespace Rule

/-- The names after a registration: a new one comes last. -/
theorem names_register (r : Rule) (rules : List Rule) :
    (r.register rules).map (·.name) =
      if rules.any (·.name == r.name) then rules.map (·.name)
      else rules.map (·.name) ++ [r.name] := by
  rw [register]
  split
  · rw [List.map_map]
    refine List.map_congr_left fun s _ => ?_
    dsimp only [Function.comp_apply]
    split
    · rename_i hname
      exact hname.symm
    · rfl
  · rw [List.map_append]
    rfl

theorem nodup_register {rules : List Rule} (h : (rules.map (·.name)).Nodup) (r : Rule) :
    ((r.register rules).map (·.name)).Nodup := by
  rw [names_register]
  split
  · exact h
  · rename_i hnew
    refine List.nodup_append.2 ⟨h, List.nodup_singleton _, ?_⟩
    intro name hname other hother heq
    obtain ⟨s, hs, rfl⟩ := List.mem_map.1 hname
    rw [List.mem_singleton.1 hother] at heq
    exact hnew (List.any_eq_true.2 ⟨s, hs, beq_iff_eq.2 heq⟩)

theorem register_of_find? {rules : List Rule} (h : (rules.map (·.name)).Nodup) {r : Rule}
    (hfind : find? rules r.name = some r) : r.register rules = rules := by
  have hr : r ∈ rules := List.mem_of_find?_eq_some hfind
  have hknown : rules.any (·.name == r.name) = true :=
    List.any_eq_true.2 ⟨r, hr, beq_self_eq_true r.name⟩
  rw [register, if_pos hknown]
  refine (List.map_congr_left fun s hs => ?_).trans (List.map_id rules)
  split
  · rename_i hname
    exact List.inj_on_of_nodup_map h hr hs hname.symm
  · rfl

end Rule

/-! ## Moving a family to the last place -/

namespace Catalog

variable {c : Catalog} {f : Family} {before after : List Family}

theorem names_registerFamily (c : Catalog) (f : Family) :
    (c.registerFamily f).families.map (·.name) =
      (c.families.map (·.name)).filter (· != f.name) ++ [f.name] := by
  rw [registerFamily, List.map_append, List.filter_map]
  rfl

theorem nodup_registerFamily (h : (c.families.map (·.name)).Nodup) (f : Family) :
    ((c.registerFamily f).families.map (·.name)).Nodup := by
  rw [names_registerFamily]
  refine List.nodup_append.2 ⟨h.filter _, List.nodup_singleton _, ?_⟩
  intro name hname other hother heq
  have hne := (List.mem_filter.1 hname).2
  rw [heq, List.mem_singleton.1 hother, bne_self_eq_false] at hne
  cases hne

/-- The families around a stored one bear other names. -/
theorem name_ne_of_split (h : (c.families.map (·.name)).Nodup)
    (hsplit : c.families = before ++ f :: after) : ∀ g ∈ before ++ after, g.name ≠ f.name := by
  intro g hg hname
  rw [hsplit, List.map_append, List.map_cons] at h
  refine (List.nodup_cons.1 (List.nodup_middle.1 h)).1 ?_
  rw [← List.map_append, ← hname]
  exact List.mem_map_of_mem hg

theorem registerFamily_of_split (h : (c.families.map (·.name)).Nodup)
    (hsplit : c.families = before ++ f :: after) :
    c.registerFamily f = { c with families := before ++ (after ++ [f]) } := by
  have hother := name_ne_of_split h hsplit
  have hkeep : ∀ gs : List Family, (∀ g ∈ gs, g ∈ before ++ after) →
      gs.filter (·.name != f.name) = gs := fun gs hgs =>
    List.filter_eq_self.2 fun g hg => bne_iff_ne.2 (hother g (hgs g hg))
  rw [registerFamily, hsplit, List.filter_append, List.filter_cons_of_neg (by simp),
    hkeep before fun g => List.mem_append_left _, hkeep after fun g => List.mem_append_right _,
    List.append_assoc]

/-- The family of a brand stays the same, unless it is the one that is moved and a family after it
covers the brand too. -/
theorem familyOf?_registerFamily (h : (c.families.map (·.name)).Nodup)
    (hsplit : c.families = before ++ f :: after) (brand : String) :
    (c.registerFamily f).familyOf? brand = c.familyOf? brand ↔
      ¬ (c.familyOf? brand = some f ∧ ∃ g ∈ after, g.covers brand = true) := by
  have hne : ∀ g ∈ before ++ after, g ≠ f := fun g hg heq =>
    name_ne_of_split h hsplit g hg (congrArg _ heq)
  rw [registerFamily_of_split h hsplit]
  simp only [familyOf?, hsplit, List.find?_append, List.find?_cons]
  cases hbefore : before.find? (·.covers brand) with
  | some g =>
    -- An earlier family decides, whatever comes after it.
    have hg := hne g (List.mem_append_left _ (List.mem_of_find?_eq_some hbefore))
    simp [hg]
  | none =>
    cases hafter : after.find? (·.covers brand) with
    | none =>
      have hnone := List.find?_eq_none.1 hafter
      cases hf : f.covers brand <;> simp_all
    | some g =>
      have hmem := List.mem_of_find?_eq_some hafter
      have hg := hne g (List.mem_append_right _ hmem)
      have hcovers : ∃ g ∈ after, g.covers brand = true :=
        ⟨g, hmem, List.find?_some (p := (Family.covers · brand)) hafter⟩
      cases hf : f.covers brand <;> simp [hg, hcovers]

/-- Which brands are known does not depend on the order of the families. -/
theorem contains_registerFamily (h : (c.families.map (·.name)).Nodup) (hf : f ∈ c.families) :
    (c.registerFamily f).contains = c.contains := by
  obtain ⟨before, after, hsplit⟩ := List.append_of_mem hf
  funext brand
  rw [registerFamily_of_split h hsplit, Bool.eq_iff_iff]
  simp only [contains, familyOf?, hsplit, Bool.or_eq_true, List.find?_isSome, List.mem_append,
    List.mem_cons, List.not_mem_nil, or_false]
  grind

end Catalog

/-! ## The stored entry is registered again -/

namespace Registry

variable {r : Registry} {c : Change}

/-- Each key of a registry has one entry. -/
structure Keyed (r : Registry) : Prop where
  rules : (r.rules.map (·.name)).Nodup
  widening : r.widening.Sorted
  classifications : r.classifications.Sorted
  brands : r.brands.brands.Sorted
  families : (r.brands.families.map (·.name)).Nodup

theorem sorted_builtin_classifications (token : Nat) :
    (builtin token).classifications.Sorted := by
  unfold builtin
  dsimp only
  generalize builtinClasses = classes, Catalog.builtin = c
  refine List.foldlRecOn classes _ (motive := Table.Sorted) List.Pairwise.nil ?_
  rintro t ht ⟨brand, decidability, strategy⟩ _
  exact ht.insert brand _

theorem keyed_builtin (token : Nat) : (builtin token).Keyed where
  rules := by
    change (Rule.builtin.map (·.name)).Nodup
    decide
  widening := WideningGraph.sorted_ofEdges WideningGraph.builtinEdges
  classifications := sorted_builtin_classifications token
  brands := Catalog.builtin_brands_spec.1
  families := by
    have hbrands : (builtin token).brands = Catalog.builtin := rfl
    rw [hbrands, Catalog.builtin_families]
    exact List.nodup_singleton _

/-- One change keeps one entry under each key. -/
theorem Keyed.apply (h : r.Keyed) (c : Change) : (r.apply c).Keyed where
  rules := by
    cases c with
    | rule rule => exact Rule.nodup_register h.rules rule
    | clearRules => exact List.nodup_nil
    | _ => exact h.rules
  widening := by
    cases c with
    | edge e => exact h.widening.insert e
    | clearEdges => exact List.Pairwise.nil
    | _ => exact h.widening
  classifications := by
    cases c with
    | classification info => exact h.classifications.insert info.brand info
    | clearClassifications => exact List.Pairwise.nil
    | _ => exact h.classifications
  brands := by
    cases c with
    | brand name predicate => exact h.brands.insert name predicate
    | clearBrands => exact List.Pairwise.nil
    | _ => exact h.brands
  families := by
    cases c with
    | family f => exact Catalog.nodup_registerFamily h.families f
    | clearBrands => exact List.nodup_nil
    | _ => exact h.families

theorem Arises.keyed (h : r.Arises) : r.Keyed := by
  induction h with
  | empty token =>
    exact ⟨List.nodup_nil, List.Pairwise.nil, List.Pairwise.nil, List.Pairwise.nil, List.nodup_nil⟩
  | builtin token => exact keyed_builtin token
  | apply _ c ih => exact ih.apply c

/-- The change registers the very entry that is stored under its key. -/
def Stores (r : Registry) : Change → Prop
  | .rule rule => Rule.find? r.rules rule.name = some rule
  | .edge e => r.widening.find? e.source e.target = some e
  | .classification info => r.classifications.find? info.brand = some info
  | .brand name predicate => r.brands.brands.find? name = some predicate
  | .family f => r.brands.families.find? (·.name == f.name) = some f
  | _ => False

/-- The change registers the family of a brand, and a family that was registered after it covers
the brand too. -/
def Displaces (r : Registry) (c : Change) (brand : String) : Prop :=
  ∃ f before after, c = .family f ∧ r.brands.families = before ++ f :: after ∧
    r.brands.familyOf? brand = some f ∧ ∃ g ∈ after, g.covers brand = true

/-- Two registries have the same entries, apart from the order of the families, and brands widen
in them alike. -/
structure SameEntries (r s : Registry) : Prop where
  token : r.token = s.token
  rules : r.rules = s.rules
  widening : r.widening = s.widening
  classifications : r.classifications = s.classifications
  brands : r.brands.brands = s.brands.brands
  families : r.brands.families.Perm s.brands.families
  contains : r.brands.contains = s.brands.contains
  canWiden : r.canWiden = s.canWiden
  path : r.wideningPath? = s.wideningPath?
  widenings : r.wideningsOf = s.wideningsOf

/-- Two registries say the same of a brand. -/
structure SameBrand (r s : Registry) (brand : String) : Prop where
  family : r.brands.familyOf? brand = s.brands.familyOf? brand
  predicate : r.brands.predicate? brand = s.brands.predicate? brand
  classification : r.classificationOf? brand = s.classificationOf? brand

theorem SameEntries.of_eq {g : Nat} (h : r.apply c = { r with generation := g }) :
    (r.apply c).SameEntries r := by
  rw [h]
  exact ⟨rfl, rfl, rfl, rfl, rfl, .refl _, rfl, rfl, rfl, rfl⟩

/-- An entry other than a family is replaced in its place. -/
theorem Keyed.apply_of_stores (h : r.Keyed) (hc : r.Stores c) (hfamily : ∀ f, c ≠ .family f) :
    r.apply c = { r with generation := r.generation + 1 } := by
  cases c with
  | rule rule => rw [Registry.apply, change, Rule.register_of_find? h.rules hc]
  | edge e =>
    rw [Registry.apply, change, h.widening.insert_of_mem (List.mem_of_find?_eq_some hc)]
  | classification info => rw [Registry.apply, change, h.classifications.insert_of_find? hc]
  | brand name predicate =>
    rw [Registry.apply, change, Catalog.register, h.brands.insert_of_find? hc]
  | family f => exact absurd rfl (hfamily f)
  | _ => exact hc.elim

theorem Keyed.sameEntries_family (h : r.Keyed) {f : Family} (hf : f ∈ r.brands.families) :
    (r.apply (.family f)).SameEntries r := by
  have hcontains : (r.apply (.family f)).brands.contains = r.brands.contains :=
    Catalog.contains_registerFamily h.families hf
  have hpath : (r.apply (.family f)).wideningPath? = r.wideningPath? := by
    funext a b
    rw [wideningPath?, hcontains]
    rfl
  refine ⟨rfl, rfl, rfl, rfl, rfl, ?_, hcontains, ?_, hpath, ?_⟩
  · obtain ⟨before, after, hsplit⟩ := List.append_of_mem hf
    change (r.brands.registerFamily f).families.Perm r.brands.families
    rw [Catalog.registerFamily_of_split h.families hsplit, hsplit]
    exact (List.perm_append_singleton f after).append_left before
  · funext a b
    rw [canWiden, hpath, canWiden]
  · funext b
    rw [wideningsOf, hcontains]
    rfl

/-- What a registry says of a brand depends on the families only through the family of the brand. -/
theorem SameEntries.sameBrand_iff {s : Registry} (h : r.SameEntries s) (brand : String) :
    r.SameBrand s brand ↔ r.brands.familyOf? brand = s.brands.familyOf? brand := by
  refine ⟨SameBrand.family, fun hfamily => ⟨hfamily, ?_, ?_⟩⟩
  · rw [Catalog.predicate?, Catalog.predicate?, h.brands, hfamily]
  · rw [classificationOf?, classificationOf?, h.classifications, hfamily]

theorem Keyed.displaces_family_iff (h : r.Keyed) {f : Family} (hf : f ∈ r.brands.families)
    (brand : String) :
    (r.apply (.family f)).brands.familyOf? brand = r.brands.familyOf? brand ↔
      ¬ r.Displaces (.family f) brand := by
  constructor
  · rintro hsame ⟨f, before, after, hc, hsplit, hdisplaced⟩
    cases hc
    exact (Catalog.familyOf?_registerFamily h.families hsplit brand).1 hsame hdisplaced
  · intro hkeep
    obtain ⟨before, after, hsplit⟩ := List.append_of_mem hf
    exact (Catalog.familyOf?_registerFamily h.families hsplit brand).2 fun hdisplaced =>
      hkeep ⟨f, before, after, rfl, hsplit, hdisplaced⟩

/-- **Registering a stored entry again.** In every registry that can arise, it raises the generation
and keeps all entries, the order of the rules and what widens to what. Nothing else changes either,
if the entry is no family. If it is one, what the registry says of a brand stays the same unless
the family is that of the brand and a family after it covers the brand too. -/
theorem apply_stored (hr : r.Arises) (hc : r.Stores c) :
    (r.apply c).generation = r.generation + 1 ∧ (r.apply c).SameEntries r ∧
    ((∀ f, c ≠ .family f) → r.apply c = { r with generation := r.generation + 1 }) ∧
    ∀ brand, (r.apply c).SameBrand r brand ↔ ¬ r.Displaces c brand := by
  have hkeyed := hr.keyed
  by_cases hfamily : ∀ f, c ≠ .family f
  · have happly := hkeyed.apply_of_stores hc hfamily
    have hsame := SameEntries.of_eq happly
    refine ⟨rfl, hsame, fun _ => happly, fun brand => (hsame.sameBrand_iff brand).trans ?_⟩
    rw [happly]
    exact iff_of_true rfl fun ⟨f, _, _, heq, _⟩ => hfamily f heq
  · obtain ⟨f, rfl⟩ := not_forall_not.1 hfamily
    have hf : f ∈ r.brands.families := List.mem_of_find?_eq_some hc
    have hsame := hkeyed.sameEntries_family hf
    exact ⟨rfl, hsame, fun h => absurd h hfamily, fun brand =>
      (hsame.sameBrand_iff brand).trans (hkeyed.displaces_family_iff hf brand)⟩

/-- The family in the last place may be registered again, whatever others cover. -/
theorem apply_stored_last :
    let small : Family := ⟨"Small", Pattern.empty, "$ < 10", .decidable⟩
    let large : Family := ⟨"Large", Pattern.empty, "$ > 10", .runtime⟩
    let r := ((empty 0).apply (.family small)).apply (.family large)
    r.Arises ∧ r.Stores (.family large) ∧ (r.apply (.family large)).generation = 3 ∧
      (r.apply (.family large)).SameEntries r ∧
      ∀ brand, (r.apply (.family large)).SameBrand r brand := by
  intro small large r
  have hr : r.Arises := ((Arises.empty 0).apply _).apply _
  have hc : r.Stores (.family large) := by rfl
  obtain ⟨hgeneration, hentries, _, hbrand⟩ := apply_stored hr hc
  refine ⟨hr, hc, hgeneration, hentries, fun brand => (hbrand brand).2 ?_⟩
  rintro ⟨f, before, after, hf, hsplit, _, g, hg, _⟩
  cases hf
  have hfamilies : [small, large] = before ++ large :: after := hsplit
  have hlength := congrArg List.length hfamilies
  have hafter := List.length_pos_of_mem hg
  simp only [List.length_append, List.length_cons, List.length_nil] at hlength
  obtain rfl : before = [] := List.eq_nil_of_length_eq_zero (by omega)
  have hname : "Small" = "Large" := congrArg Family.name (List.cons.inj hfamilies).1
  exact absurd hname (by decide)

/-- A brand of two families goes over to the second one when the first is registered again: its
predicate and its decidability change. -/
theorem apply_stored_overlapping :
    let numbered : Pattern :=
      [.start, .one (.char 'N'), .repeated .atLeastOne true (.one .digit)].foldr .seq .finish
    let small : Family := ⟨"Small", numbered, "$ < 10", .decidable⟩
    let large : Family := ⟨"Large", numbered, "$ > 10", .runtime⟩
    let ten : Fraction := .ofWord 10 (by decide)
    let before := ((empty 0).apply (.family small)).apply (.family large)
    let after := before.apply (.family small)
    before.Stores (.family small) ∧
    before.brands.familyOf? "N1" = some small ∧
    before.brands.predicate? "N1" = some (.compare .lt (.var "$") (.num ten)) ∧
    (before.classificationOf? "N1").map (·.decidability) = some .decidable ∧
    after.brands.familyOf? "N1" = some large ∧
    after.brands.predicate? "N1" = some (.compare .gt (.var "$") (.num ten)) ∧
    (after.classificationOf? "N1").map (·.decidability) = some .runtime := by
  refine ⟨by rfl, by cbv, by cbv, by cbv, by cbv, by cbv, by cbv⟩

end Registry

end Discharge
