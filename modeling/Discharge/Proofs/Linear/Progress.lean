import Discharge.Proofs.Linear.Feasibility

/-!
# Elimination uses up its atoms

A row of well-formed rows has an atom exactly when the atom's coefficient is not zero. The
combination of two rows gives the eliminated atom the coefficient zero, and every other atom of a
new row stood in an old one (`Row.mem_atoms_of_eliminate?`). So each round leaves fewer atoms, and
the search never runs out of rounds: an inconclusive answer is due to the number of rows or to
overflow (`Feasibility.check_inconclusive`).
-/

namespace Discharge

theorem Coefficients.get_of_mem {cs : Coefficients} (hcs : cs.WF) {p : String × Fraction}
    (hp : p ∈ cs) : cs.get p.1 = p.2 := by
  induction cs with
  | nil => cases hp
  | cons q cs ih =>
    rw [get_cons]
    rcases List.mem_cons.1 hp with rfl | hp
    · rw [if_pos rfl]
    · have hlt : q.1 < p.1 := (List.pairwise_cons.1 hcs.sorted).1 p hp
      rw [if_neg hlt.ne']
      exact ih hcs.tail hp

namespace LinearForm

/-- The coefficient of an atom is what the value gains when the atom goes from zero to one. -/
theorem toRat_coeff {f : LinearForm} (hf : f.WF) (x : String) :
    (f.coeff x).toRat = f.value (Function.update 0 x 1) - f.value 0 := by
  rw [value_update hf]
  simp

theorem mem_atoms_iff {f : LinearForm} (hf : f.WF) {x : String} :
    x ∈ f.atoms ↔ (f.coeff x).toRat ≠ 0 := by
  constructor
  · intro hx
    obtain ⟨p, hp, rfl⟩ := List.mem_map.1 hx
    rw [coeff, Coefficients.get_of_mem hf hp]
    exact hf.nonzero p hp
  · intro hne
    by_contra hx
    refine hne ?_
    rw [coeff, Coefficients.get_of_notMem fun p hp he => hx (List.mem_map.2 ⟨p, hp, he⟩)]
    exact Fraction.toRat_zero

end LinearForm

namespace Row

/-- The form of a normalized row is a multiple of the form it was made from. -/
theorem value_normalize? {r s : Row} (h : r.normalize? = some s) :
    ∃ k : ℚ, ∀ σ, s.form.value σ = k * r.form.value σ := by
  unfold normalize? at h
  obtain ⟨m, _, h⟩ := Option.bind_eq_some_iff.1 h
  split at h
  · obtain rfl := Option.some.inj h
    exact ⟨1, fun σ => (one_mul _).symm⟩
  · obtain ⟨i, _, h⟩ := Option.bind_eq_some_iff.1 h
    obtain ⟨f, hf, h⟩ := Option.bind_eq_some_iff.1 h
    obtain rfl := Option.some.inj h
    exact ⟨i.toRat, fun σ => LinearForm.value_scale? σ hf⟩

/-- The coefficients of a combination, up to a common factor. -/
theorem coeff_combine? {x : String} {p n r : Row} (h : combine? x p n = some r) (hp : p.form.WF)
    (hn : n.form.WF) : ∃ k : ℚ, ∀ y, (r.form.coeff y).toRat =
      k * ((p.form.coeff x).toRat * (n.form.coeff y).toRat -
        (n.form.coeff x).toRat * (p.form.coeff y).toRat) := by
  have hr : r.form.WF := (combine?_spec h).1 hp hn
  unfold combine? at h
  obtain ⟨b, hb, h⟩ := Option.bind_eq_some_iff.1 h
  obtain ⟨left, hl, h⟩ := Option.bind_eq_some_iff.1 h
  obtain ⟨right, hright, h⟩ := Option.bind_eq_some_iff.1 h
  obtain ⟨sum, hs, h⟩ := Option.bind_eq_some_iff.1 h
  obtain ⟨k, hk⟩ := value_normalize? h
  refine ⟨k, fun y => ?_⟩
  -- A coefficient is a difference of two values, so it is enough to know the values.
  have hvalue : ∀ σ, r.form.value σ = k * (-(n.form.coeff x).toRat * p.form.value σ +
      (p.form.coeff x).toRat * n.form.value σ) := by
    intro σ
    rw [hk, LinearForm.value_add? σ hs, LinearForm.value_scale? σ hl,
      LinearForm.value_scale? σ hright, Fraction.toRat_neg? hb]
  rw [LinearForm.toRat_coeff hr y, hvalue, hvalue, LinearForm.toRat_coeff hp y,
    LinearForm.toRat_coeff hn y]
  ring

/-- **An eliminated atom is gone**, and no atom is new. -/
theorem mem_atoms_of_eliminate? {x : String} {rs next : List Row}
    (h : eliminate? x rs = some next) (hwf : ∀ r ∈ rs, r.form.WF) {r : Row} (hr : r ∈ next)
    {y : String} (hy : y ∈ r.form.atoms) : y ≠ x ∧ ∃ s ∈ rs, y ∈ s.form.atoms := by
  have hrwf : r.form.WF := wf_eliminate? h hwf r hr
  have hry := (LinearForm.mem_atoms_iff hrwf).1 hy
  rcases ((mem_eliminate? h r).1 hr).2 with ⟨hrs, hzero⟩ | ⟨p, hp, _, n, hn, _, hc⟩
  · refine ⟨?_, r, hrs, hy⟩
    rintro rfl
    exact hry hzero
  · obtain ⟨k, hk⟩ := coeff_combine? hc (hwf p hp) (hwf n hn)
    rw [hk] at hry
    refine ⟨?_, ?_⟩
    · rintro rfl
      exact hry (by ring)
    · -- An atom of neither row would have coefficient zero in the combination.
      by_contra hnone
      push Not at hnone
      have hzero : ∀ s ∈ rs, (s.form.coeff y).toRat = 0 := fun s hs => by
        by_contra hs0
        exact hnone s hs ((LinearForm.mem_atoms_iff (hwf s hs)).2 hs0)
      exact hry (by rw [hzero p hp, hzero n hn]; ring)

/-- The atoms of some rows. -/
def atomSet (rs : List Row) : Finset String := (rs.flatMap (·.form.atoms)).toFinset

theorem mem_atomSet {rs : List Row} {x : String} :
    x ∈ atomSet rs ↔ ∃ r ∈ rs, x ∈ r.form.atoms := by
  simp [atomSet]

/-- The atoms that have a cost are those of the rows. -/
theorem mem_costs_iff {rs : List Row} {x : String} :
    x ∈ (costs rs).map (·.1) ↔ x ∈ atomSet rs := by
  have hflat : ∀ p, (∃ cs ∈ occurrences rs, p ∈ cs) ↔ ∃ r ∈ rs, p ∈ r.form.coeffs := by
    intro p
    rw [← List.mem_flatten, occurrences, List.flatten_splitBy, List.mem_mergeSort,
      List.mem_flatMap]
  rw [mem_atomSet]
  constructor
  · intro hx
    obtain ⟨⟨_, n⟩, hn, rfl⟩ := List.mem_map.1 hx
    obtain ⟨cs, hcs, hhead⟩ := List.mem_filterMap.1 hn
    obtain ⟨p, hp, ⟨⟩⟩ := Option.map_eq_some_iff.1 hhead
    obtain ⟨r, hr, hpr⟩ := (hflat p).1 ⟨cs, hcs, List.mem_of_head? hp⟩
    exact ⟨r, hr, List.mem_map_of_mem hpr⟩
  · rintro ⟨r, hr, hx⟩
    obtain ⟨p, hp, rfl⟩ := List.mem_map.1 hx
    obtain ⟨cs, hcs, hpcs⟩ := (hflat p).2 ⟨r, hr, hp⟩
    -- The coefficients that stand together are all of one atom, so its first one names it.
    have hsame : cs.IsChain fun a b => a.1 = b.1 := by
      simpa using List.isChain_of_mem_splitBy hcs
    cases cs with
    | nil => cases hpcs
    | cons q cs =>
      have hq : q.1 = p.1 := by
        rcases List.mem_cons.1 hpcs with rfl | hpcs
        · rfl
        · have : (q :: cs).Pairwise fun a b => a.1 = b.1 :=
            (List.isChain_iff_pairwise (R := fun a b : String × Fraction => a.1 = b.1)).1 hsame
          exact (List.pairwise_cons.1 this).1 p hpcs
      refine List.mem_map.2 ⟨(q.1, pairs (q :: cs)), ?_, hq⟩
      exact List.mem_filterMap.2 ⟨q :: cs, hcs, rfl⟩

theorem card_atomSet_le (rs : List Row) : (atomSet rs).card ≤ (costs rs).length := by
  have hsub : atomSet rs ⊆ ((costs rs).map (·.1)).toFinset := fun x hx =>
    List.mem_toFinset.2 (mem_costs_iff.2 hx)
  calc (atomSet rs).card ≤ ((costs rs).map (·.1)).toFinset.card := Finset.card_le_card hsub
    _ ≤ ((costs rs).map (·.1)).length := List.toFinset_card_le _
    _ = (costs rs).length := List.length_map _

theorem cheapest?_mem {xs : List (String × Nat)} {x : String × Nat} (h : cheapest? xs = some x) :
    x ∈ xs := by
  induction xs generalizing x with
  | nil => cases h
  | cons y ys ih =>
    rw [cheapest?] at h
    split at h
    · rename_i z hz
      split at h
      · obtain rfl := Option.some.inj h
        exact List.mem_cons_of_mem _ (ih hz)
      · obtain rfl := Option.some.inj h
        exact List.mem_cons_self
    · obtain rfl := Option.some.inj h
      exact List.mem_cons_self

theorem nextAtom?_mem {rs : List Row} {x : String} (h : nextAtom? rs = some x) :
    x ∈ atomSet rs := by
  obtain ⟨p, hp, rfl⟩ := Option.map_eq_some_iff.1 h
  exact mem_costs_iff.1 (List.mem_map_of_mem (cheapest?_mem hp))

/-- **Each round leaves fewer atoms.** -/
theorem card_atomSet_lt {x : String} {rs next : List Row} (hx : nextAtom? rs = some x)
    (h : eliminate? x rs = some next) (hwf : ∀ r ∈ rs, r.form.WF) :
    (atomSet next).card < (atomSet rs).card := by
  refine Finset.card_lt_card (Finset.ssubset_iff_of_subset ?_ |>.2 ⟨x, nextAtom?_mem hx, ?_⟩)
  · intro y hy
    obtain ⟨r, hr, hy⟩ := mem_atomSet.1 hy
    exact mem_atomSet.2 (mem_atoms_of_eliminate? h hwf hr hy).2
  · intro hmem
    obtain ⟨r, hr, hy⟩ := mem_atomSet.1 hmem
    exact (mem_atoms_of_eliminate? h hwf hr hy).1 rfl

end Row

namespace Feasibility

/-- What an inconclusive search can have met: too many rows, or an overflow. -/
def ByLimit (maxRows : Nat) (limit : Limit) : Prop :=
  (∃ n, maxRows < n ∧ limit = .rows n maxRows) ∨ limit = .overflow

/-- A search with more rounds than atoms ends for another reason than the rounds. -/
theorem search_inconclusive {maxRows rounds : Nat} {rows : List Row} {done : Elimination}
    {limit : Limit} (hwf : ∀ r ∈ rows, r.form.WF) (hrounds : (Row.atomSet rows).card < rounds)
    (h : (search maxRows rounds rows done).1 = .inconclusive limit) : ByLimit maxRows limit := by
  induction rounds generalizing rows done with
  | zero => omega
  | succ rounds ih =>
    rw [search] at h
    dsimp only at h
    split at h
    · rename_i hrows
      cases h
      exact .inl ⟨_, hrows, rfl⟩
    split at h
    · cases h
    split at h
    · cases h
    rename_i x hx
    split at h
    · cases h
      exact .inr rfl
    · rename_i next hnext
      have hfewer := Row.card_atomSet_lt hx hnext hwf
      exact ih (Row.wf_eliminate? hnext hwf) (by omega) h

/-- **The rounds are enough**: an inconclusive answer on well-formed constraints is due to the limit
on the rows or to overflow. -/
theorem check_inconclusive {cs : List Constraint} (hwf : ∀ c ∈ cs, c.form.WF) {maxRows : Nat}
    {limit : Limit} (h : (check cs maxRows).1 = .inconclusive limit) : ByLimit maxRows limit := by
  unfold check at h
  split at h
  · cases h
    exact .inr rfl
  · rename_i rss hrss
    have hcard := Row.card_atomSet_le (Row.sorted rss.flatten)
    exact search_inconclusive (wf_sorted hrss hwf) (by omega) h

end Feasibility

end Discharge
