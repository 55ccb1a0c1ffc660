import Discharge.Proofs.Linear.Progress

/-!
# The rounds of an elimination

The search for a contradiction counts its rounds, and gives up when they run out. Here its rounds
are taken without that count: `round` is what one of them comes to, and `Rounds` relates some rows
to those that any number of rounds leads to. The atom that is picked in a round stands in a row of
that round and in none of the next, and no round brings in an atom (`atomSet_of_round`). So no atom
is picked twice (`Rounds.nodup`), the rounds come to an end (`exists_rounds`), and they end with
the answer of the search that counts (`Rounds.search_eq`).
-/

namespace Discharge

namespace Feasibility

/-- What a round comes to. -/
inductive Round where
  | ends (answer : Feasibility)
  | goesOn (picked : String) (next : List Row)

/-- One round of the search. -/
def round (maxRows : Nat) (rows : List Row) : Round :=
  if maxRows < rows.length then .ends (.inconclusive (.rows rows.length maxRows))
  else match rows.find? Row.isContradiction with
    | some bad => .ends (.infeasible bad)
    | none =>
      match Row.nextAtom? rows with
      | none => .ends .feasible
      | some x =>
        match Row.eliminate? x rows with
        | none => .ends (.inconclusive .overflow)
        | some next => .goesOn x next

/-- Some rounds, with the atoms that are picked in them, and the rows they lead to. -/
inductive Rounds (maxRows : Nat) : List Row → List String → List Row → Prop
  | none (rows : List Row) : Rounds maxRows rows [] rows
  | more {rows next last : List Row} {x : String} {xs : List String}
      (h : round maxRows rows = .goesOn x next) (hs : Rounds maxRows next xs last) :
      Rounds maxRows rows (x :: xs) last

variable {maxRows : Nat} {rows next last : List Row} {x : String} {xs : List String}

/-! ## One round -/

/-- A round that does not end the search picks an atom and eliminates it. -/
theorem round_eq_goesOn (h : round maxRows rows = .goesOn x next) :
    Row.nextAtom? rows = some x ∧ Row.eliminate? x rows = some next := by
  unfold round at h
  split at h
  · cases h
  split at h
  · cases h
  split at h
  · cases h
  rename_i y hy
  split at h
  · cases h
  · rename_i next' hnext
    cases h
    exact ⟨hy, hnext⟩

/-- A search with a round left plays it. -/
theorem search_succ (n : Nat) (done : Elimination) :
    search maxRows (n + 1) rows done =
      match round maxRows rows with
      | .ends answer => (answer, { done with peakRows := max done.peakRows rows.length })
      | .goesOn x next =>
        search maxRows n next ⟨done.eliminated ++ [x], max done.peakRows rows.length⟩ := by
  rw [search, round]
  dsimp only
  split
  · rfl
  cases rows.find? Row.isContradiction with
  | some bad => rfl
  | none =>
    cases Row.nextAtom? rows with
    | none => rfl
    | some x =>
      dsimp only
      cases Row.eliminate? x rows <;> rfl

theorem wf_of_round (h : round maxRows rows = .goesOn x next) (hwf : ∀ r ∈ rows, r.form.WF) :
    ∀ r ∈ next, r.form.WF :=
  Row.wf_eliminate? (round_eq_goesOn h).2 hwf

/-- **A round uses up the atom it picks**: the atom is there before and not after, and no atom is
new. -/
theorem atomSet_of_round (h : round maxRows rows = .goesOn x next)
    (hwf : ∀ r ∈ rows, r.form.WF) :
    x ∈ Row.atomSet rows ∧ Row.atomSet next ⊆ (Row.atomSet rows).erase x := by
  obtain ⟨hx, hnext⟩ := round_eq_goesOn h
  refine ⟨Row.nextAtom?_mem hx, fun y hy => ?_⟩
  obtain ⟨r, hr, hy⟩ := Row.mem_atomSet.1 hy
  obtain ⟨hne, hold⟩ := Row.mem_atoms_of_eliminate? hnext hwf hr hy
  exact Finset.mem_erase.2 ⟨hne, Row.mem_atomSet.2 hold⟩

/-! ## Any number of rounds -/

namespace Rounds

theorem wf (h : Rounds maxRows rows xs last) (hwf : ∀ r ∈ rows, r.form.WF) :
    ∀ r ∈ last, r.form.WF := by
  induction h with
  | none rows => exact hwf
  | more h _ ih => exact ih (wf_of_round h hwf)

/-- The atoms that are picked are atoms of the first rows and not of the last ones. -/
theorem atomSet (h : Rounds maxRows rows xs last) (hwf : ∀ r ∈ rows, r.form.WF) :
    (∀ x ∈ xs, x ∈ Row.atomSet rows) ∧ Row.atomSet last ⊆ Row.atomSet rows \ xs.toFinset := by
  induction h with
  | none rows => exact ⟨List.forall_mem_nil _, by simp⟩
  | @more rows next last x xs h _ ih =>
    obtain ⟨hx, hsub⟩ := atomSet_of_round h hwf
    obtain ⟨hxs, hlast⟩ := ih (wf_of_round h hwf)
    refine ⟨List.forall_mem_cons.2 ⟨hx, fun y hy => Finset.mem_of_mem_erase (hsub (hxs y hy))⟩,
      fun y hy => ?_⟩
    obtain ⟨hy, hyxs⟩ := Finset.mem_sdiff.1 (hlast hy)
    obtain ⟨hne, hy⟩ := Finset.mem_erase.1 (hsub hy)
    exact Finset.mem_sdiff.2 ⟨hy, by simpa [hne] using hyxs⟩

/-- **No atom is picked twice.** -/
theorem nodup (h : Rounds maxRows rows xs last) (hwf : ∀ r ∈ rows, r.form.WF) : xs.Nodup := by
  induction h with
  | none rows => exact List.nodup_nil
  | more h hs ih =>
    refine List.nodup_cons.2 ⟨fun hx => ?_, ih (wf_of_round h hwf)⟩
    have hnext := (hs.atomSet (wf_of_round h hwf)).1 _ hx
    exact Finset.notMem_erase _ _ ((atomSet_of_round h hwf).2 hnext)

/-- There are no more rounds than atoms. -/
theorem length_le (h : Rounds maxRows rows xs last) (hwf : ∀ r ∈ rows, r.form.WF) :
    xs.length ≤ (Row.atomSet rows).card := by
  rw [← List.toFinset_card_of_nodup (h.nodup hwf)]
  exact Finset.card_le_card fun x hx => (h.atomSet hwf).1 x (List.mem_toFinset.1 hx)

/-- The search that counts its rounds plays these rounds, if the count allows it. -/
theorem search_eq (h : Rounds maxRows rows xs last) {answer : Feasibility}
    (hend : round maxRows last = .ends answer) {n : Nat} (hn : xs.length < n)
    (done : Elimination) :
    (search maxRows n rows done).1 = answer ∧
      (search maxRows n rows done).2.eliminated = done.eliminated ++ xs := by
  induction h generalizing n done with
  | none rows =>
    obtain ⟨m, rfl⟩ : ∃ m, n = m + 1 := ⟨n - 1, by simp at hn; omega⟩
    rw [search_succ, hend]
    exact ⟨rfl, (List.append_nil _).symm⟩
  | @more rows next last x xs h _ ih =>
    obtain ⟨m, rfl⟩ : ∃ m, n = m + 1 := ⟨n - 1, by simp at hn; omega⟩
    rw [search_succ, h]
    obtain ⟨hanswer, heliminated⟩ := ih hend (by simpa using hn)
      ⟨done.eliminated ++ [x], max done.peakRows rows.length⟩
    exact ⟨hanswer, by simpa using heliminated⟩

end Rounds

/-- **The rounds come to an end.** -/
theorem exists_rounds (maxRows : Nat) (hwf : ∀ r ∈ rows, r.form.WF) :
    ∃ xs last answer, Rounds maxRows rows xs last ∧ round maxRows last = .ends answer := by
  induction hk : (Row.atomSet rows).card using Nat.strongRecOn generalizing rows with
  | _ k ih =>
    cases hround : round maxRows rows with
    | ends answer => exact ⟨[], rows, answer, .none rows, hround⟩
    | goesOn x next =>
      obtain ⟨hx, hnext⟩ := round_eq_goesOn hround
      have hfewer := Row.card_atomSet_lt hx hnext hwf
      obtain ⟨xs, last, answer, hrounds, hend⟩ :=
        ih _ (hk ▸ hfewer) (wf_of_round hround hwf) rfl
      exact ⟨x :: xs, last, answer, .more hround hrounds, hend⟩

/-! ## The rounds of a check -/

/-- The atoms of some constraints. -/
def atomsOf (cs : List Constraint) : Finset String := (cs.flatMap (·.form.atoms)).toFinset

theorem mem_atomsOf {cs : List Constraint} : x ∈ atomsOf cs ↔ ∃ c ∈ cs, x ∈ c.form.atoms := by
  simp [atomsOf]

end Feasibility

/-- The negation of a form has no atom that the form has not. -/
theorem LinearForm.mem_atoms_of_neg? {f g : LinearForm} (h : f.neg? = some g) {x : String}
    (hx : x ∈ g.atoms) : x ∈ f.atoms := by
  obtain ⟨k, -, h⟩ := neg?_eq_some h
  rcases scale?_eq_some h with ⟨-, rfl⟩ | ⟨-, -, hcs⟩
  · cases hx
  · obtain ⟨q, hq, rfl⟩ := List.mem_map.1 hx
    obtain ⟨p, hp, hpq, -⟩ := forall₂_mem_right hcs q hq
    exact List.mem_map.2 ⟨p, hp, hpq⟩

namespace Feasibility

theorem mem_atoms_of_rows? {c : Constraint} {rs : List Row} (h : rows? c = some rs) {r : Row}
    (hr : r ∈ rs) {x : String} (hx : x ∈ r.form.atoms) : x ∈ c.form.atoms := by
  obtain ⟨f, relation⟩ := c
  cases relation with
  | ge =>
    obtain rfl := Option.some.inj h
    obtain rfl := List.mem_singleton.1 hr
    exact hx
  | gt =>
    obtain rfl := Option.some.inj h
    obtain rfl := List.mem_singleton.1 hr
    exact hx
  | eq =>
    obtain ⟨g, hg, h⟩ := Option.bind_eq_some_iff.1 h
    obtain rfl := Option.some.inj h
    rcases List.mem_cons.1 hr with rfl | hr
    · exact hx
    · obtain rfl := List.mem_singleton.1 hr
      exact LinearForm.mem_atoms_of_neg? hg hx

/-- The rows that the search starts from, unless a coefficient overflows. -/
def start? (cs : List Constraint) : Option (List Row) :=
  (cs.mapM rows?).map fun rss => Row.sorted rss.flatten

theorem wf_start? {cs : List Constraint} (h : start? cs = some rows)
    (hwf : ∀ c ∈ cs, c.form.WF) : ∀ r ∈ rows, r.form.WF := by
  obtain ⟨rss, hrss, rfl⟩ := Option.map_eq_some_iff.1 h
  exact wf_sorted hrss hwf

/-- The rows that the search starts from have atoms of the constraints only. -/
theorem atomSet_start? {cs : List Constraint} (h : start? cs = some rows) :
    Row.atomSet rows ⊆ atomsOf cs := by
  obtain ⟨rss, hrss, rfl⟩ := Option.map_eq_some_iff.1 h
  intro x hx
  obtain ⟨r, hr, hx⟩ := Row.mem_atomSet.1 hx
  obtain ⟨rs, hrs, hr⟩ := List.mem_flatten.1 (Row.mem_sorted.1 hr)
  obtain ⟨c, hc, hcr⟩ := forall₂_mem_right (mapM_eq_some.1 hrss) rs hrs
  exact mem_atomsOf.2 ⟨c, hc, mem_atoms_of_rows? hcr hr hx⟩

theorem check_of_start?_eq_none {cs : List Constraint} (h : start? cs = none) :
    check cs maxRows = (.inconclusive .overflow, ⟨[], 0⟩) := by
  rw [check, Option.map_eq_none_iff.1 h]

theorem check_of_start? {cs : List Constraint} (h : start? cs = some rows) :
    check cs maxRows = search maxRows ((Row.costs rows).length + 1) rows ⟨[], 0⟩ := by
  obtain ⟨rss, hrss, rfl⟩ := Option.map_eq_some_iff.1 h
  rw [check, hrss]

/-- The rounds from the rows of some constraints end as the check of the constraints does. -/
theorem exists_rounds_check {cs : List Constraint} (maxRows : Nat) (h : start? cs = some rows)
    (hwf : ∀ c ∈ cs, c.form.WF) :
    ∃ last, Rounds maxRows rows (check cs maxRows).2.eliminated last ∧
      round maxRows last = .ends (check cs maxRows).1 := by
  have hrows := wf_start? h hwf
  obtain ⟨xs, last, answer, hrounds, hend⟩ := exists_rounds maxRows hrows
  have hlength := hrounds.length_le hrows
  have hcard := Row.card_atomSet_le rows
  obtain ⟨hanswer, heliminated⟩ := hrounds.search_eq hend
    (show xs.length < (Row.costs rows).length + 1 by omega) ⟨[], 0⟩
  rw [check_of_start? h, hanswer, heliminated]
  exact ⟨last, hrounds, hend⟩

/-- On constraints whose forms store no zero coefficient, the rounds of the elimination, taken
without any count of them, come to an end, and the check gives the answer they end with. In every
round the rows store no zero coefficient, and no atom that has been picked before is left in them.
So no atom is picked twice, only atoms of the constraints are, and there is at most one round for
each atom before the one that ends. -/
theorem check_rounds (cs : List Constraint) (hcs : ∀ c ∈ cs, c.form.WF) (maxRows : Nat) :
    (∀ rows, start? cs = some rows →
      (∃ last, Rounds maxRows rows (check cs maxRows).2.eliminated last ∧
        round maxRows last = .ends (check cs maxRows).1) ∧
      ∀ xs later, Rounds maxRows rows xs later →
        (∀ r ∈ later, ∀ p ∈ r.form.coeffs, p.2.toRat ≠ 0) ∧
          (∀ x ∈ xs, ∀ r ∈ later, x ∉ r.form.atoms) ∧ xs.length ≤ (atomsOf cs).card) ∧
    (start? cs = none → check cs maxRows = (.inconclusive .overflow, ⟨[], 0⟩)) ∧
    (check cs maxRows).2.eliminated.Nodup ∧
    (∀ x ∈ (check cs maxRows).2.eliminated, ∃ c ∈ cs, x ∈ c.form.atoms) ∧
    (check cs maxRows).2.eliminated.length ≤ (atomsOf cs).card := by
  have hlength : ∀ {rows xs later}, start? cs = some rows → Rounds maxRows rows xs later →
      xs.length ≤ (atomsOf cs).card := fun h hrounds =>
    (hrounds.length_le (wf_start? h hcs)).trans (Finset.card_le_card (atomSet_start? h))
  refine ⟨fun rows h => ⟨exists_rounds_check maxRows h hcs, fun xs later hrounds => ?_⟩,
    check_of_start?_eq_none, ?_⟩
  · have hrows := wf_start? h hcs
    refine ⟨fun r hr => (hrounds.wf hrows r hr).nonzero, fun x hx r hr hmem => ?_,
      hlength h hrounds⟩
    have hlater := (hrounds.atomSet hrows).2 (Row.mem_atomSet.2 ⟨r, hr, hmem⟩)
    exact (Finset.mem_sdiff.1 hlater).2 (List.mem_toFinset.2 hx)
  · cases h : start? cs with
    | none =>
      rw [check_of_start?_eq_none h]
      exact ⟨List.nodup_nil, List.forall_mem_nil _, Nat.zero_le _⟩
    | some rows =>
      obtain ⟨last, hrounds, -⟩ := exists_rounds_check maxRows h hcs
      have hrows := wf_start? h hcs
      exact ⟨hrounds.nodup hrows,
        fun x hx => mem_atomsOf.1 (atomSet_start? h ((hrounds.atomSet hrows).1 x hx)),
        hlength h hrounds⟩

/-- `a > b` with `b > c` and `c >= a`: two atoms are eliminated before the contradiction. -/
theorem check_rounds_cycle :
    let minus : Fraction := .ofWord (-1) (by decide)
    let ab : Constraint := ⟨⟨[("a", .one), ("b", minus)], .zero⟩, .gt⟩
    let bc : Constraint := ⟨⟨[("b", .one), ("c", minus)], .zero⟩, .gt⟩
    let ca : Constraint := ⟨⟨[("a", minus), ("c", .one)], .zero⟩, .ge⟩
    ∃ rows last, (∀ c ∈ [ab, bc, ca], c.form.WF) ∧ start? [ab, bc, ca] = some rows ∧
      (check [ab, bc, ca] 8).2.eliminated = ["a", "b"] ∧ Rounds 8 rows ["a", "b"] last ∧
      round 8 last = .ends (.infeasible ⟨.ofConstant .zero, true⟩) ∧
      ∀ r ∈ last, "a" ∉ r.form.atoms := by
  intro minus ab bc ca
  have hab : ab.IsComparison := ⟨.gt, .var "a", .var "b", by rfl⟩
  have hbc : bc.IsComparison := ⟨.gt, .var "b", .var "c", by rfl⟩
  have hca : ca.IsComparison := ⟨.ge, .var "c", .var "a", by rfl⟩
  have hwf : ∀ c ∈ [ab, bc, ca], c.form.WF := List.forall_mem_cons.2
    ⟨hab.wf, List.forall_mem_cons.2 ⟨hbc.wf, List.forall_mem_singleton.2 hca.wf⟩⟩
  have hstart : (start? [ab, bc, ca]).isSome := by cbv
  obtain ⟨rows, hrows⟩ := Option.isSome_iff_exists.1 hstart
  have hcheck : check [ab, bc, ca] 8 =
      (.infeasible ⟨.ofConstant .zero, true⟩, ⟨["a", "b"], 3⟩) := by cbv
  obtain ⟨⟨last, hrounds, hend⟩, hstates⟩ := (check_rounds _ hwf 8).1 rows hrows
  rw [hcheck] at hrounds hend
  exact ⟨rows, last, hwf, hrows, congrArg (·.2.eliminated) hcheck, hrounds, hend,
    (hstates _ _ hrounds).2.1 "a" (List.mem_cons_self ..)⟩

end Feasibility

end Discharge
