import Discharge.Proofs.Fraction.Order
import Discharge.Proofs.Linear.Row

/-!
# Rows are kept as a set

Before each round the search sorts its rows and keeps each of them once. The order of rows is
total and tells different rows apart, so the list that results depends only on which rows there
are (`Row.sorted_congr`). It follows that the whole search, its limits and its trace included,
depends only on which constraints it is given, not on their order or on repetitions
(`Feasibility.check_congr`).
-/

namespace Discharge

/-! ## The order of forms and rows -/

namespace Coefficients

/-- The order of one atom with its coefficient, among others. -/
abbrev termCmp : String × Fraction → String × Fraction → Ordering :=
  compareLex (compareOn (·.1)) (compareOn (·.2))

instance : Std.LawfulEqCmp termCmp where
  compare_self {a} := by simp [termCmp, compareLex, compareOn]
  eq_of_compare {a b} h := by
    simp only [termCmp, compareLex, compareOn, Ordering.then_eq_eq] at h
    exact Prod.ext (Std.LawfulEqOrd.eq_of_compare h.1) (Std.LawfulEqOrd.eq_of_compare h.2)

theorem cmp_eq_compareLex (as bs : Coefficients) : as.cmp bs = List.compareLex termCmp as bs := by
  induction as generalizing bs with
  | nil => cases bs <;> rfl
  | cons a as ih =>
    cases bs with
    | nil => rfl
    | cons b bs =>
      rw [cmp, List.compareLex_cons_cons, ih, ← Ordering.then_assoc]
      rfl

end Coefficients

namespace Row

theorem cmp_eq_compareLex : cmp = compareLex
    (fun r s : Row => List.compareLex Coefficients.termCmp r.form.coeffs s.form.coeffs)
    (compareLex (compareOn (·.form.constant)) (compareOn (·.strict))) := by
  funext r s
  rw [cmp, LinearForm.cmp, Coefficients.cmp_eq_compareLex, Ordering.then_assoc]
  rfl

instance : Std.TransCmp cmp := by
  have : Std.TransCmp fun r s : Row =>
      List.compareLex Coefficients.termCmp r.form.coeffs s.form.coeffs :=
    transCmp_comap fun r : Row => r.form.coeffs
  rw [cmp_eq_compareLex]
  infer_instance

instance : Std.LawfulEqCmp cmp where
  compare_self {r} := by
    rw [cmp_eq_compareLex]
    simp [compareLex, compareOn]
  eq_of_compare {r s} h := by
    rw [cmp_eq_compareLex] at h
    simp only [compareLex, compareOn, Ordering.then_eq_eq] at h
    obtain ⟨hcoeffs, hconstant, hstrict⟩ := h
    obtain ⟨⟨as, c⟩, b⟩ := r
    obtain ⟨⟨bs, d⟩, b'⟩ := s
    obtain rfl := Std.LawfulEqCmp.eq_of_compare hcoeffs
    obtain rfl := Std.LawfulEqOrd.eq_of_compare hconstant
    obtain rfl := Std.LawfulEqOrd.eq_of_compare hstrict
    rfl

/-! ## Sorted rows -/

/-- Rows in order, each once. -/
def Ascending (rs : List Row) : Prop := rs.Pairwise fun r s => r.cmp s = .lt

/-- Neighbours kept once leave a list that is in order strictly so. -/
theorem ascending_dedup {rs : List Row} (h : rs.Pairwise fun r s => (r.cmp s).isLE = true) :
    Ascending (dedup rs) := by
  induction rs with
  | nil => exact .nil
  | cons r rs ih =>
    obtain ⟨hr, hrs⟩ := List.pairwise_cons.1 h
    have htail : Ascending (dedup rs) := ih hrs
    rw [dedup]
    split
    · exact List.pairwise_singleton _ _
    · rename_i s ss hd
      rw [hd] at htail
      split
      · exact htail
      · rename_i hne
        -- The row lies strictly below the next one, and so below all that follow.
        have hmem : ∀ t ∈ s :: ss, t ∈ rs := fun t ht => mem_dedup.1 (hd ▸ ht)
        have hrs : r.cmp s = .lt := by
          have hle := hr s (hmem s List.mem_cons_self)
          cases hc : r.cmp s with
          | lt => rfl
          | eq => exact absurd (Std.LawfulEqCmp.eq_of_compare hc) hne
          | gt => simp [hc] at hle
        refine List.pairwise_cons.2 ⟨fun t ht => ?_, htail⟩
        rcases List.mem_cons.1 ht with rfl | ht
        · exact hrs
        · exact Std.TransCmp.lt_trans hrs ((List.pairwise_cons.1 htail).1 t ht)

theorem ascending_sorted (rs : List Row) : Ascending (sorted rs) := by
  refine ascending_dedup ?_
  have hle : ∀ r s : Row, (r.cmp s != .gt) = (r.cmp s).isLE := fun r s => by
    cases r.cmp s <;> rfl
  simp only [hle]
  refine List.pairwise_mergeSort (fun _ _ _ => Std.TransCmp.isLE_trans) (fun r s => ?_) rs
  have hswap : s.cmp r = (r.cmp s).swap := Std.OrientedCmp.eq_swap
  rw [hswap]
  cases r.cmp s <;> rfl

/-- Rows in order are determined by which rows there are. -/
theorem Ascending.eq_of_mem_iff {rs ss : List Row} (hrs : Ascending rs) (hss : Ascending ss)
    (h : ∀ r, r ∈ rs ↔ r ∈ ss) : rs = ss := by
  have nodup : ∀ {ts : List Row}, Ascending ts → ts.Nodup := fun hts =>
    hts.imp fun {r s} hlt heq => by
      have hself : s.cmp s = .eq := Std.ReflCmp.compare_self
      rw [heq, hself] at hlt
      cases hlt
  refine List.Perm.eq_of_pairwise (fun r s _ _ hlt hgt => ?_) hrs hss
    ((List.perm_ext_iff_of_nodup (nodup hrs) (nodup hss)).2 h)
  have hswap : r.cmp s = (s.cmp r).swap := Std.OrientedCmp.eq_swap
  rw [hswap, hgt] at hlt
  cases hlt

/-- **Sorting forgets order and repetition.** -/
theorem sorted_congr {rs ss : List Row} (h : ∀ r, r ∈ rs ↔ r ∈ ss) : sorted rs = sorted ss := by
  refine (ascending_sorted rs).eq_of_mem_iff (ascending_sorted ss) fun r => ?_
  rw [mem_sorted, mem_sorted, h]

end Row

/-! ## Constraints -/

namespace Feasibility

/-- Which rows some constraints amount to depends on which constraints they are. -/
theorem mem_rows_congr {cs ds : List Constraint} {rss sss : List (List Row)}
    (hcs : cs.mapM rows? = some rss) (hds : ds.mapM rows? = some sss) (h : ∀ c ∈ cs, c ∈ ds)
    {r : Row} (hr : r ∈ rss.flatten) : r ∈ sss.flatten := by
  obtain ⟨rs, hrs, hr⟩ := List.mem_flatten.1 hr
  obtain ⟨c, hc, hcr⟩ := forall₂_mem_right (mapM_eq_some.1 hcs) rs hrs
  obtain ⟨ss, hss, hcs⟩ := forall₂_mem_left (mapM_eq_some.1 hds) c (h c hc)
  rw [hcr] at hcs
  obtain rfl := Option.some.inj hcs
  exact List.mem_flatten.2 ⟨rs, hss, hr⟩

/-- **The answer depends only on which constraints are given**, and so does what the search did to
find it. -/
theorem check_congr {cs ds : List Constraint} (h : ∀ c, c ∈ cs ↔ c ∈ ds) (maxRows : Nat) :
    check cs maxRows = check ds maxRows := by
  have hsome : (cs.mapM rows?).isSome = (ds.mapM rows?).isSome := by
    rw [Bool.eq_iff_iff, isSome_mapM, isSome_mapM]
    simp only [h]
  unfold check
  cases hcs : cs.mapM rows? with
  | none =>
    have hds : ds.mapM rows? = none := by simpa [hcs] using hsome.symm
    rw [hds]
  | some rss =>
    obtain ⟨sss, hds⟩ : ∃ sss, ds.mapM rows? = some sss := by
      simpa [hcs, Option.isSome_iff_exists] using hsome.symm
    have hrows : Row.sorted rss.flatten = Row.sorted sss.flatten :=
      Row.sorted_congr fun r => ⟨mem_rows_congr hcs hds fun c => (h c).1,
        mem_rows_congr hds hcs fun c => (h c).2⟩
    rw [hds]
    dsimp only
    rw [hrows]

end Feasibility

end Discharge
