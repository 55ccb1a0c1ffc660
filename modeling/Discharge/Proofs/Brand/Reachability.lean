import Discharge.Proofs.Brand.Widening
import Mathlib

/-!
# The widening search is reachability

Edges are kept sorted by the brands they join, so that of several registrations for a pair of brands
the last one is stored (`WideningGraph.mem_ofEdges_iff`). The search visits brands in the order of
their distance. Its invariant is that nothing found so far lies more than one edge beyond what is
queued (`WideningGraph.InOrder`); so a brand that was seen before is never met on a shorter path, and
every edge from a brand that is found leads to one that is found at most one edge further away
(`WideningGraph.explore_relaxed`). By induction along any path this gives completeness and shortest
paths at once.
-/

namespace Discharge.WideningGraph

variable {g : WideningGraph} {live : String → Bool} {a b : String}

/-! ## Stored edges -/

/-- The brands that an edge joins, in the order in which edges are stored. -/
def pair (e : Edge) : String ×ₗ String := toLex (e.source, e.target)

theorem pair_inj {e f : Edge} : pair e = pair f ↔ e.source = f.source ∧ e.target = f.target := by
  simp [pair]

theorem before_iff {e f : Edge} : before e f = true ↔ pair e < pair f := by
  rw [pair, pair, Prod.Lex.toLex_lt_toLex]
  simp [before]

/-- Edges in the strict order of the brands they join. -/
def Sorted (g : WideningGraph) : Prop := g.Pairwise fun e f => pair e < pair f

theorem Sorted.mem_insert_iff (h : g.Sorted) {d e : Edge} :
    e ∈ g.insert d ↔ e = d ∨ e ∈ g ∧ pair e ≠ pair d := by
  induction g with
  | nil => simp [insert]
  | cons f rest ih =>
    obtain ⟨hf, hrest⟩ := List.pairwise_cons.1 h
    rw [insert]
    split
    · -- The new edge takes the place of `f`, and no other edge joins these brands.
      rename_i hsame
      have hpair : pair d = pair f := pair_inj.2 hsame
      have hother : ∀ e ∈ rest, pair e ≠ pair d := fun e he => hpair ▸ (hf e he).ne'
      simp only [List.mem_cons]
      grind
    split
    · rename_i hbefore
      have hlt : pair d < pair f := before_iff.1 hbefore
      have hother : ∀ e ∈ f :: rest, pair e ≠ pair d := by
        intro e he
        rcases List.mem_cons.1 he with rfl | he
        · exact hlt.ne'
        · exact (hlt.trans (hf e he)).ne'
      simp only [List.mem_cons] at hother ⊢
      grind
    · rename_i hsame _
      have hne : pair f ≠ pair d := fun heq => hsame (pair_inj.1 heq.symm)
      rw [List.mem_cons, ih hrest, List.mem_cons]
      grind

theorem Sorted.insert (h : g.Sorted) (d : Edge) : (g.insert d).Sorted := by
  induction g with
  | nil => exact List.pairwise_singleton _ _
  | cons f rest ih =>
    obtain ⟨hf, hrest⟩ := List.pairwise_cons.1 h
    rw [WideningGraph.insert]
    split
    · rename_i hsame
      have hpair : pair d = pair f := pair_inj.2 hsame
      exact List.pairwise_cons.2 ⟨fun e he => hpair ▸ hf e he, hrest⟩
    split
    · rename_i hbefore
      have hlt : pair d < pair f := before_iff.1 hbefore
      refine List.pairwise_cons.2 ⟨fun e he => ?_, h⟩
      rcases List.mem_cons.1 he with rfl | he
      · exact hlt
      · exact hlt.trans (hf e he)
    · rename_i hsame hbefore
      refine List.pairwise_cons.2 ⟨fun e he => ?_, ih hrest⟩
      rcases (Sorted.mem_insert_iff hrest).1 he with rfl | ⟨he, _⟩
      · have hle : pair f ≤ pair e := not_lt.1 (before_iff.not.1 hbefore)
        exact lt_of_le_of_ne hle fun heq => hsame (pair_inj.1 heq.symm)
      · exact hf e he

/-- The graph after edges have been registered one after the other. -/
def ofEdges (edges : List Edge) : WideningGraph := edges.foldl (fun g e => g.insert e) []

theorem ofEdges_append_singleton (edges : List Edge) (d : Edge) :
    ofEdges (edges ++ [d]) = (ofEdges edges).insert d := by
  simp [ofEdges]

theorem sorted_ofEdges (edges : List Edge) : (ofEdges edges).Sorted := by
  induction edges using List.reverseRecOn with
  | nil => exact List.Pairwise.nil
  | append_singleton edges d ih =>
    rw [ofEdges_append_singleton]
    exact ih.insert d

/-- **The last registration counts**: an edge is stored if it is the last one that was registered
for its two brands. -/
theorem mem_ofEdges_iff {edges : List Edge} {e : Edge} :
    e ∈ ofEdges edges ↔ edges.reverse.find? (fun d => pair d = pair e) = some e := by
  induction edges using List.reverseRecOn with
  | nil => simp [ofEdges]
  | append_singleton edges d ih =>
    rw [ofEdges_append_singleton, (sorted_ofEdges edges).mem_insert_iff, ih, List.reverse_concat,
      List.find?_cons]
    by_cases hpair : pair d = pair e
    · simp [hpair, eq_comm]
    · have hne : e ≠ d := fun heq => hpair (by rw [heq])
      simp [hpair, hne, Ne.symm hpair]

/-- Two live brands that some edge joins. -/
def Joined (edges : List Edge) (live : String → Bool) (x y : String) : Prop :=
  live x = true ∧ live y = true ∧ ∃ e ∈ edges, e.source = x ∧ e.target = y

/-- Storing edges keeps which brands are joined. -/
theorem joined_ofEdges (edges : List Edge) : Joined (ofEdges edges) live = Joined edges live := by
  funext x y
  refine propext (and_congr_right fun _ => and_congr_right fun _ => ?_)
  constructor
  · rintro ⟨e, he, hsource, htarget⟩
    have hmem := List.mem_of_find?_eq_some (mem_ofEdges_iff.1 he)
    exact ⟨e, List.mem_reverse.1 hmem, hsource, htarget⟩
  · rintro ⟨e, he, rfl, rfl⟩
    have hsome : (edges.reverse.find? fun d => pair d = pair e).isSome = true :=
      List.find?_isSome.2 ⟨e, List.mem_reverse.2 he, by simp⟩
    obtain ⟨d, hd⟩ := Option.isSome_iff_exists.1 hsome
    have hpair : pair d = pair e := by simpa using List.find?_some hd
    refine ⟨d, mem_ofEdges_iff.2 ?_, pair_inj.1 hpair⟩
    rw [hpair]
    exact hd

/-! ## Paths through live brands -/

/-- From a live brand, paths lead where joined brands do. -/
theorem exists_path_iff (ha : live a = true) :
    (∃ path, g.Path live a path b) ↔ Relation.ReflTransGen (Joined g live) a b := by
  constructor
  · rintro ⟨path, h⟩
    induction h with
    | nil => exact .refl
    | snoc init mem alive ih => exact ih.tail ⟨init.live_target ha, alive, _, mem, rfl, rfl⟩
  · intro h
    induction h with
    | refl => exact ⟨[], .nil⟩
    | tail _ hjoined ih =>
      obtain ⟨path, hpath⟩ := ih
      obtain ⟨_, alive, e, mem, rfl, rfl⟩ := hjoined
      exact ⟨path ++ [e], .snoc hpath mem alive⟩

/-! ## One visit -/

theorem mem_fresh {seen : List String} {e : Edge} :
    e ∈ g.fresh live seen b ↔
      e ∈ g ∧ e.source = b ∧ live e.target = true ∧ e.target ∉ seen := by
  simp [fresh, and_assoc]

/-- The edges that lead to brands which have not been seen. -/
def unseen (g : WideningGraph) (seen : List String) : Nat :=
  List.countP (fun e => decide (e.target ∉ seen)) g

theorem countP_add_countP_le {α : Type} {p q r : α → Bool} {l : List α}
    (hp : ∀ x, p x = true → r x = true ∧ q x = false) (hq : ∀ x, q x = true → r x = true) :
    l.countP p + l.countP q ≤ l.countP r := by
  induction l with
  | nil => simp
  | cons x l ih =>
    have hx := hp x
    have hx' := hq x
    simp only [List.countP_cons]
    grind

/-- A visit sees the targets of all edges that it follows, so that each edge is followed once. -/
theorem fresh_length_add_unseen (seen : List String) :
    (g.fresh live seen b).length + g.unseen (seen ++ (g.fresh live seen b).map (·.target)) ≤
      g.unseen seen := by
  have hfresh : (g.fresh live seen b).length =
      List.countP (fun e => decide (e ∈ g.fresh live seen b)) g := by
    rw [List.countP_eq_length_filter, fresh]
    congr 1
    refine List.filter_congr fun e he => ?_
    rw [Bool.eq_iff_iff, decide_eq_true_iff, List.mem_filter, and_iff_right he]
  rw [hfresh]
  refine countP_add_countP_le (fun e he => ?_) fun e he => ?_
  · have he := of_decide_eq_true he
    have hseen : e.target ∈ (g.fresh live seen b).map (·.target) := List.mem_map.2 ⟨e, he, rfl⟩
    simp [(mem_fresh.1 he).2.2.2, hseen]
  · simp only [decide_eq_true_eq, List.mem_append, not_or] at he ⊢
    exact he.1

/-! ## Brands are listed once -/

theorem not_mem_seen {n : Nat} {queue : List (String × List Edge)} {seen : List String} :
    ∀ p ∈ g.explore live n queue seen, p.1 ∉ seen := by
  induction n generalizing queue seen with
  | zero => simp [explore]
  | succ n ih =>
    cases queue with
    | nil => simp [explore]
    | cons q queue =>
      intro p hp
      rw [explore] at hp
      rcases List.mem_append.1 hp with hp | hp
      · obtain ⟨e, he, rfl⟩ := List.mem_map.1 hp
        exact (mem_fresh.1 he).2.2.2
      · exact fun hseen => ih p hp (List.mem_append_left _ hseen)

theorem Sorted.nodup_fresh (h : g.Sorted) (seen : List String) :
    ((g.fresh live seen b).map (·.target)).Nodup := by
  have hsorted : (g.fresh live seen b).Pairwise fun e f => pair e < pair f := List.Pairwise.filter _ h
  rw [List.Nodup, List.pairwise_map]
  refine hsorted.imp_of_mem fun {e f} he hf hlt heq => hlt.ne (pair_inj.2 ⟨?_, heq⟩)
  rw [(mem_fresh.1 he).2.1, (mem_fresh.1 hf).2.1]

theorem Sorted.nodup_explore (h : g.Sorted) {n : Nat} {queue : List (String × List Edge)}
    {seen : List String} : ((g.explore live n queue seen).map (·.1)).Nodup := by
  induction n generalizing queue seen with
  | zero => simp [explore]
  | succ n ih =>
    cases queue with
    | nil => simp [explore]
    | cons q queue =>
      rw [explore, List.map_append, List.nodup_append]
      refine ⟨?_, ih, fun x hx y hy heq => ?_⟩
      · rw [List.map_map]
        exact h.nodup_fresh seen
      · obtain ⟨p, hp, rfl⟩ := List.mem_map.1 hy
        exact not_mem_seen p hp (List.mem_append_right _ (heq ▸ hx))

/-! ## Shortest paths -/

/-- The queue is in the order of the distances, and nothing that has been found lies more than one
edge beyond what is queued. -/
structure InOrder (queue found : List (String × List Edge)) : Prop where
  queued : queue ⊆ found
  ordered : queue.Pairwise fun p q => p.2.length ≤ q.2.length
  within : ∀ p ∈ found, ∀ q ∈ queue, p.2.length ≤ q.2.length + 1

theorem InOrder.visit {q : String × List Edge} {queue found new : List (String × List Edge)}
    (h : InOrder (q :: queue) found) (hnew : ∀ p ∈ new, p.2.length = q.2.length + 1) :
    InOrder (queue ++ new) (found ++ new) := by
  obtain ⟨hq, hqueue⟩ := List.pairwise_cons.1 h.ordered
  have hfound : ∀ p ∈ found, p.2.length ≤ q.2.length + 1 := fun p hp =>
    h.within p hp q List.mem_cons_self
  have hqueued : ∀ p ∈ queue, p ∈ found := fun p hp => h.queued (List.mem_cons_of_mem _ hp)
  refine ⟨?_, ?_, ?_⟩
  · intro p hp
    rcases List.mem_append.1 hp with hp | hp
    · exact List.mem_append_left _ (hqueued p hp)
    · exact List.mem_append_right _ hp
  · refine List.pairwise_append.2 ⟨hqueue, List.pairwise_of_forall_mem_list ?_, ?_⟩
    · intro p hp r hr
      rw [hnew p hp, hnew r hr]
    · intro p hp r hr
      rw [hnew r hr]
      exact hfound p (hqueued p hp)
  · intro p hp r hr
    -- Whatever has been found is as far as the new brands at most, and whatever is queued as far as
    -- the visited one at least.
    have hp : p.2.length ≤ q.2.length + 1 := by
      rcases List.mem_append.1 hp with hp | hp
      · exact hfound p hp
      · exact (hnew p hp).le
    have hr : q.2.length ≤ r.2.length := by
      rcases List.mem_append.1 hr with hr | hr
      · exact hq r hr
      · rw [hnew r hr]
        omega
    omega

/-- **Every edge is followed**: from what is queued or found, an edge to a live brand leads to what
has been or will be found, at most one edge further away. -/
theorem explore_relaxed {n : Nat} {queue found : List (String × List Edge)}
    (horder : InOrder queue found) (hn : queue.length + g.unseen (found.map (·.1)) ≤ n)
    {p : String × List Edge} (hp : p ∈ queue ++ g.explore live n queue (found.map (·.1)))
    {e : Edge} (he : e ∈ g) (hsource : e.source = p.1) (alive : live e.target = true) :
    ∃ q ∈ found ++ g.explore live n queue (found.map (·.1)),
      q.1 = e.target ∧ q.2.length ≤ p.2.length + 1 := by
  induction n generalizing queue found with
  | zero =>
    obtain rfl : queue = [] := List.length_eq_zero_iff.1 (by omega)
    simp [explore] at hp
  | succ n ih =>
    cases queue with
    | nil => simp [explore] at hp
    | cons r queue =>
      let new := (g.fresh live (found.map (·.1)) r.1).map fun e => (e.target, r.2 ++ [e])
      have hnew : ∀ p ∈ new, p.2.length = r.2.length + 1 := by
        simp only [new, List.forall_mem_map, List.length_append, List.length_singleton, implies_true]
      have htargets : new.map (·.1) = (g.fresh live (found.map (·.1)) r.1).map (·.target) := by
        simp [new]
      have hexplore : g.explore live (n + 1) (r :: queue) (found.map (·.1)) =
          new ++ g.explore live n (queue ++ new) ((found ++ new).map (·.1)) := by
        rw [explore, List.map_append]
      rw [hexplore, List.cons_append, List.mem_cons, ← List.append_assoc] at hp
      rw [hexplore, ← List.append_assoc]
      rcases hp with rfl | hp
      · by_cases hseen : e.target ∈ found.map (·.1)
        · obtain ⟨q, hq, htarget⟩ := List.mem_map.1 hseen
          refine ⟨q, ?_, htarget, horder.within q hq p List.mem_cons_self⟩
          exact List.mem_append_left _ (List.mem_append_left _ hq)
        · have hmem : (e.target, p.2 ++ [e]) ∈ new :=
            List.mem_map.2 ⟨e, mem_fresh.2 ⟨he, hsource, alive, hseen⟩, rfl⟩
          refine ⟨_, ?_, rfl, (hnew _ hmem).le⟩
          exact List.mem_append_left _ (List.mem_append_right _ hmem)
      · refine ih (horder.visit hnew) ?_ hp
        have hvisit := @fresh_length_add_unseen g live r.1 (found.map (·.1))
        have hlength : new.length = (g.fresh live (found.map (·.1)) r.1).length := by simp [new]
        simp only [List.length_append, List.map_append, htargets, List.length_cons] at hn ⊢
        omega

/-- Along every path from a live brand, what it leads to is listed with a path that is no longer. -/
theorem exists_mem_reachable (ha : live a = true) {path : List Edge} (h : g.Path live a path b) :
    ∃ p ∈ (a, []) :: g.reachable live a, p.1 = b ∧ p.2.length ≤ path.length := by
  induction h with
  | nil => exact ⟨_, List.mem_cons_self, rfl, le_rfl⟩
  | @snoc init e _ he alive ih =>
    obtain ⟨p, hp, hsource, hlength⟩ := ih
    have horder : InOrder [(a, [])] [(a, [])] :=
      ⟨fun _ => id, List.pairwise_singleton _ _, by simp⟩
    have hn : [(a, ([] : List Edge))].length + g.unseen [a] ≤ g.length + 1 := by
      have := List.countP_le_length (p := fun e : Edge => decide (e.target ∉ [a])) (l := g)
      simp only [unseen, List.length_singleton]
      omega
    rw [reachable, if_pos ha] at hp ⊢
    obtain ⟨q, hq, htarget, hnext⟩ := explore_relaxed horder hn hp he hsource.symm alive
    refine ⟨q, hq, htarget, ?_⟩
    rw [List.length_append, List.length_singleton]
    omega

/-! ## Reachability -/

theorem not_mem_reachable {p : String × List Edge} (h : p ∈ g.reachable live a) : p.1 ≠ a := by
  rw [reachable, if_pos (live_of_mem_reachable h)] at h
  exact fun heq => not_mem_seen p h (List.mem_singleton.2 heq)

theorem Sorted.nodup_reachable (h : g.Sorted) : ((g.reachable live a).map (·.1)).Nodup := by
  rw [reachable]
  split
  · exact h.nodup_explore
  · exact List.nodup_nil

/-- **The search lists what can be reached**, apart from the start. -/
theorem mem_reachable_iff :
    b ∈ (g.reachable live a).map (·.1) ↔
      b ≠ a ∧ Relation.ReflTransGen (Joined g live) a b := by
  constructor
  · intro h
    obtain ⟨p, hp, rfl⟩ := List.mem_map.1 h
    exact ⟨not_mem_reachable hp,
      (exists_path_iff (live_of_mem_reachable hp)).1 ⟨_, path_of_mem_reachable hp⟩⟩
  · rintro ⟨hne, h⟩
    -- The first edge starts at a live brand.
    have ha : live a = true := by
      rcases h.cases_head with rfl | ⟨_, hjoined, _⟩
      · exact absurd rfl hne
      · exact hjoined.1
    obtain ⟨path, hpath⟩ := (exists_path_iff ha).2 h
    obtain ⟨p, hp, rfl, _⟩ := exists_mem_reachable ha hpath
    rcases List.mem_cons.1 hp with rfl | hp
    · exact absurd rfl hne
    · exact List.mem_map.2 ⟨p, hp, rfl⟩

/-- **The search lists shortest paths.** -/
theorem Sorted.length_le_of_path (h : g.Sorted) {p : String × List Edge}
    (hp : p ∈ g.reachable live a) {path : List Edge} (hpath : g.Path live a path p.1) :
    p.2.length ≤ path.length := by
  obtain ⟨q, hq, hsame, hlength⟩ := exists_mem_reachable (live_of_mem_reachable hp) hpath
  rcases List.mem_cons.1 hq with rfl | hq
  · exact absurd hsame.symm (not_mem_reachable hp)
  · have hpq : q = p := List.inj_on_of_nodup_map h.nodup_reachable hq hp hsame
    exact hpq ▸ hlength

theorem isSome_path?_iff :
    (g.path? live a b).isSome = true ↔ Relation.ReflTransGen (Joined g live) a b := by
  rw [path?]
  split
  · rename_i heq
    simp [heq, Relation.ReflTransGen.refl]
  · rename_i hne
    have hlisted : (∃ p ∈ g.reachable live a, (p.1 == b) = true) ↔
        b ∈ (g.reachable live a).map (·.1) := by simp
    rw [Option.isSome_map, List.find?_isSome, hlisted, mem_reachable_iff]
    exact and_iff_right (Ne.symm hne)

end Discharge.WideningGraph
