import Discharge.Expr.Parser

/-!
# What readers yield

`r.Yields P` says that whatever the reader `r` reads has the property `P`. There is one lemma for
each way of putting readers together, so that a property of everything a grammar reads is proved
along the grammar.
-/

namespace Discharge.Reader

variable {α β : Type} {P : α → Prop} {Q : β → Prop}

/-- Whatever is read has the property. -/
def Yields (r : Reader α) (P : α → Prop) : Prop :=
  ∀ cs a rest, r cs = .ok a rest → P a

namespace Yields

theorem any {r : Reader α} : r.Yields fun _ => True := fun _ _ _ _ => trivial

theorem pure {a : α} (ha : P a) : (Pure.pure a : Reader α).Yields P := by
  intro cs b rest h
  cases h
  exact ha

theorem bind {r : Reader α} {f : α → Reader β} (hr : r.Yields P) (hf : ∀ a, P a → (f a).Yields Q) :
    (r >>= f).Yields Q := by
  intro cs b rest h
  simp only [Bind.bind] at h
  cases hr' : r cs with
  | ok a rest' =>
    rw [hr'] at h
    exact hf a (hr _ _ _ hr') _ _ _ h
  | miss p =>
    rw [hr'] at h
    cases h
  | stop p fault =>
    rw [hr'] at h
    cases h

theorem map {r : Reader α} {f : α → β} (hr : r.Yields P) (hf : ∀ a, P a → Q (f a)) :
    (f <$> r).Yields Q :=
  hr.bind fun a ha => .pure (hf a ha)

theorem fail : (Reader.fail : Reader α).Yields P := by
  intro cs a rest h
  cases h

theorem abort {place : List Char} {fault : Fault} :
    (Reader.abort place fault : Reader α).Yields P := by
  intro cs a rest h
  cases h

theorem orElse {r s : Reader α} (hr : r.Yields P) (hs : s.Yields P) :
    (Reader.orElse r s).Yields P := by
  intro cs a rest h
  unfold Reader.orElse at h
  split at h
  · exact hs _ _ _ h
  · exact hr _ _ _ h

theorem firstOf {rs : List (Reader α)} (hrs : ∀ r ∈ rs, r.Yields P) :
    (Expr.firstOf rs).Yields P := by
  induction rs with
  | nil => exact fail
  | cons r rs ih =>
    cases rs with
    | nil => exact hrs r List.mem_cons_self
    | cons s rs =>
      exact .orElse (hrs r List.mem_cons_self) (ih fun t ht => hrs t (List.mem_cons_of_mem _ ht))

theorem optional {r : Reader α} (hr : r.Yields P) :
    (Reader.optional r).Yields fun o => ∀ a, o = some a → P a := by
  intro cs o rest h a ha
  unfold Reader.optional at h
  split at h
  · rename_i hc
    cases h
    cases ha
    exact hr _ _ _ hc
  · cases h
    cases ha
  · cases h

theorem spaced {r : Reader α} (hr : r.Yields P) : (Reader.spaced r).Yields P :=
  any.bind fun _ _ => hr.bind fun _ ha => any.bind fun _ _ => .pure ha

theorem atMost {r : Reader α} (hr : r.Yields P) (n : Nat) :
    (Reader.atMost n r).Yields fun as => ∀ a ∈ as, P a := by
  induction n with
  | zero => exact .pure (fun _ h => absurd h List.not_mem_nil)
  | succ n ih =>
    -- The repetition matches on the outcome of its first reading and is no sequence of readers.
    intro cs as rest h
    unfold Reader.atMost at h
    split at h
    · rename_i a rest' hc
      have htail : (do return a :: (← Reader.atMost n r) : Reader (List α)).Yields
          fun as => ∀ a ∈ as, P a :=
        ih.bind fun _ has => .pure (List.forall_mem_cons.2 ⟨hr _ _ _ hc, has⟩)
      exact htail _ _ _ h
    · cases h
      exact fun _ h => absurd h List.not_mem_nil
    · cases h

theorem many {r : Reader α} (hr : r.Yields P) : (Reader.many r).Yields fun as => ∀ a ∈ as, P a :=
  fun cs _ _ h => atMost hr cs.length _ _ _ h

theorem sepBy {sep : Reader β} {r : Reader α} (hr : r.Yields P) :
    (Reader.sepBy sep r).Yields fun as => ∀ a ∈ as, P a := by
  refine hr.optional.bind fun o ho => ?_
  cases o with
  | none => exact .pure (fun _ h => absurd h List.not_mem_nil)
  | some a =>
    refine bind (many (any.bind fun _ _ => hr)) fun as has => ?_
    exact .pure (List.forall_mem_cons.2 ⟨ho a rfl, has⟩)

theorem satisfy {p : Char → Bool} : (Reader.satisfy p).Yields fun c => p c = true := by
  intro cs c rest h
  cases cs with
  | nil => cases h
  | cons d cs =>
    rw [Reader.satisfy] at h
    split at h
    · rename_i hp
      cases h
      exact hp
    · cases h

theorem run {p : Char → Bool} : (Reader.run p).Yields fun cs => cs.all p = true := by
  intro cs ds rest h
  cases h
  exact List.all_takeWhile

theorem run1 {p : Char → Bool} :
    (Reader.run1 p).Yields fun cs => cs ≠ [] ∧ ∀ c ∈ cs, p c = true := by
  intro cs ds rest h
  unfold Reader.run1 at h
  split at h
  · cases h
  · rename_i hne
    cases h
    exact ⟨fun hnil => hne (hnil ▸ rfl), fun c hc => List.all_eq_true.1 List.all_takeWhile c hc⟩

end Yields

end Discharge.Reader
