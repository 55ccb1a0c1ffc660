import Discharge.Expr.Parser
import Discharge.Proofs.Reader.Steps

/-!
# Two runs in step

Two readers that run on two related texts. `Agree broken P r r' Q` says that from texts in the
relation `P` they read the same value and leave texts in the relation `Q`, or both miss. Where the
first run stops nothing is asked of the second, and if `broken` holds the second may stop on its
own. A stop is never taken back, so that a run that is broken stays broken.

Loops and nesting count characters. `Takes n` and `Keeps n` bound the first text: on texts shorter
than `n`, the runs agree, and those of `Takes` take a character at least. What follows a reader that
takes has to be known for shorter texts only.
-/

namespace Discharge

variable {α β : Type}

/-- A relation between two texts. -/
abbrev TextRel := List Char → List Char → Prop

/-- The replies of two runs. -/
inductive Reply.Agree (broken : Prop) (Q : TextRel) : Reply α → Reply α → Prop
  | ok {a : α} {y y' : List Char} (h : Q y y') : Agree broken Q (.ok a y) (.ok a y')
  | miss {p p' : List Char} : Agree broken Q (.miss p) (.miss p')
  | stop {p : List Char} {fault : Fault} {reply : Reply α} :
      Agree broken Q (.stop p fault) reply
  | broken {reply : Reply α} {p : List Char} {fault : Fault} (h : broken) :
      Agree broken Q reply (.stop p fault)

theorem Reply.Agree.mono {broken : Prop} {Q Q' : TextRel} {reply reply' : Reply α}
    (h : reply.Agree broken Q reply') (hQ : ∀ y y', Q y y' → Q' y y') :
    reply.Agree broken Q' reply' := by
  cases h with
  | ok h => exact .ok (hQ _ _ h)
  | miss => exact .miss
  | stop => exact .stop
  | broken h => exact .broken h

namespace Reader

variable {broken : Prop} {P P' Q Q' R S : TextRel} {r r' s s' : Reader α} {f f' : α → Reader β}
  {n m : Nat}

/-- Two readers agree on related texts. -/
def Agree (broken : Prop) (P : TextRel) (r r' : Reader α) (Q : TextRel) : Prop :=
  ∀ x x', P x x' → (r x).Agree broken Q (r' x')

namespace Agree

theorem bind (hr : Agree broken P r r' Q) (hf : ∀ a, Agree broken Q (f a) (f' a) R) :
    Agree broken P (r >>= f) (r' >>= f') R := by
  intro x x' h
  have hreply := hr x x' h
  simp only [Bind.bind]
  generalize r x = reply at hreply ⊢
  generalize r' x' = reply' at hreply ⊢
  cases hreply with
  | ok h => exact hf _ _ _ h
  | miss => exact .miss
  | stop => exact .stop
  | broken h => exact .broken h

theorem orElse (hr : Agree broken P r r' Q) (hs : Agree broken P s s' Q) :
    Agree broken P (orElse r s) (orElse r' s') Q := by
  intro x x' h
  have hreply := hr x x' h
  unfold Reader.orElse
  generalize r x = reply at hreply ⊢
  generalize r' x' = reply' at hreply ⊢
  cases hreply with
  | ok h => exact .ok h
  | miss => exact hs x x' h
  | stop => exact .stop
  | broken h => exact .broken h

theorem commit (hr : Agree broken P r r' Q) : Agree broken P (commit r) (commit r') Q := by
  intro x x' h
  have hreply := hr x x' h
  unfold Reader.commit
  generalize r x = reply at hreply ⊢
  generalize r' x' = reply' at hreply ⊢
  cases hreply with
  | ok h => exact .ok h
  | miss => exact .stop
  | stop => exact .stop
  | broken h => exact .broken h

theorem optional (hr : Agree broken P r r' Q) (hPQ : ∀ x x', P x x' → Q x x') :
    Agree broken P (optional r) (optional r') Q := by
  intro x x' h
  have hreply := hr x x' h
  unfold Reader.optional
  generalize r x = reply at hreply ⊢
  generalize r' x' = reply' at hreply ⊢
  cases hreply with
  | ok h => exact .ok h
  | miss => exact .ok (hPQ x x' h)
  | stop => exact .stop
  | broken h => exact .broken h

/-- Blanks before and after may be taken off, if that leads from related texts to related ones. -/
theorem spaced (hP : ∀ x x', P x x' → P' (skip x) (skip x')) (hr : Agree broken P' r r' Q')
    (hQ : ∀ y y', Q' y y' → Q (skip y) (skip y')) : Agree broken P (spaced r) (spaced r') Q := by
  have htail (a : α) : Agree broken Q' (run isBlank >>= fun _ => pure a)
      (run isBlank >>= fun _ => pure a) Q := fun y y' hy => .ok (hQ y y' hy)
  intro x x' h
  rw [spaced_eq, spaced_eq]
  exact hr.bind htail _ _ (hP x x' h)

end Agree

/-! ## Counting characters -/

/-- The texts are related and the first is shorter than `n`. -/
def Within (n : Nat) (P : TextRel) : TextRel := fun x x' => P x x' ∧ x.length < n

/-- On texts shorter than `n` the readers agree. -/
def Keeps (broken : Prop) (n : Nat) (P : TextRel) (r r' : Reader α) (Q : TextRel) : Prop :=
  ∀ m ≤ n, Agree broken (Within m P) r r' (Within m Q)

/-- On texts no longer than `n` the readers agree, and take at least a character. -/
def Takes (broken : Prop) (n : Nat) (P : TextRel) (r r' : Reader α) (Q : TextRel) : Prop :=
  ∀ m < n, Agree broken (Within (m + 1) P) r r' (Within m Q)

namespace Keeps

theorem pure (a : α) : Keeps broken n P (Pure.pure a) (Pure.pure a) P := fun _ _ _ _ h => .ok h

theorem mono (h : Keeps broken n P r r' Q) (hP : ∀ x x', P' x x' → P x x')
    (hQ : ∀ y y', Q y y' → Q' y y') : Keeps broken n P' r r' Q' := fun m hm x x' hx =>
  (h m hm x x' ⟨hP _ _ hx.1, hx.2⟩).mono fun y y' hy => ⟨hQ y y' hy.1, hy.2⟩

theorem bind (hr : Keeps broken n P r r' Q) (hf : ∀ a, Keeps broken n Q (f a) (f' a) R) :
    Keeps broken n P (r >>= f) (r' >>= f') R := fun m hm =>
  (hr m hm).bind fun a => hf a m hm

theorem commit (hr : Keeps broken n P r r' Q) :
    Keeps broken n P (Reader.commit r) (Reader.commit r') Q := fun m hm => (hr m hm).commit

theorem optional (hr : Keeps broken n P r r' Q) (hPQ : ∀ x x', P x x' → Q x x') :
    Keeps broken n P (Reader.optional r) (Reader.optional r') Q := fun m hm =>
  (hr m hm).optional fun _ _ h => ⟨hPQ _ _ h.1, h.2⟩

/-- A loop. The bounds of the two runs do not matter, as long as the first text is within both. -/
theorem atMost (hnil : ∃ p, r [] = .miss p) (hr : Takes broken n S r r' S) {k k' : Nat}
    {x x' : List Char} (h : S x x') (hn : x.length < n) (hk : x.length ≤ k) (hk' : x.length ≤ k') :
    (atMost k r x).Agree broken (Within (x.length + 1) S) (atMost k' r' x') := by
  induction hlen : x.length using Nat.strongRecOn generalizing x x' k k' with
  | _ len ih =>
    subst hlen
    have hstay : Within (x.length + 1) S x x' := ⟨h, Nat.lt_succ_self _⟩
    have hreply := hr x.length hn x x' hstay
    cases k with
    | zero =>
      -- Nothing is left in the first run, and the second takes nothing either.
      obtain rfl := List.length_eq_zero_iff.1 (Nat.le_zero.1 hk)
      obtain ⟨p, hp⟩ := hnil
      rw [hp] at hreply
      cases k' with
      | zero => exact .ok hstay
      | succ k' =>
        unfold Reader.atMost
        generalize r' x' = reply' at hreply ⊢
        cases hreply with
        | miss => exact .ok hstay
        | broken h => exact .broken h
    | succ k =>
      cases k' with
      | zero =>
        obtain rfl := List.length_eq_zero_iff.1 (Nat.le_zero.1 hk')
        obtain ⟨p, hp⟩ := hnil
        rw [atMost_miss hp]
        exact .ok hstay
      | succ k' =>
        unfold Reader.atMost
        generalize r x = reply at hreply ⊢
        generalize r' x' = reply' at hreply ⊢
        cases hreply with
        | miss => exact .ok hstay
        | stop => exact .stop
        | broken h => exact .broken h
        | ok hy =>
          obtain ⟨hS, hlt⟩ := hy
          have hrest := ih _ hlt hS (by omega) (by omega : _ ≤ k) (by omega : _ ≤ k') rfl
          simp only [Bind.bind]
          generalize Reader.atMost k r _ = more at hrest ⊢
          generalize Reader.atMost k' r' _ = more' at hrest ⊢
          cases hrest with
          | ok h => exact .ok ⟨h.1, by have := h.2; omega⟩
          | miss => exact .miss
          | stop => exact .stop
          | broken h => exact .broken h

theorem many (hnil : ∃ p, r [] = .miss p) (hlen : ∀ x x', S x x' → x.length ≤ x'.length)
    (hr : Takes broken n S r r' S) :
    Keeps broken n S (Reader.many r) (Reader.many r') S := by
  rintro m hm x x' ⟨hS, hx⟩
  refine (atMost hnil hr hS (hx.trans_le hm) le_rfl (hlen x x' hS)).mono fun y y' hy => ?_
  exact ⟨hy.1, by have := hy.2; omega⟩

end Keeps

namespace Takes

theorem mono (h : Takes broken n P r r' Q) (hP : ∀ x x', P' x x' → P x x')
    (hQ : ∀ y y', Q y y' → Q' y y') : Takes broken n P' r r' Q' := fun m hm x x' hx =>
  (h m hm x x' ⟨hP _ _ hx.1, hx.2⟩).mono fun y y' hy => ⟨hQ y y' hy.1, hy.2⟩

theorem anti (h : Takes broken n P r r' Q) (hm : m ≤ n) : Takes broken m P r r' Q :=
  fun k hk => h k (hk.trans_le hm)

theorem keeps (h : Takes broken n P r r' Q) : Keeps broken n P r r' Q := by
  intro m hm x x' hx
  cases m with
  | zero => exact absurd hx.2 (Nat.not_lt_zero _)
  | succ m => exact (h m hm x x' hx).mono fun y y' hy => ⟨hy.1, hy.2.trans (Nat.lt_succ_self m)⟩

theorem bind (hr : Takes broken (n + 1) P r r' Q) (hf : ∀ a, Keeps broken n Q (f a) (f' a) R) :
    Takes broken (n + 1) P (r >>= f) (r' >>= f') R := fun m hm =>
  (hr m hm).bind fun a => hf a m (Nat.le_of_lt_succ hm)

theorem orElse (hr : Takes broken n P r r' Q) (hs : Takes broken n P s s' Q) :
    Takes broken n P (Reader.orElse r s) (Reader.orElse r' s') Q := fun m hm =>
  (hr m hm).orElse (hs m hm)

theorem firstOf {rs rs' : List (Reader α)}
    (h : List.Forall₂ (fun r r' => Takes broken n P r r' Q) rs rs') :
    Takes broken n P (Expr.firstOf rs) (Expr.firstOf rs') Q := by
  induction h with
  | nil => exact fun m _ x x' _ => .miss
  | @cons r r' rs rs' hr hrs ih =>
    cases hrs with
    | nil => exact hr
    | cons hs hss => exact hr.orElse ih

theorem spaced (hP : ∀ x x', P x x' → P' (skip x) (skip x')) (hr : Takes broken n P' r r' Q')
    (hQ : ∀ y y', Q' y y' → Q (skip y) (skip y')) :
    Takes broken n P (Reader.spaced r) (Reader.spaced r') Q := fun m hm =>
  Agree.spaced (fun x x' h => ⟨hP x x' h.1, (length_skip_le x).trans_lt h.2⟩) (hr m hm)
    fun y y' h => ⟨hQ y y' h.1, (length_skip_le y).trans_lt h.2⟩

end Takes

/-- Values with separators between them: a value leads from `P` to `S`, a separator back. -/
theorem Keeps.sepBy {sep sep' : Reader β} (hnil : ∃ p, sep [] = .miss p)
    (hlen : ∀ x x', S x x' → x.length ≤ x'.length) (hsep : Takes broken n S sep sep' P)
    (hr : Takes broken n P r r' S) (hPQ : ∀ x x', P x x' → Q x x')
    (hSQ : ∀ x x', S x x' → Q x x') :
    Keeps broken n P (Reader.sepBy sep r) (Reader.sepBy sep' r') Q := by
  have hmore : Keeps broken n S (Reader.many do let _ ← sep; r)
      (Reader.many do let _ ← sep'; r') S := by
    refine many ?_ hlen ?_
    · obtain ⟨p, hp⟩ := hnil
      exact ⟨p, bind_miss hp⟩
    · cases n with
      | zero => exact fun m hm => absurd hm (Nat.not_lt_zero m)
      | succ n => exact hsep.bind fun _ => (hr.anti (Nat.le_succ n)).keeps
  intro m hm x x' hx
  have hreply := hr.keeps m hm x x' hx
  simp only [Reader.sepBy, Bind.bind, Reader.optional]
  generalize r x = reply at hreply ⊢
  generalize r' x' = reply' at hreply ⊢
  cases hreply with
  | ok h =>
    exact ((hmore.bind fun as => .pure (_ :: as)).mono (fun _ _ h => h) hSQ) m hm _ _ h
  | miss => exact .ok ⟨hPQ x x' hx.1, hx.2⟩
  | stop => exact .stop
  | broken h => exact .broken h

end Reader

end Discharge
