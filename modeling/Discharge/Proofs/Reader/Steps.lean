import Discharge.Reader
import Mathlib

/-!
# Running readers

How each reader acts on a text of which the front is known. A reader may or may not take the blanks
after what it reads; `Left rest rest'` says that `rest'` is what such a reader leaves of `rest`.
Readers that allow blanks before them do not see the difference.
-/

namespace Discharge.Reader

variable {α β : Type} {r s : Reader α} {f : α → Reader β} {a : α} {cs rest place : List Char}

/-! ## Blanks -/

/-- The text without the blanks at its start. -/
def skip (cs : List Char) : List Char := cs.dropWhile isBlank

/-- The text starts with a character that is no blank. -/
def Opens (cs : List Char) : Prop := ∃ c ds, cs = c :: ds ∧ isBlank c = false

theorem skip_cons {c : Char} (hc : isBlank c = false) (cs : List Char) :
    skip (c :: cs) = c :: cs :=
  List.dropWhile_cons_of_neg (by simp [hc])

theorem skip_blank {b : Char} (hb : isBlank b = true) (cs : List Char) : skip (b :: cs) = skip cs :=
  List.dropWhile_cons_of_pos hb

@[simp] theorem skip_space (cs : List Char) : skip (' ' :: cs) = skip cs := rfl

theorem opens_cons {c : Char} (hc : isBlank c = false) (cs : List Char) : Opens (c :: cs) :=
  ⟨c, cs, rfl, hc⟩

theorem Opens.append (h : Opens cs) (rest : List Char) : Opens (cs ++ rest) := by
  obtain ⟨c, ds, rfl, hc⟩ := h
  exact opens_cons hc (ds ++ rest)

theorem Opens.skip_eq (h : Opens cs) : skip cs = cs := by
  obtain ⟨c, ds, rfl, hc⟩ := h
  exact skip_cons hc ds

theorem skip_skip (cs : List Char) : skip (skip cs) = skip cs := by
  induction cs with
  | nil => rfl
  | cons c cs ih =>
    cases hc : isBlank c with
    | true => rw [skip_blank hc, ih]
    | false => rw [skip_cons hc, skip_cons hc]

theorem length_skip_le (cs : List Char) : (skip cs).length ≤ cs.length :=
  (List.dropWhile_sublist _).length_le

theorem not_isBlank_of_skip_eq {c : Char} (h : skip (c :: cs) = c :: cs) : isBlank c = false := by
  rw [Bool.eq_false_iff]
  intro hc
  have hle := length_skip_le cs
  rw [← skip_blank hc cs, h] at hle
  exact absurd hle (Nat.not_succ_le_self cs.length)

/-- What is left of a text, perhaps without the blanks at its start. -/
def Left (rest rest' : List Char) : Prop := rest' = rest ∨ rest' = skip rest

namespace Left

theorem refl (rest : List Char) : Left rest rest := .inl rfl

theorem skip_right (rest : List Char) : Left rest (skip rest) := .inr rfl

theorem skip_eq {rest rest' : List Char} (h : Left rest rest') : skip rest' = skip rest := by
  rcases h with rfl | rfl
  · rfl
  · exact skip_skip rest

theorem length_le {rest rest' : List Char} (h : Left rest rest') : rest'.length ≤ rest.length := by
  rcases h with rfl | rfl
  · exact le_rfl
  · exact length_skip_le rest

theorem eq_of_skip {rest rest' : List Char} (h : Left rest rest') (hrest : skip rest = rest) :
    rest' = rest := by
  rcases h with rfl | rfl
  · rfl
  · exact hrest

end Left

/-! ## Combinations of readers -/

theorem bind_ok (h : r cs = .ok a rest) : (r >>= f) cs = f a rest := by
  simp only [Bind.bind, h]

theorem bind_miss (h : r cs = .miss place) : (r >>= f) cs = .miss place := by
  simp only [Bind.bind, h]

theorem pure_run (a : α) (cs : List Char) : (pure a : Reader α) cs = .ok a cs := rfl

theorem orElse_ok (h : r cs = .ok a rest) : orElse r s cs = .ok a rest := by
  simp only [orElse, h]

theorem orElse_miss (h : r cs = .miss place) : orElse r s cs = s cs := by
  simp only [orElse, h]

theorem commit_ok (h : r cs = .ok a rest) : commit r cs = .ok a rest := by
  simp only [commit, h]

theorem commit_miss (h : r cs = .miss place) : commit r cs = .stop place .unexpected := by
  simp only [commit, h]

theorem optional_ok (h : r cs = .ok a rest) : optional r cs = .ok (some a) rest := by
  simp only [optional, h]

theorem optional_miss (h : r cs = .miss place) : optional r cs = .ok none cs := by
  simp only [optional, h]

theorem spaced_eq (r : Reader α) (cs : List Char) :
    spaced r cs = (r >>= fun a => run isBlank >>= fun _ => pure a) (skip cs) := rfl

theorem spaced_ok (h : r (skip cs) = .ok a rest) : spaced r cs = .ok a (skip rest) :=
  (spaced_eq r cs).trans (bind_ok h)

theorem spaced_miss (h : r (skip cs) = .miss place) : spaced r cs = .miss place :=
  (spaced_eq r cs).trans (bind_miss h)

theorem spaced_of_opens (hcs : Opens cs) (h : r cs = .ok a rest) :
    spaced r cs = .ok a (skip rest) :=
  spaced_ok (by rwa [hcs.skip_eq])

theorem atMost_ok {n : Nat} (h : r cs = .ok a rest) :
    atMost (n + 1) r cs = (do return a :: (← atMost n r) : Reader (List α)) rest := by
  simp only [atMost, h]

theorem atMost_miss {n : Nat} (h : r cs = .miss place) : atMost n r cs = .ok [] cs := by
  cases n with
  | zero => rfl
  | succ n => simp only [atMost, h]

/-! ## Characters and words -/

theorem satisfy_cons {p : Char → Bool} {c : Char} (h : p c = true) (cs : List Char) :
    satisfy p (c :: cs) = .ok c cs :=
  if_pos h

theorem satisfy_miss {p : Char → Bool} (h : ∀ c ds, cs = c :: ds → p c = false) :
    satisfy p cs = .miss cs := by
  cases cs with
  | nil => rfl
  | cons c cs =>
    rw [satisfy, h c cs rfl]
    rfl

theorem char_cons (c : Char) (cs : List Char) : char c (c :: cs) = .ok c cs :=
  satisfy_cons (beq_self_eq_true c) cs

theorem char_miss {c : Char} (h : ∀ ds, cs ≠ c :: ds) : char c cs = .miss cs :=
  satisfy_miss fun _ ds hcs => beq_eq_false_iff_ne.2 fun hd => h ds (hd ▸ hcs)

theorem spaced_char {c : Char} (hc : isBlank c = false) (cs : List Char) :
    spaced (char c) (c :: cs) = .ok c (skip cs) := by
  refine spaced_ok ?_
  rw [skip_cons hc]
  exact char_cons c cs

theorem spaced_char_miss {c : Char} (h : ∀ ds, skip cs ≠ c :: ds) :
    spaced (char c) cs = .miss (skip cs) :=
  spaced_miss (char_miss h)

/-- A run of characters of a class ends where the class does. -/
theorem takeWhile_append_eq {p : Char → Bool} (hcs : ∀ c ∈ cs, p c = true)
    (hrest : ∀ c ds, rest = c :: ds → p c = false) :
    (cs ++ rest).takeWhile p = cs ∧ (cs ++ rest).dropWhile p = rest := by
  rw [List.takeWhile_append_of_pos hcs, List.dropWhile_append_of_pos hcs]
  cases rest with
  | nil => simp
  | cons c ds => simp [hrest c ds rfl]

theorem run_append {p : Char → Bool} (hcs : ∀ c ∈ cs, p c = true)
    (hrest : ∀ c ds, rest = c :: ds → p c = false) : run p (cs ++ rest) = .ok cs rest := by
  obtain ⟨htake, hdrop⟩ := takeWhile_append_eq hcs hrest
  rw [run, htake, hdrop]

theorem run1_append {p : Char → Bool} (hne : cs ≠ []) (hcs : ∀ c ∈ cs, p c = true)
    (hrest : ∀ c ds, rest = c :: ds → p c = false) : run1 p (cs ++ rest) = .ok cs rest := by
  obtain ⟨htake, hdrop⟩ := takeWhile_append_eq hcs hrest
  rw [run1, htake, hdrop, if_neg (by simpa using hne)]

theorem run1_miss {p : Char → Bool} (h : ∀ c ds, cs = c :: ds → p c = false) :
    run1 p cs = .miss cs := by
  cases cs with
  | nil => rfl
  | cons c cs => simp [run1, h c cs rfl]

theorem word_append (w rest : List Char) : word w (w ++ rest) = .ok () rest := by
  simp [word]

theorem notNext_ok {p : Char → Bool} (h : ∀ c ds, cs = c :: ds → p c = false) :
    notNext p cs = .ok () cs := by
  cases cs with
  | nil => rfl
  | cons c cs =>
    rw [notNext, h c cs rfl]
    rfl

theorem word_miss {c : Char} {w : List Char} (h : ∀ ds, cs ≠ c :: ds) :
    word (c :: w) cs = .miss cs := by
  cases cs with
  | nil => rfl
  | cons d cs =>
    have hne : c ≠ d := fun hcd => h cs (by rw [hcd])
    simp [word, hne]

/-! ## Values with commas between them -/

/-- The text is read as the value, whatever follows that the predicate allows. -/
def Reads (r : Reader α) (F : List Char → Prop) (cs : List Char) (a : α) : Prop :=
  ∀ rest, F rest → ∃ rest', r (cs ++ rest) = .ok a rest' ∧ Left rest rest'

/-- The texts, each after a comma and a blank. -/
def listed (css : List (List Char)) : List Char := css.flatMap fun cs => ',' :: ' ' :: cs

theorem intercalate_eq_listed (cs : List Char) (css : List (List Char)) :
    List.intercalate [',', ' '] (cs :: css) = cs ++ listed css := by
  induction css generalizing cs with
  | nil => simp [listed]
  | cons ds css ih =>
    rw [List.intercalate_cons_cons, ih]
    simp [listed]

theorem skip_intercalate {css : List (List Char)} (hcss : ∀ cs ∈ css, Opens cs)
    (hrest : Opens rest) :
    skip (List.intercalate [',', ' '] css ++ rest) = List.intercalate [',', ' '] css ++ rest := by
  cases css with
  | nil => exact hrest.skip_eq
  | cons cs css =>
    rw [intercalate_eq_listed, List.append_assoc]
    exact ((hcss cs List.mem_cons_self).append _).skip_eq

section

variable {F : List Char → Prop} {css : List (List Char)} {as : List α}

/-- What may follow the last value, or a comma, may follow each of them. -/
theorem follows_listed (hF : ∀ ds, F (',' :: ds)) (hrest : F rest) (css : List (List Char)) :
    F (listed css ++ rest) := by
  cases css with
  | nil => exact hrest
  | cons ds css => exact hF _

theorem atMost_listed (hF : ∀ ds, F (',' :: ds))
    (h : List.Forall₂ (fun cs a => Opens cs ∧ r.Reads F cs a) css as) {n : Nat} {t : List Char}
    (hrest : F rest) (hstop : ∀ ds, skip rest ≠ ',' :: ds) (ht : Left (listed css ++ rest) t)
    (hn : t.length ≤ n) :
    ∃ rest', atMost n (do let _ ← spaced (char ','); r) t = .ok as rest' ∧ Left rest rest' := by
  induction h generalizing n t with
  | nil =>
    exact ⟨t, atMost_miss (bind_miss (spaced_char_miss (ht.skip_eq ▸ hstop))), ht⟩
  | @cons cs a css as hcs htail ih =>
    obtain ⟨hopens, hreads⟩ := hcs
    have hF' := follows_listed hF hrest css
    obtain rfl : t = ',' :: ' ' :: (cs ++ (listed css ++ rest)) := by
      refine (ht.eq_of_skip (skip_cons rfl _)).trans ?_
      simp [listed]
    obtain ⟨t', hr, ht'⟩ := hreads _ hF'
    obtain ⟨n, rfl⟩ : ∃ m, n = m + 1 := ⟨n - 1, by simp at hn; omega⟩
    have hstep : (do let _ ← spaced (char ','); r : Reader α)
        (',' :: ' ' :: (cs ++ (listed css ++ rest))) = .ok a t' := by
      refine (bind_ok (spaced_char rfl _)).trans ?_
      rw [skip_space, (hopens.append _).skip_eq]
      exact hr
    -- Each value takes at least its comma, so that the length still bounds how many follow.
    have hlen : t'.length ≤ n := by
      have := ht'.length_le
      simp at hn this ⊢
      omega
    obtain ⟨rest', hmore, hleft⟩ := ih ht' hlen
    exact ⟨rest', (atMost_ok hstep).trans (bind_ok hmore), hleft⟩

/-- Texts with commas between them are read as the list of their values. -/
theorem sepBy_intercalate (hF : ∀ ds, F (',' :: ds))
    (h : List.Forall₂ (fun cs a => Opens cs ∧ r.Reads F cs a) css as)
    (hrest : F rest) (hstop : ∀ ds, skip rest ≠ ',' :: ds)
    (hempty : css = [] → ∃ place, r rest = .miss place) :
    ∃ rest', sepBy (spaced (char ',')) r (List.intercalate [',', ' '] css ++ rest) = .ok as rest' ∧
      Left rest rest' := by
  cases h with
  | nil =>
    obtain ⟨place, hmiss⟩ := hempty rfl
    exact ⟨rest, bind_ok (optional_miss hmiss), .refl rest⟩
  | @cons cs a css as hcs htail =>
    have hF' := follows_listed hF hrest css
    obtain ⟨t, hfirst, ht⟩ := hcs.2 _ hF'
    obtain ⟨rest', hmore, hleft⟩ := atMost_listed hF htail hrest hstop ht le_rfl
    rw [intercalate_eq_listed, List.append_assoc]
    exact ⟨rest', (bind_ok (optional_ok hfirst)).trans (bind_ok hmore), hleft⟩

end

end Discharge.Reader
