import Discharge.Proofs.Brand.Catalog
import Discharge.Proofs.Expr.RoundTrip
import Discharge.Proofs.Expr.Mentions
import Mathlib

/-!
# What expanded brands mention

A built-in brand says something of the value it annotates: its predicate mentions the placeholder
(`Catalog.placeholder_mem_builtin`), also where it is filled into the template of the family of
vectors. So a condition mentions the same names after its brands have been expanded, and possibly
more.
-/

namespace Discharge

/-! ## Texts that start with the placeholder -/

namespace Expr

open Reader

variable {x : String} {cs : List Char}

/-- Whatever the reader reads off the text mentions the name. -/
def Mentions (r : Reader Expr) (cs : List Char) (x : String) : Prop :=
  ∀ e rest, r cs = .ok e rest → x ∈ e.names

theorem Mentions.of_ok {r : Reader Expr} {e : Expr} {rest : List Char} (h : r cs = .ok e rest)
    (hx : x ∈ e.names) : Mentions r cs x := by
  intro e' rest' h'
  rw [h] at h'
  cases h'
  exact hx

theorem Mentions.spaced {r : Reader Expr} (hcs : Opens cs) (h : Mentions r cs x) :
    Mentions (spaced r) cs x := by
  intro e rest hread
  rw [spaced_eq, hcs.skip_eq] at hread
  cases hr : r cs with
  | ok e' rest' =>
    rw [bind_ok hr] at hread
    cases hread
    exact h _ _ hr
  | miss place =>
    rw [bind_miss hr] at hread
    cases hread
  | stop place fault =>
    simp only [Bind.bind, hr] at hread
    cases hread

/-- A chain mentions what its first operand does. -/
theorem Mentions.leftAssoc {α : Type} {op : Reader α} {build : α → Expr → Expr → Expr}
    {operand : Reader Expr} (h : Mentions operand cs x)
    (hbuild : ∀ o l r, x ∈ l.names → x ∈ (build o l r).names) :
    Mentions (leftAssoc op build operand) cs x := by
  intro e rest hread
  cases hfirst : operand cs with
  | ok first rest' =>
    rw [Expr.leftAssoc, bind_ok hfirst] at hread
    refine Yields.bind (Q := (x ∈ Expr.names ·)) Yields.any (fun more _ => .pure ?_) _ _ _ hread
    refine List.foldlRecOn more _ (motive := (x ∈ Expr.names ·)) (h _ _ hfirst) ?_
    exact fun l hl link _ => hbuild link.1 l link.2 hl
  | miss place =>
    rw [Expr.leftAssoc, bind_miss hfirst] at hread
    cases hread
  | stop place fault =>
    simp only [Expr.leftAssoc, Bind.bind, hfirst] at hread
    cases hread

/-- The text of a condition that compares the length of the placeholder with something. -/
def lengthChars (text : String) : List Char := "$.length".toList ++ " == ".toList ++ text.toList

theorem mentions_relation (g : Grammar) (text : String) :
    Mentions g.relation (lengthChars text) placeholder := by
  have hvar : IsVariable placeholder := ⟨by rfl, by decide, by decide⟩
  have hpostfix : g.At 9 "$.length".toList (.member (.var placeholder) "length") :=
    Grammar.Postfixes.field (.of_primary (primary_var hvar)) (f := "length") (by rfl)
  have hrelation : g.At 4 "$.length".toList (.member (.var placeholder) "length") :=
    hpostfix.of_le (by decide) (by decide) (by decide) fun _ _ => unsigned_name hvar.isName _
  obtain ⟨rest, hread, _⟩ := hrelation (" == ".toList ++ text.toList)
    (.operator rfl (by decide) (by decide : 3 < 4))
  rw [← List.append_assoc] at hread
  exact .of_ok hread List.mem_cons_self

/-- Nothing that follows makes the comparison lose its left side. -/
theorem mentions_condition (g : Grammar) (text : String) :
    Mentions g.conditionLevel (lengthChars text) placeholder := by
  have hleft : ∀ {l r : Expr}, placeholder ∈ l.names → placeholder ∈ l.names ++ r.names :=
    List.mem_append_left _
  have hchain : Mentions g.disjunctionLevel (lengthChars text) placeholder :=
    (((mentions_relation g text).leftAssoc fun _ _ _ => hleft).leftAssoc
      fun _ _ _ => hleft).leftAssoc fun _ _ _ => hleft
  have hname : NotAnnotation (lengthChars text) := by
    refine .inr ⟨placeholder, ".length == ".toList ++ text.toList, by rfl, rfl, ⟨?_, ?_, ?_⟩⟩
    · rintro c ds ⟨⟩
      rfl
    · rintro c ds ⟨⟩
      rfl
    · rintro ds ⟨⟩
  obtain ⟨place, hmiss⟩ := annotationReader_miss hname
  intro e rest hread
  exact hchain e rest ((orElse_miss hmiss).symm.trans hread)

theorem placeholder_mem_of_parse {text : String} {e : Expr}
    (h : parse ("$.length == " ++ text) = .ok e) : placeholder ∈ e.names := by
  have hchars : ("$.length == " ++ text).toList = lengthChars text := String.toList_append
  unfold parse parseChars at h
  rw [hchars] at h
  split at h
  · cases h
  · dsimp only at h
    split at h
    · rename_i hread
      cases h
      exact (mentions_condition _ text).spaced (opens_cons rfl _) _ _ hread
    all_goals cases h

end Expr

/-! ## Expansion -/

namespace Catalog

variable {c : Catalog} {b x : String} {e p : Expr}

/-- Where every brand says something of its value, expanding brands keeps the names. -/
theorem mem_names_expand (hc : ∀ b p, c.predicate? b = some p → Expr.placeholder ∈ p.names)
    (h : x ∈ e.names) : x ∈ (c.expand e).names := by
  induction e with
  | branded y b =>
    rw [expand, predicateFor?]
    cases hp : c.predicate? b with
    | none => exact h
    | some p =>
      obtain rfl := List.mem_singleton.1 h
      exact Expr.mem_names_instantiate (hc b p hp) x
  | and l r ihl ihr => exact List.mem_append.2 ((List.mem_append.1 h).imp ihl ihr)
  | or l r ihl ihr => exact List.mem_append.2 ((List.mem_append.1 h).imp ihl ihr)
  | neg e ih => exact ih h
  | not e ih => exact ih h
  | _ => exact h

theorem fill_vector (text : String) : Family.vector.fill [text] = "$.length == " ++ text := by
  have hmark : ("\x7b" ++ toString (0 + 1) ++ "\x7d").toList = "\x7b1\x7d".toList := by cbv
  rw [← String.toList_inj, Family.fill, String.toList_ofList, String.toList_append,
    List.zipIdx_singleton, List.foldl_cons, List.foldl_nil]
  dsimp only
  rw [hmark]
  simp [Family.replaceMark, Family.vector]

theorem placeholder_mem_vector (h : Family.vector.predicate? b = some p) :
    Expr.placeholder ∈ p.names := by
  obtain ⟨groups, hgroups, hp⟩ := Option.bind_eq_some_iff.1 h
  obtain ⟨marks, _, hgroups⟩ := Option.bind_eq_some_iff.1 hgroups
  cases hgroups
  have hcount : Family.vectorPattern.groupCount = 1 := rfl
  rw [hcount, List.range_one, List.map_singleton, fill_vector] at hp
  cases hparse : Expr.parse _ with
  | ok q =>
    rw [hparse] at hp
    cases hp
    exact Expr.placeholder_mem_of_parse hparse
  | error err =>
    rw [hparse] at hp
    cases hp

/-- **The predicate of a built-in brand mentions the placeholder.** -/
theorem placeholder_mem_builtin (h : builtin.predicate? b = some p) :
    Expr.placeholder ∈ p.names := by
  unfold predicate? familyOf? at h
  split at h
  · rename_i hfind
    cases h
    have hall : ∀ q ∈ builtin.brands, Expr.placeholder ∈ q.2.names := by
      rw [builtin_brands]
      decide
    exact hall _ (Table.mem_of_find? hfind)
  · rw [builtin_families] at h
    obtain ⟨f, hf, hp⟩ := Option.bind_eq_some_iff.1 h
    obtain rfl := List.mem_singleton.1 (List.mem_of_find?_eq_some hf)
    exact placeholder_mem_vector hp

end Catalog

end Discharge
