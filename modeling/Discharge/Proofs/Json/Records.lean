import Discharge.Contract.Basic
import Discharge.Proofs.Checked
import Discharge.Proofs.Fraction.Decimal
import Mathlib

/-!
# Reading records back

Expressions are stored as their texts. A record that has been written is therefore read back just
when each expression in it is (`DecisionRecord.ofJson?_toJson_iff`); everything else in it survives,
apart from the stamp, which is not written.
-/

namespace Discharge

namespace Json

variable {α : Type} {key : String} {ms : List (String × Json)}

/-! ## Values -/

theorem asNat?_nat {bound n : Nat} (h : n ≤ bound) : asNat? bound (.nat n) = some n := by
  have hdigits : (Nat.toDigits 10 n).all Char.isDigit = true :=
    List.all_eq_true.2 (Fraction.digits_toDigits n)
  simp [asNat?, nat, hdigits, Fraction.digitsValue_toDigits, h]

theorem asExpr?_text {e : Expr} : asExpr? (.str e.text) = some e ↔ Expr.parse e.text = .ok e := by
  rw [asExpr?]
  cases Expr.parse e.text with
  | ok e' => simp [Except.toOption]
  | error err => simp [Except.toOption]

theorem asList?_map {f : Json → Option α} {g : α → Json} {as : List α} :
    asList? f (.arr (as.map g)) = some as ↔ ∀ a ∈ as, f (g a) = some a := by
  rw [asList?, mapM_eq_some, List.forall₂_map_left_iff, List.forall₂_same]

/-! ## Members -/

/-- The members are known ones, in their order, some perhaps left out. -/
theorem ofJson?_obj {fields : List String} (hfields : fields.Nodup)
    (h : (ms.map (·.1)).Sublist fields) : Record.ofJson? fields (.obj ms) = some ⟨ms⟩ := by
  refine if_pos (List.all_eq_true.2 fun key _ => decide_eq_true ?_)
  have hcount := List.nodup_iff_count_le_one.1 (hfields.sublist h) key
  rwa [List.count, List.countP_map, List.countP_eq_length_filter] at hcount

theorem lookup_present {f : α → Json} {o : Option α} (other : String) :
    (present key f o).lookup other = if other = key then o.map f else none := by
  cases o with
  | none => simp [present]
  | some a =>
    by_cases h : other = key
    · simp [present, h]
    · simp [present, h, List.lookup_cons, beq_false_of_ne h]

/-- A list that is left out when it is empty. -/
def listed (f : α → Json) (as : List α) : Option Json :=
  if as = [] then none else some (.arr (as.map f))

theorem lookup_nonempty {f : α → Json} {as : List α} (other : String) :
    (nonempty key f as).lookup other = if other = key then listed f as else none := by
  cases as with
  | nil => simp [nonempty, listed]
  | cons a as =>
    by_cases h : other = key
    · simp [nonempty, listed, h]
    · simp [nonempty, h, List.lookup_cons, beq_false_of_ne h]

theorem withDefault?_eq (r : Record) (f : Json → Option α) (default : α) :
    r.withDefault? key f default = ((r.members.lookup key).map f).getD (some default) := by
  unfold Record.withDefault?
  cases r.members.lookup key <;> rfl

theorem getD_listed {f : Json → Option α} {g : α → Json} {as : List α} :
    ((listed g as).map (asList? f)).getD (some []) = some as ↔ ∀ a ∈ as, f (g a) = some a := by
  unfold listed
  split
  · rename_i h
    simp [h]
  · exact asList?_map

theorem getD_present {f : Json → Option α} {g : α → Json} {o : Option α}
    (h : ∀ a, asOption? f (g a) = some (some a)) :
    ((o.map g).map (asOption? f)).getD (some none) = some o := by
  cases o with
  | none => rfl
  | some a => exact h a

theorem keys_present {f : α → Json} {o : Option α} :
    ((present key f o).map (·.1)).Sublist [key] := by
  cases o with
  | none => exact List.nil_sublist _
  | some a => exact List.Sublist.refl _

theorem keys_nonempty {f : α → Json} {as : List α} :
    ((nonempty key f as).map (·.1)).Sublist [key] := by
  cases as with
  | nil => exact List.nil_sublist _
  | cons a as => exact List.Sublist.refl _

end Json

theorem Fact.ofJson?_toJson_iff {f : Fact} :
    ofJson? f.toJson = some f ↔ Expr.parse f.predicate.text = .ok f.predicate := by
  obtain ⟨x, p⟩ := f
  rw [ofJson?, toJson, Json.ofJson?_obj (by decide), ← Json.asExpr?_text]
  · simp [Json.Record.required?, List.lookup_cons, Json.asText?, Option.bind_eq_some_iff]
  · exact .refl _

/-- The expressions that a step stores. -/
def Step.exprs (s : Step) : List Expr := s.usedFacts.map (·.predicate) ++ s.subgoals

theorem Status.ofJson?_text (s : Status) : ofJson? (.str s.text) = some s := by
  cases s <;> rfl

theorem Step.ofJson?_toJson_iff {s : Step} :
    ofJson? s.toJson = some s ↔ ∀ e ∈ s.exprs, Expr.parse e.text = .ok e := by
  obtain ⟨rule, description, justification, used, subgoals, status⟩ := s
  rw [ofJson?, toJson, Json.ofJson?_obj (by decide)]
  · simp [Json.Record.required?, Json.withDefault?_eq, List.lookup_cons, Json.asText?,
      List.lookup_append, Json.lookup_nonempty, Option.bind_eq_some_iff, Json.getD_listed,
      Fact.ofJson?_toJson_iff, Json.asExpr?_text, Status.ofJson?_text, exprs, or_imp, forall_and]
  · simp only [List.map_append]
    exact (((List.Sublist.refl ["rule", "description", "justification"]).append
      Json.keys_nonempty).append Json.keys_nonempty).append (.refl ["status"])

theorem Outcome.ofJson?_text (o : Outcome) : ofJson? (.str o.text) = some o := by
  cases o <;> rfl

theorem Method.ofJson?_text (m : Method) : ofJson? (.str m.text) = some m := by
  cases m <;> rfl

namespace Certificate

/-- The expressions that a certificate stores. -/
def exprs (c : Certificate) : List Expr :=
  c.goal :: (c.assumptions.map (·.predicate) ++ c.steps.flatMap Step.exprs)

/-- The certificate as it is read back, without its stamp. -/
def unstamped (c : Certificate) : Certificate := { c with stamp := none }

theorem ofJson?_toJson_iff {c : Certificate} (hversion : c.version ≤ Json.max32)
    (hgeneration : c.generation ≤ Json.max64) :
    ofJson? c.toJson = some c.unstamped ↔ ∀ e ∈ c.exprs, Expr.parse e.text = .ok e := by
  obtain ⟨version, goal, digest, assumptions, steps, outcome, method, reason, generation, _⟩ := c
  rw [ofJson?, toJson, Json.ofJson?_obj (by decide)]
  · have hmethod : ∀ m, Json.asOption? Method.ofJson? (.str (Method.text m)) = some (some m) :=
      fun m => congrArg (Option.map some) m.ofJson?_text
    have hreason : ∀ t, Json.asOption? Json.asText? (.str t) = some (some t) := fun t => rfl
    simp [Json.Record.required?, Json.withDefault?_eq, List.lookup_cons, Json.asText?,
      List.lookup_append, Json.lookup_present, Option.bind_eq_some_iff, Json.getD_present, hmethod,
      hreason, Json.asNat?_nat hversion, Json.asNat?_nat hgeneration,
      Json.asList?_map, Step.ofJson?_toJson_iff, unstamped, -Option.map_map,
      Fact.ofJson?_toJson_iff, Json.asExpr?_text, Outcome.ofJson?_text, exprs,
      List.forall_mem_append, List.forall_mem_flatMap, -List.mem_append, -List.mem_flatMap]
  · simp only [List.map_append]
    exact (((List.Sublist.refl ["version", "goal", "goal_digest", "assumptions", "steps",
      "outcome"]).append Json.keys_present).append Json.keys_present).append
      (.refl ["registry_generation"])

end Certificate

theorem WarningKind.ofJson?_text (k : WarningKind) : ofJson? (.str k.text) = some k := by
  cases k <;> rfl

theorem ConditionKind.ofJson?_text (k : ConditionKind) : ofJson? (.str k.text) = some k := by
  cases k <;> rfl

theorem Decision.ofJson?_text (d : Decision) : ofJson? (.str d.text) = some d := by
  cases d <;> rfl

theorem Warning.ofJson?_toJson (w : Warning) : ofJson? w.toJson = some w := by
  obtain ⟨kind, brand, message, certificate⟩ := w
  rw [ofJson?, toJson, Json.ofJson?_obj (by decide)]
  · have htext : ∀ t, Json.asOption? Json.asText? (.str t) = some (some t) := fun t => rfl
    simp [Json.Record.required?, Json.withDefault?_eq, List.lookup_cons, Json.asText?,
      List.lookup_append, Json.lookup_present, Json.getD_present htext, WarningKind.ofJson?_text,
      -Option.map_map]
  · simp only [List.map_append]
    exact (((List.Sublist.refl ["kind"]).append Json.keys_present).append
      (.refl ["message"])).append Json.keys_present

namespace DecisionRecord

/-- The expressions that a record stores. -/
def exprs (r : DecisionRecord) : List Expr := r.goal :: r.certificate.exprs

/-- The record as it is read back, without the stamp of its certificate. -/
def unstamped (r : DecisionRecord) : DecisionRecord :=
  { r with certificate := r.certificate.unstamped }

/-- **A record is read back just when the expressions in it are.** -/
theorem ofJson?_toJson_iff {r : DecisionRecord} (hversion : r.certificate.version ≤ Json.max32)
    (hgeneration : r.certificate.generation ≤ Json.max64) :
    ofJson? r.toJson = some r.unstamped ↔ ∀ e ∈ r.exprs, Expr.parse e.text = .ok e := by
  obtain ⟨function, kind, goal, digest, decision, certificate, warnings⟩ := r
  rw [ofJson?, toJson, Json.ofJson?_obj (by decide)]
  · simp [Json.Record.required?, Json.withDefault?_eq, List.lookup_cons, Json.asText?,
      Json.lookup_nonempty, Option.bind_eq_some_iff, Json.getD_listed, Json.asExpr?_text,
      ConditionKind.ofJson?_text, Decision.ofJson?_text,
      Certificate.ofJson?_toJson_iff hversion hgeneration, Warning.ofJson?_toJson, exprs, unstamped]
  · simp only [List.map_append]
    exact (List.Sublist.refl ["function", "kind", "goal", "goal_digest", "decision",
      "certificate"]).append Json.keys_nonempty

end DecisionRecord

end Discharge
