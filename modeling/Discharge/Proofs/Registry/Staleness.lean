import Discharge.Proofs.Contract.Records

/-!
# Stale certificates

A process creates registries, changes them and proves goals under them, in any order
(`Process.step?`). The token of a registry tells it from all others (`Process.Numbered`), and its
generation counts its changes (`Process.registry_run?`). So the stamp of a certificate is the
current one of a registry just when the certificate was made under that registry and it has not been
changed since (`Process.checkStamp_run?`). A certificate that has been read from JSON has no stamp,
and only its generation is compared.
-/

namespace Discharge

/-! ## What a certificate keeps in JSON -/

theorem Json.eq_of_asNat?_nat {bound n m : Nat} (h : asNat? bound (.nat n) = some m) : m = n := by
  have hvalue : Fraction.digitsValue (toString n).toList = n := by
    rw [Nat.toString_eq_ofList_toDigits, String.toList_ofList, Fraction.digitsValue_toDigits]
  simp only [asNat?, nat, hvalue] at h
  split at h
  · exact (Option.some.inj h).symm
  · cases h

namespace Certificate

/-- A certificate that has been written and read again has no stamp and the generation it had. -/
theorem unstamped_of_ofJson?_toJson {c c' : Certificate} (h : ofJson? c.toJson = some c') :
    c'.stamp = none ∧ c'.generation = c.generation := by
  obtain ⟨r, hrecord, h⟩ := Option.bind_eq_some_iff.1 h
  obtain ⟨version, _, h⟩ := Option.bind_eq_some_iff.1 h
  obtain ⟨goal, _, h⟩ := Option.bind_eq_some_iff.1 h
  obtain ⟨digest, _, h⟩ := Option.bind_eq_some_iff.1 h
  obtain ⟨assumptions, _, h⟩ := Option.bind_eq_some_iff.1 h
  obtain ⟨steps, _, h⟩ := Option.bind_eq_some_iff.1 h
  obtain ⟨outcome, _, h⟩ := Option.bind_eq_some_iff.1 h
  obtain ⟨method, _, h⟩ := Option.bind_eq_some_iff.1 h
  obtain ⟨reason, _, h⟩ := Option.bind_eq_some_iff.1 h
  obtain ⟨generation, hgeneration, h⟩ := Option.bind_eq_some_iff.1 h
  cases h
  refine ⟨rfl, ?_⟩
  have hmembers : r.members.lookup "registry_generation" = some (.nat c.generation) := by
    rw [toJson, Json.Record.ofJson?] at hrecord
    split at hrecord
    · cases hrecord
      simp [List.lookup_append, List.lookup_cons, Json.lookup_present]
    · cases hrecord
  rw [Json.Record.required?, hmembers] at hgeneration
  exact Json.eq_of_asNat?_nat hgeneration

theorem checkStamp_of_stamp {c : Certificate} {stamp : Stamp} (h : c.stamp = some stamp)
    (current : Stamp) : c.checkStamp current = .ok () ↔ stamp = current := by
  rw [checkStamp, h, Option.getD_some, Stamp.check]
  split <;> simp [*]

theorem checkStamp_of_no_stamp {c : Certificate} (h : c.stamp = none) (current : Stamp) :
    c.checkStamp current = .ok () ↔ c.generation = current.generation := by
  obtain ⟨token, generation⟩ := current
  rw [checkStamp, h, Option.getD_none, Stamp.check]
  split <;> simp_all

end Certificate

theorem Engine.stamp_of_prove {e : Engine} {goal : Goal} {facts : List Fact}
    {outcome : ProofOutcome} (h : e.prove goal facts = .ok outcome) :
    outcome.certificate.stamp = some e.registry.stamp ∧
      outcome.certificate.generation = e.registry.generation := by
  obtain ⟨_, _, rfl⟩ := (prove_eq_ok goal facts).1 h
  refine ⟨?_, generation_conclude goal facts _⟩
  unfold conclude
  cases Attempt.verdict _ <;> rfl

/-! ## Runs -/

/-- The registries of a process in the order they were created, and the token for the next one. -/
structure Process where
  nextToken : Nat
  registries : List Registry

namespace Process

/-- What a process does with registries. -/
inductive Event where
  /-- A registry is created, with what is built in or empty. -/
  | create (preloaded : Bool)
  | change (place : Nat) (change : Change)
  /-- A goal is proved, or given up, under the registry as it is. -/
  | prove (place : Nat) (config : Config) (solver : Option Solver) (goal : Goal) (facts : List Fact)

/-- A process before any registry; the first token is one. -/
def start : Process := ⟨1, []⟩

def fresh (preloaded : Bool) (token : Nat) : Registry :=
  if preloaded then .builtin token else .empty token

/-- The process after an event. Tokens and generations are words of 64 bits: no registry is created
once the tokens are used up, and none is changed whose generation is the last. Nothing is done with
a registry that has not been created. -/
def step? (p : Process) : Event → Option Process
  | .create preloaded =>
    if p.nextToken ≤ Json.max64 then
      some ⟨p.nextToken + 1, p.registries ++ [fresh preloaded p.nextToken]⟩
    else none
  | .change i c =>
    if p.registries[i]?.any (·.generation < Json.max64) then
      some { p with registries := p.registries.modify i (·.apply c) }
    else none
  | .prove i _ _ _ _ => if i < p.registries.length then some p else none

/-- The process after a run of events. -/
def run? (p : Process) (events : List Event) : Option Process := events.foldlM step? p

/-- The outcome of a proof under a registry of the process. -/
def prove? (p : Process) (i : Nat) (config : Config) (solver : Option Solver) (goal : Goal)
    (facts : List Fact) : Option ProofOutcome := do
  (Engine.prove ⟨← p.registries[i]?, config, solver⟩ goal facts).toOption

/-- The number of changes of a registry among the events. -/
def changes (i : Nat) : List Event → Nat
  | [] => 0
  | .change j _ :: events => (if j = i then 1 else 0) + changes i events
  | _ :: events => changes i events

variable {p q : Process} {event : Event} {events : List Event} {r s : Registry} {i j : Nat}

/-- What an event does. -/
theorem step?_cases (h : p.step? event = some q) :
    (∃ preloaded, event = .create preloaded ∧
      q = ⟨p.nextToken + 1, p.registries ++ [fresh preloaded p.nextToken]⟩) ∨
    (∃ i c r, event = .change i c ∧ p.registries[i]? = some r ∧ r.generation < Json.max64 ∧
      q = { p with registries := p.registries.modify i (·.apply c) }) ∨
    (∃ i config solver goal facts, event = .prove i config solver goal facts ∧
      i < p.registries.length ∧ q = p) := by
  cases event with
  | create preloaded =>
    rw [step?] at h
    split at h
    · exact .inl ⟨preloaded, rfl, (Option.some.inj h).symm⟩
    · cases h
  | change i c =>
    rw [step?] at h
    split at h
    · rename_i hroom
      obtain ⟨r, hr, hroom⟩ := (Option.any_eq_true _ _).1 hroom
      exact .inr (.inl ⟨i, c, r, rfl, hr, of_decide_eq_true hroom, (Option.some.inj h).symm⟩)
    · cases h
  | prove i config solver goal facts =>
    rw [step?] at h
    split at h
    · exact .inr (.inr ⟨i, config, solver, goal, facts, rfl, ‹_›, (Option.some.inj h).symm⟩)
    · cases h

theorem changes_eq_zero_iff : changes i events = 0 ↔ ∀ c, Event.change i c ∉ events := by
  induction events with
  | nil => simp [changes]
  | cons event events ih =>
    cases event with
    | change j c =>
      by_cases h : j = i
      · subst h
        rw [changes, if_pos rfl]
        exact iff_of_false (by omega) fun hnone => hnone c List.mem_cons_self
      · simp [changes, if_neg h, ih, Ne.symm h]
    | create preloaded => simp [changes, ih]
    | prove i config solver goal facts => simp [changes, ih]

/-! ## Tokens -/

/-- Registries have the numbers of their places for tokens, and the next one gets the next
number. -/
structure Numbered (p : Process) : Prop where
  nextToken : p.nextToken = p.registries.length + 1
  token : ∀ i r, p.registries[i]? = some r → r.token = i + 1

theorem numbered_start : start.Numbered where
  nextToken := rfl
  token _ _ h := by cases h

theorem token_fresh (preloaded : Bool) (token : Nat) : (fresh preloaded token).token = token := by
  cases preloaded <;> rfl

theorem token_apply (r : Registry) (c : Change) : (r.apply c).token = r.token := by
  cases c <;> rfl

theorem Numbered.step? (hp : p.Numbered) (h : p.step? event = some q) : q.Numbered := by
  obtain ⟨preloaded, rfl, rfl⟩ | ⟨i, c, _, rfl, _, _, rfl⟩ | ⟨_, _, _, _, _, rfl, _, rfl⟩ :=
    step?_cases h
  · refine ⟨by simp [hp.nextToken], fun j r hr => ?_⟩
    dsimp only at hr
    by_cases hj : j < p.registries.length
    · rw [List.getElem?_append_left hj] at hr
      exact hp.token j r hr
    · rw [List.getElem?_append_right (not_lt.1 hj)] at hr
      obtain ⟨hzero, hfresh⟩ : j - p.registries.length = 0 ∧ fresh preloaded p.nextToken = r := by
        simpa [List.getElem?_singleton] using hr
      rw [← hfresh, token_fresh, hp.nextToken]
      omega
  · refine ⟨by simp [hp.nextToken], fun j r hr => ?_⟩
    dsimp only at hr
    rw [List.getElem?_modify] at hr
    obtain ⟨r', hr', rfl⟩ := Option.map_eq_some_iff.1 hr
    split
    · rw [token_apply]
      exact hp.token j r' hr'
    · exact hp.token j r' hr'
  · exact hp

/-- In every run, registries keep the numbers of their places for tokens. -/
theorem Numbered.run? (hp : p.Numbered) (h : p.run? events = some q) : q.Numbered :=
  foldlM_keeps (fun _ _ _ hb hstep => hb.step? hstep) hp h

/-! ## Generations -/

/-- An event leaves a registry in its place, and raises its generation if it is a change of it. -/
theorem registry_step? (h : p.step? event = some q) (hr : p.registries[i]? = some r) :
    ∃ s, q.registries[i]? = some s ∧ s.generation = r.generation + changes i [event] := by
  obtain ⟨preloaded, rfl, rfl⟩ | ⟨j, c, _, rfl, _, _, rfl⟩ | ⟨_, _, _, _, _, rfl, _, rfl⟩ :=
    step?_cases h
  · obtain ⟨hi, -⟩ := List.getElem?_eq_some_iff.1 hr
    exact ⟨r, (List.getElem?_append_left hi).trans hr, rfl⟩
  · dsimp only
    rw [List.getElem?_modify, hr]
    by_cases hj : j = i
    · exact ⟨r.apply c, by simp [hj], by simp [changes, hj, Registry.apply]⟩
    · exact ⟨r, by simp [hj], by simp [changes, hj]⟩
  · exact ⟨r, hr, rfl⟩

/-- In every run, the generation of a registry grows by the number of its changes. -/
theorem registry_run? (h : p.run? events = some q) (hr : p.registries[i]? = some r) :
    ∃ s, q.registries[i]? = some s ∧ s.generation = r.generation + changes i events := by
  induction events generalizing p r with
  | nil =>
    cases h
    exact ⟨r, hr, rfl⟩
  | cons event events ih =>
    obtain ⟨p', hstep, hrest⟩ := foldlM_cons_eq_some.1 h
    obtain ⟨r', hr', hgeneration⟩ := registry_step? hstep hr
    obtain ⟨s, hs, hgeneration'⟩ := ih hrest hr'
    refine ⟨s, hs, ?_⟩
    rw [hgeneration', hgeneration, add_assoc]
    cases event with
    | change j c => rfl
    | create preloaded => exact congrArg _ (zero_add _)
    | prove j config solver goal facts => exact congrArg _ (zero_add _)

/-! ## Certificates -/

theorem prove?_eq_some {config : Config} {solver : Option Solver} {goal : Goal} {facts : List Fact}
    {outcome : ProofOutcome} :
    p.prove? i config solver goal facts = some outcome ↔
      ∃ r, p.registries[i]? = some r ∧
        Engine.prove ⟨r, config, solver⟩ goal facts = .ok outcome := by
  rw [prove?]
  refine Option.bind_eq_some_iff.trans (exists_congr fun r => and_congr_right fun _ => ?_)
  cases Engine.prove ⟨r, config, solver⟩ goal facts <;> simp [Except.toOption]

/-- **Stale certificates are detected.** After any run, a goal is proved or given up under one of
the registries, and the run goes on. The certificate belongs to the current state of a registry just
when this is the registry it was made under, and no change of it is among the events since. Without
its stamp, which is lost where it is written to JSON and read again, it passes just when the
generation it records is the current one. -/
theorem checkStamp_run? (before after : List Event) (hbefore : start.run? before = some p)
    {config : Config} {solver : Option Solver} {goal : Goal} {facts : List Fact}
    {outcome : ProofOutcome} (hprove : p.prove? i config solver goal facts = some outcome)
    (hafter : p.run? after = some q) (j : Nat) (s : Registry) (hs : q.registries[j]? = some s) :
    (outcome.certificate.checkStamp s.stamp = .ok () ↔
        j = i ∧ ∀ c, Event.change i c ∉ after) ∧
      (outcome.certificate.unstamped.checkStamp s.stamp = .ok () ↔
        outcome.certificate.generation = s.generation) ∧
      ∀ c, Certificate.ofJson? outcome.certificate.toJson = some c →
        (c.checkStamp s.stamp = .ok () ↔ outcome.certificate.generation = s.generation) := by
  obtain ⟨r, hr, hprove⟩ := prove?_eq_some.1 hprove
  obtain ⟨hstamp, _⟩ := Engine.stamp_of_prove hprove
  have hp := numbered_start.run? hbefore
  have htoken : r.token = s.token ↔ j = i := by
    rw [hp.token i r hr, (hp.run? hafter).token j s hs]
    omega
  refine ⟨?_, Certificate.checkStamp_of_no_stamp rfl s.stamp, ?_⟩
  · rw [Certificate.checkStamp_of_stamp hstamp, Registry.stamp, Registry.stamp, Stamp.mk.injEq,
      htoken, ← changes_eq_zero_iff]
    refine and_congr_right fun hj => ?_
    obtain ⟨s', hs', hgeneration⟩ := registry_run? hafter hr
    obtain rfl : s' = s := Option.some.inj (hs'.symm.trans (hj ▸ hs))
    rw [hgeneration, Nat.left_eq_add]
  · intro c hc
    obtain ⟨hnone, hgeneration⟩ := Certificate.unstamped_of_ofJson?_toJson hc
    rw [Certificate.checkStamp_of_no_stamp hnone, hgeneration, Registry.stamp]

/-- Two registries, each changed once. A certificate that is made under the first passes there and
not under the second, until the first is changed again. Read from JSON it passes under the second,
which has the same generation. -/
theorem checkStamp_run?_two_registries :
    let before : List Event :=
      [.create false, .create false, .change 0 .clearRules, .change 1 .clearEdges]
    ∃ p outcome r s r', start.run? before = some p ∧
      p.prove? 0 {} none { condition := .bool true } [] = some outcome ∧
      p.registries = [r, s] ∧ r.apply .clearBrands = r' ∧
      outcome.certificate.checkStamp r.stamp = .ok () ∧
      outcome.certificate.checkStamp s.stamp ≠ .ok () ∧
      outcome.certificate.checkStamp r'.stamp ≠ .ok () ∧
      ∃ c, Certificate.ofJson? outcome.certificate.toJson = some c ∧
        c.checkStamp s.stamp = .ok () ∧ c.checkStamp r'.stamp ≠ .ok () := by
  intro before
  let r := (Registry.empty 1).apply .clearRules
  let s := (Registry.empty 2).apply .clearEdges
  have hbefore : start.run? before = some ⟨3, [r, s]⟩ := rfl
  let e : Engine := ⟨r, {}, none⟩
  let outcome := e.conclude { condition := .bool true } [] (e.search (.bool true) ⟨[], []⟩)
  have hprove : prove? ⟨3, [r, s]⟩ 0 {} none { condition := .bool true } [] = some outcome := rfl
  have hback : Certificate.ofJson? outcome.certificate.toJson =
      some outcome.certificate.unstamped :=
    (Certificate.ofJson?_toJson_iff (by decide) (by decide)).2
      (List.forall_mem_singleton.2 (by cbv))
  have hsame := checkStamp_run? before [] hbefore hprove rfl
  have hchanged := checkStamp_run? before [.change 0 .clearBrands] hbefore hprove rfl
  refine ⟨_, outcome, r, s, r.apply .clearBrands, hbefore, hprove, rfl, rfl, ?_, ?_, ?_,
    outcome.certificate.unstamped, hback, ?_, ?_⟩
  · exact (hsame 0 r rfl).1.2 ⟨rfl, fun c => List.not_mem_nil⟩
  · exact fun h => absurd ((hsame 1 s rfl).1.1 h).1 (by decide)
  · exact fun h => ((hchanged 0 _ rfl).1.1 h).2 _ List.mem_cons_self
  · exact ((hsame 1 s rfl).2.2 _ hback).2 rfl
  · exact fun h => absurd (((hchanged 0 _ rfl).2.2 _ hback).1 h) (by decide)

end Process

end Discharge
