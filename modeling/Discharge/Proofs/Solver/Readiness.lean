import Discharge.Engine.Basic
import Discharge.Proofs.Checked
import Mathlib

/-!
# Readiness of a shared solver

Callers that start a solver and engines that question it share its state. A start takes two steps,
of which either is atomic: a caller takes the start on, and later settles how it went. So does a
question: the state is looked at, and if the solver was found ready, the question reaches it some
time later. `SharedSolver.step?` lets these steps of any number of callers and engines come in any
order.

The invariant (`SharedSolver.Consistent`) is that one caller is starting the solver while it is
initializing, and none at any other time, and that questions are under way only to a solver that is
ready. What follows for a run is in `SharedSolver.readiness`.
-/

namespace Discharge

namespace SolverState

theorem acquire?_eq_some {s t : SolverState} :
    s.acquire? = some t ↔ s ≠ .initializing ∧ s ≠ .ready ∧ t = .initializing := by
  cases s <;> simp [acquire?, eq_comm]

theorem acquire?_eq_none {s : SolverState} :
    s.acquire? = none ↔ s = .initializing ∨ s = .ready := by
  cases s <;> simp [acquire?]

theorem settle_ne_initializing (result : Except String Unit) : settle result ≠ .initializing := by
  cases result <;> simp [settle]

theorem start_hanging {s t : SolverState} (h : s.acquire? = some t) : s.start .hanging = t := by
  simp [start, h]

theorem start_done {s t : SolverState} (h : s.acquire? = some t) (result : Except String Unit) :
    s.start (.done result) = settle result := by
  simp [start, h]

theorem start_of_acquire?_eq_none {s : SolverState} (h : s.acquire? = none) (startUp : StartUp) :
    s.start startUp = s := by
  simp [start, h]

end SolverState

/-- A solver, with what callers and engines are about to do with it and have done. -/
structure SharedSolver where
  solver : Solver
  /-- The callers that have taken a start on and not settled it. -/
  starting : List Nat
  /-- The questions that found the solver ready and have not reached it. -/
  underWay : List Question
  /-- How often the solver has been started. -/
  starts : Nat
  /-- The questions that have reached the solver, the last one first. -/
  asked : List Question

namespace SharedSolver

/-- An atomic step of a caller or an engine. -/
inductive Event where
  /-- A caller takes a start on, unless the solver is ready or being started. -/
  | acquire (caller : Nat)
  /-- A caller settles how the start went that it had taken on. -/
  | settle (caller : Nat) (result : Except String Unit)
  /-- The state is looked at for a question. -/
  | look (question : Question)
  /-- A question reaches the solver. -/
  | reach (question : Question)

/-- A solver that has not been started. -/
def new (name : String) (answer : Question → SolverVerdict) : SharedSolver :=
  ⟨⟨name, .uninitialized, answer⟩, [], [], 0, []⟩

/-- The state of the solver. -/
def state (h : SharedSolver) : SolverState := h.solver.state

/-- The solver in another state. -/
def withState (h : SharedSolver) (s : SolverState) : SharedSolver :=
  { h with solver := { h.solver with state := s } }

/-- The shared solver after a step, if it is one that can be taken. -/
def step? (h : SharedSolver) : Event → Option SharedSolver
  | .acquire c =>
    match h.state.acquire? with
    | some s => some { h.withState s with starting := c :: h.starting, starts := h.starts + 1 }
    | none => some h
  | .settle c result =>
    if c ∈ h.starting then
      some { h.withState (.settle result) with starting := h.starting.erase c }
    else none
  | .look q => some (if h.solver.isReady then { h with underWay := q :: h.underWay } else h)
  | .reach q =>
    if q ∈ h.underWay then
      some { h with underWay := h.underWay.erase q, asked := q :: h.asked }
    else none

/-- The shared solver after a run of steps. -/
def run? (h : SharedSolver) (events : List Event) : Option SharedSolver := events.foldlM step? h

variable {h k : SharedSolver} {event : Event} {events : List Event}

/-- What a step does. -/
theorem step?_cases (hstep : h.step? event = some k) :
    (∃ c, event = .acquire c ∧ h.state ≠ .initializing ∧ h.state ≠ .ready ∧
      k = { h.withState .initializing with starting := c :: h.starting, starts := h.starts + 1 }) ∨
    (∃ c, event = .acquire c ∧ (h.state = .initializing ∨ h.state = .ready) ∧ k = h) ∨
    (∃ c result, event = .settle c result ∧ c ∈ h.starting ∧
      k = { h.withState (.settle result) with starting := h.starting.erase c }) ∨
    (∃ q, event = .look q ∧ h.state = .ready ∧ k = { h with underWay := q :: h.underWay }) ∨
    (∃ q, event = .look q ∧ h.state ≠ .ready ∧ k = h) ∨
    (∃ q, event = .reach q ∧ q ∈ h.underWay ∧
      k = { h with underWay := h.underWay.erase q, asked := q :: h.asked }) := by
  cases event with
  | acquire c =>
    rw [step?] at hstep
    split at hstep
    · rename_i s hs
      obtain ⟨hinit, hready, rfl⟩ := SolverState.acquire?_eq_some.1 hs
      exact .inl ⟨c, rfl, hinit, hready, (Option.some.inj hstep).symm⟩
    · rename_i hs
      exact .inr (.inl ⟨c, rfl, SolverState.acquire?_eq_none.1 hs, (Option.some.inj hstep).symm⟩)
  | settle c result =>
    rw [step?] at hstep
    split at hstep
    · rename_i hc
      exact .inr (.inr (.inl ⟨c, result, rfl, hc, (Option.some.inj hstep).symm⟩))
    · cases hstep
  | look q =>
    have heq := (Option.some.inj hstep).symm
    split at heq
    · rename_i hready
      exact .inr (.inr (.inr (.inl ⟨q, rfl, eq_of_beq hready, heq⟩)))
    · rename_i hready
      exact .inr (.inr (.inr (.inr (.inl ⟨q, rfl, fun hs => hready (beq_iff_eq.2 hs), heq⟩))))
  | reach q =>
    rw [step?] at hstep
    split at hstep
    · rename_i hq
      exact .inr (.inr (.inr (.inr (.inr ⟨q, rfl, hq, (Option.some.inj hstep).symm⟩))))
    · cases hstep

/-! ## The invariant -/

/-- One caller is starting the solver while it is initializing and none at any other time, and
questions are under way only to a solver that is ready. -/
structure Consistent (h : SharedSolver) : Prop where
  starting : h.starting.length = if h.state = .initializing then 1 else 0
  underWay : ∀ q ∈ h.underWay, h.state = .ready

theorem consistent_new (name : String) (answer : Question → SolverVerdict) :
    (new name answer).Consistent where
  starting := rfl
  underWay := List.forall_mem_nil _

namespace Consistent

theorem initializing_iff (hh : h.Consistent) : h.state = .initializing ↔ ∃ c, c ∈ h.starting := by
  rw [← List.length_pos_iff_exists_mem, hh.starting]
  split <;> simp [*]

/-- The caller that settles a start is the only one that has taken it on. -/
theorem starting_eq (hh : h.Consistent) {c : Nat} (hc : c ∈ h.starting) : h.starting = [c] := by
  have hlength := hh.starting
  rw [if_pos (hh.initializing_iff.2 ⟨c, hc⟩)] at hlength
  obtain ⟨d, hd⟩ := List.length_eq_one_iff.1 hlength
  rw [hd] at hc ⊢
  rw [List.mem_singleton.1 hc]

/-- Nothing is under way to a solver that is not ready. -/
theorem underWay_eq_nil (hh : h.Consistent) (hready : h.state ≠ .ready) : h.underWay = [] :=
  List.eq_nil_iff_forall_not_mem.2 fun q hq => hready (hh.underWay q hq)

theorem step? (hh : h.Consistent) (hstep : h.step? event = some k) : k.Consistent := by
  obtain ⟨c, rfl, hinit, hready, rfl⟩ | ⟨c, rfl, _, rfl⟩ | ⟨c, result, rfl, hc, rfl⟩ |
    ⟨q, rfl, hready, rfl⟩ | ⟨q, rfl, _, rfl⟩ | ⟨q, rfl, _, rfl⟩ := step?_cases hstep
  · have hnone : h.starting.length = 0 := by rw [hh.starting, if_neg hinit]
    refine ⟨?_, ?_⟩
    · rw [List.length_cons, hnone]
      rfl
    · dsimp only [withState]
      rw [hh.underWay_eq_nil hready]
      exact List.forall_mem_nil _
  · exact hh
  · have hinit := hh.initializing_iff.2 ⟨c, hc⟩
    refine ⟨?_, ?_⟩
    · rw [hh.starting_eq hc, List.erase_cons_head]
      exact (if_neg (SolverState.settle_ne_initializing result)).symm
    · dsimp only [withState]
      rw [hh.underWay_eq_nil (by rw [hinit]; decide)]
      exact List.forall_mem_nil _
  · exact ⟨hh.starting, fun _ _ => hready⟩
  · exact hh
  · exact ⟨hh.starting, fun p hp => hh.underWay p (List.mem_of_mem_erase hp)⟩

/-- The invariant holds in every run. -/
theorem run? (hh : h.Consistent) (hrun : h.run? events = some k) : k.Consistent :=
  foldlM_keeps (fun _ _ _ hb hstep => hb.step? hstep) hh hrun

/-! ## What steps do to a solver that is ready, or has failed -/

theorem ready_step? (hh : h.Consistent) (hready : h.state = .ready)
    (hstep : h.step? event = some k) : k.state = .ready ∧ k.starts = h.starts := by
  obtain ⟨c, rfl, _, hne, rfl⟩ | ⟨c, rfl, _, rfl⟩ | ⟨c, result, rfl, hc, rfl⟩ |
    ⟨q, rfl, _, rfl⟩ | ⟨q, rfl, _, rfl⟩ | ⟨q, rfl, _, rfl⟩ := step?_cases hstep
  · exact absurd hready hne
  · exact ⟨hready, rfl⟩
  · -- No caller is left that could settle anything.
    have hinit := hh.initializing_iff.2 ⟨c, hc⟩
    rw [hready] at hinit
    cases hinit
  · exact ⟨hready, rfl⟩
  · exact ⟨hready, rfl⟩
  · exact ⟨hready, rfl⟩

/-- A solver that is ready stays so and is not started again, however the run goes on. -/
theorem ready_run? (hh : h.Consistent) (hready : h.state = .ready) (hrun : h.run? events = some k) :
    k.state = .ready ∧ k.starts = h.starts := by
  let P (l : SharedSolver) : Prop := l.Consistent ∧ l.state = .ready ∧ l.starts = h.starts
  have hkeeps : ∀ event b c, P b → b.step? event = some c → P c := by
    rintro event b c ⟨hb, hready, hstarts⟩ hstep
    obtain ⟨hready', hstarts'⟩ := hb.ready_step? hready hstep
    exact ⟨hb.step? hstep, hready', hstarts'.trans hstarts⟩
  exact (foldlM_keeps hkeeps ⟨hh, hready, rfl⟩ hrun).2

theorem failed_step? (hh : h.Consistent) {reason : String} (hfailed : h.state = .failed reason)
    (hstep : h.step? event = some k) :
    k.state = .failed reason ∨ ∃ c, event = .acquire c ∧ k.state = .initializing := by
  obtain ⟨c, rfl, _, _, rfl⟩ | ⟨c, rfl, _, rfl⟩ | ⟨c, result, rfl, hc, rfl⟩ |
    ⟨q, rfl, _, rfl⟩ | ⟨q, rfl, _, rfl⟩ | ⟨q, rfl, _, rfl⟩ := step?_cases hstep
  · exact .inr ⟨c, rfl, rfl⟩
  · exact .inl hfailed
  · have hinit := hh.initializing_iff.2 ⟨c, hc⟩
    rw [hfailed] at hinit
    cases hinit
  · exact .inl hfailed
  · exact .inl hfailed
  · exact .inl hfailed

/-- Whoever asks takes a start on that is to be had, and can settle it as it went. -/
theorem exists_start (hh : h.Consistent) (c : Nat) :
    ∃ k, h.step? (.acquire c) = some k ∧ k.state = h.state.start .hanging ∧
      (h.state ≠ .ready → h.starting = [] → k.starting = [c] ∧
        ∀ result, ∃ l, k.step? (.settle c result) = some l ∧
          l.state = h.state.start (.done result)) := by
  cases hs : h.state.acquire? with
  | none =>
    refine ⟨h, by rw [SharedSolver.step?, hs], (SolverState.start_of_acquire?_eq_none hs _).symm,
      fun hready hnone => ?_⟩
    -- The solver would be initializing, and some caller would be starting it.
    have hinit := (SolverState.acquire?_eq_none.1 hs).resolve_right hready
    obtain ⟨d, hd⟩ := hh.initializing_iff.1 hinit
    rw [hnone] at hd
    cases hd
  | some s =>
    have hstep : h.step? (.acquire c) =
        some { h.withState s with starting := c :: h.starting, starts := h.starts + 1 } := by
      rw [SharedSolver.step?, hs]
    refine ⟨_, hstep, (SolverState.start_hanging hs).symm,
      fun _ hnone => ⟨congrArg (c :: ·) hnone, fun result => ?_⟩⟩
    exact ⟨_, if_pos List.mem_cons_self, (SolverState.start_done hs result).symm⟩

end Consistent

end SharedSolver

/-! ## Questions -/

/-- A solver that is not ready is not consulted: what it would answer makes no difference. -/
theorem Solver.check_of_not_ready {s : Solver} (h : s.state ≠ .ready)
    (answer : Question → SolverVerdict) (q : Question) :
    { s with answer := answer }.check q = s.check q := by
  have hready : ¬ s.isReady = true := fun hready => h (eq_of_beq hready)
  exact (if_neg hready).trans (if_neg hready).symm

theorem Solver.check_of_ready {s : Solver} (h : s.state = .ready) (q : Question) :
    s.check q = s.answer q :=
  if_pos (beq_iff_eq.2 h)

theorem Engine.ready_of_asked {e : Engine} {s : Solver} (hs : e.solver = some s) {goal : Expr}
    {known : Known} (h : (e.runSolver goal known).2 ≠ []) : s.state = .ready := by
  unfold runSolver at h
  rw [hs] at h
  split at h
  · exact absurd rfl h
  · rename_i s' hs'
    split at hs'
    · cases hs'
      split at h
      · rename_i hready
        exact eq_of_beq hready
      · exact absurd rfl h
    · cases hs'

namespace SharedSolver

/-- **A shared solver is started by one caller at a time, and asked only when it is ready.** Let
callers start a solver and engines question it, in any order of their steps. Then at most one caller
is between its two steps, and the solver is initializing just while one is. Once it is ready it
stays so and is not started again. After a failure it is left as it is until a caller takes a new
start on. A question reaches it only while it is ready, whether the question was put directly or by
an engine, and otherwise what it would answer makes no difference. A start that is to be had is
taken on by whoever asks, and goes as the backend's start does. -/
theorem readiness (name : String) (answer : Question → SolverVerdict) (before after : List Event)
    {h k : SharedSolver} (hbefore : (new name answer).run? before = some h)
    (hafter : h.run? after = some k) :
    h.starting.length ≤ 1 ∧
    (h.state = .initializing ↔ ∃ c, c ∈ h.starting) ∧
    (h.state = .ready → k.state = .ready ∧ k.starts = h.starts) ∧
    (∀ event h' reason, h.state = .failed reason → h.step? event = some h' →
      h'.state = .failed reason ∨ ∃ c, event = .acquire c ∧ h'.state = .initializing) ∧
    (∀ q h', h.step? (.reach q) = some h' →
      h.state = .ready ∧ h.solver.check q = h.solver.answer q) ∧
    (∀ q other, h.state ≠ .ready → { h.solver with answer := other }.check q = h.solver.check q) ∧
    (∀ (e : Engine) goal known, e.solver = some h.solver → (e.runSolver goal known).2 ≠ [] →
      h.state = .ready) ∧
    ∀ c, ∃ h', h.step? (.acquire c) = some h' ∧ h'.state = h.state.start .hanging ∧
      (h.state ≠ .ready → h.starting = [] → h'.starting = [c] ∧
        ∀ result, ∃ h'', h'.step? (.settle c result) = some h'' ∧
          h''.state = h.state.start (.done result)) := by
  have hh := (consistent_new name answer).run? hbefore
  refine ⟨?_, hh.initializing_iff, fun hready => hh.ready_run? hready hafter,
    fun event h' reason hfailed hstep => hh.failed_step? hfailed hstep, fun q h' hstep => ?_,
    fun q other hready => Solver.check_of_not_ready hready other q,
    fun e goal known hs hasked => Engine.ready_of_asked hs hasked, hh.exists_start⟩
  · rw [hh.starting]
    split <;> decide
  · rw [step?] at hstep
    split at hstep
    · rename_i hq
      exact ⟨hh.underWay q hq, Solver.check_of_ready (hh.underWay q hq) q⟩
    · cases hstep

/-- Two callers: the first start fails, the second goes well, and a question gets through. A third
caller changes nothing. -/
theorem readiness_retry :
    let q : Question := ⟨.var "x", []⟩
    let before : List Event := [.acquire 1, .acquire 2, .settle 1 (.error "busy"), .look q,
      .acquire 2, .settle 2 (.ok ()), .look q]
    let after : List Event := [.acquire 3, .reach q]
    ∃ h k, (new "stub" fun _ => .proven).run? before = some h ∧ h.run? after = some k ∧
      h.state = .ready ∧ k.state = .ready ∧ h.starts = 2 ∧ k.starts = 2 ∧ k.asked = [q] := by
  intro q before after
  let h : SharedSolver := ⟨⟨"stub", .ready, fun _ => .proven⟩, [], [q], 2, []⟩
  let k : SharedSolver := ⟨⟨"stub", .ready, fun _ => .proven⟩, [], [], 2, [q]⟩
  have hbefore : (new "stub" fun _ => .proven).run? before = some h := rfl
  have hafter : h.run? after = some k := rfl
  obtain ⟨_, _, hready, _⟩ := readiness "stub" (fun _ => .proven) before after hbefore hafter
  exact ⟨h, k, hbefore, hafter, rfl, (hready rfl).1, rfl, (hready rfl).2, rfl⟩

end SharedSolver

end Discharge
