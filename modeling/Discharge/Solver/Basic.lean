import Discharge.Expr.Printer
import Discharge.Text.Quoted

/-!
# External solvers

A solver is started while proofs go on, and is asked only once it is ready.
Starting has two moments: a caller takes the start on, unless the solver is ready
or another caller is starting it, and later settles how the start went. A
solver that failed to start may be started again.
-/

namespace Discharge

/-- How far a solver has come. -/
inductive SolverState where
  | uninitialized
  | initializing
  | ready
  | failed (reason : String)
deriving DecidableEq, Repr

namespace SolverState

def text : SolverState → String
  | .uninitialized => "uninitialized"
  | .initializing => "initializing"
  | .ready => "ready"
  | .failed reason => "failed: " ++ reason

/-- A state as it is shown in diagnostics. -/
def diagnostic : SolverState → String
  | .uninitialized => "Uninitialized"
  | .initializing => "Initializing"
  | .ready => "Ready"
  | .failed reason => "Failed(" ++ Text.quoted reason ++ ")"

/-- Take on the start of a solver that is neither ready nor being started. -/
def acquire? : SolverState → Option SolverState
  | .initializing | .ready => none
  | .uninitialized | .failed _ => some .initializing

/-- The state after a start that went well, or failed for a reason. -/
def settle : Except String Unit → SolverState
  | .ok () => .ready
  | .error reason => .failed reason

end SolverState

/-- How a start goes: to its end, or not within the time it is given. -/
inductive StartUp where
  | done (result : Except String Unit)
  | hanging

/-- The state after an attempt to start a solver. -/
def SolverState.start (s : SolverState) (startUp : StartUp) : SolverState :=
  match s.acquire?, startUp with
  | none, _ => s
  | some _, .done result => settle result
  | some started, .hanging => started

/-- The question whether assumptions entail a goal. -/
structure Question where
  goal : Expr
  assumptions : List Expr
deriving DecidableEq

/-- The answer to a question. -/
inductive SolverVerdict where
  | proven
  | refuted
  | unknown (why : String)
deriving DecidableEq, Repr

/-- A solver with its state and the answers it gives. -/
structure Solver where
  name : String
  state : SolverState
  answer : Question → SolverVerdict

namespace Solver

/-- The solver can be asked. -/
def isReady (s : Solver) : Bool := s.state == .ready

/-- A solver as it is shown in diagnostics. -/
def diagnostic (s : Solver) : String :=
  "SolverHandle \x7b solver: " ++ Text.quoted s.name ++ ", state: " ++ s.state.diagnostic ++ " \x7d"

/-- Ask a solver; one that is not ready is not consulted. -/
def check (s : Solver) (q : Question) : SolverVerdict :=
  if s.isReady then s.answer q
  else .unknown ("solver " ++ s.name ++ " is " ++ s.state.text)

end Solver

end Discharge
