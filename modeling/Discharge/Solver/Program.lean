import Discharge.File
import Discharge.Smt.Query
import Discharge.Solver.Basic
import Discharge.Text.Lines
import Discharge.Text.Space

/-!
# A solver behind a program

The solver `z3` is a program: asked for its version it has to exit with zero,
and given a query it prints its answer, of which the first line counts.
-/

namespace Discharge

/-- What a program does. -/
structure Program where
  /-- The exit code when asked for the version. -/
  versionExit : UInt8
  /-- What is printed in answer to a query. -/
  reply : String → String

namespace Program

/-- A program, or why there is none to run. -/
abbrev Lookup := Except FileError Program

/-- Start a solver by asking the program for its version. -/
def startUp (binary : String) : Lookup → Except String Unit
  | .error e => .error ("failed to run `" ++ binary ++ " -version`: " ++ e.message)
  | .ok p =>
    if p.versionExit = 0 then .ok ()
    else .error
      ("`" ++ binary ++ " -version` exited with exit status: " ++ toString p.versionExit.toNat)

/-- What an answer means. -/
def verdict (reply : String) : SolverVerdict :=
  match (Text.lines (Text.trim reply)).headD "" with
  | "unsat" => .proven
  | "sat" => .refuted
  | other => .unknown ("solver answered `" ++ other ++ "`")

def answer (binary : String) (program : Lookup) (q : Question) : SolverVerdict :=
  match Smt.Query.ofExprs q.goal q.assumptions with
  | .error e => .unknown e.message
  | .ok query =>
    match program with
    | .error e => .unknown ("failed to spawn " ++ binary ++ ": " ++ e.message)
    | .ok p => verdict (p.reply query.text)

/-- The solver behind a program, in the given state. -/
def solver (binary : String) (program : Lookup) (state : SolverState) : Solver where
  name := "z3"
  state := state
  answer := answer binary program

end Program

end Discharge
