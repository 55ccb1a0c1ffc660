import Discharge.Cli.Actions

/-!
# The command line

Files are read before a call is run and written after it; the call itself is a
function of what was read.
-/

namespace Discharge.Cli

/-- The number of a system error, which may be given with a minus sign. -/
def errorNumber (code : UInt32) : UInt32 := min code (0 - code)

/-- Why the system refused a file. -/
def fileError : IO.Error → FileError
  | .noFileOrDirectory .. => .missing
  | .permissionDenied .. => .denied
  | .inappropriateType _ code _ =>
    if errorNumber code = 21 then .isDirectory else .notDirectory
  | e@(.invalidArgument _ code _) =>
    if errorNumber code = 36 then .nameTooLong else .other (toString e)
  | e => .other (toString e)

/-- The files that a call reads. -/
def Invocation.inputs (i : Invocation) : List String :=
  match i.action with
  | .prove .. => i.options.config.toList
  | .check input .. => i.options.config.toList ++ [input]
  | .widen .. | .brands _ => []

/-- The result of an operation on a file, or why it was refused. -/
def attempt {α : Type} (operation : IO α) : IO (Except FileError α) := do
  try return .ok (← operation) catch e => return .error (fileError e)

/-- Run a call on the files of the system. -/
def Invocation.perform (i : Invocation) : IO UInt32 := do
  let texts ← i.inputs.mapM fun (path : String) => do
    return (path, ← attempt (IO.FS.readFile path))
  let report := i.run {
    read := fun path => (texts.lookup path).getD (.error .missing)
    program := fun _ => .error .missing }
  let report ← match report.save with
    | none => pure report
    | some (path, text) => do
      pure (report.saved path (← attempt (IO.FS.writeFile path text)))
  IO.print report.stdout
  IO.eprint report.remarks
  return report.exitCode.toUInt32

end Discharge.Cli

def main (args : List String) : IO UInt32 := do
  match Discharge.Cli.Request.ofArgs args with
  | .run invocation => invocation.perform
  | .shown text =>
    IO.print text
    return 0
  | .refused =>
    IO.eprintln "error: unexpected arguments\n\nFor more information, try '--help'."
    return 2
