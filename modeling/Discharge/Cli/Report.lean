import Discharge.File

/-!
# What a run leaves behind

A run writes lines for the user and remarks on what it does, may hand over one
file to be saved, and may fail; a failure names what failed and then its causes.
-/

namespace Discharge.Cli

/-- What failed, and its causes, the nearest first. -/
structure Failure where
  message : String
  causes : List String := []
deriving DecidableEq, Repr

namespace Failure

/-- A cause under a heading: its first line after a mark, the others below it. -/
def causeText (mark below text : String) : String :=
  mark ++ ("\n" ++ below).intercalate ((text.splitOn "\n"))

/-- A failure as it is shown. -/
def text (f : Failure) : String :=
  let causes := match f.causes with
    | [] => []
    | [cause] => ["", "Caused by:", causeText "    " "    " cause]
    | causes => ["", "Caused by:"] ++ causes.zipIdx.map fun (cause, i) =>
        let number := toString i
        causeText ("".pushn ' ' (5 - number.length) ++ number ++ ": ") "       " cause
  "\n".intercalate (("Error: " ++ f.message) :: causes) ++ "\n"

end Failure

/-- What a run leaves behind. -/
structure Report where
  stdout : String := ""
  stderr : String := ""
  /-- A file to save, with what it is to hold. -/
  save : Option (String × String) := none
  failure : Option Failure := none
deriving DecidableEq, Repr

namespace Report

/-- The report after the attempt to save the file. A file that cannot be saved
is the failure of the run. -/
def saved (r : Report) (path : String) : Except FileError Unit → Report
  | .ok () => { r with stderr := r.stderr ++ "wrote " ++ path ++ "\n", save := none }
  | .error e =>
    { r with save := none, failure := some ⟨"failed to write " ++ path, [e.message]⟩ }

def exitCode (r : Report) : Nat := if r.failure.isSome then 1 else 0

/-- All remarks, with the failure last. -/
def remarks (r : Report) : String :=
  r.stderr ++ (r.failure.map Failure.text).getD ""

end Report

/-- A run that writes a report and may fail. -/
abbrev Run := ExceptT Failure (StateM Report)

namespace Run

/-- Write a line for the user. -/
def say (line : String) : Run Unit := modify fun r => { r with stdout := r.stdout ++ line ++ "\n" }

/-- Write a text for the user. -/
def write (text : String) : Run Unit := modify fun r => { r with stdout := r.stdout ++ text }

def remark (line : String) : Run Unit :=
  modify fun r => { r with stderr := r.stderr ++ line ++ "\n" }

/-- Hand over a file to be saved. -/
def save (path text : String) : Run Unit := modify fun r => { r with save := some (path, text) }

def fail {α : Type} (message : String) (causes : List String) : Run α :=
  throw ⟨message, causes⟩

def report (run : Run Unit) : Report :=
  match run.run {} with
  | (.ok (), r) => r
  | (.error f, r) => { r with failure := some f }

end Run

end Discharge.Cli
