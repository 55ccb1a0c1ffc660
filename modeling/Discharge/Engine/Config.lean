import Discharge.Json.Decode

/-!
# Settings of the engine
-/

namespace Discharge

/-- Which strategies run, and how far. -/
structure Config where
  /-- Try linear proofs by shape. -/
  fastPath : Bool := true
  /-- Try linear proofs by refutation. -/
  fourierMotzkin : Bool := true
  /-- The most rows that a refutation may use. -/
  maxRows : Nat := 512
  /-- Warn when a compile-time brand needs a runtime check. -/
  warnOnFallback : Bool := true
  /-- Ask the solver, if one is attached. -/
  useSolver : Bool := true
deriving DecidableEq, Repr

namespace Config

/-- The settings as a JSON object. -/
def toJson (c : Config) : Json :=
  .obj [("enable_fast_path", .bool c.fastPath),
    ("enable_fourier_motzkin", .bool c.fourierMotzkin), ("max_fm_constraints", .nat c.maxRows),
    ("warn_on_compile_time_fallback", .bool c.warnOnFallback),
    ("use_external_solver", .bool c.useSolver)]

/-- The settings that a JSON value holds; what is absent keeps its default. -/
def ofJson? (j : Json) : Option Config := do
  let r ← Json.Record.ofJson? ["enable_fast_path", "enable_fourier_motzkin",
    "max_fm_constraints", "warn_on_compile_time_fallback", "use_external_solver"] j
  return {
    fastPath := ← r.withDefault? "enable_fast_path" Json.asBool? true
    fourierMotzkin := ← r.withDefault? "enable_fourier_motzkin" Json.asBool? true
    maxRows := ← r.withDefault? "max_fm_constraints" (Json.asNat? Json.max64) 512
    warnOnFallback := ← r.withDefault? "warn_on_compile_time_fallback" Json.asBool? true
    useSolver := ← r.withDefault? "use_external_solver" Json.asBool? true }

/-- The settings that a JSON text holds. -/
def parse? (text : String) : Option Config := do
  ofJson? (← Json.parse? text)

/-- The message for a text that holds no settings. -/
def invalid : String := "invalid engine configuration"

end Config

end Discharge
