import Discharge.Cli.Directory
import Discharge.Fraction.Float
import Discharge.Main
import Discharge.Proofs.Fraction.Exact
import Discharge.Proofs.Fraction.Order
import Discharge.Proofs.Linear.Form
import Discharge.Proofs.Linear.Row
import Discharge.Proofs.Linear.Feasibility
import Discharge.Proofs.Linear.Refutation
import Discharge.Proofs.Expr.Canonical
import Discharge.Proofs.Fact.Reading
import Discharge.Proofs.Linear.Shape
import Discharge.Proofs.Reader
import Discharge.Proofs.Expr.Names
import Discharge.Proofs.Expr.NormalForm
import Discharge.Proofs.Linear.Exact
import Discharge.Proofs.Brand.Catalog
import Discharge.Proofs.Brand.Widening
import Discharge.Proofs.Rule.Soundness
import Discharge.Proofs.Linear.Soundness
import Discharge.Proofs.Engine.Soundness
import Discharge.Proofs.Linear.Order
import Discharge.Proofs.Linear.Progress
import Discharge.Proofs.Fact.Retained
import Discharge.Proofs.Rule.Retained
import Discharge.Proofs.Linear.Retained
import Discharge.Proofs.Engine.Strategies
import Discharge.Proofs.Engine.Replay
import Discharge.Proofs.Engine.FactSets
import Discharge.Proofs.Fraction.Decimal
import Discharge.Proofs.Reader.Steps
import Discharge.Proofs.Expr.Tokens
import Discharge.Proofs.Expr.Readable
import Discharge.Proofs.Expr.Levels
import Discharge.Proofs.Expr.RoundTrip
import Discharge.Proofs.Brand.Reachability
import Discharge.Proofs.Registry
import Discharge.Proofs.Engine.Widening
import Discharge.Proofs.Engine.Citations
import Discharge.Proofs.Engine.Settings
import Discharge.Proofs.Engine.Trace
import Discharge.Proofs.Engine.Faults
import Discharge.Proofs.Registry.Repetition
import Discharge.Proofs.Brand.Expansion
import Discharge.Proofs.Engine.Reflexivity
import Discharge.Proofs.Expr.Printable
import Discharge.Proofs.Expr.Respelling
import Discharge.Proofs.Expr.Spelling
import Discharge.Proofs.Json.Records
import Discharge.Proofs.Brand.Printable
import Discharge.Proofs.Contract.Records
import Discharge.Proofs.Registry.Staleness
import Discharge.Proofs.Solver.Readiness
import Discharge.Proofs.Smt.Reading
import Discharge.Proofs.Smt.Faithful
import Discharge.Proofs.Expr.Digest
import Discharge.Proofs.Fraction.Machine
import Discharge.Proofs.Fraction.Tight
import Discharge.Proofs.Linear.Linearization
import Discharge.Proofs.Fraction.Comparison
import Discharge.Proofs.Fact.Bounds
import Discharge.Proofs.Linear.Rounds
import Discharge.Proofs.Reader.Agreement
import Discharge.Proofs.Expr.Lexemes
import Discharge.Proofs.Expr.LexicalReaders
import Discharge.Proofs.Expr.Cut
import Discharge.Proofs.Expr.Blanks
import Discharge.Proofs.Fraction.Expansion
