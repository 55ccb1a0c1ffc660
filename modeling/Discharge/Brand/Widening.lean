import Discharge.Json.Basic

/-!
# Widening of brands

An edge from one brand to another records that every value of the first is a
value of the second. Brands widen along any number of edges; the search goes
breadth first, so that it finds shortest paths, and follows edges in the order
of the brands they lead to.
-/

namespace Discharge

/-- A widening from one brand to another, with a sketch of its proof. -/
structure Edge where
  source : String
  target : String
  proof : String
  justification : String
deriving DecidableEq

/-- An edge as a JSON object. -/
def Edge.toJson (e : Edge) : Json :=
  .obj [("from", .str e.source), ("to", .str e.target), ("proof", .str e.proof),
    ("justification", .str e.justification)]

/-- Edges sorted by the brands they join, one for each pair. -/
abbrev WideningGraph := List Edge

namespace WideningGraph

/-- The edge comes before another in the order of sources, then of targets. -/
def before (e f : Edge) : Bool :=
  e.source < f.source || (e.source == f.source && e.target < f.target)

/-- Add an edge, or replace the one between the same brands. -/
def insert (e : Edge) : WideningGraph → WideningGraph
  | [] => [e]
  | f :: rest =>
    if e.source = f.source ∧ e.target = f.target then e :: rest
    else if before e f then e :: f :: rest
    else f :: insert e rest

def find? (g : WideningGraph) (source target : String) : Option Edge :=
  List.find? (fun e => e.source == source && e.target == target) g

def builtinEdges : List Edge := [
  ⟨"Positive", "NonNegative", "x > 0 ⇒ x >= 0", "strict lower bound implies non-strict"⟩,
  ⟨"Positive", "NonZero", "x > 0 ⇒ x != 0", "positive values exclude zero"⟩,
  ⟨"Byte", "NonNegative", "0 <= x <= 255 ⇒ x >= 0", "lower bound of the byte range"⟩,
  ⟨"Port", "Positive", "1 <= x <= 65535 ⇒ x > 0", "lower bound of the port range"⟩,
  ⟨"Percentage", "NonNegative", "0 <= x <= 100 ⇒ x >= 0",
    "lower bound of the percentage range"⟩]

/-- The graph of the built-in edges. -/
def builtin : WideningGraph := builtinEdges.foldl (fun g e => insert e g) []

/-- The edges from a brand to live brands that have not been seen. -/
def fresh (g : WideningGraph) (live : String → Bool) (seen : List String) (b : String) :
    List Edge :=
  List.filter (fun e => e.source == b && live e.target && !seen.contains e.target) g

/-- Visit the brands in the queue, at most `n` of them, and those reached from
them. Each brand in the queue comes with the path to it. -/
def explore (g : WideningGraph) (live : String → Bool) :
    Nat → List (String × List Edge) → List String → List (String × List Edge)
  | 0, _, _ => []
  | _, [], _ => []
  | n + 1, (b, path) :: queue, seen =>
    let found := (g.fresh live seen b).map fun e => (e.target, path ++ [e])
    found ++ explore g live n (queue ++ found) (seen ++ found.map (·.1))

/-- The brands other than `b` that it widens to through live brands, nearest
first, each with a shortest path. A brand is visited at most once for each edge
that leads to it. -/
def reachable (g : WideningGraph) (live : String → Bool) (b : String) :
    List (String × List Edge) :=
  if live b then g.explore live (g.length + 1) [(b, [])] [b] else []

/-- A shortest path from one brand to another through live brands; from a brand
to itself it has no edges. -/
def path? (g : WideningGraph) (live : String → Bool) (a b : String) : Option (List Edge) :=
  if a = b then some []
  else ((g.reachable live a).find? (·.1 == b)).map (·.2)

/-- A brand widens to another along edges of the graph. -/
def canWiden (g : WideningGraph) (a b : String) : Bool :=
  (g.path? (fun _ => true) a b).isSome

end WideningGraph

end Discharge
