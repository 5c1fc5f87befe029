import Galerkin.Json.Scaled
import Galerkin.Simulation

/-!
What a simulation reports, as JSON values. Numbers keep eight digits unless the caller asks for fewer.
-/

namespace Galerkin

/-- An array with the usual eight digits, down to the twelfth place behind the point. -/
def Nested.usual (a : Nested) : Json := a.scaled 8 (-12)

def scalarJson (x : Float) : Json := (Nested.leaf x).usual

/-- The size of a residual, which is small when all is well. -/
def residualJson (a : Nested) : Json := a.scaled 4 (-9)

def ControlPoints.externalJson (c : ControlPoints Float) : Json :=
  (Nested.matrix c.prescribed.toList).usual

/-- Rows of numbers of unknowns, with -1 where there is no number. -/
def DofMap.rowsJson (rows : List (List (Option Nat))) : Json :=
  .list (.list fun number => .int ((number.map Int.ofNat).getD (-1))) rows

def DofMap.toJson (m : DofMap) : Json := rowsJson m.rows

def Discretization.toJson (x : Discretization Float) (n : Numbered Float) : Json :=
  .obj [("n_cp", .nat x.points.size), ("n_dofs", .nat n.dofs.count),
    ("internal", .strs x.points.internal.names), ("external", .strs x.points.external.names),
    ("dof_map", n.dofs.toJson), ("cps", .str x.points.text)]

/-- A kernel in one line: its name, and what it depends on. -/
def Kernel.summary (k : Kernel) : Json :=
  .arr [.str k.name, .nat k.unknownCount, .nat k.slots.length, .strs k.paramNames]

/-- The total weight of each entity. -/
def Tabulation.measures (t : Tabulation Float) : List Float :=
  t.entities.map fun points => Arithmetic.sumOf points (·.weight)

def Block.toJson (b : Block Float) : Json :=
  .obj [("label", .str b.label), ("entities", .ints b.entities), ("cps", .list .nats b.points),
    ("gdofs", .list .nats b.dofs), ("rows", .nat b.entryCount),
    ("measure", (Nested.vector b.tab.measures).usual)]

def StepReport.toJson (r : StepReport Float) : Json :=
  .obj [("step", .nat r.step), ("t", scalarJson r.t), ("dt", scalarJson r.dt),
    ("iterations", .nat r.iterations), ("residual", residualJson (.leaf r.residualNorm)),
    ("converged", .bool r.converged)]

/-- The vector that matrices are tried on. -/
def probe (n : Nat) : List Float := (List.range n).map fun i => Float.ofNat (1 + i % 3)

/-- How many unknowns a matrix may have to be shown in full. -/
def shownSize : Nat := 24

def System.tangentEntries (s : System Float) (digits : Int) : List (String × Json) :=
  let k := s.tangent
  let shown := fun (xs : List Float) => (Nested.vector xs).scaled digits (-12)
  let stored := k.rows.toList.flatten
  let full := if k.size ≤ shownSize then
    [("indptr", Json.nats k.offsets), ("indices", .nats (stored.map (·.1))),
      ("data", shown (stored.map (·.2)))] else []
  [("nnz", .nat k.storedCount), ("diag", shown k.diagonal), ("Kv", shown (k.apply (probe k.size)))] ++ full

def System.toJson (s : System Float) (digits : Int) (withTangent : Bool) : Json :=
  .obj (("R", (Nested.vector s.residual).scaled digits (-12)) ::
    if withTangent then s.tangentEntries digits else [])

def Snapshot.toJson (s : Snapshot Float) (digits : Int) : Json :=
  let tables := fun (ts : List (String × Grid Float)) =>
    Json.obj (ts.map fun (name, rows) => (name, (Nested.ofGrid rows).scaled digits (-12)))
  .obj [("step", .int s.step), ("t", scalarJson s.t), ("values", tables s.values),
    ("rates", tables s.rates), ("external", tables s.external),
    ("occupied", .list (fun used => .nat (if used then 1 else 0)) ((s.occupied.map (·.entries)).getD []))]

def RunReport.toJson (r : RunReport Float) (digits : Int) (failure : Failure → Json) : Json :=
  .obj [("status", .str r.result.status.name), ("steps", .nat r.result.steps), ("t", scalarJson r.t),
    ("on_step", .list (fun s => .int s.step) r.result.seen), ("error", .orNull failure r.result.error),
    ("history", .list StepReport.toJson r.history),
    ("snapshot", .orNull (·.toJson digits) r.result.seen.getLast?)]

def Stepper.entries (s : Stepper Float) : List (String × Json) :=
  [("driver", .str s.phase.name), ("step", .nat s.step), ("history", .nat s.history.length)]

def Problem.toJson (p : Problem Float) (digits : Int) (stepper : Option (Stepper Float)) : Json :=
  let f := p.unknowns
  let vector := fun (x : List Float) => (Nested.vector x).scaled digits (-12)
  .obj ([("x", vector f.x), ("x_t", vector f.rate), ("x_prev", vector f.xPrev),
    ("t", scalarJson f.t), ("dt", scalarJson f.dt), ("residual", residualJson (.vector f.residual)),
    ("tangent", .orNull (fun m => .nat m.storedCount) f.tangent),
    ("params", .obj (p.parameters.map fun (name, v) => (name, scalarJson v)))] ++
    (stepper.map Stepper.entries).getD [])

end Galerkin
