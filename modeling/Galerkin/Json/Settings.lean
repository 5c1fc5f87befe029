import Galerkin.Json.Array
import Galerkin.Linear.Solver
import Galerkin.Newton
import Galerkin.StoppingCriterion
import Galerkin.TimeScheme
import Galerkin.TimeStepping.Run

/-!
Settings of solvers, time steppers and stopping criteria in JSON, and matrices and snapshots that are
given as such. What is left out has its usual value.
-/

namespace Galerkin

namespace Linear

/-- The matrix with some entries on the diagonals at given offsets, where they repeat without end. -/
def SparseMatrix.ofBands (n : Nat) (bands : List (Int × Array Float)) : SparseMatrix Float :=
  let entry := fun (i j : Nat) => bands.foldl (fun a (offset, values) =>
    if (i : Int) + offset = j then values.getD (i % values.size) 0.0 else a) 0.0
  .ofDense ((List.range n).map fun i => (List.range n).map (entry i))

def SparseMatrix.ofJson (j : Json) : Except Failure (SparseMatrix Float) :=
  match j.get? "dense" with
  | some rows => pure (.ofDense (rows.items.map Json.floats))
  | none => do
    let n := (j.get "n").toNat
    let bands := (j.get "bands").items.map fun band => ((band.nth 0).toInt, (band.nth 1).floats.toArray)
    if bands.any fun (offset, values) => values.isEmpty ∧ offset.natAbs < n then throw .divisionByZero
    pure (.ofBands n bands)

def SolverSettings.ofJson (j : Json) : SolverSettings Float :=
  let usual : SolverSettings Float := .standard
  ⟨j.stringOr "backend" usual.backend, j.floatOr "tol" usual.tolerance,
    j.intOr "maxiter" usual.maxSteps, j.intOr "max_pass" usual.maxPasses,
    j.intOr "restart" usual.restart,
    if j.has "preconditioner" then (j.get? "preconditioner").map Json.text else usual.preconditioner⟩

end Linear

def Newton.Settings.ofJson (j : Json) : Newton.Settings Float :=
  let usual : Newton.Settings Float := .standard
  ⟨j.floatOr "newton_tol" usual.tolerance, j.floatOr "rtol" usual.relativeTolerance,
    j.floatOr "increment_tol" usual.incrementTolerance, j.intOr "max_newton_iter" usual.maxIterations,
    j.flag "accept_unconverged"⟩

def StepPolicy.ofJson (j : Json) : StepPolicy Float :=
  ⟨j.floatOr "dt" 1.0, j.intOr "max_steps" 1000, j.floatOr "dt_min" 1e-8,
    j.floatOr "dt_reduction" 0.5, j.intOr "max_retries" 5⟩

/-- A scheme by name or by its share of the new rate; the share `usual` if nothing is given. -/
def TimeScheme.ofJson (usual : Json) : Json → Except Failure (TimeScheme Float)
  | .null => do ofTheta (← usual.comparable)
  | .str "static" => pure static
  | .str "backward" => pure backwardEuler
  | share => do ofTheta (← share.comparable)

def RateKey.ofJson : Json → RateKey
  | .arr [field, component] => ⟨field.text, some component.toInt⟩
  | field => ⟨field.text, none⟩

def RateKey.toJson (k : RateKey) : Json :=
  match k.component with
  | none => .str k.field
  | some c => .arr [.str k.field, .int c]

/-- Pairs of a watched rate and a number. -/
def RateKey.entries (j : Json) : List (RateKey × Json) :=
  j.items.map fun entry => (.ofJson (entry.nth 0), entry.nth 1)

def StoppingCriterion.ofJson (j : Json) : Except Failure StoppingCriterion :=
  make ((RateKey.entries j).map fun (key, tol) => (key, tol.toNumber))

def Snapshot.ofJson (j : Json) : Except Failure (Snapshot Float) := do
  let tables := fun (key : String) => match j.get key with
    | .obj fields => fields.mapM fun (name, rows) => do pure (name, ← rows.grid)
    | _ => pure []
  let positions ← (j.get "positions").grid
  let values ← tables "values"
  let rates ← tables "rates"
  let external ← tables "external"
  let occupied ← match j.get? "occupied" with
    | some flags => do pure (some ((← flags.grid).map (· != 0.0)))
    | none => pure none
  pure ⟨0, 0.0, positions, values, rates, external, occupied⟩

end Galerkin
