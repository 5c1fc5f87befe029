import Galerkin.Grid

/-!
Snapshots: the state of all control points at one time, detached from the simulation. A snapshot can
be asked for its largest rates, and for its positions displaced by a field.
-/

namespace Galerkin

/-- What a snapshot holds of a step; a simulation writes a row for every control point. -/
structure Snapshot (α : Type) where
  step : Int
  t : α
  positions : Grid α
  values : List (String × Grid α)
  rates : List (String × Grid α)
  external : List (String × Grid α)
  /-- Which control points belong to elements; all count if this is not known. -/
  occupied : Option (Grid Bool)
  deriving Repr

/-- What can be done to positions before they are exported. -/
inductive ExportTransform where
  | unchanged | displace
  deriving DecidableEq, Repr

def ExportTransform.ofName : String → Except Failure ExportTransform
  | "none" => pure unchanged
  | "displace" => pure displace
  | _ => throw .noSuchChoice

namespace Snapshot

variable {α : Type}

def tableOf (tables : List (String × Grid α)) (field : String) : Except Failure (Grid α) :=
  match tables.lookup field with
  | some rows => pure rows
  | none => throw .absent

/-- The rows of occupied control points. -/
def occupiedRows (s : Snapshot α) (rows : Grid α) : Except Failure (Grid α) :=
  match s.occupied with
  | none => pure rows
  | some mask => rows.keep mask

variable [Arithmetic α]

/-- The largest rate in size of a field, or of one of its components, at occupied control points. -/
def largestRate (s : Snapshot α) (field : String) (component : Option Int) : Except Failure α := do
  let rows ← tableOf s.rates field
  let rows ← match component with
    | some c => rows.column c
    | none => pure rows
  pure (Arithmetic.largest (← s.occupiedRows rows).entries)

/-- The positions under a transform, which may need a field and a scale. -/
def exported (s : Snapshot α) (transform : ExportTransform) (field : Option String) (scale : α) :
    Except Failure (Grid α) := do
  match transform, field with
  | .unchanged, _ => pure s.positions
  | .displace, none => throw (.invalid .displacementField)
  | .displace, some field =>
    let rows ← tableOf s.values field
    if rows.sides = s.positions.sides then rows.combine (fun d x => x + scale * d) s.positions
    else throw (.invalid (.displacementShape field rows.sides s.positions.sides))

end Snapshot

end Galerkin
