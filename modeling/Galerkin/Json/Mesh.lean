import Galerkin.Json.Array
import Galerkin.Mesh.Selection
import Galerkin.Mesh.Structured

/-!
Meshes described in JSON: generated ones by kind and arguments, others by vertices and connectivity;
afterwards some vertices may be moved. Facets are chosen by number or by their centroids.
-/

namespace Galerkin.Mesh

/-- The mesh of a kind with the given arguments. -/
def generated (kind : String) (args : List Json) : Except Failure (Mesh Float) :=
  let arg := fun (k : Nat) => args.getD k .null
  let real := fun (k : Nat) => (arg k).toFloat
  let count := fun (k : Nat) => (arg k).toInt
  let coordinate := fun (k axis : Nat) => ((arg k).nth axis).toFloat
  match kind with
  | "interval" => interval (real 0) (count 1) (real 2)
  | "rectangle" =>
    let shape := match arg 4 with
      | .str s => s
      | _ => "quad"
    rectangle (real 0) (real 1) (count 2) (count 3) shape (coordinate 5 0, coordinate 5 1)
  | _ =>
    brick (real 0) (real 1) (real 2) (count 3) (count 4) (count 5)
      (coordinate 6 0, coordinate 6 1, coordinate 6 2)

/-- The mesh of a cell shape with the given vertices and connectivity. -/
def listed (j : Json) : Except Failure (Mesh Float) := do
  let cell ← Cell.ofName (j.get "shape").text
  let vertices := j.get "vertices"
  let vertexDim := match ← vertices.shape with
    | _ :: d :: _ => d
    | _ => 1
  let conn := j.get "conn"
  make cell vertexDim vertices.rows ⟨← conn.shape, conn.items.map Json.toInts⟩

def ofJson (j : Json) : Except Failure (Mesh Float) := do
  let mesh ← match j.get? "gen" with
    | some kind => generated kind.text (j.get "args").items
    | none => listed j
  (j.get "move").items.foldlM (fun mesh entry =>
    mesh.moveVertex (entry.nth 0).toInt (entry.nth 1).floats) mesh

end Galerkin.Mesh

namespace Galerkin

def CentroidTest.ofJson (j : Json) : CentroidTest Float :=
  if j.flag "shape_error" then .miscounting
  else .coordinate (j.intOr "axis" 0) (match j.get? "below" with
    | some bound => .below bound.toFloat
    | none => .near (j.floatOr "value" 0.0) (j.floatOr "tol" 1e-6))

def FacetChoice.ofJson (j : Json) : Except Failure (FacetChoice Float) := do
  if j.isList then pure (.listed (← j.intGrid))
  else match j.get? "ids" with
    | some ids => pure (.tested (.ofJson j) (some (← ids.intGrid)))
    | none => pure (.tested (.ofJson j) none)

/-- Whole numbers in nested lists with the sides of an array. -/
def Json.nested : List Nat → List Int → Json
  | [], xs => .int (xs.headD 0)
  | n :: sides, xs => .arr ((Grid.pieces (Grid.volume sides) n xs).map (nested sides))

def Json.ofGrid (g : Grid Int) : Json := nested g.sides g.entries

def Facet.toJson (f : Facet) : Json :=
  .arr [.nats f.corners, .list (fun (e, l) => .nats [e, l]) f.owners, .bool f.isBoundary]

end Galerkin
