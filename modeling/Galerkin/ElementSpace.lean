import Galerkin.Element
import Galerkin.Mesh.Basic
import Galerkin.Tabulation

/-!
Element spaces: the control points of a mesh for an element family and order. Corner nodes are the
mesh vertices; every other node belongs to the entity it lies inside, so that elements which share
the entity share the control point. Entities are told apart by the corners of the mesh they span.
-/

namespace Galerkin

structure ElementSpace (α : Type) where
  mesh : Mesh α
  family : Family
  order : Nat
  element : Element
  quadratureOrder : Int
  /-- The control points of every element. -/
  controlPoints : Array (List Nat)
  positions : Array (List α)
  deriving Repr

namespace ElementSpace

/-- The control points found so far: those inside entities by the corners of these, and all positions. -/
structure Growth (α : Type) where
  inner : List (List Nat × Nat)
  positions : Array (List α)

section Construction

variable {α : Type} [Arithmetic α]

open Arithmetic

/-- A node of an element: the corners of its entity, and the weights of the element's corners that place it. -/
structure NodePlace (α : Type) where
  entity : List Nat
  weights : List α

def vertexMean (dim : Nat) (weights : List α) (vertices : List (List α)) : List α :=
  Tabulation.interpolate dim weights vertices

/-- The control point of one node of the element with the given corners. -/
def addNode (mesh : Mesh α) (corners : List Nat) (grown : Growth α) (node : NodePlace α) :
    Nat × Growth α :=
  let here := node.entity.map fun c => corners.getD c 0
  match here with
  | [vertex] => (vertex, grown)
  | _ =>
    let key := Mesh.key here
    match grown.inner.lookup key with
    | some p => (p, grown)
    | none =>
      let p := grown.positions.size
      let x := vertexMean mesh.dim node.weights (corners.map fun v => mesh.vertices.getD v [])
      (p, ⟨grown.inner ++ [(key, p)], grown.positions.push x⟩)

/-- The control points of one element. -/
def addElement (mesh : Mesh α) (nodes : List (NodePlace α)) (grown : Growth α) (corners : List Nat) :
    List Nat × Growth α :=
  nodes.foldl (fun (points, grown) node =>
    let (p, grown) := addNode mesh corners grown node
    (points ++ [p], grown)) ([], grown)

/-- The nodes of an element with the linear weights of the cell's corners. -/
def nodePlaces (element corner : Element) : List (NodePlace α) :=
  List.zipWith (fun entity x => ⟨entity, (corner.values x).map ofRat⟩) element.entities element.nodes

def make (mesh : Mesh α) (family : String) (order : Int) (quadratureOrder : Option Int) :
    Except Failure (ElementSpace α) := do
  let element ← Element.ofCell mesh.cell family order
  let corner ← Element.lagrange mesh.cell 1
  let nodes := nodePlaces element corner
  let (controlPoints, grown) := mesh.elements.foldl (fun (rows, grown) corners =>
    let (row, grown) := addElement mesh nodes grown corners
    (rows.push row, grown)) (#[], (⟨[], mesh.vertices⟩ : Growth α))
  pure {
    mesh := mesh
    family := ← Family.ofName family
    order := order.toNat
    element := element
    quadratureOrder := quadratureOrder.getD (2 * order)
    controlPoints := controlPoints
    positions := grown.positions }

end Construction

variable {α : Type}

def text (s : ElementSpace α) : String :=
  s!"ElementSpace({s.mesh.cell.name}, {s.family.name}, order={s.order}, " ++
    s!"quad_order={s.quadratureOrder}, n_cp={s.positions.size})"

/-- The nodes of the element on one of its facets. -/
def facetNodes (s : ElementSpace α) (localFacet : Int) : Except Failure (List Nat) :=
  match entry? s.mesh.cell.facets localFacet with
  | some facet => pure ((s.element.entities.zipIdx.filter fun e => e.1.all facet.contains).map (·.2))
  | none => throw .outOfRange

/-- The control points of an element whose number may be counted from the end. -/
def elementPoints (s : ElementSpace α) (element : Int) : Except Failure (List Nat) :=
  match (position? s.controlPoints.size element).bind (s.controlPoints[·]?) with
  | some points => pure points
  | none => throw .outOfRange

def facetPoints (s : ElementSpace α) (element localFacet : Int) : Except Failure (List Nat) := do
  let nodes ← s.facetNodes localFacet
  let points ← s.elementPoints element
  pure (nodes.map fun a => points.getD a 0)

/-- The positions of the control points of some elements. -/
def netsOf (s : ElementSpace α) (rows : List (List Nat)) : ControlNets α :=
  ⟨s.element.size, s.mesh.dim, rows.map fun row => row.map fun p => s.positions.getD p []⟩

/-- The positions of the control points of some elements, at least one, or of all. -/
def nets (s : ElementSpace α) (elements : Option (List Int)) : Except Failure (ControlNets α) := do
  let rows ← match elements with
    | none => pure s.controlPoints.toList
    | some [] => throw .outOfRange
    | some ids => ids.mapM s.elementPoints
  pure (s.netsOf rows)

end ElementSpace

end Galerkin
