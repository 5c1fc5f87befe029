import Galerkin.Cell
import Galerkin.Indexing

/-!
Meshes of one cell shape: vertices, the corners of every element, and the table of facets. Elements
share a facet exactly when they share all of its corners; no more than two may do so.
-/

namespace Galerkin

/-- The corners of a facet as its first owner sees them, and its owners: elements with the number of the facet there. -/
structure Facet where
  corners : List Nat
  owners : List (Nat × Nat)
  deriving DecidableEq, Repr, Inhabited

namespace Facet

def isBoundary (f : Facet) : Bool := f.owners.length = 1

end Facet

/-- Rows of corner numbers as a caller gives them, with the sides of the table. -/
structure Connectivity where
  shape : List Nat
  rows : List (List Int)
  deriving Repr

structure Mesh (α : Type) where
  cell : Cell
  vertices : Array (List α)
  elements : Array (List Nat)
  facets : Array Facet
  deriving Repr

namespace Mesh

/-- What identifies a facet: its corners in ascending order. -/
def key (corners : List Nat) : List Nat := corners.mergeSort (· ≤ ·)

abbrev FacetTable := List (List Nat × Facet)

/-- Enters one more owner of the facet with these corners. -/
def addOwner (corners : List Nat) (owner : Nat × Nat) : FacetTable → FacetTable
  | [] => [(key corners, ⟨corners, [owner]⟩)]
  | (k, f) :: rest =>
    if k = key corners then (k, { f with owners := f.owners ++ [owner] }) :: rest
    else (k, f) :: addOwner corners owner rest

/-- The corners and the owner of every facet of every element. -/
def facetUses (cell : Cell) (elements : List (List Nat)) : List (List Nat × (Nat × Nat)) :=
  elements.zipIdx.flatMap fun (corners, e) =>
    cell.facets.zipIdx.map fun (facet, l) => (facet.map fun c => corners.getD c 0, (e, l))

/-- All facets in order of their first use. -/
def facetTable (cell : Cell) (elements : List (List Nat)) : FacetTable :=
  (facetUses cell elements).foldl (fun table use => addOwner use.1 use.2 table) []

/-- A corner number that a mesh with `count` vertices has. -/
def vertexNumber (count : Nat) (i : Int) : Except Failure Nat :=
  if 0 ≤ i ∧ i < count then pure i.toNat else throw (.invalid .danglingVertex)

/-- The mesh of given vertices, all with `vertexDim` coordinates, and connectivity. -/
def make {α : Type} (cell : Cell) (vertexDim : Nat) (vertices : List (List α))
    (connectivity : Connectivity) : Except Failure (Mesh α) := do
  match connectivity.shape with
  | [_, corners] =>
    if corners ≠ cell.cornerCount then
      throw (.invalid (.connectivityShape cell.name cell.cornerCount connectivity.shape))
  | shape => throw (.invalid (.connectivityShape cell.name cell.cornerCount shape))
  if vertexDim ≠ cell.dim then throw (.invalid (.vertexDimension cell.name cell.dim vertexDim))
  let elements ← connectivity.rows.mapM fun row => row.mapM (vertexNumber vertices.length)
  let table := facetTable cell elements
  match table.find? fun entry => 2 < entry.2.owners.length with
  | some (k, f) => throw (.invalid (.nonManifold (k.map Int.ofNat) f.owners.length))
  | none => pure ⟨cell, vertices.toArray, elements.toArray, (table.map (·.2)).toArray⟩

section Queries

variable {α : Type}

def dim (m : Mesh α) : Nat := m.cell.dim

def text (m : Mesh α) : String :=
  s!"Mesh({m.cell.name}, n_vertices={m.vertices.size}, n_elements={m.elements.size})"

/-- The number of the facet with these corners, in any order. -/
def facetId (m : Mesh α) (corners : List Int) : Except Failure Nat :=
  let wanted := corners.mergeSort (· ≤ ·)
  match m.facets.findIdx? fun f => (key f.corners).map Int.ofNat = wanted with
  | some i => pure i
  | none => throw .absent

def boundaryFacets (m : Mesh α) : List Nat :=
  (m.facets.toList.zipIdx.filter (·.1.isBoundary)).map (·.2)

/-- The facet with a number that may be counted from the end. -/
def facet (m : Mesh α) (i : Int) : Except Failure Facet :=
  match (position? m.facets.size i).bind (m.facets[·]?) with
  | some f => pure f
  | none => throw .outOfRange

/-- Puts a vertex somewhere else; a single number stands for all coordinates. -/
def moveVertex (m : Mesh α) (i : Int) (x : List α) : Except Failure (Mesh α) := do
  let some k := position? m.vertices.size i | throw .outOfRange
  let place (point : List α) : Except Failure (Mesh α) :=
    pure { m with vertices := m.vertices.set! k point }
  if x.length = m.dim then place x
  else match x with
    | [c] => place (List.replicate m.dim c)
    | _ => throw .misshapen

end Queries

section Centroids

variable {α : Type} [Arithmetic α]

/-- The mean of some vertices. -/
def meanOf (m : Mesh α) (corners : List Nat) : List α :=
  (List.range m.dim).map fun axis =>
    Arithmetic.sumOf corners (fun v => (m.vertices.getD v []).getD axis 0) /
      Arithmetic.ofNat corners.length

def facetCentroid (m : Mesh α) (f : Facet) : List α := m.meanOf f.corners

def elementCentroids (m : Mesh α) : List (List α) := m.elements.toList.map m.meanOf

/-- The facets whose centroids satisfy a predicate, which judges all centroids at once; boundary facets unless others are given. -/
def select (m : Mesh α) (predicate : List (List α) → Except Failure (List Bool))
    (among : Option (List Int)) : Except Failure (List Int) := do
  let ids := among.getD (m.boundaryFacets.map Int.ofNat)
  if ids.isEmpty then pure ids
  else
    let facets ← ids.mapM m.facet
    let mask ← predicate (facets.map m.facetCentroid)
    if mask.length ≠ ids.length then
      throw (.invalid (.maskShape [mask.length] [ids.length]))
    pure ((ids.zip mask).filterMap fun (i, chosen) => if chosen then some i else none)

end Centroids

end Mesh

end Galerkin
