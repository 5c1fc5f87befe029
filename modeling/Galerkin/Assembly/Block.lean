import Galerkin.Domain.Discretization
import Galerkin.Kernel.Evaluation

/-!
Assembly blocks: a compiled form together with the elements or facets it acts on, their control
points, the numbers of their unknowns and the tabulated basis. A domain has one block for every
work piece and one for every region with a form.
-/

namespace Galerkin

structure Block (α : Type) where
  piece : String
  region : Option String
  kernel : Kernel
  /-- Elements, or facets of a region. -/
  entities : List Int
  /-- The control points of each element, or of the element that owns each facet. -/
  points : List (List Nat)
  /-- The numbers of the unknowns of these elements: by control point, then by component. -/
  dofs : List (List Nat)
  tab : Tabulation α
  deriving Repr

namespace Block

variable {α : Type}

def label (b : Block α) : String :=
  match b.region with
  | none => b.piece
  | some region => b.piece ++ "/" ++ region

/-- The number of entries of all element tangents. -/
def entryCount (b : Block α) : Nat := totalSize (b.dofs.map fun row => row.length * row.length)

/-- Where a block acts, for messages. -/
structure Place where
  piece : String
  region : Option String

def Place.failure (p : Place) (reason : AssemblyReason) (entity : Int) : Failure :=
  .assembly ⟨reason, some p.piece, p.region, entity⟩

/-- The control points without numbers. -/
def unnumbered (m : DofMap) (points : List Nat) : List Int :=
  (points.filter fun p => (m.row p).any (·.isNone)).map Int.ofNat

/-- The numbers of the unknowns of one element, which must have them all. -/
def numbers (m : DofMap) (place : Place) (entity : Int) (points : List Nat) :
    Except Failure (List Nat) :=
  match (m.elementDofs points).mapM id with
  | some numbers => pure numbers
  | none => throw (place.failure (.withoutDofs (unnumbered m points)) entity)

/-- The numbers of the unknowns of all elements of a block, which has at least one. -/
def numberRows (m : DofMap) (place : Place) (entities : List Int) (rows : List (List Nat)) :
    Except Failure (List (List Nat)) :=
  if rows.isEmpty then throw .misshapen
  else (entities.zip rows).mapM fun (entity, points) => numbers m place entity points

/-- The element of a work piece that owns a facet, and the number of the facet there. -/
def ownerOf (mesh : Mesh α) (w : WorkPiece) (place : Place) (facet : Int) : Except Failure (Nat × Nat) :=
  match (if facet < 0 then none else mesh.facets[facet.toNat]?) with
  | none => throw (place.failure .noSuchFacet facet)
  | some f =>
    match f.owners.filter fun o => w.elements.contains (Int.ofNat o.1) with
    | owner :: _ => pure owner
    | [] => throw (place.failure .noOwner facet)

/-- What the blocks of a domain have in common. -/
structure Context (α : Type) where
  space : ElementSpace α
  dofs : DofMap
  lines : LineRules α

variable [Scalar α]

def ofPiece (c : Context α) (w : WorkPiece) : Except Failure (Block α) := do
  let some k := w.kernel | throw (.misuse (.pieceNotCompiled w.name))
  let rows ← w.elements.mapM c.space.elementPoints
  let dofs ← numberRows c.dofs ⟨w.name, none⟩ w.elements rows
  let rule := Quadrature.ofCell c.lines c.space.mesh.cell c.space.quadratureOrder
  let tab ← Tabulation.onVolumes c.space.element (c.space.netsOf rows) rule (some w.elements)
  pure ⟨w.name, none, k.kernel, w.elements, rows, dofs, tab⟩

def ofRegion (c : Context α) (w : WorkPiece) (r : Region) : Except Failure (Block α) := do
  let some k := r.kernel | throw (.misuse (.regionNotCompiled w.name r.name))
  let place : Place := ⟨w.name, some r.name⟩
  let owners ← r.facets.mapM (ownerOf c.space.mesh w place)
  let elements := owners.map fun o => Int.ofNat o.1
  let rows ← elements.mapM c.space.elementPoints
  let dofs ← numberRows c.dofs place r.facets rows
  let rule := Quadrature.ofCell c.lines c.space.mesh.cell.facetCell c.space.quadratureOrder
  let tab ← Tabulation.onFacets c.space.element (c.space.netsOf rows)
    (owners.map fun o => Int.ofNat o.2) rule (some elements)
  pure ⟨w.name, some r.name, k.kernel, r.facets, rows, dofs, tab⟩

/-- The blocks of a work piece: its own, then those of its regions with a form. -/
def allOfPiece (c : Context α) (w : WorkPiece) : Except Failure (List (Block α)) := do
  let inside ← ofPiece c w
  let regions ← (w.regions.filter (·.form.isSome)).mapM (ofRegion c w)
  pure (inside :: regions)

/-- The blocks of a domain whose unknowns are numbered. -/
def allOf (lines : LineRules α) (d : Domain α) : Except Failure (List (Block α)) := do
  let some x := d.discretization | throw (.misuse .notDiscretized)
  let some n := x.numbered | throw (.misuse .notDiscretized)
  let blocks ← d.pieces.mapM (allOfPiece ⟨x.space, n.dofs, lines⟩)
  pure blocks.flatten

end Block

end Galerkin
