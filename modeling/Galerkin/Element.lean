import Galerkin.Lattice
import Galerkin.Polynomial
import Galerkin.Linear.Elimination

/-!
Reference elements: a cell, its nodes, and the polynomials that are one at a node and zero at the
others. Each node lies inside exactly one face of the cell, and nodes come in the order of these
faces: corners, edges, facets, inside.
-/

namespace Galerkin

inductive Family where
  | lagrange | serendipity
  deriving DecidableEq, Repr, Inhabited

namespace Family

def name : Family → String
  | lagrange => "lagrange"
  | serendipity => "serendipity"

def ofName (s : String) : Except Failure Family :=
  match [lagrange, serendipity].find? fun f => f.name == s with
  | some f => pure f
  | none => throw (.missing (.family s))

end Family

structure Element where
  cell : Cell
  family : Family
  order : Nat
  nodes : List (List Rat)
  /-- The corners of the face that each node lies inside. -/
  entities : List (List Nat)
  basis : List Polynomial
  deriving Repr, Inhabited

namespace Element

def size (e : Element) : Nat := e.basis.length

def dim (e : Element) : Nat := e.cell.dim

def text (e : Element) : String :=
  s!"Ref({e.cell.name}, {e.family.name}, order={e.order}, n_basis={e.size})"

def entityTolerance : Rat := mkRat 1 1000000000000

/-- Fewer corners first, then by their numbers. -/
def beforeOrEqual (a b : List Nat × List Rat) : Bool :=
  a.1.length < b.1.length || (a.1.length = b.1.length && !(b.1 < a.1))

/-- The nodes with their faces, in order. -/
def arranged (cell : Cell) (nodes : List (List Rat)) : List (List Nat × List Rat) :=
  (nodes.map fun x => (cell.supporting entityTolerance x, x)).mergeSort beforeOrEqual

/-- The values of the monomials at the nodes, a row for each node. -/
def vandermonde (nodes : List (List Rat)) (exponents : List (List Nat)) : List (List Rat) :=
  nodes.map fun x => exponents.map fun e => Monomial.powers e x

def column (rows : List (List Rat)) (k : Nat) : List Rat := rows.map (·.getD k 0)

/-- The nodal basis of a space of monomials. -/
def nodalBasis (nodes : List (List Rat)) (exponents : List (List Nat)) :
    Except Failure (List Polynomial) :=
  match Linear.Elimination.inverse? (vandermonde nodes exponents) with
  | some inverse => pure ((List.range nodes.length).map fun k =>
      Polynomial.ofCoeffs (column inverse k) exponents)
  | none => throw .noInverse

/-- The element with given nodes and monomials. -/
def ofLattice (cell : Cell) (family : Family) (order : Nat) (nodes : List (List Rat))
    (exponents : List (List Nat)) : Except Failure Element := do
  let tagged := arranged cell nodes
  let points := tagged.map (·.2)
  pure ⟨cell, family, order, points, tagged.map (·.1), ← nodalBasis points exponents⟩

def lagrange (cell : Cell) (order : Nat) : Except Failure Element := do
  ofLattice cell .lagrange order (← Lattice.lagrangeNodes cell order)
    (Lattice.lagrangeExponents cell order)

def serendipity (cell : Cell) (order : Nat) : Except Failure Element := do
  ofLattice cell .serendipity order (← Lattice.serendipityNodes cell order)
    (← Lattice.serendipityExponents cell order)

/-- The element of a cell, family and order; the families agree at first order. -/
def ofCell (cell : Cell) (family : String) (order : Int) : Except Failure Element := do
  let family ← Family.ofName family
  if order < 1 || 2 < order then throw (.invalid (.elementOrder (.int order)))
  match family, order with
  | .serendipity, 2 => serendipity cell 2
  | _, _ => lagrange cell order.toNat

/-- An order as a whole number. One with a point is looked at like any other before it is refused. -/
def wholeOrder (cell : Cell) (family : String) : Number → Except Failure Int
  | .int n => pure n
  | .bool b => pure (if b then 1 else 0)
  | .real x => do
    let family ← Family.ofName family
    if x < 1.0 || 2.0 < x then throw (.invalid (.elementOrder (.real x)))
    if family = .serendipity && x != 1.0 then
      if cell.isSimplex || cell = .line then throw (.invalid (.serendipityShape cell.name))
      if x != 2.0 then throw (.invalid .serendipityOrder)
    throw .unsupported

def make (shape family : String) (order : Number) : Except Failure Element := do
  let cell ← Cell.ofName shape
  ofCell cell family (← wholeOrder cell family order)

section Values

variable {α : Type} [Arithmetic α]

/-- The values of the basis at a point. -/
def values (e : Element) (x : List α) : List α := e.basis.map (·.eval x)

/-- The gradients of the basis at a point. -/
def gradients (e : Element) (x : List α) : List (List α) :=
  e.basis.map fun p => (List.range e.dim).map fun axis => (p.derivative axis).eval x

end Values

end Element

end Galerkin
