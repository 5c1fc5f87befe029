import Galerkin.Cell
import Galerkin.Indexing

/-!
Node lattices of the reference cells and the monomials that go with them. The Lagrange lattice of
degree `n` has equally spaced nodes, and the serendipity family keeps the nodes on edges.
-/

namespace Galerkin.Lattice

/-- All lists of `n` entries from `xs`; the last place runs fastest. -/
def tuples {β : Type} (xs : List β) : Nat → List (List β)
  | 0 => [[]]
  | n + 1 => xs.flatMap fun x => (tuples xs n).map (x :: ·)

/-- The lists of `dim` exponents below `count`, of total degree below `count` on a simplex. -/
def indices (c : Cell) (count : Nat) : List (List Nat) :=
  let all := tuples (List.range count) c.dim
  if c.isSimplex then all.filter fun e => totalSize e < count else all

/-- The place of a lattice index on a lattice with `n` intervals. -/
def place (c : Cell) (n : Nat) (i : Nat) : Rat :=
  if c.isSimplex then mkRat i n else mkRat (2 * i) n - 1

def lagrangePoints (c : Cell) (n : Nat) : List (List Rat) :=
  (indices c (n + 1)).map fun e => e.map (place c n)

def lagrangeNodes (c : Cell) (n : Int) : Except Failure (List (List Rat)) :=
  if n < 1 then throw (.invalid .latticeOrder) else pure (lagrangePoints c n.toNat)

/-- The exponents of the monomials of degree `n`, in total on a simplex and in each variable elsewhere. -/
def lagrangeExponents (c : Cell) (n : Int) : List (List Nat) := indices c (n + 1).toNat

/-- A node on an edge of a cube has at most one coordinate inside. -/
def onEdge (c : Cell) (x : List Rat) : Bool :=
  c.dim - 1 ≤ x.countP fun t => t == 1 || t == -1

/-- The degree that does not count variables which enter linearly. -/
def superlinearDegree (e : List Nat) : Nat := totalSize (e.filter (2 ≤ ·))

def checkSerendipity (c : Cell) (n : Int) : Except Failure Unit :=
  if c.isSimplex || c = .line then throw (.invalid (.serendipityShape c.name))
  else if n ≠ 2 then throw (.invalid .serendipityOrder)
  else pure ()

def serendipityNodes (c : Cell) (n : Int) : Except Failure (List (List Rat)) := do
  checkSerendipity c n
  pure ((lagrangePoints c n.toNat).filter (onEdge c))

def serendipityExponents (c : Cell) (n : Int) : Except Failure (List (List Nat)) := do
  checkSerendipity c n
  pure ((lagrangeExponents c n).filter fun e => superlinearDegree e ≤ n.toNat)

end Galerkin.Lattice
