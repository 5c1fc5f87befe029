import Galerkin.Mesh.Basic

/-!
Structured meshes of boxes: intervals, rectangles of quadrilaterals or triangles, and bricks. Vertices
run along the first axis fastest.
-/

namespace Galerkin.Mesh

section Ticks

variable {α : Type} [Arithmetic α]

open Arithmetic

/-- The end of interval `i` of `n` between two places. -/
def tick (start stop : α) (n : Int) (i : Nat) : α :=
  if i = 0 then start
  else if (i : Int) = n then stop
  else start + ofNat i * ((stop - start) / ofInt n)

/-- The `n + 1` ends of `n` equal intervals from `start` over `length`; there may be none, but not fewer. -/
def ticks (start length : α) (n : Int) : Except Failure (List α) :=
  if n < -1 then throw .misshapen
  else pure ((List.range (n + 1).toNat).map (tick start (start + length) n))

end Ticks

/-- All index pairs; the first index runs fastest. -/
def pairs (nx ny : Nat) : List (Nat × Nat) :=
  (List.range ny).flatMap fun j => (List.range nx).map fun i => (i, j)

def triples (nx ny nz : Nat) : List (Nat × Nat × Nat) :=
  (List.range nz).flatMap fun k => (pairs nx ny).map fun (i, j) => (i, j, k)

def intervalCorners (nx : Nat) : List (List Nat) := (List.range nx).map fun i => [i, i + 1]

/-- The corners of a quadrilateral in a grid with `nx` columns, counter-clockwise. -/
def gridQuad (nx : Nat) (i j : Nat) : List Nat :=
  let lower := j * (nx + 1) + i
  let upper := lower + nx + 1
  [lower, lower + 1, upper + 1, upper]

def quadCorners (nx ny : Nat) : List (List Nat) := (pairs nx ny).map fun (i, j) => gridQuad nx i j

/-- Every quadrilateral cut along its diagonal; all lower triangles come before the upper ones. -/
def triCorners (nx ny : Nat) : List (List Nat) :=
  let pick := fun (places : List Nat) (q : List Nat) => places.map fun p => q.getD p 0
  (quadCorners nx ny).map (pick [0, 1, 2]) ++ (quadCorners nx ny).map (pick [0, 2, 3])

/-- The corners of a hexahedron: those of its lower face, then those of its upper face. -/
def gridHex (nx ny : Nat) (i j k : Nat) : List Nat :=
  let layer := (nx + 1) * (ny + 1)
  (gridQuad nx i j).map (k * layer + ·) ++ (gridQuad nx i j).map ((k + 1) * layer + ·)

def hexCorners (nx ny nz : Nat) : List (List Nat) :=
  (triples nx ny nz).map fun (i, j, k) => gridHex nx ny i j k

def connectivity (corners : Nat) (rows : List (List Nat)) : Connectivity :=
  ⟨[rows.length, corners], rows.map fun row => row.map Int.ofNat⟩

section Boxes

variable {α : Type} [Arithmetic α]

def interval (length : α) (nx : Int) (start : α) : Except Failure (Mesh α) := do
  let xs ← ticks start length nx
  make .line 1 (xs.map fun x => [x]) (connectivity 2 (intervalCorners nx.toNat))

def rectangle (length height : α) (nx ny : Int) (shape : String) (origin : α × α) :
    Except Failure (Mesh α) := do
  let xs ← ticks origin.1 length nx
  let ys ← ticks origin.2 height ny
  let vertices := ys.flatMap fun y => xs.map fun x => [x, y]
  if shape == Cell.quad.name then
    make .quad 2 vertices (connectivity 4 (quadCorners nx.toNat ny.toNat))
  else if shape == Cell.tri.name then
    make .tri 2 vertices (connectivity 3 (triCorners nx.toNat ny.toNat))
  else throw (.invalid (.rectangleShape shape))

def brick (lx ly lz : α) (nx ny nz : Int) (origin : α × α × α) : Except Failure (Mesh α) := do
  let xs ← ticks origin.1 lx nx
  let ys ← ticks origin.2.1 ly ny
  let zs ← ticks origin.2.2 lz nz
  let vertices := zs.flatMap fun z => ys.flatMap fun y => xs.map fun x => [x, y, z]
  make .hex 3 vertices (connectivity 8 (hexCorners nx.toNat ny.toNat nz.toNat))

end Boxes

end Galerkin.Mesh
