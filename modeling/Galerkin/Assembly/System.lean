import Galerkin.Assembly.Block

/-!
Assembly: the residual and the tangent of a domain are the sums of what its elements and facets
contribute to each unknown and to each pair of unknowns.
-/

namespace Galerkin

open Linear

/-- What one element or facet contributes: its system, and the numbers of its unknowns. -/
structure Contribution (α : Type) where
  dofs : List Nat
  system : ElementSystem α
  deriving Repr

namespace Contribution

variable {α : Type} [Arithmetic α]

def addResidual (r : Array α) (c : Contribution α) : Array α :=
  (c.dofs.zip c.system.residual).foldl (fun r (i, v) => r.modify i (· + v)) r

def addTangentRow (dofs : List Nat) (m : SparseMatrix α) (i : Nat) (row : List α) : SparseMatrix α :=
  (dofs.zip row).foldl (fun m (j, v) => m.addEntry i j v) m

def addTangent (m : SparseMatrix α) (c : Contribution α) : SparseMatrix α :=
  (c.dofs.zip c.system.tangent).foldl (fun m (i, row) => addTangentRow c.dofs m i row) m

end Contribution

namespace System

variable {α : Type} [Arithmetic α]

/-- The sum of some contributions to `n` unknowns. -/
def ofContributions (n : Nat) (cs : List (Contribution α)) : System α :=
  ⟨(cs.foldl Contribution.addResidual (Array.replicate n 0)).toList,
    cs.foldl Contribution.addTangent (SparseMatrix.zero n)⟩

end System

/-- The state that a domain is assembled at. -/
structure AssemblyState (α : Type) where
  parameters : List (String × α)
  /-- The prescribed values of all control points. -/
  prescribed : Array (List α)
  x : Vec α
  rate : Vec α
  /-- The derivative of rates by values. -/
  rateWeight : α

namespace Block

variable {α : Type} [Scalar α]

/-- The entries of a vector at the unknowns of each element. -/
def gather (b : Block α) (x : Vec α) : NodalValues α :=
  let v := x.toArray
  ⟨b.dofs.length, b.tab.basisCount, b.kernel.width,
    (b.dofs.flatMap fun row => row.map fun i => v.getD i 0).toArray⟩

/-- The prescribed values at the control points of each element. -/
def gatherPrescribed (b : Block α) (prescribed : Array (List α)) : NodalValues α :=
  ⟨b.points.length, b.tab.basisCount, b.kernel.externalWidth,
    (b.points.flatMap fun row => row.flatMap fun p => prescribed.getD p []).toArray⟩

def contributions (b : Block α) (s : AssemblyState α) : Except Failure (List (Contribution α)) := do
  let systems ← b.kernel.evaluate b.tab (b.gather s.x) (some (b.gather s.rate))
    (some (b.gatherPrescribed s.prescribed)) (.named s.parameters) s.rateWeight
  pure (List.zipWith Contribution.mk b.dofs systems)

/-- The system of some blocks with `n` unknowns at a state. -/
def assemble (blocks : List (Block α)) (n : Nat) (s : AssemblyState α) : Except Failure (System α) := do
  let cs ← blocks.mapM (·.contributions s)
  pure (.ofContributions n cs.flatten)

end Block

end Galerkin
