import Galerkin.Unknowns
import Galerkin.Failure

/-!
Newton's method for one time step. Every iteration assembles the system at the current iterate and its
rate, stops if it is small enough, and otherwise solves for an increment. The assembler, the linear
solver and the rate are parameters.
-/

namespace Galerkin.Newton

open Linear

structure Settings (α : Type) where
  /-- Bound on the largest entry of the residual. -/
  tolerance : α
  /-- Bound on the size of the residual against that of the first one. -/
  relativeTolerance : α
  /-- Bound on the largest entry of an increment against that of the iterate. -/
  incrementTolerance : α
  maxIterations : Int
  /-- Is the last iterate good enough when the iterations are used up? -/
  acceptUnconverged : Bool
  deriving Repr

def Settings.standard {α : Type} [Arithmetic α] : Settings α :=
  ⟨Arithmetic.ofRat (mkRat 1 (Nat.pow 10 8)), Arithmetic.ofRat (mkRat 1 (Nat.pow 10 10)),
    Arithmetic.ofRat (mkRat 1 (Nat.pow 10 10)), 20, false⟩

/-- What is to be solved: the rate of a state, the system there, and a solver for linear systems. -/
structure Equations (α : Type) where
  rate : Vec α → Vec α
  assemble : Vec α → Vec α → Except Failure (System α)
  solve : SparseMatrix α → Vec α → Except Failure (Vec α)

/-- What the work of a time step is at. -/
inductive Phase where
  | idle | assembling | solving | updating | converged | diverged
  deriving DecidableEq, Repr

def Phase.name : Phase → String
  | idle => "idle"
  | assembling => "assembling"
  | solving => "solving"
  | updating => "updating"
  | converged => "converged"
  | diverged => "diverged"

/-- A failure and the phase it occurred in. -/
structure Stop where
  failure : Failure
  phase : Phase
  deriving Repr

def during {β : Type} (phase : Phase) : Except Failure β → Except Stop β
  | .ok b => .ok b
  | .error f => .error ⟨f, phase⟩

structure Iterate (α : Type) where
  x : Vec α
  /-- The increment that led here. -/
  increment : Option (Vec α)
  /-- The size of the first residual. -/
  firstSize : Option α
  /-- The system that was assembled last. -/
  system : Option (System α)
  /-- The number of systems assembled. -/
  count : Nat
  deriving Repr

def Iterate.start {α : Type} (x : Vec α) : Iterate α := ⟨x, none, none, none, 0⟩

variable {α : Type} [Scalar α]

def smallResidual (s : Settings α) (residual : Vec α) : Bool :=
  Vec.maxNorm residual ≤ s.tolerance

def reducedResidual (s : Settings α) (firstSize : α) (residual : Vec α) : Bool :=
  0 < firstSize && Vec.norm residual ≤ s.relativeTolerance * firstSize

def smallIncrement (s : Settings α) (x : Vec α) : Option (Vec α) → Bool
  | none => false
  | some dx => Vec.maxNorm dx ≤ s.incrementTolerance * Arithmetic.max 1 (Vec.maxNorm x)

/-- Is one of the three tolerances met? -/
def accepts (s : Settings α) (firstSize : α) (g : Iterate α) (residual : Vec α) : Bool :=
  smallResidual s residual || reducedResidual s firstSize residual || smallIncrement s g.x g.increment

/-- The iterate with the system assembled at it, and whether that is small enough. -/
def examine (s : Settings α) (p : Equations α) (g : Iterate α) :
    Except Stop (Iterate α × System α × Bool) := do
  let count := g.count + 1
  let system ← during .assembling (p.assemble g.x (p.rate g.x))
  if !Scalar.isFinite (Vec.maxNorm system.residual) then
    throw ⟨.newton (.nonFinite count) count, .assembling⟩
  let firstSize := g.firstSize.getD (Vec.norm system.residual)
  let examined := { g with system := some system, firstSize := some firstSize, count }
  pure (examined, system, accepts s firstSize g system.residual)

/-- At most so many iterations; tells whether the last one met a tolerance. -/
def iterate (s : Settings α) (p : Equations α) : Nat → Iterate α → Except Stop (Iterate α × Bool)
  | 0, g => pure (g, false)
  | n + 1, g => do
    let (g, system, accepted) ← examine s p g
    if accepted then pure (g, true)
    else
      let dx ← during .solving (p.solve system.tangent (Vec.neg system.residual))
      iterate s p n { g with x := Vec.add g.x dx, increment := some dx }

/-- The last iterate, and the system that was assembled last. -/
structure Result (α : Type) where
  x : Vec α
  rate : Vec α
  system : Option (System α)
  iterations : Nat
  converged : Bool
  deriving Repr

/-- The largest entry of the residual assembled last. -/
def Result.residualNorm? (r : Result α) : Option α := r.system.map fun s => Vec.maxNorm s.residual

/-- Solves for the state at time `t` from the iterate `x`. -/
def solve (s : Settings α) (p : Equations α) (t : α) (x : Vec α) : Except Stop (Result α) := do
  let (g, converged) ← iterate s p s.maxIterations.toNat (.start x)
  let r : Result α := ⟨g.x, p.rate g.x, g.system, g.count, converged⟩
  if converged || s.acceptUnconverged then pure r
  else
    let last := r.residualNorm?.map Scalar.toFloat
    throw ⟨.newton (.limit s.maxIterations last (Scalar.toFloat t)) g.count, .updating⟩

end Galerkin.Newton
