import Galerkin.Linear.Elimination
import Galerkin.Linear.Krylov
import Galerkin.Linear.SparseMatrix

/-!
The linear solver of a simulation: iterative or direct, and a failure whenever the answer misses the
tolerance.
-/

namespace Galerkin.Linear

structure SolverSettings (α : Type) where
  backend : String
  tolerance : α
  maxSteps : Int
  maxPasses : Int
  /-- Steps in a cycle of the iterative solver. -/
  restart : Int
  preconditioner : Option String
  deriving Repr

namespace SolverSettings

def standard {α : Type} [Arithmetic α] : SolverSettings α :=
  ⟨"bicgstabl", Arithmetic.ofRat (mkRat 1 1000000), 2000, 20, 8, some "jacobi"⟩

def krylov {α : Type} (s : SolverSettings α) : KrylovSettings α :=
  ⟨s.restart, s.tolerance, s.maxSteps, s.maxPasses, s.preconditioner⟩

end SolverSettings

/-- The matrix of a linear system: known by its entries, or only as a map. -/
inductive Coefficients (α : Type) where
  | entries (m : SparseMatrix α)
  | action (map : Vec α → Vec α)

def Coefficients.operator {α : Type} [Arithmetic α] : Coefficients α → Operator α
  | entries m => ⟨m.apply, some m.diagonal⟩
  | action map => ⟨map, none⟩

namespace Solver

variable {α : Type} [Scalar α]

/-- The smallest size that a right-hand side is taken to have. -/
def leastSize : α := Arithmetic.ofRat (mkRat 1 (Nat.pow 10 300))

/-- Solves by elimination; a matrix without an inverse has no answer. -/
def direct (tolerance : α) (m : SparseMatrix α) (b : Vec α) : Option (KrylovResult α) := do
  let x ← Elimination.solve? m.toDense b
  let size := Vec.norm (Vec.sub b (m.apply x))
  let converged := x.all Scalar.isFinite && size ≤ tolerance * Arithmetic.max (Vec.norm b) leastSize
  pure ⟨x, converged, 1, 1, size⟩

/-- Why there is no answer: the result misses the tolerance, or elimination has none to offer. -/
structure Rejection (α : Type) where
  result : Option (KrylovResult α)
  deriving Repr

def judged : Option (KrylovResult α) → Except (Rejection α) (KrylovResult α)
  | some r => if r.converged then .ok r else .error ⟨some r⟩
  | none => .error ⟨none⟩

/-- What the chosen backend finds, judged; elimination needs the entries of the matrix. -/
def attempt (fit : LeastSquares α) (settings : SolverSettings α) (a : Coefficients α) (b : Vec α)
    (x0 : Option (Vec α)) : Except Failure (Except (Rejection α) (KrylovResult α)) := do
  match settings.backend with
  | "direct" =>
    match a with
    | .entries m => pure (judged (direct settings.tolerance m b))
    | .action _ => throw .misshapen
  | "bicgstabl" => pure (judged (some (← Krylov.solve fit settings.krylov a.operator b x0)))
  | name => throw (.invalid (.solverBackend name))

def solve (fit : LeastSquares α) (settings : SolverSettings α) (a : Coefficients α) (b : Vec α)
    (x0 : Option (Vec α)) : Except Failure (KrylovResult α) := do
  match ← attempt fit settings a b x0 with
  | .ok r => pure r
  | .error _ => throw .linearSolver

end Solver

end Galerkin.Linear
