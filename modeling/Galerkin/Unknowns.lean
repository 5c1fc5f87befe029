import Galerkin.Linear.SparseMatrix

/-!
The unknowns of a whole domain as vectors: values, rates, both at the start of the current step, and
the system that was assembled last.
-/

namespace Galerkin

open Linear

/-- A residual and its derivative. -/
structure System (α : Type) where
  residual : Vec α
  tangent : SparseMatrix α
  deriving Repr

structure Unknowns (α : Type) where
  x : Vec α
  rate : Vec α
  xPrev : Vec α
  ratePrev : Vec α
  residual : Vec α
  tangent : Option (SparseMatrix α)
  dt : α
  t : α
  deriving Repr

namespace Unknowns

variable {α : Type}

def zeros [Arithmetic α] (n : Nat) : Unknowns α :=
  let zero := Vec.zeros n
  ⟨zero, zero, zero, zero, zero, none, 1, 0⟩

/-- Remembers the state at the start of a step. -/
def commit (f : Unknowns α) : Unknowns α := { f with xPrev := f.x, ratePrev := f.rate }

/-- Returns to the state at the start of the step. -/
def rollback (f : Unknowns α) : Unknowns α := { f with x := f.xPrev, rate := f.ratePrev }

end Unknowns

end Galerkin
