import Galerkin.Linear.LeastSquares
import Galerkin.Failure

/-!
BiCGStab(l) with restarts. A pass takes cycles of `l` steps of bi-conjugate gradients, each followed by a
step that minimises the residual over the last `l` powers; a new pass starts from the true residual.
Convergence is judged by the true residual alone.
-/

namespace Galerkin.Linear

/-- How a linear system is to be solved iteratively. -/
structure KrylovSettings (α : Type) where
  /-- Steps in a cycle. -/
  cycle : Int
  tolerance : α
  maxSteps : Int
  maxPasses : Int
  preconditioner : Option String
  deriving Repr

structure KrylovResult (α : Type) where
  x : Vec α
  converged : Bool
  steps : Nat
  passes : Nat
  residualNorm : α
  deriving Repr

/-- A square matrix as a map, with its diagonal where that is known. -/
structure Operator (α : Type) where
  apply : Vec α → Vec α
  diagonal : Option (Vec α)

namespace Krylov

variable {α : Type} [Scalar α]

open Arithmetic

/-- Why a pass came to its end. -/
inductive Outcome where
  | stepLimit | breakdown | converged | stagnation
  deriving DecidableEq, Repr

/-- Inside a cycle: the iterate, the powers of the map on its residual and on the direction, and the scalars of the recurrence. -/
structure State (α : Type) where
  x : Vec α
  residuals : List (Vec α)
  directions : List (Vec α)
  rho : α
  alpha : α
  omega : α
  steps : Nat
  deriving Repr

def State.residual (s : State α) : Vec α := s.residuals.headD []

/-- A state that is to be continued, or the last one and why it is. -/
inductive Progress (α : Type) where
  | next (s : State α)
  | last (s : State α) (why : Outcome)

/-- Goes on from a state that is to be continued. -/
def Progress.andThen (f : State α → Progress α) : Progress α → Progress α
  | next s => f s
  | last s why => last s why

def usable (c : α) : Bool := Scalar.isFinite c && !isZero c

/-- What stays the same during a pass. -/
structure Setup (α : Type) where
  map : Vec α → Vec α
  shadow : Vec α
  tolerance : α
  budget : Nat
  fit : LeastSquares α

/-- Takes a multiple of each of some vectors from its counterpart. -/
def reduceEach (c : α) (vectors others : List (Vec α)) : List (Vec α) :=
  List.zipWith (fun v w => Vec.sub v (Vec.scale c w)) vectors others

/-- Appends what the map makes of the last vector. -/
def appendPower (map : Vec α → Vec α) (powers : List (Vec α)) : List (Vec α) :=
  powers ++ [map (powers.getLastD [])]

/-- One step of bi-conjugate gradients, which appends one power. -/
def biStep (p : Setup α) (s : State α) : Progress α :=
  if p.budget ≤ s.steps then .last s .stepLimit
  else
    let rho := dot (s.residuals.getLastD []) p.shadow
    if isZero s.rho || !Scalar.isFinite rho then .last s .breakdown
    else
      let beta := s.alpha * rho / s.rho
      let directions := appendPower p.map (reduceEach beta s.residuals s.directions)
      let sigma := dot (directions.getLastD []) p.shadow
      if !usable sigma then .last { s with directions, rho } .breakdown
      else
        let alpha := rho / sigma
        .next { s with
          x := Vec.add s.x (Vec.scale alpha (directions.headD []))
          residuals := appendPower p.map (reduceEach alpha s.residuals (directions.drop 1))
          directions, rho, alpha
          steps := s.steps + 1 }

def biSteps (p : Setup α) : Nat → State α → Progress α
  | 0, s => .next s
  | n + 1, s => (biStep p s).andThen (biSteps p n)

/-- The step that minimises the residual, and the judgement on what it reached. -/
def minimize (p : Setup α) (s : State α) : Progress α :=
  let gamma := p.fit (s.residuals.drop 1) s.residual
  if !gamma.all Scalar.isFinite then .last s .breakdown
  else
    let omega := gamma.getLastD 0
    let residual := Vec.subCombination s.residual gamma (s.residuals.drop 1)
    let s := { s with
      x := Vec.addCombination s.x gamma s.residuals
      residuals := [residual]
      directions := [Vec.subCombination (s.directions.headD []) gamma (s.directions.drop 1)]
      omega }
    let size := Vec.norm residual
    if !Scalar.isFinite size then .last s .breakdown
    else if size ≤ p.tolerance then .last s .converged
    else if isZero omega then .last s .stagnation
    else .next s

def cycle (p : Setup α) (length : Nat) (s : State α) : Progress α :=
  (biSteps p length { s with rho := -s.omega * s.rho }).andThen (minimize p)

/-- Cycles until one is the last; every cycle takes a step, so that `fuel` cycles exhaust a budget of as many steps. -/
def cycles (p : Setup α) (length : Nat) : Nat → State α → State α × Outcome
  | 0, s => (s, .stepLimit)
  | fuel + 1, s =>
    if p.budget ≤ s.steps then (s, .stepLimit)
    else match cycle p length s with
      | .last s why => (s, why)
      | .next s => cycles p length fuel s

/-- One pass from an iterate and its residual. -/
def pass (map : Vec α → Vec α) (fit : LeastSquares α) (length : Nat) (tolerance : α) (budget : Nat)
    (x r : Vec α) : State α × Outcome :=
  cycles ⟨map, r, tolerance, budget, fit⟩ length budget
    ⟨x, [r], [Vec.zeros r.length], 1, 0, 1, 0⟩

/-- The inverse of a diagonal, with one in place of a zero. -/
def inverseDiagonal (d : Vec α) : Vec α := d.map fun a => if isZero a then 1 else 1 / a

/-- The entries by which a direction is scaled before the map is applied. -/
def scaling (a : Operator α) (n : Nat) : Option String → Except Failure (Vec α)
  | none => pure (List.replicate n 1)
  | some "jacobi" => match a.diagonal with
    | some d => pure (inverseDiagonal d)
    | none => throw (.illTyped .jacobi)
  | some name => throw (.invalid (.preconditioner name))

/-- Between passes: the best iterate, its true residual and the size of that, and the iterate that the next pass starts from. -/
structure Search (α : Type) where
  x : Vec α
  residual : Vec α
  size : α
  start : Vec α
  steps : Nat
  passes : Nat

def Search.begin (a : Operator α) (b weights x : Vec α) : Search α :=
  let residual := Vec.sub b (a.apply x)
  ⟨x, residual, Vec.norm residual, Vec.div x weights, 0, 0⟩

/-- One pass, whose iterate is taken if its true residual is smaller; and whether another pass may follow. -/
def Search.pass (a : Operator α) (b : Vec α) (fit : LeastSquares α) (weights : Vec α) (length : Nat)
    (tolerance : α) (maxSteps : Nat) (s : Search α) : Search α × Bool :=
  let map := fun v => a.apply (Vec.mul weights v)
  let (last, outcome) := Krylov.pass map fit length tolerance (maxSteps - s.steps) s.start s.residual
  let s := { s with passes := s.passes + 1, steps := s.steps + last.steps }
  let x := Vec.mul weights last.x
  let residual := Vec.sub b (a.apply x)
  let size := Vec.norm residual
  if !Scalar.isFinite size then (s, false)
  else
    let s := if size < s.size || outcome = .converged then { s with x, residual, size } else s
    ({ s with start := Vec.div s.x weights }, last.steps != 0)

/-- Passes until the residual is small enough, the limits are reached, or a pass takes no step. -/
def search (a : Operator α) (b : Vec α) (fit : LeastSquares α) (weights : Vec α) (length : Nat)
    (tolerance : α) (maxSteps : Nat) : Nat → Search α → Search α
  | 0, s => s
  | fuel + 1, s =>
    if !(tolerance < s.size) || maxSteps ≤ s.steps then s
    else match s.pass a b fit weights length tolerance maxSteps with
      | (s, true) => search a b fit weights length tolerance maxSteps fuel s
      | (s, false) => s

/-- Solves `a x = b` from the iterate `x0`, or from zero. -/
def solve (fit : LeastSquares α) (settings : KrylovSettings α) (a : Operator α) (b : Vec α)
    (x0 : Option (Vec α)) : Except Failure (KrylovResult α) := do
  if settings.cycle < 1 then throw (.invalid .restartLength)
  let n := b.length
  let weights ← scaling a n settings.preconditioner
  let target := Vec.norm b
  if isZero target then return ⟨Vec.zeros n, true, 0, 0, 0⟩
  let tolerance := settings.tolerance * target
  let x := x0.getD (Vec.zeros n)
  let found := search a b fit weights settings.cycle.toNat tolerance settings.maxSteps.toNat
    settings.maxPasses.toNat (.begin a b weights x)
  pure ⟨found.x, found.size ≤ tolerance, found.steps, found.passes, found.size⟩

end Krylov

end Galerkin.Linear
