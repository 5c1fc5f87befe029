import Galerkin.ControlPoints
import Galerkin.Newton
import Galerkin.TimeScheme

/-!
One time step. A step remembers the state it starts from, solves for the new one and stores it; if it
fails in a way that a smaller step may avoid, everything but the memory is as before.
-/

namespace Galerkin

open Linear

/-- What a time step reads and changes: the parameters of the forms, the control points, and the numbered unknowns. -/
structure Problem (α : Type) where
  parameters : List (String × α)
  points : ControlPoints α
  dofs : DofMap
  unknowns : Unknowns α
  deriving Repr

namespace Problem

variable {α : Type}

/-- The name of the parameter that holds the time. -/
def timeName : String := "t"

def setTime (p : Problem α) (t : α) : Problem α :=
  { p with parameters := (timeName, t) :: p.parameters.filter (·.1 ≠ timeName) }

/-- Reads the unknowns from the control points. -/
def gather (p : Problem α) : Problem α :=
  let (x, rate) := p.points.gather p.dofs
  { p with unknowns := { p.unknowns with x, rate } }

/-- Writes the unknowns to the control points. -/
def store (p : Problem α) : Problem α :=
  { p with points := p.points.scatter p.dofs p.unknowns.x.toArray p.unknowns.rate.toArray }

end Problem

/-- How systems are assembled and linear systems solved. -/
structure Machinery (α : Type) where
  /-- The system of a problem at values, rates, and the derivative of rates by values. -/
  assemble : Problem α → Vec α → Vec α → α → Except Failure (System α)
  solve : SparseMatrix α → Vec α → Except Failure (Vec α)

/-- A size of time steps, and the number that messages show for it. -/
structure StepSize (α : Type) where
  value : α
  given : Number
  deriving Repr

def StepSize.ofScalar {α : Type} [Scalar α] (dt : α) : StepSize α := ⟨dt, .real (Scalar.toFloat dt)⟩

/-- What a finished step reports. -/
structure StepReport (α : Type) where
  step : Nat
  t : α
  dt : α
  iterations : Nat
  residualNorm : α
  converged : Bool
  deriving Repr

/-- A problem and how far it has been marched. -/
structure March (α : Type) where
  problem : Problem α
  phase : Newton.Phase
  step : Nat
  history : List (StepReport α)
  deriving Repr

namespace March

variable {α : Type}

def start (p : Problem α) : March α := ⟨p, .idle, 0, []⟩

def modifyProblem (m : March α) (f : Problem α → Problem α) : March α :=
  { m with problem := f m.problem }

def modifyUnknowns (m : March α) (f : Unknowns α → Unknowns α) : March α :=
  m.modifyProblem fun p => { p with unknowns := f p.unknowns }

/-- The march at the start of a step to time `t`. -/
def commence (m : March α) (t : α) : March α := (m.modifyUnknowns (·.commit)).modifyProblem (·.setTime t)

/-- The march after a failed step that started at time `t`. -/
def giveUp (m : March α) (t : α) : March α :=
  { (m.modifyUnknowns (·.rollback)).modifyProblem (·.setTime t) with phase := .diverged }

/-- The march with the state that was found, before the rest is stored. -/
def reach (m : March α) (r : Newton.Result α) : March α :=
  { m.modifyUnknowns fun f => { f with x := r.x, rate := r.rate } with phase := .converged }

/-- The march with everything that was found at time `t`. -/
def conclude (m : March α) (system : System α) (t dt : α) (report : StepReport α) : March α :=
  let m := m.modifyUnknowns fun f =>
    { f with residual := system.residual, tangent := some system.tangent, t, dt }
  { m.modifyProblem (·.store) with
    phase := .idle, step := report.step, history := m.history ++ [report] }

end March

namespace TimeStepping

variable {α : Type} [Scalar α]

/-- The equations of a step of size `dt` from the state that a problem remembers. -/
def equations (tools : Machinery α) (scheme : TimeScheme α) (dt weight : α) (p : Problem α) :
    Newton.Equations α :=
  ⟨fun x => scheme.rate x p.unknowns.xPrev p.unknowns.ratePrev dt,
    fun x rate => tools.assemble p x rate weight, tools.solve⟩

/-- Stores what Newton's method found, unless it never assembled a system. -/
def commit (m : March α) (r : Newton.Result α) (t dt : α) : Except Failure (StepReport α) × March α :=
  let m := m.reach r
  match r.system with
  | none => (.error .notAssembled, m)
  | some system =>
    let report : StepReport α :=
      ⟨m.step + 1, t, dt, r.iterations, Vec.maxNorm system.residual, r.converged⟩
    (.ok report, m.conclude system t dt report)

/-- One step of a positive size. -/
def advance (tools : Machinery α) (newton : Newton.Settings α) (scheme : TimeScheme α)
    (dt : StepSize α) (m : March α) : Except Failure (StepReport α) × March α :=
  if dt.value ≤ 0 then (.error (.invalid (.timeStep dt.given)), m)
  else
    let t := m.problem.unknowns.t + dt.value
    let begun := m.commence t
    match scheme.weight dt.value with
    | .error f => (.error f, begun)
    | .ok weight =>
      let equations := equations tools scheme dt.value weight begun.problem
      match Newton.solve newton equations t begun.problem.unknowns.x with
      | .ok r => commit begun r t dt.value
      | .error stop =>
        if stop.failure.recoverable then (.error stop.failure, begun.giveUp m.problem.unknowns.t)
        else (.error stop.failure, { begun with phase := stop.phase })

end TimeStepping

end Galerkin
