import Galerkin.Assembly.System
import Galerkin.Linear.Solver
import Galerkin.Snapshot
import Galerkin.TimeStepping.Run
import Galerkin.TimeStepping.Step

/-!
Simulations: a domain, the blocks it was last assembled with, and a time stepper with blocks of its
own. Work on a simulation changes it as far as it gets.
-/

namespace Galerkin

open Linear

/-- The rules and methods that a simulation computes with. -/
structure Numerics (α : Type) where
  lines : LineRules α
  fit : LeastSquares α

structure Stepper (α : Type) where
  newton : Newton.Settings α
  policy : StepPolicy α
  /-- The size of a step when none is asked for. -/
  dt : StepSize α
  linear : SolverSettings α
  scheme : TimeScheme α
  blocks : List (Block α)
  phase : Newton.Phase
  step : Nat
  history : List (StepReport α)

structure Simulation (α : Type) where
  domain : Domain α
  blocks : Option (List (Block α))
  stepper : Option (Stepper α)

/-- A finished run and where it left the simulation. -/
structure RunReport (α : Type) where
  result : RunResult (Snapshot α)
  t : α
  history : List (StepReport α)
  deriving Repr

namespace Domain

variable {α : Type}

/-- What a time step reads and changes, once the unknowns are numbered. -/
def problem (d : Domain α) : Except Failure (Problem α) := do
  let x ← d.discretized
  let some n := x.numbered | throw .noSuchPart
  pure ⟨d.parameters, x.points, n.dofs, n.unknowns⟩

def setProblem (d : Domain α) (p : Problem α) : Domain α :=
  { modifyDiscretization (fun x => { x with points := p.points, numbered := some ⟨p.dofs, p.unknowns⟩ }) d
    with parameters := p.parameters }

/-- Changes the control points; work without them fails. -/
def changePoints (f : ControlPoints α → Except Failure (ControlPoints α)) : Work α (ControlPoints α) := do
  let x ← ask (·.discretized)
  let points ← (f x.points : Except Failure (ControlPoints α))
  modify (modifyDiscretization fun x => { x with points })
  pure points

/-- Changes what a time step would change. -/
def changeProblem (f : Problem α → Problem α) : Work α (Problem α) := do
  let p ← ask (·.problem)
  modify (·.setProblem (f p))
  pure (f p)

end Domain

namespace Problem

variable {α : Type}

/-- A table for each field of a layout. -/
def tables (l : Layout) (rows : String → Except Failure (List (List α))) : List (String × Grid α) :=
  l.names.filterMap fun n => match l.span? n, rows n with
    | some (_, size), .ok rows => some (n, .table size rows)
    | _, _ => none

/-- What the control points hold. -/
def snapshot (p : Problem α) (step : Int) : Snapshot α :=
  let c := p.points
  ⟨step, p.unknowns.t, .table c.dim c.positions.toList, tables c.internal c.valuesOf,
    tables c.internal c.ratesOf, tables c.external c.externalOf, some (.vector c.occupied.toList)⟩

end Problem

namespace Simulation

variable {α : Type}

abbrev Work (α β : Type) := ExceptT Failure (StateM (Simulation α)) β

def ofMesh (mesh : Mesh α) : Simulation α := ⟨.ofMesh mesh, none, none⟩

/-- Work on the domain of a simulation. -/
def onDomain {β : Type} (work : Domain.Work α β) : Work α β :=
  ExceptT.mk fun s =>
    let (result, domain) := work.run s.domain
    (result, { s with domain })

def ask {β : Type} (question : Domain α → Except Failure β) : Work α β := onDomain (Domain.ask question)

/-- Writes the unknowns to the control points and shows them. -/
def snapshot (step : Int) : Work α (Snapshot α) := do
  pure ((← onDomain (Domain.changeProblem Problem.store)).snapshot step)

section Assembly

variable [Scalar α]

/-- Builds the blocks anew; the old ones are gone even if this fails. -/
def rebuild (num : Numerics α) : Work α (List (Block α)) := do
  modify fun s => { s with blocks := none }
  let blocks ← ask (Block.allOf num.lines)
  modify fun s => { s with blocks := some blocks }
  pure blocks

/-- The blocks built last. -/
def currentBlocks (num : Numerics α) : Work α (List (Block α)) := do
  match (← get).blocks with
  | some blocks => pure blocks
  | none => rebuild num

/-- The system of a problem. -/
def systemOf (blocks : List (Block α)) (p : Problem α) (x rate : Vec α) (rateWeight : α) :
    Except Failure (System α) :=
  Block.assemble blocks p.dofs.count ⟨p.parameters, p.points.prescribed, x, rate, rateWeight⟩

/-- The system at vectors that are made for the number of unknowns. -/
def assemble (num : Numerics α) (x rate : Nat → Except Failure (Vec α)) (rateWeight : α) :
    Work α (System α) := do
  let count ← ask fun d => do
    let some dofs := d.discretization.bind (·.numbered) | throw .noSuchPart
    pure dofs.dofs.count
  let x ← (x count : Except Failure (Vec α))
  let rate ← (rate count : Except Failure (Vec α))
  let blocks ← currentBlocks num
  ask fun d => do systemOf blocks (← d.problem) x rate rateWeight

/-- Starts a time stepper with new blocks. -/
def startStepper (num : Numerics α) (newton : Newton.Settings α) (policy : StepPolicy α)
    (dt : StepSize α) (linear : SolverSettings α) (scheme : TimeScheme α) : Work α (Stepper α) := do
  let blocks ← ask (Block.allOf num.lines)
  let stepper : Stepper α := ⟨newton, policy, dt, linear, scheme, blocks, .idle, 0, []⟩
  modify fun s => { s with stepper := some stepper }
  pure stepper

def machinery (num : Numerics α) (s : Stepper α) : Machinery α :=
  ⟨systemOf s.blocks, fun m b => do pure (← Solver.solve num.fit s.linear (.entries m) b none).x⟩

def advance (num : Numerics α) (s : Stepper α) (dt : StepSize α) (m : March α) :
    Except Failure (StepReport α) × March α :=
  TimeStepping.advance (machinery num s) s.newton s.scheme dt m

def marchOf (s : Stepper α) (p : Problem α) : March α := ⟨p, s.phase, s.step, s.history⟩

/-- Puts a march back into the simulation it was taken from. -/
def setMarch (sim : Simulation α) (m : March α) : Simulation α :=
  { sim with
    domain := sim.domain.setProblem m.problem
    stepper := sim.stepper.map fun s =>
      { s with phase := m.phase, step := m.step, history := m.history } }

/-- Lets the time stepper march. -/
def march {β : Type} (work : Stepper α → March α → Except Failure β × March α) : Work α β := do
  let some stepper := (← get).stepper | throw .absent
  let p ← ask (·.problem)
  ExceptT.mk fun sim =>
    let (result, m) := work stepper (marchOf stepper p)
    (result, sim.setMarch m)

/-- One step, of the size that the stepper was made with unless another is given. -/
def step (num : Numerics α) (dt : Option (StepSize α)) : Work α (StepReport α) :=
  march fun s m => advance num s (dt.getD s.dt) m

def observe (m : March α) : Snapshot α × March α :=
  let m := m.modifyProblem (·.store)
  (m.problem.snapshot m.step, m)

def runner (num : Numerics α) (s : Stepper α) (steady : Snapshot α → Except Failure Bool) :
    Runner (March α) α (Snapshot α) where
  attempt := fun dt m =>
    let (result, m) := advance num s (.ofScalar dt) m
    (result.map fun _ => (), m)
  observe := observe
  steady := steady

/-- Steps from what the control points hold until `steady` or the last step. -/
def run (num : Numerics α) (maxSteps : Option Int) (steady : Snapshot α → Except Failure Bool) :
    Work α (RunReport α) :=
  march fun s m =>
    let (result, m) := (runner num s steady).run s.policy (maxSteps.getD s.policy.maxSteps)
      (m.modifyProblem (·.gather))
    (result.map fun r => ⟨r, m.problem.unknowns.t, m.history⟩, m)

end Assembly

end Simulation

end Galerkin
