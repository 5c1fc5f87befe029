import Galerkin.Failure
import Galerkin.Arithmetic

/-!
Runs of many time steps. A step that fails recoverably is tried again with a smaller size, as often
and as far down as the policy allows; the smaller size stays. A run ends at a steady state, after its
last step, or when a step is given up. What a step is, is a parameter.
-/

namespace Galerkin

/-- How sizes of steps are chosen, and how long a run goes on. -/
structure StepPolicy (α : Type) where
  dt : α
  maxSteps : Int
  /-- No step is tried again with a size below this one. -/
  dtMin : α
  /-- The factor that makes a size smaller. -/
  reduction : α
  /-- How often one step is tried again. -/
  maxRetries : Int
  deriving Repr

/-- How a run came to its end. -/
inductive RunStatus where
  | steady | maxSteps | diverged
  deriving DecidableEq, Repr

def RunStatus.name : RunStatus → String
  | steady => "steady"
  | maxSteps => "max_steps"
  | diverged => "diverged"

/-- One try at a step of some size. -/
abbrev Attempt (σ α : Type) := α → σ → Except Failure Unit × σ

/-- What became of a step. -/
inductive StepOutcome (σ α : Type) where
  /-- It was done with size `dt`, after the failures of which `error` is the last in the run. -/
  | done (dt : α) (error : Option Failure) (state : σ)
  | givenUp (error : Failure) (state : σ)
  /-- It failed in a way that no smaller size can avoid. -/
  | aborted (error : Failure) (state : σ)

/-- What a run needs to know of the simulation it runs. -/
structure Runner (σ α ω : Type) where
  attempt : Attempt σ α
  /-- What can be seen after a step, and the simulation after it was looked at. -/
  observe : σ → ω × σ
  /-- Does what was seen end the run? -/
  steady : ω → Except Failure Bool

structure RunResult (ω : Type) where
  status : RunStatus
  steps : Nat
  /-- What was seen after each step. -/
  seen : List ω
  /-- The last failure in the run. -/
  error : Option Failure
  deriving Repr

/-- A run in progress. -/
structure RunState (σ α ω : Type) where
  dt : α
  error : Option Failure
  seen : List ω
  state : σ

namespace RunState

variable {σ α ω : Type}

def finish (s : RunState σ α ω) (status : RunStatus) : Except Failure (RunResult ω) × σ :=
  (.ok ⟨status, s.seen.length, s.seen, s.error⟩, s.state)

end RunState

namespace Runner

variable {σ α ω : Type} [Arithmetic α]

/-- Tries a step with smaller and smaller sizes, at most `retries` times after the first. -/
def tryStep (r : Runner σ α ω) (p : StepPolicy α) : Nat → α → Option Failure → σ → StepOutcome σ α
  | retries, dt, error, state =>
    match r.attempt dt state with
    | (.ok _, state) => .done dt error state
    | (.error f, state) =>
      if !f.recoverable then .aborted f state
      else
        match retries with
        | 0 => .givenUp f state
        | n + 1 =>
          if dt * p.reduction < p.dtMin then .givenUp f state
          else tryStep r p n (dt * p.reduction) (some f) state

/-- At most so many further steps. -/
def steps (r : Runner σ α ω) (p : StepPolicy α) :
    Nat → RunState σ α ω → Except Failure (RunResult ω) × σ
  | 0, s => s.finish .maxSteps
  | n + 1, s =>
    match r.tryStep p p.maxRetries.toNat s.dt s.error s.state with
    | .aborted f state => (.error f, state)
    | .givenUp f state => { s with error := some f, state }.finish .diverged
    | .done dt error state =>
      let (view, state) := r.observe state
      let s : RunState σ α ω := ⟨dt, error, s.seen ++ [view], state⟩
      match r.steady view with
      | .error f => (.error f, state)
      | .ok true => s.finish .steady
      | .ok false => steps r p n s

/-- A run of at most `maxSteps` steps. -/
def run (r : Runner σ α ω) (p : StepPolicy α) (maxSteps : Int) (state : σ) :
    Except Failure (RunResult ω) × σ :=
  r.steps p maxSteps.toNat ⟨p.dt, none, [], state⟩

end Runner

end Galerkin
