import Mathlib
import Galerkin.Proofs.ConsistentTangent
import Galerkin.Proofs.TimeStepping.Storage

/-!
A run can be cut in two. A run of `n` steps and a run of `m` more leave the simulation as one run of `n + m` steps does,
and show the same snapshots, if no step fails and nothing but the number of steps ends a run.
-/

namespace Galerkin

open Linear

/-! ### Steps without failure -/

namespace Runner

variable {σ α ω : Type}

/-- So many steps of one size, none of which fails: what is seen after each of them, and the state they lead to. -/
inductive Uninterrupted (r : Runner σ α ω) (dt : α) : Nat → σ → List ω → σ → Prop
  | stop {s} : Uninterrupted r dt 0 s [] s
  | step {n s s' views final} (made : r.attempt dt s = (.ok (), s'))
      (rest : Uninterrupted r dt n (r.observe s').2 views final) :
      Uninterrupted r dt (n + 1) s ((r.observe s').1 :: views) final

section Uninterrupted

variable {r : Runner σ α ω} {dt : α} {n m : Nat} {s final : σ} {views : List ω}

theorem uninterrupted_add : Uninterrupted r dt (n + m) s views final ↔
    ∃ mid first second, Uninterrupted r dt n s first mid ∧ Uninterrupted r dt m mid second final ∧
      views = first ++ second := by
  induction n generalizing s views with
  | zero =>
      rw [Nat.zero_add]
      constructor
      · intro run
        exact ⟨s, [], views, .stop, run, rfl⟩
      · rintro ⟨mid, first, second, start, run, rfl⟩
        cases start with
        | stop => exact run
  | succ n ih =>
      rw [Nat.succ_add]
      constructor
      · intro run
        cases run with
        | step made rest =>
            obtain ⟨mid, first, second, before, after, rfl⟩ := ih.mp rest
            exact ⟨mid, _ :: first, second, .step made before, after, rfl⟩
      · rintro ⟨mid, first, second, before, after, rfl⟩
        cases before with
        | step made rest => exact .step made (ih.mpr ⟨mid, _, second, rest, after, rfl⟩)

/-- What holds at the start, and after each step that does not fail, holds in the end. -/
theorem Uninterrupted.invariant {P : σ → Prop} (run : Uninterrupted r dt n s views final) (start : P s)
    (kept : ∀ s s', P s → r.attempt dt s = (.ok (), s') → P (r.observe s').2) : P final := by
  induction run with
  | stop => exact start
  | step made rest ih => exact ih (kept _ _ start made)

end Uninterrupted

variable [Arithmetic α] {r : Runner σ α ω} {p : StepPolicy α} {dt : α} {n : Nat} {s final : σ} {views : List ω}

theorem Uninterrupted.tryStep {s' : σ} (made : r.attempt dt s = (.ok (), s')) (k : Nat) (error : Option Failure) :
    r.tryStep p k dt error s = .done dt error s' := by
  cases k with
  | zero => rw [Runner.tryStep, made]
  | succ k => rw [Runner.tryStep, made]

theorem Uninterrupted.steps (never : ∀ w, r.steady w = .ok false) (run : Uninterrupted r dt n s views final)
    (seen : List ω) : r.steps p n ⟨dt, none, seen, s⟩ =
      (.ok ⟨.maxSteps, (seen ++ views).length, seen ++ views, none⟩, final) := by
  induction run generalizing seen with
  | stop =>
      rw [Runner.steps, List.append_nil]
      rfl
  | @step n s s' views final made rest ih =>
      have later := ih (seen ++ [(r.observe s').1])
      rw [List.append_assoc, List.singleton_append] at later
      rw [steps_succ, Uninterrupted.tryStep made, afterStep]
      dsimp only
      rw [never]
      exact later

/-- A course in which nothing failed and nothing was found steady is one of uninterrupted steps. -/
theorem Course.uninterrupted (never : ∀ w, r.steady w = .ok false) {k : Nat} {log : List (Trial σ α)}
    {status : RunStatus} (course : Course r p n k dt s log (.ok status) final) (unfailing : Trial.failures log = []) :
    status = .maxSteps ∧ Uninterrupted r dt n s (r.views log) final := by
  generalize outcome : Except.ok status = e at course
  induction course with
  | full =>
      cases outcome
      exact ⟨rfl, .stop⟩
  | done made unsteady rest ih =>
      obtain ⟨ended, run⟩ := ih unfailing outcome
      exact ⟨ended, .step made run⟩
  | steady made held =>
      rw [never] at held
      cases held
  | unclear => cases outcome
  | rejected => cases unfailing
  | givenUp => cases unfailing
  | aborted => cases outcome

/-- A run reports no failure exactly if its steps are uninterrupted. -/
theorem run_eq_ok_iff (never : ∀ w, r.steady w = .ok false) (n : Nat) {result : RunResult ω} :
    r.run p n s = (.ok result, final) ∧ result.error = none ↔
      ∃ views, Uninterrupted r p.dt n s views final ∧ result = ⟨.maxSteps, views.length, views, none⟩ := by
  constructor
  · rintro ⟨done, unfailing⟩
    obtain ⟨log, e, last, course, same⟩ := run_course r p n s
    rw [done] at same
    cases e with
    | error f => cases same
    | ok status =>
        cases same
        have none : Trial.failures log = [] := by
          rw [summary, Option.or_none] at unfailing
          exact List.getLast?_eq_none_iff.mp unfailing
        obtain ⟨rfl, run⟩ := course.uninterrupted never none
        refine ⟨r.views log, run, ?_⟩
        simp [summary, none]
  · rintro ⟨views, run, rfl⟩
    exact ⟨run.steps never [], rfl⟩

end Runner

/-! ### Runs of a simulation -/

namespace Simulation

section March

variable {α : Type} {sim sim' : Simulation α} {p : Problem α}

/-- No criterion ends a run. -/
def never (_ : Snapshot α) : Except Failure Bool := .ok false

/-- A march that is put back into a simulation is found there again. -/
theorem problem_setMarch (present : sim.domain.problem = .ok p) (march : March α) :
    (sim.setMarch march).domain.problem = .ok march.problem := by
  obtain ⟨x, here, -⟩ := Outcome.bind_eq_ok.mp present
  unfold Domain.discretized at here
  split at here
  · next y found =>
      rw [setMarch, Domain.setProblem, Domain.problem, Domain.discretized, Domain.modifyDiscretization]
      dsimp only
      rw [found]
      rfl
  · cases here

theorem setMarch_setMarch (first second : March α) : (sim.setMarch first).setMarch second = sim.setMarch second := by
  obtain ⟨⟨mesh, pieces, parameters, discretization⟩, blocks, stepper⟩ := sim
  cases discretization <;> cases stepper <;> rfl

theorem ask_eq_ok {β : Type} {question : Domain α → Except Failure β} {b : β} :
    (ask question).run.run sim = (.ok b, sim') ↔ question sim.domain = .ok b ∧ sim' = sim := by
  change (question sim.domain, sim) = (.ok b, sim') ↔ _
  rw [Prod.mk.injEq, eq_comm (a := sim)]

theorem march_eq_ok {β : Type} {work : Stepper α → March α → Except Failure β × March α} {b : β} :
    (Simulation.march work).run.run sim = (.ok b, sim') ↔ ∃ s p march, sim.stepper = some s ∧
      sim.domain.problem = .ok p ∧ work s (marchOf s p) = (.ok b, march) ∧ sim' = sim.setMarch march := by
  unfold Simulation.march
  constructor
  · intro done
    obtain ⟨start, _, got, done⟩ := Outcome.run_bind_eq_ok.mp done
    cases got
    split at done
    · next s started =>
        obtain ⟨p, later, asked, done⟩ := Outcome.run_bind_eq_ok.mp done
        obtain ⟨present, same⟩ := ask_eq_ok.mp asked
        cases same
        have done : ((work s (marchOf s p)).1, sim.setMarch (work s (marchOf s p)).2) = (.ok b, sim') := done
        obtain ⟨result, same⟩ := Prod.mk.inj done
        exact ⟨s, p, (work s (marchOf s p)).2, started, present, Prod.ext result rfl, same.symm⟩
    · cases done
  · rintro ⟨s, p, march, started, present, done, rfl⟩
    refine Outcome.run_bind_eq_ok.mpr ⟨sim, sim, rfl, ?_⟩
    rw [started]
    refine Outcome.run_bind_eq_ok.mpr ⟨p, sim, ask_eq_ok.mpr ⟨present, rfl⟩, ?_⟩
    change ((work s (marchOf s p)).1, sim.setMarch (work s (marchOf s p)).2) = _
    rw [done]

/-- The stepper where a march has come to. -/
def resumed (s : Stepper α) (m : March α) : Stepper α := { s with phase := m.phase, step := m.step, history := m.history }

theorem stepper_setMarch {s : Stepper α} (started : sim.stepper = some s) (m : March α) :
    (sim.setMarch m).stepper = some (resumed s m) := by
  rw [setMarch, started]
  rfl

end March

variable {α : Type} [Scalar α] {num : Numerics α} {sim sim' : Simulation α} {n m : Nat} {report : RunReport α}

/-- A finished run is reported with the time and the history that it leads to. -/
theorem run_eq_ok {k : Int} {steady : Snapshot α → Except Failure Bool} {report : RunReport α} :
    (run num (some k) steady).run.run sim = (.ok report, sim') ↔
      ∃ s p result march, sim.stepper = some s ∧ sim.domain.problem = .ok p ∧
        (runner num s steady).run s.policy k (marchOf s p.gather) = (.ok result, march) ∧
        report = ⟨result, march.problem.unknowns.t, march.history⟩ ∧ sim' = sim.setMarch march := by
  have reported (t : Except Failure (RunResult (Snapshot α)) × March α) (march : March α) :
      (t.1.map fun result => (⟨result, t.2.problem.unknowns.t, t.2.history⟩ : RunReport α), t.2) = (.ok report, march) ↔
        ∃ result, t = (.ok result, march) ∧ report = ⟨result, march.problem.unknowns.t, march.history⟩ := by
    rcases t with ⟨f | result, last⟩
    · simp [Except.map]
    · simp only [Except.map, Prod.mk.injEq, Except.ok.injEq]
      constructor
      · rintro ⟨rfl, rfl⟩
        exact ⟨result, ⟨rfl, rfl⟩, rfl⟩
      · rintro ⟨_, ⟨rfl, rfl⟩, rfl⟩
        exact ⟨rfl, rfl⟩
  rw [run, march_eq_ok]
  constructor
  · rintro ⟨s, p, march, started, present, done, rfl⟩
    obtain ⟨result, made, same⟩ := (reported _ _).mp done
    exact ⟨s, p, result, march, started, present, made, same, rfl⟩
  · rintro ⟨s, p, result, march, started, present, made, same, rfl⟩
    exact ⟨s, p, march, started, present, (reported _ _).mpr ⟨result, made, same⟩, rfl⟩

/-- A run without failure is one of uninterrupted steps from what the control points hold. -/
theorem run_unfailing_iff : (run num (some (n : Int)) never).run.run sim = (.ok report, sim') ∧ report.result.error = none ↔
    ∃ s p views last, sim.stepper = some s ∧ sim.domain.problem = .ok p ∧
      (runner num s never).Uninterrupted s.policy.dt n (marchOf s p.gather) views last ∧
      report = ⟨⟨.maxSteps, views.length, views, none⟩, last.problem.unknowns.t, last.history⟩ ∧
      sim' = sim.setMarch last := by
  rw [run_eq_ok]
  constructor
  · rintro ⟨⟨s, p, result, last, started, present, made, rfl, rfl⟩, unfailing⟩
    obtain ⟨views, steps, rfl⟩ := (Runner.run_eq_ok_iff (fun _ => rfl) n).mp ⟨made, unfailing⟩
    exact ⟨s, p, views, last, started, present, steps, rfl, rfl⟩
  · rintro ⟨s, p, views, last, started, present, steps, rfl, rfl⟩
    obtain ⟨made, unfailing⟩ := (Runner.run_eq_ok_iff (r := runner num s never) (fun _ => rfl) n).mpr ⟨views, steps, rfl⟩
    exact ⟨⟨s, p, _, last, started, present, made, rfl, rfl⟩, unfailing⟩

/-- Steps from what the control points hold lead to what they hold. -/
theorem settled_of_uninterrupted {s : Stepper α} {first last : March α} {views : List (Snapshot α)} {dt : α}
    (steps : (runner num s never).Uninterrupted dt n first views last) (settled : first.problem.Settled) :
    last.problem.Settled := by
  refine steps.invariant (P := fun march => march.problem.Settled) settled fun march march' settled made => ?_
  rw [TimeStepping.simulation_runner] at made
  have ⟨report, done⟩ := TimeStepping.attempt_eq_ok made
  have reached := TimeStepping.advance_settled (machinery_sized num s) settled done
  have same : ((runner num s never).observe march').2.problem = march'.problem := reached.store
  rw [same]
  exact reached

/-- A run that goes on from where another one came to. -/
theorem run_resumed_iff {mid : March α} (settled : mid.problem.Settled) {s : Stepper α} {p : Problem α}
    (started : sim.stepper = some s) (present : sim.domain.problem = .ok p) :
    (run num (some (m : Int)) never).run.run (sim.setMarch mid) = (.ok report, sim') ∧ report.result.error = none ↔
      ∃ views last, (runner num s never).Uninterrupted s.policy.dt m mid views last ∧
        report = ⟨⟨.maxSteps, views.length, views, none⟩, last.problem.unknowns.t, last.history⟩ ∧
        sim' = sim.setMarch last := by
  rw [run_unfailing_iff]
  have again : marchOf (resumed s mid) mid.problem.gather = mid := by
    rw [settled.read]
    rfl
  constructor
  · rintro ⟨s', p', views, last, started', present', steps, rfl, rfl⟩
    rw [stepper_setMarch started] at started'
    rw [problem_setMarch present] at present'
    cases started'
    cases present'
    rw [again] at steps
    exact ⟨views, last, steps, rfl, setMarch_setMarch mid last⟩
  · rintro ⟨views, last, steps, rfl, rfl⟩
    rw [← again] at steps
    exact ⟨resumed s mid, mid.problem, views, last, stepper_setMarch started mid, problem_setMarch present mid, steps, rfl,
      (setMarch_setMarch mid last).symm⟩

/-- Two runs one after the other, neither of which fails, and what they report together. -/
def Restarts (num : Numerics α) (n m : Nat) (sim sim' : Simulation α) (report : RunReport α) : Prop :=
  ∃ mid first second, (run num (some (n : Int)) never).run.run sim = (.ok first, mid) ∧ first.result.error = none ∧
    (run num (some (m : Int)) never).run.run mid = (.ok second, sim') ∧ second.result.error = none ∧
    report = ⟨⟨.maxSteps, first.result.steps + second.result.steps, first.result.seen ++ second.result.seen, none⟩,
      second.t, second.history⟩

theorem stored_of_run (stored : sim.domain.Stored)
    (done : (run num (some (n : Int)) never).run.run sim = (.ok report, sim') ∧ report.result.error = none) :
    sim'.domain.Stored := by
  obtain ⟨s, p, views, last, started, present, steps, -, rfl⟩ := run_unfailing_iff.mp done
  intro q found
  rw [problem_setMarch present] at found
  cases found
  exact (settled_of_uninterrupted steps (stored p present).gather).stored

theorem restarts_iff (stored : sim.domain.Stored) :
    (run num (some ((n + m : Nat) : Int)) never).run.run sim = (.ok report, sim') ∧ report.result.error = none ↔
      Restarts num n m sim sim' report := by
  rw [run_unfailing_iff]
  constructor
  · rintro ⟨s, p, views, last, started, present, steps, rfl, rfl⟩
    obtain ⟨mid, first, second, before, after, rfl⟩ := Runner.uninterrupted_add.mp steps
    have settled := settled_of_uninterrupted before (stored p present).gather
    obtain ⟨done, unfailing⟩ := run_unfailing_iff.mpr ⟨s, p, first, mid, started, present, before, rfl, rfl⟩
    obtain ⟨done', unfailing'⟩ := (run_resumed_iff settled started present).mpr ⟨second, last, after, rfl, rfl⟩
    refine ⟨_, _, _, done, unfailing, done', unfailing', ?_⟩
    rw [List.length_append]
  · rintro ⟨mid, first, second, done, unfailing, done', unfailing', rfl⟩
    obtain ⟨s, p, views, march, started, present, before, rfl, rfl⟩ := run_unfailing_iff.mp ⟨done, unfailing⟩
    have settled := settled_of_uninterrupted before (stored p present).gather
    obtain ⟨views', last, after, rfl, rfl⟩ := (run_resumed_iff settled started present).mp ⟨done', unfailing'⟩
    refine ⟨s, p, views ++ views', last, started, present, ?_, ?_, rfl⟩
    · exact Runner.uninterrupted_add.mpr ⟨march, views, views', before, after, rfl⟩
    · rw [List.length_append]

/-- A run of `n + m` steps without failure is a run of `n` steps followed by one of `m`: they lead to the same simulation,
with everything that is in it, and show the same snapshots. This is so for every domain that was discretized, and for
what any such run makes of it. -/
theorem run_restarts (num : Numerics α) :
    (∀ (d d' : Domain α) (family : String) (order : Number) (quadratureOrder : Option Int),
      (Domain.discretize family order quadratureOrder).run.run d = (.ok (), d') → d'.Stored) ∧
    ∀ (sim sim' : Simulation α) (n m : Nat) (report : RunReport α), sim.domain.Stored →
      ((run num (some ((n + m : Nat) : Int)) never).run.run sim = (.ok report, sim') ∧ report.result.error = none ↔
        Restarts num n m sim sim' report) ∧
      (Restarts num n m sim sim' report → sim'.domain.Stored) := by
  constructor
  · intro d d' family order quadratureOrder done
    exact Domain.discretize_stored done
  · intro sim sim' n m report stored
    have cut : (run num (some ((n + m : Nat) : Int)) never).run.run sim = (.ok report, sim') ∧
        report.result.error = none ↔ Restarts num n m sim sim' report := restarts_iff stored
    exact ⟨cut, fun both => stored_of_run stored (cut.mpr both)⟩

section Rest

/-- A stepper of the middle rule for the rod. -/
noncomputable def rodStepper : Stepper ℝ :=
  ⟨TimeStepping.strict, ⟨1, 10, 1, 1, 0⟩, ⟨1, .int 1⟩, .standard, .theta (1 / 2 : ℚ), [rodBlock], .idle, 0, []⟩

noncomputable def rodNumerics : Numerics ℝ := ⟨midpointRules, LeastSquares.shortest⟩

/-- A rod whose values and rates vanish. -/
noncomputable def restingRod : Simulation ℝ := ⟨compiledRod, none, some rodStepper⟩

/-- Is this a problem of the rod in which nothing moves? -/
structure AtRest (p : Problem ℝ) : Prop where
  dofs : p.dofs = ⟨1, #[some 0, some 1], 2⟩
  prescribed : p.points.prescribed = #[[], []]
  x : p.unknowns.x = [0, 0]
  rate : p.unknowns.rate = [0, 0]

theorem elementSystem_still {inputs : Kernel.Inputs ℝ} (state : inputs.state = ⟨1, 2, 1, #[0, 0]⟩)
    (rate : inputs.rate = ⟨1, 2, 1, #[0, 0]⟩) (weight : ℝ) :
    ∃ sys, storageKernel.elementSystem inputs weight 2 0 [midpoint] = .ok sys ∧ sys.residual = [0, 0] := by
  have slots : storageKernel.slots.toArray.mapM (Kernel.slotValue inputs 0 midpoint) = Except.ok #[0, 0] := by
    rw [List.mapM_toArray]
    simp [storageKernel, Kernel.slotValue, Kernel.basisRow, Kernel.interpolated, state, rate, NodalValues.get,
      Arithmetic.total, midpoint]
  have rows : storageKernel.slots.toArray.mapM (fun s => Kernel.basisRow midpoint s.axis) =
      Except.ok #[midpoint.basis, midpoint.basis] := by
    rw [List.mapM_toArray]
    simp [storageKernel, Kernel.basisRow]
  have nothing : Arithmetic.isZero (0 : ℝ) = true := (isZero_iff 0).mpr rfl
  obtain ⟨w, point, zero⟩ : ∃ w, storageKernel.addPoint inputs weight 2 0 (.zero 2 2) midpoint = .ok w ∧
      w.residual.toList = [0, 0] := by
    refine ⟨_, Outcome.bind_eq_ok.mpr ⟨_, slots, Outcome.bind_eq_ok.mpr ⟨_, rows, rfl⟩⟩, ?_⟩
    simp [storageKernel, Kernel.assign, Kernel.withTemporaries, Kernel.addDensities, Kernel.Workspace.zero,
      List.range_succ, Formula.eval, nothing]
  refine ⟨_, Outcome.bind_eq_ok.mpr ⟨w, ?_, rfl⟩, zero⟩
  rw [List.foldlM_cons]
  exact Outcome.bind_eq_ok.mpr ⟨w, point, rfl⟩

/-- A rod at rest has no residual. -/
theorem assemble_still {p : Problem ℝ} (rest : AtRest p) (weight : ℝ) :
    ∃ sys, systemOf [rodBlock] p [0, 0] [0, 0] weight = .ok sys ∧ sys.residual = [0, 0] := by
  have still : rodBlock.gather ([0, 0] : Vec ℝ) = ⟨1, 2, 1, #[0, 0]⟩ := by
    simp [Block.gather, rodBlock, storageKernel]
  let inputs : Kernel.Inputs ℝ :=
    ⟨rodBlock.gather [0, 0], rodBlock.gather [0, 0], rodBlock.gatherPrescribed #[[], []], []⟩
  obtain ⟨system, done, zero⟩ : ∃ sys, storageKernel.elementSystem inputs weight 2 0 [midpoint] = .ok sys ∧
      sys.residual = [0, 0] := elementSystem_still still still weight
  have evaluated : storageKernel.evaluate rodBlock.tab (rodBlock.gather [0, 0]) (some (rodBlock.gather [0, 0]))
      (some (rodBlock.gatherPrescribed #[[], []])) (.named p.parameters) weight = .ok [system] := by
    refine Kernel.evaluate_eq_ok.mpr ⟨rfl, rfl, ?_, [], rfl, ?_⟩
    · decide
    · exact .cons done .nil
  have contributions : rodBlock.contributions ⟨p.parameters, #[[], []], [0, 0], [0, 0], weight⟩ =
      .ok [⟨[0, 1], system⟩] := Outcome.bind_eq_ok.mpr ⟨[system], evaluated, rfl⟩
  refine ⟨.ofContributions 2 [⟨[0, 1], system⟩], ?_, ?_⟩
  · rw [systemOf, rest.prescribed, rest.dofs]
    exact Outcome.bind_eq_ok.mpr ⟨_, Outcome.mapM_eq_ok.mpr (.cons contributions .nil), rfl⟩
  · simp [System.ofContributions, Contribution.addResidual, zero]

/-- A step from rest ends at rest. -/
theorem advance_still {m : March ℝ} (rest : AtRest m.problem) : ∃ report m',
    advance rodNumerics rodStepper (.ofScalar 1) m = (.ok report, m') ∧ AtRest m'.problem := by
  let scheme : TimeScheme ℝ := .theta (1 / 2 : ℚ)
  obtain ⟨weight, weighs⟩ : ∃ weight, scheme.weight 1 = .ok weight :=
    TimeScheme.weight_isOk (show scheme.Proper from ⟨by norm_num, by norm_num⟩) one_pos
  have begun : AtRest (m.commence (m.problem.unknowns.t + 1)).problem := ⟨rest.dofs, rest.prescribed, rest.x, rest.rate⟩
  obtain ⟨system, assembled, zero⟩ := assemble_still begun weight
  let p := TimeStepping.equations (machinery rodNumerics rodStepper) scheme 1 weight
    (m.commence (m.problem.unknowns.t + 1)).problem
  have rate : p.rate [0, 0] = [0, 0] := by
    change scheme.rate [0, 0] m.problem.unknowns.x m.problem.unknowns.rate 1 = _
    rw [rest.x, rest.rate]
    simp [TimeScheme.rate, TimeScheme.share?, scheme, Vec.sub, Vec.scale]
  have solved : Newton.solve TimeStepping.strict p (m.problem.unknowns.t + 1) m.problem.unknowns.x =
      .ok ⟨[0, 0], p.rate [0, 0], some system, 1, true⟩ := by
    rw [rest.x]
    refine Newton.solve_of_smallResidual _ (by decide) ?_ rfl (decide_eq_true ?_)
    · rw [rate]
      exact assembled
    · rw [zero]
      simp [Vec.maxNorm, Arithmetic.largest, Arithmetic.max, Arithmetic.abs, TimeStepping.strict]
  refine ⟨_, _, TimeStepping.advance_eq_ok.mpr ⟨weight, _, system, not_le_of_gt one_pos, weighs, solved, rfl, rfl, rfl⟩, ?_⟩
  exact ⟨rest.dofs, rest.prescribed, rfl, rate⟩

/-- A rod at rest stays there for any number of steps. -/
theorem uninterrupted_still (n : Nat) {m : March ℝ} (rest : AtRest m.problem) : ∃ views final,
    (runner rodNumerics rodStepper never).Uninterrupted 1 n m views final := by
  induction n generalizing m with
  | zero => exact ⟨[], m, .stop⟩
  | succ n ih =>
      obtain ⟨report, m', done, still⟩ := advance_still rest
      have made : (runner rodNumerics rodStepper never).attempt 1 m = (.ok (), m') := by
        unfold runner
        simp only [done]
        rfl
      obtain ⟨views, final, later⟩ := ih (m := ((runner rodNumerics rodStepper never).observe m').2)
        ⟨still.dofs, still.prescribed, still.x, still.rate⟩
      exact ⟨_, _, .step made later⟩

/-- Two steps of a rod at rest. -/
theorem run_restarts_rod : ∃ sim report, (run rodNumerics (some 2) never).run.run restingRod = (.ok report, sim) ∧
    report.result.error = none ∧ Restarts rodNumerics 1 1 restingRod sim report ∧ sim.domain.Stored := by
  obtain ⟨discretized, cut⟩ := run_restarts rodNumerics
  have stored : compiledRod.Stored := fun p present => discretized _ _ _ _ _ discretize_rod p present
  obtain ⟨views, last, steps⟩ := uninterrupted_still 2 (m := marchOf rodStepper rodProblem.gather)
    ⟨rfl, rfl, rfl, rfl⟩
  have ⟨done, unfailing⟩ : _ ∧ _ := run_unfailing_iff.mpr
    ⟨rodStepper, rodProblem, views, last, Eq.refl restingRod.stepper, rfl, steps, rfl, rfl⟩
  obtain ⟨iff, kept⟩ := cut restingRod _ 1 1 _ stored
  have both := iff.mp ⟨done, unfailing⟩
  exact ⟨_, _, done, unfailing, both, kept both⟩

end Rest
end Simulation

end Galerkin
