import Mathlib
import Galerkin.Proofs.TimeScheme
import Galerkin.Proofs.TimeStepping.Run
import Galerkin.Proofs.TimeStepping.Step
import Galerkin.Simulation

/-!
Runs of a march: a try is one step, and after a finished step the unknowns are stored and shown. The states
that are finished one after the other obey the recurrence of the time scheme.
-/

namespace Galerkin

open Linear

theorem Newton.Path.length_le {α : Type} [Scalar α] {p : Equations α} {x y : Vec α} {solves : List (Solve α)}
    (path : Path p x solves y) : y.length ≤ x.length := by
  induction solves generalizing x with
  | nil =>
    have same : y = x := path
    exact same ▸ le_rfl
  | cons v rest ih =>
    have shorter : (Vec.add x v.increment).length ≤ x.length := by
      rw [Vec.add, List.length_zipWith]
      exact Nat.min_le_left _ _
    exact (ih path.2.2).trans shorter

namespace TimeStepping

/-- Runs of a march with some tools. -/
def runner {α : Type} [Scalar α] (tools : Machinery α) (newton : Newton.Settings α) (scheme : TimeScheme α)
    (steady : Snapshot α → Except Failure Bool) : Runner (March α) α (Snapshot α) where
  attempt dt m :=
    let (result, m) := advance tools newton scheme (.ofScalar dt) m
    (result.map fun _ => (), m)
  observe := Simulation.observe
  steady := steady

theorem simulation_runner {α : Type} [Scalar α] (num : Numerics α) (s : Stepper α)
    (steady : Snapshot α → Except Failure Bool) :
    Simulation.runner num s steady =
      runner (Simulation.machinery num s) s.newton s.scheme steady := rfl

theorem machinery_readsInputs {α : Type} [Scalar α] (num : Numerics α) (s : Stepper α) :
    (Simulation.machinery num s).ReadsInputs := by
  intro p q parameters prescribed dofs
  funext x rate weight
  simp only [Simulation.machinery, Simulation.systemOf, parameters, prescribed, dofs]

theorem attempt_eq_ok {α : Type} [Scalar α] {tools : Machinery α} {newton : Newton.Settings α} {scheme : TimeScheme α}
    {steady : Snapshot α → Except Failure Bool} {dt : α} {m m' : March α}
    (made : (runner tools newton scheme steady).attempt dt m = (.ok (), m')) :
    ∃ report, advance tools newton scheme (.ofScalar dt) m = (.ok report, m') := by
  rcases same : advance tools newton scheme (.ofScalar dt) m with ⟨f | report, there⟩
  · simp only [runner, same] at made
    cases made
  · simp only [runner, same] at made
    cases made
    exact ⟨report, rfl⟩

variable {K : Type} [ExactNumbers K] {tools : Machinery K} {newton : Newton.Settings K} {scheme : TimeScheme K}
  {steady : Snapshot K → Except Failure Bool}

theorem attempt_eq_error {dt : K} {m m' : March K} {f : Failure}
    (made : (runner tools newton scheme steady).attempt dt m = (.error f, m')) :
    advance tools newton scheme (.ofScalar dt) m = (.error f, m') := by
  rcases same : advance tools newton scheme (.ofScalar dt) m with ⟨g | report, there⟩
  · simp only [runner, same] at made
    cases made
    rfl
  · simp only [runner, same] at made
    cases made

omit [ExactNumbers K] in
theorem others_setTime (p : Problem K) (t : K) :
    (p.setTime t).parameters.filter (·.1 ≠ Problem.timeName) =
      p.parameters.filter (·.1 ≠ Problem.timeName) := by
  rw [Problem.setTime, List.filter_cons_of_neg (by simp), List.filter_filter]
  simp

/-- A march without its phase, its time parameter, and what it remembers of the start of a step. -/
def persistent (m : March K) : March K :=
  { m with
    problem := { m.problem with
      parameters := m.problem.parameters.filter (·.1 ≠ Problem.timeName)
      unknowns := { m.problem.unknowns with xPrev := [], ratePrev := [] } }
    phase := .idle }

/-- A failed step is taken back, and a finished one is stored, so that looking at it changes nothing. -/
theorem runner_transactional :
    (runner tools newton scheme steady).Transactional (·.problem.unknowns.t) persistent where
  done := by
    intro dt m m' made
    obtain ⟨report, done⟩ := attempt_eq_ok made
    exact (committed_of_advance done).t
  failed := by
    intro dt m f m' made recoverable
    obtain ⟨weight, phase, -, -, -, rfl⟩ := (advance_eq_error recoverable).mp (attempt_eq_error made)
    refine ⟨rfl, ?_⟩
    simp only [persistent, March.giveUp, March.commence, March.modifyUnknowns, March.modifyProblem,
      others_setTime]
    rfl
  observed := by
    intro dt m m' made
    obtain ⟨report, done⟩ := attempt_eq_ok made
    obtain ⟨weight, r, system, -, -, -, -, -, rfl⟩ := advance_eq_ok.mp done
    refine ⟨rfl, ?_⟩
    simp only [persistent, runner, Simulation.observe, March.conclude, March.modifyUnknowns,
      March.modifyProblem, Problem.store, ControlPoints.scatter, DofMap.scatter_scatter]

/-! ### The recurrence -/

/-- The states that some steps finished, each from the one before it, obey the recurrence with share `θ`. -/
def Recurs (θ : K) : Unknowns K → List (Trial (March K) K) → Prop
  | _, [] => True
  | u, t :: rest =>
    let v := t.after.problem.unknowns
    Vec.sub v.x u.x = Vec.scale t.dt (Vec.add (Vec.scale θ v.rate) (Vec.scale (1 - θ) u.rate)) ∧
      Recurs θ v rest

theorem Committed.sub_eq {dt : K} {m m' : March K} {report : StepReport K}
    (done : Committed tools newton scheme dt m report m') {θ : K} (shared : scheme.share? = some θ)
    (atMost : θ ≤ 1) (same : m.problem.unknowns.x.length = m.problem.unknowns.rate.length) :
    m'.problem.unknowns.x.length = m'.problem.unknowns.rate.length ∧
      Vec.sub m'.problem.unknowns.x m.problem.unknowns.x =
        Vec.scale dt (Vec.add (Vec.scale θ m'.problem.unknowns.rate)
          (Vec.scale (1 - θ) m.problem.unknowns.rate)) := by
  obtain ⟨weight, solves, weighed, path, -⟩ := done.found
  rw [done.rate]
  exact ⟨(TimeScheme.rate_eq_shareRate shared path.length_le same).1.symm,
    TimeScheme.sub_eq_of_rate shared atMost weighed path.length_le same⟩

theorem attempt_sub_eq {dt : K} {m m' : March K}
    (made : (runner tools newton scheme steady).attempt dt m = (.ok (), m')) {θ : K}
    (shared : scheme.share? = some θ) (atMost : θ ≤ 1) {u : Unknowns K} (x : m.problem.unknowns.x = u.x)
    (rate : m.problem.unknowns.rate = u.rate) (same : u.x.length = u.rate.length) :
    let v := m'.problem.unknowns
    v.x.length = v.rate.length ∧
      Vec.sub v.x u.x = Vec.scale dt (Vec.add (Vec.scale θ v.rate) (Vec.scale (1 - θ) u.rate)) := by
  obtain ⟨report, done⟩ := attempt_eq_ok made
  rw [← x, ← rate] at same ⊢
  exact (committed_of_advance done).sub_eq shared atMost same

/-- Rejected tries keep the state that the recurrence goes on from, and so does looking at a finished step. -/
theorem recurs_of_course {p : StepPolicy K} {n k : Nat} {dt : K} {m : March K} {log : List (Trial (March K) K)}
    {e : Except Failure RunStatus} {final : March K}
    (course : (runner tools newton scheme steady).Course p n k dt m log e final) {θ : K}
    (shared : scheme.share? = some θ) (atMost : θ ≤ 1) {u : Unknowns K} (x : m.problem.unknowns.x = u.x)
    (rate : m.problem.unknowns.rate = u.rate) (same : u.x.length = u.rate.length) :
    Recurs θ u (Trial.commits log) := by
  induction course generalizing u with
  | full => trivial
  | done made unsteady rest ih =>
    obtain ⟨lengths, moved⟩ := attempt_sub_eq made shared atMost x rate same
    exact ⟨moved, ih rfl rfl lengths⟩
  | steady made held => exact ⟨(attempt_sub_eq made shared atMost x rate same).2, trivial⟩
  | unclear made => exact ⟨(attempt_sub_eq made shared atMost x rate same).2, trivial⟩
  | rejected made recoverable large rest ih =>
    obtain ⟨-, -, -, -, -, rfl⟩ := (advance_eq_error recoverable).mp (attempt_eq_error made)
    exact ih x rate same
  | givenUp => trivial
  | aborted => trivial

/-- What a finished step means, and what the finished steps of a run mean together. -/
theorem committed_and_recurs (tools : Machinery K) (newton : Newton.Settings K) (scheme : TimeScheme K) :
    (∀ dt m report m', advance tools newton scheme dt m = (.ok report, m') →
      Committed tools newton scheme dt.value m report m') ∧
    ∀ θ, scheme.share? = some θ → θ ≤ 1 → ∀ steady p maxSteps (m : March K),
      m.problem.unknowns.x.length = m.problem.unknowns.rate.length →
      let r := runner tools newton scheme steady
      ∃ log e final, r.Course p maxSteps.toNat p.maxRetries.toNat p.dt m log e final ∧
        r.run p maxSteps m = (e.map (r.summary [] none log), final) ∧
        Recurs θ m.problem.unknowns (Trial.commits log) := by
  refine ⟨fun _ _ _ _ => committed_of_advance, ?_⟩
  intro θ shared atMost steady p maxSteps m same r
  obtain ⟨log, e, final, course, report⟩ := r.run_course p maxSteps m
  exact ⟨log, e, final, course, report, recurs_of_course course shared atMost rfl rfl same⟩

/-- One unknown that relaxes to one: the residual is `rate + x - 1`. -/
noncomputable def relaxing : Machinery ℝ where
  assemble _ x rate weight :=
    .ok ⟨List.zipWith (fun a r => r + a - 1) x rate, ⟨1, #[[(0, weight + 1)]]⟩⟩
  solve matrix b := .ok (Vec.scale (1 / matrix.get 0 0) b)

/-- The equations of the first step of size one. -/
noncomputable def relaxation : Newton.Equations ℝ :=
  equations relaxing .backwardEuler 1 1 (single.commence (0 + 1)).problem

theorem relaxation_assemble (x : ℝ) : relaxation.assemble [x] (relaxation.rate [x]) =
    .ok ⟨[x + x - 1], ⟨1, #[[(0, 1 + 1)]]⟩⟩ := by
  have rate : relaxation.rate [x] = [x] := by
    have whole : ¬(1 : ℝ) < 1 := lt_irrefl 1
    change TimeScheme.backwardEuler.rate [x] [0] [0] (1 : ℝ) = [x]
    simp only [TimeScheme.rate, TimeScheme.share?, if_neg whole]
    simp [Vec.sub]
  rw [rate]
  rfl

/-- Accepted at `x` after one solve. -/
noncomputable def relaxedAt (x : ℝ) : Newton.Result ℝ :=
  ⟨[x], relaxation.rate [x], some ⟨[0], ⟨1, #[[(0, 1 + 1)]]⟩⟩, 2, true⟩

/-- One solve leads to `x = 1 / 2`, where the residual vanishes. -/
theorem solve_relaxation : Newton.solve strict relaxation (0 + 1) [0] = .ok (relaxedAt (1 / 2)) := by
  have first := relaxation_assemble 0
  have second := relaxation_assemble (1 / 2)
  rw [show (0 : ℝ) + 0 - 1 = -1 by norm_num] at first
  rw [show (1 / 2 : ℝ) + 1 / 2 - 1 = 0 by norm_num] at second
  have increment : relaxation.solve ⟨1, #[[(0, 1 + 1)]]⟩ (Vec.neg [-1]) = .ok [1 / 2] := by
    change Except.ok [1 / (1 + 1) * - -1] = _
    norm_num
  have moved : Vec.add ([0] : Vec ℝ) [1 / 2] = [1 / 2] := congrArg (fun a => [a]) (zero_add (1 / 2 : ℝ))
  have small : Newton.smallResidual strict [0] = true := by
    refine decide_eq_true ?_
    rw [maxNorm_singleton, abs_zero]
    exact le_refl (0 : ℝ)
  have tolerated : ∀ (size : ℝ) (g : Newton.Iterate ℝ), true = Newton.accepts strict size g [0] := by
    intro size g
    rw [Newton.accepts, small, Bool.true_or, Bool.true_or]
  have iterations : strict.maxIterations.toNat = 18 + 1 + 1 := rfl
  rw [← moved] at second
  rw [Newton.solve, iterations, Newton.iterate_of_rejected _ (Newton.examine_eq_ok.mpr
      ⟨first, rfl, rfl, (not_accepts (by norm_num) _).symm⟩) increment,
    Newton.iterate_of_accepted _ (Newton.examine_eq_ok.mpr ⟨second, rfl, rfl, tolerated _ _⟩)]
  change Except.ok (⟨Vec.add [0] [1 / 2], relaxation.rate (Vec.add [0] [1 / 2]), _, _, _⟩ : Newton.Result ℝ) = _
  rw [moved]
  rfl

theorem weight_relaxing : TimeScheme.backwardEuler.weight (1 : ℝ) = .ok 1 := by
  have nonzero : Arithmetic.isZero ((1 : ℝ) * 1) = false := by
    rw [Bool.eq_false_iff, Ne, isZero_iff]
    norm_num
  simp only [TimeScheme.weight, TimeScheme.share?, nonzero]
  norm_num

theorem advance_relaxing : ∃ report m',
    advance relaxing strict .backwardEuler (.ofScalar 1) single = (.ok report, m') ∧
      report.converged = true ∧ m'.problem.unknowns.x = [1 / 2] := by
  let system : System ℝ := ⟨[0], ⟨1, #[[(0, 1 + 1)]]⟩⟩
  let report : StepReport ℝ := ⟨0 + 1, 0 + 1, 1, 2, Vec.maxNorm system.residual, true⟩
  let m' := ((single.commence (0 + 1)).reach (relaxedAt (1 / 2))).conclude system (0 + 1) 1 report
  refine ⟨report, m', ?_, rfl, rfl⟩
  exact advance_eq_ok.mpr ⟨1, relaxedAt (1 / 2), system, not_le_of_gt one_pos, weight_relaxing, solve_relaxation, rfl,
    rfl, rfl⟩

theorem committed_relaxing : (∃ report m',
    advance relaxing strict .backwardEuler (.ofScalar 1) single = (.ok report, m') ∧ report.converged = true ∧
      m'.problem.unknowns.x = [1 / 2] ∧ Committed relaxing strict .backwardEuler 1 single report m') ∧
    ∃ log e final, (runner relaxing strict .backwardEuler fun _ => .ok false).Course ⟨1, 3, 1, 1, 0⟩ 3 0 1 single
        log e final ∧
      Recurs 1 single.problem.unknowns (Trial.commits log) := by
  obtain ⟨step, run⟩ := committed_and_recurs relaxing strict .backwardEuler
  obtain ⟨report, m', done, flag, found⟩ := advance_relaxing
  obtain ⟨log, e, final, course, -, recurs⟩ :=
    run 1 rfl le_rfl (fun _ => .ok false) ⟨1, 3, 1, 1, 0⟩ 3 single rfl
  exact ⟨⟨report, m', done, flag, found, step _ _ _ _ done⟩, log, e, final, course, recurs⟩

end TimeStepping

end Galerkin
