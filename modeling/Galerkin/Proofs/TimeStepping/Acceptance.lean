import Mathlib
import Galerkin.Proofs.TimeStepping.March

/-!
Steps that take the last iterate when the iterations are used up. If no system on the way is infinite and every linear
system can be solved, such a step is done: it stores the last iterate with its rate. The one exception is a step that is
allowed no iteration at all, which has no system to store and is left half made.
-/

namespace Galerkin

open Linear

namespace Newton

variable {α : Type} [Scalar α] {s : Settings α} {p : Equations α} {x : Vec α} {solves : List (Solve α)} {g : Iterate α}

/-- No iterate that a solve was made at met a tolerance. -/
def Misses (s : Settings α) (solves : List (Solve α)) : Prop :=
  ∀ before v after, solves = before ++ v :: after → ¬Tolerated s before v.x v.system

/-- Newton's method examines `y` after some solves. -/
structure Examines (s : Settings α) (p : Equations α) (x : Vec α) (solves : List (Solve α)) (y : Vec α) : Prop where
  path : Path p x solves y
  misses : Misses s solves
  within : solves.length < s.maxIterations.toNat

/-- Every system that is assembled from `x` on is finite, and every linear system that comes up can be solved. -/
def Unfailing (s : Settings α) (p : Equations α) (x : Vec α) : Prop :=
  ∀ solves y, Examines s p x solves y → ∃ system, p.assemble y (p.rate y) = .ok system ∧
    Scalar.isFinite (Vec.maxNorm system.residual) = true ∧
      (¬Tolerated s solves y system → ∃ dx, p.solve system.tangent (Vec.neg system.residual) = .ok dx)

theorem misses_nil : Misses s [] := by
  intro before v after split
  cases before <;> cases split

theorem Misses.concat (misses : Misses s solves) {v : Solve α} (missed : ¬Tolerated s solves v.x v.system) :
    Misses s (solves ++ [v]) := by
  intro before w after split
  rcases List.eq_nil_or_concat after with rfl | ⟨rest, last, rfl⟩
  · obtain ⟨rfl, same⟩ := List.append_inj' split rfl
    cases same
    exact missed
  · rw [List.concat_eq_append, ← List.cons_append, ← List.append_assoc] at split
    exact misses before w rest (List.append_inj' split rfl).1

/-- The iterations come to their end, at a tolerance or when they are used up. -/
theorem iterate_isOk (unfailing : Unfailing s p x) {n : Nat} (budget : solves.length + n = s.maxIterations.toNat)
    (reached : Reached p x solves g) (misses : Misses s solves) :
    ∃ h accepted, iterate s p n g = .ok (h, accepted) := by
  induction n generalizing g solves with
  | zero => exact ⟨g, false, rfl⟩
  | succ n ih =>
      obtain ⟨system, assembled, finite, solvable⟩ := unfailing solves g.x ⟨reached.path, misses, by omega⟩
      have examined := (examine_eq_ok (s := s)).mpr ⟨assembled, finite, rfl, rfl⟩
      cases accepted : accepts s (g.firstSize.getD (Vec.norm system.residual)) g system.residual with
      | true =>
          rw [accepted] at examined
          exact ⟨_, true, iterate_of_accepted n examined⟩
      | false =>
          rw [accepted] at examined
          have missed : ¬Tolerated s solves g.x system := by
            rw [← accepts_eq_true reached, accepted]
            exact Bool.false_ne_true
          obtain ⟨dx, solved⟩ := solvable missed
          rw [iterate_of_rejected n examined solved]
          refine ih ?_ (reached.step assembled finite solved) (misses.concat missed)
          rw [List.length_append, List.length_singleton]
          omega

theorem solve_isOk (unfailing : Unfailing s p x) (accepting : s.acceptUnconverged = true) (t : α) :
    ∃ r, solve s p t x = .ok r := by
  obtain ⟨g, accepted, iterated⟩ := iterate_isOk unfailing (Nat.zero_add _) reached_start misses_nil
  refine ⟨⟨g.x, p.rate g.x, g.system, g.count, accepted⟩, ?_⟩
  rw [solve, iterated, Outcome.ok_bind]
  simp only [accepting, Bool.or_true, ↓reduceIte]
  rfl

/-- A result has a system unless no iteration was allowed, and no more systems than that were assembled. -/
theorem system_of_solve {t : α} {r : Result α} (done : solve s p t x = .ok r) :
    (0 < s.maxIterations.toNat → ∃ system, r.system = some system) ∧ r.iterations ≤ s.maxIterations.toNat := by
  obtain ⟨solves, -, -, good | poor⟩ := solve_eq_ok done
  · obtain ⟨system, same, -⟩ := good.system
    rw [good.iterations]
    exact ⟨fun _ => ⟨system, same⟩, good.within⟩
  · rw [poor.iterations, poor.used]
    refine ⟨fun allowed => ?_, le_rfl⟩
    rw [← poor.used] at allowed
    refine ⟨(solves.getLast (List.ne_nil_of_length_pos allowed)).system, ?_⟩
    rw [poor.system, List.getLast?_eq_some_getLast (List.ne_nil_of_length_pos allowed)]
    rfl

/-- Without iterations nothing is assembled. -/
theorem solve_without_iterations (none : s.maxIterations.toNat = 0) (accepting : s.acceptUnconverged = true) (t : α) :
    solve s p t x = .ok ⟨x, p.rate x, .none, 0, false⟩ := by
  rw [solve, none, iterate]
  change (if (false || s.acceptUnconverged) = true then _ else _) = _
  rw [accepting]
  rfl

end Newton

namespace TimeStepping

variable {α : Type} [Scalar α]

/-- The equations of the step of some size that `m` starts. -/
def stepEquations (tools : Machinery α) (scheme : TimeScheme α) (dt weight : α) (m : March α) : Newton.Equations α :=
  equations tools scheme dt weight (m.commence (m.problem.unknowns.t + dt)).problem

/-- The march after a step that was allowed no iteration: the state is there, and nothing else is stored. -/
def halfMade (tools : Machinery α) (scheme : TimeScheme α) (dt weight : α) (m : March α) : March α :=
  let x := m.problem.unknowns.x
  (m.commence (m.problem.unknowns.t + dt)).reach
    ⟨x, (stepEquations tools scheme dt weight m).rate x, none, 0, false⟩

variable {tools : Machinery α} {newton : Newton.Settings α} {scheme : TimeScheme α} {dt : StepSize α} {m : March α}

theorem advance_without_iterations (accepting : newton.acceptUnconverged = true) (positive : ¬dt.value ≤ 0) {weight : α}
    (weighed : scheme.weight dt.value = .ok weight) (none : newton.maxIterations ≤ 0) :
    advance tools newton scheme dt m = (.error .notAssembled, halfMade tools scheme dt.value weight m) := by
  let begun := m.commence (m.problem.unknowns.t + dt.value)
  have stopped := Newton.solve_without_iterations (p := equations tools scheme dt.value weight begun.problem)
    (x := begun.problem.unknowns.x) (Int.toNat_eq_zero.mpr none) accepting (m.problem.unknowns.t + dt.value)
  rw [advance, if_neg positive, weighed]
  simp only [begun] at stopped
  simp only [stopped]
  rfl

/-- A step that takes the last iterate, and whose systems are finite and can be solved, is done exactly if it is allowed
an iteration and the scheme has a weight: there are no more systems and solves than iterations, and the last iterate is
stored with the rate that belongs to it. Without an iteration the step fails and is left half made. -/
theorem advance_accepts (tools : Machinery α) (newton : Newton.Settings α) (scheme : TimeScheme α) (dt : StepSize α)
    (m : March α) (accepting : newton.acceptUnconverged = true) (positive : ¬dt.value ≤ 0)
    (unfailing : ∀ weight, scheme.weight dt.value = .ok weight →
      Newton.Unfailing newton (stepEquations tools scheme dt.value weight m) m.problem.unknowns.x) :
    ((∃ report m', advance tools newton scheme dt m = (.ok report, m')) ↔
      0 < newton.maxIterations ∧ ∃ weight, scheme.weight dt.value = .ok weight) ∧
    (∀ report m', advance tools newton scheme dt m = (.ok report, m') →
      Committed tools newton scheme dt.value m report m' ∧ ∃ weight solves,
        Newton.Path (stepEquations tools scheme dt.value weight m) m.problem.unknowns.x solves m'.problem.unknowns.x ∧
          Achieved tools newton m m' weight solves report ∧
            report.iterations ≤ newton.maxIterations ∧ solves.length ≤ newton.maxIterations) ∧
    ∀ weight, scheme.weight dt.value = .ok weight → newton.maxIterations ≤ 0 →
      advance tools newton scheme dt m = (.error .notAssembled, halfMade tools scheme dt.value weight m) := by
  have needed : ∀ report m', advance tools newton scheme dt m = (.ok report, m') →
      0 < newton.maxIterations ∧ ∃ weight, scheme.weight dt.value = .ok weight := by
    intro report m' done
    obtain ⟨weight, _, _, -, weighed, -⟩ := advance_eq_ok.mp done
    refine ⟨lt_of_not_ge fun none => ?_, weight, weighed⟩
    rw [advance_without_iterations accepting positive weighed none] at done
    cases done
  refine ⟨⟨?_, ?_⟩, ?_, fun _ => advance_without_iterations accepting positive⟩
  · rintro ⟨report, m', done⟩
    exact needed report m' done
  · rintro ⟨allowed, weight, weighed⟩
    obtain ⟨r, solved⟩ := Newton.solve_isOk (unfailing weight weighed) accepting (m.problem.unknowns.t + dt.value)
    obtain ⟨system, last⟩ := (Newton.system_of_solve solved).1 (by omega)
    exact ⟨_, _, advance_eq_ok.mpr ⟨weight, r, system, positive, weighed, solved, last, rfl, rfl⟩⟩
  · intro report m' done
    have committed := committed_of_advance done
    have allowed := (needed report m' done).1
    obtain ⟨_, r, _, -, -, solved, -, same, -⟩ := advance_eq_ok.mp done
    have bound : report.iterations ≤ newton.maxIterations.toNat := by
      rw [same]
      exact (Newton.system_of_solve solved).2
    obtain ⟨weight, solves, -, path, achieved⟩ := committed.found
    have fewer : solves.length ≤ report.iterations := by
      cases achieved with
      | converged _ _ _ _ iterations => omega
      | unconverged _ _ _ iterations => omega
    rw [committed.t] at path
    refine ⟨committed, weight, solves, path, achieved, ?_, ?_⟩ <;> omega

/-- Any iterate will do after so many iterations. -/
def lenient (iterations : Int) : Newton.Settings ℝ := ⟨0, 0, 0, iterations, true⟩

theorem unfailing_relaxing (iterations : Int) (weight : ℝ) :
    Newton.Unfailing (lenient iterations) (stepEquations relaxing .backwardEuler 1 weight single) [0] :=
  fun _ _ _ => ⟨_, rfl, rfl, fun _ => ⟨_, rfl⟩⟩

/-- One iteration leads to `x = 1 / 2` or to a tolerance, and the step is done. -/
theorem advance_accepts_relaxing : ((lenient 1).acceptUnconverged = true ∧ ¬(1 : ℝ) ≤ 0 ∧
    ∀ weight, Newton.Unfailing (lenient 1) (stepEquations relaxing .backwardEuler 1 weight single) [0]) ∧
      ∃ report m', advance relaxing (lenient 1) .backwardEuler (.ofScalar 1) single = (.ok report, m') ∧
        Committed relaxing (lenient 1) .backwardEuler 1 single report m' ∧ report.iterations ≤ (1 : Int) := by
  have positive : ¬(1 : ℝ) ≤ 0 := not_le_of_gt one_pos
  obtain ⟨done, means, -⟩ := advance_accepts relaxing (lenient 1) .backwardEuler (.ofScalar 1) single rfl positive
    fun weight _ => unfailing_relaxing 1 weight
  obtain ⟨report, m', made⟩ := done.mpr ⟨one_pos, 1, weight_relaxing⟩
  obtain ⟨committed, _, _, -, -, few, -⟩ := means report m' made
  exact ⟨⟨rfl, positive, unfailing_relaxing 1⟩, report, m', made, committed, few⟩

/-- Without an iteration the same step fails, although nothing that it does can: the time parameter is that of the end
of the step and the phase that of a finished one, while the time of the unknowns is still that of its start. -/
theorem advance_not_made : ((lenient 0).acceptUnconverged = true ∧ 0 ≤ (lenient 0).maxIterations ∧ ¬(1 : ℝ) ≤ 0 ∧
    TimeScheme.backwardEuler.weight (1 : ℝ) = .ok 1 ∧
    ∀ weight, Newton.Unfailing (lenient 0) (stepEquations relaxing .backwardEuler 1 weight single) [0]) ∧
      ∃ m', advance relaxing (lenient 0) .backwardEuler (.ofScalar 1) single = (.error .notAssembled, m') ∧
        m'.phase = .converged ∧ m'.problem.unknowns.t = 0 ∧
          m'.problem.parameters.lookup Problem.timeName = some (0 + 1) := by
  have positive : ¬(1 : ℝ) ≤ 0 := not_le_of_gt one_pos
  exact ⟨⟨rfl, le_rfl, positive, weight_relaxing, unfailing_relaxing 0⟩, halfMade relaxing .backwardEuler 1 1 single,
    advance_without_iterations rfl positive weight_relaxing le_rfl, rfl, rfl, Problem.lookup_setTime _ _⟩

end TimeStepping

end Galerkin
