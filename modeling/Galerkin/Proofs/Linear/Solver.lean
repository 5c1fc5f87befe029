import Mathlib
import Galerkin.Linear.Solver
import Galerkin.Proofs.Linear.Krylov

/-!
The linear solver never takes a failure for a success: its answers meet the tolerance, and a result that
misses it is handed on as unconverged.
-/

namespace Galerkin.Linear

/-! ### Matrices -/

namespace SparseMatrix

/-- A matrix with as many rows as its size. -/
def Square (m : SparseMatrix ℝ) (n : Nat) : Prop := m.size = n ∧ m.rows.size = n

theorem sumOf_row (row : List (Nat × ℝ)) (v w : Nat → ℝ) (c : ℝ) :
    Arithmetic.sumOf row (fun (j, a) => a * (v j + c * w j)) =
      Arithmetic.sumOf row (fun (j, a) => a * v j) + c * Arithmetic.sumOf row (fun (j, a) => a * w j) := by
  simp only [Arithmetic.sumOf, total_eq_sum]
  induction row with
  | nil => exact (add_zero (0 : ℝ)).symm.trans (congrArg _ (mul_zero c).symm)
  | cons head tail ih =>
      rw [List.map_cons, List.map_cons, List.map_cons, List.sum_cons, List.sum_cons, List.sum_cons, ih]
      ring

theorem getD_add_scale {v w : Vec ℝ} (sized : v.length = w.length) (c : ℝ) (j : Nat) :
    (Vec.add v (Vec.scale c w)).getD j 0 = v.getD j 0 + c * w.getD j 0 := by
  induction v generalizing w j with
  | nil =>
      rw [List.eq_nil_of_length_eq_zero sized.symm]
      exact (add_zero (0 : ℝ)).symm.trans (congrArg _ (mul_zero c).symm)
  | cons a v ih =>
      obtain ⟨e, w, rfl⟩ := List.exists_cons_of_length_eq_add_one sized.symm
      cases j with
      | zero => rfl
      | succ j => exact ih (Nat.succ.inj sized) j

theorem apply_linear {m : SparseMatrix ℝ} {n : Nat} (square : m.Square n) : IsLinear n m.apply where
  length := fun _ => by simp [apply, square.2]
  add_scale := fun {v w} c first second => by
    have entry (j : Nat) : (Vec.add v (Vec.scale c w)).toArray.getD j 0 =
        v.toArray.getD j 0 + c * w.toArray.getD j 0 := by
      simpa using getD_add_scale (first.trans second.symm) c j
    have rows (row : List (Nat × ℝ)) := sumOf_row row (v.toArray.getD · 0) (w.toArray.getD · 0) c
    simp only [apply, entry, rows]
    rw [Vec.add, Vec.scale, List.map_map, List.zipWith_map, List.zipWith_self]
    rfl

end SparseMatrix

/-! ### Least squares -/

namespace LeastSquares

theorem length_addCombination_le (x : Vec ℝ) (coeffs : List ℝ) (vectors : List (Vec ℝ)) :
    (Vec.addCombination x coeffs vectors).length ≤ x.length := by
  induction coeffs generalizing x vectors with
  | nil => exact Nat.le_refl _
  | cons c coeffs ih =>
      cases vectors with
      | nil => exact Nat.le_refl _
      | cons v vectors => exact (ih (Vec.add x (Vec.scale c v)) vectors).trans (by simp)

/-- No more coefficients than columns. -/
theorem length_shortest_le (columns : List (Vec ℝ)) (target : Vec ℝ) :
    (shortest columns target).length ≤ columns.length := by
  rw [shortest, List.length_map]
  exact (length_addCombination_le _ _ _).trans (by simp)

end LeastSquares

/-! ### Answers -/

namespace Solver

/-- What a solve by the iterative backend ends with: the result that the solver reports, which is an answer if
it meets the tolerance and is rejected if it does not. -/
theorem attempt_never_hides_failure {fit : LeastSquares ℝ}
    (sizedFit : ∀ columns target, (fit columns target).length ≤ columns.length)
    {settings : SolverSettings ℝ} (backend : settings.backend = "bicgstabl") (positive : 1 ≤ settings.restart)
    (maxSteps : 0 ≤ settings.maxSteps) (maxPasses : 0 ≤ settings.maxPasses)
    (preconditioner : settings.preconditioner = none ∨ settings.preconditioner = some "jacobi")
    {m : SparseMatrix ℝ} {b : Vec ℝ} (square : m.Square b.length) {x0 : Option (Vec ℝ)}
    (start : ∀ x ∈ x0, x.length = b.length) :
    (∀ (p : Krylov.Setup ℝ) (s : Krylov.State ℝ) (more : Nat),
      Krylov.cycles p settings.restart.toNat (p.budget + more) s =
        Krylov.cycles p settings.restart.toNat p.budget s) ∧
    ∃ r, Krylov.solve fit settings.krylov (Coefficients.entries m).operator b x0 = .ok r ∧
      r.x.length = b.length ∧
      r.residualNorm = Vec.norm (Vec.sub b (m.apply r.x)) ∧
      (r.converged = true ↔ r.residualNorm ≤ settings.tolerance * Vec.norm b) ∧
      r.steps ≤ settings.maxSteps ∧ r.passes ≤ settings.maxPasses ∧
      r.residualNorm ≤ Vec.norm (Vec.sub b (m.apply (x0.getD (Vec.zeros b.length)))) ∧
      (attempt fit settings (.entries m) b x0 = .ok (.ok r) ∧
          solve fit settings (.entries m) b x0 = .ok r ∧
          Vec.norm (Vec.sub b (m.apply r.x)) ≤ settings.tolerance * Vec.norm b ∨
        attempt fit settings (.entries m) b x0 = .ok (.error ⟨some r⟩) ∧
          solve fit settings (.entries m) b x0 = .error .linearSolver ∧ r.converged = false) := by
  refine ⟨fun p s more => Krylov.cycles_of_enough (Int.lt_toNat.mpr positive) (Nat.le_add_left _ _) more, ?_⟩
  have known : Krylov.Preconditioned (Coefficients.entries m).operator b.length settings.preconditioner :=
    preconditioner.imp id fun jacobi => ⟨jacobi, _, rfl, by simp [SparseMatrix.diagonal, square.1]⟩
  have cycle : 1 ≤ settings.krylov.cycle := positive
  obtain ⟨r, solved, reports⟩ := Krylov.solve_reports sizedFit cycle maxSteps maxPasses
    (SparseMatrix.apply_linear square) known start
  refine ⟨r, solved, reports.sized, reports.residual, reports.converged, reports.steps, reports.passes,
    reports.improved, ?_⟩
  have attempted : attempt fit settings (.entries m) b x0 = .ok (judged (some r)) := by
    rw [attempt, backend]
    exact Outcome.bind_eq_ok.mpr ⟨r, solved, rfl⟩
  cases converged : r.converged with
  | true =>
      rw [judged, converged] at attempted
      have small := reports.converged.mp converged
      rw [reports.residual] at small
      exact Or.inl ⟨attempted, Outcome.bind_eq_ok.mpr ⟨_, attempted, rfl⟩, small⟩
  | false =>
      rw [judged, converged] at attempted
      exact Or.inr ⟨attempted, Outcome.bind_eq_error.mpr (Or.inr ⟨_, attempted, rfl⟩), rfl⟩

section Example

/-- The map that takes `(x, y)` to `(y, 0)`. -/
noncomputable def shift : SparseMatrix ℝ := ⟨2, #[[(1, 1)], []]⟩

noncomputable def coarse : SolverSettings ℝ := ⟨"bicgstabl", 2⁻¹, 10, 3, 2, some "jacobi"⟩

theorem norm_pair (x y : ℝ) : Vec.norm [x, y] = Real.sqrt (x * x + y * y) := by
  have sum : Arithmetic.dot [x, y] [x, y] = x * x + y * y := by simp [Arithmetic.dot, total_eq_sum]
  exact congrArg Real.sqrt sum

theorem shift_misses (x : Vec ℝ) : 1 ≤ Vec.norm (Vec.sub [1, 1] (shift.apply x)) := by
  have image : shift.apply x = [x.toArray.getD 1 0, 0] := by
    simp [SparseMatrix.apply, shift, Arithmetic.sumOf, total_eq_sum]
  have pair : Vec.sub [1, 1] (shift.apply x) = [1 - x.toArray.getD 1 0, 1 - 0] := by rw [image]; rfl
  rw [pair, norm_pair, Real.one_le_sqrt]
  nlinarith [mul_self_nonneg (1 - x.toArray.getD 1 0)]

theorem coarse_target_lt_one : coarse.tolerance * Vec.norm ([1, 1] : Vec ℝ) < 1 := by
  have root : Vec.norm ([1, 1] : Vec ℝ) < 2 := by
    rw [norm_pair]
    exact (Real.sqrt_lt' two_pos).mpr (by norm_num)
  calc
    coarse.tolerance * Vec.norm ([1, 1] : Vec ℝ) < 2⁻¹ * 2 := mul_lt_mul_of_pos_left root (inv_pos.mpr two_pos)
    _ = 1 := inv_mul_cancel₀ two_ne_zero

/-- A system without a solution: no answer, but a result that says so and is no worse than the start. -/
theorem attempt_inconsistent :
    ∃ r, attempt LeastSquares.shortest coarse (.entries shift) [1, 1] (some [2, 1]) = .ok (.error ⟨some r⟩) ∧
      solve LeastSquares.shortest coarse (.entries shift) [1, 1] (some [2, 1]) = .error .linearSolver ∧
      r.converged = false ∧ r.steps ≤ coarse.maxSteps ∧ r.passes ≤ coarse.maxPasses ∧
      r.residualNorm = Vec.norm (Vec.sub [1, 1] (shift.apply r.x)) ∧
      r.residualNorm ≤ Vec.norm (Vec.sub [1, 1] (shift.apply [2, 1])) := by
  have positive : 1 ≤ coarse.restart := by decide
  have square : shift.Square ([1, 1] : Vec ℝ).length := ⟨rfl, rfl⟩
  have start : ∀ x ∈ some ([2, 1] : Vec ℝ), x.length = ([1, 1] : Vec ℝ).length := by simp
  obtain ⟨-, r, -, -, residual, -, steps, passes, improved, ⟨-, -, small⟩ | ⟨attempted, solved, converged⟩⟩ :=
    attempt_never_hides_failure LeastSquares.length_shortest_le rfl positive (by decide) (by decide) (Or.inr rfl)
      square start
  · exact absurd ((shift_misses r.x).trans small) (not_le.mpr coarse_target_lt_one)
  · exact ⟨r, attempted, solved, converged, steps, passes, residual, improved⟩

end Example

end Solver

end Galerkin.Linear
