import Mathlib
import Galerkin.Proofs.Linear.Krylov

/-!
The states that a pass of the iterative solver goes through. In each of them the residual is that of the iterate and
the columns filled so far are powers of the map, and the step that minimises the residual never enlarges it.
-/

namespace Galerkin.Linear

/-! ### Least squares -/

namespace Vec

variable {n : Nat} {x : Vec ℝ}

theorem subCombination_zeros (sized : x.length = n) {columns : List (Vec ℝ)} (all : ∀ v ∈ columns, v.length = n) :
    subCombination x (zeros columns.length) columns = x := by
  induction columns with
  | nil => rfl
  | cons v columns ih =>
      rw [List.forall_mem_cons] at all
      have none : sub x (scale 0 v) = x := by
        refine List.ext_getElem (by simp [sized, all.1]) fun i _ _ => ?_
        simp [sub, scale]
      calc
        _ = subCombination (sub x (scale 0 v)) (zeros columns.length) columns := rfl
        _ = x := by rw [none, ih all.2]

end Vec

/-- Do some coefficients bring a combination of columns at least as near to a target as any others do? -/
def Nearest (columns : List (Vec ℝ)) (target : Vec ℝ) (coeffs : List ℝ) : Prop :=
  ∀ others : List ℝ, others.length = columns.length →
    Vec.norm (Vec.subCombination target coeffs columns) ≤ Vec.norm (Vec.subCombination target others columns)

theorem Nearest.norm_le {columns : List (Vec ℝ)} {target : Vec ℝ} {coeffs : List ℝ}
    (nearest : Nearest columns target coeffs) (all : ∀ v ∈ columns, v.length = target.length) :
    Vec.norm (Vec.subCombination target coeffs columns) ≤ Vec.norm target := by
  have none := nearest (Vec.zeros columns.length) Vec.length_zeros
  rwa [Vec.subCombination_zeros rfl all] at none

namespace Krylov

/-! ### The course of a pass -/

section Course

variable {α : Type} [Scalar α]

/-- The states of a pass that starts from `first`: between two cycles, and in a cycle after some of its steps. -/
inductive Visits (p : Setup α) (length : Nat) (first : State α) : Option Nat → State α → Prop
  | first : Visits p length first none first
  | enter {s} : Visits p length first none s → s.steps < p.budget →
      Visits p length first (some 0) { s with rho := -s.omega * s.rho }
  | step {j s t} : Visits p length first (some j) s → j < length → biStep p s = .next t →
      Visits p length first (some (j + 1)) t
  | leave {s t} : Visits p length first (some length) s → minimize p s = .next t → Visits p length first none t

/-- The ways in which a pass comes to its end. -/
inductive Returns (p : Setup α) (length : Nat) (first : State α) : State α → Outcome → Prop
  | exhausted {s} : Visits p length first none s → p.budget ≤ s.steps → Returns p length first s .stepLimit
  | step {j s t why} : Visits p length first (some j) s → j < length → biStep p s = .last t why →
      Returns p length first t why
  | minimize {s t why} : Visits p length first (some length) s → minimize p s = .last t why →
      Returns p length first t why

def Progress.state : Progress α → State α
  | .next s => s
  | .last s _ => s

/-- Where work that goes on or ends has led to. -/
def Progress.Leads (goesOn : State α → Prop) (ends : State α → Outcome → Prop) : Progress α → Prop
  | .next s => goesOn s
  | .last s why => ends s why

variable {p : Setup α} {length : Nat} {first s : State α}

theorem biSteps_leads {j m : Nat} (visited : Visits p length first (some j) s) (rest : j + m = length) :
    (biSteps p m s).Leads (Visits p length first (some length)) (Returns p length first) := by
  induction m generalizing j s with
  | zero =>
      subst rest
      exact visited
  | succ m ih =>
      rw [biSteps]
      cases found : biStep p s with
      | last t why => exact .step visited (by omega) found
      | next t => exact ih (.step visited (by omega) found) (by omega)

theorem cycle_leads (visited : Visits p length first none s) (below : s.steps < p.budget) :
    (cycle p length s).Leads (Visits p length first none) (Returns p length first) := by
  have steps := biSteps_leads (.enter visited below) (Nat.zero_add length)
  rw [cycle]
  cases found : biSteps p length { s with rho := -s.omega * s.rho } with
  | last t why =>
      rw [found] at steps
      exact steps
  | next t =>
      rw [found] at steps
      rw [Progress.andThen]
      cases reached : minimize p t with
      | last u why => exact .minimize steps reached
      | next u => exact .leave steps reached

theorem cycles_return (positive : 0 < length) {fuel : Nat} (enough : p.budget ≤ s.steps + fuel)
    (visited : Visits p length first none s) :
    Returns p length first (cycles p length fuel s).1 (cycles p length fuel s).2 := by
  induction fuel generalizing s with
  | zero => exact .exhausted visited enough
  | succ fuel ih =>
      rw [cycles]
      split
      · next full => exact .exhausted visited full
      · next below =>
          have leads := cycle_leads visited (Nat.lt_of_not_le below)
          split
          · next found =>
              rw [found] at leads
              exact leads
          · next found =>
              rw [found] at leads
              have steps := cycle_steps found
              exact ih (by omega) leads

end Course

/-! ### What holds in every state -/

section Invariant

variable {p : Setup ℝ} {b : Vec ℝ} {length : Nat} {first s : State ℝ} (linear : IsLinear b.length p.map)
  (sizedFit : ∀ columns target, (p.fit columns target).length ≤ columns.length)

include linear sizedFit

/-- In a cycle one column is added at each step, between two cycles there is one. -/
theorem Visits.consistent (begun : Consistent p b 0 first) {phase : Option Nat}
    (visited : Visits p length first phase s) : Consistent p b (phase.getD 0) s := by
  induction visited with
  | first => exact begun
  | enter _ _ ih => exact ⟨ih.sized, ih.residuals, ih.directions, ih.within⟩
  | step _ _ found ih =>
      have sound := biStep_sound linear ih
      rwa [found] at sound
  | leave _ found ih =>
      have sound := minimize_sound linear sizedFit ih
      rwa [found] at sound

end Invariant

/-! ### The step that minimises the residual -/

section Minimize

variable {p : Setup ℝ} {b : Vec ℝ} {s : State ℝ}

theorem residual_minimize (p : Setup ℝ) (s : State ℝ) : (minimize p s).state.residual =
    Vec.subCombination s.residual (p.fit (s.residuals.drop 1) s.residual) (s.residuals.drop 1) := by
  unfold minimize
  dsimp only
  generalize p.fit (s.residuals.drop 1) s.residual = gamma
  have finite : gamma.all Scalar.isFinite = true := List.all_eq_true.mpr fun _ _ => rfl
  rw [finite, if_neg (by decide)]
  split_ifs <;> rfl

theorem norm_minimize_le {k : Nat} (linear : IsLinear b.length p.map) (consistent : Consistent p b k s)
    (nearest : Nearest (s.residuals.drop 1) s.residual (p.fit (s.residuals.drop 1) s.residual)) :
    Vec.norm (minimize p s).state.residual ≤ Vec.norm s.residual := by
  have start := length_residual linear s.x consistent.sized
  have all : ∀ v ∈ s.residuals, v.length = b.length := by
    rw [consistent.residuals]
    exact length_of_mem_iterate linear start
  have same : s.residual.length = b.length := by
    rw [State.residual, consistent.residuals]
    exact start
  rw [residual_minimize]
  exact nearest.norm_le fun v member => (all v (List.mem_of_mem_drop member)).trans same.symm

end Minimize

/-! ### Every state of a pass -/

/-- What the recurrence keeps: the residual is that of the iterate, and each column filled is the map's image of the
one before it. -/
structure Recurs (p : Setup ℝ) (b : Vec ℝ) (s : State ℝ) : Prop where
  residual : s.residual = Vec.sub b (p.map s.x)
  residuals : Powers p.map s.residuals
  directions : Powers p.map s.directions
  within : s.steps ≤ p.budget

/-- The state in which a pass starts from an iterate and its residual. -/
def State.begin {α : Type} [Scalar α] (x r : Vec α) : State α := ⟨x, [r], [Vec.zeros r.length], 1, 0, 1, 0⟩

section Whole

variable {p : Setup ℝ} {b x : Vec ℝ} {k : Nat} {s : State ℝ}

theorem Consistent.recurs (consistent : Consistent p b k s) : Recurs p b s := by
  have stopped : Ended p b s .breakdown := consistent.ended Outcome.noConfusion
  obtain ⟨-, residual, residuals, directions, within, -⟩ := stopped
  exact ⟨residual, residuals, directions, within⟩

theorem consistent_begin (linear : IsLinear b.length p.map) (sized : x.length = b.length)
    (shadow : p.shadow = Vec.sub b (p.map x)) : Consistent p b 0 (.begin x p.shadow) where
  sized := sized
  residuals := by
    rw [shadow]
    rfl
  directions := ⟨_, by rw [shadow, Vec.length_zeros, length_residual linear x sized], rfl⟩
  within := Nat.zero_le _

/-- Wherever a pass returns, and in every state on its way, the residual is that of the iterate, the columns filled
are powers of the map and the budget is kept; and with coefficients of least squares the end of a cycle never
enlarges the residual. -/
theorem pass_recurs (p : Setup ℝ) (sizedFit : ∀ columns target, (p.fit columns target).length ≤ columns.length)
    {b x : Vec ℝ} (linear : IsLinear b.length p.map) (sized : x.length = b.length)
    (shadow : p.shadow = Vec.sub b (p.map x)) {length : Nat} (positive : 0 < length) :
    Returns p length (.begin x p.shadow) (pass p.map p.fit length p.tolerance p.budget x p.shadow).1
        (pass p.map p.fit length p.tolerance p.budget x p.shadow).2 ∧
      Recurs p b (pass p.map p.fit length p.tolerance p.budget x p.shadow).1 ∧
      (∀ phase s, Visits p length (.begin x p.shadow) phase s →
        Recurs p b s ∧ s.residuals.length = phase.getD 0 + 1 ∧ s.directions.length = phase.getD 0 + 1) ∧
      ∀ s, Visits p length (.begin x p.shadow) (some length) s →
        Nearest (s.residuals.drop 1) s.residual (p.fit (s.residuals.drop 1) s.residual) →
        Vec.norm (minimize p s).state.residual ≤ Vec.norm s.residual := by
  have begun := consistent_begin linear sized shadow
  have ended := pass_ended sizedFit linear sized shadow length p.budget p.tolerance
  refine ⟨?_, ⟨ended.residual, ended.residuals, ended.directions, ended.within⟩, fun phase s visited => ?_,
    fun s visited nearest => norm_minimize_le linear (visited.consistent linear sizedFit begun) nearest⟩
  · exact cycles_return positive (Nat.le_add_left _ _) .first
  · have consistent := visited.consistent linear sizedFit begun
    refine ⟨consistent.recurs, ?_, ?_⟩
    · rw [consistent.residuals, List.length_iterate]
    · obtain ⟨u, -, directions⟩ := consistent.directions
      rw [directions, List.length_iterate]

end Whole

section Example

/-- The least squares coefficient of a single column. -/
noncomputable def project : LeastSquares ℝ := fun columns target =>
  columns.map fun c => Arithmetic.dot c target / Arithmetic.dot c c

/-- A pass of one step over the map that doubles the second entry. -/
noncomputable def doubling : Setup ℝ := ⟨Vec.mul [1, 1 + 1], [1, 1], 0, 1, project⟩

theorem doubling_step : biStep doubling { State.begin [0, 0] [1, 1] with rho := -1 * 1 } =
    .next ⟨[2 / 3, 2 / 3], [[1 / 3, -1 / 3], [1 / 3, -2 / 3]], [[1, 1], [1, 2]], 2, 2 / 3, 1, 1⟩ := by
  have apart {c : ℝ} (nonzero : c ≠ 0) : Arithmetic.isZero c = false := by
    rw [← Bool.not_eq_true, isZero_iff]
    exact nonzero
  have rho : Arithmetic.isZero (-1 : ℝ) = false := apart (by norm_num)
  have sigma : usable (3 : ℝ) = true := by
    rw [usable, apart three_ne_zero]
    rfl
  simp [biStep, State.begin, doubling, reduceEach, appendPower, Vec.sub, Vec.scale, Vec.mul, Vec.add]
  norm_num [rho, sigma]

theorem nearest_project : Nearest [[1 / 3, -2 / 3]] [1 / 3, -1 / 3] (project [[1 / 3, -2 / 3]] [1 / 3, -1 / 3]) := by
  intro others sized
  obtain ⟨c, rfl⟩ := List.length_eq_one_iff.mp sized
  have image (e : ℝ) : Vec.norm (Vec.subCombination [1 / 3, -1 / 3] [e] [[1 / 3, -2 / 3]]) =
      Real.sqrt ((1 / 3 - e * (1 / 3)) ^ 2 + (-1 / 3 - e * (-2 / 3)) ^ 2) := by
    have square (x y : ℝ) : Arithmetic.dot [x, y] [x, y] = x ^ 2 + y ^ 2 := by
      simp [sq]
    exact congrArg Real.sqrt (square _ _)
  have coefficient : project [[1 / 3, -2 / 3]] [1 / 3, -1 / 3] = [3 / 5] := by
    norm_num [project]
  rw [coefficient, image, image]
  exact Real.sqrt_le_sqrt (by nlinarith [sq_nonneg (c - 3 / 5)])

/-- The pass reaches the end of its only cycle, where the residual shrinks, and keeps to its budget. -/
theorem pass_recurs_doubling :
    Recurs doubling [1, 1] (pass doubling.map doubling.fit 1 doubling.tolerance doubling.budget [0, 0] [1, 1]).1 ∧
      ∃ s, Visits doubling 1 (.begin [0, 0] [1, 1]) (some 1) s ∧ Recurs doubling [1, 1] s ∧
        s.residual = [1 / 3, -1 / 3] ∧ Vec.norm (minimize doubling s).state.residual ≤ Vec.norm s.residual := by
  have same : IsLinear 2 id := ⟨fun sized => sized, fun _ _ _ => rfl⟩
  have linear : IsLinear 2 doubling.map := same.comp_mul rfl
  have shadow : doubling.shadow = Vec.sub [1, 1] (doubling.map [0, 0]) := by
    norm_num [doubling, Vec.mul, Vec.sub]
  have sizedFit (columns : List (Vec ℝ)) (target : Vec ℝ) : (doubling.fit columns target).length ≤ columns.length :=
    (List.length_map _).le
  obtain ⟨-, ended, every, minimized⟩ :=
    pass_recurs doubling sizedFit (b := [1, 1]) (x := [0, 0]) linear rfl shadow one_pos
  have entered : Visits doubling 1 (.begin [0, 0] [1, 1]) (some 0) _ := .enter .first one_pos
  have visited := entered.step one_pos doubling_step
  exact ⟨ended, _, visited, (every _ _ visited).1, rfl, minimized _ visited nearest_project⟩

end Example

end Krylov

end Galerkin.Linear
