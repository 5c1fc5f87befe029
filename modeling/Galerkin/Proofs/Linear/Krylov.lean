import Mathlib
import Galerkin.Linear.Krylov
import Galerkin.Proofs.Linear.Vector
import Galerkin.Proofs.Outcome

/-!
The iterative solver keeps its iterate and its residual together: after any step, and wherever a pass
comes to its end, the residual is that of the iterate.
-/

namespace Galerkin.Linear

namespace Krylov

/-! ### Powers of a map -/

section Powers

/-- Is each of some vectors but the first what the map makes of the one before it? -/
def Powers (map : Vec ℝ → Vec ℝ) (vectors : List (Vec ℝ)) : Prop :=
  ∀ i v w, vectors[i]? = some v → vectors[i + 1]? = some w → w = map v

variable {n : Nat} {map : Vec ℝ → Vec ℝ} {v w : Vec ℝ}

theorem powers_iterate (map : Vec ℝ → Vec ℝ) (v : Vec ℝ) (k : Nat) : Powers map (List.iterate map v k) := by
  intro i a b here next
  rw [List.getElem?_eq_some_iff] at here next
  obtain ⟨_, rfl⟩ := here
  obtain ⟨_, rfl⟩ := next
  rw [List.getElem_iterate, List.getElem_iterate, Function.iterate_succ_apply']

theorem powers_singleton (map : Vec ℝ → Vec ℝ) (v : Vec ℝ) : Powers map [v] := powers_iterate map v 1

theorem length_of_mem_iterate (linear : IsLinear n map) (sized : v.length = n) {k : Nat} :
    ∀ u ∈ List.iterate map v k, u.length = n := by
  induction k generalizing v with
  | zero => simp
  | succ k ih =>
      intro u member
      rcases List.mem_cons.mp member with rfl | later
      · exact sized
      · exact ih (linear.length sized) u later

theorem map_iterate (v : Vec ℝ) (k : Nat) : (List.iterate map v k).map map = List.iterate map (map v) k := by
  induction k generalizing v with
  | zero => rfl
  | succ k ih => exact congrArg _ (ih (map v))

theorem getLastD_iterate (v : Vec ℝ) (k : Nat) : (List.iterate map v (k + 1)).getLastD [] = map^[k] v := by
  induction k generalizing v with
  | zero => rfl
  | succ k ih => exact ih (map v)

theorem appendPower_iterate (v : Vec ℝ) (k : Nat) :
    appendPower map (List.iterate map v (k + 1)) = List.iterate map v (k + 2) := by
  rw [appendPower, getLastD_iterate, List.iterate_add map v (k + 1) 1, ← Function.iterate_succ_apply' map k v]
  rfl

theorem reduceEach_iterate (linear : IsLinear n map) (c : ℝ) (first : v.length = n) (second : w.length = n)
    (k : Nat) :
    reduceEach c (List.iterate map v k) (List.iterate map w k) =
      List.iterate map (Vec.sub v (Vec.scale c w)) k := by
  induction k generalizing v w with
  | zero => rfl
  | succ k ih =>
      have rest := ih (linear.length first) (linear.length second)
      rw [← linear.sub_scale c first second] at rest
      exact congrArg _ rest

end Powers

/-! ### A pass -/

section Pass

/-- The lists of a state hold the powers of the map on the residual of the iterate and on a direction. -/
structure Consistent (p : Setup ℝ) (b : Vec ℝ) (k : Nat) (s : State ℝ) : Prop where
  sized : s.x.length = b.length
  residuals : s.residuals = List.iterate p.map (Vec.sub b (p.map s.x)) (k + 1)
  directions : ∃ u : Vec ℝ, u.length = b.length ∧ s.directions = List.iterate p.map u (k + 1)
  within : s.steps ≤ p.budget

/-- What holds where a pass comes to its end. -/
structure Ended (p : Setup ℝ) (b : Vec ℝ) (s : State ℝ) (why : Outcome) : Prop where
  sized : s.x.length = b.length
  residual : s.residual = Vec.sub b (p.map s.x)
  residuals : Powers p.map s.residuals
  directions : Powers p.map s.directions
  within : s.steps ≤ p.budget
  converged : why = .converged → Vec.norm s.residual ≤ p.tolerance

def Progress.Sound (p : Setup ℝ) (b : Vec ℝ) (k : Nat) : Progress ℝ → Prop
  | .next s => Consistent p b k s
  | .last s why => Ended p b s why

variable {p : Setup ℝ} {b : Vec ℝ} {k : Nat} {s : State ℝ}

theorem Progress.Sound.andThen {m : Nat} {progress : Progress ℝ} {f : State ℝ → Progress ℝ}
    (sound : progress.Sound p b k) (next : ∀ s, Consistent p b k s → (f s).Sound p b m) :
    (progress.andThen f).Sound p b m := by
  cases progress with
  | next s => exact next s sound
  | last s why => exact sound

theorem Consistent.ended (consistent : Consistent p b k s) {why : Outcome} (other : why ≠ .converged) :
    Ended p b s why where
  sized := consistent.sized
  residual := by rw [State.residual, consistent.residuals]; rfl
  residuals := consistent.residuals ▸ powers_iterate _ _ _
  directions := by
    obtain ⟨u, -, directions⟩ := consistent.directions
    exact directions ▸ powers_iterate _ _ _
  within := consistent.within
  converged := fun same => absurd same other

variable (linear : IsLinear b.length p.map)

include linear

theorem length_residual (x : Vec ℝ) (sized : x.length = b.length) :
    (Vec.sub b (p.map x)).length = b.length := by
  simp [linear.length sized]

/-- A step along a direction takes the same multiple of the direction's image from the residual. -/
theorem Consistent.advance (consistent : Consistent p b k s) (below : s.steps < p.budget) {u : Vec ℝ}
    (direction : u.length = b.length) (rho alpha : ℝ) :
    Consistent p b (k + 1) { s with
      x := Vec.add s.x (Vec.scale alpha u)
      residuals := appendPower p.map (reduceEach alpha s.residuals (List.iterate p.map (p.map u) (k + 1)))
      directions := List.iterate p.map u (k + 2)
      rho, alpha
      steps := s.steps + 1 } where
  sized := by simp [consistent.sized, direction]
  residuals := by
    rw [consistent.residuals, reduceEach_iterate linear alpha (length_residual linear s.x consistent.sized)
      (linear.length direction), appendPower_iterate, linear.add_scale alpha consistent.sized direction,
      Vec.sub_add]
  directions := ⟨u, direction, rfl⟩
  within := below

theorem biStep_sound (consistent : Consistent p b k s) : (biStep p s).Sound p b (k + 1) := by
  have stopped (why : Outcome) (other : why ≠ .converged) : Ended p b s why := consistent.ended other
  have residual := length_residual linear s.x consistent.sized
  obtain ⟨u, direction, directions⟩ := consistent.directions
  unfold biStep
  dsimp only
  split
  · exact stopped .stepLimit Outcome.noConfusion
  · rename_i below
    generalize Arithmetic.dot (s.residuals.getLastD []) p.shadow = rho
    split
    · exact stopped .breakdown Outcome.noConfusion
    · generalize s.alpha * rho / s.rho = beta
      rw [directions, consistent.residuals, reduceEach_iterate linear beta residual direction,
        appendPower_iterate, ← consistent.residuals]
      split
      · obtain ⟨sized, same, residuals, -, within, -⟩ := stopped .breakdown Outcome.noConfusion
        exact ⟨sized, same, residuals, powers_iterate _ _ _, within, Outcome.noConfusion⟩
      · exact consistent.advance linear (Nat.lt_of_not_le below) (by simp [residual, direction]) rho _

theorem biSteps_sound {m : Nat} (consistent : Consistent p b k s) : (biSteps p m s).Sound p b (k + m) := by
  induction m generalizing k s with
  | zero => exact consistent
  | succ m ih =>
      refine (biStep_sound linear consistent).andThen fun next further => ?_
      rw [← Nat.add_assoc, Nat.add_right_comm]
      exact ih further

/-- A combination of the powers moves the iterate and its residual together, if the last power is left out. -/
theorem Consistent.combine (consistent : Consistent p b k s) {coeffs : List ℝ} (few : coeffs.length ≤ k) :
    Vec.subCombination s.residual coeffs (s.residuals.drop 1) =
      Vec.sub b (p.map (Vec.addCombination s.x coeffs s.residuals)) := by
  have residual := length_residual linear s.x consistent.sized
  rw [State.residual, consistent.residuals]
  set r := Vec.sub b (p.map s.x) with start
  have used : Vec.addCombination s.x coeffs (List.iterate p.map r (k + 1)) =
      Vec.addCombination s.x coeffs (List.iterate p.map r k) := by
    rw [List.iterate_add]
    exact Vec.addCombination_append s.x (by rwa [List.length_iterate]) _
  calc
    _ = Vec.subCombination r coeffs (List.iterate p.map (p.map r) k) := rfl
    _ = Vec.sub b (Vec.addCombination (p.map s.x) coeffs ((List.iterate p.map r k).map p.map)) := by
      rw [Vec.sub_addCombination, map_iterate]
    _ = Vec.sub b (p.map (Vec.addCombination s.x coeffs (List.iterate p.map r (k + 1)))) := by
      rw [used, linear.addCombination consistent.sized coeffs (length_of_mem_iterate linear residual)]

theorem minimize_sound (sizedFit : ∀ columns target, (p.fit columns target).length ≤ columns.length)
    (consistent : Consistent p b k s) : (minimize p s).Sound p b 0 := by
  have few : (p.fit (s.residuals.drop 1) s.residual).length ≤ k := by
    have bound := sizedFit (s.residuals.drop 1) s.residual
    rwa [List.length_drop, consistent.residuals, List.length_iterate, Nat.add_sub_cancel,
      ← consistent.residuals] at bound
  have same := consistent.combine linear few
  have residual := length_residual linear s.x consistent.sized
  obtain ⟨u, direction, directions⟩ := consistent.directions
  unfold minimize
  dsimp only
  generalize p.fit (s.residuals.drop 1) s.residual = gamma at few same
  have moved : (Vec.addCombination s.x gamma s.residuals).length = b.length :=
    Vec.length_addCombination consistent.sized
      (consistent.residuals ▸ length_of_mem_iterate linear residual)
  have turned : (Vec.subCombination (s.directions.headD []) gamma (s.directions.drop 1)).length = b.length := by
    rw [Vec.subCombination_eq, directions]
    exact Vec.length_addCombination direction (length_of_mem_iterate linear (linear.length direction))
  split
  · exact consistent.ended Outcome.noConfusion
  · split
    · exact ⟨moved, same, powers_singleton _ _, powers_singleton _ _, consistent.within, Outcome.noConfusion⟩
    · split
      · rename_i small
        exact ⟨moved, same, powers_singleton _ _, powers_singleton _ _, consistent.within, fun _ => small⟩
      · split
        · exact ⟨moved, same, powers_singleton _ _, powers_singleton _ _, consistent.within, Outcome.noConfusion⟩
        · exact ⟨moved, congrArg (fun r => [r]) same, ⟨_, turned, rfl⟩, consistent.within⟩

variable (sizedFit : ∀ columns target, (p.fit columns target).length ≤ columns.length)

include sizedFit

theorem cycle_sound (length : Nat) (consistent : Consistent p b 0 s) : (cycle p length s).Sound p b 0 := by
  have begun : Consistent p b 0 { s with rho := -s.omega * s.rho } :=
    ⟨consistent.sized, consistent.residuals, consistent.directions, consistent.within⟩
  exact (biSteps_sound linear begun).andThen fun _ => minimize_sound linear sizedFit

theorem cycles_ended (length fuel : Nat) (consistent : Consistent p b 0 s) :
    Ended p b (cycles p length fuel s).1 (cycles p length fuel s).2 := by
  induction fuel generalizing s with
  | zero => exact consistent.ended Outcome.noConfusion
  | succ fuel ih =>
      rw [cycles]
      split
      · exact consistent.ended Outcome.noConfusion
      · have sound := cycle_sound linear sizedFit length consistent
        split
        · rename_i last why found
          rwa [found] at sound
        · rename_i next found
          rw [found] at sound
          exact ih sound

end Pass

theorem pass_ended {fit : LeastSquares ℝ} (sizedFit : ∀ columns target, (fit columns target).length ≤ columns.length)
    {map : Vec ℝ → Vec ℝ} {b x r : Vec ℝ} (linear : IsLinear b.length map) (sized : x.length = b.length)
    (residual : r = Vec.sub b (map x)) (length budget : Nat) (tolerance : ℝ) :
    Ended ⟨map, r, tolerance, budget, fit⟩ b (pass map fit length tolerance budget x r).1
      (pass map fit length tolerance budget x r).2 := by
  refine cycles_ended linear sizedFit length budget ⟨sized, by rw [residual]; rfl, ⟨_, ?_, rfl⟩, Nat.zero_le _⟩
  simp [residual, linear.length sized]

/-! ### The length of a pass -/

section Steps

variable {α : Type} [Scalar α] {p : Setup α} {s t : State α}

theorem biStep_steps (next : biStep p s = .next t) : t.steps = s.steps + 1 := by
  unfold biStep at next
  dsimp only at next
  split at next
  · cases next
  · split at next
    · cases next
    · split at next
      · cases next
      · cases next
        rfl

theorem biSteps_steps {m : Nat} (next : biSteps p m s = .next t) : t.steps = s.steps + m := by
  induction m generalizing s with
  | zero =>
      cases next
      rfl
  | succ m ih =>
      rw [biSteps] at next
      cases first : biStep p s with
      | last u why =>
          rw [first] at next
          cases next
      | next u =>
          rw [first] at next
          have rest := ih next
          have head := biStep_steps first
          omega

theorem minimize_steps (next : minimize p s = .next t) : t.steps = s.steps := by
  unfold minimize at next
  dsimp only at next
  split at next
  · cases next
  · split at next
    · cases next
    · split at next
      · cases next
      · split at next
        · cases next
        · cases next
          rfl

theorem cycle_steps {length : Nat} (next : cycle p length s = .next t) : t.steps = s.steps + length := by
  rw [cycle] at next
  cases stepped : biSteps p length { s with rho := -s.omega * s.rho } with
  | last u why =>
      rw [stepped] at next
      cases next
  | next u =>
      rw [stepped] at next
      exact (minimize_steps next).trans (biSteps_steps (s := { s with rho := -s.omega * s.rho }) stepped)

/-- Cycles come to their end within the budget: to allow more of them changes nothing. -/
theorem cycles_of_enough {length fuel : Nat} (positive : 0 < length) (enough : p.budget ≤ s.steps + fuel)
    (more : Nat) : cycles p length (fuel + more) s = cycles p length fuel s := by
  induction fuel generalizing s with
  | zero =>
      cases more with
      | zero => rfl
      | succ more => exact if_pos enough
  | succ fuel ih =>
      rw [Nat.add_right_comm, cycles, cycles]
      split
      · rfl
      · split
        · rfl
        · rename_i next found
          refine ih ?_
          have further := cycle_steps found
          omega

end Steps

/-! ### Passes in a row -/

/-- What is kept between passes: the residual is that of the iterate, and never larger than at the start. -/
structure Kept (a : Operator ℝ) (b weights : Vec ℝ) (initial : ℝ) (maxSteps : Nat) (s : Search ℝ) : Prop where
  sized : s.x.length = b.length
  residual : s.residual = Vec.sub b (a.apply s.x)
  size : s.size = Vec.norm s.residual
  start : s.start = Vec.div s.x weights
  improved : s.size ≤ initial
  within : s.steps ≤ maxSteps

section Search

variable {fit : LeastSquares ℝ} (sizedFit : ∀ columns target, (fit columns target).length ≤ columns.length)
  {a : Operator ℝ} {b weights : Vec ℝ} (linear : IsLinear b.length a.apply)
  (scaled : weights.length = b.length) (nonzero : ∀ e ∈ weights, e ≠ 0)
  {initial : ℝ} {maxSteps : Nat} {s : Search ℝ}

include sizedFit linear scaled nonzero

/-- An iterate is taken if its residual is smaller, and if the pass converged: the pass then judged the true
residual, which is within the tolerance. -/
theorem Kept.pass (length : Nat) {tolerance : ℝ} (kept : Kept a b weights initial maxSteps s) (large : tolerance < s.size) :
    Kept a b weights initial maxSteps (s.pass a b fit weights length tolerance maxSteps).1 := by
  have begun : s.residual = Vec.sub b (a.apply (Vec.mul weights s.start)) := by
    rw [kept.residual, kept.start, Vec.mul_div (kept.sized.trans scaled.symm) nonzero]
  have sizedStart : s.start.length = b.length := by simp [kept.start, kept.sized, scaled]
  have ended := pass_ended sizedFit (linear.comp_mul scaled) sizedStart begun length (maxSteps - s.steps) tolerance
  unfold Search.pass
  dsimp only
  generalize Krylov.pass (fun v => a.apply (Vec.mul weights v)) fit length tolerance (maxSteps - s.steps) s.start
    s.residual = found at ended
  obtain ⟨last, why⟩ := found
  obtain ⟨sized, same, -, -, within, converged⟩ := ended
  dsimp only at sized same within converged ⊢
  have counted : s.steps + last.steps ≤ maxSteps := by
    have before := kept.within
    omega
  split
  · exact ⟨kept.sized, kept.residual, kept.size, kept.start, kept.improved, counted⟩
  · split
    · rename_i taken
      rw [Bool.or_eq_true, decide_eq_true_eq, decide_eq_true_eq] at taken
      refine ⟨by simp [scaled, sized], rfl, rfl, rfl, ?_, counted⟩
      rcases taken with smaller | done
      · exact smaller.le.trans kept.improved
      · have small := converged done
        rw [same] at small
        exact (small.trans large.le).trans kept.improved
    · exact ⟨kept.sized, kept.residual, kept.size, rfl, kept.improved, counted⟩

theorem search_kept (length fuel : Nat) (tolerance : ℝ) (kept : Kept a b weights initial maxSteps s) :
    Kept a b weights initial maxSteps (search a b fit weights length tolerance maxSteps fuel s) := by
  induction fuel generalizing s with
  | zero => exact kept
  | succ fuel ih =>
      rw [search]
      split
      · exact kept
      · rename_i goesOn
        rw [Bool.or_eq_true, not_or] at goesOn
        have large : tolerance < s.size := by simpa using goesOn.1
        have next := kept.pass sizedFit linear scaled nonzero length large
        split
        · rename_i t found
          rw [found] at next
          exact ih next
        · rename_i t found
          rwa [found] at next

end Search

theorem pass_passes {α : Type} [Scalar α] (a : Operator α) (b : Vec α) (fit : LeastSquares α) (weights : Vec α)
    (length : Nat) (tolerance : α) (maxSteps : Nat) (s : Search α) :
    (s.pass a b fit weights length tolerance maxSteps).1.passes = s.passes + 1 := by
  unfold Search.pass
  dsimp only
  split
  · rfl
  · split <;> rfl

theorem search_passes {α : Type} [Scalar α] (a : Operator α) (b : Vec α) (fit : LeastSquares α) (weights : Vec α)
    (length : Nat) (tolerance : α) (maxSteps fuel : Nat) (s : Search α) :
    (search a b fit weights length tolerance maxSteps fuel s).passes ≤ s.passes + fuel := by
  induction fuel generalizing s with
  | zero => exact Nat.le_refl _
  | succ fuel ih =>
      have next := pass_passes a b fit weights length tolerance maxSteps s
      rw [search]
      split
      · omega
      · split
        · rename_i t found
          replace next : t.passes = s.passes + 1 := by rwa [found] at next
          have rest := ih t
          omega
        · rename_i t found
          replace next : t.passes = s.passes + 1 := by rwa [found] at next
          omega

/-! ### The solver -/

/-- The two preconditioners: none, and the diagonal of a matrix that has one. -/
def Preconditioned (a : Operator ℝ) (n : Nat) (name : Option String) : Prop :=
  name = none ∨ name = some "jacobi" ∧ ∃ d, a.diagonal = some d ∧ d.length = n

theorem scaling_isOk {a : Operator ℝ} {n : Nat} {name : Option String} (known : Preconditioned a n name) :
    ∃ weights, scaling a n name = .ok weights ∧ weights.length = n ∧ ∀ e ∈ weights, e ≠ 0 := by
  rcases known with rfl | ⟨rfl, d, diagonal, sized⟩
  · refine ⟨_, rfl, List.length_replicate, fun e member => ?_⟩
    rw [List.eq_of_mem_replicate member]
    exact one_ne_zero
  · refine ⟨inverseDiagonal d, by rw [scaling, diagonal]; rfl, by simp [inverseDiagonal, sized], fun e member => ?_⟩
    obtain ⟨c, -, rfl⟩ := List.mem_map.mp member
    split
    · exact one_ne_zero
    · rename_i nonzero
      rw [isZero_iff] at nonzero
      exact one_div_ne_zero nonzero

/-- The result tells the truth about its residual, and keeps to the limits. -/
structure Reports (settings : KrylovSettings ℝ) (a : Operator ℝ) (b : Vec ℝ) (x0 : Option (Vec ℝ))
    (r : KrylovResult ℝ) : Prop where
  sized : r.x.length = b.length
  residual : r.residualNorm = Vec.norm (Vec.sub b (a.apply r.x))
  converged : r.converged = true ↔ r.residualNorm ≤ settings.tolerance * Vec.norm b
  steps : (r.steps : Int) ≤ settings.maxSteps
  passes : (r.passes : Int) ≤ settings.maxPasses
  improved : r.residualNorm ≤ Vec.norm (Vec.sub b (a.apply (x0.getD (Vec.zeros b.length))))

theorem solve_reports {fit : LeastSquares ℝ} (sizedFit : ∀ columns target, (fit columns target).length ≤ columns.length)
    {settings : KrylovSettings ℝ} (positive : 1 ≤ settings.cycle) (maxSteps : 0 ≤ settings.maxSteps)
    (maxPasses : 0 ≤ settings.maxPasses)
    {a : Operator ℝ} {b : Vec ℝ} (linear : IsLinear b.length a.apply)
    (known : Preconditioned a b.length settings.preconditioner) {x0 : Option (Vec ℝ)}
    (start : ∀ x ∈ x0, x.length = b.length) :
    ∃ r, solve fit settings a b x0 = .ok r ∧ Reports settings a b x0 r := by
  obtain ⟨weights, scaled, sized, nonzero⟩ := scaling_isOk known
  have begun : (x0.getD (Vec.zeros b.length)).length = b.length := by
    cases x0 with
    | none => exact Vec.length_zeros
    | some x => exact start x rfl
  unfold solve
  dsimp only
  rw [if_neg (Int.not_lt.mpr positive)]
  by_cases none : Vec.norm b = 0
  · refine ⟨_, Outcome.bind_eq_ok.mpr ⟨weights, scaled, if_pos ((isZero_iff _).mpr none)⟩, ?_⟩
    have zero : Vec.norm (Vec.sub b (a.apply (Vec.zeros b.length))) = 0 := by
      rw [linear.zeros, ← Vec.eq_zeros_of_norm none, Vec.sub_self_eq_zeros, Vec.norm_zeros]
    refine ⟨Vec.length_zeros, zero.symm, ?_, maxSteps, maxPasses, Vec.norm_nonneg _⟩
    simp [none]
  · have large : ¬ Arithmetic.isZero (Vec.norm b) = true := fun small => none ((isZero_iff _).mp small)
    refine ⟨_, Outcome.bind_eq_ok.mpr ⟨weights, scaled, if_neg large⟩, ?_⟩
    have first : Kept a b weights (Vec.norm (Vec.sub b (a.apply (x0.getD (Vec.zeros b.length)))))
        settings.maxSteps.toNat (.begin a b weights (x0.getD (Vec.zeros b.length))) :=
      ⟨begun, rfl, rfl, rfl, le_refl _, Nat.zero_le _⟩
    have kept := search_kept sizedFit linear sized nonzero settings.cycle.toNat settings.maxPasses.toNat
      (settings.tolerance * Vec.norm b) first
    have passes := search_passes a b fit weights settings.cycle.toNat (settings.tolerance * Vec.norm b)
      settings.maxSteps.toNat settings.maxPasses.toNat (.begin a b weights (x0.getD (Vec.zeros b.length)))
    refine ⟨kept.sized, kept.size.trans (congrArg _ kept.residual), decide_eq_true_iff, ?_, ?_, kept.improved⟩
    · exact (Int.ofNat_le.mpr kept.within).trans (Int.toNat_of_nonneg maxSteps).le
    · exact (Int.ofNat_le.mpr (passes.trans (Nat.zero_add _).le)).trans (Int.toNat_of_nonneg maxPasses).le

end Krylov

end Galerkin.Linear
