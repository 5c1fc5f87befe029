import Mathlib
import Galerkin.Linear.Solver
import Galerkin.Proofs.Linear.Vector
import Galerkin.Proofs.Outcome

/-!
Solutions have as many entries as right-hand sides, whichever way they are found and in whatever arithmetic.
-/

namespace Galerkin.Linear

variable {α : Type}

/-- One row for each row of a vector of `n` entries, and as many columns. -/
structure SparseMatrix.Sized (n : Nat) (m : SparseMatrix α) : Prop where
  size : m.size = n
  rows : m.rows.size = n

section Elimination

variable [Arithmetic α]

open Elimination

/-- Every column that is cleared yields a row. -/
theorem Elimination.length_columns {ks : List Nat} {done rest last : List (Row α)}
    (cleared : columns ks done rest = some last) : last.length = done.length + ks.length := by
  induction ks generalizing done rest with
  | nil =>
      cases cleared
      rfl
  | cons k ks ih =>
      unfold columns at cleared
      split at cleared
      · cases cleared
      · next pivot others _ =>
          dsimp only at cleared
          split at cleared
          · cases cleared
          · have later := ih cleared
            rw [List.length_append, List.length_map, List.length_singleton] at later
            rw [later, List.length_cons]
            omega

theorem Elimination.length_solve {rows : List (Row α)} {b x : List α} (found : solve? rows b = some x) :
    x.length = rows.length := by
  unfold solve? at found
  obtain ⟨done, cleared, rfl⟩ := Option.map_eq_some_iff.mp found
  have length := length_columns cleared
  rw [List.length_nil, List.length_range, Nat.zero_add] at length
  rw [List.length_map, length]

theorem SparseMatrix.length_apply (m : SparseMatrix α) (x : Vec α) : (m.apply x).length = m.rows.size := by
  rw [apply, List.length_map, Array.length_toList]

end Elimination

namespace Krylov

variable {n : Nat}

/-- Vectors of `n` entries each, and at least one. -/
structure Stack (n : Nat) (vectors : List (Vec α)) : Prop where
  some : vectors ≠ []
  sized : ∀ v ∈ vectors, v.length = n

theorem Stack.head {vectors : List (Vec α)} (stack : Stack n vectors) : (vectors.headD []).length = n := by
  cases vectors with
  | nil => exact absurd rfl stack.some
  | cons v rest => exact stack.sized v List.mem_cons_self

theorem Stack.tail {vectors : List (Vec α)} (stack : Stack n vectors) : ∀ v ∈ vectors.drop 1, v.length = n :=
  fun v member => stack.sized v (List.mem_of_mem_drop member)

theorem stack_singleton {v : Vec α} (sized : v.length = n) : Stack n [v] :=
  ⟨List.cons_ne_nil _ _, List.forall_mem_singleton.mpr sized⟩

theorem stack_appendPower {map : Vec α → Vec α} (maps : ∀ v, (map v).length = n) {vectors : List (Vec α)}
    (sized : ∀ v ∈ vectors, v.length = n) : Stack n (appendPower map vectors) where
  some := List.append_ne_nil_of_right_ne_nil _ (List.cons_ne_nil _ _)
  sized := by
    intro v member
    rcases List.mem_append.mp member with old | new
    · exact sized v old
    · rw [List.mem_singleton.mp new]
      exact maps _

variable [Scalar α]

theorem sized_reduceEach (c : α) {vectors others : List (Vec α)} (first : ∀ v ∈ vectors, v.length = n)
    (second : ∀ v ∈ others, v.length = n) : ∀ v ∈ reduceEach c vectors others, v.length = n := by
  intro v member
  rw [reduceEach, ← List.map_uncurry_zip_eq_zipWith] at member
  obtain ⟨⟨u, w⟩, inside, rfl⟩ := List.mem_map.mp member
  have own := List.of_mem_zip inside
  simp [Function.uncurry, first u own.1, second w own.2]

/-- All vectors of a state have `n` entries. -/
structure State.Sized (n : Nat) (s : State α) : Prop where
  x : s.x.length = n
  residuals : Stack n s.residuals
  directions : Stack n s.directions

/-- The state that was reached, whether it is to be continued or not. -/
def Progress.reached : Progress α → State α
  | next s => s
  | last s _ => s

variable {p : Setup α} {s : State α}

theorem biStep_sized (maps : ∀ v, (p.map v).length = n) (sized : s.Sized n) : (biStep p s).reached.Sized n := by
  have directions (beta : α) : Stack n (appendPower p.map (reduceEach beta s.residuals s.directions)) :=
    stack_appendPower maps (sized_reduceEach beta sized.residuals.sized sized.directions.sized)
  unfold biStep
  split
  · exact sized
  dsimp only
  split
  · exact sized
  split
  · exact ⟨sized.x, sized.residuals, directions _⟩
  · refine ⟨?_, ?_, directions _⟩
    · have first := (directions (s.alpha * Arithmetic.dot (s.residuals.getLastD []) p.shadow / s.rho)).head
      simp only [Progress.reached, Vec.length_add, Vec.length_scale, sized.x, first, min_self]
    · exact stack_appendPower maps (sized_reduceEach _ sized.residuals.sized (directions _).tail)

theorem biSteps_sized (maps : ∀ v, (p.map v).length = n) (count : Nat) (sized : s.Sized n) :
    (biSteps p count s).reached.Sized n := by
  induction count generalizing s with
  | zero => exact sized
  | succ count ih =>
      have first := biStep_sized maps sized
      rw [biSteps]
      cases step : biStep p s with
      | next t =>
          rw [step] at first
          exact ih first
      | last t why =>
          rw [step] at first
          exact first

theorem minimize_sized (sized : s.Sized n) : (minimize p s).reached.Sized n := by
  have combined (gamma : List α) (omega : α) : State.Sized n { s with
      x := Vec.addCombination s.x gamma s.residuals
      residuals := [Vec.subCombination s.residual gamma (s.residuals.drop 1)]
      directions := [Vec.subCombination (s.directions.headD []) gamma (s.directions.drop 1)]
      omega } :=
    ⟨Vec.length_addCombination sized.x sized.residuals.sized,
      stack_singleton (Vec.length_subCombination sized.residuals.head sized.residuals.tail),
      stack_singleton (Vec.length_subCombination sized.directions.head sized.directions.tail)⟩
  unfold minimize
  dsimp only
  split
  · exact sized
  split
  · exact combined _ _
  split
  · exact combined _ _
  split
  · exact combined _ _
  · exact combined _ _

theorem cycle_sized (maps : ∀ v, (p.map v).length = n) (length : Nat) (sized : s.Sized n) :
    (cycle p length s).reached.Sized n := by
  have steps := biSteps_sized (s := { s with rho := -s.omega * s.rho }) maps length
    ⟨sized.x, sized.residuals, sized.directions⟩
  rw [cycle]
  cases reached : biSteps p length { s with rho := -s.omega * s.rho } with
  | next t =>
      rw [reached] at steps
      exact minimize_sized steps
  | last t why =>
      rw [reached] at steps
      exact steps

theorem cycles_sized (maps : ∀ v, (p.map v).length = n) (length fuel : Nat) (sized : s.Sized n) :
    (cycles p length fuel s).1.Sized n := by
  induction fuel generalizing s with
  | zero => exact sized
  | succ fuel ih =>
      have first := cycle_sized maps length sized
      rw [cycles]
      split
      · exact sized
      · cases reached : cycle p length s with
        | last t why =>
            rw [reached] at first
            exact first
        | next t =>
            rw [reached] at first
            exact ih first

/-- All vectors of a search have `n` entries. -/
structure Search.Sized (n : Nat) (s : Search α) : Prop where
  x : s.x.length = n
  residual : s.residual.length = n
  start : s.start.length = n

section Search

variable {a : Operator α} {b weights : Vec α} {fit : LeastSquares α}

theorem pass_sized (applies : ∀ v, (a.apply v).length = n) (right : b.length = n) (scaled : weights.length = n)
    {s : Search α} (length : Nat) (tolerance : α) (maxSteps : Nat) (sized : s.Sized n) :
    (s.pass a b fit weights length tolerance maxSteps).1.Sized n := by
  have last (budget : Nat) : (Krylov.pass (fun v => a.apply (Vec.mul weights v)) fit length tolerance budget s.start
      s.residual).1.x.length = n := by
    have start : State.Sized n (α := α) ⟨s.start, [s.residual], [Vec.zeros s.residual.length], 1, 0, 1, 0⟩ :=
      ⟨sized.start, stack_singleton sized.residual, stack_singleton (by rw [Vec.length_zeros, sized.residual])⟩
    exact (cycles_sized (fun v => applies _) length budget start).x
  unfold Search.pass
  dsimp only
  split
  · exact ⟨sized.x, sized.residual, sized.start⟩
  · split
    · constructor <;> simp [applies, right, scaled, last]
    · constructor <;> simp [sized.x, sized.residual, scaled]

theorem search_sized (applies : ∀ v, (a.apply v).length = n) (right : b.length = n) (scaled : weights.length = n)
    {s : Search α} (length : Nat) (tolerance : α) (maxSteps fuel : Nat) (sized : s.Sized n) :
    (search a b fit weights length tolerance maxSteps fuel s).Sized n := by
  induction fuel generalizing s with
  | zero => exact sized
  | succ fuel ih =>
      have next : (s.pass a b fit weights length tolerance maxSteps).1.Sized n :=
        pass_sized applies right scaled length tolerance maxSteps sized
      rw [search]
      split
      · exact sized
      · split
        · next t found =>
            rw [found] at next
            exact ih next
        · next t found =>
            rw [found] at next
            exact next

theorem length_scaling (diagonal : ∀ d, a.diagonal = some d → d.length = n) {name : Option String}
    (found : scaling a n name = .ok weights) : weights.length = n := by
  unfold scaling at found
  split at found
  · cases found
    exact List.length_replicate
  · split at found
    · next d known =>
        cases found
        rw [inverseDiagonal, List.length_map, diagonal d known]
    · cases found
  · cases found

theorem length_solve {settings : KrylovSettings α} {x0 : Option (Vec α)} {r : KrylovResult α}
    (applies : ∀ v, (a.apply v).length = b.length) (diagonal : ∀ d, a.diagonal = some d → d.length = b.length)
    (start : ∀ x ∈ x0, x.length = b.length) (found : solve fit settings a b x0 = .ok r) : r.x.length = b.length := by
  unfold solve at found
  split at found
  · cases found
  obtain ⟨weights, scaled, found⟩ := Outcome.bind_eq_ok.mp found
  have weights := length_scaling diagonal scaled
  dsimp only at found
  split at found
  · cases found
    exact Vec.length_zeros
  · cases found
    have first : (x0.getD (Vec.zeros b.length)).length = b.length := by
      cases x0 with
      | none => exact Vec.length_zeros
      | some x => exact start x rfl
    refine (search_sized applies rfl weights _ _ _ _ ⟨first, ?_, ?_⟩).x
    · simp [Search.begin, applies]
    · simp [Search.begin, first, weights]

end Search

end Krylov

namespace Solver

variable [Scalar α]

/-- A solution has an entry for each row of the matrix. -/
theorem length_solve {fit : LeastSquares α} {settings : SolverSettings α} {m : SparseMatrix α} {b : Vec α}
    {r : KrylovResult α} (sized : m.Sized b.length) (found : solve fit settings (.entries m) b none = .ok r) :
    r.x.length = b.length := by
  obtain ⟨judgement, attempted, judged⟩ := Outcome.bind_eq_ok.mp found
  cases judgement with
  | error rejection => cases judged
  | ok result =>
      cases judged
      have accepted {answer : Option (KrylovResult α)} (same : Solver.judged answer = .ok r) : answer = some r := by
        unfold Solver.judged at same
        split at same
        · split at same
          · cases same
            rfl
          · cases same
        · cases same
      unfold attempt at attempted
      split at attempted
      · obtain ⟨x, solved, answer⟩ := Option.bind_eq_some_iff.mp (accepted (Except.ok.inj attempted))
        cases answer
        rw [Elimination.length_solve solved, SparseMatrix.toDense, List.length_map, Array.length_toList, sized.rows]
      · obtain ⟨answer, iterated, same⟩ := Outcome.bind_eq_ok.mp attempted
        cases accepted (Except.ok.inj same)
        refine Krylov.length_solve (fun v => ?_) (fun d known => ?_) (fun x absent => ?_) iterated
        · exact (SparseMatrix.length_apply m v).trans sized.rows
        · cases known
          rw [SparseMatrix.diagonal, List.length_map, List.length_range, sized.size]
        · cases absent
      · cases attempted

end Solver

end Galerkin.Linear
