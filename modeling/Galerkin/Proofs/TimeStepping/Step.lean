import Mathlib
import Galerkin.Newton
import Galerkin.Proofs.DofMap
import Galerkin.Proofs.Exact
import Galerkin.Proofs.Outcome
import Galerkin.TimeStepping.Step

/-!
The linear solves that Newton's method makes for one step: where each was made, the system there and the
increment that was found. What the method returns and how it fails are told in terms of them.

One time step: how it ends, and what it leaves behind.
-/

namespace Galerkin.Newton

open Linear

structure Solve (α : Type) where
  x : Vec α
  system : System α
  increment : Vec α

variable {α : Type} [Scalar α]

/-- The system at the iterate is finite, and the increment solves it. -/
structure Solve.Made (p : Equations α) (v : Solve α) : Prop where
  assembled : p.assemble v.x (p.rate v.x) = .ok v.system
  finite : Scalar.isFinite (Vec.maxNorm v.system.residual) = true
  solved : p.solve v.system.tangent (Vec.neg v.system.residual) = .ok v.increment

/-- Solves one after the other, each from where the one before it led. -/
def Path (p : Equations α) : Vec α → List (Solve α) → Vec α → Prop
  | x, [], y => y = x
  | x, v :: rest, y => v.x = x ∧ v.Made p ∧ Path p (Vec.add x v.increment) rest y

variable {s : Settings α} {p : Equations α} {x : Vec α} {solves : List (Solve α)}

theorem Path.concat {y : Vec α} (path : Path p x solves y) {v : Solve α} (here : v.x = y) (made : v.Made p) :
    Path p x (solves ++ [v]) (Vec.add y v.increment) := by
  induction solves generalizing x with
  | nil =>
      have same : y = x := path
      exact ⟨here.trans same, made, by rw [same]; rfl⟩
  | cons head tail ih =>
      obtain ⟨start, first, rest⟩ := path
      exact ⟨start, first, ih rest⟩

theorem during_eq_ok {β : Type} {phase : Phase} {result : Except Failure β} {b : β} :
    during phase result = .ok b ↔ result = .ok b := by
  cases result <;> simp [during]

theorem during_eq_error {β : Type} {phase : Phase} {result : Except Failure β} {stop : Stop} :
    during phase result = .error stop ↔ result = .error stop.failure ∧ stop.phase = phase := by
  cases result with
  | ok b => simp [during]
  | error f =>
      obtain ⟨failure, place⟩ := stop
      simp [during, eq_comm]

/-! ### One iteration -/

/-- The iterate after its system was assembled. -/
def Iterate.with (g : Iterate α) (system : System α) : Iterate α :=
  { g with
    system := some system
    firstSize := some (g.firstSize.getD (Vec.norm system.residual))
    count := g.count + 1 }

theorem examine_eq_ok {g h : Iterate α} {system : System α} {accepted : Bool} :
    examine s p g = .ok (h, system, accepted) ↔
      p.assemble g.x (p.rate g.x) = .ok system ∧ Scalar.isFinite (Vec.maxNorm system.residual) = true ∧
        h = g.with system ∧
        accepted = accepts s (g.firstSize.getD (Vec.norm system.residual)) g system.residual := by
  unfold examine
  rw [Outcome.bind_eq_ok]
  constructor
  · rintro ⟨found, assembled, rest⟩
    rw [during_eq_ok] at assembled
    cases finite : Scalar.isFinite (Vec.maxNorm found.residual) with
    | false =>
        simp only [finite, Bool.not_false, ↓reduceIte] at rest
        cases rest
    | true =>
        simp only [finite, Bool.not_true, Bool.false_eq_true, ↓reduceIte] at rest
        cases rest
        exact ⟨assembled, finite, rfl, rfl⟩
  · rintro ⟨assembled, finite, rfl, rfl⟩
    refine ⟨system, during_eq_ok.mpr assembled, ?_⟩
    simp only [finite, Bool.not_true, Bool.false_eq_true, ↓reduceIte]
    rfl

theorem examine_eq_error {g : Iterate α} {stop : Stop} (failed : examine s p g = .error stop) :
    p.assemble g.x (p.rate g.x) = .error stop.failure ∨
      ∃ system, p.assemble g.x (p.rate g.x) = .ok system ∧
        Scalar.isFinite (Vec.maxNorm system.residual) = false ∧
        stop.failure = .newton (.nonFinite (g.count + 1)) (g.count + 1) := by
  unfold examine at failed
  rcases Outcome.bind_eq_error.mp failed with refused | ⟨system, assembled, rest⟩
  · exact Or.inl (during_eq_error.mp refused).1
  · refine Or.inr ⟨system, during_eq_ok.mp assembled, ?_⟩
    cases finite : Scalar.isFinite (Vec.maxNorm system.residual) with
    | true =>
        simp only [finite, Bool.not_true, Bool.false_eq_true, ↓reduceIte] at rest
        cases rest
    | false =>
        simp only [finite, Bool.not_false, ↓reduceIte] at rest
        cases rest
        exact ⟨rfl, rfl⟩

/-- The iterate that some solves led to. -/
structure Reached (p : Equations α) (x : Vec α) (solves : List (Solve α)) (g : Iterate α) : Prop where
  path : Path p x solves g.x
  increment : g.increment = solves.getLast?.map (·.increment)
  firstSize : g.firstSize = solves.head?.map fun v => Vec.norm v.system.residual
  system : g.system = solves.getLast?.map (·.system)
  count : g.count = solves.length

theorem reached_start : Reached p x [] (Iterate.start x) := ⟨rfl, rfl, rfl, rfl, rfl⟩

variable {g h : Iterate α} {system : System α}

theorem Reached.step (reached : Reached p x solves g)
    (assembled : p.assemble g.x (p.rate g.x) = .ok system)
    (finite : Scalar.isFinite (Vec.maxNorm system.residual) = true) {dx : Vec α}
    (solved : p.solve system.tangent (Vec.neg system.residual) = .ok dx) :
    Reached p x (solves ++ [⟨g.x, system, dx⟩])
      { g.with system with x := Vec.add g.x dx, increment := some dx } where
  path := reached.path.concat rfl ⟨assembled, finite, solved⟩
  increment := by simp
  firstSize := by cases solves <;> simp [Iterate.with, reached.firstSize]
  system := by simp [Iterate.with]
  count := by simp [Iterate.with, reached.count]

/-! ### All iterations -/

theorem iterate_of_accepted (n : Nat) (examined : examine s p g = .ok (h, system, true)) :
    iterate s p (n + 1) g = .ok (h, true) := by
  rw [iterate, examined]
  rfl

/-- A state whose residual is small is the solution. -/
theorem solve_of_smallResidual (t : α) (iterations : 0 < s.maxIterations) (assembled : p.assemble x (p.rate x) = .ok system)
    (finite : Scalar.isFinite (Vec.maxNorm system.residual) = true) (small : smallResidual s system.residual = true) :
    solve s p t x = .ok ⟨x, p.rate x, some system, 1, true⟩ := by
  have accepted : accepts s (Vec.norm system.residual) (.start x) system.residual = true := by
    rw [accepts, small, Bool.true_or, Bool.true_or]
  have examined : examine s p (.start x) = .ok ((Iterate.start x).with system, system, true) :=
    examine_eq_ok.mpr ⟨assembled, finite, rfl, accepted.symm⟩
  obtain ⟨n, count⟩ := Nat.exists_eq_succ_of_ne_zero (show s.maxIterations.toNat ≠ 0 by omega)
  rw [solve, count, iterate_of_accepted n examined]
  rfl

theorem iterate_of_rejected (n : Nat) (examined : examine s p g = .ok (h, system, false)) {dx : Vec α}
    (solved : p.solve system.tangent (Vec.neg system.residual) = .ok dx) :
    iterate s p (n + 1) g = iterate s p n { h with x := Vec.add h.x dx, increment := some dx } := by
  rw [iterate, examined]
  change during .solving (p.solve system.tangent (Vec.neg system.residual)) >>= _ = _
  rw [during_eq_ok.mpr solved]
  rfl

/-- Newton's method ends with the iterate that its solves lead to: after all iterations, or at one that
meets a tolerance. -/
theorem iterate_eq_ok {n : Nat} {accepted : Bool} (reached : Reached p x solves g)
    (done : iterate s p n g = .ok (h, accepted)) :
    ∃ more, (accepted = false ∧ more.length = n ∧ Reached p x (solves ++ more) h) ∨
      (accepted = true ∧ more.length < n ∧ ∃ last system,
        Reached p x (solves ++ more) last ∧ examine s p last = .ok (h, system, true)) := by
  induction n generalizing g solves with
  | zero =>
      cases done
      exact ⟨[], Or.inl ⟨rfl, rfl, by rwa [List.append_nil]⟩⟩
  | succ n ih =>
      rw [iterate, Outcome.bind_eq_ok] at done
      obtain ⟨⟨next, system, good⟩, examined, rest⟩ := done
      cases good with
      | true =>
          cases rest
          exact ⟨[], Or.inr ⟨rfl, Nat.succ_pos n, g, system, by rwa [List.append_nil], examined⟩⟩
      | false =>
          obtain ⟨dx, solved, rest⟩ := Outcome.bind_eq_ok.mp rest
          obtain ⟨assembled, finite, rfl, -⟩ := examine_eq_ok.mp examined
          have further := reached.step assembled finite (during_eq_ok.mp solved)
          obtain ⟨more, found⟩ := ih further rest
          refine ⟨⟨g.x, system, dx⟩ :: more, ?_⟩
          rw [List.append_assoc, List.singleton_append] at found
          rw [List.length_cons, Nat.add_right_cancel_iff, Nat.add_lt_add_iff_right]
          exact found

/-- What keeps Newton's method from going on at the iterate `y` after some solves. -/
inductive Cause (s : Settings α) (p : Equations α) (t : α) (solves : List (Solve α)) (y : Vec α) :
    Failure → Prop where
  | assembler {f : Failure} (refused : p.assemble y (p.rate y) = .error f) : Cause s p t solves y f
  | nonFinite {system : System α} (assembled : p.assemble y (p.rate y) = .ok system)
      (infinite : Scalar.isFinite (Vec.maxNorm system.residual) = false) :
      Cause s p t solves y (.newton (.nonFinite (solves.length + 1)) (solves.length + 1))
  | linear {system : System α} {f : Failure} (assembled : p.assemble y (p.rate y) = .ok system)
      (finite : Scalar.isFinite (Vec.maxNorm system.residual) = true)
      (unsolved : p.solve system.tangent (Vec.neg system.residual) = .error f) : Cause s p t solves y f
  | limit {last : Option Float} (used : solves.length = s.maxIterations.toNat)
      (strict : s.acceptUnconverged = false) :
      Cause s p t solves y (.newton (.limit s.maxIterations last (Scalar.toFloat t)) solves.length)

theorem iterate_eq_error {n : Nat} {stop : Stop} (t : α) (reached : Reached p x solves g)
    (failed : iterate s p n g = .error stop) :
    ∃ more y, Path p x (solves ++ more) y ∧ Cause s p t (solves ++ more) y stop.failure := by
  induction n generalizing g solves with
  | zero => cases failed
  | succ n ih =>
      rw [iterate, Outcome.bind_eq_error] at failed
      rcases failed with refused | ⟨⟨next, system, good⟩, examined, rest⟩
      · refine ⟨[], g.x, ?_⟩
        rw [List.append_nil]
        refine ⟨reached.path, ?_⟩
        rcases examine_eq_error refused with assembly | ⟨system, assembled, infinite, same⟩
        · exact .assembler assembly
        · rw [same, reached.count]
          exact .nonFinite assembled infinite
      · obtain ⟨assembled, finite, rfl, -⟩ := examine_eq_ok.mp examined
        cases good with
        | true => cases rest
        | false =>
            rcases Outcome.bind_eq_error.mp rest with unsolved | ⟨dx, solved, later⟩
            · refine ⟨[], g.x, ?_⟩
              rw [List.append_nil]
              exact ⟨reached.path, .linear assembled finite (during_eq_error.mp unsolved).1⟩
            · obtain ⟨more, y, path, cause⟩ := ih (reached.step assembled finite (during_eq_ok.mp solved)) later
              rw [List.append_assoc] at path cause
              exact ⟨_, y, path, cause⟩

/-! ### The result -/

/-- One of the three tolerances is met by the system after some solves that led to `y`. -/
def Tolerated (s : Settings α) (solves : List (Solve α)) (y : Vec α) (system : System α) : Prop :=
  let first := (solves.head?.map (·.system)).getD system
  smallResidual s system.residual = true ∨
    reducedResidual s (Vec.norm first.residual) system.residual = true ∨
      smallIncrement s y (solves.getLast?.map (·.increment)) = true

theorem accepts_eq_true (reached : Reached p x solves g) :
    accepts s (g.firstSize.getD (Vec.norm system.residual)) g system.residual = true ↔
      Tolerated s solves g.x system := by
  have first : g.firstSize.getD (Vec.norm system.residual) =
      Vec.norm ((solves.head?.map (·.system)).getD system).residual := by
    rw [reached.firstSize]
    cases solves <;> rfl
  rw [accepts, Bool.or_eq_true, Bool.or_eq_true, or_assoc, first, reached.increment]
  exact Iff.rfl

/-- The result is the system at the last iterate, and it meets a tolerance. -/
structure Result.Converged (s : Settings α) (p : Equations α) (solves : List (Solve α)) (r : Result α) : Prop where
  converged : r.converged = true
  within : solves.length < s.maxIterations.toNat
  iterations : r.iterations = solves.length + 1
  system : ∃ system, r.system = some system ∧ p.assemble r.x (p.rate r.x) = .ok system ∧
    Scalar.isFinite (Vec.maxNorm system.residual) = true ∧ Tolerated s solves r.x system

/-- All iterations were used up, and the result is taken all the same. -/
structure Result.Unconverged (s : Settings α) (solves : List (Solve α)) (r : Result α) : Prop where
  unconverged : r.converged = false
  allowed : s.acceptUnconverged = true
  used : solves.length = s.maxIterations.toNat
  iterations : r.iterations = solves.length
  system : r.system = solves.getLast?.map (·.system)

theorem solve_eq_ok {t : α} {r : Result α} (done : solve s p t x = .ok r) :
    ∃ solves, Path p x solves r.x ∧ r.rate = p.rate r.x ∧ (r.Converged s p solves ∨ r.Unconverged s solves) := by
  rw [solve, Outcome.bind_eq_ok] at done
  obtain ⟨⟨g, accepted⟩, iterated, rest⟩ := done
  obtain ⟨solves, ⟨rfl, used, reached⟩ | ⟨rfl, within, last, system, reached, examined⟩⟩ :=
    iterate_eq_ok reached_start iterated
  · cases allowed : s.acceptUnconverged with
    | false =>
        simp only [allowed, Bool.or_self, Bool.false_eq_true, ↓reduceIte] at rest
        cases rest
    | true =>
        simp only [allowed, Bool.or_true, ↓reduceIte] at rest
        cases rest
        exact ⟨solves, reached.path, rfl, Or.inr ⟨rfl, allowed, used, reached.count, reached.system⟩⟩
  · simp only [Bool.true_or, ↓reduceIte] at rest
    cases rest
    obtain ⟨assembled, finite, rfl, good⟩ := examine_eq_ok.mp examined
    refine ⟨solves, reached.path, rfl, Or.inl ⟨rfl, within, ?_, system, rfl, assembled, finite, ?_⟩⟩
    · exact congrArg (· + 1) reached.count
    · exact (accepts_eq_true reached).mp good.symm

theorem solve_eq_error {t : α} {stop : Stop} (failed : solve s p t x = .error stop) :
    ∃ solves y, Path p x solves y ∧ Cause s p t solves y stop.failure := by
  rw [solve, Outcome.bind_eq_error] at failed
  rcases failed with stopped | ⟨⟨g, accepted⟩, iterated, rest⟩
  · exact iterate_eq_error t reached_start stopped
  · obtain ⟨solves, ⟨rfl, used, reached⟩ | ⟨rfl, -⟩⟩ := iterate_eq_ok reached_start iterated
    · refine ⟨solves, g.x, reached.path, ?_⟩
      cases allowed : s.acceptUnconverged with
      | true =>
          simp only [allowed, Bool.or_true, ↓reduceIte] at rest
          cases rest
      | false =>
          simp only [allowed, Bool.or_self, Bool.false_eq_true, ↓reduceIte] at rest
          cases rest
          rw [reached.count]
          exact .limit used allowed
    · cases rest

end Galerkin.Newton

/-! ### Steps -/

namespace Galerkin

namespace Problem

variable {α : Type}

theorem lookup_setTime (p : Problem α) (t : α) : (p.setTime t).parameters.lookup timeName = some t := by
  rw [setTime, List.lookup_cons, beq_self_eq_true]

/-- Setting the time keeps all other parameters. -/
theorem lookup_setTime_of_ne (p : Problem α) (t : α) {name : String} (other : name ≠ timeName) :
    (p.setTime t).parameters.lookup name = p.parameters.lookup name := by
  rw [setTime, List.lookup_cons, beq_false_of_ne other]
  induction p.parameters with
  | nil => rfl
  | cons head tail ih =>
      obtain ⟨key, value⟩ := head
      by_cases same : key = timeName
      · subst same
        rw [List.filter_cons_of_neg (by simp), List.lookup_cons, beq_false_of_ne other]
        exact ih
      · rw [List.filter_cons_of_pos (by simpa using same), List.lookup_cons, List.lookup_cons]
        cases name == key
        · exact ih
        · rfl

end Problem

/-- The assembler reads nothing of a problem but parameters, prescribed values and the numbering. -/
def Machinery.ReadsInputs {α : Type} (tools : Machinery α) : Prop :=
  ∀ p q : Problem α, p.parameters = q.parameters → p.points.prescribed = q.points.prescribed →
    p.dofs = q.dofs → tools.assemble p = tools.assemble q

namespace TimeStepping

open Linear

variable {α : Type} [Scalar α] {tools : Machinery α} {newton : Newton.Settings α} {scheme : TimeScheme α}
  {dt : StepSize α} {m m' : March α}

/-! ### How a step ends -/

/-- A step that is done took what Newton's method found for the equations of the step. -/
theorem advance_eq_ok {report : StepReport α} :
    advance tools newton scheme dt m = (.ok report, m') ↔
      ∃ weight r system, ¬dt.value ≤ 0 ∧ scheme.weight dt.value = .ok weight ∧
        let t := m.problem.unknowns.t + dt.value
        let p := (m.commence t).problem
        Newton.solve newton (equations tools scheme dt.value weight p) t p.unknowns.x = .ok r ∧
          r.system = some system ∧
          report = ⟨m.step + 1, t, dt.value, r.iterations, Vec.maxNorm system.residual, r.converged⟩ ∧
          m' = ((m.commence t).reach r).conclude system t dt.value report := by
  constructor
  · intro done
    unfold advance at done
    split at done
    · cases done
    · next positive =>
      simp only at done
      split at done
      · cases done
      · next weight weighed =>
        split at done
        · next r solved =>
          unfold commit at done
          cases last : r.system with
          | none =>
              simp only [last] at done
              cases done
          | some system =>
              simp only [last] at done
              obtain ⟨same, rfl⟩ := Prod.mk.inj done
              cases same
              exact ⟨weight, r, system, positive, weighed, solved, last, rfl, rfl⟩
        · split at done <;> cases done
  · rintro ⟨weight, r, system, positive, weighed, solved, last, rfl, rfl⟩
    unfold advance
    rw [if_neg positive]
    simp only [weighed, solved, commit, last]
    rfl

theorem weight_eq_error {s : TimeScheme α} {size : α} {f : Failure} (failed : s.weight size = .error f) :
    f.recoverable = false := by
  unfold TimeScheme.weight at failed
  split at failed
  · cases failed
  · split at failed
    · cases failed
      rfl
    · cases failed

/-- A step that fails recoverably gives up what Newton's method failed at. -/
theorem advance_eq_error {f : Failure} (recoverable : f.recoverable = true) :
    advance tools newton scheme dt m = (.error f, m') ↔
      ∃ weight phase, ¬dt.value ≤ 0 ∧ scheme.weight dt.value = .ok weight ∧
        let t := m.problem.unknowns.t + dt.value
        let p := (m.commence t).problem
        Newton.solve newton (equations tools scheme dt.value weight p) t p.unknowns.x = .error ⟨f, phase⟩ ∧
          m' = (m.commence t).giveUp m.problem.unknowns.t := by
  constructor
  · intro failed
    unfold advance at failed
    split at failed
    · cases failed
      cases recoverable
    · next positive =>
      simp only at failed
      split at failed
      · next refused =>
        obtain ⟨same, rfl⟩ := Prod.mk.inj failed
        cases same
        rw [weight_eq_error refused] at recoverable
        cases recoverable
      · next weight weighed =>
        split at failed
        · unfold commit at failed
          split at failed
          · cases failed
            cases recoverable
          · cases failed
        · next stop stopped =>
          split at failed
          · obtain ⟨same, rfl⟩ := Prod.mk.inj failed
            cases same
            exact ⟨weight, stop.phase, positive, weighed, stopped, rfl⟩
          · next refused =>
            obtain ⟨same, rfl⟩ := Prod.mk.inj failed
            cases same
            exact absurd recoverable refused
  · rintro ⟨weight, phase, positive, weighed, stopped, rfl⟩
    unfold advance
    rw [if_neg positive]
    simp only [weighed, stopped, recoverable]
    rfl

/-! ### Failed steps -/

/-- Everything is as it was, but for the phase and for what is remembered of the start of a step. -/
structure RolledBack (m m' : March α) : Prop where
  x : m'.problem.unknowns.x = m.problem.unknowns.x
  rate : m'.problem.unknowns.rate = m.problem.unknowns.rate
  t : m'.problem.unknowns.t = m.problem.unknowns.t
  dt : m'.problem.unknowns.dt = m.problem.unknowns.dt
  residual : m'.problem.unknowns.residual = m.problem.unknowns.residual
  tangent : m'.problem.unknowns.tangent = m.problem.unknowns.tangent
  points : m'.problem.points = m.problem.points
  dofs : m'.problem.dofs = m.problem.dofs
  step : m'.step = m.step
  history : m'.history = m.history
  time : m'.problem.parameters.lookup Problem.timeName = some m'.problem.unknowns.t
  parameters : ∀ name, name ≠ Problem.timeName →
    m'.problem.parameters.lookup name = m.problem.parameters.lookup name
  phase : m'.phase = .diverged

omit [Scalar α] in
theorem rolledBack_giveUp (m : March α) (t : α) :
    RolledBack m ((m.commence t).giveUp m.problem.unknowns.t) where
  x := rfl
  rate := rfl
  t := rfl
  dt := rfl
  residual := rfl
  tangent := rfl
  points := rfl
  dofs := rfl
  step := rfl
  history := rfl
  time := Problem.lookup_setTime _ _
  parameters := fun _ other =>
    (Problem.lookup_setTime_of_ne _ _ other).trans (Problem.lookup_setTime_of_ne _ _ other)
  phase := rfl

/-- A step that fails recoverably leaves no trace, wherever Newton's method failed: in the assembler or at
a system that is not finite, in the linear solver, or at the end of its iterations. -/
theorem advance_rolledBack {f : Failure} (failed : advance tools newton scheme dt m = (.error f, m'))
    (recoverable : f.recoverable = true) :
    RolledBack m m' ∧ ∃ weight solves y,
      let t := m.problem.unknowns.t + dt.value
      let p := (m.commence t).problem
      let equations := equations tools scheme dt.value weight p
      scheme.weight dt.value = .ok weight ∧ Newton.Path equations p.unknowns.x solves y ∧
        Newton.Cause newton equations t solves y f := by
  obtain ⟨weight, phase, -, weighed, stopped, rfl⟩ := (advance_eq_error recoverable).mp failed
  obtain ⟨solves, y, path, cause⟩ := Newton.solve_eq_error stopped
  exact ⟨rolledBack_giveUp m _, weight, solves, y, weighed, path, cause⟩

/-- One unknown at the start of a march. -/
noncomputable def single : March ℝ :=
  .start
    { parameters := [(Problem.timeName, 0)]
      points := ⟨1, ⟨1, [⟨"u", 0, false⟩]⟩, ⟨1, []⟩, #[[0]], #[[0]], #[[0]], #[[]], #[true]⟩
      dofs := .ofOccupied 1 [true]
      unknowns := ⟨[0], [0], [0], [0], [0], none, 1, 0⟩ }

/-- A residual of one everywhere, with a tangent that no solver can invert. -/
def singular : Machinery ℝ :=
  ⟨fun _ _ _ _ => .ok ⟨[1], ⟨1, #[[(0, 0)]]⟩⟩, fun _ _ => .error .linearSolver⟩

/-- No residual is small enough unless it vanishes. -/
def strict : Newton.Settings ℝ := ⟨0, 0, 0, 20, false⟩

theorem maxNorm_singleton (a : ℝ) : Vec.maxNorm [a] = |a| := by
  have modulus : Arithmetic.abs a = |a| := by
    by_cases negative : a < 0
    · exact (if_pos negative).trans (abs_of_neg negative).symm
    · exact (if_neg negative).trans (abs_of_nonneg (not_lt.mp negative)).symm
  rw [Vec.maxNorm, Arithmetic.largest, List.foldl_cons, List.foldl_nil, modulus]
  by_cases positive : 0 < |a|
  · exact if_pos positive
  · rw [Arithmetic.max, if_neg positive, if_pos (not_lt.mp positive)]
    exact (abs_nonneg a).antisymm (not_lt.mp positive)

theorem norm_singleton (a : ℝ) : Vec.norm [a] = |a| := by
  rw [Vec.norm, Arithmetic.dot, total_eq_sum]
  change Real.sqrt _ = |a|
  rw [List.zipWith_cons_cons, List.zipWith_nil_left, List.sum_singleton, ← sq]
  exact Real.sqrt_sq_eq_abs a

theorem not_accepts {a : ℝ} (nonzero : a ≠ 0) (x : Vec ℝ) :
    Newton.accepts strict (Vec.norm [a]) (.start x) [a] = false := by
  have positive : 0 < |a| := abs_pos.mpr nonzero
  have large : Newton.smallResidual strict [a] = false := by
    refine decide_eq_false ?_
    rw [maxNorm_singleton]
    exact not_le_of_gt positive
  have unreduced : Newton.reducedResidual strict (Vec.norm [a]) [a] = false := by
    rw [Newton.reducedResidual, Bool.and_eq_false_iff]
    refine Or.inr (decide_eq_false ?_)
    rw [norm_singleton]
    exact not_le_of_gt (lt_of_eq_of_lt (zero_mul |a|) positive)
  rw [Newton.accepts, large, unreduced]
  rfl

theorem advance_singular_rolledBack :
    ∃ m', advance singular strict .static ⟨1, .int 1⟩ single = (.error .linearSolver, m') ∧
      RolledBack single m' := by
  have failed : advance singular strict .static ⟨1, .int 1⟩ single =
      (.error .linearSolver, (single.commence (0 + 1)).giveUp 0) := by
    refine (advance_eq_error rfl).mpr ⟨0, .solving, not_le_of_gt one_pos, rfl, ?_, rfl⟩
    have iterations : strict.maxIterations.toNat = 19 + 1 := rfl
    rw [Newton.solve, iterations, Newton.iterate,
      Newton.examine_eq_ok.mpr ⟨rfl, rfl, rfl, (not_accepts one_ne_zero _).symm⟩]
    rfl
  exact ⟨_, failed, (advance_rolledBack failed rfl).1⟩

/-! ### Finished steps -/

/-- What Newton's method achieved in a finished step from `m`. -/
inductive Achieved (tools : Machinery α) (newton : Newton.Settings α) (m m' : March α) (weight : α)
    (solves : List (Newton.Solve α)) (report : StepReport α) : Prop where
  /-- The stored system is that of the stored state, and it meets a tolerance. -/
  | converged {system : System α} (flag : report.converged = true)
      (residual : m'.problem.unknowns.residual = system.residual)
      (tangent : m'.problem.unknowns.tangent = some system.tangent)
      (norm : report.residualNorm = Vec.maxNorm system.residual)
      (iterations : report.iterations = solves.length + 1)
      (tolerated : Newton.Tolerated newton solves m'.problem.unknowns.x system)
      (assembled : tools.assemble (m.commence m'.problem.unknowns.t).problem m'.problem.unknowns.x
        m'.problem.unknowns.rate weight = .ok system)
      (stored : tools.ReadsInputs → tools.assemble m'.problem m'.problem.unknowns.x
        m'.problem.unknowns.rate weight = .ok system)
  /-- All iterations were used up, which was allowed. -/
  | unconverged (flag : report.converged = false) (allowed : newton.acceptUnconverged = true)
      (used : solves.length = newton.maxIterations.toNat) (iterations : report.iterations = solves.length)

/-- A finished step from `m`: the state that was found, its rate and its time belong together and are stored. -/
structure Committed (tools : Machinery α) (newton : Newton.Settings α) (scheme : TimeScheme α) (dt : α)
    (m : March α) (report : StepReport α) (m' : March α) : Prop where
  rate : m'.problem.unknowns.rate =
    scheme.rate m'.problem.unknowns.x m.problem.unknowns.x m.problem.unknowns.rate dt
  t : m'.problem.unknowns.t = m.problem.unknowns.t + dt
  time : m'.problem.parameters.lookup Problem.timeName = some m'.problem.unknowns.t
  parameters : ∀ name, name ≠ Problem.timeName →
    m'.problem.parameters.lookup name = m.problem.parameters.lookup name
  values : m.problem.dofs.Holds m.problem.points.values m'.problem.points.values m'.problem.unknowns.x
  rates : m.problem.dofs.Holds m.problem.points.rates m'.problem.points.rates m'.problem.unknowns.rate
  points : { m'.problem.points with values := m.problem.points.values, rates := m.problem.points.rates } =
    m.problem.points
  dofs : m'.problem.dofs = m.problem.dofs
  history : m'.history = m.history ++ [report]
  step : m'.step = m.step + 1
  phase : m'.phase = .idle
  found : ∃ weight solves, scheme.weight dt = .ok weight ∧
    Newton.Path (equations tools scheme dt weight (m.commence m'.problem.unknowns.t).problem)
      m.problem.unknowns.x solves m'.problem.unknowns.x ∧
    Achieved tools newton m m' weight solves report

theorem committed_of_advance {report : StepReport α}
    (done : advance tools newton scheme dt m = (.ok report, m')) :
    Committed tools newton scheme dt.value m report m' := by
  obtain ⟨weight, r, system, -, weighed, solved, last, rfl, rfl⟩ := advance_eq_ok.mp done
  obtain ⟨solves, path, rate, outcome⟩ := Newton.solve_eq_ok solved
  refine
    { rate := rate
      t := rfl
      time := Problem.lookup_setTime _ _
      parameters := fun _ other => Problem.lookup_setTime_of_ne _ _ other
      values := DofMap.scatter_holds _ _ _
      rates := DofMap.scatter_holds _ _ _
      points := rfl
      dofs := rfl
      history := rfl
      step := rfl
      phase := rfl
      found := ⟨weight, solves, weighed, path, ?_⟩ }
  rcases outcome with good | poor
  · obtain ⟨found, same, assembled, -, tolerated⟩ := good.system
    obtain rfl : system = found := Option.some.inj (last.symm.trans same)
    rw [← rate] at assembled
    refine .converged good.converged rfl rfl rfl good.iterations tolerated assembled fun inputs => ?_
    refine Eq.trans (congrFun (congrFun (congrFun (inputs _ _ ?_ ?_ ?_) _) _) _) assembled <;> rfl
  · exact .unconverged poor.unconverged poor.allowed poor.used poor.iterations

end TimeStepping

end Galerkin
