import Mathlib
import Galerkin.Proofs.ConsistentTangent
import Galerkin.Proofs.Domain.Independence
import Galerkin.Proofs.TimeStepping.Step

/-!
Steps of affine problems. When the residual is an affine function of the unknowns and their rates, the first increment of
Newton's method leads to the only root, and the second system says so.
-/

namespace Galerkin

open Linear

namespace Linear.Vec

variable {n : Nat}

theorem neg_ofFn (x : Fin n → ℝ) : neg (List.ofFn x) = List.ofFn (-x) := List.map_ofFn

theorem add_ofFn (x y : Fin n → ℝ) : add (List.ofFn x) (List.ofFn y) = List.ofFn (x + y) :=
  List.ext_getElem (by simp [add]) fun i _ _ => by simp [add]

theorem ofFn_zero : List.ofFn (0 : Fin n → ℝ) = zeros n := List.ofFn_const n 0

theorem maxNorm_zeros (n : Nat) : maxNorm (zeros n : Vec ℝ) = 0 := by
  induction n with
  | zero => rfl
  | succ n ih =>
      have first : Arithmetic.max 0 (Arithmetic.abs 0) = (0 : ℝ) := by
        simp [Arithmetic.max, Arithmetic.abs]
      rw [maxNorm, Arithmetic.largest] at ih ⊢
      rw [zeros, List.replicate_succ, List.foldl_cons, first]
      exact ih

end Linear.Vec

namespace Newton

variable {s : Settings ℝ} {p : Equations ℝ} {n : Nat}

/-- Does a solver return the solution of every system whose matrix is not singular? -/
def SolvesExactly (n : Nat) (solve : SparseMatrix ℝ → Vec ℝ → Except Failure (Vec ℝ)) : Prop :=
  ∀ K : SparseMatrix ℝ, Function.Injective (K.linear n) → ∀ b : Fin n → ℝ,
    ∃ y, solve K (List.ofFn b) = .ok (List.ofFn y) ∧ K.linear n y = b

/-- Solves with the inverse of the matrix. -/
noncomputable def inverted (n : Nat) (K : SparseMatrix ℝ) (b : Vec ℝ) : Except Failure (Vec ℝ) :=
  .ok (List.ofFn ((Matrix.of fun i j : Fin n => K.get i j)⁻¹.mulVec fun i => b.getD i 0))

theorem solvesExactly_inverted (n : Nat) : SolvesExactly n (inverted n) := by
  intro K injective b
  have entries : (fun i : Fin n => (List.ofFn b).getD i 0) = b := by
    funext i
    simp
  have unit : IsUnit (Matrix.of fun i j : Fin n => K.get i j) := Matrix.mulVec_injective_iff_isUnit.mp injective
  refine ⟨_, rfl, ?_⟩
  rw [entries, SparseMatrix.linear, LinearMap.coe_toContinuousLinearMap', Matrix.toLin'_apply, Matrix.mulVec_mulVec,
    Matrix.mul_nonsing_inv _ ((Matrix.isUnit_iff_isUnit_det _).mp unit), Matrix.one_mulVec]

theorem accepts_zeros (tolerance : 0 ≤ s.tolerance) (firstSize : ℝ) (g : Iterate ℝ) :
    accepts s firstSize g (Vec.zeros n) = true := by
  have small : smallResidual s (Vec.zeros n) = true := by
    rw [smallResidual, Vec.maxNorm_zeros]
    exact decide_eq_true tolerance
  rw [accepts, small, Bool.true_or, Bool.true_or]

/-- What Newton's method finds for a residual `L x + c`: it stops where it starts, or after one solve at the root. -/
theorem solve_affine (tolerance : 0 ≤ s.tolerance) (iterations : 2 ≤ s.maxIterations) (t : ℝ)
    {L : (Fin n → ℝ) →L[ℝ] (Fin n → ℝ)} {c x₀ : Fin n → ℝ}
    (affine : ∀ x, ∃ sys, p.assemble (List.ofFn x) (p.rate (List.ofFn x)) = .ok sys ∧ sys.residual = List.ofFn (L x + c))
    (tangent : ∀ sys, p.assemble (List.ofFn x₀) (p.rate (List.ofFn x₀)) = .ok sys → sys.tangent.linear n = L)
    (nonsingular : Function.Injective L) (exact : SolvesExactly n p.solve) :
    ∃ solves r sys x, solve s p t (List.ofFn x₀) = .ok r ∧ r.converged = true ∧ r.iterations = solves.length + 1 ∧
      solves.length ≤ 1 ∧ Path p (List.ofFn x₀) solves r.x ∧ r.x = List.ofFn x ∧ r.system = some sys ∧
      (solves ≠ [] → sys.residual = Vec.zeros n ∧ L x + c = 0) := by
  obtain ⟨sys, assembled, residual⟩ := affine x₀
  obtain ⟨k, count⟩ : ∃ k, s.maxIterations.toNat = k + 2 := ⟨s.maxIterations.toNat - 2, by omega⟩
  have first : examine s p (.start (List.ofFn x₀)) = .ok ((Iterate.start (List.ofFn x₀)).with sys, sys,
      accepts s (Vec.norm sys.residual) (.start (List.ofFn x₀)) sys.residual) :=
    examine_eq_ok.mpr ⟨assembled, rfl, rfl, rfl⟩
  cases accepted : accepts s (Vec.norm sys.residual) (.start (List.ofFn x₀)) sys.residual with
  | true =>
      rw [accepted] at first
      refine ⟨[], ⟨List.ofFn x₀, p.rate (List.ofFn x₀), some sys, 1, true⟩, sys, x₀, ?_, rfl, rfl, Nat.zero_le _, rfl, rfl, rfl,
        fun made => absurd rfl made⟩
      rw [solve, count, iterate_of_accepted _ first]
      rfl
  | false =>
      rw [accepted] at first
      have matrix := tangent sys assembled
      obtain ⟨dx, solved, increment⟩ := exact sys.tangent (matrix ▸ nonsingular) (-(L x₀ + c))
      rw [matrix] at increment
      have root : L (x₀ + dx) + c = 0 := by
        rw [map_add, increment]
        abel
      rw [← Vec.neg_ofFn, ← residual] at solved
      obtain ⟨next, assembled', residual'⟩ := affine (x₀ + dx)
      rw [root, Vec.ofFn_zero] at residual'
      rw [← Vec.add_ofFn] at assembled'
      have second : examine s p { (Iterate.start (List.ofFn x₀)).with sys with
          x := Vec.add (List.ofFn x₀) (List.ofFn dx), increment := some (List.ofFn dx) } = .ok (_, next, true) :=
        examine_eq_ok.mpr ⟨assembled', rfl, rfl, by rw [residual', accepts_zeros tolerance]⟩
      refine ⟨[⟨List.ofFn x₀, sys, List.ofFn dx⟩], ⟨_, p.rate (Vec.add (List.ofFn x₀) (List.ofFn dx)), some next, 2, true⟩,
        next, x₀ + dx, ?_, rfl, rfl, le_rfl, ⟨rfl, ⟨assembled, rfl, solved⟩, rfl⟩, Vec.add_ofFn _ _, rfl,
        fun _ => ⟨residual', root⟩⟩
      rw [solve, count, iterate_of_rejected _ first solved]
      change iterate s p (k + 1) { (Iterate.start (List.ofFn x₀)).with sys with
        x := Vec.add (List.ofFn x₀) (List.ofFn dx), increment := some (List.ofFn dx) } >>= _ = _
      rw [iterate_of_accepted _ second]
      rfl

end Newton

namespace TimeScheme

theorem rateAt_affine {s : TimeScheme ℝ} {dt w : ℝ} (weighs : s.weight dt = .ok w) (x xPrev ratePrev : ℝ) :
    s.rateAt dt x xPrev ratePrev = w * x + s.rateAt dt 0 xPrev ratePrev := by
  unfold weight at weighs
  unfold rateAt
  cases present : s.share? with
  | none =>
      rw [present] at weighs
      cases weighs
      simp
  | some share =>
      simp only [present] at weighs
      split at weighs
      · cases weighs
      · cases weighs
        ring

/-- The rate of a scheme is affine in the new state, with the scheme's weight as its slope. -/
theorem rate_affine {n : Nat} {s : TimeScheme ℝ} {dt w : ℝ} (weighs : s.weight dt = .ok w) (x xPrev ratePrev : Fin n → ℝ) :
    s.rate (List.ofFn x) (List.ofFn xPrev) (List.ofFn ratePrev) dt =
      List.ofFn (w • x + fun i => s.rateAt dt 0 (xPrev i) (ratePrev i)) := by
  rw [rate_ofFn]
  exact congrArg List.ofFn (funext fun i => rateAt_affine weighs _ _ _)

end TimeScheme

namespace Simulation

/-- Is the residual of a problem `A x + B r + c` at every state `x` and rate `r`? -/
def Affine (blocks : List (Block ℝ)) (p : Problem ℝ) (weight : ℝ)
    (A B : (Fin p.dofs.count → ℝ) →ₗ[ℝ] Fin p.dofs.count → ℝ) (c : Fin p.dofs.count → ℝ) : Prop :=
  ∀ x r, ∃ sys, systemOf blocks p (List.ofFn x) (List.ofFn r) weight = .ok sys ∧ sys.residual = List.ofFn (A x + B r + c)

section Steps

variable {p : Problem ℝ} {scheme : TimeScheme ℝ} {dt weight : ℝ} {A B : (Fin p.dofs.count → ℝ) →ₗ[ℝ] Fin p.dofs.count → ℝ}
  {c xPrev ratePrev : Fin p.dofs.count → ℝ}

/-- With the rates of a scheme, the residual is affine in the new state alone. -/
theorem Affine.along {blocks : List (Block ℝ)} (affine : Affine blocks p weight A B c) (weighs : scheme.weight dt = .ok weight)
    (x : Fin p.dofs.count → ℝ) : ∃ sys, systemOf blocks p (List.ofFn x)
      (scheme.rate (List.ofFn x) (List.ofFn xPrev) (List.ofFn ratePrev) dt) weight = .ok sys ∧
      sys.residual = List.ofFn ((A + weight • B) x + (B (fun i => scheme.rateAt dt 0 (xPrev i) (ratePrev i)) + c)) := by
  obtain ⟨sys, assembled, residual⟩ := affine x (weight • x + fun i => scheme.rateAt dt 0 (xPrev i) (ratePrev i))
  refine ⟨sys, ?_, residual.trans (congrArg List.ofFn ?_)⟩
  · rw [TimeScheme.rate_affine weighs]
    exact assembled
  · rw [map_add, map_smul, LinearMap.add_apply, LinearMap.smul_apply]
    abel

variable {rules : Calculus Quantity} {lines : LineRules ℝ} {d₀ d₁ d : Domain ℝ} {family : String} {order : Number}
  {quadratureOrder : Option Int} {backend : String} {start : Problem ℝ} {blocks : List (Block ℝ)} (lawful : rules.Lawful)
  (discretized : (Domain.discretize family order quadratureOrder).run.run d₀ = (.ok (), d₁))
  (compiled : (Domain.compile rules backend).run.run d₁ = (.ok (), d)) (numbered : d.problem = .ok start)
  (built : Block.allOf lines d = .ok blocks)

include lawful discretized compiled numbered built

/-- The tangent is the derivative of the residual, and an affine function has one derivative only. -/
theorem tangent_of_affine (same : p.dofs = start.dofs) (weighs : scheme.weight dt = .ok weight) (affine : Affine blocks p weight A B c)
    {x : Fin p.dofs.count → ℝ} (smooth : d.SmoothAt rules blocks ⟨p.parameters, p.points.prescribed, List.ofFn x,
      scheme.rate (List.ofFn x) (List.ofFn xPrev) (List.ofFn ratePrev) dt, weight⟩) {sys : System ℝ}
    (assembled : systemOf blocks p (List.ofFn x)
      (scheme.rate (List.ofFn x) (List.ofFn xPrev) (List.ofFn ratePrev) dt) weight = .ok sys) :
    sys.tangent.linear p.dofs.count = (A + weight • B).toContinuousLinearMap := by
  let t : StepSetting p.dofs.count := ⟨p.parameters, p.points.prescribed, scheme, dt, xPrev, ratePrev⟩
  let L := (A + weight • B).toContinuousLinearMap
  have sound := blocks_sound lawful discretized compiled numbered built smooth
  rw [← same] at sound
  obtain ⟨R, systems, slope⟩ := Block.hasFDerivAt_assemble (t := t) lawful weighs assembled sound
  have equal : R = fun y => L y + (B (fun i => scheme.rateAt dt 0 (xPrev i) (ratePrev i)) + c) := by
    funext y
    obtain ⟨sys, done, found⟩ := affine.along weighs y
    obtain ⟨other, again, own⟩ := systems y
    cases done.symm.trans again
    exact List.ofFn_injective (own.symm.trans found)
  rw [equal] at slope
  exact slope.unique (L.hasFDerivAt.add_const _)

/-- A step of an affine problem is done after one linear solve at most. If there was one, the residual vanishes at the
state that was found, and nowhere else. -/
theorem advance_affine {m : March ℝ} (same : m.problem.dofs = start.dofs)
    {scheme : TimeScheme ℝ} (proper : scheme.Proper) {dt : StepSize ℝ} (positive : 0 < dt.value)
    {newton : Newton.Settings ℝ} (tolerance : 0 ≤ newton.tolerance) (iterations : 2 ≤ newton.maxIterations)
    {solve : SparseMatrix ℝ → Vec ℝ → Except Failure (Vec ℝ)}
    (exact : Newton.SolvesExactly m.problem.dofs.count solve) {x₀ rate₀ : Fin m.problem.dofs.count → ℝ}
    (values : m.problem.unknowns.x = List.ofFn x₀) (rates : m.problem.unknowns.rate = List.ofFn rate₀)
    (A B : (Fin m.problem.dofs.count → ℝ) →ₗ[ℝ] Fin m.problem.dofs.count → ℝ) (c : Fin m.problem.dofs.count → ℝ) :
    let p := (m.commence (m.problem.unknowns.t + dt.value)).problem
    let rate := fun y : Fin m.problem.dofs.count → ℝ => scheme.rate (List.ofFn y) (List.ofFn x₀) (List.ofFn rate₀) dt.value
    ∃ weight, scheme.weight dt.value = .ok weight ∧
      (Affine blocks p weight A B c →
        d.SmoothAt rules blocks ⟨p.parameters, p.points.prescribed, List.ofFn x₀, rate x₀, weight⟩ →
        (∀ sys, systemOf blocks p (List.ofFn x₀) (rate x₀) weight = .ok sys →
          Function.Injective (sys.tangent.linear m.problem.dofs.count)) →
        ∃ report m' solves x, TimeStepping.advance ⟨systemOf blocks, solve⟩ newton scheme dt m = (.ok report, m') ∧
          report.converged = true ∧ report.iterations = solves.length + 1 ∧ solves.length ≤ 1 ∧
          Newton.Path (TimeStepping.equations ⟨systemOf blocks, solve⟩ scheme dt.value weight p) m.problem.unknowns.x solves
            m'.problem.unknowns.x ∧
          m'.problem.unknowns.x = List.ofFn x ∧
          (solves ≠ [] → m'.problem.unknowns.residual = Vec.zeros m.problem.dofs.count ∧
            ∀ y, (∃ sys, systemOf blocks p (List.ofFn y) (rate y) weight = .ok sys ∧
              sys.residual = Vec.zeros m.problem.dofs.count) ↔ y = x)) := by
  intro p rate
  obtain ⟨weight, weighs⟩ := TimeScheme.weight_isOk proper positive
  refine ⟨weight, weighs, fun affine smooth regular => ?_⟩
  let n := m.problem.dofs.count
  let rest : Fin n → ℝ := fun i => scheme.rateAt dt.value 0 (x₀ i) (rate₀ i)
  let L : (Fin n → ℝ) →L[ℝ] (Fin n → ℝ) := (A + weight • B).toContinuousLinearMap
  have residual (y : Fin n → ℝ) : ∃ sys, systemOf blocks p (List.ofFn y) (rate y) weight = .ok sys ∧
      sys.residual = List.ofFn (L y + (B rest + c)) := affine.along weighs y
  have tangent : ∀ sys, systemOf blocks p (List.ofFn x₀) (rate x₀) weight = .ok sys → sys.tangent.linear n = L :=
    fun sys => tangent_of_affine lawful discretized compiled numbered built (p := p) same weighs affine smooth
  have nonsingular : Function.Injective L := by
    obtain ⟨sys, assembled, -⟩ := residual x₀
    exact tangent sys assembled ▸ regular sys assembled
  have equations : TimeStepping.equations ⟨systemOf blocks, solve⟩ scheme dt.value weight p =
      ⟨fun y => scheme.rate y (List.ofFn x₀) (List.ofFn rate₀) dt.value, fun y r => systemOf blocks p y r weight, solve⟩ := by
    rw [← values, ← rates]
    rfl
  obtain ⟨solves, r, sys, x, solved, converged, count, few, path, found, system, root⟩ :=
    Newton.solve_affine (p := ⟨fun y => scheme.rate y (List.ofFn x₀) (List.ofFn rate₀) dt.value,
      fun y r => systemOf blocks p y r weight, solve⟩) tolerance iterations (m.problem.unknowns.t + dt.value)
      residual tangent nonsingular exact
  rw [← equations, ← values] at solved path
  refine ⟨_, _, solves, x, TimeStepping.advance_eq_ok.mpr ⟨weight, r, sys, not_le.mpr positive, weighs, solved, system, rfl,
    rfl⟩, converged, count, few, path, found, fun made => ?_⟩
  obtain ⟨zero, vanishes⟩ := root made
  refine ⟨zero, fun y => ⟨?_, ?_⟩⟩
  · rintro ⟨other, assembled, none⟩
    obtain ⟨sys', again, own⟩ := residual y
    cases assembled.symm.trans again
    rw [none, ← Vec.ofFn_zero] at own
    have other : L y + (B rest + c) = 0 := (List.ofFn_injective own).symm
    exact nonsingular (add_right_cancel (other.trans vanishes.symm))
  · rintro rfl
    obtain ⟨sys', again, own⟩ := residual y
    exact ⟨sys', again, by rw [own, vanishes, Vec.ofFn_zero]⟩

end Steps

section Rod

open Domain (unitPoint mapped_line)

/-- The rule with a point at each end. -/
noncomputable def endRules : LineRules ℝ := fun _ => [(-1, 1), (1, 1)]

noncomputable def leftEnd : PointData ℝ := unitPoint (-1) (1 / 2 : ℚ) 0 1 []

noncomputable def rightEnd : PointData ℝ := unitPoint 1 (1 / 2 : ℚ) 0 1 []

/-- The rod whose storage is lumped at its ends. -/
noncomputable def lumpedBlock : Block ℝ :=
  ⟨"storage", none, storageKernel, [0], [[0, 1]], [[0, 1]], ⟨1, 2, 2, false, [[leftEnd, rightEnd]]⟩⟩

theorem allOf_lumped : Block.allOf endRules compiledRod = .ok [lumpedBlock] := by
  let c : Block.Context ℝ := ⟨segmentSpace, ⟨1, #[some 0, some 1], 2⟩, endRules⟩
  let w : WorkPiece := ⟨"storage", [0], some storage, some ⟨storageKernel, .sequential⟩, []⟩
  have unit : (1 : ℝ) - 0 = 1 := sub_zero 1
  have half : (1 : ℝ) / 2 = (1 / 2 : ℚ) := by norm_num
  have ends (t : ℝ) : Tabulation.mapped 1 1 [[0], [1]] (Tabulation.referencePoint lineElement [t] 1) =
      .ok ([[1 / 2]], 1 / 2, unitPoint t (1 / 2 : ℚ) 0 1 []) := by
    rw [mapped_line unit, one_mul, half]
  have entity : Tabulation.mapEntity 1 1 (some [0]) 0 [[0], [1]]
      [Tabulation.referencePoint lineElement [-1] 1, Tabulation.referencePoint lineElement [1] 1] =
        .ok [([[1 / 2]], leftEnd), ([[1 / 2]], rightEnd)] := by
    refine Outcome.bind_eq_ok.mpr ⟨_, Outcome.mapM_eq_ok.mpr (.cons (ends _) (.cons (ends _) .nil)), ?_⟩
    rw [if_neg (by simp)]
    rfl
  have tabulated : Tabulation.onVolumes lineElement ⟨2, 1, [[[0], [1]]]⟩ [⟨[-1], 1⟩, ⟨[1], 1⟩] (some [0]) =
      .ok ⟨1, 2, 2, false, [[leftEnd, rightEnd]]⟩ :=
    Outcome.bind_eq_ok.mpr ⟨_, Outcome.mapM_eq_ok.mpr (.cons (Outcome.bind_eq_ok.mpr ⟨_, entity, rfl⟩) .nil), rfl⟩
  have inside : Block.ofPiece c w = .ok lumpedBlock := by
    refine Outcome.bind_eq_ok.mpr ⟨[[0, 1]], rfl, Outcome.bind_eq_ok.mpr ⟨[[0, 1]], rfl, ?_⟩⟩
    exact Outcome.bind_eq_ok.mpr ⟨_, tabulated, rfl⟩
  have all : Block.allOfPiece c w = .ok [lumpedBlock] := Outcome.bind_eq_ok.mpr ⟨lumpedBlock, inside, rfl⟩
  exact Outcome.bind_eq_ok.mpr ⟨[[lumpedBlock]], Outcome.mapM_eq_ok.mpr (.cons all .nil), rfl⟩

theorem numbered_lumped : lumpedBlock.Numbered 2 where
  length := List.forall_mem_singleton.mpr rfl
  below := List.forall_mem_singleton.mpr (by decide)

theorem keyed_storage : Kernel.Keyed storageKernel := by
  obtain ⟨_, _, -, spec, built⟩ := Kernel.ofForm_eq_ok Calculus.textbook_lawful ofForm_storage
  exact Kernel.keyed spec built

/-- What a point of the rod adds is its rate, spread over both ends. -/
theorem pointResidual_storage (inputs : Kernel.Inputs ℝ) (φ : Nat → ℝ) (p : PointData ℝ) :
    storageKernel.pointResidual inputs 2 0 φ p =
      p.weight * inputs.rate.interpolate 2 0 0 p none * (p.basisAt none 0 * φ 0 + p.basisAt none 1 * φ 1) := by
  simp [Kernel.pointResidual, storageKernel, Finset.sum_range_succ, Kernel.densityOf, sumAt, Kernel.pointValues,
    Kernel.withTemporaries, Kernel.reading, Formula.eval, Kernel.tested, Kernel.axisOf, Kernel.column]

theorem basis_ends : leftEnd.basisAt none 0 = 1 ∧ leftEnd.basisAt none 1 = 0 ∧ rightEnd.basisAt none 0 = 0 ∧
    rightEnd.basisAt none 1 = 1 := by
  refine ⟨?_, ?_, ?_, ?_⟩ <;> norm_num [PointData.basisAt, leftEnd, rightEnd, unitPoint]

theorem systemOf_lumped (x r : Fin 2 → ℝ) (weight : ℝ) : ∃ sys,
    systemOf [lumpedBlock] rodProblem (List.ofFn x) (List.ofFn r) weight = .ok sys ∧
      sys.residual = List.ofFn ((1 / 2 : ℝ) • r) := by
  let state : AssemblyState ℝ := ⟨[], #[[], []], List.ofFn x, List.ofFn r, weight⟩
  have contributes : ∃ cs, lumpedBlock.contributions state = .ok cs := by
    refine Block.contributions_of_readable rfl rfl (by decide) (List.forall_mem_nil _) fun e points here p present s slot => ?_
    cases e with
    | succ e => cases here
    | zero =>
        cases here
        rcases List.mem_pair.mp present with rfl | rfl <;> rcases List.mem_pair.mp slot with rfl | rfl <;>
          exact ⟨_, _, rfl, rfl⟩
  obtain ⟨sys, assembled⟩ := Block.assemble_of_contributions (n := 2) (List.forall_mem_singleton.mpr contributes)
  refine ⟨sys, assembled, ?_⟩
  obtain ⟨length, sums, -⟩ := Block.assemble_eq_ok (List.forall_mem_singleton.mpr ⟨numbered_lumped, keyed_storage⟩) assembled
  refine List.ext_getElem (by simp [length]) fun i inside _ => ?_
  have small : i < 2 := length ▸ inside
  have points : weighted (fun n => if n = i then 1 else 0) sys.residual.toArray =
      (([leftEnd, rightEnd].map (storageKernel.pointResidual ((lumpedBlock.dataAt state).inputs []) 2 0
        fun a => if [0, 1].getD a 0 = i then 1 else 0)).sum + 0) + 0 := sums fun n => if n = i then 1 else 0
  have first : (lumpedBlock.gather state.rate).entry 0 0 0 = r 0 := by
    simp [NodalValues.entry, Block.gather, lumpedBlock, storageKernel, state, Array.getD]
  have second : (lumpedBlock.gather state.rate).entry 0 1 0 = r 1 := by
    simp [NodalValues.entry, Block.gather, lumpedBlock, storageKernel, state, Array.getD]
  rw [weighted_single (by simpa [length] using small)] at points
  simp only [List.map_cons, List.map_nil, List.sum_cons, List.sum_nil, pointResidual_storage, NodalValues.interpolate,
    Finset.sum_range_succ, Finset.sum_range_zero, basis_ends, Block.dataAt, FieldData.inputs, first, second] at points
  rw [List.getElem_ofFn, ← List.getD_eq_getElem _ 0 inside]
  interval_cases i
  · simpa [leftEnd, unitPoint] using points
  · simpa [rightEnd, unitPoint] using points

theorem injective_lumped {weight : ℝ} (positive : 0 < weight) :
    Function.Injective (weight • ((1 / 2 : ℝ) • (LinearMap.id : (Fin 2 → ℝ) →ₗ[ℝ] Fin 2 → ℝ))) := by
  intro x y same
  funext i
  have entry := congrFun same i
  simpa [positive.ne'] using entry

noncomputable def startValues : Fin 2 → ℝ := ![1, (2 : ℚ)]

noncomputable def startRates : Fin 2 → ℝ := ![0, (4 : ℚ)]

/-- The start of a step at values one and two, with rates zero and four. -/
noncomputable def movingRod : March ℝ :=
  .start { rodProblem with unknowns :=
    { Unknowns.zeros 2 with x := List.ofFn startValues, rate := List.ofFn startRates } }

/-- A step of the middle rule ends where the lumped storage has the opposite rate. -/
theorem advance_affine_lumped :
    let scheme : TimeScheme ℝ := .theta (1 / 2)
    let newton : Newton.Settings ℝ := ⟨0, 0, 0, 2, false⟩
    let dt : StepSize ℝ := ⟨1, .int 1⟩
    ∃ report m', ∃ solves : List (Newton.Solve ℝ),
      TimeStepping.advance ⟨systemOf [lumpedBlock], Newton.inverted 2⟩ newton scheme dt movingRod = (.ok report, m') ∧
      report.converged = true ∧ report.iterations = solves.length + 1 ∧ solves.length ≤ 1 ∧
      (solves ≠ [] → m'.problem.unknowns.x = List.ofFn ![1, 4] ∧ m'.problem.unknowns.residual = Vec.zeros 2) := by
  intro scheme newton dt
  let p := (movingRod.commence (movingRod.problem.unknowns.t + dt.value)).problem
  let B : (Fin 2 → ℝ) →ₗ[ℝ] Fin 2 → ℝ := (1 / 2 : ℝ) • LinearMap.id
  have affine (weight : ℝ) : Affine [lumpedBlock] p weight 0 B 0 := by
    intro x r
    obtain ⟨sys, assembled, residual⟩ := systemOf_lumped x r weight
    refine ⟨sys, assembled, residual.trans (congrArg List.ofFn ?_)⟩
    rw [LinearMap.zero_apply, zero_add, add_zero]
    rfl
  have proper : scheme.Proper := ⟨by norm_num, by norm_num⟩
  obtain ⟨weight, weighs, steps⟩ := advance_affine Calculus.textbook_lawful discretize_rod compile_rod rfl allOf_lumped
    (show movingRod.problem.dofs = rodProblem.dofs from rfl) proper (show 0 < dt.value from one_pos)
    (show 0 ≤ newton.tolerance from le_rfl) (show 2 ≤ newton.maxIterations from le_rfl) (Newton.solvesExactly_inverted 2)
    (show movingRod.problem.unknowns.x = List.ofFn startValues from rfl)
    (show movingRod.problem.unknowns.rate = List.ofFn startRates from rfl) 0 B 0
  have positive : 0 < weight := by
    simp only [TimeScheme.weight, scheme, TimeScheme.share?] at weighs
    split at weighs
    · cases weighs
    · cases weighs
      norm_num [dt]
  have regular : ∀ sys, systemOf [lumpedBlock] p (List.ofFn startValues)
      (scheme.rate (List.ofFn startValues) (List.ofFn startValues) (List.ofFn startRates) dt.value) weight = .ok sys →
        Function.Injective (sys.tangent.linear 2) := by
    intro sys assembled
    have tangent : sys.tangent.linear 2 = (0 + weight • B).toContinuousLinearMap :=
      tangent_of_affine Calculus.textbook_lawful discretize_rod compile_rod rfl allOf_lumped (p := p) rfl weighs
        (affine weight) (smoothAt_rod _ _) assembled
    rw [tangent, zero_add]
    exact injective_lumped positive
  obtain ⟨report, m', solves, x, done, converged, count, few, -, found, root⟩ :=
    steps (affine weight) (smoothAt_rod _ _) regular
  refine ⟨report, m', solves, done, converged, count, few, fun made => ?_⟩
  obtain ⟨zero, unique⟩ := root made
  refine ⟨found.trans (congrArg List.ofFn ((unique _).mp ?_).symm), zero⟩
  have rest : scheme.rate (List.ofFn ![1, 4]) (List.ofFn startValues) (List.ofFn startRates) dt.value =
      List.ofFn (0 : Fin 2 → ℝ) := by
    rw [TimeScheme.rate_ofFn]
    refine congrArg List.ofFn (funext fun i => ?_)
    fin_cases i <;> norm_num [TimeScheme.rateAt, TimeScheme.share?, scheme, dt, startValues, startRates]
  obtain ⟨sys, assembled, residual⟩ := systemOf_lumped ![1, 4] 0 weight
  rw [smul_zero, Vec.ofFn_zero] at residual
  rw [← rest] at assembled
  exact ⟨sys, assembled, residual⟩

end Rod

end Simulation

end Galerkin
