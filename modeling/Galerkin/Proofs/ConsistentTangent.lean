import Mathlib
import Galerkin.Proofs.Assembly.Tangent
import Galerkin.Proofs.Domain
import Galerkin.Proofs.Kernel.Residual

/-!
The tangent of a compiled domain is the derivative of its residual, with the rates of a time scheme.
-/

namespace Galerkin

open Linear

namespace Domain

/-- At a state, no form of the domain has a point that it is not differentiable at, in any block made for it. -/
def SmoothAt (rules : Calculus Quantity) (d : Domain ℝ) (blocks : List (Block ℝ)) (state : AssemblyState ℝ) : Prop :=
  ∀ x, d.discretization = some x → ∀ b ∈ blocks, ∀ form ∈ d.forms, ∀ name boundary pairs,
    Kernel.ofForm rules (setting x) name boundary form = .ok b.kernel →
    WeakForm.expand (setting x) name form = .ok pairs → b.SmoothAt (setting x) pairs state

end Domain

namespace Kernel

theorem width_ofForm {rules : Calculus Quantity} (lawful : rules.Lawful) {s : Setting} {name : String}
    {boundary : Bool} {form : Expr} {k : Kernel} (made : ofForm rules s name boundary form = .ok k) :
    k.width = s.internal.width := by
  obtain ⟨_, l, _, spec, built⟩ := ofForm_eq_ok lawful made
  exact built.width.trans (congrArg Layout.width spec.internal)

end Kernel

namespace Simulation

variable {rules : Calculus Quantity} {lines : LineRules ℝ} {d₀ d₁ d : Domain ℝ} {family : String} {order : Number}
  {quadratureOrder : Option Int} {backend : String} {start : Problem ℝ} {blocks : List (Block ℝ)}

/-- The blocks of a compiled domain are numbered, and differentiable where its forms are. -/
theorem blocks_sound (lawful : rules.Lawful)
    (discretized : (Domain.discretize family order quadratureOrder).run.run d₀ = (.ok (), d₁))
    (compiled : (Domain.compile rules backend).run.run d₁ = (.ok (), d)) (numbered : d.problem = .ok start)
    (built : Block.allOf lines d = .ok blocks) {state : AssemblyState ℝ} (smooth : d.SmoothAt rules blocks state) :
    ∀ b ∈ blocks, b.Numbered start.dofs.count ∧ b.Regular rules state := by
  obtain ⟨x, present, even, occupied, unknowns, numbering⟩ := Domain.discretize_eq_ok discretized
  obtain ⟨kept, y, same, kernels⟩ := Domain.compile_eq_ok compiled
  cases present.symm.trans same
  have here : d.discretization = some x := kept.trans present
  have dofs : start.dofs = .ofOccupied x.points.internal.width occupied := by
    rw [Domain.problem, Domain.discretized, here] at numbered
    obtain ⟨y, found, numbered⟩ := Outcome.bind_eq_ok.mp numbered
    cases found
    rw [numbering] at numbered
    cases numbered
    rfl
  have sound : Block.Context.Sound ⟨x.space, start.dofs, lines⟩ :=
    ⟨even, fun point i => dofs ▸ DofMap.lt_count_ofOccupied⟩
  intro b member
  obtain ⟨w, among, k, used, kernel, number⟩ :=
    Block.mem_allOf here (numbering.trans (by rw [← dofs])) sound built member
  obtain ⟨form, own, name, boundary, made⟩ := kernels w among k used
  rw [← kernel] at made
  refine ⟨number ?_, ?_⟩
  · rw [Kernel.width_ofForm lawful made, dofs]
    rfl
  · obtain ⟨pairs, l, expanded, -, -⟩ := Kernel.ofForm_eq_ok lawful made
    exact ⟨_, name, boundary, form, pairs, made, expanded,
      smooth x here b member form own name boundary pairs made expanded⟩

/-- The assembled tangent is the derivative of the residual by the unknowns, with the rates that a time scheme
gives to them. -/
theorem systemOf_hasFDerivAt (lawful : rules.Lawful)
    (discretized : (Domain.discretize family order quadratureOrder).run.run d₀ = (.ok (), d₁))
    (compiled : (Domain.compile rules backend).run.run d₁ = (.ok (), d)) (numbered : d.problem = .ok start)
    (built : Block.allOf lines d = .ok blocks) {p : Problem ℝ} (same : p.dofs = start.dofs)
    {scheme : TimeScheme ℝ} (proper : scheme.Proper) {dt : ℝ} (positive : 0 < dt)
    (xPrev ratePrev x : Fin p.dofs.count → ℝ) :
    let rate := fun y : Fin p.dofs.count → ℝ => scheme.rate (List.ofFn y) (List.ofFn xPrev) (List.ofFn ratePrev) dt
    ∃ weight, scheme.weight dt = .ok weight ∧
      ∀ sys, systemOf blocks p (List.ofFn x) (rate x) weight = .ok sys →
        d.SmoothAt rules blocks ⟨p.parameters, p.points.prescribed, List.ofFn x, rate x, weight⟩ →
        ∃ R : (Fin p.dofs.count → ℝ) → Fin p.dofs.count → ℝ,
          (∀ y, ∃ other, systemOf blocks p (List.ofFn y) (rate y) weight = .ok other ∧
            other.residual = List.ofFn (R y)) ∧
          HasFDerivAt R (sys.tangent.linear p.dofs.count) x := by
  intro rate
  obtain ⟨weight, weighs⟩ := TimeScheme.weight_isOk proper positive
  refine ⟨weight, weighs, fun sys assembled smooth => ?_⟩
  let t : StepSetting p.dofs.count := ⟨p.parameters, p.points.prescribed, scheme, dt, xPrev, ratePrev⟩
  have sound := blocks_sound lawful discretized compiled numbered built smooth
  rw [← same] at sound
  exact Block.hasFDerivAt_assemble (t := t) lawful weighs assembled sound

section Rod

open Kernel (line)

/-- A scalar paired with its rate. -/
def storage : Expr := .pairing (.bare ⟨"u", 0, false⟩) (.field ⟨"u", 0, false⟩ [] [] 1)

def storageKernel : Kernel where
  name := "storage"
  dim := 1
  width := 1
  externalWidth := 0
  slots := [⟨"u", .value, 0, none⟩, ⟨"u_t", .rate, 0, none⟩]
  unknownCount := 2
  temporaries := []
  residual := [(0, .var 1)]
  tangent := [((0, 1), Formula.one)]
  paramNames := []
  usesNormal := false
  boundary := false

theorem ofForm_storage : Kernel.ofForm .textbook line "storage" false storage = .ok storageKernel := by cbv

def lineElement : Element :=
  ⟨.line, .lagrange, 1, [[-1], [1]], [[0], [1]],
    [[⟨1 / 2, [0]⟩, ⟨-1 / 2, [1]⟩], [⟨1 / 2, [0]⟩, ⟨1 / 2, [1]⟩]]⟩

theorem ofCell_line : Element.ofCell .line "lagrange" 1 = .ok lineElement := by cbv

theorem lagrange_line : Element.lagrange .line 1 = .ok lineElement := by cbv

/-- A single element from zero to one. -/
noncomputable def segment : Mesh ℝ := ⟨.line, #[[0], [1]], #[[0, 1]], #[]⟩

noncomputable def segmentSpace : ElementSpace ℝ :=
  ⟨segment, .lagrange, 1, lineElement, 2, #[[0, 1]], #[[0], [1]]⟩

theorem make_segment : ElementSpace.make segment "lagrange" 1 none = .ok segmentSpace := by
  rw [ElementSpace.make, show segment.cell = .line from rfl, ofCell_line, lagrange_line]
  rfl

/-- A work piece that covers the segment, as far as it is discretized and compiled. -/
noncomputable def rod (x : Option (Discretization ℝ)) (k : Option CompiledKernel) : Domain ℝ :=
  ⟨segment, [⟨"storage", [0], some storage, k, []⟩], [], x⟩

noncomputable def rodPoints (occupied : Array Bool) : ControlPoints ℝ :=
  ⟨1, line.internal, line.external, #[[0], [1]], #[[0], [0]], #[[0], [0]], #[[], []], occupied⟩

noncomputable def rodDiscretization : Discretization ℝ :=
  ⟨segmentSpace, rodPoints #[true, true], some ⟨⟨1, #[some 0, some 1], 2⟩, .zeros 2⟩⟩

noncomputable def compiledRod : Domain ℝ := rod (some rodDiscretization) (some ⟨storageKernel, .sequential⟩)

theorem discretize_rod :
    (Domain.discretize "lagrange" (.int 1) none).run.run (rod none none) =
      (.ok (), rod (some rodDiscretization) none) := by
  have layouts : (rod none none).layouts = .ok (line.internal, line.external) := by cbv
  have points : ControlPoints.make (rod none none).mesh.dim segmentSpace.positions line.internal line.external =
      rodPoints #[false, false] := by
    simp [ControlPoints.make, segmentSpace, rodPoints]
    exact ⟨rfl, rfl, rfl⟩
  refine Outcome.run_bind_eq_ok.mpr ⟨_, _, rfl, ?_⟩
  refine Outcome.run_bind_eq_ok.mpr ⟨_, _, Outcome.run_lift_eq_ok.mpr ⟨layouts, rfl⟩, ?_⟩
  refine Outcome.run_bind_eq_ok.mpr ⟨_, _, Outcome.run_lift_eq_ok.mpr ⟨rfl, rfl⟩, ?_⟩
  refine Outcome.run_bind_eq_ok.mpr ⟨_, _, Outcome.run_lift_eq_ok.mpr ⟨make_segment, rfl⟩, ?_⟩
  rw [points]
  rfl

theorem compile_rod :
    (Domain.compile .textbook "sequential").run.run (rod (some rodDiscretization) none) = (.ok (), compiledRod) := by
  refine Outcome.run_bind_eq_ok.mpr ⟨_, _, rfl, ?_⟩
  refine Outcome.run_bind_eq_ok.mpr ⟨(), compiledRod, ?_, rfl⟩
  refine Outcome.run_bind_eq_ok.mpr ⟨⟨storageKernel, .sequential⟩, _, Outcome.run_lift_eq_ok.mpr ⟨?_, rfl⟩, rfl⟩
  exact Outcome.bind_eq_ok.mpr ⟨_, ofForm_storage, rfl⟩

noncomputable def midpoint : PointData ℝ := ⟨[(1 / 2 : ℚ), (1 / 2 : ℚ)], [[-1], [1]], 1, [(1 / 2 : ℚ)], []⟩

theorem referencePoint_line :
    Tabulation.referencePoint lineElement [(0 : ℝ)] 2 = ⟨[1 / 2, 1 / 2], [[-1 / 2], [1 / 2]], 2⟩ := by
  have values : lineElement.values [(0 : ℝ)] = [1 / 2, 1 / 2] := by
    simp [Element.values, lineElement, Polynomial.eval, Monomial.eval, Monomial.powers, Arithmetic.total,
      Arithmetic.sumOf, Arithmetic.ofRat, natPow_eq_pow]
  have slopes : lineElement.basis.map (Polynomial.derivative 0) = [[⟨-1 / 2, [0]⟩], [⟨1 / 2, [0]⟩]] := by cbv
  have gradients : lineElement.gradients [(0 : ℝ)] = [[-1 / 2], [1 / 2]] := by
    change (lineElement.basis.map (Polynomial.derivative 0)).map (fun p => [p.eval [(0 : ℝ)]]) = _
    rw [slopes]
    simp [Polynomial.eval, Monomial.eval, Monomial.powers, Arithmetic.total, Arithmetic.sumOf, Arithmetic.ofRat,
      natPow_eq_pow]
  rw [Tabulation.referencePoint, gradients, values]

theorem onVolumes_segment :
    Tabulation.onVolumes lineElement ⟨2, 1, [[[0], [1]]]⟩ [⟨[0], ((2 : ℚ) : ℝ)⟩] (some [0]) =
      .ok ⟨1, 1, 2, false, [[midpoint]]⟩ := by
  rw [Rat.cast_ofNat]
  have mapped : Tabulation.mapped 1 1 [[0], [1]] (Tabulation.referencePoint lineElement [(0 : ℝ)] 2) =
      .ok ([[1 / 2]], 1 / 2, midpoint) := by
    rw [referencePoint_line]
    simp [Tabulation.mapped, Tabulation.jacobian, Arithmetic.total, Tabulation.determinant?, Tabulation.inverse,
      Tabulation.physical, Tabulation.interpolate, midpoint]
  have entity : Tabulation.mapEntity 1 1 (some [0]) 0 [[0], [1]]
      [Tabulation.referencePoint lineElement [(0 : ℝ)] 2] = .ok [([[1 / 2]], midpoint)] := by
    refine Outcome.bind_eq_ok.mpr ⟨[([[1 / 2]], 1 / 2, midpoint)], Outcome.mapM_eq_ok.mpr (.cons mapped .nil), ?_⟩
    rw [if_neg (by simp)]
    rfl
  have all : (List.zipIdx [[[(0 : ℝ)], [1]]]).mapM (fun t => do
      pure ((← Tabulation.mapEntity 1 1 (some [0]) t.2 t.1
        [Tabulation.referencePoint lineElement [0] 2]).map (·.2))) = Except.ok [[midpoint]] :=
    Outcome.mapM_eq_ok.mpr (.cons (Outcome.bind_eq_ok.mpr ⟨_, entity, rfl⟩) .nil)
  exact Outcome.bind_eq_ok.mpr ⟨_, all, rfl⟩

noncomputable def rodBlock : Block ℝ :=
  ⟨"storage", none, storageKernel, [0], [[0, 1]], [[0, 1]], ⟨1, 1, 2, false, [[midpoint]]⟩⟩

/-- The rule with one point in the middle. -/
noncomputable def midpointRules : LineRules ℝ := fun _ => [(0, (2 : ℚ))]

theorem allOf_rod : Block.allOf midpointRules compiledRod = .ok [rodBlock] := by
  let c : Block.Context ℝ := ⟨segmentSpace, ⟨1, #[some 0, some 1], 2⟩, midpointRules⟩
  let w : WorkPiece := ⟨"storage", [0], some storage, some ⟨storageKernel, .sequential⟩, []⟩
  have inside : Block.ofPiece c w = .ok rodBlock := by
    refine Outcome.bind_eq_ok.mpr ⟨[[0, 1]], rfl, Outcome.bind_eq_ok.mpr ⟨[[0, 1]], rfl, ?_⟩⟩
    exact Outcome.bind_eq_ok.mpr ⟨_, onVolumes_segment, rfl⟩
  have all : Block.allOfPiece c w = .ok [rodBlock] := Outcome.bind_eq_ok.mpr ⟨rodBlock, inside, rfl⟩
  exact Outcome.bind_eq_ok.mpr ⟨[[rodBlock]], Outcome.mapM_eq_ok.mpr (.cons all .nil), rfl⟩

noncomputable def rodProblem : Problem ℝ :=
  ⟨[], rodPoints #[true, true], ⟨1, #[some 0, some 1], 2⟩, .zeros 2⟩

theorem systemOf_rod (x rate : Vec ℝ) (weight : ℝ) :
    ∃ sys, systemOf [rodBlock] rodProblem x rate weight = .ok sys := by
  refine Block.assemble_of_contributions (List.forall_mem_singleton.mpr ?_)
  refine Block.contributions_of_readable rfl rfl (by decide) (List.forall_mem_nil _) fun e points here p present s slot => ?_
  cases e with
  | succ e => cases here
  | zero =>
      cases here
      cases List.mem_singleton.mp present
      rcases List.mem_pair.mp slot with rfl | rfl <;> exact ⟨_, _, rfl, rfl⟩

theorem smoothAt_rod (blocks : List (Block ℝ)) (state : AssemblyState ℝ) : compiledRod.SmoothAt .textbook blocks state := by
  intro x present b _ form own name boundary pairs _ expanded
  cases present
  cases List.mem_singleton.mp (own : form ∈ [storage])
  have same : pairs = [(.var (.unknown "u" [] 0 none), .var (.unknown "u" [] 1 none))] :=
    (Except.ok.inj expanded).symm
  intro e points _ p _ pair member
  cases List.mem_singleton.mp (same ▸ member)
  exact ⟨.var _, .var _⟩

/-- A step of the middle rule from a state with a rate. -/
theorem hasFDerivAt_rod :
    let scheme : TimeScheme ℝ := .theta (1 / 2)
    let rate := fun y : Fin 2 → ℝ => scheme.rate (List.ofFn y) (List.ofFn ![1, 2]) (List.ofFn ![0, 4]) 1
    ∃ weight sys, scheme.weight 1 = .ok weight ∧
      systemOf [rodBlock] rodProblem (List.ofFn ![3, 6]) (rate ![3, 6]) weight = .ok sys ∧
      ∃ R : (Fin 2 → ℝ) → Fin 2 → ℝ,
        (∀ y, ∃ other, systemOf [rodBlock] rodProblem (List.ofFn y) (rate y) weight = .ok other ∧
          other.residual = List.ofFn (R y)) ∧
        HasFDerivAt R (sys.tangent.linear 2) ![3, 6] := by
  intro scheme rate
  obtain ⟨weight, weighs, slope⟩ := systemOf_hasFDerivAt (p := rodProblem) Calculus.textbook_lawful discretize_rod
    compile_rod rfl allOf_rod rfl (show scheme.Proper from ⟨by norm_num, by norm_num⟩) one_pos ![1, 2] ![0, 4] ![3, 6]
  obtain ⟨sys, assembled⟩ := systemOf_rod (List.ofFn ![3, 6]) (rate ![3, 6]) weight
  exact ⟨weight, sys, weighs, assembled, slope sys assembled (smoothAt_rod _ _)⟩

end Rod

end Simulation

end Galerkin
