import Mathlib
import Galerkin.Proofs.Domain.Entities
import Galerkin.Proofs.Domain.Regrouping

/-!
Assembly is a sum over all entities. It depends neither on the order of the elements nor on how they are divided among
work pieces, as long as facets keep their owners.
-/

namespace Galerkin

open Linear

namespace Preparation

variable {P : Preparation} {s : Domain.Stages} {x : Discretization ℝ} {dofs : DofMap} {blocks : List (Block ℝ)}

theorem Discretized.built {d : Domain ℝ} (discretized : P.Discretized d x) (formed : d.mesh.Formed) : x.space.Built := by
  obtain ⟨_, _, _, _, -, -, made, -, -⟩ := discretized.parts
  exact (ElementSpace.make_eq_ok formed.corners made).2.2.2

/-- What a block contributes is a square system for unknowns that there are. -/
theorem Yields.square (yields : P.Yields s x dofs blocks) (named : s.final.WellNamed) (formed : s.start.mesh.Formed)
    {state : AssemblyState ℝ} {css : List (List (Contribution ℝ))}
    (each : List.Forall₂ (fun b cs => b.contributions state = .ok cs) blocks css) :
    ∀ c ∈ css.flatten, c.Below dofs.count ∧ c.system.Square c.dofs.length := by
  obtain ⟨discretized, rfl, -⟩ := (yields_iff named).mp yields
  obtain ⟨jobss, does, become⟩ := yields.jobs named
  intro c member
  obtain ⟨cs, present, inside⟩ := List.mem_flatten.mp member
  obtain ⟨b, among, done⟩ := Outcome.exists_of_matched each present
  obtain ⟨jobs, listed, own⟩ := Outcome.exists_of_matched_left does among
  obtain ⟨⟨j, job, same⟩, square⟩ := own.square done c inside
  obtain ⟨t, -, becomes⟩ := Outcome.exists_of_matched become (List.mem_flatten.mpr ⟨jobs, listed, job⟩)
  have within := Domain.within_of_becomes (discretized.mesh.symm ▸ formed) (discretized.built formed) becomes
  exact ⟨fun i number => within.dofs i (same ▸ number), square⟩

end Preparation

namespace Domain

variable {P : Preparation} {s s' : Stages} {x x' : Discretization ℝ} {dofs : DofMap} {blocks : List (Block ℝ)}
  {τ : Equiv.Perm Nat}

/-- Assembly is a sum over all entities, which neither their order nor their division among pieces changes. It succeeds
when every block has contributions, and an entry is the sum of what they hold for it. Where the elements of the mesh
come in another order that keeps the first owners of facets with forms, the system is the same at the new numbers of
the unknowns. Where pieces are divided, elements and facets with their forms, it is the same. Every life cycle in which a
domain is discretized and compiled gives such stages with distinct names, by `yields_after`. -/
theorem assemble_sums (formed : s.start.mesh.Formed) (named : s.final.WellNamed) (yields : P.Yields s x dofs blocks) :
    (∀ state, ((∃ sys, Block.assemble blocks dofs.count state = .ok sys) ↔
        ∀ b ∈ blocks, ∃ cs, b.contributions state = .ok cs) ∧
      ∀ sys, Block.assemble blocks dofs.count state = .ok sys → ∃ css,
        List.Forall₂ (fun b cs => b.contributions state = .ok cs) blocks css ∧
        (∀ c ∈ css.flatten, c.Below dofs.count ∧ c.system.Square c.dofs.length) ∧
        System.Sums dofs.count css.flatten sys) ∧
    (∀ τ s', s.Permuted τ s' → s.KeepsOwners τ → ∃ x' dofs' blocks' σ ρ, P.Yields s' x' dofs' blocks' ∧
      Corresponds x x' σ ρ ∧ ∀ state state', Fits x state →
        state.Renumbered σ ρ x.space.positions.size dofs.count state' →
        Outcome.Alike (System.Renumbered ρ dofs.count) (Block.assemble blocks dofs.count state)
          (Block.assemble blocks' dofs'.count state')) ∧
    ∀ s', s.Divided s' → ∃ blocks', P.Yields s' x dofs blocks' ∧ ∀ state, Fits x state →
      Outcome.Alike (System.Renumbered id dofs.count) (Block.assemble blocks dofs.count state)
        (Block.assemble blocks' dofs.count state) := by
  obtain ⟨discretized, rfl, -⟩ := (Preparation.yields_iff named).mp yields
  have built := discretized.built formed
  have formedSpace : x.space.mesh.Formed := discretized.mesh.symm ▸ formed
  have filled := yields.filled named
  refine ⟨fun state => ⟨?_, fun sys done => ?_⟩, fun τ s' permuted keeps => ?_, fun s' divided => ?_⟩
  · simp only [Block.assemble_eq_ok_iff_contributions]
    constructor
    · rintro ⟨_, css, each, -⟩ b member
      obtain ⟨cs, -, done⟩ := Outcome.exists_of_matched_left each member
      exact ⟨cs, done⟩
    · intro all
      obtain ⟨css, each⟩ := Outcome.exists_matched all
      exact ⟨_, css, each, rfl⟩
  · obtain ⟨css, each, rfl⟩ := Block.assemble_eq_ok_iff_contributions.mp done
    have square := yields.square named formed each
    exact ⟨css, each, square, System.sums_ofContributions fun c member => (square c member).1⟩
  · have rearranged := permuted.rearranged named filled formed keeps
    obtain ⟨x', blocks', yields', points, settings, corresponds⟩ := rearranged.yields named formed yields
    refine ⟨x', _, blocks', _, _, yields', corresponds, fun state state' fits same => ?_⟩
    have unknowns := corresponds.unknowns
    rw [corresponds.count] at unknowns ⊢
    exact rearranged.assemble named formedSpace built yields yields' settings (renumbered_context points corresponds)
      unknowns.mapsTo (fun i first j second => unknowns.injOn first second) fits same
  · obtain ⟨blocks', yields'⟩ := divided.yields named formed yields
    refine ⟨blocks', yields', fun state fits => ?_⟩
    exact (divided.rearranged formed).assemble named formedSpace built yields yields' rfl (.refl _)
      (fun i inside => inside) (fun i _ j _ same => same) fits (AssemblyState.renumbered_refl _ _ state)

/-! ### Two elements in a row

At rest, storage contributes nothing, and the flux through a facet goes to the ends of the element that owns it. -/

section Chain

open Simulation

theorem values_line (t : ℝ) : lineElement.values [t] = [1 / 2 - 1 / 2 * t, 1 / 2 + 1 / 2 * t] := by
  simp [Element.values, lineElement, Polynomial.eval, Monomial.eval, Monomial.powers, Arithmetic.total,
    Arithmetic.sumOf, Arithmetic.ofRat, natPow_eq_pow]
  ring

/-- The data of a point of an element of length one. -/
noncomputable def unitPoint (t weight a b : ℝ) (normal : List ℝ) : PointData ℝ :=
  let half : ℝ := (1 / 2 : ℚ)
  ⟨[half - half * t, half + half * t], [[-1], [1]], weight, [(half - half * t) * a + (half + half * t) * b], normal⟩

variable {a b : ℝ}

theorem mapped_line (unit : b - a = 1) (t weight : ℝ) :
    Tabulation.mapped 1 1 [[a], [b]] (Tabulation.referencePoint lineElement [t] weight) =
      .ok ([[1 / 2]], 1 / 2, unitPoint t (weight * (1 / 2)) a b []) := by
  have stretch : a * (-1 / 2) + b * (1 / 2) = 1 / 2 := by linarith
  rw [Tabulation.referencePoint, values_line, gradients_line]
  simp only [Tabulation.mapped, Tabulation.jacobian, List.range_one, List.map_cons, List.map_nil, List.zipWith_cons_cons,
    List.zipWith_nil_left, List.getD_cons_zero, Arithmetic.total, List.foldl_cons, List.foldl_nil, zero_add, stretch]
  simp [Tabulation.determinant?, Tabulation.inverse, Tabulation.physical, Tabulation.interpolate, unitPoint,
    Arithmetic.total]

theorem mapEntity_line (unit : b - a = 1) (t weight : ℝ) :
    Tabulation.mapEntity 1 1 none 0 [[a], [b]] [Tabulation.referencePoint lineElement [t] weight] =
      .ok [([[1 / 2]], unitPoint t (weight * (1 / 2)) a b [])] := by
  refine Outcome.bind_eq_ok.mpr ⟨_, Outcome.mapM_eq_ok.mpr (.cons (mapped_line unit t weight) .nil), ?_⟩
  rw [if_neg (by simp)]
  rfl

theorem volumeData_line (unit : b - a = 1) : Tabulation.volumeData lineElement 1
    (Quadrature.ofCell midpointRules .line 2) [[a], [b]] = .ok [unitPoint 0 1 a b []] := by
  have rule : Quadrature.ofCell midpointRules .line 2 = [⟨[0], 2⟩] := by
    simp [Quadrature.ofCell, Quadrature.lineRule, midpointRules]
  have mapped := mapEntity_line unit 0 2
  rw [rule]
  refine Outcome.bind_eq_ok.mpr ⟨_, mapped, ?_⟩
  norm_num [pure, Except.pure]

theorem norm_unit : Tabulation.norm [(1 : ℝ)] = 1 := by
  have root : Scalar.sqrt (1 : ℝ) = 1 := Real.sqrt_one
  simp [Tabulation.norm, Arithmetic.dot, Arithmetic.total, root]

theorem outward_line (unit : b - a = 1) {t : ℝ} (side : t = 1 ∨ t = -1) :
    Tabulation.outward [1] [(1 / 2 - 1 / 2 * t) * a + (1 / 2 + 1 / 2 * t) * b] (Tabulation.centroid 1 [[a], [b]]) = [t] := by
  have centroid : Tabulation.centroid 1 [[a], [b]] = [(a + b) / 2] := by
    simp [Tabulation.centroid, Arithmetic.sumOf, Arithmetic.total, Arithmetic.ofNat, Arithmetic.ofRat]
  have away : (1 / 2 - 1 / 2 * t) * a + (1 / 2 + 1 / 2 * t) * b - (a + b) / 2 = t / 2 := by
    linear_combination t / 2 * unit
  simp only [Tabulation.outward, centroid, norm_unit, List.map_cons, List.map_nil, div_one, List.zipWith_cons_cons,
    List.zipWith_nil_left, away, Arithmetic.dot, Arithmetic.total, List.foldl_cons, List.foldl_nil, zero_add, one_mul]
  rcases side with rfl | rfl <;> norm_num

/-- The data at one end of an element of length one. -/
theorem facetData_line (unit : b - a = 1) {l : Int} {facet : List Nat} {t : ℝ} (there : entry? Cell.line.facets l = some facet)
    (place : Cell.line.facetPoint facet ([] : List ℝ) = .ok [t]) (side : t = 1 ∨ t = -1) :
    Tabulation.facetData lineElement 1 (Quadrature.ofCell midpointRules .point 2) l [[a], [b]] =
      .ok [unitPoint t 1 a b [t]] := by
  refine Tabulation.facetData_eq_ok.mpr ⟨facet, [[t]], _, there, ?_, mapEntity_line unit t 1, ?_⟩
  · exact Outcome.mapM_eq_ok.mpr (.cons place .nil)
  · have tangents : (Cell.line.facetTangents facet : List (List ℝ)) = [] := by
      simp [Cell.facetTangents, Cell.facetCell]
    have outward : Tabulation.outward [1] (unitPoint t (1 * (1 / 2)) a b []).position
        (Tabulation.centroid 1 [[a], [b]]) = [t] := by
      have position : (unitPoint t (1 * (1 / 2)) a b []).position =
          [(1 / 2 - 1 / 2 * t) * a + (1 / 2 + 1 / 2 * t) * b] := by simp [unitPoint]
      rw [position]
      exact outward_line unit side
    change _ = [Tabulation.onFacet 1 (Cell.line.facetTangents facet) _ _ _ _]
    simp only [Tabulation.onFacet, tangents, List.map_nil, Tabulation.facetNormal, List.replicate_one, outward]
    simp [unitPoint]

theorem facetPoint_line : Cell.line.facetPoint [0] ([] : List ℝ) = .ok [-1] ∧
    Cell.line.facetPoint [1] ([] : List ℝ) = .ok [1] := by
  constructor <;> simp [Cell.facetPoint, Cell.facetCell, Cell.cornerWeights, Cell.cornerSum, Cell.corners, Cell.dim,
      Arithmetic.total, Arithmetic.ofInt, Arithmetic.ofRat]

/-- The elements of the chain in the other order. -/
noncomputable def turned : Mesh ℝ :=
  ⟨.line, #[[0], [1], [(2 : ℚ)]], #[[1, 2], [0, 1]], #[⟨[1], [(0, 0), (1, 1)]⟩, ⟨[2], [(0, 1)]⟩, ⟨[0], [(1, 0)]⟩]⟩

theorem formed_turned : turned.Formed where
  corners := by decide
  vertices := by decide
  facets := by cbv

theorem permuted_chain : chain.Permuted (Equiv.swap 0 1) turned where
  cell := rfl
  vertices := rfl
  elements := fun e => by
    match e with
    | 0 => rfl
    | 1 => rfl
    | e + 2 => rw [Equiv.swap_apply_of_ne_of_ne (by omega) (by omega)]; rfl

/-- The flux through a facet. -/
def flux : Expr := .pairing (.field ⟨"u", 0, false⟩ [] [⟨"i"⟩] 0) (.normal ⟨"i"⟩)

/-- Both elements of a mesh, and the flux through a facet. -/
noncomputable def jointed (m : Mesh ℝ) (f : Int) : Domain ℝ :=
  ⟨m, [⟨"storage", [0, 1], some storage, none, [⟨"joint", [f], some flux, none⟩]⟩], [], none⟩

noncomputable def joint (m : Mesh ℝ) (f : Int) : Stages := ⟨jointed m f, jointed m f, rfl, rfl⟩

theorem wellNamed_joint (m : Mesh ℝ) (f : Int) : (joint m f).final.WellNamed where
  pieces := List.nodup_singleton _
  regions := fun w piece => by
    cases List.mem_singleton.mp piece
    exact List.nodup_singleton _

theorem filled_joint (m : Mesh ℝ) (f : Int) : Preparation.Filled (joint m f).final := by
  intro w piece
  cases List.mem_singleton.mp piece
  refine ⟨List.cons_ne_nil _ _, fun r region _ => ?_⟩
  cases List.mem_singleton.mp region
  exact List.cons_ne_nil _ _

noncomputable def prepared : Preparation := ⟨.textbook, midpointRules, "lagrange", .int 1, none, "sequential"⟩

/-- The space of linear functions on a mesh with the vertices of the chain. -/
noncomputable def linearSpace (m : Mesh ℝ) : ElementSpace ℝ :=
  ⟨m, .lagrange, 1, lineElement, 2, m.elements, #[[0], [1], [(2 : ℚ)]]⟩

noncomputable def jointPoints (m : Mesh ℝ) : Discretization ℝ :=
  numberedSpace (linearSpace m) 1 Kernel.line.internal Kernel.line.external m.elements.toList.flatten

theorem discretized_joint {m : Mesh ℝ} (either : m = chain ∨ m = turned) (f : Int) :
    prepared.Discretized (joint m f).start (jointPoints m) := by
  have line : m.cell = .line := by rcases either with rfl | rfl <;> rfl
  have layouts : (joint m f).start.layouts = .ok (Kernel.line.internal, Kernel.line.external) := by
    rcases either with rfl | rfl <;> cbv
  have made : ElementSpace.make m "lagrange" 1 none = .ok (linearSpace m) := by
    rw [ElementSpace.make, line, ofCell_line, lagrange_line]
    rcases either with rfl | rfl <;> rfl
  refine ⟨rfl, List.cons_ne_nil _ _, _, _, 1, [m.elements.toList], layouts, ?_, made, ?_, ?_⟩
  · rcases either with rfl | rfl <;> rfl
  · rcases either with rfl | rfl <;> rfl
  · rcases either with rfl | rfl <;> rfl

noncomputable def jointContext (m : Mesh ℝ) : Block.Context ℝ :=
  prepared.context (jointPoints m) (Preparation.dofsOf (jointPoints m))

theorem dofsOf_joint {m : Mesh ℝ} (either : m = chain ∨ m = turned) :
    Preparation.dofsOf (jointPoints m) = ⟨1, #[some 0, some 1, some 2], 3⟩ := by
  have occupied : (jointPoints m).points.occupied.toList = [true, true, true] := by
    rcases either with rfl | rfl <;>
      simp [jointPoints, numberedSpace, numberUnknowns, ControlPoints.occupy, ControlPoints.make, linearSpace, chain, turned]
  have numbers : DofMap.ofOccupied 1 [true, true, true] = ⟨1, #[some 0, some 1, some 2], 3⟩ := rfl
  rw [Preparation.dofsOf, occupied]
  exact numbers

def fluxKernel : Kernel where
  name := ""
  dim := 1
  width := 1
  externalWidth := 0
  slots := [⟨"u_x0", .value, 0, some 0⟩, ⟨"n_0", .normal, 0, none⟩]
  unknownCount := 1
  temporaries := []
  residual := [(0, .var 1)]
  tangent := []
  paramNames := []
  usesNormal := true
  boundary := true

theorem ofForm_flux : Kernel.ofForm .textbook Kernel.line "" true flux = .ok fluxKernel := by cbv

/-- The storage in the element after a vertex. -/
noncomputable def storageJob (i : Nat) : Job :=
  ⟨storageKernel.nameless, [i, i + 1], [i, i + 1], [unitPoint 0 1 (i : ℝ) ((i + 1 : Nat) : ℝ) []]⟩

/-- The flux at an end of that element. -/
noncomputable def fluxJob (i : Nat) (t : ℝ) : Job :=
  ⟨fluxKernel, [i, i + 1], [i, i + 1], [unitPoint t 1 (i : ℝ) ((i + 1 : Nat) : ℝ) [t]]⟩

section Holds

variable {m : Mesh ℝ} (either : m = chain ∨ m = turned) {e i : Nat} (here : m.elements[e]? = some [i, i + 1])
  (inside : i < 2)

theorem length_joint (i : Nat) : ((i + 1 : Nat) : ℝ) - i = 1 := by
  push_cast
  ring

include inside in
theorem net_joint : ([i, i + 1].map fun p => (jointPoints m).space.positions.getD p []) =
    [[(i : ℝ)], [((i + 1 : Nat) : ℝ)]] := by
  change ([i, i + 1].map fun p => (#[[0], [1], [2]] : Array (List ℝ)).getD p []) = _
  interval_cases i <;> simp

include either here inside

theorem holds_joint {facet : Option Nat} {data : List (PointData ℝ)}
    (tabulated : (jointContext m).dataOf facet [i, i + 1] = .ok data) :
    (jointContext m).Holds (e, facet) ⟨[i, i + 1], [i, i + 1], data⟩ := by
  refine ⟨here, ?_, tabulated⟩
  rw [jointContext, dofsOf_joint either]
  interval_cases i <;> rfl

theorem holds_storage : (jointContext m).Holds (e, none) (storageJob i).part := by
  have data := volumeData_line (length_joint i)
  rw [← net_joint (m := m) inside] at data
  refine holds_joint either here inside ?_
  rcases either with rfl | rfl <;> exact data

theorem holds_flux {l : Nat} {facet : List Nat} {t : ℝ} (there : Cell.line.facets[l]? = some facet)
    (place : Cell.line.facetPoint facet ([] : List ℝ) = .ok [t]) (side : t = 1 ∨ t = -1) :
    (jointContext m).Holds (e, some l) (fluxJob i t).part := by
  have found : entry? Cell.line.facets (Int.ofNat l) = some facet := by
    rw [ entry?, Block.position?_ofNat (List.getElem?_eq_some_iff.mp there).1]
    exact there
  have data := facetData_line (length_joint i) found place side
  rw [← net_joint (m := m) inside] at data
  refine holds_joint either here inside ?_
  rcases either with rfl | rfl <;> exact data

end Holds

/-- The chain at rest. -/
noncomputable def still : AssemblyState ℝ := ⟨[], #[[], [], []], [0, 0, 0], [0, 0, 0], 0⟩

noncomputable def zeros : NodalValues ℝ := ⟨1, 2, 1, #[0, 0]⟩

theorem gather_still (i j : Nat) (data : List (PointData ℝ)) :
    (⟨[i, j], [i, j], data⟩ : Part).gather 1 [0, 0, 0] = zeros := by
  have entry (i : Nat) : (#[0, 0, 0] : Array ℝ).getD i 0 = 0 := by
    match i with
    | 0 | 1 | 2 => rfl
    | i + 3 => simp [Array.getD]
  simp only [Part.gather, List.map_cons, List.map_nil, entry]
  rfl

/-- What a kernel without parameters contributes at a single point of a part where nothing changes. -/
theorem system_of_addPoint {k : Kernel} (none : k.paramNames = []) (width : k.width = 1) {i j : Nat} {p : PointData ℝ}
    {w : Kernel.Workspace ℝ} (point : ∀ ext, k.addPoint ⟨zeros, zeros, ext, []⟩ 0 2 0 (.zero k.unknownCount 2) p = .ok w) :
    ∃ sys, (⟨[i, j], [i, j], [p]⟩ : Part).system k still = .ok sys ∧ sys.residual = w.residual.toList := by
  have params : k.paramValues (.named still.parameters) = .ok [] := by
    simp [Kernel.paramValues, none]
  refine ⟨_, Outcome.bind_eq_ok.mpr ⟨_, params, Outcome.bind_eq_ok.mpr ⟨w, ?_, rfl⟩⟩, rfl⟩
  rw [Part.inputs, width, still, gather_still, List.foldlM_cons]
  exact Outcome.bind_eq_ok.mpr ⟨w, point _, rfl⟩

theorem system_storage (i : Nat) : ∃ sys, (storageJob i).part.system storageKernel.nameless still = .ok sys ∧
    sys.residual = [0, 0] := by
  have slots (ext : NodalValues ℝ) : storageKernel.slots.toArray.mapM (Kernel.slotValue ⟨zeros, zeros, ext, []⟩ 0
      (unitPoint 0 1 (i : ℝ) ((i + 1 : Nat) : ℝ) [])) = Except.ok #[0, 0] := by
    rw [List.mapM_toArray]
    simp [storageKernel, Kernel.slotValue, Kernel.basisRow, Kernel.interpolated, zeros, NodalValues.get, Arithmetic.total,
      unitPoint]
  have rows : storageKernel.slots.toArray.mapM (fun s => Kernel.basisRow (unitPoint 0 1 (i : ℝ) ((i + 1 : Nat) : ℝ) []) s.axis) =
      Except.ok #[(unitPoint 0 1 (i : ℝ) ((i + 1 : Nat) : ℝ) []).basis, (unitPoint 0 1 (i : ℝ) ((i + 1 : Nat) : ℝ) []).basis] := by
    rw [List.mapM_toArray]
    simp [storageKernel, Kernel.basisRow, unitPoint]
  have nothing : Arithmetic.isZero (0 : ℝ) = true := (isZero_iff 0).mpr rfl
  obtain ⟨sys, done, residual⟩ := system_of_addPoint (k := storageKernel.nameless) rfl rfl fun ext =>
    Outcome.bind_eq_ok.mpr ⟨_, slots ext, Outcome.bind_eq_ok.mpr ⟨_, rows, rfl⟩⟩
  refine ⟨sys, done, residual.trans ?_⟩
  simp [storageKernel, Kernel.nameless, Kernel.assign, Kernel.withTemporaries, Kernel.addDensities, Kernel.Workspace.zero, List.range_succ,
    Formula.eval, nothing]

theorem system_flux (i : Nat) {t : ℝ} (side : t = 1 ∨ t = -1) : ∃ sys,
    (fluxJob i t).part.system fluxKernel still = .ok sys ∧ sys.residual = [-t, t] := by
  have slots (ext : NodalValues ℝ) : fluxKernel.slots.toArray.mapM (Kernel.slotValue ⟨zeros, zeros, ext, []⟩ 0
      (unitPoint t 1 (i : ℝ) ((i + 1 : Nat) : ℝ) [t])) = Except.ok #[0, t] := by
    rw [List.mapM_toArray]
    simp [fluxKernel, Kernel.slotValue, Kernel.basisRow, Kernel.interpolated, zeros, NodalValues.get, Arithmetic.total,
      unitPoint]
  have rows : fluxKernel.slots.toArray.mapM (fun s => Kernel.basisRow (unitPoint t 1 (i : ℝ) ((i + 1 : Nat) : ℝ) [t]) s.axis) =
      Except.ok #[[-1, 1], (unitPoint t 1 (i : ℝ) ((i + 1 : Nat) : ℝ) [t]).basis] := by
    rw [List.mapM_toArray]
    simp [fluxKernel, Kernel.basisRow, unitPoint]
  have turning : Arithmetic.isZero t = false := by
    rw [Bool.eq_false_iff, ne_eq, isZero_iff]
    rcases side with rfl | rfl <;> norm_num
  obtain ⟨sys, done, residual⟩ := system_of_addPoint (k := fluxKernel) rfl rfl fun ext =>
    Outcome.bind_eq_ok.mpr ⟨_, slots ext, Outcome.bind_eq_ok.mpr ⟨_, rows, rfl⟩⟩
  refine ⟨sys, done, residual.trans ?_⟩
  simp [fluxKernel, Kernel.assign, Kernel.withTemporaries, Kernel.addDensities, Kernel.spread, Kernel.column,
    Kernel.Workspace.zero, Formula.eval, turning, unitPoint, List.replicate_succ]

/-- The jobs of the two elements and of the facet, which belongs to the element at place `e`. -/
theorem becomes_joint {m : Mesh ℝ} (either : m = chain ∨ m = turned) {f : Int} {e l i j k : Nat} {facet : List Nat}
    {t : ℝ} (tasks : (joint m f).final.tasks =
      [⟨some storage, some (0, none)⟩, ⟨some storage, some (1, none)⟩, ⟨some flux, some (e, some l)⟩])
    (first : m.elements[0]? = some [i, i + 1]) (second : m.elements[1]? = some [j, j + 1])
    (owner : m.elements[e]? = some [k, k + 1]) (inside : i < 2 ∧ j < 2 ∧ k < 2)
    (there : Cell.line.facets[l]? = some facet) (place : Cell.line.facetPoint facet ([] : List ℝ) = .ok [t])
    (side : t = 1 ∨ t = -1) :
    List.Forall₂ (Task.Becomes prepared.rules (setting (jointPoints m)) (jointContext m)) (joint m f).final.tasks
      [storageJob i, storageJob j, fluxJob k t] := by
  have kernel := Kernel.ofForm_rename ofForm_storage ""
  have setting : setting (jointPoints m) = Kernel.line := by rcases either with rfl | rfl <;> rfl
  rw [tasks, setting]
  refine .cons ⟨storage, (0, none), rfl, rfl, kernel, holds_storage either first inside.1⟩ ?_
  refine .cons ⟨storage, (1, none), rfl, rfl, kernel, holds_storage either second inside.2.1⟩ ?_
  exact .cons ⟨flux, (e, some l), rfl, rfl, ofForm_flux, holds_flux either owner inside.2.2 there place side⟩ .nil

theorem prescribed_still (p : Nat) : still.prescribed.getD p [] = [] := by
  change (#[[], [], []] : Array (List ℝ)).getD p [] = []
  match p with
  | 0 | 1 | 2 => rfl
  | p + 3 => simp [Array.getD]

theorem residualAt_zero (i j n : Nat) {sys : ElementSystem ℝ} (zero : sys.residual = [0, 0]) :
    Contribution.residualAt ⟨[i, j], sys⟩ n = 0 := by
  simp [Contribution.residualAt, sumAt, zero]

/-- At rest there is only the flux through the facet. -/
theorem assemble_joint {m : Mesh ℝ} (either : m = chain ∨ m = turned) {f : Int} {i j k : Nat} {t : ℝ}
    (inside : i < 2 ∧ j < 2 ∧ k < 2) (side : t = 1 ∨ t = -1)
    (become : List.Forall₂ (Task.Becomes prepared.rules (setting (jointPoints m)) (jointContext m))
      (joint m f).final.tasks [storageJob i, storageJob j, fluxJob k t]) :
    ∃ blocks, prepared.Yields (joint m f) (jointPoints m) (Preparation.dofsOf (jointPoints m)) blocks ∧
      ∃ sys, Block.assemble blocks 3 still = .ok sys ∧
        ∀ n < 3, sys.residual.getD n 0 = sumAt id [(k, -t), (k + 1, t)] n := by
  obtain ⟨blocks, yields⟩ := Preparation.yields_of_jobs (wellNamed_joint m f) (discretized_joint either f)
    (filled_joint m f) (b := .sequential) rfl become
  obtain ⟨first, done, zero⟩ := system_storage i
  obtain ⟨second, done', zero'⟩ := system_storage j
  obtain ⟨third, done'', own⟩ := system_flux k side
  have fed : ∀ job ∈ [storageJob i, storageJob j, fluxJob k t], job.Fed still := by
    intro job member p _
    rw [prescribed_still]
    simp only [List.mem_cons, List.not_mem_nil, or_false] at member
    rcases member with rfl | rfl | rfl <;> rfl
  have below : ∀ c ∈ [(⟨[i, i + 1], first⟩ : Contribution ℝ), ⟨[j, j + 1], second⟩, ⟨[k, k + 1], third⟩], c.Below 3 := by
    intro c member l listed
    simp only [List.mem_cons, List.not_mem_nil, or_false] at member
    rcases member with rfl | rfl | rfl <;> simp at listed <;> omega
  refine ⟨blocks, yields, _, (yields.assemble_eq_ok_iff (wellNamed_joint m f) become fed).mpr
    ⟨[⟨[i, i + 1], first⟩, ⟨[j, j + 1], second⟩, ⟨[k, k + 1], third⟩], .cons ⟨done, rfl⟩ (.cons ⟨done', rfl⟩ (.cons ⟨done'', rfl⟩ .nil)), rfl⟩, fun n small => ?_⟩
  rw [(System.sums_ofContributions below).residual n small]
  simp only [List.map_cons, List.map_nil, List.sum_cons, List.sum_nil, residualAt_zero, zero, zero']
  rw [Contribution.residualAt, own]
  simp

theorem permuted_joint {f f' : Int} (same : turned.facetKey? f' = chain.facetKey? f) :
    (joint chain f).Permuted (Equiv.swap 0 1) (joint turned f') where
  mesh := permuted_chain
  formed := formed_turned
  fresh := rfl
  forms := fun form => Iff.rfl
  pieces := by
    refine .cons ⟨rfl, rfl, ?_, .cons ⟨rfl, rfl, ?_⟩ .nil⟩ .nil
    · exact List.Perm.swap 1 0 []
    · exact List.Perm.of_eq (congrArg (fun k => [k]) same)

theorem fits_still (m : Mesh ℝ) : Fits (jointPoints m) still := fun p _ => by
  rw [prescribed_still]
  rfl

theorem renumbered_still (σ ρ : Nat → Nat) (count n : Nat) : still.Renumbered σ ρ count n still := by
  have zero (i : Nat) : ([0, 0, 0] : List ℝ).getD i 0 = 0 := by
    match i with
    | 0 | 1 | 2 => rfl
    | i + 3 => rfl
  refine ⟨rfl, rfl, fun i _ => ?_, fun i _ => ?_, fun p _ => ?_⟩
  · exact (zero _).trans (zero i).symm
  · exact (zero _).trans (zero i).symm
  · rw [prescribed_still, prescribed_still]

/-- In the other order, the facet between the elements belongs to the other one, and the flux through it goes elsewhere. -/
theorem not_renumbered_turned : chain.Formed ∧ (joint chain 1).final.WellNamed ∧
    (joint chain 1).Permuted (Equiv.swap 0 1) (joint turned 0) ∧
    ∃ dofs blocks dofs' blocks', prepared.Yields (joint chain 1) (jointPoints chain) dofs blocks ∧
      prepared.Yields (joint turned 0) (jointPoints turned) dofs' blocks' ∧ Fits (jointPoints chain) still ∧
      (∃ σ ρ, Corresponds (jointPoints chain) (jointPoints turned) σ ρ) ∧
      ∀ σ ρ, Corresponds (jointPoints chain) (jointPoints turned) σ ρ →
        still.Renumbered σ ρ (jointPoints chain).space.positions.size dofs.count still ∧
        ¬Outcome.Alike (System.Renumbered ρ dofs.count) (Block.assemble blocks dofs.count still)
          (Block.assemble blocks' dofs'.count still) := by
  have permuted : (joint chain 1).Permuted (Equiv.swap 0 1) (joint turned 0) := permuted_joint rfl
  have discretized := discretized_joint (Or.inl rfl) 1
  have discretized' := discretized_joint (Or.inr rfl) 0
  have first := becomes_joint (Or.inl rfl) (f := 1) (i := 0) (j := 1) (k := 0) rfl rfl rfl rfl (by omega) rfl
    facetPoint_line.2 (Or.inl rfl)
  have second := becomes_joint (Or.inr rfl) (f := 0) (i := 1) (j := 0) (k := 1) rfl rfl rfl rfl (by omega) rfl
    facetPoint_line.1 (Or.inr rfl)
  obtain ⟨blocks, yields, sys, done, residual⟩ := assemble_joint (Or.inl rfl) (by omega) (Or.inl rfl) first
  obtain ⟨blocks', yields', sys', done', residual'⟩ := assemble_joint (Or.inr rfl) (by omega) (Or.inr rfl) second
  refine ⟨formed_chain, wellNamed_joint chain 1, permuted, _, blocks, _, blocks', yields, yields', fits_still chain, ?_,
    fun σ ρ corresponds => ⟨renumbered_still .., fun alike => ?_⟩⟩
  · obtain ⟨x', other, spaces, settings⟩ := permuted.reordered.discretized (filled_joint chain 1) formed_chain discretized
    cases other.unique discretized'
    exact ⟨_, _, permuted.reordered.corresponds discretized discretized' spaces settings⟩
  · have vertex : σ 0 = 0 := corresponds.vertices 0 (by decide)
    have rows := corresponds.rows 0 (by decide)
    rw [vertex, dofsOf_joint (Or.inl rfl), dofsOf_joint (Or.inr rfl)] at rows
    have unknown : [some (ρ 0)] = [some 0] := rows.symm
    rw [dofsOf_joint (Or.inl rfl), dofsOf_joint (Or.inr rfl)] at alike
    obtain ⟨_, again, renumbered⟩ := alike.forth sys done
    cases done'.symm.trans again
    have entry := renumbered.residual 0 (Nat.zero_lt_succ 2)
    rw [Option.some.inj (List.cons.inj unknown).1, residual 0 (by omega), residual' 0 (by omega)] at entry
    norm_num [sumAt] at entry

/-- The two elements in a piece each. -/
noncomputable def parted : Stages :=
  let d : Domain ℝ := ⟨chain, [⟨"left", [0], some storage, none, []⟩,
    ⟨"right", [1], some storage, none, [⟨"end", [2], some flux, none⟩]⟩], [], none⟩
  ⟨d, d, rfl, rfl⟩

theorem divided_joint : (joint chain 2).Divided parted where
  mesh := rfl
  fresh := rfl
  forms := fun form => by
    change form ∈ [storage, storage, flux] ↔ form ∈ [storage, flux]
    simp
  named := by
    refine ⟨by decide, fun w piece => ?_⟩
    rcases List.mem_pair.mp piece with rfl | rfl
    · exact List.nodup_nil
    · exact List.nodup_singleton _
  filled := by
    intro w piece
    rcases List.mem_pair.mp piece with rfl | rfl
    · exact ⟨List.cons_ne_nil _ _, nofun⟩
    · refine ⟨List.cons_ne_nil _ _, fun r region _ => ?_⟩
      cases List.mem_singleton.mp region
      exact List.cons_ne_nil _ _
  pieces := by
    refine ⟨[parted.final.pieces], .cons ⟨?_, List.Perm.refl _, List.Perm.refl _, ?_⟩ .nil, List.Perm.refl _⟩
    · intro v part
      rcases List.mem_pair.mp part with rfl | rfl <;> rfl
    · intro v part r region _ f facet
      rcases List.mem_pair.mp part with rfl | rfl
      · cases region
      · cases List.mem_singleton.mp region
        cases List.mem_singleton.mp facet
        exact Or.inl ⟨_, rfl, rfl, List.cons_ne_nil _ _⟩

theorem keepsOwners_joint (τ : Equiv.Perm Nat) : (joint chain 2).KeepsOwners τ := by
  intro w piece r region _ f facet o owner o' owner'
  cases List.mem_singleton.mp piece
  cases List.mem_singleton.mp region
  cases List.mem_singleton.mp facet
  cases owner
  cases List.mem_singleton.mp owner'
  exact le_rfl

/-- Where the facet is at the end, the system is the same in the other order and with the elements in a piece each. -/
theorem assemble_joint_alike : chain.Formed ∧ (joint chain 2).final.WellNamed ∧
    (joint chain 2).Permuted (Equiv.swap 0 1) (joint turned 1) ∧ (joint chain 2).KeepsOwners (Equiv.swap 0 1) ∧
    (joint chain 2).Divided parted ∧
    ∃ dofs blocks x' dofs' blocks' parts σ ρ, prepared.Yields (joint chain 2) (jointPoints chain) dofs blocks ∧
      prepared.Yields (joint turned 1) x' dofs' blocks' ∧ Corresponds (jointPoints chain) x' σ ρ ∧
      prepared.Yields parted (jointPoints chain) dofs parts ∧
      ∃ sys sys' sys'', Block.assemble blocks dofs.count still = .ok sys ∧
        Block.assemble blocks' dofs'.count still = .ok sys' ∧ Block.assemble parts dofs.count still = .ok sys'' ∧
        System.Renumbered ρ dofs.count sys sys' ∧ System.Renumbered id dofs.count sys sys'' := by
  have permuted : (joint chain 2).Permuted (Equiv.swap 0 1) (joint turned 1) := permuted_joint rfl
  have become := becomes_joint (Or.inl rfl) (f := 2) (i := 0) (j := 1) (k := 1) rfl rfl rfl rfl (by omega) rfl
    facetPoint_line.2 (Or.inl rfl)
  obtain ⟨blocks, yields, sys, done, -⟩ := assemble_joint (Or.inl rfl) (by omega) (Or.inl rfl) become
  have count : (Preparation.dofsOf (jointPoints chain)).count = 3 := congrArg DofMap.count (dofsOf_joint (Or.inl rfl))
  rw [← count] at done
  obtain ⟨-, order, pieces⟩ := assemble_sums formed_chain (wellNamed_joint chain 2) yields
  obtain ⟨x', dofs', blocks', σ, ρ, yields', corresponds, same⟩ := order _ _ permuted (keepsOwners_joint _)
  obtain ⟨parts, parted, split⟩ := pieces _ divided_joint
  obtain ⟨sys', done', renumbered⟩ := (same still still (fits_still chain) (renumbered_still ..)).forth sys done
  obtain ⟨sys'', done'', equal⟩ := (split still (fits_still chain)).forth sys done
  exact ⟨formed_chain, wellNamed_joint chain 2, permuted, keepsOwners_joint _, divided_joint, _, blocks, x', dofs', blocks',
    parts, σ, ρ, yields, yields', corresponds, parted, sys, sys', sys'', done, done', done'', renumbered, equal⟩

end Chain

end Domain

end Galerkin
