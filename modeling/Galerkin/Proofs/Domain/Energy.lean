import Mathlib
import Galerkin.Proofs.Assembly.Energy
import Galerkin.Proofs.Domain.Conservation

/-!
Domains whose forms are energies: their tangent is a symmetric matrix that no state changes, and their residual is its
product with the unknowns.
-/

namespace Galerkin

namespace Preparation

variable {P : Preparation} {s : Domain.Stages} {x : Discretization ℝ} {dofs : DofMap} {blocks : List (Block ℝ)}
  {parameters : List (String × ℝ)}

/-- Forms that a domain has when it is discretized are forms of its fields. -/
theorem Yields.fits (yields : P.Yields s x dofs blocks) {form : Expr} (own : form ∈ s.start.forms) :
    (Domain.setting x).Fits form := by
  obtain ⟨layouts, found, same⟩ := yields.discretized.1.setting
  rw [same]
  exact Domain.fits_of_layouts found own

/-- Where all forms are energies, every block carries one of them. -/
theorem Yields.carries (yields : P.Yields s x dofs blocks) (lawful : P.rules.Lawful)
    (energetic : ∀ form ∈ s.final.forms, ∃ E : Energy, E.form = form ∧ E.Quadratic (Domain.setting x) ∧
      E.modulus.Given parameters) : ∃ energies, List.Forall₂ (fun b E => E.form ∈ s.final.forms ∧
        b.Carries P.rules (Domain.setting x) dofs.count parameters E) blocks energies := by
  obtain ⟨discretized, rfl⟩ := yields.discretized
  have fits := discretized.fits
  have each : ∀ b ∈ blocks, ∃ E : Energy, E.form ∈ s.final.forms ∧
      b.Carries P.rules (Domain.setting x) (dofsOf x).count parameters E := by
    intro b member
    obtain ⟨⟨places, parts, made⟩, form, own, name, boundary, compiled⟩ := yields.made member
    obtain ⟨E, rfl, quadratic, given⟩ := energetic form own
    have width := Kernel.width_ofForm lawful compiled
    exact ⟨E, own, ⟨name, boundary, compiled⟩, quadratic, given, made.aligned fits.even rfl width rfl⟩
  exact Outcome.exists_matched each

end Preparation

namespace Domain

variable {P : Preparation} {s : Stages} {x : Discretization ℝ} {dofs : DofMap} {blocks : List (Block ℝ)}

/-- Where every form of a compiled domain pairs an expression with itself, whose components are linear in values and
derivatives of internal fields, with a number or a parameter in front, the domain can be assembled at every state, and
one matrix is the tangent at all of them. It is symmetric, its product with the unknowns is the residual, and between
two vectors it is the sum over all points of all blocks of the weighted coefficient times the products of the components
of the expression. It is positive semidefinite if no coefficient and no weight of a rule is negative. -/
theorem assemble_energy (yields : P.Yields s x dofs blocks) (lawful : P.rules.Lawful) {parameters : List (String × ℝ)}
    (energetic : ∀ form ∈ s.final.forms, ∃ E : Energy, E.form = form ∧ E.Quadratic (setting x) ∧
      E.modulus.Given parameters) :
    ∃ energies, List.Forall₂ (fun b E => E.form ∈ s.final.forms ∧ b.Stores P.rules (setting x) E) blocks energies ∧
      ∃ K : Matrix (Fin dofs.count) (Fin dofs.count) ℝ,
        (∀ state u, state.parameters = parameters → state.x = List.ofFn u →
          ∃ sys, Block.assemble blocks dofs.count state = .ok sys ∧
            (∀ i j : Fin dofs.count, sys.tangent.get i j = K i j) ∧ sys.residual = List.ofFn (K.mulVec u)) ∧
        K.IsSymm ∧
        (∀ u w, w ⬝ᵥ K.mulVec u = (List.zipWith (fun b E =>
          b.energy (setting x) E parameters (List.ofFn u) (List.ofFn w)) blocks energies).sum) ∧
        ((∀ n, Quadrature.Nonneg (P.lines n)) → (∀ E ∈ energies, 0 ≤ E.modulus.value parameters) → K.PosSemidef) := by
  obtain ⟨energies, matched⟩ := yields.carries lawful energetic
  have carried := matched.imp fun _ _ own => own.2
  refine ⟨energies, matched.imp fun _ _ own => ⟨own.1, own.2.stores⟩,
    Block.stiffness dofs.count (setting x) parameters blocks energies, ?_, Block.isSymm_stiffness,
    Block.dotProduct_stiffness lawful carried, fun rules moduli => ?_⟩
  · exact fun state u given same => Block.assemble_stiffness lawful carried given same
  · refine Block.posSemidef_stiffness lawful carried moduli fun b member => ?_
    obtain ⟨⟨places, parts, made⟩, -⟩ := yields.made member
    exact made.nonneg rules

section Segment

open Kernel (line)
open Simulation (rodDiscretization midpointRules)

def doubledConduction : Expr := .prod (.const (.int 2)) conduction

def doubledKernel : Kernel where
  name := "conduction"
  dim := 1
  width := 1
  externalWidth := 0
  slots := [⟨"u_x0", .value, 0, some 0⟩]
  unknownCount := 1
  temporaries := []
  residual := [(0, .mul (.mul Formula.one (.const (.exact 2))) (.var 0))]
  tangent := [((0, 0), .mul Formula.one (.const (.exact 2)))]
  paramNames := []
  usesNormal := false
  boundary := false

theorem ofForm_doubledConduction : Kernel.ofForm .textbook line "conduction" false doubledConduction = .ok doubledKernel := by
  cbv

/-- Conduction with two as coefficient. -/
def doubled : Energy := ⟨.const (.int 2), .field ⟨"u", 0, false⟩ [] [⟨"i"⟩] 0⟩

theorem total_segment (k : Kernel) (f : Nat → List Nat → PointData ℝ → ℝ) :
    (segmentBlock k).total f = f 0 [0, 1] Simulation.midpoint := by
  simp [Block.total, segmentBlock]

/-- The strain of the segment is the difference of the values at its ends. -/
theorem valuesAt_segment (x : Fin 2 → ℝ) :
    (segmentBlock doubledKernel).valuesAt (setting rodDiscretization) (List.ofFn x) 0 Simulation.midpoint slope =
      x 1 - x 0 := by
  have current : slope.IsCurrent := rfl
  have column : (setting rodDiscretization).internal.columnOf "u" [] = 0 := rfl
  rw [Block.valuesAt_ofFn x current]
  simp [Block.slope, slope, column, segmentBlock, Finset.sum_range_succ, Block.numberAt, doubledKernel,
    Simulation.midpoint, PointData.basisAt, coordinate]
  ring

theorem contraction_doubled (v w : Quantity → ℝ) : doubled.strain.contraction 1 v w = v slope * w slope := by
  have free : doubled.strain.freeIn false = [⟨"i"⟩] := rfl
  rw [Expr.contraction, free, sumOver, Finset.sum_range_one]
  rfl

theorem energy_segment (u w : Fin 2 → ℝ) :
    (segmentBlock doubledKernel).energy (setting rodDiscretization) doubled [] (List.ofFn u) (List.ofFn w) =
      2 * ((u 1 - u 0) * (w 1 - w 0)) := by
  have modulus : doubled.modulus.value [] = 2 := by simp [doubled, Modulus.value, Number.value]
  have dim : (setting rodDiscretization).dim = 1 := rfl
  have weight : Simulation.midpoint.weight = 1 := rfl
  rw [Block.energy, total_segment, modulus, dim, contraction_doubled, valuesAt_segment, valuesAt_segment, weight, one_mul]

/-- Twice the conduction of a segment: for any values at the ends, the difference counts. -/
theorem assemble_energy_segment : ∃ K : Matrix (Fin 2) (Fin 2) ℝ,
    (∀ state u, state.parameters = [] → state.x = List.ofFn u →
      ∃ sys, Block.assemble [segmentBlock doubledKernel] 2 state = .ok sys ∧
        (∀ i j : Fin 2, sys.tangent.get i j = K i j) ∧ sys.residual = List.ofFn (K.mulVec u)) ∧
    (∀ u w, w ⬝ᵥ K.mulVec u = 2 * ((u 1 - u 0) * (w 1 - w 0))) ∧ K.PosSemidef := by
  let P : Preparation := ⟨.textbook, midpointRules, "lagrange", .int 1, none, "sequential"⟩
  let d := segmentWith doubledConduction none none
  have layouts : d.layouts = .ok (line.internal, line.external) := by cbv
  have yields : P.Yields ⟨d, d, rfl, rfl⟩ rodDiscretization ⟨1, #[some 0, some 1], 2⟩ [segmentBlock doubledKernel] :=
    ⟨_, _, _, discretize_segment _ layouts, rfl, rfl, compile_segment ofForm_doubledConduction, allOf_segment ..⟩
  have quadratic : doubled.Quadratic (setting rodDiscretization) :=
    ⟨yields.fits List.mem_cons_self, rfl, fun _ found => Expansion.isLinear_of_homogeneous (.field _ _ rfl) found⟩
  have finite : (Number.int 2).IsFinite := rfl
  have energetic : ∀ form ∈ d.forms, ∃ E : Energy, E.form = form ∧ E.Quadratic (setting rodDiscretization) ∧
      E.modulus.Given [] := fun form own => ⟨doubled, (List.mem_singleton.mp own).symm, quadratic, finite⟩
  have inside : ∀ n, Quadrature.Nonneg (midpointRules n) := by
    intro n t member
    cases List.mem_singleton.mp member
    norm_num
  obtain ⟨energies, stored, K, system, -, values, positive⟩ := assemble_energy yields Calculus.textbook_lawful energetic
  obtain ⟨F, only, rfl⟩ : ∃ F : Energy, F.form = doubledConduction ∧ energies = [F] := by
    cases stored with
    | cons own rest =>
        cases rest
        exact ⟨_, List.mem_singleton.mp own.1, rfl⟩
  obtain rfl : F = doubled := Energy.form_injective only
  refine ⟨K, system, fun u w => ?_, positive inside (List.forall_mem_singleton.mpr ?_)⟩
  · rw [values, List.zipWith_cons_cons, List.zipWith_nil_left, List.sum_singleton]
    exact energy_segment u w
  · simp [doubled, Modulus.value, Number.value]

end Segment

end Domain

end Galerkin
