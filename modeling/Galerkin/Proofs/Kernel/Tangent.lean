import Mathlib
import Galerkin.Proofs.Kernel.Reading

/-!
The tangent of a kernel is the derivative of its residual along every smooth change of what is read, with
rates changing by the rate weight times the values.
-/

namespace Galerkin

open Finset hiding sum_apply
open Topology
open Linearization (Spec Moving unknownList valueAt)

variable {E : Type} [NormedAddCommGroup E] [NormedSpace ℝ E]

/-- `f` has a derivative, whose value along every direction is given by `g`. -/
def HasSlope (f g : E → ℝ) (y : E) : Prop := ∃ L : E →L[ℝ] ℝ, HasFDerivAt f L y ∧ ∀ δ, L δ = g δ

theorem HasSlope.sum_map {ι : Type} {xs : List ι} {f g : ι → E → ℝ} {y : E}
    (each : ∀ i ∈ xs, HasSlope (f i) (g i) y) :
    HasSlope (fun z => (xs.map fun i => f i z).sum) (fun δ => (xs.map fun i => g i δ).sum) y := by
  induction xs with
  | nil => exact ⟨0, hasFDerivAt_const _ _, fun _ => rfl⟩
  | cons head tail ih =>
      rw [List.forall_mem_cons] at each
      rcases each.1 with ⟨L, first, value⟩
      rcases ih each.2 with ⟨M, rest, values⟩
      refine ⟨L + M, ?_, fun δ => ?_⟩
      · simp only [List.map_cons, List.sum_cons]
        exact first.add rest
      · simp only [List.map_cons, List.sum_cons]
        rw [add_apply, value, values]

/-- The unknowns change with derivatives `D`, and nothing else does. -/
structure Changes (v : E → Quantity → ℝ) (D : Quantity → E →L[ℝ] ℝ) (y : E) : Prop where
  moving : ∀ q, Moving q → HasFDerivAt (fun z => v z q) (D q) y
  still : ∀ q, ¬ Moving q → ∀ z, v z q = v y q

theorem Changes.moves {v : E → Quantity → ℝ} {D : Quantity → E →L[ℝ] ℝ} {y : E} (changes : Changes v D y) :
    Formula.Moves Moving v y :=
  ⟨fun q moving => (changes.moving q moving).differentiableAt, changes.still⟩

variable {rules : Calculus Quantity} {s : Setting}
  {pairs : List (Formula Quantity × Formula Quantity)} {l : Linearization} {k : Kernel}
  {v : E → Quantity → ℝ} {D : Quantity → E →L[ℝ] ℝ} {y : E}

theorem hasFDerivAt_sumAt (lawful : rules.Lawful) (changes : Changes v D y) {qs : List Quantity}
    (distinct : qs.Nodup) (moving : ∀ q ∈ qs, Moving q) {entries : List (Nat × Formula Quantity)}
    (complete : ∀ t ∈ entries, ∀ q ∈ t.2.atoms, Moving q → q ∈ qs)
    (smooth : ∀ t ∈ entries, t.2.Smooth Moving (v y)) (i : Nat) :
    HasFDerivAt (fun z => sumAt (valueAt (v z)) entries i)
      (qs.map fun q => sumAt (fun e => (rules.derivative q e).eval (v y)) entries i • D q).sum y := by
  induction entries with
  | nil =>
      simp only [sumAt_nil, zero_smul]
      have none : (qs.map fun _ => (0 : E →L[ℝ] ℝ)).sum = 0 := List.sum_eq_zero (by simp)
      rw [none]
      exact hasFDerivAt_const _ _
  | cons head tail ih =>
      rw [List.forall_mem_cons] at complete smooth
      have rest := ih complete.2 smooth.2
      simp only [sumAt_cons]
      by_cases same : head.1 = i
      · simp only [if_pos same, add_smul, List.sum_map_add]
        refine HasFDerivAt.add ?_ rest
        refine Formula.hasFDerivAt_eval smooth.1 distinct moving complete.1 changes.moving changes.still ?_
        exact fun q member => lawful.hasDerivAt (moving q member) smooth.1
      · simp only [if_neg same, zero_add]
        exact rest

theorem eventually_all_smooth (changes : Changes v D y) {entries : List (Nat × Formula Quantity)}
    (smooth : ∀ t ∈ entries, t.2.Smooth Moving (v y)) :
    ∀ᶠ z in 𝓝 y, ∀ t ∈ entries, t.2.Smooth Moving (v z) := by
  induction entries with
  | nil => exact Filter.Eventually.of_forall fun _ _ member => nomatch member
  | cons head tail ih =>
      rw [List.forall_mem_cons] at smooth
      filter_upwards [Formula.eventually_smooth changes.moves smooth.1, ih smooth.2] with z first rest
      exact List.forall_mem_cons.mpr ⟨first, rest⟩

namespace Kernel

variable {d : E → FieldData} {count e : Nat} {p : PointData ℝ}

/-- The density of an unknown has the derivatives that the tangent holds. -/
theorem hasFDerivAt_density (lawful : rules.Lawful) (spec : Spec rules s pairs l) (built : Built l k)
    (changes : Changes (fun z => (d z).value s count e p) D y)
    (smooth : ∀ pair ∈ pairs, pair.1.Smooth Moving ((d y).value s count e p) ∧
      pair.2.Smooth Moving ((d y).value s count e p)) (i : Nat) :
    HasFDerivAt (fun z => densityOf (k.pointValues ((d z).inputs k.paramNames) count e p) k.residual i)
      (∑ j ∈ range k.unknownCount, densityOf (k.pointValues ((d y).inputs k.paramNames) count e p)
        k.tangent (i, j) • D (l.unknownList.getD j default)) y := by
  have residual := spec.residual_smooth lawful smooth
  have slope := hasFDerivAt_sumAt lawful changes (nodup_unknownList spec)
    (fun q member => ((spec.mem_unknownList q).mp member).2)
    (fun t member q occurs moving => (spec.mem_unknownList q).mpr
      ⟨spec.residual_atoms lawful t member q occurs, moving⟩) residual i
  have near : (fun z => densityOf (k.pointValues ((d z).inputs k.paramNames) count e p) k.residual i) =ᶠ[𝓝 y]
      fun z => sumAt (valueAt ((d z).value s count e p)) l.residual i := by
    filter_upwards [eventually_all_smooth changes residual] with z all
    exact built.residual (fills spec built (d z) count e p) (fun t member => (all t member).defined) i
  refine (slope.congr_of_eventuallyEq near).congr_fderiv ?_
  refine (sum_unknowns built fun j q here => ?_).symm
  have shared := built.tangent (fills spec built (d y) count e p) (spec.tangent_defined lawful residual) (i, j)
  rw [densityOf, pointValues, shared, spec.tangent_value _ i here, List.getD_eq_getElem?_getD, here]
  rfl

theorem tested_mul (φ ψ : Nat → ℝ) (i j : Nat) :
    k.tested count (fun r => k.tested count (fun c => φ r * ψ c) p j) p i =
      k.tested count φ p i * k.tested count ψ p j := by
  unfold tested
  rw [sum_mul_sum]
  refine sum_congr rfl fun a _ => ?_
  rw [mul_sum]
  exact sum_congr rfl fun b _ => by ring

/-- What a point adds to the residual has the derivative that the point adds to the tangent. -/
theorem hasFDerivAt_pointResidual (lawful : rules.Lawful) (spec : Spec rules s pairs l) (built : Built l k)
    (changes : Changes (fun z => (d z).value s count e p) D y)
    (smooth : ∀ pair ∈ pairs, pair.1.Smooth Moving ((d y).value s count e p) ∧
      pair.2.Smooth Moving ((d y).value s count e p)) (φ : Nat → ℝ) {rateWeight : ℝ} {ψ : E → Nat → ℝ}
    (along : ∀ q ∈ l.unknownList, ∀ δ, D q δ = (if q.source = .rate then rateWeight else 1) *
      ∑ b ∈ range count, p.basisAt q.axisOf b * ψ δ (b * k.width + q.component s)) :
    HasSlope (fun z => k.pointResidual ((d z).inputs k.paramNames) count e φ p)
      (fun δ => k.pointTangent ((d y).inputs k.paramNames) rateWeight count e (fun r c => φ r * ψ δ c) p) y := by
  refine ⟨_, HasFDerivAt.fun_sum fun i _ =>
    ((hasFDerivAt_density lawful spec built changes smooth i).const_mul p.weight).mul_const
      (k.tested count φ p i), fun δ => ?_⟩
  have slope : ∀ j < k.unknownCount, D (l.unknownList.getD j default) δ =
      (if k.isRate j then rateWeight else 1) * k.tested count (ψ δ) p j := by
    intro j unknown
    rw [built.unknownCount, ← Spec.length_unknownList] at unknown
    have here := List.getElem?_eq_getElem unknown
    rw [List.getD_eq_getElem?_getD, here, Option.getD_some, along _ (List.getElem_mem _) δ, tested,
      axisOf_of_unknown spec built here, column_of_unknown spec built here, isRate_of_unknown spec built here]
    simp only [decide_eq_true_eq]
  simp only [pointTangent, tested_mul, sum_apply, smul_apply, smul_eq_mul]
  refine sum_congr rfl fun i _ => ?_
  rw [mul_sum, mul_sum]
  refine sum_congr rfl fun j member => ?_
  rw [slope j (mem_range.mp member)]
  ring

end Kernel

end Galerkin
