import Mathlib
import Galerkin.Proofs.Assembly.Blocks
import Galerkin.Proofs.Kernel.Tangent
import Galerkin.Proofs.TimeScheme

/-!
The tangent of a system of blocks is the derivative of its residual by the unknowns, with the rates that a
time scheme gives to them.
-/

namespace Galerkin

open Finset hiding sum_apply
open Linear
open Linearization (Spec Moving unknownList)

variable {n : Nat}

/-- The unknown with a number; zero where there is none. -/
noncomputable def coordinate (n i : Nat) : (Fin n → ℝ) →L[ℝ] ℝ :=
  if inside : i < n then ContinuousLinearMap.proj ⟨i, inside⟩ else 0

theorem coordinate_fin (j : Fin n) (x : Fin n → ℝ) : coordinate n j x = x j := by
  rw [coordinate, dif_pos j.isLt]
  rfl

theorem getD_ofFn (x : Fin n → ℝ) (i : Nat) : (List.ofFn x).getD i 0 = coordinate n i x := by
  rw [coordinate]
  split
  · next inside =>
      rw [List.getD_eq_getElem _ _ (by simpa using inside), List.getElem_ofFn]
      rfl
  · next outside => exact List.getD_eq_default _ _ (by simpa using outside)

/-- A step of a time scheme from a previous state, with everything that the new state does not change. -/
structure StepSetting (n : Nat) where
  parameters : List (String × ℝ)
  prescribed : Array (List ℝ)
  scheme : TimeScheme ℝ
  dt : ℝ
  xPrev : Fin n → ℝ
  ratePrev : Fin n → ℝ

namespace StepSetting

/-- The rates that belong to a new state. -/
noncomputable def rate (t : StepSetting n) (x : Fin n → ℝ) : Vec ℝ :=
  t.scheme.rate (List.ofFn x) (List.ofFn t.xPrev) (List.ofFn t.ratePrev) t.dt

noncomputable def stateAt (t : StepSetting n) (weight : ℝ) (x : Fin n → ℝ) : AssemblyState ℝ :=
  ⟨t.parameters, t.prescribed, List.ofFn x, t.rate x, weight⟩

variable {t : StepSetting n} {weight : ℝ}

theorem hasFDerivAt_rate (weighs : t.scheme.weight t.dt = .ok weight) (x : Fin n → ℝ) (i : Nat) :
    HasFDerivAt (fun x => (t.rate x).getD i 0) (weight • coordinate n i) x := by
  simp only [rate, TimeScheme.rate_ofFn, getD_ofFn]
  rw [coordinate]
  split
  · next inside =>
      have slope := TimeScheme.hasDerivAt_rateAt weighs (x ⟨i, inside⟩) (t.xPrev ⟨i, inside⟩) (t.ratePrev ⟨i, inside⟩)
      exact slope.comp_hasFDerivAt x (ContinuousLinearMap.proj (R := ℝ) (⟨i, inside⟩ : Fin n)).hasFDerivAt
  · rw [smul_zero]
    exact hasFDerivAt_const _ _

end StepSetting

namespace Block

variable {b : Block ℝ} {t : StepSetting n} {weight : ℝ} {s : Setting} {e : Nat} {p : PointData ℝ}

/-- How the value of an unknown at a point depends on the state. -/
noncomputable def slope (n : Nat) (b : Block ℝ) (weight : ℝ) (s : Setting) (e : Nat) (p : PointData ℝ) :
    Quantity → (Fin n → ℝ) →L[ℝ] ℝ
  | .unknown name comps timeOrder axis =>
    ∑ a ∈ range b.tab.basisCount, p.basisAt axis a • (if timeOrder = 0 then (1 : ℝ) else weight) •
      (b.numberAt e a (s.internal.columnOf name comps)).elim 0 (coordinate n)
  | _ => 0

/-- Where rates change by a weight times the values, all values at a point change by their slopes. -/
theorem changes_of_rates (state : AssemblyState ℝ) {rate : (Fin n → ℝ) → Vec ℝ} {x : Fin n → ℝ}
    (rates : ∀ i, HasFDerivAt (fun z => (rate z).getD i 0) (weight • coordinate n i) x) :
    Changes (fun z => (b.dataAt { state with x := List.ofFn z, rate := rate z }).value s b.tab.basisCount e p)
      (b.slope n weight s e p) x where
  moving := by
    intro q moving
    cases q with
    | unknown name comps timeOrder axis =>
        by_cases still : timeOrder = 0
        · simp only [FieldData.value, if_pos still, NodalValues.interpolate, slope, dataAt, one_smul]
          refine HasFDerivAt.fun_sum fun a _ => HasFDerivAt.const_mul ?_ _
          simp only [entry_gather, getD_ofFn]
          cases b.numberAt e a (s.internal.columnOf name comps) with
          | none => exact hasFDerivAt_const _ _
          | some i => exact (coordinate n i).hasFDerivAt
        · simp only [FieldData.value, if_neg still, NodalValues.interpolate, slope, dataAt]
          refine HasFDerivAt.fun_sum fun a _ => HasFDerivAt.const_mul ?_ _
          simp only [entry_gather]
          cases b.numberAt e a (s.internal.columnOf name comps) with
          | none =>
              rw [Option.elim_none, smul_zero]
              exact hasFDerivAt_const _ _
          | some i => exact rates i
    | _ => cases moving
  still := by
    intro q still z
    cases q with
    | unknown name comps timeOrder axis => exact absurd rfl still
    | _ => rfl

theorem changes (weighs : t.scheme.weight t.dt = .ok weight) (x : Fin n → ℝ) :
    Changes (fun z => (b.dataAt (t.stateAt weight z)).value s b.tab.basisCount e p) (b.slope n weight s e p) x :=
  changes_of_rates (t.stateAt weight x) (StepSetting.hasFDerivAt_rate weighs x)

section Elements

variable {rules : Calculus Quantity} {pairs : List (Formula Quantity × Formula Quantity)} {l : Linearization}
  {row : List Nat} {state : AssemblyState ℝ}

/-- A basis that does not vanish belongs to a component of the kernel. -/
theorem component_lt (spec : Spec rules s pairs l) (built : Kernel.Built l b.kernel)
    (readable : Kernel.Readable b.kernel ((b.dataAt state).inputs b.kernel.paramNames) e p) {q : Quantity}
    (unknown : q ∈ l.unknownList) {a : Nat} (nonzero : p.basisAt q.axisOf a ≠ 0) :
    q.component s < b.kernel.width := by
  rcases List.mem_iff_getElem?.mp unknown with ⟨j, here⟩
  rcases Kernel.slot_of_unknown spec built here with ⟨name, there⟩
  rcases readable _ (List.mem_of_getElem? there) with ⟨x, basis, value, found⟩
  have isUnknown := (Quantity.slot_isUnknown q name (q.component s) q.axisOf).trans (spec.moving_of_getElem? here)
  have bounds := Kernel.row_of_slotValue (inputs_shaped b state _) isUnknown value found
  rw [← Kernel.basisRow_eq_ok found] at nonzero
  have inside : a < basis.length := by
    by_contra outside
    exact nonzero (List.getD_eq_default _ _ (not_lt.mp outside))
  exact (bounds a inside).2

theorem slope_apply (spec : Spec rules s pairs l) (built : Kernel.Built l b.kernel) (numbered : b.Numbered n)
    (here : b.dofs[e]? = some row)
    (readable : Kernel.Readable b.kernel ((b.dataAt state).inputs b.kernel.paramNames) e p) {q : Quantity}
    (unknown : q ∈ l.unknownList) (δ : Fin n → ℝ) :
    b.slope n weight s e p q δ = (if q.source = .rate then weight else 1) *
      ∑ a ∈ range b.tab.basisCount, p.basisAt q.axisOf a *
        coordinate n (row.getD (a * b.kernel.width + q.component s) 0) δ := by
  have moving := ((spec.mem_unknownList q).mp unknown).2
  have component := fun a => component_lt (a := a) spec built readable unknown
  cases q with
  | unknown name comps timeOrder axis =>
      rw [slope, sum_apply, mul_sum]
      refine sum_congr rfl fun a member => ?_
      have factor : (if (Quantity.unknown name comps timeOrder axis).source = .rate then weight else 1) =
          if timeOrder = 0 then 1 else weight := by
        by_cases still : timeOrder = 0 <;> simp [Quantity.source, still]
      rw [factor, Quantity.axisOf, smul_apply, smul_eq_mul]
      by_cases zero : p.basisAt axis a = 0
      · rw [zero, zero_mul, zero_mul, mul_zero]
      · have place := numberAt_eq numbered here (mem_range.mp member) (component a zero)
        rw [Quantity.component] at place ⊢
        rw [place, Option.elim_some, smul_apply, smul_eq_mul]
        ring
  | _ => cases moving

/-- Are both sides of every pair smooth at all points of a block? -/
def SmoothAt (s : Setting) (pairs : List (Formula Quantity × Formula Quantity)) (b : Block ℝ)
    (state : AssemblyState ℝ) : Prop :=
  ∀ e points, b.tab.entities[e]? = some points → ∀ p ∈ points, ∀ pair ∈ pairs,
    pair.1.Smooth Moving ((b.dataAt state).value s b.tab.basisCount e p) ∧
      pair.2.Smooth Moving ((b.dataAt state).value s b.tab.basisCount e p)

theorem mem_zip_zipIdx {α β : Type} {rows : List α} {xs : List β} {u : α × β × Nat}
    (member : u ∈ rows.zip xs.zipIdx) : rows[u.2.2]? = some u.1 ∧ xs[u.2.2]? = some u.2.1 := by
  rcases List.mem_iff_getElem?.mp member with ⟨i, here⟩
  rcases List.getElem?_zip_eq_some.mp here with ⟨row, entry⟩
  rw [List.getElem?_zipIdx, Option.map_eq_some_iff] at entry
  rcases entry with ⟨x, found, same⟩
  rw [← same, zero_add]
  exact ⟨row, found⟩

theorem Yields.readable {d : FieldData} {cs : List (Contribution ℝ)} (yields : b.Yields d weight cs)
    {points : List (PointData ℝ)} (here : b.tab.entities[e]? = some points) :
    ∀ p ∈ points, Kernel.Readable b.kernel (d.inputs b.kernel.paramNames) e p := by
  rcases yields.systems with ⟨systems, _, matched⟩
  have zipped : b.tab.entities.zipIdx[e]? = some (points, e) := by
    rw [List.getElem?_zipIdx, here]
    simp
  rcases Outcome.getElem?_of_matched matched zipped with ⟨system, _, done⟩
  exact Kernel.elementSystem_isOk_iff.mp ⟨system, done⟩

/-- What a block adds to the residual has the derivative that it adds to the tangent. -/
theorem hasSlope_total (lawful : rules.Lawful) (spec : Spec rules s pairs l) (built : Kernel.Built l b.kernel)
    (numbered : b.Numbered n) (weighs : t.scheme.weight t.dt = .ok weight) {x : Fin n → ℝ}
    {cs : List (Contribution ℝ)} (yields : b.Yields (b.dataAt (t.stateAt weight x)) weight cs)
    (smooth : b.SmoothAt s pairs (t.stateAt weight x)) (φ : Nat → ℝ) :
    HasSlope
      (fun z => b.total fun e row => b.kernel.pointResidual
        ((b.dataAt (t.stateAt weight z)).inputs b.kernel.paramNames) b.tab.basisCount e
        fun i => φ (row.getD i 0))
      (fun δ => b.total fun e row => b.kernel.pointTangent
        ((b.dataAt (t.stateAt weight x)).inputs b.kernel.paramNames) weight b.tab.basisCount e
        fun i j => φ (row.getD i 0) * coordinate n (row.getD j 0) δ) x := by
  refine HasSlope.sum_map fun u member => HasSlope.sum_map fun p present => ?_
  rcases mem_zip_zipIdx member with ⟨row, points⟩
  refine Kernel.hasFDerivAt_pointResidual lawful spec built (changes weighs x)
    (smooth u.2.2 u.2.1 points p present) (fun i => φ (u.1.getD i 0))
    (ψ := fun δ j => coordinate n (u.1.getD j 0) δ) fun q unknown δ => ?_
  exact slope_apply spec built numbered row (yields.readable points p present) unknown δ

end Elements

/-! ### Systems -/

theorem gather_like (b : Block ℝ) (x y : Vec ℝ) : Kernel.Like (b.gather x) (b.gather y) where
  elements := rfl
  points := rfl
  width := rfl
  size := by simp [gather]

/-- Whether a block can be evaluated does not depend on the unknowns. -/
theorem contributions_isOk {x y : Fin n → ℝ} {cs : List (Contribution ℝ)}
    (done : b.contributions (t.stateAt weight x) = .ok cs) :
    ∃ other, b.contributions (t.stateAt weight y) = .ok other := by
  obtain ⟨systems, evaluated, -⟩ := Outcome.bind_eq_ok.mp done
  obtain ⟨states, externals, normals, values, valued, -⟩ := Kernel.evaluate_eq_ok.mp evaluated
  refine contributions_of_readable (List.cons.inj states).1 (List.cons.inj externals).1 normals
    (Kernel.isSome_of_paramValues valued) fun e points here p present => ?_
  have readable := (contributions_eq_ok done).readable here p present
  exact readable.of_like _ (gather_like b _ _) (gather_like b _ _) ⟨rfl, rfl, rfl, rfl⟩ rfl

theorem assemble_isOk {blocks : List (Block ℝ)} {x y : Fin n → ℝ} {sys : System ℝ}
    (done : assemble blocks n (t.stateAt weight x) = .ok sys) :
    ∃ other, assemble blocks n (t.stateAt weight y) = .ok other := by
  obtain ⟨parts, mapped, -⟩ := Outcome.bind_eq_ok.mp done
  refine assemble_of_contributions fun b member => ?_
  obtain ⟨cs, -, made⟩ := Outcome.exists_of_matched_left (Outcome.mapM_eq_ok.mp mapped) member
  exact contributions_isOk made

/-- A block whose kernel is that of a form, with derivatives at all points. -/
def Regular (rules : Calculus Quantity) (b : Block ℝ) (state : AssemblyState ℝ) : Prop :=
  ∃ s name boundary form pairs, Kernel.ofForm rules s name boundary form = .ok b.kernel ∧
    WeakForm.expand s name form = .ok pairs ∧ b.SmoothAt s pairs state

theorem Regular.keyed {rules : Calculus Quantity} (lawful : rules.Lawful) {state : AssemblyState ℝ}
    (regular : b.Regular rules state) : Kernel.Keyed b.kernel := by
  rcases regular with ⟨s, name, boundary, form, _, compiled, _⟩
  rcases Kernel.ofForm_eq_ok lawful compiled with ⟨_, l, _, spec, built⟩
  exact Kernel.keyed spec built

/-- The weighted residual has the derivative that the weighted tangent holds. -/
theorem hasSlope_assemble {rules : Calculus Quantity} (lawful : rules.Lawful) {blocks : List (Block ℝ)}
    (weighs : t.scheme.weight t.dt = .ok weight) {x : Fin n → ℝ} {sys : System ℝ}
    (done : assemble blocks n (t.stateAt weight x) = .ok sys)
    (sound : ∀ b ∈ blocks, b.Numbered n ∧ b.Regular rules (t.stateAt weight x))
    {R : (Fin n → ℝ) → System ℝ} (systems : ∀ y, assemble blocks n (t.stateAt weight y) = .ok (R y))
    (φ : Nat → ℝ) :
    HasSlope (fun y => weighted φ (R y).residual.toArray)
      (fun δ => sys.tangent.weigh n fun i j => φ i * coordinate n j δ) x := by
  have keyed := fun b member => And.intro (sound b member).1 ((sound b member).2.keyed lawful)
  have residual := fun y => (assemble_eq_ok keyed (systems y)).2.1 φ
  have tangent := fun δ => (assemble_eq_ok keyed done).2.2 fun i j => φ i * coordinate n j δ
  simp only [residual, tangent]
  rcases Outcome.bind_eq_ok.mp done with ⟨parts, mapped, _⟩
  refine HasSlope.sum_map fun b member => ?_
  rcases sound b member with ⟨numbered, s, name, boundary, form, pairs, compiled, expanded, smooth⟩
  rcases Kernel.ofForm_eq_ok lawful compiled with ⟨others, l, again, spec, built⟩
  cases expanded.symm.trans again
  rcases Outcome.exists_of_matched_left (Outcome.mapM_eq_ok.mp mapped) member with ⟨cs, _, made⟩
  exact hasSlope_total lawful spec built numbered weighs (contributions_eq_ok made) smooth φ

end Block

/-- A sparse matrix as a linear map. -/
noncomputable def Linear.SparseMatrix.linear (n : Nat) (m : SparseMatrix ℝ) : (Fin n → ℝ) →L[ℝ] (Fin n → ℝ) :=
  (Matrix.toLin' (Matrix.of fun i j : Fin n => m.get i j)).toContinuousLinearMap

/-- The weights of one row. -/
theorem Linear.SparseMatrix.weigh_row (m : SparseMatrix ℝ) (i : Fin n) (δ : Fin n → ℝ) :
    m.weigh n (fun r c => (if r = i then 1 else 0) * coordinate n c δ) = m.linear n δ i := by
  rw [weigh_single m i.isLt, sum_range]
  simp only [coordinate_fin]
  rw [linear, LinearMap.coe_toContinuousLinearMap', Matrix.toLin'_apply, Matrix.mulVec, dotProduct]
  exact sum_congr rfl fun j _ => mul_comm _ _

namespace Block

variable {t : StepSetting n} {weight : ℝ} {rules : Calculus Quantity} {blocks : List (Block ℝ)}

/-- The tangent of a system is the derivative of its residual, which there is for all unknowns. -/
theorem hasFDerivAt_assemble (lawful : rules.Lawful) (weighs : t.scheme.weight t.dt = .ok weight)
    {x : Fin n → ℝ} {sys : System ℝ} (done : assemble blocks n (t.stateAt weight x) = .ok sys)
    (sound : ∀ b ∈ blocks, b.Numbered n ∧ b.Regular rules (t.stateAt weight x)) :
    ∃ R : (Fin n → ℝ) → Fin n → ℝ,
      (∀ y, ∃ other, assemble blocks n (t.stateAt weight y) = .ok other ∧ other.residual = List.ofFn (R y)) ∧
      HasFDerivAt R (sys.tangent.linear n) x := by
  choose systems assembled using fun y => assemble_isOk (y := y) done
  have keyed := fun b member => And.intro (sound b member).1 ((sound b member).2.keyed lawful)
  have length := fun y => (assemble_eq_ok keyed (assembled y)).1
  refine ⟨fun y i => (systems y).residual.getD i 0, fun y => ⟨systems y, assembled y, ?_⟩, ?_⟩
  · refine List.ext_getElem (by simp [length y]) fun i left right => ?_
    rw [List.getElem_ofFn]
    exact (List.getD_eq_getElem _ _ left).symm
  · refine hasFDerivAt_pi'' fun i => ?_
    rcases hasSlope_assemble lawful weighs done sound assembled fun r => if r = i then 1 else 0 with
      ⟨L, slope, value⟩
    have row : (ContinuousLinearMap.proj i).comp (sys.tangent.linear n) = L := by
      refine ContinuousLinearMap.ext fun δ => ?_
      exact ((value δ).trans (SparseMatrix.weigh_row sys.tangent i δ)).symm
    have entry (y : Fin n → ℝ) : weighted (fun r => if r = i then 1 else 0) (systems y).residual.toArray =
        (systems y).residual.getD i 0 := by
      rw [weighted_single (by simp [length y])]
      simp [Array.getD_eq_getD_getElem?]
    simp only [entry] at slope
    rw [row]
    exact slope

end Block

end Galerkin
