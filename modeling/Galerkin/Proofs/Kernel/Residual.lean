import Mathlib
import Galerkin.Proofs.Formula.Textbook
import Galerkin.Proofs.Kernel.Reading
import Galerkin.Proofs.Kernel.Shapes
import Galerkin.Proofs.WeakForm.Ranges

/-!
Compilation preserves the residual: what a kernel computes for an element is what the pairs of the form
say, with every quantity read directly.
-/

namespace Galerkin

open Finset
open Linearization (Spec Moving unknownList)

/-- The derivative of the test side of a pair by an unknown, times the trial side. -/
noncomputable def pairDensity (v : Quantity → ℝ) (q : Quantity)
    (pair : Formula Quantity × Formula Quantity) : ℝ :=
  deriv (fun t => pair.1.eval (Function.update v q t)) (v q) * pair.2.eval v

/-- The unknowns among the variables of some pairs that stand for a component. -/
def unknownsOf (s : Setting) (pairs : List (Formula Quantity × Formula Quantity)) (c : Nat) :
    Finset Quantity :=
  (pairs.flatMap fun pair => pair.1.atoms ++ pair.2.atoms).toFinset.filter fun q =>
    q.isUnknown = true ∧ q.component s = c

/-- Rates and external values that are not given are zero. -/
noncomputable def FieldData.given (s : Setting) (tab : Tabulation ℝ) (state : NodalValues ℝ)
    (rate external : Option (NodalValues ℝ)) (parameters : List (String × ℝ)) : FieldData :=
  ⟨state, rate.getD (.zeros tab.entities.length tab.basisCount s.internal.width),
    external.getD (.zeros tab.entities.length tab.basisCount s.external.width), parameters⟩

/-- Values for all elements and control points of a tabulation. -/
structure FieldData.Sized (d : FieldData) (s : Setting) (elements points : Nat) : Prop where
  state : d.state.Sized elements points s.internal.width
  rate : d.rate.Sized elements points s.internal.width
  external : d.external.Sized elements points s.external.width

namespace Kernel

variable {rules : Calculus Quantity} {s : Setting}
  {pairs : List (Formula Quantity × Formula Quantity)} {l : Linearization} {k : Kernel}
  {d : FieldData} {count e : Nat} {p : PointData ℝ}

theorem inputs_shaped (spec : Spec rules s pairs l) (built : Built l k) {elements : Nat}
    (sized : d.Sized s elements count) (names : List String) : (d.inputs names).Shaped k count where
  statePoints := sized.state.points
  stateWidth := by rw [built.width, spec.internal]; exact sized.state.width
  ratePoints := sized.rate.points
  rateWidth := by rw [built.width, spec.internal]; exact sized.rate.width
  externalPoints := sized.external.points

/-! ### Success -/

/-- The slot of a quantity can be read. -/
theorem slotValue_isOk (spec : Spec rules s pairs l) {elements : Nat} (sized : d.Sized s elements count)
    (element : e < elements) (shaped : p.Shaped s.dim count) {q : Quantity}
    (member : q ∈ l.table.quantities) (inside : q.InRange s)
    (normal : q.isNormal = true → p.normal.length = s.dim) (name : String) :
    ∃ x row, slotValue (d.inputs l.table.paramNames) e p
        ⟨name, q.source, l.table.columnOf q, q.axisOf⟩ = .ok x ∧ basisRow p q.axisOf = .ok row := by
  have read {v : NodalValues ℝ} {width column : Nat} (fits : v.Sized elements count width)
      (bound : column < width) {axis : Option Nat} {row : List ℝ} (length : row.length = count)
      (found : basisRow p axis = .ok row) :
      ∃ x, (do interpolated v e column (← basisRow p axis)) = .ok x := by
    rcases interpolated_isOk fits element bound length.le with ⟨x, value⟩
    exact ⟨x, Outcome.bind_eq_ok.mpr ⟨row, found, value⟩⟩
  cases q with
  | unknown field comps timeOrder axis =>
      rcases basisRow_isOk shaped inside.2 with ⟨row, found, length⟩
      have column := inside.1
      by_cases still : timeOrder = 0
      · rcases read sized.state column length found with ⟨x, value⟩
        refine ⟨x, row, ?_, found⟩
        simp only [Quantity.source, if_pos still, SymbolTable.columnOf, spec.internal]
        exact value
      · rcases read sized.rate column length found with ⟨x, value⟩
        refine ⟨x, row, ?_, found⟩
        simp only [Quantity.source, if_neg still, SymbolTable.columnOf, spec.internal]
        exact value
  | external field comps axis =>
      rcases basisRow_isOk shaped inside.2 with ⟨row, found, length⟩
      rcases read sized.external inside.1 length found with ⟨x, value⟩
      refine ⟨x, row, ?_, found⟩
      simp only [Quantity.source, SymbolTable.columnOf, spec.external]
      exact value
  | param parameter =>
      have bound : l.table.paramNames.idxOf parameter < (d.inputs l.table.paramNames).params.length := by
        rw [FieldData.inputs, List.length_map]
        exact List.idxOf_lt_length_of_mem (SymbolTable.mem_paramNames.mpr member)
      refine ⟨(d.inputs l.table.paramNames).params[l.table.paramNames.idxOf parameter], p.basis, ?_, rfl⟩
      simp only [slotValue, Quantity.source, SymbolTable.columnOf, List.getElem?_eq_getElem bound]
      rfl
  | normal comp =>
      have bound : comp < p.normal.length := normal rfl ▸ inside
      refine ⟨p.normal[comp], p.basis, ?_, rfl⟩
      simp only [slotValue, Quantity.source, SymbolTable.columnOf, List.getElem?_eq_getElem bound]
      rfl

theorem usesNormal_of_mem (built : Built l k) {q : Quantity} (member : q ∈ l.table.quantities)
    (normal : q.isNormal = true) : k.usesNormal = true := by
  rw [built.usesNormal, SymbolTable.usesNormal, List.any_eq_true]
  rcases List.mem_map.mp member with ⟨entry, present, rfl⟩
  exact ⟨entry, present, normal⟩

theorem inRange_of_mem (spec : Spec rules s pairs l)
    (inside : ∀ pair ∈ pairs, (∀ q ∈ pair.1.atoms, q.InRange s) ∧ ∀ q ∈ pair.2.atoms, q.InRange s)
    {q : Quantity} (known : q ∈ l.table.quantities) : q.InRange s := by
  rcases (spec.members q).mp known with ⟨pair, among, left | right⟩
  · exact (inside pair among).1 q left
  · exact (inside pair among).2 q right

theorem component_lt (spec : Spec rules s pairs l)
    (inside : ∀ pair ∈ pairs, (∀ q ∈ pair.1.atoms, q.InRange s) ∧ ∀ q ∈ pair.2.atoms, q.InRange s)
    {q : Quantity} (unknown : q ∈ l.unknownList) : q.component s < s.internal.width := by
  rcases (spec.mem_unknownList q).mp unknown with ⟨known, moving⟩
  have range := inRange_of_mem spec inside known
  cases q with
  | unknown field comps timeOrder axis => exact range.1
  | _ => cases moving

theorem readable (spec : Spec rules s pairs l) (built : Built l k)
    (inside : ∀ pair ∈ pairs, (∀ q ∈ pair.1.atoms, q.InRange s) ∧ ∀ q ∈ pair.2.atoms, q.InRange s)
    {elements : Nat} (sized : d.Sized s elements count) (element : e < elements)
    (shaped : p.Shaped s.dim count) (normal : k.usesNormal = true → p.normal.length = s.dim) :
    Readable k (d.inputs k.paramNames) e p := by
  intro slot member
  rcases Outcome.exists_of_matched built.slots member with ⟨q, present, name, found⟩
  have known := SymbolTable.symbolList_perm.mem_iff.mp present
  rw [SymbolTable.slot_eq_ok found, built.paramNames]
  exact slotValue_isOk spec sized element shaped known (inRange_of_mem spec inside known)
    (fun is => normal (usesNormal_of_mem built known is)) name

/-! ### Values -/

/-- The densities of a point in terms of quantities. -/
theorem density_eq (lawful : rules.Lawful) (spec : Spec rules s pairs l) (built : Built l k)
    (regular : ∀ pair ∈ pairs, pair.1.Smooth Moving (d.value s count e p) ∧
      pair.2.Defined (d.value s count e p)) {i : Nat} {q : Quantity} (here : l.unknownList[i]? = some q) :
    densityOf (k.pointValues (d.inputs k.paramNames) count e p) k.residual i =
      (pairs.map (pairDensity (d.value s count e p) q)).sum := by
  have shared := built.residual (fills spec built d count e p) (spec.residual_defined lawful regular) i
  exact shared.trans (spec.residual_value lawful regular here)

theorem pointResidual_eq (lawful : rules.Lawful) (spec : Spec rules s pairs l) (built : Built l k)
    (regular : ∀ pair ∈ pairs, pair.1.Smooth Moving (d.value s count e p) ∧
      pair.2.Defined (d.value s count e p)) (φ : Nat → ℝ) :
    k.pointResidual (d.inputs k.paramNames) count e φ p =
      (l.unknownList.map fun q => p.weight * (pairs.map (pairDensity (d.value s count e p) q)).sum *
        ∑ a ∈ range count, p.basisAt q.axisOf a * φ (a * k.width + q.component s)).sum := by
  refine sum_unknowns built fun i q here => ?_
  rw [density_eq lawful spec built regular here, tested, axisOf_of_unknown spec built here,
    column_of_unknown spec built here]

theorem sum_unknownsOf (spec : Spec rules s pairs l) (c : Nat) (g : Quantity → ℝ) :
    (l.unknownList.map fun q => if q.component s = c then g q else 0).sum =
      ∑ q ∈ unknownsOf s pairs c, g q := by
  rw [← List.sum_toFinset _ (nodup_unknownList spec), ← sum_filter]
  refine sum_congr (Finset.ext fun q => ?_) fun _ _ => rfl
  simp only [unknownsOf, mem_filter, List.mem_toFinset, spec.mem_unknownList, spec.members,
    List.mem_flatMap, List.mem_append, and_assoc]

section Mass

/-- A scalar field on a line. -/
def line : Setting := ⟨1, ⟨1, [⟨"u", 0, false⟩]⟩, .empty 1⟩

/-- One point, a third of the way through an element with two control points. -/
noncomputable def thirdPoint : PointData ℝ := ⟨[(2 / 3 : ℚ), (1 / 3 : ℚ)], [[-1], [1]], (2 : ℚ), [(1 / 3 : ℚ)], []⟩

end Mass

end Kernel

end Galerkin
