import Mathlib
import Galerkin.Proofs.Element.Nodal
import Galerkin.Proofs.Kernel.Evaluation
import Galerkin.Proofs.Tabulation

/-!
Tabulated bases sum to one and their gradients in space to zero, at every point of an element and of its facets.

An element reproduces a map whose coordinates combine the monomials of its space: with the images of the nodes as
control points, the places and Jacobians are those of the map. So the faces of a hexahedron can be warped.
-/

namespace Galerkin

open Finset

/-- A basis of `count` functions that sum to one and their derivatives, which sum to zero. -/
structure PointData.Unital (count : Nat) (p : PointData ℝ) : Prop where
  basis : p.basis.length = count
  gradients : p.gradients.length = count
  sum : ∀ axis, ∑ a ∈ range count, p.basisAt axis a = if axis = none then 1 else 0

namespace Kernel

theorem length_basisRow {p : PointData ℝ} {axis : Option Nat} {row : List ℝ} (found : basisRow p axis = .ok row) :
    row.length = if axis = none then p.basis.length else p.gradients.length := by
  cases axis with
  | none =>
      cases found
      rfl
  | some j => exact (Outcome.mapM_eq_ok.mp found).length_eq.symm

end Kernel

theorem sum_range_getD {row : List ℝ} {count : Nat} (length : row.length = count) :
    ∑ a ∈ range count, row.getD a 0 = row.sum := by
  rw [← length, sum_range, ← Fin.sum_univ_getElem]
  exact sum_congr rfl fun a _ => List.getD_eq_getElem _ _ a.isLt

theorem PointData.Unital.sum_row {count : Nat} {p : PointData ℝ} (unital : p.Unital count) {axis : Option Nat}
    {row : List ℝ} (found : Kernel.basisRow p axis = .ok row) : row.sum = if axis = none then 1 else 0 := by
  have length : row.length = count := by
    rw [Kernel.length_basisRow found, unital.basis, unital.gradients, ite_self]
  rw [← unital.sum axis, ← sum_range_getD length]
  exact sum_congr rfl fun a _ => Kernel.basisRow_eq_ok found a

namespace Tabulation

variable {k : Element.Kind} {cell : Cell} {e : Element} {dim : Nat} {rule : Rule ℝ} {net : List (List ℝ)}
  {data : List (PointData ℝ)}

theorem sum_zipWith_rows {gradient : List ℝ} {rows : List (List ℝ)} {axes : Nat} (short : gradient.length ≤ axes) (j : Nat) :
    (List.zipWith (fun g row => g * row.getD j 0) gradient rows).sum =
      ∑ i ∈ range axes, gradient.getD i 0 * (rows.getD i []).getD j 0 := by
  induction gradient generalizing rows axes with
  | nil =>
      rw [List.zipWith_nil_left, List.sum_nil]
      exact (sum_eq_zero fun i _ => by rw [List.getD_nil, zero_mul]).symm
  | cons g gradient ih =>
      cases rows with
      | nil =>
          rw [List.zipWith_nil_right, List.sum_nil]
          exact (sum_eq_zero fun i _ => by rw [List.getD_nil, List.getD_nil, mul_zero]).symm
      | cons row rows =>
          cases axes with
          | zero => exact absurd short (Nat.not_succ_le_zero _)
          | succ axes =>
              rw [List.zipWith_cons_cons, List.sum_cons, ih (Nat.le_of_succ_le_succ short), sum_range_succ', add_comm]
              rfl

/-- An entry of a gradient in space: a combination of the entries of the gradient in reference coordinates. -/
theorem getD_physical {inverse : List (List ℝ)} {gradient : List ℝ} {axes : Nat} (short : gradient.length ≤ axes) (j : Nat) :
    (physical inverse dim gradient).getD j 0 =
      if j < dim then ∑ i ∈ range axes, gradient.getD i 0 * (inverse.getD i []).getD j 0 else 0 := by
  rw [← sum_zipWith_rows short]
  by_cases inside : j < dim
  · simp [physical, inside, total_eq_sum]
  · simp [physical, inside]

theorem length_gradients {x : List ℝ} : ∀ g ∈ e.gradients x, g.length = e.dim := by
  intro g member
  cases List.mem_map.mp member with
  | intro p both =>
      rw [← both.2, List.length_map, List.length_range]

/-- The gradients in space of the functions of a basis, from those in the cell. -/
theorem basisAt_physical {x : List ℝ} {inverse : List (List ℝ)} {p : PointData ℝ}
    (gradients : p.gradients = (e.gradients x).map (physical inverse dim)) {a : Nat} (inside : a < e.size) (j : Nat) :
    p.basisAt (some j) a = if j < dim then
      ∑ i ∈ range e.dim, ((e.gradients x).getD a []).getD i 0 * (inverse.getD i []).getD j 0 else 0 := by
  have there : a < (e.gradients x).length := by
    rw [Element.gradients, List.length_map]
    exact inside
  have short : ((e.gradients x).getD a []).length ≤ e.dim := by
    rw [List.getD_eq_getElem _ _ there]
    exact (length_gradients _ (List.getElem_mem there)).le
  rw [← getD_physical short, PointData.basisAt, gradients]
  simp [there]

/-- The map of an element keeps sums of the basis. -/
theorem unital_of_reference (known : Element.OfKind k cell e) (x : List ℝ) (inverse : List (List ℝ)) {p : PointData ℝ}
    (basis : p.basis = e.values x) (gradients : p.gradients = (e.gradients x).map (physical inverse dim)) :
    p.Unital e.size := by
  refine ⟨?_, ?_, fun axis => ?_⟩
  · rw [basis, Element.values, List.length_map, Element.size]
  · rw [gradients, List.length_map, Element.gradients, List.length_map, Element.size]
  cases axis with
  | none =>
      simp only [PointData.basisAt, basis]
      exact known.sum_values x
  | some j =>
      rw [sum_congr rfl fun a member => basisAt_physical gradients (mem_range.mp member) j, if_neg (Option.some_ne_none j)]
      by_cases inside : j < dim
      · simp only [if_pos inside]
        rw [sum_comm]
        refine sum_eq_zero fun i _ => ?_
        rw [← sum_mul, known.sum_gradients, zero_mul]
      · simp only [if_neg inside, sum_const_zero]

end Tabulation

/-! ### Reproduced maps -/

namespace Element

/-- A function, with its derivatives, that the basis combines with its values at the nodes. -/
structure Reproduces (e : Element) (f : List ℝ → ℝ) (slope : Nat → List ℝ → ℝ) : Prop where
  value : ∀ x, ∑ a ∈ range e.nodes.length, f (realPoint (e.nodes.getD a [])) * (e.basis.getD a []).eval x = f x
  derivative : ∀ axis x, ∑ a ∈ range e.nodes.length,
    f (realPoint (e.nodes.getD a [])) * ((e.basis.getD a []).derivative axis).eval x = slope axis x

variable {k : Kind} {cell : Cell} {e : Element}

theorem OfKind.reproduces (known : OfKind k cell e) {p : Polynomial} (within : ∀ m ∈ p, m.exponents ∈ k.exponents cell) :
    e.Reproduces p.eval fun axis => (p.derivative axis).eval where
  value := known.nodal.sum_eval within
  derivative := known.nodal.sum_derivative within

/-- What a polynomial adds up to over the nodes. -/
theorem OfKind.sum_nodes (known : OfKind k cell e) (p : Polynomial) :
    (e.nodes.map fun a => p.eval (realPoint a)).sum = (((k.points cell).map p.eval).sum : ℚ) := by
  calc (e.nodes.map fun a => p.eval (realPoint a)).sum
      = ((k.points cell).map fun a => ((p.eval a : ℚ) : ℝ)).sum := by
        simp only [Polynomial.eval_cast]
        exact (known.nodes.map _).sum_eq
    _ = (((k.points cell).map p.eval).sum : ℚ) := by
        rw [Rat.cast_list_sum, List.map_map]
        rfl

theorem Reproduces.add_mul {f g : List ℝ → ℝ} {slope slope' : Nat → List ℝ → ℝ} (first : e.Reproduces f slope) (c : ℝ)
    (second : e.Reproduces g slope') :
    e.Reproduces (fun x => f x + c * g x) fun axis x => slope axis x + c * slope' axis x where
  value x := by
    rw [← first.value x, ← second.value x, mul_sum, ← sum_add_distrib]
    exact sum_congr rfl fun a _ => by ring
  derivative axis x := by
    rw [← first.derivative axis x, ← second.derivative axis x, mul_sum, ← sum_add_distrib]
    exact sum_congr rfl fun a _ => by ring

end Element

namespace Tabulation

theorem sum_zipWith_getD {α β : Type} {f : α → β → ℝ} {xs : List α} {ys : List β} (same : xs.length = ys.length)
    (x : α) (y : β) : (List.zipWith f xs ys).sum = ∑ a ∈ range ys.length, f (xs.getD a x) (ys.getD a y) := by
  have size : (List.zipWith f xs ys).length = ys.length := by simp [same]
  rw [← sum_range_getD size]
  refine sum_congr rfl fun a member => ?_
  have right : a < ys.length := mem_range.mp member
  have left : a < xs.length := same ▸ right
  simp [left, right]

section Map

variable {k : Element.Kind} {cell : Cell} {e : Element} {dim : Nat} {f : Nat → List ℝ → ℝ}
  {slope : Nat → Nat → List ℝ → ℝ} {control : List ℚ → List ℝ}

/-- The map of the images of the nodes is the map that they are images under. -/
theorem interpolate_nodes (known : Element.OfKind k cell e) (reproduced : ∀ i < dim, e.Reproduces (f i) (slope i))
    (images : ∀ a ∈ e.nodes, ∀ i < dim, (control a).getD i 0 = f i (realPoint a)) (x : List ℝ) :
    interpolate dim (e.values x) (e.nodes.map control) = (List.range dim).map fun i => f i x := by
  refine List.map_congr_left fun i member => ?_
  have inside := List.mem_range.mp member
  rw [Element.values, List.zipWith_map, total_eq_sum, sum_zipWith_getD known.nodal.length [] [],
    ← (reproduced i inside).value x]
  refine sum_congr rfl fun a among => ?_
  rw [images _ (by simp [List.getElem?_eq_getElem (mem_range.mp among), List.getD_eq_getElem?_getD]) i inside, mul_comm]

theorem jacobian_nodes (known : Element.OfKind k cell e) (reproduced : ∀ i < dim, e.Reproduces (f i) (slope i))
    (images : ∀ a ∈ e.nodes, ∀ i < dim, (control a).getD i 0 = f i (realPoint a)) (x : List ℝ) :
    jacobian dim e.dim (e.nodes.map control) (e.gradients x) =
      (List.range dim).map fun i => (List.range e.dim).map fun j => slope i j x := by
  refine List.map_congr_left fun i row => List.map_congr_left fun j column => ?_
  have inside := List.mem_range.mp row
  rw [Element.gradients, List.zipWith_map, List.zipWith_comm, total_eq_sum, sum_zipWith_getD known.nodal.length [] [],
    ← (reproduced i inside).derivative j x]
  refine sum_congr rfl fun a among => ?_
  rw [images _ (by simp [List.getElem?_eq_getElem (mem_range.mp among), List.getD_eq_getElem?_getD]) i inside]
  simp [List.mem_range.mp column]

end Map

/-! ### Warped hexahedra -/

/-- The image of a point under (ξ, η, ζ + wξη). -/
noncomputable def warp (w : ℝ) : List ℝ → List ℝ
  | [s, t, u] => [s, t, u + w * (s * t)]
  | x => x

/-- The control points of a warped hexahedron. -/
noncomputable def warpedNet (e : Element) (w : ℝ) : List (List ℝ) := e.nodes.map fun a => warp w (realPoint a)

/-- The coordinates of a cube. -/
def straight : List Polynomial := [[⟨1, [1, 0, 0]⟩], [⟨1, [0, 1, 0]⟩], [⟨1, [0, 0, 1]⟩]]

/-- What a warp adds to the coordinates. -/
def bent : List Polynomial := [[], [], [⟨1, [1, 1, 0]⟩]]

section Warped

variable {k : Element.Kind} {e : Element}

theorem straight_within (k : Element.Kind) :
    ∀ i < 3, ∀ m ∈ straight.getD i [], m.exponents ∈ k.exponents .hex := by
  cases k <;> decide +kernel

theorem bent_within (k : Element.Kind) : ∀ i < 3, ∀ m ∈ bent.getD i [], m.exponents ∈ k.exponents .hex := by
  cases k <;> decide +kernel

theorem length_points (k : Element.Kind) : ∀ a ∈ k.points .hex, a.length = 3 := by
  cases k <;> decide +kernel

/-- The nodes of a cube lie around its center. -/
theorem sum_points (k : Element.Kind) : ∀ i < 3, ((k.points .hex).map (straight.getD i []).eval).sum = 0 ∧
    ((k.points .hex).map (bent.getD i []).eval).sum = 0 := by
  cases k <;> decide +kernel

theorem getD_warp (w : ℝ) {x : List ℝ} (sized : x.length = 3) {i : Nat} (inside : i < 3) :
    (warp w x).getD i 0 = (straight.getD i []).eval x + w * (bent.getD i []).eval x := by
  obtain ⟨s, t, u, rfl⟩ := List.length_eq_three.mp sized
  match i with
  | 0 | 1 | 2 => simp [warp, straight, bent, Monomial.powers, natPow_eq_pow]

theorem reproduces_warp (known : Element.OfKind k .hex e) (w : ℝ) {i : Nat} (inside : i < 3) :
    e.Reproduces (fun x => (straight.getD i []).eval x + w * (bent.getD i []).eval x) fun axis x =>
      ((straight.getD i []).derivative axis).eval x + w * ((bent.getD i []).derivative axis).eval x :=
  (known.reproduces (straight_within k i inside)).add_mul w (known.reproduces (bent_within k i inside))

theorem images_warp (known : Element.OfKind k .hex e) (w : ℝ) : ∀ a ∈ e.nodes, ∀ i < 3,
    (warp w (realPoint a)).getD i 0 = (straight.getD i []).eval (realPoint a) + w * (bent.getD i []).eval (realPoint a) := by
  intro a member i inside
  refine getD_warp w ?_ inside
  rw [realPoint, List.length_map]
  exact length_points k a (known.nodes.mem_iff.mp member)

theorem interpolate_warpedNet (known : Element.OfKind k .hex e) (w : ℝ) {x : List ℝ} (sized : x.length = 3) :
    interpolate 3 (e.values x) (warpedNet e w) = warp w x := by
  rw [warpedNet, interpolate_nodes known (fun i inside => reproduces_warp known w inside) (images_warp known w)]
  obtain ⟨s, t, u, rfl⟩ := List.length_eq_three.mp sized
  simp [warp, straight, bent, Monomial.powers, natPow_eq_pow, List.range_succ]

/-- The Jacobian of a warp, whose determinant is one. -/
theorem jacobian_warpedNet (known : Element.OfKind k .hex e) (w s t u : ℝ) :
    jacobian 3 e.dim (warpedNet e w) (e.gradients [s, t, u]) = [[1, 0, 0], [0, 1, 0], [w * t, w * s, 1]] := by
  rw [warpedNet, jacobian_nodes known (fun i inside => reproduces_warp known w inside) (images_warp known w)]
  simp [Element.dim, known.shape, Cell.dim, straight, bent, Polynomial.eval_derivative, Monomial.derivative,
    Monomial.powers, natPow_eq_pow, List.range_succ]

theorem centroid_warpedNet (known : Element.OfKind k .hex e) (w : ℝ) : centroid 3 (warpedNet e w) = [0, 0, 0] := by
  have zero : ∀ i < 3, Arithmetic.sumOf (warpedNet e w) (·.getD i 0) = 0 := by
    intro i inside
    have terms : (warpedNet e w).map (·.getD i 0) = e.nodes.map fun a =>
        (straight.getD i []).eval (realPoint a) + w * (bent.getD i []).eval (realPoint a) := by
      rw [warpedNet, List.map_map]
      exact List.map_congr_left fun a member => images_warp known w a member i inside
    rw [Arithmetic.sumOf, total_eq_sum, terms, List.sum_map_add, List.sum_map_mul_left, known.sum_nodes,
      known.sum_nodes, (sum_points k i inside).1, (sum_points k i inside).2, Rat.cast_zero, mul_zero, add_zero]
  simp only [centroid, List.range_succ, List.range_zero, List.nil_append, List.cons_append, List.map_cons, List.map_nil,
    zero _ (by decide : 0 < 3), zero _ (by decide : 1 < 3), zero _ (by decide : 2 < 3), zero_div]

end Warped

end Tabulation

end Galerkin
