import Mathlib
import Galerkin.Proofs.Assembly.Tasks
import Galerkin.Proofs.ElementSpace.Sharing
import Galerkin.Proofs.ElementSpace.Straight
import Galerkin.Proofs.Quadrature

/-!
The divergence theorem for quadrature. On straight triangles, quadrilaterals and tetrahedra an affine field flows out
through the quadrature points of all facets as much as it diverges at those inside. The flux through a facet is the one
through its mean point, and how the rules of the facets and of the cell are refined does not show in either sum.
-/

namespace Galerkin

open Finset Arithmetic

/-! ### Sums of affine functions -/

namespace Quadrature

variable {line : List (ℝ × ℝ)} {n : Nat}

theorem lineSum_affine (gauss : GaussExact n line) (large : 1 < 2 * n) (a b : ℝ) :
    lineSum line (fun r => a + b * r) = 2 * a := by
  have constant := gauss 0 (by omega)
  have linear := gauss 1 large
  calc lineSum line (fun r => a + b * r)
      = a * lineSum line (· ^ 0) + b * lineSum line (· ^ 1) := by
        rw [← lineSum_const_mul, ← lineSum_const_mul, ← lineSum_add]
        exact congrArg (lineSum line) (funext fun r => by ring)
    _ = 2 * a := by
        rw [constant, linear]
        norm_num
        ring

theorem sum_quadRule_affine (gauss : GaussExact n line) (large : 1 < 2 * n) (a b c : ℝ) :
    sum (quadRule line) (fun x => a + b * x.getD 0 0 + c * x.getD 1 0) = 4 * a := by
  have inner (r : ℝ) : lineSum line (fun t => a + b * ([r, t] : List ℝ).getD 0 0 + c * ([r, t] : List ℝ).getD 1 0) =
      2 * a + 2 * b * r := by
    refine (lineSum_affine gauss large (a + b * r) c).trans ?_
    ring
  rw [sum_quadRule]
  simp only [inner]
  rw [lineSum_affine gauss large]
  ring

theorem integral_falling (m : Nat) : ∫ t in (0 : ℝ)..1, (1 - t) ^ m = 1 / (m + 1) := by
  rw [intervalIntegral.integral_comp_sub_left (fun t => t ^ m) 1]
  simp [integral_pow]

theorem betaProduct_values : betaProduct [0, 0] = 1 / 2 ∧ betaProduct [1, 0] = 1 / 6 ∧ betaProduct [0, 1] = 1 / 6 ∧
    betaProduct [0, 0, 0] = 1 / 6 := by
  have tent : ∫ t in (0 : ℝ)..1, t * (1 - t) = 1 / 6 := by
    simp only [mul_sub, mul_one]
    rw [intervalIntegral.integral_sub (Continuous.intervalIntegrable (by fun_prop) _ _) (Continuous.intervalIntegrable (by fun_prop) _ _)]
    simp only [← pow_two]
    norm_num [integral_pow]
  have linear := integral_falling 1
  have square := integral_falling 2
  simp only [pow_one] at linear
  norm_num [betaProduct, tent, linear, square, integral_id]

theorem sum_triRule_affine (gauss : GaussExact n line) (large : 2 < 2 * n) (a b c : ℝ) :
    sum (triRule (onUnit line)) (fun x => a + b * x.getD 0 0 + c * x.getD 1 0) = a / 2 + b / 6 + c / 6 := by
  have split : sum (triRule (onUnit line)) (fun x => a + b * x.getD 0 0 + c * x.getD 1 0) =
      a * sum (triRule (onUnit line)) (Monomial.powers [0, 0]) + b * sum (triRule (onUnit line)) (Monomial.powers [1, 0]) +
        c * sum (triRule (onUnit line)) (Monomial.powers [0, 1]) := by
    simp only [sum_triRule, ← lineSum_const_mul, ← lineSum_add]
    refine congrArg (lineSum _) (funext fun u => congrArg (lineSum _) (funext fun v => ?_))
    simp [Monomial.powers, natPow_eq_pow]
    ring
  rw [split, sum_triRule_powers gauss (by omega), sum_triRule_powers gauss (by omega), sum_triRule_powers gauss (by omega),
    betaProduct_values.1, betaProduct_values.2.1, betaProduct_values.2.2.1]
  ring

theorem sum_tetRule_constant (gauss : GaussExact n line) (large : 2 < 2 * n) (a : ℝ) :
    sum (tetRule (onUnit line)) (fun _ => a) = a / 6 := by
  have powers : sum (tetRule (onUnit line)) (fun _ => a) = sum (tetRule (onUnit line)) (Monomial.powers [0, 0, 0]) * a := by
    simp only [sum_tetRule, Monomial.powers, natPow_eq_pow, pow_zero, one_mul]
    simp only [← lineSum_mul_const, mul_assoc, one_mul]
  rw [powers, sum_tetRule_powers gauss (by omega), betaProduct_values.2.2.2]
  ring

end Quadrature

open Quadrature (GaussExact lineRule quadRule triRule tetRule onUnit)

namespace Tabulation

variable {dim : Nat} {v : Nat → Nat → ℝ}

/-! ### Facets -/

/-- A facet weighs its points with the length of its normal: a point that the mean of the control points is not beyond
counts with the normal itself. -/
theorem weighted_onFacet {tangents j : List (List ℝ)} {center n : List ℝ} {w : ℝ} {p : PointData ℝ}
    (normal : facetNormal dim (tangents.map (image j)) = (n, norm n))
    (ahead : 0 ≤ dot n (Linear.Vec.sub p.position center)) (i : Nat) :
    (onFacet dim tangents center w j p).weight * (onFacet dim tangents center w j p).normal.getD i 0 = w * n.getD i 0 := by
  have images : (tangents.map fun t => j.map fun row => dot row t) = tangents.map (image j) := rfl
  have unit : outward n p.position center = n.map (· / norm n) := by
    refine if_neg (not_lt.mpr ?_)
    have along : dot (n.map (· / norm n)) (Linear.Vec.sub p.position center) = _ := Linear.Vec.dot_map_div _ _ _
    exact along.symm ▸ div_nonneg ahead (Linear.Vec.norm_nonneg n)
  have entry : (n.map (· / norm n)).getD i 0 = n.getD i 0 / norm n := by
    simpa using List.getD_map (f := (· / norm n)) (l := n) (d := 0) (n := i)
  simp only [onFacet, images, normal, unit, entry]
  rcases eq_or_ne (norm n) 0 with zero | nonzero
  · rw [Linear.Vec.eq_zeros_of_norm zero]
    simp [Linear.Vec.zeros]
  · field_simp

/-- The value on a facet of what is affine there, from its values at the corners. -/
noncomputable def facetAt (f : Nat → ℝ) : List Nat → List ℝ → ℝ
  | [i, j], y => half * (f i + f j) + half * (f j - f i) * y.getD 0 0
  | [i, j, k], y => f i + (f j - f i) * y.getD 0 0 + (f k - f i) * y.getD 1 0
  | _, _ => 0

section FacetAt

variable {facet : List Nat} {y : List ℝ}

theorem facetAt_add (f g : Nat → ℝ) : facetAt (fun c => f c + g c) facet y = facetAt f facet y + facetAt g facet y := by
  unfold facetAt
  split
  · ring
  · ring
  · exact (add_zero 0).symm

theorem facetAt_mul (a : ℝ) (f : Nat → ℝ) : facetAt (fun c => a * f c) facet y = a * facetAt f facet y := by
  unfold facetAt
  split
  · ring
  · ring
  · exact (mul_zero a).symm

theorem facetAt_sum {ι : Type} (I : Finset ι) (f : ι → Nat → ℝ) :
    facetAt (fun c => ∑ i ∈ I, f i c) facet y = ∑ i ∈ I, facetAt (f i) facet y := by
  classical
  induction I using Finset.induction_on with
  | empty =>
      have zero : facetAt (fun _ => 0 * 0) facet y = 0 * facetAt (fun _ => 0) facet y := facetAt_mul 0 fun _ => 0
      simpa using zero
  | insert i I fresh ih => simp only [sum_insert fresh, facetAt_add, ih]

theorem facetAt_constant (shape : facet.length = 2 ∨ facet.length = 3) (a : ℝ) : facetAt (fun _ => a) facet y = a := by
  rcases shape with two | three
  · obtain ⟨i, j, rfl⟩ := List.length_eq_two.mp two
    simp [facetAt, half_real]
    ring
  · obtain ⟨i, j, k, rfl⟩ := List.length_eq_three.mp three
    simp [facetAt]

end FacetAt

/-- The Jacobian of a cell whose corners are moved. -/
noncomputable def slopes (c : Cell) (v : Nat → Nat → ℝ) (x : List ℝ) : List (List ℝ) :=
  (List.range c.dim).map fun i => (List.range c.dim).map fun j => c.blendSlope (v i) j x

/-- The images of the tangents of a straight facet. -/
noncomputable def spanning (dim : Nat) (v : Nat → Nat → ℝ) : List Nat → List (List ℝ)
  | [i, j] => [(List.range dim).map fun a => half * (v a j - v a i)]
  | [i, j, k] => [(List.range dim).map fun a => v a j - v a i, (List.range dim).map fun a => v a k - v a i]
  | _ => []

/-- A point of a straight facet. -/
structure OnStraight (c : Cell) (v : Nat → Nat → ℝ) (facet : List Nat) (y x : List ℝ) : Prop where
  blend : ∀ f, c.blend f x = facetAt f facet y
  spanning : (c.facetTangents facet).map (image (slopes c v x)) = spanning c.dim v facet

/-! ### Triangles, quadrilaterals and tetrahedra -/

theorem blend_tri (f : Nat → ℝ) (s t : ℝ) : Cell.tri.blend f [s, t] = f 0 + (f 1 - f 0) * s + (f 2 - f 0) * t := by
  simp [Cell.blend, Cell.cornerCount, Cell.corners, sum_range_succ, Cell.cornerPolynomials, Cell.weightPolynomials,
    Monomial.powers, natPow_eq_pow]
  ring

theorem slopes_tri (x : List ℝ) : slopes .tri v x =
    [[v 0 1 - v 0 0, v 0 2 - v 0 0], [v 1 1 - v 1 0, v 1 2 - v 1 0]] := by
  have one : Monomial.powers [0, 0] x = 1 := Monomial.powers_replicate_zero 2 x
  simp [slopes, Cell.dim, List.range_succ, Cell.blendSlope, Cell.cornerCount, Cell.corners, sum_range_succ,
    Cell.cornerPolynomials, Cell.weightPolynomials, Polynomial.eval_derivative, Monomial.derivative, one]
  refine ⟨⟨?_, ?_⟩, ?_, ?_⟩ <;> ring

theorem blend_quad (f : Nat → ℝ) (s t : ℝ) : Cell.quad.blend f [s, t] =
    ((1 - s) * (1 - t) * f 0 + (1 + s) * (1 - t) * f 1 + (1 + s) * (1 + t) * f 2 + (1 - s) * (1 + t) * f 3) / 4 := by
  simp [Cell.blend, Cell.cornerCount, Cell.corners, sum_range_succ, Cell.cornerPolynomials, Cell.weightPolynomials,
    Monomial.powers, natPow_eq_pow, Rat.mkRat_eq_div]
  ring

theorem slopes_quad (s t : ℝ) : slopes .quad v [s, t] = (List.range 2).map fun i =>
    [((1 - t) * (v i 1 - v i 0) + (1 + t) * (v i 2 - v i 3)) / 4,
      ((1 - s) * (v i 3 - v i 0) + (1 + s) * (v i 2 - v i 1)) / 4] := by
  refine List.map_congr_left fun i _ => ?_
  simp [Cell.dim, List.range_succ, Cell.blendSlope, Cell.cornerCount, Cell.corners, sum_range_succ,
    Cell.cornerPolynomials, Cell.weightPolynomials, Polynomial.eval_derivative, Monomial.derivative, Monomial.powers,
    natPow_eq_pow, Rat.mkRat_eq_div]
  refine ⟨?_, ?_⟩ <;> ring

theorem blend_tet (f : Nat → ℝ) (s t u : ℝ) : Cell.tet.blend f [s, t, u] =
    f 0 + (f 1 - f 0) * s + (f 2 - f 0) * t + (f 3 - f 0) * u := by
  simp [Cell.blend, Cell.cornerCount, Cell.corners, sum_range_succ, Cell.cornerPolynomials,
    Monomial.powers, natPow_eq_pow]
  ring

theorem slopes_tet (x : List ℝ) : slopes .tet v x = (List.range 3).map fun i =>
    [v i 1 - v i 0, v i 2 - v i 0, v i 3 - v i 0] := by
  have one : Monomial.powers [0, 0, 0] x = 1 := Monomial.powers_replicate_zero 3 x
  refine List.map_congr_left fun i _ => ?_
  simp [Cell.dim, List.range_succ, Cell.blendSlope, Cell.cornerCount, Cell.corners, sum_range_succ,
    Cell.cornerPolynomials, Polynomial.eval_derivative, Monomial.derivative, one]
  refine ⟨?_, ?_, ?_⟩ <;> ring

theorem onStraight_tri {facet : List Nat} (among : facet ∈ Cell.tri.facets) {r : ℝ} {x : List ℝ}
    (place : Cell.tri.facetPoint facet [r] = .ok x) : OnStraight .tri v facet [r] x := by
  simp only [Cell.facets, List.mem_cons, List.not_mem_nil, or_false] at among
  rcases among with rfl | rfl | rfl
  all_goals
    cases place
    constructor
    · intro f
      simp [Cell.cornerSum, Cell.corners, Cell.dim, List.range_succ, total_eq_sum, ofInt_real, half_real, blend_tri, facetAt]
      ring
    · rw [slopes_tri]
      simp [Cell.facetTangents, Cell.facetCell, Cell.edgeVector, Cell.corners, image, ofInt_real, half_real, spanning,
        Cell.dim, List.range_succ]
      constructor <;> ring

theorem onStraight_quad {facet : List Nat} (among : facet ∈ Cell.quad.facets) {r : ℝ} {x : List ℝ}
    (place : Cell.quad.facetPoint facet [r] = .ok x) : OnStraight .quad v facet [r] x := by
  simp only [Cell.facets, List.mem_cons, List.not_mem_nil, or_false] at among
  rcases among with rfl | rfl | rfl | rfl
  all_goals
    cases place
    constructor
    · intro f
      simp [Cell.cornerSum, Cell.corners, Cell.dim, List.range_succ, total_eq_sum, ofInt_real, half_real, blend_quad, facetAt]
      ring
    · simp [Cell.cornerSum, Cell.facetTangents, Cell.facetCell, Cell.edgeVector, Cell.corners, image, ofInt_real, half_real,
        spanning, Cell.dim, List.range_succ, total_eq_sum, slopes_quad]
      constructor <;> ring

theorem onStraight_tet {facet : List Nat} (among : facet ∈ Cell.tet.facets) {s t : ℝ} {x : List ℝ}
    (place : Cell.tet.facetPoint facet [s, t] = .ok x) : OnStraight .tet v facet [s, t] x := by
  simp only [Cell.facets, List.mem_cons, List.not_mem_nil, or_false] at among
  rcases among with rfl | rfl | rfl | rfl
  all_goals
    cases place
    constructor
    · intro f
      simp [Cell.cornerSum, Cell.corners, Cell.dim, List.range_succ, total_eq_sum, ofInt_real, blend_tet, facetAt,
        Cell.barycentric] <;> ring
    · rw [slopes_tet]
      simp [Cell.facetTangents, Cell.facetCell, Cell.edgeVector, Cell.corners, image, ofInt_real, spanning,
        Cell.dim, List.range_succ]

/-! ### Normals -/

/-- A normal of a straight facet that is as long as the facet is large. -/
noncomputable def facetVector (dim : Nat) (v : Nat → Nat → ℝ) (facet : List Nat) : List ℝ :=
  (facetNormal dim (spanning dim v facet)).1

/-- How far ahead of the mean of all corners a point is along the normal of a facet. -/
noncomputable def height (c : Cell) (v : Nat → Nat → ℝ) (facet : List Nat) (y : List ℝ) : ℝ :=
  dot (facetVector c.dim v facet) (Linear.Vec.sub ((List.range c.dim).map fun a => facetAt (v a) facet y)
    ((List.range c.dim).map fun a => (∑ i ∈ range c.cornerCount, v a i) / c.cornerCount))

theorem height_tri {facet : List Nat} (among : facet ∈ Cell.tri.facets) (r : ℝ) (x : List ℝ) :
    determinant? (slopes .tri v x) = some (6 * height .tri v facet [r]) := by
  rw [slopes_tri]
  simp only [Cell.facets, List.mem_cons, List.not_mem_nil, or_false] at among
  rcases among with rfl | rfl | rfl
  all_goals
    simp [height, facetVector, facetNormal, spanning, facetAt, half_real, Cell.dim, Cell.cornerCount, Cell.corners, List.range_succ,
      sum_range_succ, Linear.Vec.sub, determinant?]
    ring

/-- In a quadrilateral the height of all points of a facet is the determinant in its middle. -/
theorem height_quad {facet : List Nat} (among : facet ∈ Cell.quad.facets) {r a a' : ℝ} {x x' : List ℝ}
    (place : Cell.quad.facetPoint facet [r] = .ok x) (place' : Cell.quad.facetPoint facet [-r] = .ok x')
    (here : determinant? (slopes .quad v x) = some a) (here' : determinant? (slopes .quad v x') = some a') :
    a + a' = 2 * height .quad v facet [r] := by
  simp only [Cell.facets, List.mem_cons, List.not_mem_nil, or_false] at among
  rcases among with rfl | rfl | rfl | rfl
  all_goals
    cases place
    cases place'
    simp [Cell.dim, Cell.corners, List.range_succ, Cell.cornerSum, total_eq_sum, ofInt_real, half_real, slopes_quad,
      determinant?] at here here'
    rw [← here, ← here']
    simp [height, facetVector, facetNormal, spanning, facetAt, half_real, Cell.dim, Cell.cornerCount, Cell.corners, List.range_succ,
      sum_range_succ, Linear.Vec.sub]
    ring

theorem height_tet {facet : List Nat} (among : facet ∈ Cell.tet.facets) (s t : ℝ) (x : List ℝ) :
    determinant? (slopes .tet v x) = some (4 * height .tet v facet [s, t]) := by
  rw [slopes_tet]
  simp only [Cell.facets, List.mem_cons, List.not_mem_nil, or_false] at among
  rcases among with rfl | rfl | rfl | rfl
  all_goals
    simp [height, facetVector, facetNormal, spanning, facetAt, Cell.dim, Cell.cornerCount, Cell.corners, List.range_succ,
      sum_range_succ, Linear.Vec.sub, determinant?]
    ring

/-- What makes the normals of a straight facet those of its points: they are on it, and ahead of the mean of the corners if
the determinants there are positive. -/
structure Sided (c : Cell) (v : Nat → Nat → ℝ) (facet : List Nat) (rule : Rule ℝ) : Prop where
  points : ∀ q ∈ rule, ∀ x, c.facetPoint facet q.position = .ok x → OnStraight c v facet q.position x
  ahead : (∀ q ∈ rule, ∃ x det, c.facetPoint facet q.position = .ok x ∧ determinant? (slopes c v x) = some det ∧ 0 < det) →
    ∀ q ∈ rule, 0 ≤ height c v facet q.position
  measure : (facetNormal c.dim (spanning c.dim v facet)).2 = norm (facetVector c.dim v facet)

theorem sided_tri {facet : List Nat} (among : facet ∈ Cell.tri.facets) (line : List (ℝ × ℝ)) :
    Sided .tri v facet (Quadrature.lineRule line) where
  points := List.forall_mem_map.mpr fun _ _ _ place => onStraight_tri among place
  ahead positive := List.forall_mem_map.mpr fun t member => by
    obtain ⟨x, det, -, here, above⟩ := positive _ (List.mem_map_of_mem member)
    rw [height_tri among t.1, Option.some_inj] at here
    linarith
  measure := by
    simp only [Cell.facets, List.mem_cons, List.not_mem_nil, or_false] at among
    rcases among with rfl | rfl | rfl <;> rfl

theorem sided_quad {facet : List Nat} (among : facet ∈ Cell.quad.facets) {line : List (ℝ × ℝ)}
    (symmetric : ∀ t ∈ line, (-t.1, t.2) ∈ line) : Sided .quad v facet (Quadrature.lineRule line) where
  points := List.forall_mem_map.mpr fun _ _ _ place => onStraight_quad among place
  ahead positive := List.forall_mem_map.mpr fun t member => by
    obtain ⟨x, det, place, here, above⟩ := positive _ (List.mem_map_of_mem member)
    obtain ⟨x', det', place', here', above'⟩ := positive _ (List.mem_map_of_mem (symmetric t member))
    have middle := height_quad among place place' here here'
    linarith
  measure := by
    simp only [Cell.facets, List.mem_cons, List.not_mem_nil, or_false] at among
    rcases among with rfl | rfl | rfl | rfl <;> rfl

theorem sided_tet {facet : List Nat} (among : facet ∈ Cell.tet.facets) (unit : List (ℝ × ℝ)) :
    Sided .tet v facet (Quadrature.triRule unit) where
  points q member x place := by
    obtain ⟨t, -, inner⟩ := List.mem_flatMap.mp member
    obtain ⟨t', -, rfl⟩ := List.mem_map.mp inner
    exact onStraight_tet among place
  ahead positive q member := by
    obtain ⟨x, det, -, here, above⟩ := positive q member
    obtain ⟨t, -, inner⟩ := List.mem_flatMap.mp member
    obtain ⟨t', -, rfl⟩ := List.mem_map.mp inner
    rw [height_tet among, Option.some_inj] at here
    linarith
  measure := by
    simp only [Cell.facets, List.mem_cons, List.not_mem_nil, or_false] at among
    rcases among with rfl | rfl | rfl | rfl <;> rfl

section Data

variable {k : Element.Kind} {e : Element} {net : List (List ℝ)} {rule : Rule ℝ} {l : Int} {facet : List Nat}
  {data : List (PointData ℝ)}

/-- What is tabulated on a straight facet: places on it, and normals with its own as weighted vector. -/
theorem facetData_straight (straight : Straight e v net) (known : Element.OfKind k e.cell e)
    (found : entry? e.cell.facets l = some facet) (sided : Sided e.cell v facet rule)
    (made : facetData e e.dim rule l net = .ok data) :
    List.Forall₂ (fun q d => (∀ i < e.dim, d.position.getD i 0 = facetAt (v i) facet q.position) ∧
      ∀ i, d.weight * d.normal.getD i 0 = q.weight * (facetVector e.dim v facet).getD i 0) rule data := by
  obtain ⟨facet', found', -, matched⟩ := facetData_onFacet made
  cases found.symm.trans found'
  have jacobian (x : List ℝ) : Tabulation.jacobianAt e e.dim net x = slopes e.cell v x := straight.jacobianAt known x
  have positive : ∀ q ∈ rule, ∃ x det, e.cell.facetPoint facet q.position = .ok x ∧
      determinant? (slopes e.cell v x) = some det ∧ 0 < det := by
    intro q member
    obtain ⟨d, -, x, p, place, ⟨det, here, above⟩, -⟩ := Outcome.exists_of_matched_left matched member
    exact ⟨x, det, place, jacobian x ▸ here, above⟩
  have ahead := sided.ahead positive
  have both := (List.forall₂_and_left _ _).mpr ⟨fun q member => (member : q ∈ rule), matched⟩
  refine both.imp fun q d => ?_
  rintro ⟨member, x, p, place, -, position, rfl⟩
  have point := sided.points q member x place
  have coordinates : p.position = (List.range e.dim).map fun i => facetAt (v i) facet q.position := by
    rw [position, straight.interpolate known]
    exact List.map_congr_left fun i _ => point.blend (v i)
  refine ⟨fun i axis => ?_, weighted_onFacet ?_ ?_⟩
  · have same : (onFacet e.dim (e.cell.facetTangents facet) (centroid e.dim net) q.weight (jacobianAt e e.dim net x)
        p).position = p.position := rfl
    rw [same, coordinates]
    simp [axis]
  · rw [jacobian, point.spanning]
    exact Prod.ext rfl sided.measure
  · rw [coordinates, straight.centroid known]
    exact ahead q member

/-- An affine field at a place. -/
noncomputable def affineField (dim : Nat) (G : Nat → Nat → ℝ) (h : Nat → ℝ) (x : List ℝ) (i : Nat) : ℝ :=
  h i + ∑ j ∈ range dim, G i j * x.getD j 0

/-- What flows out through a point of a facet. -/
noncomputable def flux (dim : Nat) (G : Nat → Nat → ℝ) (h : Nat → ℝ) (d : PointData ℝ) : ℝ :=
  d.weight * ∑ i ∈ range dim, affineField dim G h d.position i * d.normal.getD i 0

/-- What flows along a vector where a corner is. -/
noncomputable def cornerFlux (dim : Nat) (G : Nat → Nat → ℝ) (h : Nat → ℝ) (v : Nat → Nat → ℝ) (n : List ℝ) (c : Nat) : ℝ :=
  ∑ i ∈ range dim, n.getD i 0 * (h i + ∑ j ∈ range dim, G i j * v j c)

/-- The flux through a facet is that of the corners, carried to its points. -/
theorem sum_flux (straight : Straight e v net) (known : Element.OfKind k e.cell e)
    (found : entry? e.cell.facets l = some facet) (sided : Sided e.cell v facet rule)
    (shape : facet.length = 2 ∨ facet.length = 3) (made : facetData e e.dim rule l net = .ok data)
    (G : Nat → Nat → ℝ) (h : Nat → ℝ) : (data.map (flux e.dim G h)).sum =
      Quadrature.sum rule (facetAt (cornerFlux e.dim G h v (facetVector e.dim v facet)) facet) := by
  have points := facetData_straight straight known found sided made
  refine congrArg List.sum (Outcome.map_eq_of_matched (points.imp fun q d => ?_))
  rintro ⟨position, normal⟩
  have carried : facetAt (cornerFlux e.dim G h v (facetVector e.dim v facet)) facet q.position =
      ∑ i ∈ range e.dim, (facetVector e.dim v facet).getD i 0 * affineField e.dim G h d.position i := by
    unfold cornerFlux
    rw [facetAt_sum]
    refine sum_congr rfl fun i _ => ?_
    rw [facetAt_mul, facetAt_add, facetAt_constant shape, facetAt_sum]
    refine congrArg (fun z => _ * (h i + z)) (sum_congr rfl fun j inside => ?_)
    rw [facetAt_mul, position j (mem_range.mp inside)]
  rw [carried, flux, mul_sum, mul_sum]
  refine sum_congr rfl fun i _ => ?_
  linear_combination affineField e.dim G h d.position i * normal i

/-- The weights inside a straight element. -/
theorem sum_weights (straight : Straight e v net) (known : Element.OfKind k e.cell e)
    (made : volumeData e e.dim rule net = .ok data) {det : List ℝ → ℝ}
    (dets : ∀ q ∈ rule, determinant? (slopes e.cell v q.position) = some (det q.position)) :
    (data.map (·.weight)).sum = Quadrature.sum rule det := by
  obtain ⟨mapped, run, done⟩ := Outcome.bind_eq_ok.mp made
  cases done
  have points := mapEntity_points run
  rw [List.forall₂_map_left_iff] at points
  have both := (List.forall₂_and_left _ _).mpr ⟨dets, points⟩
  rw [List.map_map]
  refine congrArg List.sum (Outcome.map_eq_of_matched (both.imp fun q t => ?_))
  rintro ⟨value, same, det', here, -, data⟩
  have jacobian : t.1 = slopes e.cell v q.position := same.trans (straight.jacobianAt known q.position)
  rw [jacobian, value, Option.some_inj] at here
  rw [Function.comp_apply, data, here]
  rfl

end Data

/-! ### Rules -/

/-- Rules for a cell and its facets that tell the volume and the flux of affine fields from the corners. -/
structure Closes (c : Cell) (v : Nat → Nat → ℝ) (rule facetRule : Rule ℝ) (volume share : ℝ) : Prop where
  shape : ∀ facet ∈ c.facets, facet.length = 2 ∨ facet.length = 3
  sided : ∀ facet ∈ c.facets, Sided c v facet facetRule
  facets : ∀ facet ∈ c.facets, ∀ f, Quadrature.sum facetRule (facetAt f facet) = share * (facet.map f).sum
  inside : ∃ det : List ℝ → ℝ, (∀ q ∈ rule, determinant? (slopes c v q.position) = some (det q.position)) ∧
    Quadrature.sum rule det = volume
  balance : ∀ G h, share * (c.facets.map fun facet =>
    (facet.map (cornerFlux c.dim G h v (facetVector c.dim v facet))).sum).sum = volume * ∑ i ∈ range c.dim, G i i

section Rules

variable {line line' : List (ℝ × ℝ)} {n n' : Nat}

theorem sum_lineRule_facetAt (gauss : GaussExact n line) (large : 1 < 2 * n) {facet : List Nat} (two : facet.length = 2)
    (f : Nat → ℝ) : Quadrature.sum (lineRule line) (facetAt f facet) = 1 * (facet.map f).sum := by
  obtain ⟨i, j, rfl⟩ := List.length_eq_two.mp two
  rw [Quadrature.sum_lineRule]
  refine (Quadrature.lineSum_affine gauss large (half * (f i + f j)) (half * (f j - f i))).trans ?_
  simp [half_real]

theorem sum_triRule_facetAt (gauss : GaussExact n line) (large : 2 < 2 * n) {facet : List Nat} (three : facet.length = 3)
    (f : Nat → ℝ) : Quadrature.sum (triRule (onUnit line)) (facetAt f facet) = 1 / 6 * (facet.map f).sum := by
  obtain ⟨i, j, k, rfl⟩ := List.length_eq_three.mp three
  refine (Quadrature.sum_triRule_affine gauss large (f i) (f j - f i) (f k - f i)).trans ?_
  simp
  ring

theorem closes_tri (gauss : GaussExact n line) (large : 2 < 2 * n) (gauss' : GaussExact n' line') (large' : 1 < 2 * n') :
    Closes .tri v (triRule (onUnit line)) (lineRule line')
      (((v 0 1 - v 0 0) * (v 1 2 - v 1 0) - (v 0 2 - v 0 0) * (v 1 1 - v 1 0)) / 2) 1 where
  shape := by decide
  sided facet among := sided_tri among line'
  facets facet among := sum_lineRule_facetAt gauss' large' (by revert facet; decide)
  inside := by
    refine ⟨fun x => (v 0 1 - v 0 0) * (v 1 2 - v 1 0) - (v 0 2 - v 0 0) * (v 1 1 - v 1 0) + 0 * x.getD 0 0 + 0 * x.getD 1 0,
      fun q _ => ?_, ?_⟩
    · rw [slopes_tri]
      simp [determinant?]
    · rw [Quadrature.sum_triRule_affine gauss large]
      ring
  balance G h := by
    simp [Cell.facets, cornerFlux, facetVector, facetNormal, spanning, half_real, Cell.dim, List.range_succ, sum_range_succ]
    ring

theorem closes_quad (gauss : GaussExact n line) (large : 1 < 2 * n) (gauss' : GaussExact n' line') (large' : 1 < 2 * n')
    (symmetric : ∀ t ∈ line', (-t.1, t.2) ∈ line') : Closes .quad v (quadRule line) (lineRule line')
      (((v 0 2 - v 0 0) * (v 1 3 - v 1 1) - (v 0 3 - v 0 1) * (v 1 2 - v 1 0)) / 2) 1 where
  shape := by decide
  sided facet among := sided_quad among symmetric
  facets facet among := sum_lineRule_facetAt gauss' large' (by revert facet; decide)
  inside := by
    refine ⟨fun x => ((v 0 2 - v 0 0) * (v 1 3 - v 1 1) - (v 0 3 - v 0 1) * (v 1 2 - v 1 0)) / 8 +
      ((v 0 1 - v 0 0) * (v 1 2 - v 1 3) - (v 0 2 - v 0 3) * (v 1 1 - v 1 0)) / 8 * x.getD 0 0 +
      ((v 0 2 - v 0 1) * (v 1 3 - v 1 0) - (v 0 3 - v 0 0) * (v 1 2 - v 1 1)) / 8 * x.getD 1 0,
      fun q member => ?_, ?_⟩
    · obtain ⟨t, -, inner⟩ := List.mem_flatMap.mp member
      obtain ⟨t', -, rfl⟩ := List.mem_map.mp inner
      rw [slopes_quad]
      simp [determinant?, List.range_succ]
      ring
    · rw [Quadrature.sum_quadRule_affine gauss large]
      ring
  balance G h := by
    simp [Cell.facets, cornerFlux, facetVector, facetNormal, spanning, half_real, Cell.dim, List.range_succ, sum_range_succ]
    ring

theorem closes_tet (gauss : GaussExact n line) (large : 2 < 2 * n) (gauss' : GaussExact n' line') (large' : 2 < 2 * n') :
    ∃ volume, Closes .tet v (tetRule (onUnit line)) (triRule (onUnit line')) volume (1 / 6) := by
  obtain ⟨det, here⟩ : ∃ det, determinant? (slopes .tet v []) = some det := ⟨_, by rw [slopes_tet]; rfl⟩
  refine ⟨det / 6, by decide, fun facet among => sided_tet among _, fun facet among => ?_, ⟨fun _ => det, fun q _ => ?_, ?_⟩,
    fun G h => ?_⟩
  · exact sum_triRule_facetAt gauss' large' (by revert facet; decide)
  · rw [← here, slopes_tet, slopes_tet]
  · exact Quadrature.sum_tetRule_constant gauss large det
  · rw [slopes_tet, determinant?.eq_def] at here
    simp [List.range_succ] at here
    rw [← here]
    simp [Cell.facets, cornerFlux, facetVector, facetNormal, spanning, half_real, Cell.dim, List.range_succ, sum_range_succ]
    ring

end Rules

/-! ### Elements -/

section Elements

variable {k : Element.Kind} {e : Element} {net : List (List ℝ)} {points : Nat} {rule facetRule : Rule ℝ} {volume share : ℝ}
  {ids ids' : Option (List Int)} {tab sides : Tabulation ℝ}

/-- The numbers of all facets of a cell. -/
def allFacets (c : Cell) : List Int := (List.range c.facets.length).map Int.ofNat

theorem sum_sides (closes : Closes e.cell v rule facetRule volume share) (straight : Straight e v net)
    (known : Element.OfKind k e.cell e) (fits : points = e.size)
    (outside : onFacets e ⟨points, e.dim, List.replicate e.cell.facets.length net⟩ (allFacets e.cell) facetRule ids' =
      .ok sides) (G : Nat → Nat → ℝ) (h : Nat → ℝ) :
    (sides.entities.flatten.map (flux e.dim G h)).sum = volume * ∑ i ∈ range e.dim, G i i := by
  have full : (allFacets e.cell).length = (List.replicate e.cell.facets.length net).length := by simp [allFacets]
  obtain ⟨entities, matched, rfl⟩ := (onFacets_eq_ok full fits).mp outside
  have each : List.Forall₂ (fun facet data => (data.map (flux e.dim G h)).sum =
      share * (facet.map (cornerFlux e.dim G h v (facetVector e.dim v facet))).sum) e.cell.facets entities := by
    refine List.forall₂_iff_get.mpr ⟨?_, fun i left right => ?_⟩
    · simpa [allFacets] using matched.length_eq
    · have row : ((List.replicate e.cell.facets.length net).zip (allFacets e.cell))[i]? = some (net, Int.ofNat i) := by
        simp [allFacets, left]
      obtain ⟨data, here, made⟩ := Outcome.getElem?_of_matched matched row
      have among := List.getElem_mem left
      have found : entry? e.cell.facets (Int.ofNat i) = some e.cell.facets[i] := by
        unfold entry?
        rw [Block.position?_ofNat left, Option.bind_some]
        exact List.getElem?_eq_getElem left
      rw [List.get_eq_getElem, List.get_eq_getElem, (List.getElem?_eq_some_iff.mp here).2, ← closes.facets _ among]
      exact sum_flux straight known found (closes.sided _ among) (closes.shape _ among) made G h
  rw [List.map_flatten, List.sum_flatten, List.map_map]
  refine (congrArg List.sum (Outcome.map_eq_of_matched each)).trans ?_
  rw [List.sum_map_mul_left]
  exact closes.balance G h

theorem sum_inside (closes : Closes e.cell v rule facetRule volume share) (straight : Straight e v net)
    (known : Element.OfKind k e.cell e) (inside : onVolumes e ⟨points, e.dim, [net]⟩ rule ids = .ok tab) (a : ℝ) :
    (tab.entities.flatten.map fun d => d.weight * a).sum = volume * a := by
  obtain ⟨-, -, entities, matched, rfl⟩ := onVolumes_eq_ok.mp inside
  obtain ⟨data, rest, made, none, rfl⟩ := List.forall₂_cons_left_iff.mp matched
  cases List.forall₂_nil_left_iff.mp none
  obtain ⟨det, dets, whole⟩ := closes.inside
  rw [List.flatten_singleton, List.sum_map_mul_right, sum_weights straight known made dets, whole]

end Elements

end Tabulation

namespace ElementSpace

open Quadrature (extraPowers pointsPerAxis ofCell)
open Tabulation (flux allFacets onVolumes onFacets)

variable {mesh : Mesh ℝ} {s : ElementSpace ℝ}

theorem nets_eq_ok {ids : List Int} {nets : ControlNets ℝ} (found : s.nets (some ids) = .ok nets) :
    ∃ rows, List.Forall₂ (fun t row => s.elementPoints t = .ok row) ids rows ∧ nets = s.netsOf rows := by
  cases ids with
  | nil => cases found
  | cons t ts =>
      obtain ⟨rows, listed, done⟩ := Outcome.bind_eq_ok.mp found
      exact ⟨rows, Outcome.mapM_eq_ok.mp listed, (Except.ok.inj done).symm⟩

/-- The control points of one element, and the same ones over and over. -/
theorem nets_replicate {t : Int} {n : Nat} {net nets : ControlNets ℝ} (own : s.nets (some [t]) = .ok net)
    (around : s.nets (some (List.replicate n t)) = .ok nets) : ∃ (row : List Nat) (i : Nat),
      s.controlPoints[i]? = some row ∧ net = s.netsOf [row] ∧ nets = s.netsOf (List.replicate n row) := by
  obtain ⟨_, listed, first⟩ := nets_eq_ok own
  obtain ⟨row, _, points, none, rfl⟩ := List.forall₂_cons_left_iff.mp listed
  cases List.forall₂_nil_left_iff.mp none
  obtain ⟨rows, listed', others⟩ := nets_eq_ok around
  have same : rows = List.replicate n row := by
    refine List.eq_replicate_iff.mpr ⟨listed'.length_eq.symm.trans List.length_replicate, fun row' member => ?_⟩
    obtain ⟨t', among, points'⟩ := Outcome.exists_of_matched listed' member
    rw [List.eq_of_mem_replicate among, points] at points'
    exact (Except.ok.inj points').symm
  obtain ⟨i, -, element⟩ := Block.elementPoints_eq_ok.mp points
  exact ⟨row, i, element, first, same ▸ others⟩

/-- The rules of a cell and its facets for first degree or more. -/
theorem exists_closes {c : Cell} (shape : c = .tri ∨ c = .quad ∨ c = .tet) {lines : LineRules ℝ} {degree facetDegree : Nat}
    (first : 1 ≤ degree) (first' : 1 ≤ facetDegree)
    (gauss : Quadrature.GaussExact (pointsPerAxis degree (extraPowers c)) (lines (pointsPerAxis degree (extraPowers c))))
    (gauss' : Quadrature.GaussExact (pointsPerAxis facetDegree (extraPowers c.facetCell))
      (lines (pointsPerAxis facetDegree (extraPowers c.facetCell))))
    (symmetric : ∀ t ∈ lines (pointsPerAxis facetDegree (extraPowers c.facetCell)),
      (-t.1, t.2) ∈ lines (pointsPerAxis facetDegree (extraPowers c.facetCell))) (v : Nat → Nat → ℝ) :
    ∃ volume share, Tabulation.Closes c v (ofCell lines c degree) (ofCell lines c.facetCell facetDegree) volume share := by
  have enough (d extra : Nat) (above : 1 ≤ d) : 1 + extra < 2 * pointsPerAxis d extra :=
    lt_of_le_of_lt (Nat.add_le_add_right above extra) (Quadrature.lt_two_mul_pointsPerAxis d extra)
  rcases shape with rfl | rfl | rfl
  · exact ⟨_, _, Tabulation.closes_tri gauss (enough _ 1 first) gauss' (enough _ 0 first')⟩
  · exact ⟨_, _, Tabulation.closes_quad gauss (enough _ 0 first) gauss' (enough _ 0 first') symmetric⟩
  · obtain ⟨volume, closes⟩ := Tabulation.closes_tet gauss (Nat.lt_of_succ_lt (enough _ 2 first)) gauss' (enough _ 1 first')
    exact ⟨_, _, closes⟩

/-- The discrete divergence theorem. For a straight triangle, quadrilateral or tetrahedron of any family and order, at
whatever corners, that is tabulated inside and on all of its facets with rules of first degree at least, an affine field
flows out through the facets as much as it diverges inside; and the weighted normals add up to zero. -/
theorem divergence_theorem (formed : mesh.Formed) (shape : mesh.cell = .tri ∨ mesh.cell = .quad ∨ mesh.cell = .tet)
    {family : String} {order : Int} {quadratureOrder : Option Int} (made : make mesh family order quadratureOrder = .ok s)
    (lines : LineRules ℝ) {degree facetDegree : Nat} (first : 1 ≤ degree) (first' : 1 ≤ facetDegree)
    (gauss : Quadrature.GaussExact (pointsPerAxis degree (extraPowers mesh.cell))
      (lines (pointsPerAxis degree (extraPowers mesh.cell))))
    (gauss' : Quadrature.GaussExact (pointsPerAxis facetDegree (extraPowers mesh.cell.facetCell))
      (lines (pointsPerAxis facetDegree (extraPowers mesh.cell.facetCell))))
    (symmetric : ∀ t ∈ lines (pointsPerAxis facetDegree (extraPowers mesh.cell.facetCell)),
      (-t.1, t.2) ∈ lines (pointsPerAxis facetDegree (extraPowers mesh.cell.facetCell)))
    {t : Int} {net owners : ControlNets ℝ} (own : s.nets (some [t]) = .ok net)
    (around : s.nets (some (List.replicate mesh.cell.facets.length t)) = .ok owners) {ids ids' : Option (List Int)}
    {tab sides : Tabulation ℝ} (inside : onVolumes s.element net (ofCell lines mesh.cell degree) ids = .ok tab)
    (outside : onFacets s.element owners (allFacets mesh.cell) (ofCell lines mesh.cell.facetCell facetDegree) ids' =
      .ok sides) :
    (∀ (G : Nat → Nat → ℝ) (h : Nat → ℝ), (sides.entities.flatten.map (flux mesh.dim G h)).sum =
      (tab.entities.flatten.map fun d => d.weight * ∑ i ∈ range mesh.dim, G i i).sum) ∧
    ∀ i < mesh.dim, (sides.entities.flatten.map fun d => d.weight * d.normal.getD i 0).sum = 0 := by
  obtain ⟨rfl, found, -, built⟩ := make_eq_ok formed.corners made
  obtain ⟨k, known⟩ := Element.ofKind_ofCell found
  have cell : s.element.cell = s.mesh.cell := known.shape
  obtain ⟨row, i, element, nets, nets'⟩ := nets_replicate own around
  obtain ⟨corners, here⟩ : ∃ corners, s.mesh.elements[i]? = some corners := by
    rw [built.controlPoints] at element
    obtain ⟨corners, here, -⟩ := Option.map_eq_some_iff.mp element
    exact ⟨corners, here⟩
  have straight := make_straight formed made here element
  obtain ⟨volume, share, closes⟩ := exists_closes shape first first' gauss gauss' symmetric (cornerAt s.mesh corners)
  subst nets nets'
  have known : Element.OfKind k s.element.cell s.element := cell.symm ▸ known
  have dim : s.mesh.dim = s.element.dim := (congrArg Cell.dim cell).symm
  simp only [netsOf, List.map_cons, List.map_nil, List.map_replicate, dim] at inside outside
  rw [← cell] at closes inside outside
  have divergence (G : Nat → Nat → ℝ) (h : Nat → ℝ) : (sides.entities.flatten.map (flux s.mesh.dim G h)).sum =
      (tab.entities.flatten.map fun d => d.weight * ∑ i ∈ range s.mesh.dim, G i i).sum := by
    rw [dim, Tabulation.sum_sides closes straight known rfl outside G h,
      Tabulation.sum_inside closes straight known inside]
  refine ⟨divergence, fun i axis => ?_⟩
  have along : (fun d : PointData ℝ => d.weight * d.normal.getD i 0) =
      flux s.mesh.dim (fun _ _ => 0) fun j => if j = i then 1 else 0 := by
    funext d
    simp [flux, Tabulation.affineField, axis]
  rw [along, divergence]
  exact List.sum_eq_zero (List.forall_mem_map.mpr fun d _ => by rw [sum_const_zero, mul_zero])

/-- A triangle with a positive determinant is tabulated inside and on all sides. -/
theorem tabulated_tri {k : Element.Kind} {e : Element} {v : Nat → Nat → ℝ} {net : List (List ℝ)}
    (known : Element.OfKind k .tri e) (straight : Tabulation.Straight e v net)
    (positive : 0 < (v 0 1 - v 0 0) * (v 1 2 - v 1 0) - (v 0 2 - v 0 0) * (v 1 1 - v 1 0)) (rule : Rule ℝ)
    (line : List (ℝ × ℝ)) : (∃ tab, onVolumes e ⟨e.size, 2, [net]⟩ rule none = .ok tab) ∧
      ∃ sides, onFacets e ⟨e.size, 2, List.replicate 3 net⟩ (allFacets .tri) (Quadrature.lineRule line) none = .ok sides := by
  have cell : e.cell = .tri := known.shape
  have dim : e.dim = 2 := congrArg Cell.dim cell
  have above (x : List ℝ) : ∃ det, Tabulation.determinant? (Tabulation.jacobianAt e 2 net x) = some det ∧ 0 < det := by
    have jacobian := straight.jacobianAt (cell.symm ▸ known) x
    rw [dim, cell] at jacobian
    exact ⟨_, (congrArg Tabulation.determinant? (jacobian.trans (Tabulation.slopes_tri x))).trans rfl, positive⟩
  constructor
  · obtain ⟨data, made⟩ : ∃ data, Tabulation.volumeData e 2 rule net = .ok data :=
      Tabulation.volumeData_isOk fun q _ => above q.position
    exact ⟨_, Tabulation.onVolumes_eq_ok.mpr ⟨dim.symm, rfl, [data], .cons made .nil, rfl⟩⟩
  · have each : ∀ t ∈ (List.replicate 3 net).zip (allFacets .tri), ∃ data,
        Tabulation.facetData e 2 (Quadrature.lineRule line) t.2 t.1 = .ok data := by
      rintro ⟨net', l⟩ member
      obtain ⟨same, among⟩ := List.of_mem_zip member
      cases List.eq_of_mem_replicate same
      obtain ⟨facet, found⟩ : ∃ facet, entry? e.cell.facets l = some facet := by
        rw [cell]
        have three : l = 0 ∨ l = 1 ∨ l = 2 := by simpa [allFacets, Cell.facets, List.range_succ] using among
        rcases three with rfl | rfl | rfl <;> exact ⟨_, rfl⟩
      have places : ∀ q ∈ Quadrature.lineRule line, ∃ x, e.cell.facetPoint facet q.position = .ok x := by
        rw [cell]
        exact List.forall_mem_map.mpr fun _ _ => ⟨_, rfl⟩
      obtain ⟨positions, placed⟩ := Outcome.exists_matched places
      exact Tabulation.facetData_isOk found placed fun x _ => above x
    obtain ⟨entities, matched⟩ := Outcome.exists_matched each
    exact ⟨_, (Tabulation.onFacets_eq_ok rfl rfl).mpr ⟨entities, matched, rfl⟩⟩

theorem divergence_theorem_cutSquare : ∃ s net owners tab sides, make cutSquare "lagrange" 2 none = .ok s ∧
    s.nets (some [0]) = .ok net ∧ s.nets (some [0, 0, 0]) = .ok owners ∧
    onVolumes s.element net (ofCell (fun _ => Quadrature.twoPoints) .tri 2) none = .ok tab ∧
    onFacets s.element owners (allFacets .tri) (ofCell (fun _ => Quadrature.twoPoints) .line 2) none = .ok sides ∧
    (∀ (G : Nat → Nat → ℝ) (h : Nat → ℝ), (sides.entities.flatten.map (flux 2 G h)).sum =
      (tab.entities.flatten.map fun d => d.weight * ∑ i ∈ range 2, G i i).sum) ∧
    ∀ i < 2, (sides.entities.flatten.map fun d => d.weight * d.normal.getD i 0).sum = 0 := by
  obtain ⟨s, made⟩ := make_cutSquare
  obtain ⟨mesh, found, -, built⟩ := make_eq_ok formed_cutSquare.corners made
  obtain ⟨k, known⟩ := Element.ofKind_ofCell found
  obtain ⟨row, points⟩ : ∃ row, s.controlPoints[0]? = some row := by
    rw [built.controlPoints, mesh]
    exact ⟨_, rfl⟩
  have straight := make_straight formed_cutSquare made (t := 0) rfl points
  have own : s.elementPoints 0 = .ok row :=
    Block.elementPoints_eq_ok.mpr ⟨0, Block.position?_ofNat (Array.getElem?_eq_some_iff.mp points).1, points⟩
  have nets (n : Nat) : s.nets (some (List.replicate (n + 1) 0)) =
      .ok ⟨s.element.size, 2, List.replicate (n + 1) (row.map fun p => s.positions.getD p [])⟩ := by
    have rows : (List.replicate (n + 1) 0).mapM s.elementPoints = .ok (List.replicate (n + 1) row) :=
      Outcome.mapM_eq_ok.mpr (List.forall₂_iff_get.mpr ⟨by simp, fun i _ _ => by simpa using own⟩)
    refine Outcome.bind_eq_ok.mpr ⟨_, rows, congrArg Except.ok ?_⟩
    rw [netsOf, List.map_replicate, mesh]
    rfl
  have positive : 0 < (cornerAt cutSquare [0, 1, 2] 0 1 - cornerAt cutSquare [0, 1, 2] 0 0) *
      (cornerAt cutSquare [0, 1, 2] 1 2 - cornerAt cutSquare [0, 1, 2] 1 0) -
        (cornerAt cutSquare [0, 1, 2] 0 2 - cornerAt cutSquare [0, 1, 2] 0 0) *
      (cornerAt cutSquare [0, 1, 2] 1 1 - cornerAt cutSquare [0, 1, 2] 1 0) := by
    norm_num [cornerAt, cutSquare]
  obtain ⟨⟨tab, inside⟩, sides, outside⟩ := tabulated_tri known straight positive
    (ofCell (fun _ => Quadrature.twoPoints) .tri 2) Quadrature.twoPoints
  have symmetric : ∀ t ∈ Quadrature.twoPoints, (-t.1, t.2) ∈ Quadrature.twoPoints := by simp [Quadrature.twoPoints]
  have closed := divergence_theorem formed_cutSquare (.inl rfl) made (fun _ => Quadrature.twoPoints) one_le_two one_le_two
    Quadrature.gaussExact_twoPoints Quadrature.gaussExact_twoPoints symmetric (nets 0) (nets 2) inside outside
  exact ⟨s, _, _, tab, sides, made, nets 0, nets 2, inside, outside, closed⟩

end ElementSpace

end Galerkin
