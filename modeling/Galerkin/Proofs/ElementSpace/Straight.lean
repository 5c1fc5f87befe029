import Mathlib
import Galerkin.Proofs.ElementSpace.Renumbering
import Galerkin.Proofs.Tabulation.Affine

/-!
Straight elements. A space puts every control point of an element at a mean of its corners, so that the element's map is
that of its corners, weighted linearly or by products of linear weights: neither family nor order show in it.
-/

namespace Galerkin

open Finset Arithmetic

namespace Cell

/-- The weights of all corners of a cell. -/
def cornerPolynomials : Cell → List Polynomial
  | tet => [[⟨1, [0, 0, 0]⟩, ⟨-1, [1, 0, 0]⟩, ⟨-1, [0, 1, 0]⟩, ⟨-1, [0, 0, 1]⟩], [⟨1, [1, 0, 0]⟩], [⟨1, [0, 1, 0]⟩],
      [⟨1, [0, 0, 1]⟩]]
  | hex => [(-1, -1, -1), (1, -1, -1), (1, 1, -1), (-1, 1, -1), (-1, -1, 1), (1, -1, 1), (1, 1, 1), (-1, 1, 1)].map
      fun (s, t, u) => [⟨mkRat 1 8, [0, 0, 0]⟩, ⟨mkRat s 8, [1, 0, 0]⟩, ⟨mkRat t 8, [0, 1, 0]⟩, ⟨mkRat u 8, [0, 0, 1]⟩,
        ⟨mkRat (s * t) 8, [1, 1, 0]⟩, ⟨mkRat (s * u) 8, [1, 0, 1]⟩, ⟨mkRat (t * u) 8, [0, 1, 1]⟩,
        ⟨mkRat (s * t * u) 8, [1, 1, 1]⟩]
  | c => c.weightPolynomials

theorem length_cornerPolynomials (c : Cell) : c.cornerPolynomials.length = c.cornerCount := by
  cases c <;> decide

variable {k : Element.Kind} {c : Cell}

theorem cornerPolynomials_within (fits : k.Fits c) :
    ∀ p ∈ c.cornerPolynomials, ∀ m ∈ p, m.exponents ∈ k.exponents c := by
  revert fits
  cases k <;> cases c <;> decide +kernel

/-- At a node the weights give the mean of the corners of its face. -/
theorem mean_cornerPolynomials (c : Cell) : ∀ x ∈ Element.latticeNodes c,
    Element.Mean c (c.supporting Element.entityTolerance x) (c.cornerPolynomials.map (·.eval x)) := by
  cases c <;> decide +kernel

/-- The nodes of an element weigh all corners alike. -/
theorem sum_cornerPolynomials (fits : k.Fits c) : ∀ p ∈ c.cornerPolynomials,
    ((k.points c).map p.eval).sum * c.cornerCount = (k.points c).length := by
  revert fits
  cases k <;> cases c <;> decide +kernel

/-- A combination of the corner weights. -/
noncomputable def blend (c : Cell) (v : Nat → ℝ) (x : List ℝ) : ℝ :=
  ∑ i ∈ range c.cornerCount, v i * (c.cornerPolynomials.getD i []).eval x

/-- The derivative of a combination of the corner weights along an axis. -/
noncomputable def blendSlope (c : Cell) (v : Nat → ℝ) (axis : Nat) (x : List ℝ) : ℝ :=
  ∑ i ∈ range c.cornerCount, v i * ((c.cornerPolynomials.getD i []).derivative axis).eval x

end Cell

namespace Element

variable {k : Kind} {c : Cell} {e : Element}

theorem OfKind.reproduces_blend (known : OfKind k c e) (v : Nat → ℝ) : e.Reproduces (c.blend v) (c.blendSlope v) := by
  have each (i : Nat) (inside : i ∈ range c.cornerCount) := known.reproduces (p := c.cornerPolynomials.getD i []) (by
    have bound : i < c.cornerPolynomials.length := c.length_cornerPolynomials.symm ▸ mem_range.mp inside
    rw [List.getD_eq_getElem _ _ bound]
    exact Cell.cornerPolynomials_within known.fits _ (List.getElem_mem bound))
  constructor
  · intro x
    simp only [Cell.blend, sum_mul, mul_assoc]
    rw [sum_comm]
    exact sum_congr rfl fun i inside => by rw [← mul_sum, (each i inside).value]
  · intro axis x
    simp only [Cell.blend, Cell.blendSlope, sum_mul, mul_assoc]
    rw [sum_comm]
    exact sum_congr rfl fun i inside => by rw [← mul_sum, (each i inside).derivative]

end Element

namespace Tabulation

/-- Are the control points of an element where its corners put them? Corner `c` has `v i c` as its coordinate `i`. -/
def Straight (e : Element) (v : Nat → Nat → ℝ) (net : List (List ℝ)) : Prop :=
  ∃ control : List ℚ → List ℝ, net = e.nodes.map control ∧
    ∀ a ∈ e.nodes, ∀ i < e.dim, (control a).getD i 0 = e.cell.blend (v i) (realPoint a)

theorem sum_map_sum {β : Type} (xs : List β) (I : Finset Nat) (f : Nat → β → ℝ) :
    (xs.map fun x => ∑ c ∈ I, f c x).sum = ∑ c ∈ I, (xs.map (f c)).sum := by
  induction xs with
  | nil => simp
  | cons x xs ih => simp only [List.map_cons, List.sum_cons, ih, sum_add_distrib]

namespace Straight

variable {k : Element.Kind} {e : Element} {v : Nat → Nat → ℝ} {net : List (List ℝ)}

theorem interpolate (straight : Straight e v net) (known : Element.OfKind k e.cell e) (x : List ℝ) :
    Tabulation.interpolate e.dim (e.values x) net = (List.range e.dim).map fun i => e.cell.blend (v i) x := by
  obtain ⟨control, rfl, images⟩ := straight
  exact interpolate_nodes known (fun i _ => known.reproduces_blend (v i)) images x

theorem jacobianAt (straight : Straight e v net) (known : Element.OfKind k e.cell e) (x : List ℝ) :
    Tabulation.jacobianAt e e.dim net x =
      (List.range e.dim).map fun i => (List.range e.dim).map fun j => e.cell.blendSlope (v i) j x := by
  obtain ⟨control, rfl, images⟩ := straight
  exact jacobian_nodes known (fun i _ => known.reproduces_blend (v i)) images x

/-- The mean of the control points is that of the corners. -/
theorem centroid (straight : Straight e v net) (known : Element.OfKind k e.cell e) :
    Tabulation.centroid e.dim net =
      (List.range e.dim).map fun i => (∑ c ∈ range e.cell.cornerCount, v i c) / e.cell.cornerCount := by
  obtain ⟨control, rfl, images⟩ := straight
  have count : ((k.points e.cell).length : ℝ) ≠ 0 := by
    rw [← Element.Kind.length_exponents known.fits, Nat.cast_ne_zero]
    exact (List.length_pos_of_mem (k.constant_mem e.cell)).ne'
  have alike : ∀ c ∈ range e.cell.cornerCount,
      (e.nodes.map fun a => (e.cell.cornerPolynomials.getD c []).eval (realPoint a)).sum =
        (k.points e.cell).length / e.cell.cornerCount := by
    intro c inside
    have bound : c < e.cell.cornerPolynomials.length := e.cell.length_cornerPolynomials.symm ▸ mem_range.mp inside
    have corners : (e.cell.cornerCount : ℝ) ≠ 0 :=
      Nat.cast_ne_zero.mpr (Nat.ne_of_gt (Nat.zero_lt_of_lt (mem_range.mp inside)))
    rw [List.getD_eq_getElem _ _ bound, known.sum_nodes, eq_div_iff corners]
    exact_mod_cast Cell.sum_cornerPolynomials known.fits _ (List.getElem_mem bound)
  refine List.map_congr_left fun i member => ?_
  have terms : (e.nodes.map control).map (·.getD i 0) = e.nodes.map fun a => e.cell.blend (v i) (realPoint a) := by
    rw [List.map_map]
    exact List.map_congr_left fun a node => images a node i (List.mem_range.mp member)
  have total : (e.nodes.map fun a => e.cell.blend (v i) (realPoint a)).sum =
      (k.points e.cell).length * ((∑ c ∈ range e.cell.cornerCount, v i c) / e.cell.cornerCount) := by
    simp only [Cell.blend, sum_map_sum, List.sum_map_mul_left]
    rw [sum_congr rfl fun c inside => congrArg (v i c * ·) (alike c inside), ← sum_mul]
    ring
  rw [sumOf, total_eq_sum, terms, total, List.length_map, known.nodes.length_eq]
  exact mul_div_cancel_left₀ _ count

end Straight

end Tabulation

namespace ElementSpace

variable {mesh : Mesh ℝ} {s : ElementSpace ℝ}

/-- A control point has the coordinates of the mean of the corners that it belongs to. -/
theorem Built.getD_position (built : s.Built) (formed : s.mesh.Formed) {corners entity : List Nat}
    (among : corners ∈ s.mesh.elements) (inside : entity ∈ s.element.entities) {i : Nat} (axis : i < s.mesh.dim) :
    (s.positions.getD (pointOf s.mesh.vertices.size s.innerKeys (hereOf corners entity)) []).getD i 0 =
      (keyMean s.mesh (Mesh.key (hereOf corners entity))).getD i 0 := by
  rw [built.positions]
  rcases built.known formed among inside with ⟨v, vertex, here⟩ | ⟨inner, member⟩
  · rw [here, pointOf, key_singleton, keyMean]
    simp [Array.getElem?_append_left vertex, axis, Array.getD_eq_getD_getElem?]
  · rw [pointOf_of_inner inner, Array.getD_eq_getD_getElem?, Array.getElem?_append_right (Nat.le_add_right _ _),
      Nat.add_sub_cancel_left, List.getElem?_toArray, List.getElem?_map, List.getElem?_idxOf member]
    rfl

/-- The coordinates of the corners of an element. -/
noncomputable def cornerAt (mesh : Mesh ℝ) (corners : List Nat) (i c : Nat) : ℝ :=
  (mesh.vertices.getD (corners.getD c 0) []).getD i 0

/-- The control points of an element of a space are where its corners put them. -/
theorem make_straight (formed : mesh.Formed) {family : String} {order : Int} {quadratureOrder : Option Int}
    (made : make mesh family order quadratureOrder = .ok s) {t : Nat} {corners row : List Nat}
    (element : mesh.elements[t]? = some corners) (points : s.controlPoints[t]? = some row) :
    Tabulation.Straight s.element (cornerAt mesh corners) (row.map fun p => s.positions.getD p []) := by
  obtain ⟨rfl, found, -, built⟩ := make_eq_ok formed.corners made
  obtain ⟨k, known⟩ := Element.ofKind_ofCell found
  have among := Array.mem_of_getElem? element
  rw [built.controlPoints, element, Option.map_some, Option.some_inj] at points
  subst points
  refine ⟨fun a => s.positions.getD (pointOf s.mesh.vertices.size s.innerKeys
    (hereOf corners (s.mesh.cell.supporting Element.entityTolerance a))) [], ?_, fun a node i axis => ?_⟩
  · rw [known.entities, List.map_map, List.map_map]
    rfl
  · have mean := s.mesh.cell.mean_cornerPolynomials a (Element.Kind.mem_latticeNodes (known.nodes.mem_iff.mp node))
    have inside : s.mesh.cell.supporting Element.entityTolerance a ∈ s.element.entities :=
      known.entities ▸ List.mem_map_of_mem node
    have length := formed.corners corners among
    have axis : i < s.mesh.dim := by rwa [Element.dim, known.shape] at axis
    rw [built.getD_position formed among inside axis, ← vertexMean_of_mean mean length, known.shape, Cell.blend]
    have sizes : ((s.mesh.cell.cornerPolynomials.map (·.eval a)).map (ofRat : ℚ → ℝ)).length =
        (corners.map fun v => s.mesh.vertices.getD v []).length := by
      rw [List.length_map, List.length_map, Cell.length_cornerPolynomials, List.length_map, length]
    rw [vertexMean, Tabulation.getD_interpolate sizes axis, List.length_map, length]
    refine sum_congr rfl fun c member => ?_
    have inside := mem_range.mp member
    have bound : c < s.mesh.cell.cornerPolynomials.length := s.mesh.cell.length_cornerPolynomials.symm ▸ inside
    have weight : (ofRat (s.mesh.cell.cornerPolynomials[c].eval a) : ℝ) =
        s.mesh.cell.cornerPolynomials[c].eval (realPoint a) := (Polynomial.eval_cast _ a).symm
    rw [mul_comm]
    simp [cornerAt, bound, length, inside, weight]

end ElementSpace

end Galerkin
