import Mathlib
import Galerkin.Proofs.Mesh.Grid
import Galerkin.Proofs.Tabulation.Divergence

/-!
Structured meshes of boxes. They are meshes of grids whose places are moved along the axes of a box, so that every element
is stretched by the same amount, and the sides of the box are the ends of the grid.
-/

namespace Galerkin

open Finset Arithmetic MeasureTheory

namespace Tabulation

variable {v : Nat → Nat → ℝ}

theorem slopes_line (s : ℝ) : slopes .line v [s] = [[(v 0 1 - v 0 0) / 2]] := by
  simp [slopes, Cell.dim, List.range_succ, Cell.blendSlope, Cell.cornerCount, Cell.corners, sum_range_succ,
    Cell.cornerPolynomials, Cell.weightPolynomials, Polynomial.eval_derivative, Monomial.derivative, Monomial.powers,
    natPow_eq_pow, Rat.mkRat_eq_div]
  ring

theorem slopes_hex (s t u : ℝ) : slopes .hex v [s, t, u] = (List.range 3).map fun i =>
    [((1 - t) * (1 - u) * (v i 1 - v i 0) + (1 + t) * (1 - u) * (v i 2 - v i 3) +
        (1 - t) * (1 + u) * (v i 5 - v i 4) + (1 + t) * (1 + u) * (v i 6 - v i 7)) / 8,
      ((1 - s) * (1 - u) * (v i 3 - v i 0) + (1 + s) * (1 - u) * (v i 2 - v i 1) +
        (1 - s) * (1 + u) * (v i 7 - v i 4) + (1 + s) * (1 + u) * (v i 6 - v i 5)) / 8,
      ((1 - s) * (1 - t) * (v i 4 - v i 0) + (1 + s) * (1 - t) * (v i 5 - v i 1) +
        (1 + s) * (1 + t) * (v i 6 - v i 2) + (1 - s) * (1 + t) * (v i 7 - v i 3)) / 8] := by
  refine List.map_congr_left fun i _ => ?_
  simp [Cell.dim, List.range_succ, Cell.blendSlope, Cell.cornerCount, Cell.corners, sum_range_succ,
    Cell.cornerPolynomials, Polynomial.eval_derivative, Monomial.derivative, Monomial.powers,
    natPow_eq_pow, Rat.mkRat_eq_div]
  refine ⟨?_, ?_, ?_⟩ <;> ring

end Tabulation

namespace Mesh

/-! ### Axes -/

/-- A side of a box from its start, divided into intervals. -/
structure Axis where
  start : ℝ
  length : ℝ
  count : Nat

namespace Axis

structure Proper (a : Axis) : Prop where
  length : 0 < a.length
  count : 0 < a.count

/-- The length of an interval. -/
noncomputable def spacing (a : Axis) : ℝ := a.length / a.count

/-- The end of an interval. -/
noncomputable def tick (a : Axis) (i : Nat) : ℝ := Mesh.tick a.start (a.start + a.length) a.count i

variable {a : Axis} {i : Nat}

theorem Proper.spacing_pos (proper : a.Proper) : 0 < a.spacing := div_pos proper.length (Nat.cast_pos.mpr proper.count)

theorem Proper.count_mul_spacing (proper : a.Proper) : a.count * a.spacing = a.length :=
  mul_div_cancel₀ _ (Nat.cast_ne_zero.mpr proper.count.ne')

theorem Proper.tick_eq (proper : a.Proper) : a.tick i = a.start + i * a.spacing := by
  unfold tick Mesh.tick
  split
  · next first => simp [first]
  · split
    · next last => rw [Int.ofNat_inj.mp last, proper.count_mul_spacing]
    · have whole : (ofInt (a.count : Int) : ℝ) = a.count := by simp [ofInt_real]
      have place : (ofNat i : ℝ) = i := (ofInt_real i).trans (Int.cast_natCast i)
      rw [whole, place, add_sub_cancel_left]
      rfl

theorem Proper.tick_eq_start_iff (proper : a.Proper) : a.tick i = a.start ↔ i = 0 := by
  rw [proper.tick_eq, add_eq_left, mul_eq_zero, or_iff_left proper.spacing_pos.ne', Nat.cast_eq_zero]

theorem Proper.tick_eq_end_iff (proper : a.Proper) : a.tick i = a.start + a.length ↔ i = a.count := by
  rw [proper.tick_eq, ← proper.count_mul_spacing, add_right_inj, mul_left_inj' proper.spacing_pos.ne', Nat.cast_inj]

end Axis

/-- The point of a box that a place stands for. -/
noncomputable def point (axes : List Axis) (y : List Nat) : List ℝ := List.zipWith Axis.tick axes y

theorem getD_point {axes : List Axis} {y : List Nat} (sized : y.length = axes.length) {i : Nat} (axis : i < axes.length) :
    (point axes y).getD i 0 = axes[i].tick (y.getD i 0) := by
  have axis' : i < y.length := sized.symm ▸ axis
  simp [point, axis, axis']

/-! ### Shares of a cell -/

namespace Pattern

/-- All pieces of a cell have the same share of it, and none of them is turned over. -/
structure Even (p : Pattern) (share : ℝ) : Prop where
  positive : 0 < share
  whole : p.pieces.length * (share * volume.real (Quadrature.region p.cell)) = 1
  determinant : ∀ piece ∈ p.pieces, ∀ (b h : Nat → ℝ) (v : Nat → Nat → ℝ),
    (∀ i < p.cell.dim, ∀ c < p.cell.cornerCount, v i c = b i + h i * ((piece.getD c []).getD i 0 : Nat)) →
      ∀ x : List ℝ, x.length = p.cell.dim →
        Tabulation.determinant? (Tabulation.slopes p.cell v x) = some (share * ∏ i ∈ range p.cell.dim, h i)

theorem volume_cube {c : Cell} (tensor : c.isSimplex = false) : volume.real (Quadrature.region c) = 2 ^ c.dim := by
  rw [Quadrature.region, tensor, if_neg Bool.false_ne_true, Measure.real, cube, Real.volume_Icc_pi_toReal fun _ => by norm_num]
  norm_num

theorem volume_triangle : volume.real (Quadrature.region .tri) = 1 / 2 := by
  have sized : ([0, 0] : List Nat).length = 2 := rfl
  have constant := integral_simplex sized zero_le_one
  have one (x : Fin 2 → ℝ) : Monomial.powers [0, 0] (List.ofFn x) = 1 := Monomial.powers_replicate_zero 2 _
  rw [Quadrature.betaProduct_values.1] at constant
  simp only [one, setIntegral_const, smul_eq_mul, mul_one, one_pow, one_mul] at constant
  exact constant

theorem even_segments : segments.Even (1 / 2) where
  positive := by norm_num
  whole := by
    rw [volume_cube rfl]
    norm_num [segments, Cell.dim]
  determinant piece among b h v placed x sized := by
    obtain ⟨s, rfl⟩ := List.length_eq_one_iff.mp sized
    cases List.mem_singleton.mp among
    simp only [segments, Cell.dim, Cell.cornerCount, Cell.corners] at placed ⊢
    rw [Tabulation.slopes_line, placed 0 (by decide) 0 (by decide), placed 0 (by decide) 1 (by decide)]
    simp [Tabulation.determinant?]
    ring

theorem even_squares : squares.Even (1 / 4) where
  positive := by norm_num
  whole := by
    rw [volume_cube rfl]
    norm_num [squares, Cell.dim]
  determinant piece among b h v placed x sized := by
    obtain ⟨s, t, rfl⟩ := List.length_eq_two.mp sized
    cases List.mem_singleton.mp among
    simp only [squares, Cell.dim, Cell.cornerCount, Cell.corners] at placed ⊢
    rw [Tabulation.slopes_quad]
    simp [placed, List.range_succ, Tabulation.determinant?, prod_range_succ]
    ring

theorem even_halvedSquares : halvedSquares.Even 1 where
  positive := one_pos
  whole := by
    rw [show halvedSquares.cell = .tri from rfl, volume_triangle]
    norm_num [halvedSquares]
  determinant piece among b h v placed x sized := by
    simp only [halvedSquares, Cell.dim, Cell.cornerCount, Cell.corners] at placed among ⊢
    rw [Tabulation.slopes_tri]
    rcases List.mem_pair.mp among with rfl | rfl
    all_goals simp [placed, Tabulation.determinant?, prod_range_succ]

theorem even_cubes : cubes.Even (1 / 8) where
  positive := by norm_num
  whole := by
    rw [volume_cube rfl]
    norm_num [cubes, Cell.dim]
  determinant piece among b h v placed x sized := by
    obtain ⟨s, t, u, rfl⟩ := List.length_eq_three.mp sized
    cases List.mem_singleton.mp among
    simp only [cubes, Cell.dim, Cell.cornerCount, Cell.corners] at placed ⊢
    rw [Tabulation.slopes_hex]
    simp [placed, List.range_succ, Tabulation.determinant?, prod_range_succ]
    ring

end Pattern

/-! ### Division of a box -/

section Division

variable (m : Mesh ℝ)

/-- How much the map of the cell onto an element stretches volumes at a point: the determinant of its Jacobian. -/
noncomputable def stretch (corners : List Nat) (x : List ℝ) : ℝ :=
  (Tabulation.determinant? (Tabulation.slopes m.cell (ElementSpace.cornerAt m corners) x)).getD 0

/-- The measure of an element. -/
noncomputable def measure (corners : List Nat) : ℝ :=
  ∫ x in Quadrature.region m.cell, m.stretch corners (List.ofFn x)

/-- Are some vertices all on one side of a box? The box is given by the starts and the lengths of its axes. -/
def OnSide (box : List (ℝ × ℝ)) (corners : List Nat) : Prop :=
  ∃ i start length, box[i]? = some (start, length) ∧
    ((∀ v ∈ corners, (m.vertices.getD v []).getD i 0 = start) ∨
      ∀ v ∈ corners, (m.vertices.getD v []).getD i 0 = start + length)

/-- A mesh that divides a box into elements. -/
structure Divides (box : List (ℝ × ℝ)) : Prop where
  used : ∀ v < m.vertices.size, ∃ corners ∈ m.elements, v ∈ corners
  positive : ∀ corners ∈ m.elements, ∀ x : List ℝ, x.length = m.dim → 0 < m.stretch corners x
  /-- Whatever the family and the order of a space, its elements are mapped with these determinants. -/
  mapped : ∀ family order quadratureOrder s, ElementSpace.make m family order quadratureOrder = .ok s →
    ∀ (t : Nat) corners row, m.elements[t]? = some corners → s.controlPoints[t]? = some row →
      ∀ x : List ℝ, x.length = m.dim → Tabulation.determinant? (Tabulation.jacobianAt s.element m.dim
        (row.map fun p => s.positions.getD p []) x) = some (m.stretch corners x)
  measure : (m.elements.toList.map m.measure).sum = (box.map (·.2)).prod
  owners : ∀ f ∈ m.facets, f.owners.length = 1 ∨ f.owners.length = 2
  boundary : ∀ f ∈ m.facets, f.isBoundary ↔ m.OnSide box f.corners

end Division

/-! ### Grids of boxes -/

section Grids

variable {p : Pattern} {share : ℝ} {axes : List Axis} {m : Mesh ℝ}

/-- The vertices of a grid in a box. -/
noncomputable def points (axes : List Axis) : List (List ℝ) :=
  (places ((axes.map (·.count)).map (· + 1))).map (point axes)

theorem length_points (axes : List Axis) : (points axes).length = ((axes.map (·.count)).map (· + 1)).prod := by
  rw [points, List.length_map, length_places]

theorem getD_points {y : List Nat} (inside : y ∈ places ((axes.map (·.count)).map (· + 1))) {i : Nat}
    (axis : i < axes.length) :
    ((points axes).toArray.getD (number ((axes.map (·.count)).map (· + 1)) y) []).getD i 0 = axes[i].tick (y.getD i 0) := by
  have sized : y.length = axes.length := by simpa using (mem_places.mp inside).1
  rw [Array.getD_eq_getD_getElem?, List.getElem?_toArray, points, List.getElem?_map, getElem?_number inside,
    Option.map_some, Option.getD_some, getD_point sized axis]

theorem prod_range_getD (f : Axis → ℝ) (a : Axis) (axes : List Axis) :
    ∏ i ∈ range axes.length, f (axes.getD i a) = (axes.map f).prod := by
  induction axes with
  | nil => rfl
  | cons b axes ih =>
      rw [List.length_cons, prod_range_succ', List.map_cons, List.prod_cons, mul_comm, ← ih]
      rfl

theorem prod_count_mul_spacing (proper : ∀ a ∈ axes, a.Proper) :
    (((axes.map (·.count)).prod : Nat) : ℝ) * (axes.map (·.spacing)).prod = (axes.map (·.length)).prod := by
  induction axes with
  | nil => simp
  | cons a axes ih =>
      obtain ⟨first, others⟩ := List.forall_mem_cons.mp proper
      rw [List.map_cons, List.map_cons, List.map_cons, List.prod_cons, List.prod_cons, List.prod_cons, Nat.cast_mul,
        mul_mul_mul_comm, first.count_mul_spacing, ih others]

theorem length_elements (p : Pattern) (sizes : List Nat) : (p.elements sizes).length = p.pieces.length * sizes.prod := by
  simp [Pattern.elements, List.length_flatMap, length_places]

variable (made : make p.cell p.cell.dim (points axes)
  (connectivity p.cell.cornerCount (p.elements (axes.map (·.count)))) = .ok m)

include made

/-- All elements of a grid are stretched by the same amount. -/
theorem determinant_made (sound : p.Sound) (even : p.Even share) (proper : ∀ a ∈ axes, a.Proper)
    (fits : axes.length = p.cell.dim) {corners : List Nat} (among : corners ∈ m.elements) {x : List ℝ}
    (sized : x.length = m.dim) : Tabulation.determinant? (Tabulation.slopes m.cell (ElementSpace.cornerAt m corners) x) =
      some (share * (axes.map (·.spacing)).prod) := by
  obtain ⟨cell, placed, elements, -⟩ := Pattern.made_eq made
  rw [elements, List.mem_toArray] at among
  obtain ⟨piece, here, element⟩ := List.mem_flatMap.mp among
  obtain ⟨k, inside, rfl⟩ := List.mem_map.mp element
  have fits' : (axes.map (·.count)).length = p.cell.dim := (List.length_map _).trans fits
  rw [Mesh.dim, cell] at sized
  rw [cell, ← prod_range_getD (·.spacing) ⟨0, 0, 0⟩, fits]
  refine even.determinant piece here (fun i => (axes.getD i ⟨0, 0, 0⟩).tick (k.getD i 0)) _ _ (fun i axis c corner => ?_) x sized
  rw [← fits] at axis
  rw [← sound.cornered piece here] at corner
  have member := List.getElem_mem corner
  obtain ⟨lengths, vertex⟩ := sound.corner_mem fits' inside here member
  have ticks := proper _ (List.getElem_mem axis)
  have named : (piece.map fun o => number ((axes.map (·.count)).map (· + 1)) (shift k o)).getD c 0 =
      number ((axes.map (·.count)).map (· + 1)) (shift k piece[c]) := by
    rw [List.getD_eq_getElem _ _ (by simpa using corner), List.getElem_map]
  rw [ElementSpace.cornerAt, named, placed, getD_points vertex axis, getD_shift lengths, List.getD_eq_getElem _ _ axis,
    List.getD_eq_getElem _ _ corner, ticks.tick_eq, ticks.tick_eq]
  push_cast
  ring

theorem stretch_made (sound : p.Sound) (even : p.Even share) (proper : ∀ a ∈ axes, a.Proper)
    (fits : axes.length = p.cell.dim) {corners : List Nat} (among : corners ∈ m.elements) {x : List ℝ}
    (sized : x.length = m.dim) : m.stretch corners x = share * (axes.map (·.spacing)).prod := by
  rw [stretch, determinant_made made sound even proper fits among sized, Option.getD_some]

/-- All elements together are as large as the box. -/
theorem sum_measure_made (sound : p.Sound) (even : p.Even share) (proper : ∀ a ∈ axes, a.Proper)
    (fits : axes.length = p.cell.dim) : (m.elements.toList.map m.measure).sum = (axes.map (·.length)).prod := by
  obtain ⟨cell, -, elements, -⟩ := Pattern.made_eq made
  have same : ∀ corners ∈ m.elements.toList, m.measure corners =
      volume.real (Quadrature.region m.cell) * (share * (axes.map (·.spacing)).prod) := by
    intro corners among
    have constant (x : Fin m.cell.dim → ℝ) : m.stretch corners (List.ofFn x) = share * (axes.map (·.spacing)).prod := by
      have sized : (List.ofFn x).length = m.dim := List.length_ofFn
      exact stretch_made made sound even proper fits (Array.mem_toList_iff.mp among) sized
    simp only [Mesh.measure, constant, setIntegral_const, smul_eq_mul]
  have region : volume.real (Quadrature.region m.cell) = volume.real (Quadrature.region p.cell) := by rw [cell]
  calc (m.elements.toList.map m.measure).sum
      = (p.pieces.length * (axes.map (·.count)).prod : Nat) *
          (volume.real (Quadrature.region p.cell) * (share * (axes.map (·.spacing)).prod)) := by
        rw [List.map_congr_left same, List.map_const', List.sum_replicate, elements, length_elements, nsmul_eq_mul, region]
    _ = p.pieces.length * (share * volume.real (Quadrature.region p.cell)) *
          (((axes.map (·.count)).prod : Nat) * (axes.map (·.spacing)).prod) := by
        rw [Nat.cast_mul]
        ring
    _ = (axes.map (·.length)).prod := by rw [even.whole, one_mul, prod_count_mul_spacing proper]

theorem boundary_made (sound : p.Sound) (proper : ∀ a ∈ axes, a.Proper) (fits : axes.length = p.cell.dim) {f : Facet}
    (member : f ∈ m.facets) : f.isBoundary ↔ m.OnSide (axes.map fun a => (a.start, a.length)) f.corners := by
  have fits' : (axes.map (·.count)).length = p.cell.dim := (List.length_map _).trans fits
  obtain ⟨-, placed, -, -⟩ := Pattern.made_eq made
  obtain ⟨w, among, y, here, corners, ends⟩ := sound.facet_made made fits' member
  -- the coordinates of the corners are the ticks of their places
  have every (P : ℝ → Prop) {i : Nat} (axis : i < axes.length) :
      (∀ v ∈ f.corners, P ((m.vertices.getD v []).getD i 0)) ↔ ∀ o ∈ w.corners, P (axes[i].tick ((shift y o).getD i 0)) := by
    simp only [corners.mem_iff, List.forall_mem_map, placed]
    refine forall₂_congr fun o corner => ?_
    rw [getD_points (sound.mem_vertices fits' among here corner) axis]
  have sides {i : Nat} (axis : i < axes.length) :
      ((∀ o ∈ w.corners, (shift y o).getD i 0 = 0) ∨ ∀ o ∈ w.corners, (shift y o).getD i 0 = (axes.map (·.count)).getD i 0) ↔
        (∀ v ∈ f.corners, (m.vertices.getD v []).getD i 0 = axes[i].start) ∨
          ∀ v ∈ f.corners, (m.vertices.getD v []).getD i 0 = axes[i].start + axes[i].length := by
    have ticks := proper _ (List.getElem_mem axis)
    have count : (axes.map (·.count)).getD i 0 = axes[i].count := by simp [axis]
    rw [every (· = axes[i].start) axis, every (· = axes[i].start + axes[i].length) axis, count]
    simp only [ticks.tick_eq_start_iff, ticks.tick_eq_end_iff]
  rw [ends, List.length_map]
  constructor
  · rintro ⟨i, axis, ending⟩
    exact ⟨i, axes[i].start, axes[i].length, by simp [axis], (sides axis).mp ending⟩
  · rintro ⟨i, start, length, side, ending⟩
    obtain ⟨axis, same⟩ := List.getElem?_eq_some_iff.mp side
    rw [List.length_map] at axis
    rw [List.getElem_map] at same
    cases same
    exact ⟨i, axis, (sides axis).mpr ending⟩

/-- The elements of a space on a grid are straight. -/
theorem mapped_made (sound : p.Sound) (even : p.Even share) (proper : ∀ a ∈ axes, a.Proper)
    (fits : axes.length = p.cell.dim) {family : String} {order : Int} {quadratureOrder : Option Int} {s : ElementSpace ℝ}
    (space : ElementSpace.make m family order quadratureOrder = .ok s) {t : Nat} {corners row : List Nat}
    (element : m.elements[t]? = some corners) (control : s.controlPoints[t]? = some row) {x : List ℝ}
    (sized : x.length = m.dim) : Tabulation.determinant? (Tabulation.jacobianAt s.element m.dim
      (row.map fun p => s.positions.getD p []) x) = some (m.stretch corners x) := by
  have formed : m.Formed := by
    refine formed_make (fun row member => ?_) made
    obtain ⟨corners, among, rfl⟩ := List.mem_map.mp member
    obtain ⟨piece, here, among⟩ := List.mem_flatMap.mp among
    obtain ⟨k, -, rfl⟩ := List.mem_map.mp among
    simp [connectivity, sound.cornered piece here]
  have among := Array.mem_of_getElem? element
  have straight := ElementSpace.make_straight formed space element control
  obtain ⟨-, found, -, -⟩ := ElementSpace.make_eq_ok formed.corners space
  obtain ⟨k, known⟩ := Element.ofKind_ofCell found
  have cell : s.element.cell = m.cell := known.shape
  have dim : s.element.dim = m.dim := congrArg Cell.dim cell
  have jacobian := straight.jacobianAt (cell.symm ▸ known) x
  rw [dim, cell] at jacobian
  rw [stretch_made made sound even proper fits among sized, jacobian]
  exact determinant_made made sound even proper fits among sized

/-- A grid divides its box. -/
theorem divides_made (sound : p.Sound) (even : p.Even share) (proper : ∀ a ∈ axes, a.Proper)
    (fits : axes.length = p.cell.dim) : m.Divides (axes.map fun a => (a.start, a.length)) := by
  have fits' : (axes.map (·.count)).length = p.cell.dim := (List.length_map _).trans fits
  obtain ⟨-, placed, elements, partitioned⟩ := Pattern.made_eq made
  constructor
  · intro v vertex
    rw [placed, List.size_toArray, length_points] at vertex
    obtain ⟨corners, among, corner⟩ := sound.exists_element fits' (List.forall_mem_map.mpr fun a axis => (proper a axis).count) vertex
    exact ⟨corners, elements ▸ List.mem_toArray.mpr among, corner⟩
  · intro corners among x sized
    rw [stretch_made made sound even proper fits among sized]
    exact mul_pos even.positive (List.prod_pos (List.forall_mem_map.mpr fun a axis => (proper a axis).spacing_pos))
  · intro family order quadratureOrder s space t corners row element control x sized
    exact mapped_made made sound even proper fits space element control sized
  · rw [sum_measure_made made sound even proper fits, List.map_map]
    rfl
  · exact partitioned.few
  · exact fun f member => boundary_made made sound proper fits member

omit made in
/-- A grid can be made, and counts the facets on its boundary by the sides of the box. -/
theorem exists_made (sound : p.Sound) (even : p.Even share) (proper : ∀ a ∈ axes, a.Proper)
    (fits : axes.length = p.cell.dim) : ∃ m, make p.cell p.cell.dim (points axes)
      (connectivity p.cell.cornerCount (p.elements (axes.map (·.count)))) = .ok m ∧
        m.Divides (axes.map fun a => (a.start, a.length)) ∧
        m.boundaryFacets.length = 2 * ((List.range p.cell.dim).map fun i => ((axes.map (·.count)).eraseIdx i).prod).sum := by
  have fits' : (axes.map (·.count)).length = p.cell.dim := (List.length_map _).trans fits
  have positive : ∀ n ∈ axes.map (·.count), 0 < n := List.forall_mem_map.mpr fun a axis => (proper a axis).count
  obtain ⟨m, made⟩ := sound.make_isOk (α := ℝ) fits' (length_points axes)
  exact ⟨m, made, divides_made made sound even proper fits, sound.length_boundaryFacets made fits' positive⟩

end Grids

/-! ### Intervals, rectangles and bricks -/

section Structured

theorem ticks_eq_ok (a : Axis) : ticks a.start a.length a.count = .ok ((List.range (a.count + 1)).map a.tick) := by
  unfold ticks
  rw [if_neg (by omega)]
  rfl

theorem places_one (n : Nat) : places [n] = (List.range n).map fun i => [i] := by simp [places]

theorem places_two (n k : Nat) : places [n, k] = (pairs n k).map fun t => [t.1, t.2] := by
  rw [places, places_one, List.flatMap_map, pairs, List.map_flatMap]
  refine List.flatMap_congr fun j _ => ?_
  rw [List.map_map]
  rfl

theorem places_three (n k l : Nat) : places [n, k, l] = (triples n k l).map fun t => [t.1, t.2.1, t.2.2] := by
  rw [places, places_two, List.flatMap_map, pairs, List.flatMap_assoc, triples, List.map_flatMap]
  refine List.flatMap_congr fun h _ => ?_
  rw [List.flatMap_map, List.map_map, pairs, List.map_flatMap]
  refine List.flatMap_congr fun j _ => ?_
  rw [List.map_map]
  rfl

theorem gridQuad_eq (n k i j : Nat) :
    gridQuad n i j = [[0, 0], [1, 0], [1, 1], [0, 1]].map fun o => number [n + 1, k + 1] (shift [i, j] o) := by
  simp only [gridQuad, shift, number, List.map_cons, List.map_nil, List.zipWith_cons_cons, List.zipWith_nil_right,
    List.cons.injEq, and_true]
  refine ⟨?_, ?_, ?_, ?_⟩ <;> ring

theorem gridHex_eq (n k l i j h : Nat) : gridHex n k i j h =
    [[0, 0, 0], [1, 0, 0], [1, 1, 0], [0, 1, 0], [0, 0, 1], [1, 0, 1], [1, 1, 1], [0, 1, 1]].map
      fun o => number [n + 1, k + 1, l + 1] (shift [i, j, h] o) := by
  simp only [gridHex, gridQuad, shift, number, List.map_cons, List.map_nil, List.zipWith_cons_cons, List.zipWith_nil_right,
    List.cons_append, List.nil_append, List.cons.injEq, and_true]
  refine ⟨?_, ?_, ?_, ?_, ?_, ?_, ?_, ?_⟩ <;> ring

theorem elements_segments (n : Nat) : Pattern.segments.elements [n] = intervalCorners n := by
  rw [Pattern.elements, intervalCorners, places_one]
  simp [Pattern.segments, number, shift]

theorem elements_squares (n k : Nat) : Pattern.squares.elements [n, k] = quadCorners n k := by
  rw [Pattern.elements, quadCorners, places_two]
  simp only [Pattern.squares, List.flatMap_singleton, List.map_map]
  exact List.map_congr_left fun t _ => (gridQuad_eq n k t.1 t.2).symm

theorem elements_halvedSquares (n k : Nat) : Pattern.halvedSquares.elements [n, k] = triCorners n k := by
  rw [Pattern.elements, triCorners, quadCorners, places_two]
  simp only [Pattern.halvedSquares, List.flatMap_cons, List.flatMap_nil, List.append_nil, List.map_map]
  refine congrArg₂ _ (List.map_congr_left fun t _ => ?_) (List.map_congr_left fun t _ => ?_)
  all_goals
    rw [Function.comp_apply, Function.comp_apply, gridQuad_eq n k]
    rfl

theorem elements_cubes (n k l : Nat) : Pattern.cubes.elements [n, k, l] = hexCorners n k l := by
  rw [Pattern.elements, hexCorners, places_three]
  simp only [Pattern.cubes, List.flatMap_singleton, List.map_map]
  exact List.map_congr_left fun t _ => (gridHex_eq n k l t.1 t.2.1 t.2.2).symm

theorem points_nil : points [] = [[]] := rfl

theorem points_cons (a : Axis) (axes : List Axis) : points (a :: axes) =
    (points axes).flatMap fun rest => ((List.range (a.count + 1)).map a.tick).map fun x => x :: rest := by
  rw [points, points, List.flatMap_map, List.map_cons, List.map_cons, places, List.map_flatMap]
  refine List.flatMap_congr fun rest _ => ?_
  rw [List.map_map, List.map_map]
  rfl

variable (a b c : Axis)

theorem interval_eq : interval a.length a.count a.start =
    make .line 1 (points [a]) (connectivity 2 (Pattern.segments.elements [a.count])) := by
  unfold interval
  rw [ticks_eq_ok, elements_segments, points_cons, points_nil, List.flatMap_singleton]
  rfl

theorem rectangle_quad_eq : rectangle a.length b.length a.count b.count "quad" (a.start, b.start) =
    make .quad 2 (points [a, b]) (connectivity 4 (Pattern.squares.elements [a.count, b.count])) := by
  unfold rectangle
  rw [ticks_eq_ok, ticks_eq_ok, elements_squares, points_cons, points_cons, points_nil, List.flatMap_singleton,
    List.flatMap_map]
  rfl

theorem rectangle_tri_eq : rectangle a.length b.length a.count b.count "tri" (a.start, b.start) =
    make .tri 2 (points [a, b]) (connectivity 3 (Pattern.halvedSquares.elements [a.count, b.count])) := by
  unfold rectangle
  rw [ticks_eq_ok, ticks_eq_ok, elements_halvedSquares, points_cons, points_cons, points_nil, List.flatMap_singleton,
    List.flatMap_map]
  rfl

theorem brick_eq : brick a.length b.length c.length a.count b.count c.count (a.start, b.start, c.start) =
    make .hex 3 (points [a, b, c]) (connectivity 8 (Pattern.cubes.elements [a.count, b.count, c.count])) := by
  let xs := (List.range (a.count + 1)).map a.tick
  let ys := (List.range (b.count + 1)).map b.tick
  let zs := (List.range (c.count + 1)).map c.tick
  have layers : points [a, b, c] = zs.flatMap fun z => ys.flatMap fun y => xs.map fun x => [x, y, z] := by
    rw [points_cons, points_cons, points_cons, points_nil, List.flatMap_singleton, List.flatMap_map, List.flatMap_assoc]
    refine List.flatMap_congr fun z _ => ?_
    rw [List.flatMap_map]
  unfold brick
  rw [ticks_eq_ok, ticks_eq_ok, ticks_eq_ok, elements_cubes, layers]
  rfl

variable {a b c}

theorem interval_divides (proper : a.Proper) : ∃ m, interval a.length a.count a.start = .ok m ∧
    m.Divides [(a.start, a.length)] ∧ m.boundaryFacets.length = 2 := by
  rw [interval_eq]
  exact exists_made Pattern.sound_segments Pattern.even_segments (List.forall_mem_singleton.mpr proper) rfl

theorem rectangle_divides (proper : a.Proper) (proper' : b.Proper) {shape : String} (among : shape ∈ ["quad", "tri"]) :
    ∃ m, rectangle a.length b.length a.count b.count shape (a.start, b.start) = .ok m ∧ m.cell.name = shape ∧
      m.Divides [(a.start, a.length), (b.start, b.length)] ∧ m.boundaryFacets.length = 2 * (a.count + b.count) := by
  have propers : ∀ d ∈ [a, b], d.Proper := List.forall_mem_cons.mpr ⟨proper, List.forall_mem_singleton.mpr proper'⟩
  have ends : 2 * ((List.range 2).map fun i => ((([a, b] : List Axis).map (·.count)).eraseIdx i).prod).sum =
      2 * (a.count + b.count) := by
    simp [List.range_succ]
    ring
  rcases List.mem_pair.mp among with rfl | rfl
  · obtain ⟨m, made, divides, count⟩ := exists_made Pattern.sound_squares Pattern.even_squares propers rfl
    exact ⟨m, rectangle_quad_eq a b ▸ made, by rw [(Pattern.made_eq made).1]; rfl, divides, count.trans ends⟩
  · obtain ⟨m, made, divides, count⟩ := exists_made Pattern.sound_halvedSquares Pattern.even_halvedSquares propers rfl
    exact ⟨m, rectangle_tri_eq a b ▸ made, by rw [(Pattern.made_eq made).1]; rfl, divides, count.trans ends⟩

theorem brick_divides (proper : ∀ d ∈ [a, b, c], d.Proper) :
    ∃ m, brick a.length b.length c.length a.count b.count c.count (a.start, b.start, c.start) = .ok m ∧
      m.Divides [(a.start, a.length), (b.start, b.length), (c.start, c.length)] ∧
      m.boundaryFacets.length = 2 * (a.count * b.count + b.count * c.count + c.count * a.count) := by
  rw [brick_eq]
  obtain ⟨m, made, divides, count⟩ := exists_made Pattern.sound_cubes Pattern.even_cubes proper rfl
  refine ⟨m, made, divides, count.trans ?_⟩
  simp [Pattern.cubes, Cell.dim, List.range_succ]
  ring

end Structured

/-- Structured meshes can be made of all boxes, with any number of intervals along their axes. All vertices are used, no
element is turned over, and the elements fill the box; facets have one or two owners, and those with one owner are the
facets on a side of the box. -/
theorem structured_divide {nx ny nz : Int} (nx_pos : 1 ≤ nx) (ny_pos : 1 ≤ ny) (nz_pos : 1 ≤ nz) {lx ly lz : ℝ}
    (lx_pos : 0 < lx) (ly_pos : 0 < ly) (lz_pos : 0 < lz) (ox oy oz : ℝ) :
    (∃ m, interval lx nx ox = .ok m ∧ m.Divides [(ox, lx)] ∧ m.boundaryFacets.length = 2) ∧
    (∀ shape ∈ ["quad", "tri"], ∃ m, rectangle lx ly nx ny shape (ox, oy) = .ok m ∧ m.cell.name = shape ∧
      m.Divides [(ox, lx), (oy, ly)] ∧ (m.boundaryFacets.length : Int) = 2 * (nx + ny)) ∧
    ∃ m, brick lx ly lz nx ny nz (ox, oy, oz) = .ok m ∧ m.Divides [(ox, lx), (oy, ly), (oz, lz)] ∧
      (m.boundaryFacets.length : Int) = 2 * (nx * ny + ny * nz + nz * nx) := by
  obtain ⟨nx, rfl⟩ := Int.eq_ofNat_of_zero_le (Int.le_of_lt nx_pos)
  obtain ⟨ny, rfl⟩ := Int.eq_ofNat_of_zero_le (Int.le_of_lt ny_pos)
  obtain ⟨nz, rfl⟩ := Int.eq_ofNat_of_zero_le (Int.le_of_lt nz_pos)
  have x : Axis.Proper ⟨ox, lx, nx⟩ := ⟨lx_pos, Int.ofNat_lt.mp nx_pos⟩
  have y : Axis.Proper ⟨oy, ly, ny⟩ := ⟨ly_pos, Int.ofNat_lt.mp ny_pos⟩
  have z : Axis.Proper ⟨oz, lz, nz⟩ := ⟨lz_pos, Int.ofNat_lt.mp nz_pos⟩
  have intervals := interval_divides x
  have bricks := brick_divides (List.forall_mem_cons.mpr ⟨x, List.forall_mem_cons.mpr ⟨y, List.forall_mem_singleton.mpr z⟩⟩)
  dsimp only at intervals bricks
  refine ⟨intervals, fun shape among => ?_, ?_⟩
  · obtain ⟨m, made, cell, divides, count⟩ := rectangle_divides x y among
    dsimp only at made divides count
    exact ⟨m, made, cell, divides, by exact_mod_cast count⟩
  · obtain ⟨m, made, divides, count⟩ := bricks
    exact ⟨m, made, divides, by exact_mod_cast count⟩

theorem structured_divide_square : ∃ m, rectangle (1 : ℝ) 1 2 1 "tri" (0, 0) = .ok m ∧ m.Divides [(0, 1), (0, 1)] ∧
    m.boundaryFacets.length = 6 ∧ ∃ s, ElementSpace.make m "lagrange" 2 none = .ok s := by
  have law := structured_divide (by decide : (1 : Int) ≤ 2) (by decide : (1 : Int) ≤ 1) (by decide : (1 : Int) ≤ 1)
    zero_lt_one zero_lt_one zero_lt_one 0 0 0
  obtain ⟨m, made, cell, divides, count⟩ := law.2.1 "tri" (by decide)
  have triangles : m.cell = .tri := by
    revert cell
    cases m.cell <;> decide
  exact ⟨m, made, divides, by exact_mod_cast count, ElementSpace.exists_quadratic triangles⟩

end Mesh

end Galerkin
