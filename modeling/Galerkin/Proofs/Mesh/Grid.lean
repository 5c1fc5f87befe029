import Mathlib
import Galerkin.Mesh.Structured
import Galerkin.Proofs.Mesh.Partition

/-!
Grids. A place in a grid has an index along every axis, and places are numbered with the first axis running fastest. All
cells of a grid are cut into elements by one pattern. A facet of an element is then a wall between two neighbouring cells
or between two elements of one cell, and it is the wall that decides whether the facet has a second owner.
-/

namespace Galerkin

namespace Mesh

/-! ### Places -/

/-- The places below some sizes in their order. -/
def places : List Nat → List (List Nat)
  | [] => [[]]
  | n :: sizes => (places sizes).flatMap fun rest => (List.range n).map fun i => i :: rest

/-- The number of a place among those below some sizes. -/
def number : List Nat → List Nat → Nat
  | n :: sizes, i :: y => i + n * number sizes y
  | _, _ => 0

/-- The place that is some steps further on. -/
def shift (y steps : List Nat) : List Nat := List.zipWith (· + ·) y steps

/-- The place that is some steps back. -/
def unshift (y steps : List Nat) : List Nat := List.zipWith (· - ·) y steps

section Places

variable {sizes x y z : List Nat}

theorem ext_getD (sized : x.length = y.length) (same : ∀ a < x.length, x.getD a 0 = y.getD a 0) : x = y := by
  refine List.ext_getElem sized fun a left right => ?_
  have entries := same a left
  rwa [List.getD_eq_getElem _ _ left, List.getD_eq_getElem _ _ right] at entries

theorem mem_places : y ∈ places sizes ↔ y.length = sizes.length ∧ ∀ a < sizes.length, y.getD a 0 < sizes.getD a 0 := by
  induction sizes generalizing y with
  | nil => simp [places]
  | cons n sizes ih =>
      simp only [places, List.mem_flatMap, List.mem_map, List.mem_range, ih]
      constructor
      · rintro ⟨rest, ⟨sized, below⟩, i, small, rfl⟩
        exact ⟨congrArg Nat.succ sized, Nat.forall_lt_succ_left.mpr ⟨small, below⟩⟩
      · rintro ⟨sized, below⟩
        obtain ⟨i, rest, rfl⟩ := List.exists_cons_of_length_eq_add_one sized
        obtain ⟨small, below⟩ := Nat.forall_lt_succ_left.mp below
        exact ⟨rest, ⟨Nat.succ.inj sized, below⟩, i, small, rfl⟩

theorem length_places (sizes : List Nat) : (places sizes).length = sizes.prod := by
  induction sizes with
  | nil => rfl
  | cons n sizes ih => simp [places, List.length_flatMap, ih, Nat.mul_comm]

theorem nodup_places (sizes : List Nat) : (places sizes).Nodup := by
  induction sizes with
  | nil => exact List.nodup_singleton _
  | cons n sizes ih =>
      refine List.nodup_flatMap.mpr ⟨fun rest _ => List.nodup_range.map fun i j same => (List.cons.inj same).1, ?_⟩
      refine ih.imp fun apart y first second => ?_
      obtain ⟨i, -, rfl⟩ := List.mem_map.mp first
      obtain ⟨j, -, same⟩ := List.mem_map.mp second
      exact apart (List.cons.inj same).2.symm

theorem getElem?_flatMap_range {β γ : Type} {n i : Nat} (small : i < n) (f : Nat → β → γ) (xs : List β) (q : Nat) :
    (xs.flatMap fun x => (List.range n).map fun i => f i x)[i + n * q]? = xs[q]?.map (f i) := by
  induction xs generalizing q with
  | nil => simp
  | cons x xs ih =>
      rw [List.flatMap_cons]
      cases q with
      | zero =>
          rw [List.getElem?_append_left (by simpa using small)]
          simp [small]
      | succ q =>
          have further : i + n * (q + 1) = n + (i + n * q) := by ring
          rw [List.getElem?_append_right (by simp [further]), List.length_map, List.length_range, further,
            Nat.add_sub_cancel_left, ih]
          rfl

theorem getElem?_number (inside : y ∈ places sizes) : (places sizes)[number sizes y]? = some y := by
  induction sizes generalizing y with
  | nil =>
      cases List.mem_singleton.mp inside
      rfl
  | cons n sizes ih =>
      obtain ⟨rest, below, member⟩ := List.mem_flatMap.mp inside
      obtain ⟨i, small, rfl⟩ := List.mem_map.mp member
      rw [places, number, getElem?_flatMap_range (List.mem_range.mp small) List.cons, ih below]
      rfl

theorem number_lt (inside : y ∈ places sizes) : number sizes y < sizes.prod := by
  rw [← length_places]
  exact (List.getElem?_eq_some_iff.mp (getElem?_number inside)).1

theorem exists_number_eq {v : Nat} (small : v < sizes.prod) : ∃ y ∈ places sizes, number sizes y = v := by
  rw [← length_places] at small
  have inside := List.getElem_mem small
  obtain ⟨bound, same⟩ := List.getElem?_eq_some_iff.mp (getElem?_number inside)
  exact ⟨_, inside, (nodup_places sizes).getElem_inj_iff.mp same⟩

/-- One index fixed leaves the choice of the others. -/
theorem countP_places {a v : Nat} (axis : a < sizes.length) (below : v < sizes.getD a 0) :
    (places sizes).countP (fun y => y.getD a 0 = v) = (sizes.eraseIdx a).prod := by
  induction sizes generalizing a with
  | nil => cases axis
  | cons n sizes ih =>
      cases a with
      | zero =>
          have one (rest : List Nat) : ((List.range n).map fun i => i :: rest).countP (fun y => y.getD 0 0 = v) = 1 := by
            rw [List.countP_map, ← List.count_eq_one_of_mem List.nodup_range (List.mem_range.mpr below), List.count]
            exact List.countP_congr fun i _ => by simp
          rw [places, List.countP_flatMap]
          simp only [Function.comp_def, one, List.map_const', List.sum_replicate, length_places]
          simp
      | succ a =>
          have all (xs : List (List Nat)) : (xs.flatMap fun rest => (List.range n).map fun i => i :: rest).countP
              (fun y => y.getD (a + 1) 0 = v) = n * xs.countP fun y => y.getD a 0 = v := by
            induction xs with
            | nil => simp
            | cons rest xs further =>
                have tail (i : Nat) : (i :: rest).getD (a + 1) 0 = rest.getD a 0 := rfl
                rw [List.flatMap_cons, List.countP_append, further, List.countP_cons, List.countP_map]
                simp only [Function.comp_def, tail]
                generalize decide (rest.getD a 0 = v) = chosen
                cases chosen with
                | false => simp
                | true => simp [Nat.mul_add, Nat.add_comm]
          rw [places, all, ih (Nat.lt_of_succ_lt_succ axis) below, List.eraseIdx_cons_succ, List.prod_cons]

theorem length_shift (sized : y.length = z.length) : (shift y z).length = y.length := by
  simp [shift, sized]

theorem getD_shift (sized : y.length = z.length) (a : Nat) : (shift y z).getD a 0 = y.getD a 0 + z.getD a 0 := by
  by_cases inside : a < y.length
  · have inside' : a < z.length := sized ▸ inside
    simp [shift, inside, inside']
  · have outside : z.length ≤ a := sized ▸ Nat.le_of_not_lt inside
    simp [shift, Nat.le_of_not_lt inside, outside]

theorem length_unshift (sized : y.length = z.length) : (unshift y z).length = y.length := by
  simp [unshift, sized]

theorem getD_unshift (sized : y.length = z.length) (a : Nat) : (unshift y z).getD a 0 = y.getD a 0 - z.getD a 0 := by
  by_cases inside : a < y.length
  · have inside' : a < z.length := sized ▸ inside
    simp [unshift, inside, inside']
  · have outside : z.length ≤ a := sized ▸ Nat.le_of_not_lt inside
    simp [unshift, Nat.le_of_not_lt inside, outside]

theorem shift_comm (y z : List Nat) : shift y z = shift z y := List.zipWith_comm_of_comm Nat.add_comm

theorem shift_zero {n : Nat} (sized : y.length = n) : shift y (List.replicate n 0) = y := by
  have sized' : y.length = (List.replicate n 0).length := sized.trans List.length_replicate.symm
  refine ext_getD (length_shift sized') fun a inside => ?_
  rw [getD_shift sized', List.getD_replicate _ (sized ▸ length_shift sized' ▸ inside), Nat.add_zero]

theorem unshift_shift (sized : y.length = z.length) : unshift (shift y z) y = z := by
  have sized' : (shift y z).length = y.length := length_shift sized
  refine ext_getD ((length_unshift sized').trans (sized'.trans sized)) fun a _ => ?_
  rw [getD_unshift sized', getD_shift sized, Nat.add_sub_cancel_left]

theorem shift_unshift (sized : y.length = z.length) (above : ∀ a < y.length, z.getD a 0 ≤ y.getD a 0) :
    shift (unshift y z) z = y := by
  have sized' : (unshift y z).length = z.length := (length_unshift sized).trans sized
  have whole := (length_shift sized').trans (length_unshift sized)
  refine ext_getD whole fun a inside => ?_
  rw [getD_shift sized', getD_unshift sized, Nat.sub_add_cancel (above a (whole ▸ inside))]

theorem shift_assoc (first : x.length = y.length) (second : y.length = z.length) :
    shift x (shift y z) = shift (shift x y) z := by
  have left := length_shift second
  have right := length_shift first
  refine ext_getD (by rw [length_shift (first.trans left.symm), length_shift (right.trans (first.trans second)), right])
    fun a _ => ?_
  rw [getD_shift (first.trans left.symm), getD_shift second, getD_shift (right.trans (first.trans second)),
    getD_shift first, Nat.add_assoc]

theorem mem_places_two {n : Nat} : y ∈ places (List.replicate n 2) ↔ y.length = n ∧ ∀ a < n, y.getD a 0 ≤ 1 := by
  rw [mem_places, List.length_replicate]
  refine and_congr_right fun _ => forall₂_congr fun a axis => ?_
  rw [List.getD_replicate _ axis, Nat.lt_succ_iff]

theorem getD_succ {a : Nat} (axis : a < sizes.length) : (sizes.map (· + 1)).getD a 0 = sizes.getD a 0 + 1 := by
  simp [axis]

/-- A step from the lowest corner of a cell leads to a vertex. -/
theorem shift_mem_vertices (sized : y.length = sizes.length) (sized' : z.length = sizes.length)
    (within : ∀ a < sizes.length, y.getD a 0 + z.getD a 0 ≤ sizes.getD a 0) : shift y z ∈ places (sizes.map (· + 1)) := by
  have lengths := sized.trans sized'.symm
  refine mem_places.mpr ⟨by rw [length_shift lengths, sized, List.length_map], fun a axis => ?_⟩
  rw [List.length_map] at axis
  rw [getD_shift lengths, getD_succ axis]
  exact Nat.lt_succ_of_le (within a axis)

end Places

/-! ### Patterns -/

/-- A facet of an element in a cell of a grid: its corners as steps from the lowest of them. The facet that is one step
further along the axis, or the same one if there is no axis, has these corners, too. -/
structure Wall where
  axis : Option Nat
  corners : List (List Nat)
  deriving DecidableEq

/-- How the cells of a grid are cut into elements. Their corners are given as steps from the lowest corner of the cell. -/
structure Pattern where
  cell : Cell
  pieces : List (List (List Nat))
  walls : List Wall

namespace Wall

def step (w : Wall) (dim : Nat) : List Nat := (List.range dim).map fun a => if w.axis = some a then 1 else 0

theorem length_step (w : Wall) (dim : Nat) : (w.step dim).length = dim := by simp [step]

theorem getD_step (w : Wall) {dim a : Nat} (inside : a < dim) :
    (w.step dim).getD a 0 = if w.axis = some a then 1 else 0 := by simp [step, inside]

end Wall

namespace Pattern

variable (p : Pattern)

/-- The corners of all facets of all pieces. -/
def faces : List (List (List Nat)) :=
  p.pieces.flatMap fun piece => p.cell.facets.map fun facet => facet.map fun c => piece.getD c []

/-- The corners of all elements of a grid. -/
def elements (sizes : List Nat) : List (List Nat) :=
  p.pieces.flatMap fun piece => (places sizes).map fun x => piece.map fun o => number (sizes.map (· + 1)) (shift x o)

/-- The pieces have all corners of the cell, and each wall is a facet of two pieces, in one cell or in neighbouring cells. -/
structure Sound : Prop where
  cornered : ∀ piece ∈ p.pieces, piece.length = p.cell.cornerCount
  inside : ∀ piece ∈ p.pieces, ∀ o ∈ piece, o ∈ places (List.replicate p.cell.dim 2)
  full : ∀ o ∈ places (List.replicate p.cell.dim 2), ∃ piece ∈ p.pieces, o ∈ piece
  paired : (p.faces.map Multiset.ofList : Multiset (Multiset (List Nat))) =
    (p.walls.flatMap fun w => [w.corners, w.corners.map (shift (w.step p.cell.dim))]).map Multiset.ofList
  corners : ∀ w ∈ p.walls, ∀ o ∈ w.corners, o ∈ places (List.replicate p.cell.dim 2)
  lowest : ∀ w ∈ p.walls, List.replicate p.cell.dim 0 ∈ w.corners
  flat : ∀ w ∈ p.walls, ∀ a ∈ w.axis, a < p.cell.dim ∧ ∀ o ∈ w.corners, o.getD a 0 = 0
  spread : ∀ w ∈ p.walls, ∀ a < p.cell.dim, w.axis ≠ some a → ∃ o ∈ w.corners, o.getD a 0 = 1
  apart : ∀ w ∈ p.walls, ∀ w' ∈ p.walls, w.corners.Perm w'.corners → w = w'
  axes : (p.walls.filterMap (·.axis)).Perm (List.range p.cell.dim)
  nodup : p.walls.Nodup

/-- Intervals. -/
def segments : Pattern := ⟨.line, [[[0], [1]]], [⟨some 0, [[0]]⟩]⟩

/-- Quadrilaterals. -/
def squares : Pattern := ⟨.quad, [[[0, 0], [1, 0], [1, 1], [0, 1]]],
  [⟨some 0, [[0, 0], [0, 1]]⟩, ⟨some 1, [[0, 0], [1, 0]]⟩]⟩

/-- Quadrilaterals cut along a diagonal. -/
def halvedSquares : Pattern := ⟨.tri, [[[0, 0], [1, 0], [1, 1]], [[0, 0], [1, 1], [0, 1]]],
  [⟨some 0, [[0, 0], [0, 1]]⟩, ⟨some 1, [[0, 0], [1, 0]]⟩, ⟨none, [[0, 0], [1, 1]]⟩]⟩

/-- Hexahedra. -/
def cubes : Pattern := ⟨.hex, [[[0, 0, 0], [1, 0, 0], [1, 1, 0], [0, 1, 0], [0, 0, 1], [1, 0, 1], [1, 1, 1], [0, 1, 1]]],
  [⟨some 0, [[0, 0, 0], [0, 1, 0], [0, 0, 1], [0, 1, 1]]⟩, ⟨some 1, [[0, 0, 0], [1, 0, 0], [0, 0, 1], [1, 0, 1]]⟩,
    ⟨some 2, [[0, 0, 0], [1, 0, 0], [0, 1, 0], [1, 1, 0]]⟩]⟩

theorem sound_segments : segments.Sound := by constructor <;> decide

theorem sound_squares : squares.Sound := by constructor <;> decide

theorem sound_halvedSquares : halvedSquares.Sound := by constructor <;> decide

theorem sound_cubes : cubes.Sound := by constructor <;> decide +kernel

end Pattern

/-! ### Keys of walls -/

theorem flatMap_map_comm {β γ δ : Type} (xs : List β) (ys : List γ) (f : β → γ → δ) :
    (xs.flatMap fun x => ys.map (f x)).Perm (ys.flatMap fun y => xs.map fun x => f x y) := by
  rw [← Multiset.coe_eq_coe, ← Multiset.coe_bind, ← Multiset.coe_bind]
  exact Multiset.bind_map_comm (xs : Multiset β) (ys : Multiset γ)

theorem sideKeys_eq (cell : Cell) (elements : List (List Nat)) : sideKeys cell elements =
    elements.flatMap fun corners => cell.facets.map fun facet => key (facet.map fun c => corners.getD c 0) := by
  have keys : sideKeys cell elements = (facetUses cell elements).map fun use => key use.1 := by
    rw [facetUses_eq, List.map_map]
    rfl
  have first {β γ : Type} (xs : List β) (f : β → γ) : (xs.zipIdx.map fun t => f t.1) = xs.map f := by
    conv_rhs => rw [← List.zipIdx_map_fst 0 xs, List.map_map]
    rfl
  rw [keys, facetUses, List.map_flatMap]
  conv_rhs => rw [← List.zipIdx_map_fst 0 elements, List.flatMap_map]
  refine List.flatMap_congr fun t _ => ?_
  rw [List.map_map]
  exact first cell.facets fun facet => key (facet.map fun c => t.1.getD c 0)

/-- The key of a facet with given corners in the cell at a place. -/
def keyAt (sizes : List Nat) (corners : List (List Nat)) (y : List Nat) : List Nat :=
  key (corners.map fun o => number (sizes.map (· + 1)) (shift y o))

namespace Wall

variable (w : Wall) (sizes : List Nat)

/-- The places of a wall that is one step further along in some cell. -/
def upper : List (List Nat) := (places sizes).map fun x => shift x (w.step sizes.length)

/-- Is the wall at this place in some cell? -/
def At (y : List Nat) : Prop := y ∈ places sizes ∨ y ∈ w.upper sizes

variable {w sizes}

theorem mem_upper {y : List Nat} : y ∈ w.upper sizes ↔ y.length = sizes.length ∧ ∀ a < sizes.length,
    (w.step sizes.length).getD a 0 ≤ y.getD a 0 ∧ y.getD a 0 < sizes.getD a 0 + (w.step sizes.length).getD a 0 := by
  have steps := w.length_step sizes.length
  rw [upper, List.mem_map]
  constructor
  · rintro ⟨x, inside, rfl⟩
    obtain ⟨sized, below⟩ := mem_places.mp inside
    have sized' := sized.trans steps.symm
    refine ⟨(length_shift sized').trans sized, fun a axis => ?_⟩
    have bound := below a axis
    rw [getD_shift sized']
    omega
  · rintro ⟨sized, between⟩
    have sized' := sized.trans steps.symm
    refine ⟨unshift y (w.step sizes.length), mem_places.mpr ⟨(length_unshift sized').trans sized, fun a axis => ?_⟩,
      shift_unshift sized' fun a axis => (between a (sized ▸ axis)).1⟩
    have bounds := between a axis
    rw [getD_unshift sized']
    omega

theorem nodup_upper (w : Wall) (sizes : List Nat) : (w.upper sizes).Nodup := by
  refine (List.nodup_map_iff_inj_on (nodup_places sizes)).mpr fun x inside x' inside' same => ?_
  have back {x : List Nat} (inside : x ∈ places sizes) :
      unshift (shift x (w.step sizes.length)) (w.step sizes.length) = x := by
    rw [shift_comm]
    exact unshift_shift ((w.length_step _).trans (mem_places.mp inside).1.symm)
  rw [← back inside, same, back inside']

theorem At.below {y : List Nat} (here : w.At sizes y) : y.length = sizes.length ∧ ∀ a < sizes.length,
    y.getD a 0 < sizes.getD a 0 + (w.step sizes.length).getD a 0 := by
  rcases here with inside | further
  · obtain ⟨sized, below⟩ := mem_places.mp inside
    exact ⟨sized, fun a axis => Nat.lt_add_right _ (below a axis)⟩
  · obtain ⟨sized, between⟩ := mem_upper.mp further
    exact ⟨sized, fun a axis => (between a axis).2⟩

end Wall

/-! ### Ends of the axes -/

section Ends

variable {sizes : List Nat}

/-- Does a place have the first or the last index along an axis? -/
def AtEnd (sizes : List Nat) (a : Nat) (y : List Nat) : Prop := y.getD a 0 = 0 ∨ y.getD a 0 = sizes.getD a 0

instance (sizes : List Nat) (a : Nat) : DecidablePred (AtEnd sizes a) := fun _ => inferInstanceAs (Decidable (_ ∨ _))

theorem getD_pos {a : Nat} (axis : a < sizes.length) (positive : ∀ n ∈ sizes, 0 < n) : 0 < sizes.getD a 0 := by
  rw [List.getD_eq_getElem _ _ axis]
  exact positive _ (List.getElem_mem axis)

theorem countP_places_ends {a : Nat} (axis : a < sizes.length) (positive : ∀ n ∈ sizes, 0 < n) :
    (places sizes).countP (AtEnd sizes a ·) = (sizes.eraseIdx a).prod := by
  rw [← countP_places axis (getD_pos axis positive)]
  refine List.countP_congr fun y here => ?_
  have below := (mem_places.mp here).2 a axis
  rw [decide_eq_true_iff, decide_eq_true_iff, AtEnd]
  omega

theorem Wall.countP_upper_ends (w : Wall) {a : Nat} (along : w.axis = some a) (axis : a < sizes.length)
    (positive : ∀ n ∈ sizes, 0 < n) : (w.upper sizes).countP (AtEnd sizes a ·) = (sizes.eraseIdx a).prod := by
  have last : sizes.getD a 0 - 1 < sizes.getD a 0 := Nat.sub_lt (getD_pos axis positive) Nat.one_pos
  rw [← countP_places axis last, Wall.upper, List.countP_map]
  refine List.countP_congr fun x here => ?_
  obtain ⟨sized, below⟩ := mem_places.mp here
  have step : (w.step sizes.length).getD a 0 = 1 := by rw [w.getD_step axis, if_pos along]
  have bound := below a axis
  rw [Function.comp_apply, decide_eq_true_iff, decide_eq_true_iff, AtEnd, getD_shift (sized.trans (w.length_step _).symm), step]
  omega

end Ends

/-! ### Sides of the elements -/

namespace Pattern

section Sides

variable {p : Pattern} {sizes : List Nat} {w w' : Wall} {y y' : List Nat}

/-- The keys of the walls at some places. -/
def wallKeys (p : Pattern) (sizes : List Nat) (spots : Wall → List (List Nat)) : List (List Nat) :=
  p.walls.flatMap fun w => (spots w).map (keyAt sizes w.corners)

/-- The keys of the walls of all cells. -/
def lowerKeys (p : Pattern) (sizes : List Nat) : List (List Nat) := p.wallKeys sizes fun _ => places sizes

/-- The keys of their walls one step further along. -/
def upperKeys (p : Pattern) (sizes : List Nat) : List (List Nat) := p.wallKeys sizes fun w => w.upper sizes

theorem Sound.sideKeys_faces (sound : p.Sound) (sizes : List Nat) : (sideKeys p.cell (p.elements sizes)).Perm
    (p.faces.flatMap fun face => (places sizes).map (keyAt sizes face)) := by
  rw [sideKeys_eq, elements, faces, List.flatMap_assoc, List.flatMap_assoc]
  refine List.Perm.flatMap_left _ fun piece among => ?_
  rw [List.flatMap_map, List.flatMap_map]
  refine (List.Perm.of_eq (List.flatMap_congr fun x _ => List.map_congr_left fun facet listed => ?_)).trans
    (flatMap_map_comm _ _ _)
  rw [keyAt, List.map_map]
  refine congrArg key (List.map_congr_left fun c corner => ?_)
  have bound : c < piece.length := by
    rw [sound.cornered piece among]
    revert c facet
    cases p.cell <;> decide
  simp [bound]

theorem Sound.length_corner (sound : p.Sound) (among : w ∈ p.walls) {o : List Nat} (corner : o ∈ w.corners) :
    o.length = p.cell.dim :=
  (mem_places_two.mp (sound.corners w among o corner)).1

theorem Sound.keyAt_step (sound : p.Sound) (among : w ∈ p.walls) (sized : y.length = p.cell.dim) :
    keyAt sizes (w.corners.map (shift (w.step p.cell.dim))) y = keyAt sizes w.corners (shift y (w.step p.cell.dim)) := by
  rw [keyAt, keyAt, List.map_map]
  refine congrArg key (List.map_congr_left fun o corner => ?_)
  have sized' := sound.length_corner among corner
  rw [Function.comp_apply, shift_assoc (sized.trans (w.length_step _).symm) ((w.length_step _).trans sized'.symm)]

/-- The sides of all elements are the walls of all cells, each of them twice. -/
theorem Sound.sideKeys_perm (sound : p.Sound) (fits : sizes.length = p.cell.dim) :
    (sideKeys p.cell (p.elements sizes)).Perm (p.lowerKeys sizes ++ p.upperKeys sizes) := by
  let keys (face : Multiset (List Nat)) : List (List Nat) := (places sizes).map fun x =>
    (face.map fun o => number (sizes.map (· + 1)) (shift x o)).sort
  have walls : (p.faces.flatMap fun face => (places sizes).map (keyAt sizes face)).Perm
      ((p.walls.flatMap fun w => [w.corners, w.corners.map (shift (w.step p.cell.dim))]).flatMap
        fun face => (places sizes).map (keyAt sizes face)) := by
    have same := (Multiset.coe_eq_coe.mp sound.paired).flatMap_right keys
    simp only [List.flatMap_map] at same
    exact same
  refine (sound.sideKeys_faces sizes).trans (walls.trans ?_)
  rw [List.flatMap_assoc, lowerKeys, upperKeys, wallKeys, wallKeys]
  refine (List.Perm.of_eq (List.flatMap_congr fun w among => ?_)).trans (List.flatMap_append_perm _ _ _).symm
  rw [List.flatMap_cons, List.flatMap_singleton]
  refine congrArg _ ?_
  rw [Wall.upper, List.map_map, fits]
  exact List.map_congr_left fun x inside => sound.keyAt_step among ((mem_places.mp inside).1.trans fits)

/-- A wall is not thicker than a cell. -/
theorem Sound.step_add_corner_le (sound : p.Sound) (among : w ∈ p.walls) {o : List Nat} (corner : o ∈ w.corners) {a : Nat}
    (axis : a < p.cell.dim) : (w.step p.cell.dim).getD a 0 + o.getD a 0 ≤ 1 := by
  have small := (mem_places_two.mp (sound.corners w among o corner)).2 a axis
  rw [w.getD_step axis]
  split
  · next along => rw [(sound.flat w among a along).2 o corner]
  · rwa [Nat.zero_add]

theorem Sound.mem_vertices (sound : p.Sound) (fits : sizes.length = p.cell.dim) (among : w ∈ p.walls)
    (here : w.At sizes y) {o : List Nat} (corner : o ∈ w.corners) : shift y o ∈ places (sizes.map (· + 1)) := by
  obtain ⟨sized, below⟩ := here.below
  refine shift_mem_vertices sized ((sound.length_corner among corner).trans fits.symm) fun a axis => ?_
  have bound := below a axis
  have thin := sound.step_add_corner_le among corner (fits ▸ axis)
  rw [fits] at bound
  omega

theorem Sound.place_le (sound : p.Sound) (among : w ∈ p.walls) (among' : w' ∈ p.walls) (sized : y.length = p.cell.dim)
    (sized' : y'.length = p.cell.dim) (points : (w.corners.map (shift y)).Perm (w'.corners.map (shift y'))) (a : Nat) :
    y'.getD a 0 ≤ y.getD a 0 := by
  have lowest := List.mem_map_of_mem (f := shift y) (sound.lowest w among)
  rw [shift_zero sized] at lowest
  obtain ⟨o, corner, same⟩ := List.mem_map.mp (points.mem_iff.mp lowest)
  rw [← same, getD_shift (sized'.trans (sound.length_corner among' corner).symm)]
  exact Nat.le_add_right _ _

/-- A key tells the wall and the place. -/
theorem Sound.keyAt_injective (sound : p.Sound) (fits : sizes.length = p.cell.dim) (among : w ∈ p.walls)
    (among' : w' ∈ p.walls) (here : w.At sizes y) (there : w'.At sizes y')
    (same : keyAt sizes w.corners y = keyAt sizes w'.corners y') : w = w' ∧ y = y' := by
  have sized := here.below.1.trans fits
  have sized' := there.below.1.trans fits
  have points : (w.corners.map (shift y)).Perm (w'.corners.map (shift y')) := by
    have vertex {w : Wall} {y : List Nat} (among : w ∈ p.walls) (here : w.At sizes y) :
        ((w.corners.map fun o => number (sizes.map (· + 1)) (shift y o)).map
          fun v => (places (sizes.map (· + 1))).getD v []) = w.corners.map (shift y) := by
      rw [List.map_map]
      refine List.map_congr_left fun o corner => ?_
      rw [Function.comp_apply, List.getD_eq_getElem?_getD, getElem?_number (sound.mem_vertices fits among here corner),
        Option.getD_some]
    have numbers := (key_eq_iff.mp same).map fun v => (places (sizes.map (· + 1))).getD v []
    rwa [vertex among here, vertex among' there] at numbers
  have place : y = y' := ext_getD (sized.trans sized'.symm) fun a _ =>
    le_antisymm (sound.place_le among' among sized' sized points.symm a) (sound.place_le among among' sized sized' points a)
  subst place
  have back {w : Wall} (among : w ∈ p.walls) : (w.corners.map (shift y)).map (unshift · y) = w.corners := by
    rw [List.map_map]
    refine (List.map_congr_left fun o corner => ?_).trans (List.map_id _)
    exact unshift_shift (sized.trans (sound.length_corner among corner).symm)
  have corners := points.map (unshift · y)
  rw [back among, back among'] at corners
  exact ⟨sound.apart w among w' among' corners, rfl⟩

theorem Sound.nodup_wallKeys (sound : p.Sound) (fits : sizes.length = p.cell.dim) {spots : Wall → List (List Nat)}
    (at_spots : ∀ w, ∀ y ∈ spots w, w.At sizes y) (distinct : ∀ w, (spots w).Nodup) : (p.wallKeys sizes spots).Nodup := by
  refine List.nodup_flatMap.mpr ⟨fun w among => (List.nodup_map_iff_inj_on (distinct w)).mpr fun y here y' there same => ?_, ?_⟩
  · exact (sound.keyAt_injective fits among among (at_spots w y here) (at_spots w y' there) same).2
  · refine sound.nodup.imp_of_mem fun {w w'} among among' apart => ?_
    intro k first second
    obtain ⟨y, here, rfl⟩ := List.mem_map.mp first
    obtain ⟨y', there, same⟩ := List.mem_map.mp second
    exact apart (sound.keyAt_injective fits among' among (at_spots w' y' there) (at_spots w y here) same).1.symm

theorem Sound.mem_wallKeys (sound : p.Sound) (fits : sizes.length = p.cell.dim) {spots : Wall → List (List Nat)}
    (at_spots : ∀ w, ∀ y ∈ spots w, w.At sizes y) (among : w ∈ p.walls) (here : w.At sizes y) :
    keyAt sizes w.corners y ∈ p.wallKeys sizes spots ↔ y ∈ spots w := by
  rw [wallKeys, List.mem_flatMap]
  constructor
  · rintro ⟨w', among', member⟩
    obtain ⟨y', there, same⟩ := List.mem_map.mp member
    obtain ⟨rfl, rfl⟩ := sound.keyAt_injective fits among' among (at_spots w' y' there) here same
    exact there
  · intro inside
    exact ⟨w, among, List.mem_map_of_mem inside⟩

/-- A key comes up once for each cell that has the wall. -/
theorem Sound.count_sideKeys (sound : p.Sound) (fits : sizes.length = p.cell.dim) (k : List Nat) :
    (sideKeys p.cell (p.elements sizes)).count k =
      (if k ∈ p.lowerKeys sizes then 1 else 0) + if k ∈ p.upperKeys sizes then 1 else 0 := by
  have lower : (p.lowerKeys sizes).Nodup := sound.nodup_wallKeys fits (fun _ _ inside => .inl inside) fun _ => nodup_places sizes
  have upper : (p.upperKeys sizes).Nodup := sound.nodup_wallKeys fits (fun _ _ further => .inr further) fun w => w.nodup_upper sizes
  rw [(sound.sideKeys_perm fits).count_eq, List.count_append, lower.count, upper.count]

theorem Sound.mem_sideKeys (sound : p.Sound) (fits : sizes.length = p.cell.dim) {k : List Nat} :
    k ∈ sideKeys p.cell (p.elements sizes) ↔ ∃ w ∈ p.walls, ∃ y, w.At sizes y ∧ keyAt sizes w.corners y = k := by
  rw [(sound.sideKeys_perm fits).mem_iff, List.mem_append, lowerKeys, upperKeys, wallKeys, wallKeys]
  simp only [List.mem_flatMap, List.mem_map, Wall.At]
  constructor
  · rintro (⟨w, among, y, inside, same⟩ | ⟨w, among, y, further, same⟩)
    · exact ⟨w, among, y, .inl inside, same⟩
    · exact ⟨w, among, y, .inr further, same⟩
  · rintro ⟨w, among, y, inside | further, same⟩
    · exact .inl ⟨w, among, y, inside, same⟩
    · exact .inr ⟨w, among, y, further, same⟩

theorem Sound.mem_places_iff (sound : p.Sound) (fits : sizes.length = p.cell.dim) (among : w ∈ p.walls)
    (here : w.At sizes y) : y ∈ places sizes ↔ ∀ a ∈ w.axis, y.getD a 0 ≠ sizes.getD a 0 := by
  constructor
  · intro inside a along
    exact Nat.ne_of_lt ((mem_places.mp inside).2 a (fits ▸ (sound.flat w among a along).1))
  · intro apart
    refine mem_places.mpr ⟨here.below.1, fun a axis => ?_⟩
    have bound := here.below.2 a axis
    rw [w.getD_step axis] at bound
    split at bound
    · next along =>
        have other := apart a along
        omega
    · exact bound

theorem Sound.mem_upper_iff (sound : p.Sound) (fits : sizes.length = p.cell.dim) (among : w ∈ p.walls)
    (here : w.At sizes y) : y ∈ w.upper sizes ↔ ∀ a ∈ w.axis, y.getD a 0 ≠ 0 := by
  constructor
  · intro further a along
    have inside : a < sizes.length := fits ▸ (sound.flat w among a along).1
    have bound := ((Wall.mem_upper.mp further).2 a inside).1
    rw [w.getD_step inside, if_pos (Option.mem_def.mp along)] at bound
    exact Nat.ne_of_gt bound
  · intro apart
    refine Wall.mem_upper.mpr ⟨here.below.1, fun a axis => ⟨?_, here.below.2 a axis⟩⟩
    rw [w.getD_step axis]
    split
    · next along => exact Nat.pos_of_ne_zero (apart a along)
    · exact Nat.zero_le _

/-- A side has no other one with its corners exactly if its wall is at an end of the wall's axis. -/
theorem Sound.count_eq_one_iff (sound : p.Sound) (fits : sizes.length = p.cell.dim) (among : w ∈ p.walls)
    (here : w.At sizes y) : (sideKeys p.cell (p.elements sizes)).count (keyAt sizes w.corners y) = 1 ↔
      ∃ a ∈ w.axis, AtEnd sizes a y := by
  have lower : keyAt sizes w.corners y ∈ p.lowerKeys sizes ↔ ∀ a ∈ w.axis, y.getD a 0 ≠ sizes.getD a 0 :=
    (sound.mem_wallKeys fits (fun _ _ inside => .inl inside) among here).trans (sound.mem_places_iff fits among here)
  have upper : keyAt sizes w.corners y ∈ p.upperKeys sizes ↔ ∀ a ∈ w.axis, y.getD a 0 ≠ 0 :=
    (sound.mem_wallKeys fits (fun _ _ further => .inr further) among here).trans (sound.mem_upper_iff fits among here)
  have one : (∀ a ∈ w.axis, y.getD a 0 ≠ sizes.getD a 0) ∨ ∀ a ∈ w.axis, y.getD a 0 ≠ 0 :=
    here.imp (sound.mem_places_iff fits among here).mp (sound.mem_upper_iff fits among here).mp
  rw [sound.count_sideKeys fits]
  simp only [lower, upper]
  cases along : w.axis with
  | none => simp
  | some a =>
      simp only [along, Option.mem_some_iff, forall_eq'] at one
      simp only [Option.mem_some_iff, forall_eq', exists_eq_left', AtEnd]
      split <;> split <;> omega

theorem sum_filterMap {β γ : Type} (f : β → Option γ) (g : γ → Nat) (xs : List β) :
    (xs.map fun x => (f x).elim 0 g).sum = ((xs.filterMap f).map g).sum := by
  induction xs with
  | nil => rfl
  | cons x xs ih =>
      rw [List.map_cons, List.sum_cons, ih, List.filterMap_cons]
      cases f x with
      | none => exact Nat.zero_add _
      | some y => rfl

/-- There are as many walls at the ends of the axes as places in them. -/
theorem Sound.countP_wallKeys (sound : p.Sound) (fits : sizes.length = p.cell.dim) (spots : Wall → List (List Nat))
    (at_spots : ∀ w, ∀ y ∈ spots w, w.At sizes y)
    (ends : ∀ w ∈ p.walls, ∀ a ∈ w.axis, (spots w).countP (AtEnd sizes a ·) = (sizes.eraseIdx a).prod) :
    (p.wallKeys sizes spots).countP (fun k => (sideKeys p.cell (p.elements sizes)).count k = 1) =
      ((List.range p.cell.dim).map fun a => (sizes.eraseIdx a).prod).sum := by
  rw [← (sound.axes.map fun a => (sizes.eraseIdx a).prod).sum_eq, ← sum_filterMap, wallKeys, List.countP_flatMap]
  refine congrArg List.sum (List.map_congr_left fun w among => ?_)
  rw [Function.comp_apply, List.countP_map]
  have alone : ∀ y ∈ spots w, (((fun k => decide ((sideKeys p.cell (p.elements sizes)).count k = 1)) ∘
      keyAt sizes w.corners) y = true ↔ decide (∃ a ∈ w.axis, AtEnd sizes a y) = true) := by
    intro y here
    rw [Function.comp_apply, decide_eq_true_iff, decide_eq_true_iff]
    exact sound.count_eq_one_iff fits among (at_spots w y here)
  rw [List.countP_congr alone]
  cases along : w.axis with
  | none => simp
  | some a =>
      rw [Option.elim_some, ← ends w among a along]
      exact List.countP_congr fun y _ => by simp

theorem Sound.countP_ends (sound : p.Sound) (fits : sizes.length = p.cell.dim) (positive : ∀ n ∈ sizes, 0 < n) :
    (sideKeys p.cell (p.elements sizes)).countP (fun k => (sideKeys p.cell (p.elements sizes)).count k = 1) =
      2 * ((List.range p.cell.dim).map fun a => (sizes.eraseIdx a).prod).sum := by
  have inside {w : Wall} (among : w ∈ p.walls) {a : Nat} (along : a ∈ w.axis) : a < sizes.length :=
    fits ▸ (sound.flat w among a along).1
  have lower := sound.countP_wallKeys fits (fun _ => places sizes) (fun _ _ here => .inl here)
    fun w among a along => countP_places_ends (inside among along) positive
  have upper := sound.countP_wallKeys fits (fun w => w.upper sizes) (fun _ _ here => .inr here)
    fun w among a along => w.countP_upper_ends along (inside among along) positive
  rw [(sound.sideKeys_perm fits).countP_eq, List.countP_append, lowerKeys, upperKeys, lower, upper, two_mul]

end Sides

end Pattern

/-! ### Meshes of grids -/

theorem elementsOf_connectivity (n : Nat) (rows : List (List Nat)) : elementsOf (connectivity n rows) = rows := by
  have back : (fun row : List Nat => (row.map Int.ofNat).map Int.toNat) = id := by
    funext row
    rw [List.map_map]
    exact List.map_id _
  rw [elementsOf, connectivity, List.map_map]
  exact (congrArg (List.map · rows) back).trans (List.map_id rows)

namespace Pattern

variable {p : Pattern} {sizes : List Nat}

theorem Sound.corner_mem (sound : p.Sound) (fits : sizes.length = p.cell.dim) {x : List Nat} (cell : x ∈ places sizes)
    {piece : List (List Nat)} (among : piece ∈ p.pieces) {o : List Nat} (corner : o ∈ piece) :
    x.length = o.length ∧ shift x o ∈ places (sizes.map (· + 1)) := by
  obtain ⟨sized, below⟩ := mem_places.mp cell
  obtain ⟨sized', small⟩ := mem_places_two.mp (sound.inside piece among o corner)
  refine ⟨sized.trans (fits.trans sized'.symm), shift_mem_vertices sized (sized'.trans fits.symm) fun a axis => ?_⟩
  have bound := below a axis
  have unit := small a (fits ▸ axis)
  omega

theorem Sound.accepted (sound : p.Sound) (fits : sizes.length = p.cell.dim) :
    Accepted p.cell p.cell.dim (sizes.map (· + 1)).prod (connectivity p.cell.cornerCount (p.elements sizes)) := by
  refine ⟨⟨_, rfl⟩, rfl, fun row member i among => ?_⟩
  obtain ⟨corners, element, rfl⟩ := List.mem_map.mp member
  obtain ⟨v, corner, rfl⟩ := List.mem_map.mp among
  obtain ⟨piece, here, element⟩ := List.mem_flatMap.mp element
  obtain ⟨x, cell, rfl⟩ := List.mem_map.mp element
  obtain ⟨o, within, rfl⟩ := List.mem_map.mp corner
  have small := number_lt (sound.corner_mem fits cell here within).2
  exact ⟨Int.natCast_nonneg _, Int.ofNat_lt.mpr small⟩

/-- Every vertex is a corner of an element. -/
theorem Sound.exists_element (sound : p.Sound) (fits : sizes.length = p.cell.dim) (positive : ∀ n ∈ sizes, 0 < n) {v : Nat}
    (vertex : v < (sizes.map (· + 1)).prod) : ∃ corners ∈ p.elements sizes, v ∈ corners := by
  obtain ⟨y, inside, rfl⟩ := exists_number_eq vertex
  obtain ⟨sized, below⟩ := mem_places.mp inside
  rw [List.length_map] at sized
  -- the cell before the vertex along every axis, except at the start
  let x := (List.range sizes.length).map fun a => min (y.getD a 0) (sizes.getD a 0 - 1)
  have entry {a : Nat} (axis : a < sizes.length) : x.getD a 0 = min (y.getD a 0) (sizes.getD a 0 - 1) := by simp [x, axis]
  have lengths : y.length = x.length := by simp [x, sized]
  have cell : x ∈ places sizes := by
    refine mem_places.mpr ⟨by simp [x], fun a axis => ?_⟩
    have size := getD_pos axis positive
    rw [entry axis]
    omega
  have corner : unshift y x ∈ places (List.replicate p.cell.dim 2) := by
    refine mem_places_two.mpr ⟨by rw [length_unshift lengths, sized, fits], fun a axis => ?_⟩
    have axis' : a < sizes.length := fits.symm ▸ axis
    have bound := below a (by simpa using axis')
    rw [getD_succ axis'] at bound
    rw [getD_unshift lengths, entry axis']
    omega
  have back : shift x (unshift y x) = y := by
    rw [shift_comm]
    refine shift_unshift lengths fun a axis => ?_
    rw [entry (sized ▸ axis)]
    exact min_le_left _ _
  obtain ⟨piece, among, within⟩ := sound.full _ corner
  refine ⟨_, List.mem_flatMap.mpr ⟨piece, among, List.mem_map_of_mem cell⟩, List.mem_map.mpr ⟨_, within, ?_⟩⟩
  rw [back]

/-- The corners of a wall at an end of its axis, and of no other, lie on one side of the grid. -/
theorem Sound.ends_iff (sound : p.Sound) (fits : sizes.length = p.cell.dim) {w : Wall} (among : w ∈ p.walls) {y : List Nat}
    (here : w.At sizes y) : (∃ a ∈ w.axis, AtEnd sizes a y) ↔
      ∃ a < sizes.length, (∀ o ∈ w.corners, (shift y o).getD a 0 = 0) ∨
        ∀ o ∈ w.corners, (shift y o).getD a 0 = sizes.getD a 0 := by
  have sized := here.below.1.trans fits
  have entry {o : List Nat} (corner : o ∈ w.corners) (a : Nat) : (shift y o).getD a 0 = y.getD a 0 + o.getD a 0 :=
    getD_shift (sized.trans (sound.length_corner among corner).symm) a
  constructor
  · rintro ⟨a, along, ending⟩
    obtain ⟨inside, flat⟩ := sound.flat w among a along
    have same {o : List Nat} (corner : o ∈ w.corners) : (shift y o).getD a 0 = y.getD a 0 := by
      rw [entry corner, flat o corner, Nat.add_zero]
    exact ⟨a, fits ▸ inside, ending.imp (fun first o corner => (same corner).trans first)
      fun last o corner => (same corner).trans last⟩
  · rintro ⟨a, inside, ending⟩
    have lowest := sound.lowest w among
    have origin : (shift y (List.replicate p.cell.dim 0)).getD a 0 = y.getD a 0 := by rw [shift_zero sized]
    by_cases along : w.axis = some a
    · exact ⟨a, along, ending.imp (fun first => origin.symm.trans (first _ lowest)) fun last => origin.symm.trans (last _ lowest)⟩
    · obtain ⟨o, corner, one⟩ := sound.spread w among a (fits ▸ inside) along
      have further := entry corner a
      have bound := here.below.2 a inside
      rw [w.getD_step inside, if_neg along] at bound
      rcases ending with first | last
      · have none := first o corner
        omega
      · have least := last _ lowest
        omega

section Made

variable {α : Type} {vertices : List (List α)} {m : Mesh α}

theorem Sound.make_isOk (sound : p.Sound) (fits : sizes.length = p.cell.dim)
    (counted : vertices.length = (sizes.map (· + 1)).prod) :
    ∃ m, make p.cell p.cell.dim vertices (connectivity p.cell.cornerCount (p.elements sizes)) = .ok m := by
  refine made_iff.mpr ⟨counted ▸ sound.accepted fits, fun k => ?_⟩
  rw [elementsOf_connectivity, sound.count_sideKeys fits]
  split <;> split <;> decide

variable (made : make p.cell p.cell.dim vertices (connectivity p.cell.cornerCount (p.elements sizes)) = .ok m)

include made

theorem made_eq : m.cell = p.cell ∧ m.vertices = vertices.toArray ∧ m.elements = (p.elements sizes).toArray ∧ m.Partitioned := by
  obtain ⟨-, -, partitioned⟩ := partitioned_of_made made
  obtain ⟨-, -, rfl⟩ := make_eq_ok.mp made
  exact ⟨rfl, rfl, congrArg _ (elementsOf_connectivity _ _), partitioned⟩

theorem sideKeys_made : m.sidesOf.map m.keyOf = sideKeys p.cell (p.elements sizes) := by
  obtain ⟨cell, -, elements, -⟩ := made_eq made
  rw [sidesOf, keyOf, cell, elements]
  rfl

/-- A facet is the wall of a cell, and on the boundary exactly if all of its corners lie on one side of the grid. -/
theorem Sound.facet_made (sound : p.Sound) (fits : sizes.length = p.cell.dim) {f : Facet} (member : f ∈ m.facets) :
    ∃ w ∈ p.walls, ∃ y, w.At sizes y ∧
      f.corners.Perm (w.corners.map fun o => number (sizes.map (· + 1)) (shift y o)) ∧
      (f.isBoundary ↔ ∃ a < sizes.length, (∀ o ∈ w.corners, (shift y o).getD a 0 = 0) ∨
        ∀ o ∈ w.corners, (shift y o).getD a 0 = sizes.getD a 0) := by
  obtain ⟨-, -, -, partitioned⟩ := made_eq made
  have listed := List.mem_map_of_mem (f := fun f => key f.corners) (Array.mem_toList_iff.mpr member)
  rw [partitioned.keys, List.mem_eraseDups, sideKeys_made made] at listed
  obtain ⟨w, among, y, here, same⟩ := (sound.mem_sideKeys fits).mp listed
  refine ⟨w, among, y, here, key_eq_iff.mp same.symm, ?_⟩
  rw [isBoundary_iff, partitioned.length_owners member, sideKeys_made made, ← same, sound.count_eq_one_iff fits among here,
    sound.ends_iff fits among here]

theorem Sound.length_boundaryFacets (sound : p.Sound) (fits : sizes.length = p.cell.dim) (positive : ∀ n ∈ sizes, 0 < n) :
    m.boundaryFacets.length = 2 * ((List.range p.cell.dim).map fun a => (sizes.eraseIdx a).prod).sum := by
  obtain ⟨-, -, -, partitioned⟩ := made_eq made
  rw [partitioned.length_boundaryFacets, sideKeys_made made, sound.countP_ends fits positive]

end Made

end Pattern

end Mesh

end Galerkin
