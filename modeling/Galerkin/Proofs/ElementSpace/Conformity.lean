import Mathlib
import Galerkin.Proofs.ElementSpace.Sharing

/-!
Interpolated fields are continuous across the facets of a mesh. On a facet the field of either owner is that of the
facet's own element, with the values at the points on the facet; where the owners have the facet in different orders of
its corners, the facet's element is turned.
-/

namespace Galerkin

namespace Cell

variable {c : Cell} {π : List Nat} {w w' t : List ℝ}

theorem length_cornerWeights (flat : c.dim ≤ 2) (found : c.cornerWeights t = .ok w) : w.length = c.cornerCount := by
  rw [cornerWeights_eq_ok found, List.length_map]
  revert flat
  clear found
  cases c <;> decide

/-- A turn that takes the weights along does not move the point. -/
theorem cornerSum_turn (turn : π ∈ c.turns) (length : w.length = c.cornerCount) (length' : w'.length = c.cornerCount)
    (same : ∀ i k : Nat, π[i]? = some k → w[i]? = w'[k]?) :
    c.cornerSum π w = c.cornerSum (List.range c.cornerCount) w' := by
  have perm := (mem_turns.mp turn).1
  have size := perm.length_eq.trans List.length_range
  have turned : π.zip w = π.map fun k => (k, w'.getD k 0) := by
    refine List.ext_getElem (by simp [size, length]) fun i left right => ?_
    have inside : i < π.length := by simpa using right
    have weight := same i π[i] (List.getElem?_eq_getElem inside)
    rw [List.getElem_zip, List.getElem_map, List.getD_eq_getElem?_getD, ← weight,
      List.getElem?_eq_getElem (by omega), Option.getD_some]
  have straight : (List.range c.cornerCount).zip w' = (List.range c.cornerCount).map fun k => (k, w'.getD k 0) := by
    refine List.ext_getElem (by simp [length']) fun i left right => ?_
    have inside : i < w'.length := by simpa [length'] using right
    simp [inside]
  refine List.map_congr_left fun axis _ => ?_
  rw [total_eq_sum, total_eq_sum, turned, straight, List.map_map, List.map_map]
  exact (perm.map _).sum_eq

end Cell

namespace ElementSpace

open Element (fieldAt entityTolerance)

variable {s : ElementSpace ℝ} {k : Element.Kind}

theorem sum_zipWith_mul {β γ : Type} {xs : List β} {ys : List γ} (same : xs.length = ys.length) (f : β → ℝ) (g : γ → ℝ)
    (x₀ : β) (y₀ : γ) : (List.zipWith (· * ·) (xs.map f) (ys.map g)).sum =
      ∑ a ∈ Finset.range ys.length, f (xs.getD a x₀) * g (ys.getD a y₀) := by
  rw [Finset.sum_range, ← List.sum_ofFn]
  refine congrArg List.sum (List.ext_getElem (by simp [same]) fun i left right => ?_)
  have inside : i < ys.length := by simpa using right
  simp [same.symm ▸ inside]

/-- The value at the point of an entity, when all points have values. -/
def valueOn (s : ElementSpace ℝ) (v : Nat → ℝ) (corners entity : List Nat) : ℝ :=
  v (pointOf s.mesh.vertices.size s.innerKeys (hereOf corners entity))

theorem valueOn_perm (v : Nat → ℝ) (corners : List Nat) {entity entity' : List Nat} (perm : entity.Perm entity') :
    s.valueOn v corners entity = s.valueOn v corners entity' := congrArg v (pointOf_perm (perm.map _))

theorem valueOn_hereOf (v : Nat → ℝ) (corners : List Nat) {facet entity : List Nat}
    (bounds : ∀ i ∈ entity, i < facet.length) :
    s.valueOn v (hereOf corners facet) entity = s.valueOn v corners (hereOf facet entity) := by
  rw [valueOn, hereOf_hereOf bounds, valueOn]

/-- The value of a field on an element is that of its basis, with the values at the points of its entities. -/
theorem Regular.dot_values (regular : s.Regular k) {e : Nat} {corners : List Nat}
    (found : s.mesh.elements[e]? = some corners) :
    ∃ points, s.elementPoints e = .ok points ∧ ∀ (v : Nat → ℝ) (x : List ℝ),
      Arithmetic.dot (s.element.values x) (points.map v) =
        fieldAt s.mesh.cell s.element.nodes s.element.basis (s.valueOn v corners) x := by
  have row := regular.built.controlPoints e
  rw [found, Option.map_some] at row
  refine ⟨_, Block.elementPoints_eq_ok.mpr ⟨e, Block.position?_ofNat (Array.getElem?_eq_some_iff.mp row).1, row⟩, ?_⟩
  intro v x
  rw [Arithmetic.dot, total_eq_sum, Element.values, regular.kind.entities, List.map_map, List.map_map]
  exact sum_zipWith_mul regular.kind.nodal.length _ _ [] []

/-- On a facet the field of an element is that of the facet's own element. -/
theorem Regular.fieldAt_facet (regular : s.Regular k) {facet : List Nat} (there : facet ∈ s.mesh.cell.facets)
    {basis : List Polynomial}
    (nodal : Element.NodalBasis (k.points s.mesh.cell.facetCell) (k.exponents s.mesh.cell.facetCell) basis)
    {t w : List ℝ} (weights : s.mesh.cell.facetCell.cornerWeights t = .ok w) (v : Nat → ℝ) (corners : List Nat) :
    fieldAt s.mesh.cell s.element.nodes s.element.basis (s.valueOn v corners) (s.mesh.cell.cornerSum facet w) =
      fieldAt s.mesh.cell.facetCell (k.points s.mesh.cell.facetCell) basis (s.valueOn v (hereOf corners facet)) t := by
  have face := Element.Kind.face_of_facet regular.kind.fits facet there
  refine (face.fieldAt_eq regular.kind.nodal (fun x => regular.kind.nodes.mem_iff.mpr) nodal (fun _ => id) weights
    fun l l' => valueOn_perm v corners).trans ?_
  exact Element.fieldAt_congr (fun y known => (valueOn_hereOf v corners (face.bounds y known)).symm) t

/-- The field of a facet's own element does not change when the facet is turned. -/
theorem Regular.fieldAt_turn (regular : s.Regular k) {π : List Nat} (turn : π ∈ s.mesh.cell.facetCell.turns)
    {basis : List Polynomial}
    (nodal : Element.NodalBasis (k.points s.mesh.cell.facetCell) (k.exponents s.mesh.cell.facetCell) basis)
    {t w : List ℝ} (weights : s.mesh.cell.facetCell.cornerWeights t = .ok w) (v : Nat → ℝ) (corners : List Nat) :
    fieldAt s.mesh.cell.facetCell (k.points s.mesh.cell.facetCell) basis (s.valueOn v corners)
        (s.mesh.cell.facetCell.cornerSum π w) =
      fieldAt s.mesh.cell.facetCell (k.points s.mesh.cell.facetCell) basis (s.valueOn v (hereOf corners π)) t := by
  have face := Element.Kind.face_of_turn regular.kind.fits.facetCell (Cell.flat_facetCell _) π turn
  refine (face.fieldAt_eq nodal (fun _ => id) nodal (fun _ => id) weights fun l l' => valueOn_perm v corners).trans ?_
  exact Element.fieldAt_congr (fun y known => (valueOn_hereOf v corners (face.bounds y known)).symm) t

/-- The element space is conforming: where the corner weights of two points on a facet agree, the owners of the facet
give a field the same value, whatever values it has at the control points and however the owners are turned. -/
theorem make_conforming {mesh : Mesh ℝ} (formed : mesh.Formed) (distinct : ∀ corners ∈ mesh.elements, corners.Nodup)
    {family : String} {order : Int} {quadratureOrder : Option Int}
    (made : make mesh family order quadratureOrder = .ok s) {F : Facet} (listed : F ∈ mesh.facets) {o o' : Nat × Nat}
    (owners : F.owners = [o, o']) (aligned : mesh.Aligned o o') {facet facet' : List Nat}
    (there : mesh.cell.facets[o.2]? = some facet) (there' : mesh.cell.facets[o'.2]? = some facet') {t t' w w' : List ℝ}
    (weights : mesh.cell.facetCell.cornerWeights t = .ok w) (weights' : mesh.cell.facetCell.cornerWeights t' = .ok w')
    (agree : ∀ g g', mesh.seen? o = some g → mesh.seen? o' = some g' →
      ∀ i j vertex : Nat, g[i]? = some vertex → g'[j]? = some vertex → w[i]? = w'[j]?) :
    ∃ x x', mesh.cell.facetPoint facet t = .ok x ∧ mesh.cell.facetPoint facet' t' = .ok x' ∧
      ∃ points points', s.elementPoints o.1 = .ok points ∧ s.elementPoints o'.1 = .ok points' ∧
        ∀ v : Nat → ℝ, Arithmetic.dot (s.element.values x) (points.map v) =
          Arithmetic.dot (s.element.values x') (points'.map v) := by
  obtain ⟨rfl, k, regular⟩ := make_regular formed distinct made
  obtain ⟨corners, own, corners', own', π, element, listing, element', listing', turn, turned⟩ :=
    regular.exists_turn listed (by simp [owners]) (by simp [owners]) aligned
  cases there.symm.trans listing
  cases there'.symm.trans listing'
  obtain ⟨points, row, field⟩ := regular.dot_values element
  obtain ⟨points', row', field'⟩ := regular.dot_values element'
  have flat := Cell.flat_facetCell s.mesh.cell
  obtain ⟨basis, nodal⟩ := Element.Kind.exists_nodalBasis regular.kind.fits.facetCell flat
  -- The second point, seen from the facet as the first owner has it.
  have length := Cell.length_cornerWeights flat weights
  have length' := Cell.length_cornerWeights flat weights'
  have moved : s.mesh.cell.facetCell.cornerSum π w =
      s.mesh.cell.facetCell.cornerSum (List.range s.mesh.cell.facetCell.cornerCount) w' := by
    refine Cell.cornerSum_turn turn length length' fun i j here => ?_
    have bound : j < facet'.length := by
      have among := (Cell.mem_turns.mp turn).1.mem_iff.mp (List.mem_of_getElem? here)
      rw [(Cell.facet_regular facet' (List.mem_of_getElem? there')).2.1]
      exact List.mem_range.mp among
    refine agree _ _ (Mesh.seen?_eq element there) (Mesh.seen?_eq element' there') i j
      ((hereOf corners' facet').getD j 0) ?_ ?_
    · rw [turned, hereOf, List.getElem?_map, here, Option.map_some]
    · rw [List.getElem?_eq_getElem (by rwa [hereOf, List.length_map]), List.getD_eq_getElem _ _ (by rwa [hereOf, List.length_map])]
  refine ⟨_, _, Outcome.bind_eq_ok.mpr ⟨w, weights, rfl⟩, Outcome.bind_eq_ok.mpr ⟨w', weights', rfl⟩, points, points', row,
    row', fun v => ?_⟩
  calc _ = fieldAt s.mesh.cell s.element.nodes s.element.basis (s.valueOn v corners) (s.mesh.cell.cornerSum facet w) :=
        field v _
    _ = fieldAt s.mesh.cell.facetCell (k.points s.mesh.cell.facetCell) basis (s.valueOn v (hereOf corners facet)) t :=
        regular.fieldAt_facet (List.mem_of_getElem? there) nodal weights v corners
    _ = fieldAt s.mesh.cell.facetCell (k.points s.mesh.cell.facetCell) basis (s.valueOn v (hereOf corners' facet'))
        (s.mesh.cell.facetCell.cornerSum π w) := by rw [regular.fieldAt_turn turn nodal weights, turned]
    _ = fieldAt s.mesh.cell s.element.nodes s.element.basis (s.valueOn v corners') (s.mesh.cell.cornerSum facet' w') := by
        rw [moved]
        exact (regular.fieldAt_facet (List.mem_of_getElem? there') nodal (Cell.cornerWeights_cornerSum weights') v corners').symm
    _ = _ := (field' v _).symm

/-- The triangles of a cut square have the diagonal in opposite directions. -/
theorem cutSquare_conforming : ∃ s, make cutSquare "lagrange" 2 none = .ok s ∧
    ∃ x x', cutSquare.cell.facetPoint [2, 0] [1 / 3] = .ok x ∧ cutSquare.cell.facetPoint [0, 1] [-1 / 3] = .ok x' ∧
      ∃ points points', s.elementPoints 0 = .ok points ∧ s.elementPoints 1 = .ok points' ∧
        ∀ v : Nat → ℝ, Arithmetic.dot (s.element.values x) (points.map v) =
          Arithmetic.dot (s.element.values x') (points'.map v) := by
  obtain ⟨s, made⟩ := make_cutSquare
  have distinct : ∀ corners ∈ cutSquare.elements, corners.Nodup := by decide
  have diagonal : cutSquare.facets[2]? = some ⟨[2, 0], [(0, 2), (1, 0)]⟩ := rfl
  have swapped : (Arithmetic.half : ℝ) * (1 - 1 / 3) = Arithmetic.half * (1 + -1 / 3) ∧
      (Arithmetic.half : ℝ) * (1 + 1 / 3) = Arithmetic.half * (1 - -1 / 3) := by
    constructor <;> ring
  refine ⟨s, made, make_conforming formed_cutSquare distinct made (Array.mem_of_getElem? diagonal) rfl nofun
    rfl rfl rfl rfl ?_⟩
  intro g g' seen seen' i j vertex first second
  cases seen
  cases seen'
  match i, j with
  | 0, 1 => exact congrArg some swapped.1
  | 1, 0 => exact congrArg some swapped.2
  | 0, 0 | 1, 1 => cases first; cases second
  | i + 2, _ => cases first
  | _, j + 2 => cases second

end ElementSpace

end Galerkin
