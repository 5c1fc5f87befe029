import Mathlib
import Galerkin.Proofs.Element.Trace
import Galerkin.Proofs.Linear.Vector
import Galerkin.Proofs.Tabulation.Reproduction

/-!
The outward side of the facets of a reference cell. Their corners are numbered so that the normal made of a facet's
tangents points out of the cell; only the first end of a line has no order that could tell.

Facet normals. They are unit vectors orthogonal to the images of the facet's tangents; which of the two is taken depends
on where the mean of the control points lies, and it is the outward one if the mean is not beyond the facet.
-/

namespace Galerkin

open Arithmetic

theorem ofInt_real (n : Int) : (ofInt n : ℝ) = n := Rat.cast_intCast n

namespace Cell

open Tabulation Linear.Vec

/-! ### Vectors that point out of a cell -/

/-- Is a vector normal to a facet, with the whole cell behind it? -/
structure Supports (c : Cell) (facet : List Nat) (n : List ℝ) : Prop where
  length : n.length = c.dim
  level : ∃ h : ℝ, ∀ t ∈ c.corners.zipIdx, (t.2 ∈ facet → dot n (t.1.map fun x : Int => (x : ℝ)) = h) ∧
    (t.2 ∉ facet → dot n (t.1.map fun x : Int => (x : ℝ)) < h)

/-- Does a vector point out of a cell through a facet? -/
def PointsOut (c : Cell) (facet : List Nat) (v : List ℝ) : Prop :=
  v.length = c.dim ∧ ∃ n, c.Supports facet n ∧ 0 < dot n v

/-- The normals of the facets, in their order. -/
noncomputable def normals : Cell → List (List ℝ)
  | point => []
  | line => [[-1], [1]]
  | tri => [[0, -half], [half, half], [-half, 0]]
  | quad => [[0, -1], [1, 0], [0, 1], [-1, 0]]
  | tet => [[0, 0, -1], [0, -1, 0], [1, 1, 1], [-1, 0, 0]]
  | hex => [[0, 0, -1], [0, 0, 1], [0, -1, 0], [1, 0, 0], [0, 1, 0], [-1, 0, 0]]

theorem supports_normals (c : Cell) : List.Forall₂ c.Supports c.facets c.normals := by
  cases c
  case point => exact .nil
  case line => refine .cons ⟨rfl, 1, ?_⟩ (.cons ⟨rfl, 1, ?_⟩ .nil) <;> simp [corners]
  case tri =>
    refine .cons ⟨rfl, 0, ?_⟩ (.cons ⟨rfl, 1 / 2, ?_⟩ (.cons ⟨rfl, 0, ?_⟩ .nil)) <;>
      simp [corners, half_real]
  case quad =>
    refine .cons ⟨rfl, 1, ?_⟩ (.cons ⟨rfl, 1, ?_⟩ (.cons ⟨rfl, 1, ?_⟩ (.cons ⟨rfl, 1, ?_⟩ .nil))) <;>
      simp [corners]
  case tet =>
    refine .cons ⟨rfl, 0, ?_⟩ (.cons ⟨rfl, 0, ?_⟩ (.cons ⟨rfl, 1, ?_⟩ (.cons ⟨rfl, 0, ?_⟩ .nil))) <;>
      simp [corners]
  case hex =>
    refine .cons ⟨rfl, 1, ?_⟩ (.cons ⟨rfl, 1, ?_⟩ (.cons ⟨rfl, 1, ?_⟩ (.cons ⟨rfl, 1, ?_⟩ (.cons ⟨rfl, 1, ?_⟩
      (.cons ⟨rfl, 1, ?_⟩ .nil))))) <;>
      simp [corners]

/-- A vector that supports a facet is a positive multiple of the facet's normal. -/
theorem supports_parallel (c : Cell) (n : List ℝ) :
    List.Forall₂ (fun facet m => c.Supports facet n → ∃ s : ℝ, 0 < s ∧ n = m.map (s * ·)) c.facets c.normals := by
  cases c
  case point => exact .nil
  case line =>
    refine .cons ?_ (.cons ?_ .nil) <;> rintro ⟨length, h, level⟩ <;>
      obtain ⟨a, rfl⟩ := List.length_eq_one_iff.mp length <;> simp [corners] at level
    · exact ⟨-a, by linarith, by simp⟩
    · exact ⟨a, by linarith, by simp⟩
  case tri =>
    refine .cons ?_ (.cons ?_ (.cons ?_ .nil)) <;> rintro ⟨length, h, level⟩ <;>
      obtain ⟨a, b, rfl⟩ := List.length_eq_two.mp length <;> simp [corners] at level
    · exact ⟨-2 * b, by linarith, by simp [half_real]; constructor <;> linarith⟩
    · exact ⟨2 * b, by linarith, by simp [half_real]; constructor <;> linarith⟩
    · exact ⟨-2 * a, by linarith, by simp [half_real]; constructor <;> linarith⟩
  case quad =>
    refine .cons ?_ (.cons ?_ (.cons ?_ (.cons ?_ .nil))) <;> rintro ⟨length, h, level⟩ <;>
      obtain ⟨a, b, rfl⟩ := List.length_eq_two.mp length <;> simp [corners] at level
    · exact ⟨-b, by linarith, by simp; linarith⟩
    · exact ⟨a, by linarith, by simp; linarith⟩
    · exact ⟨b, by linarith, by simp; linarith⟩
    · exact ⟨-a, by linarith, by simp; linarith⟩
  case tet =>
    refine .cons ?_ (.cons ?_ (.cons ?_ (.cons ?_ .nil))) <;> rintro ⟨length, h, level⟩ <;>
      obtain ⟨a, b, d, rfl⟩ := List.length_eq_three.mp length <;> simp [corners] at level
    · exact ⟨-d, by linarith, by simp; constructor <;> linarith⟩
    · exact ⟨-b, by linarith, by simp; constructor <;> linarith⟩
    · exact ⟨a, by linarith, by simp; constructor <;> linarith⟩
    · exact ⟨-a, by linarith, by simp; constructor <;> linarith⟩
  case hex =>
    refine .cons ?_ (.cons ?_ (.cons ?_ (.cons ?_ (.cons ?_ (.cons ?_ .nil))))) <;> rintro ⟨length, h, level⟩ <;>
      obtain ⟨a, b, d, rfl⟩ := List.length_eq_three.mp length <;> simp [corners] at level
    · exact ⟨-d, by linarith, by simp; constructor <;> linarith⟩
    · exact ⟨d, by linarith, by simp; constructor <;> linarith⟩
    · exact ⟨-b, by linarith, by simp; constructor <;> linarith⟩
    · exact ⟨a, by linarith, by simp; constructor <;> linarith⟩
    · exact ⟨b, by linarith, by simp; constructor <;> linarith⟩
    · exact ⟨-a, by linarith, by simp; constructor <;> linarith⟩

/-! ### The normal made of the tangents -/

/-- Is a facet the first end of a line? -/
def IsFirstEnd (c : Cell) (facet : List Nat) : Prop := c = .line ∧ facet = [0]

instance (c : Cell) (facet : List Nat) : Decidable (c.IsFirstEnd facet) := inferInstanceAs (Decidable (_ ∧ _))

/-- The outward normal of a facet, in the cell. -/
noncomputable def referenceNormal (c : Cell) (facet : List Nat) : List ℝ :=
  if c.IsFirstEnd facet then [-1] else (facetNormal c.dim (c.facetTangents facet)).1

theorem map_referenceNormal (c : Cell) : c.facets.map c.referenceNormal = c.normals := by
  cases c <;> simp [facets, normals, referenceNormal, IsFirstEnd, facetTangents, facetCell, edgeVector, corners, dim,
    facetNormal, ofInt_real, half_real] <;> norm_num

/-- The tangents of a facet: one fewer than the cell has axes. -/
structure Spans (dim : Nat) (tangents : List (List ℝ)) : Prop where
  count : tangents.length + 1 = dim
  sized : ∀ t ∈ tangents, t.length = dim

variable {c : Cell} {facet : List Nat}

theorem spans_facetTangents (among : facet ∈ c.facets) : Spans c.dim (c.facetTangents facet) := by
  cases c <;> simp only [facets, List.mem_cons, List.not_mem_nil, or_false] at among
  all_goals
    rcases among with rfl | rfl | rfl | rfl | rfl | rfl <;>
      constructor <;> simp [facetTangents, facetCell, edgeVector, corners, dim]

theorem supports_referenceNormal (among : facet ∈ c.facets) : c.Supports facet (c.referenceNormal facet) := by
  have all := c.supports_normals
  rw [← map_referenceNormal, List.forall₂_map_right_iff, List.forall₂_same] at all
  exact all facet among

theorem dot_referenceNormal_pos (among : facet ∈ c.facets) {v : List ℝ} (out : c.PointsOut facet v) :
    0 < dot (c.referenceNormal facet) v := by
  obtain ⟨-, n, supports, positive⟩ := out
  have all := c.supports_parallel n
  rw [← map_referenceNormal, List.forall₂_map_right_iff, List.forall₂_same] at all
  obtain ⟨s, large, rfl⟩ := all facet among supports
  rw [dot_map_mul] at positive
  exact (mul_pos_iff_of_pos_left large).mp positive

theorem pointsOut_referenceNormal (among : facet ∈ c.facets) : c.PointsOut facet (c.referenceNormal facet) := by
  have positive : ∀ m ∈ c.normals, 0 < dot m m := by
    cases c <;> simp [normals, half_real]
    norm_num
  have supports := supports_referenceNormal among
  refine ⟨supports.length, _, supports, positive _ ?_⟩
  rw [← map_referenceNormal]
  exact List.mem_map_of_mem among

end Cell

namespace Tabulation

open Linear.Vec (dot_nil dot_cons dot_comm dot_map_mul dot_map_neg dot_map_div)

/-! ### Lengths -/

theorem norm_map_neg (v : List ℝ) : norm (v.map (-·)) = norm v := by
  have square : dot (v.map (-·)) (v.map (-·)) = dot v v := by
    rw [dot_map_neg, dot_comm, dot_map_neg, neg_neg]
  exact congrArg Real.sqrt square

theorem map_neg_map_neg (v : List ℝ) : (v.map (-·)).map (-·) = v := by
  rw [List.map_map]
  exact (List.map_congr_left fun a _ => neg_neg a).trans (List.map_id _)

/-- The unit vector along the negative. -/
theorem unit_map_neg (v : List ℝ) :
    (v.map (-·)).map (· / norm (v.map (-·))) = (v.map (· / norm v)).map (-·) := by
  rw [norm_map_neg, List.map_map, List.map_map]
  exact List.map_congr_left fun a _ => neg_div _ _

theorem norm_map_div {v : List ℝ} (positive : 0 < norm v) : norm (v.map (· / norm v)) = 1 := by
  have whole : norm v * norm v = dot v v := Real.mul_self_sqrt (Linear.Vec.dot_self_nonneg v)
  have square : dot (v.map (· / norm v)) (v.map (· / norm v)) = 1 := by
    rw [dot_map_div, dot_comm, dot_map_div, ← whole, mul_div_cancel_right₀ _ positive.ne', div_self positive.ne']
  exact (congrArg Real.sqrt square).trans Real.sqrt_one

theorem norm_pos {v w : List ℝ} (nonzero : dot v w ≠ 0) : 0 < norm v := by
  refine lt_of_le_of_ne (Linear.Vec.norm_nonneg v) fun none => ?_
  have zeros : v = v.map ((0 : ℝ) * ·) := by
    have replicate := Linear.Vec.eq_zeros_of_norm (x := v) none.symm
    simp only [zero_mul, List.map_const']
    exact replicate
  rw [zeros, dot_map_mul, zero_mul] at nonzero
  exact nonzero rfl

/-! ### The normal of an image -/

/-- The image of a vector under a Jacobian. -/
noncomputable def image (j : List (List ℝ)) (v : List ℝ) : List ℝ := j.map fun row => dot row v

theorem square_of_determinant? {j : List (List ℝ)} {det : ℝ} (here : determinant? j = some det) :
    (∃ a, j = [[a]] ∧ det = a) ∨ (∃ a b c d, j = [[a, b], [c, d]] ∧ det = a * d - b * c) ∨
      ∃ a b c d e f g h i, j = [[a, b, c], [d, e, f], [g, h, i]] ∧
        det = a * (e * i - f * h) - b * (d * i - f * g) + c * (d * h - e * g) := by
  unfold determinant? at here
  split at here
  · cases here
    exact Or.inl ⟨_, rfl, rfl⟩
  · cases here
    exact Or.inr (Or.inl ⟨_, _, _, _, rfl, rfl⟩)
  · cases here
    exact Or.inr (Or.inr ⟨_, _, _, _, _, _, _, _, _, rfl, rfl⟩)
  · cases here

variable {dim : Nat} {tangents j : List (List ℝ)} {det : ℝ} {v : List ℝ}

/-- The normal of the image of a facet takes its product with an image from the facet, up to the determinant. -/
theorem dot_facetNormal_image (spans : Cell.Spans dim tangents) (rows : j.length = dim) (here : determinant? j = some det)
    (sized : v.length = dim) :
    dot (facetNormal dim (tangents.map (image j))).1 (image j v) = det * dot (facetNormal dim tangents).1 v := by
  obtain ⟨count, each⟩ := spans
  obtain ⟨a, rfl, rfl⟩ | ⟨a, b, c, d, rfl, rfl⟩ | ⟨a, b, c, d, e, f, g, h, i, rfl, rfl⟩ := square_of_determinant? here
  · cases rows
    obtain rfl := List.length_eq_zero_iff.mp (Nat.succ.inj count)
    obtain ⟨x, rfl⟩ := List.length_eq_one_iff.mp sized
    simp [facetNormal, image]
  · cases rows
    obtain ⟨t, rfl⟩ := List.length_eq_one_iff.mp (Nat.succ.inj count)
    obtain ⟨s, t, rfl⟩ := List.length_eq_two.mp (each t (List.mem_singleton_self t))
    obtain ⟨x, y, rfl⟩ := List.length_eq_two.mp sized
    simp [facetNormal, image]
    ring
  · cases rows
    obtain ⟨s, t, rfl⟩ := List.length_eq_two.mp (Nat.succ.inj count)
    obtain ⟨s₁, s₂, s₃, rfl⟩ := List.length_eq_three.mp (each s List.mem_cons_self)
    obtain ⟨t₁, t₂, t₃, rfl⟩ := List.length_eq_three.mp (each t (List.mem_cons_of_mem _ List.mem_cons_self))
    obtain ⟨x, y, z, rfl⟩ := List.length_eq_three.mp sized
    simp [facetNormal, image]
    ring

theorem length_facetNormal (spans : Cell.Spans dim tangents) : (facetNormal dim tangents).1.length = dim := by
  unfold facetNormal
  split
  · exact spans.count
  · exact spans.count
  · exact List.length_replicate

theorem nonneg_facetNormal (dim : Nat) (images : List (List ℝ)) : 0 ≤ (facetNormal dim images).2 := by
  unfold facetNormal
  split
  · exact Linear.Vec.norm_nonneg _
  · exact Linear.Vec.norm_nonneg _
  · exact zero_le_one

theorem spans_image (spans : Cell.Spans dim tangents) (rows : j.length = dim) : Cell.Spans dim (tangents.map (image j)) where
  count := by rw [List.length_map, spans.count]
  sized := List.forall_mem_map.mpr fun t _ => by rw [image, List.length_map, rows]

theorem dot_facetNormal_tangent (spans : Cell.Spans dim tangents) (small : dim ≤ 3) {t : List ℝ} (member : t ∈ tangents) :
    dot (facetNormal dim tangents).1 t = 0 := by
  obtain ⟨rfl, each⟩ := spans
  match tangents with
  | [] => cases member
  | [s] =>
      obtain rfl := List.mem_singleton.mp member
      obtain ⟨x, y, rfl⟩ := List.length_eq_two.mp (each t member)
      simp [facetNormal]
      ring
  | [r, s] =>
      obtain ⟨r₁, r₂, r₃, rfl⟩ := List.length_eq_three.mp (each r List.mem_cons_self)
      obtain ⟨s₁, s₂, s₃, rfl⟩ := List.length_eq_three.mp (each s (List.mem_cons_of_mem _ List.mem_cons_self))
      rcases List.mem_pair.mp member with rfl | rfl <;> simp [facetNormal] <;> ring
  | _ :: _ :: _ :: _ => exact absurd small (by simp)

/-! ### The outward normal -/

/-- A unit vector that is orthogonal to a facet where the map has the Jacobian `j`, and has a positive product with the
image of every vector that points out of the cell there. -/
structure IsOutwardNormal (c : Cell) (facet : List Nat) (j : List (List ℝ)) (m : List ℝ) : Prop where
  length : m.length = c.dim
  unit : norm m = 1
  tangential : ∀ t ∈ c.facetTangents facet, dot m (image j t) = 0
  outward : ∀ v, c.PointsOut facet v → 0 < dot m (image j v)

/-- Is a facet on the side of the centroid that a normal points to? It is allowed to hold the centroid, unless it is
the first end of a line. -/
def Ahead (c : Cell) (facet : List Nat) (distance : ℝ) : Prop :=
  if c.IsFirstEnd facet then 0 < distance else 0 ≤ distance

variable {c : Cell} {facet : List Nat} {m : List ℝ}

theorem dot_referenceNormal_tangent (among : facet ∈ c.facets) {t : List ℝ} (member : t ∈ c.facetTangents facet) :
    dot (c.referenceNormal facet) t = 0 := by
  have small : c.dim ≤ 3 := by cases c <;> decide
  rw [Cell.referenceNormal]
  split
  · next first =>
      obtain ⟨rfl, rfl⟩ := first
      cases member
  · exact dot_facetNormal_tangent (Cell.spans_facetTangents among) small member

/-- A vector whose products with images are positive multiples of those with the facet's normal is along the outward
normal. -/
theorem IsOutwardNormal.of_along (among : facet ∈ c.facets) {n : List ℝ} (length : n.length = c.dim) {k : ℝ}
    (positive : 0 < k)
    (along : ∀ v : List ℝ, v.length = c.dim → dot n (image j v) = k * dot (c.referenceNormal facet) v) :
    IsOutwardNormal c facet j (n.map (· / norm n)) := by
  have out := Cell.pointsOut_referenceNormal among
  have large : 0 < norm n := norm_pos (w := image j (c.referenceNormal facet)) (by
    rw [along _ out.1]
    exact (mul_pos positive (Cell.dot_referenceNormal_pos among out)).ne')
  refine ⟨by simpa using length, norm_map_div large, fun t member => ?_, fun v out => ?_⟩
  · rw [dot_map_div, along t ((Cell.spans_facetTangents among).sized t member), dot_referenceNormal_tangent among member,
      mul_zero, zero_div]
  · rw [dot_map_div, along v out.1]
    exact div_pos (mul_pos positive (Cell.dot_referenceNormal_pos among out)) large

/-- The negative of the outward normal points in. -/
theorem IsOutwardNormal.not_neg (among : facet ∈ c.facets) (outward : IsOutwardNormal c facet j m) :
    ¬IsOutwardNormal c facet j (m.map (-·)) := by
  intro other
  have out := Cell.pointsOut_referenceNormal among
  have back := other.outward _ out
  rw [dot_map_neg] at back
  exact lt_asymm (outward.outward _ out) (neg_pos.mp back)

theorem dot_facetNormal_of_firstEnd (first : c.IsFirstEnd facet) {v : List ℝ} (sized : v.length = c.dim) :
    dot (facetNormal c.dim (c.facetTangents facet)).1 v = -dot (c.referenceNormal facet) v := by
  rw [Cell.referenceNormal, if_pos first]
  obtain ⟨rfl, rfl⟩ := first
  obtain ⟨x, rfl⟩ := List.length_eq_one_iff.mp sized
  simp [facetNormal, Cell.facetTangents, Cell.facetCell, Cell.dim]

/-- The normal that is tabulated is the outward one, if the mean of the control points does not lie beyond the facet. -/
theorem outward_spec (among : facet ∈ c.facets) (rows : j.length = c.dim) (here : determinant? j = some det)
    (positive : 0 < det) (position center : List ℝ) :
    ∃ m, IsOutwardNormal c facet j m ∧
      (Ahead c facet (dot m (Linear.Vec.sub position center)) →
        outward (facetNormal c.dim ((c.facetTangents facet).map (image j))).1 position center = m) ∧
      (¬Ahead c facet (dot m (Linear.Vec.sub position center)) →
        outward (facetNormal c.dim ((c.facetTangents facet).map (image j))).1 position center = m.map (-·)) := by
  have along (v : List ℝ) (sized : v.length = c.dim) :=
    dot_facetNormal_image (Cell.spans_facetTangents among) rows here sized
  have length := length_facetNormal (spans_image (Cell.spans_facetTangents among) rows)
  generalize (facetNormal c.dim ((c.facetTangents facet).map (image j))).1 = n at along length ⊢
  have tabulated : outward n position center =
      if dot (n.map (· / norm n)) (Linear.Vec.sub position center) < 0 then (n.map (· / norm n)).map (-·)
      else n.map (· / norm n) := rfl
  rw [tabulated]
  by_cases first : c.IsFirstEnd facet
  · have back (v : List ℝ) (sized : v.length = c.dim) :
        dot (n.map (-·)) (image j v) = det * dot (c.referenceNormal facet) v := by
      rw [dot_map_neg, along v sized, dot_facetNormal_of_firstEnd first sized, mul_neg, neg_neg]
    have normal := IsOutwardNormal.of_along among (by simpa using length) positive back
    rw [unit_map_neg] at normal
    refine ⟨_, normal, ?_, ?_⟩ <;> rw [Ahead, if_pos first, dot_map_neg, neg_pos]
    · exact fun before => if_pos before
    · intro behind
      rw [if_neg behind, map_neg_map_neg]
  · have same (v : List ℝ) (sized : v.length = c.dim) : dot n (image j v) = det * dot (c.referenceNormal facet) v := by
      rw [along v sized, Cell.referenceNormal, if_neg first]
    refine ⟨_, .of_along among length positive same, ?_, ?_⟩ <;> rw [Ahead, if_neg first]
    · exact fun before => if_neg (not_lt.mpr before)
    · exact fun behind => if_pos (not_le.mp behind)

/-! ### Facets of a batch -/

theorem mapEntity_points {axes k : Nat} {ids : Option (List Int)} {net : List (List ℝ)} {points : List (ReferencePoint ℝ)}
    {mapped : List (List (List ℝ) × PointData ℝ)} (done : mapEntity axes dim ids k net points = .ok mapped) :
    List.Forall₂ (fun p t => t.1 = jacobian dim axes net p.gradients ∧ ∃ det, determinant? t.1 = some det ∧ 0 < det ∧
      t.2 = ⟨p.values, p.gradients.map (physical (inverse det t.1) dim), p.weight * det, interpolate dim p.values net, []⟩)
      points mapped := by
  obtain ⟨all, run, done⟩ := Outcome.bind_eq_ok.mp done
  split at done
  · obtain ⟨_, -, impossible⟩ := Outcome.bind_eq_ok.mp done
    cases impossible
  · next large =>
      cases done
      rw [List.forall₂_map_right_iff]
      have positive : ∀ t ∈ all, 0 < t.2.1 := fun t member => by
        by_contra small
        exact large (List.any_eq_true.mpr ⟨t, member, decide_eq_true (not_lt.mp small)⟩)
      have matched := (List.forall₂_and_left _ _).mpr ⟨positive, (Outcome.mapM_eq_ok.mp run).flip⟩
      refine matched.flip.imp fun p t both => ?_
      obtain ⟨above, made⟩ := both
      unfold mapped at made
      dsimp only at made
      split at made
      · cases made
      · next det here =>
          cases made
          exact ⟨rfl, det, here, above, rfl⟩

theorem nonneg_volumeData {e : Element} {rule : Rule ℝ} {net : List (List ℝ)} {data : List (PointData ℝ)}
    (done : volumeData e dim rule net = .ok data) (nonneg : ∀ q ∈ rule, 0 ≤ q.weight) : ∀ p ∈ data, 0 ≤ p.weight := by
  obtain ⟨mapped, made, done⟩ := Outcome.bind_eq_ok.mp done
  cases done
  refine List.forall_mem_map.mpr fun t member => ?_
  obtain ⟨_, among, -, det, -, positive, data⟩ := Outcome.exists_of_matched (mapEntity_points made) member
  obtain ⟨q, present, rfl⟩ := List.mem_map.mp among
  rw [data]
  exact mul_nonneg (nonneg q present) positive.le

theorem nonneg_facetData {e : Element} {rule : Rule ℝ} {l : Int} {net : List (List ℝ)} {data : List (PointData ℝ)}
    (done : facetData e dim rule l net = .ok data) (nonneg : ∀ q ∈ rule, 0 ≤ q.weight) : ∀ p ∈ data, 0 ≤ p.weight := by
  obtain ⟨facet, positions, mapped, -, -, -, rfl⟩ := facetData_eq_ok.mp done
  intro p member
  rw [← List.map_uncurry_zip_eq_zipWith, List.mem_map] at member
  obtain ⟨t, paired, rfl⟩ := member
  exact mul_nonneg (nonneg_facetNormal dim _) (nonneg t.2 (List.of_mem_zip paired).2)

theorem dim_eq_of_determinant? {axes : Nat} {net gradients : List (List ℝ)}
    (here : determinant? (jacobian dim axes net gradients) = some det) : dim = axes := by
  have rows : (jacobian dim axes net gradients).length = dim := by simp [jacobian]
  have row : ∀ r ∈ jacobian dim axes net gradients, r.length = axes := by simp [jacobian]
  obtain ⟨_, same, -⟩ | ⟨_, _, _, _, same, -⟩ | ⟨_, _, _, _, _, _, _, _, _, same, -⟩ := square_of_determinant? here <;>
    rw [same] at rows row <;> exact rows.symm.trans (row _ List.mem_cons_self)

theorem fits_of_facetGroup {e : Element} {nets : ControlNets ℝ} {rule : Rule ℝ} {ids : Option (List Int)} {l : Int}
    {rows : List Nat} {group : List (Nat × List (PointData ℝ))} (done : facetGroup e nets rule ids l rows = .ok group) :
    nets.points = e.size := by
  unfold facetGroup at done
  split at done
  swap
  · cases done
  obtain ⟨positions, -, done⟩ := Outcome.bind_eq_ok.mp done
  obtain ⟨chosen, -, done⟩ := Outcome.bind_eq_ok.mp done
  by_contra apart
  rw [if_pos apart] at done
  cases done

/-- The Jacobian of an element's map at a place of its cell. -/
noncomputable def jacobianAt (e : Element) (dim : Nat) (net : List (List ℝ)) (x : List ℝ) : List (List ℝ) :=
  jacobian dim e.dim net (e.gradients x)

/-- What holds of the data of a facet at one point: the normal is a unit vector orthogonal to the facet, and the
outward one exactly if the facet is ahead of the mean of the control points. -/
structure Directed (e : Element) (dim : Nat) (net : List (List ℝ)) (facet : List Nat) (x m : List ℝ) (d : PointData ℝ) :
    Prop where
  position : d.position = interpolate dim (e.values x) net
  positive : ∃ det, determinant? (jacobianAt e dim net x) = some det ∧ 0 < det
  outward : IsOutwardNormal e.cell facet (jacobianAt e dim net x) m
  unit : norm d.normal = 1
  tangential : ∀ t ∈ e.cell.facetTangents facet, dot d.normal (image (jacobianAt e dim net x) t) = 0
  sides : d.normal = m ∨ d.normal = m.map (-·)
  iff : IsOutwardNormal e.cell facet (jacobianAt e dim net x) d.normal ↔
    Ahead e.cell facet (dot m (Linear.Vec.sub d.position (centroid dim net)))

theorem Directed.of_sides {e : Element} {net : List (List ℝ)} {x : List ℝ} {d : PointData ℝ} (among : facet ∈ e.cell.facets)
    (position : d.position = interpolate dim (e.values x) net)
    (positive : ∃ det, determinant? (jacobianAt e dim net x) = some det ∧ 0 < det)
    (outward : IsOutwardNormal e.cell facet (jacobianAt e dim net x) m)
    (ahead : Ahead e.cell facet (dot m (Linear.Vec.sub d.position (centroid dim net))) → d.normal = m)
    (beyond : ¬Ahead e.cell facet (dot m (Linear.Vec.sub d.position (centroid dim net))) → d.normal = m.map (-·)) :
    Directed e dim net facet x m d := by
  by_cases before : Ahead e.cell facet (dot m (Linear.Vec.sub d.position (centroid dim net)))
  · have same := ahead before
    refine ⟨position, positive, outward, ?_, ?_, .inl same, iff_of_true ?_ before⟩ <;> rw [same]
    exacts [outward.unit, outward.tangential, outward]
  · have same := beyond before
    refine ⟨position, positive, outward, ?_, fun t member => ?_, .inr same, iff_of_false ?_ before⟩ <;> rw [same]
    · rw [norm_map_neg, outward.unit]
    · rw [dot_map_neg, outward.tangential t member, neg_zero]
    · exact outward.not_neg among

/-- The data of a facet: at each of its points the element is mapped, and the facet with it. -/
theorem facetData_onFacet {e : Element} {rule : Rule ℝ} {l : Int} {net : List (List ℝ)} {data : List (PointData ℝ)}
    (made : facetData e dim rule l net = .ok data) :
    ∃ facet, entry? e.cell.facets l = some facet ∧ facet ∈ e.cell.facets ∧
      List.Forall₂ (fun q d => ∃ x p, e.cell.facetPoint facet q.position = .ok x ∧
        (∃ det, determinant? (jacobianAt e dim net x) = some det ∧ 0 < det) ∧
        p.position = interpolate dim (e.values x) net ∧
        d = onFacet dim (e.cell.facetTangents facet) (centroid dim net) q.weight (jacobianAt e dim net x) p) rule data := by
  obtain ⟨facet, positions, mapped, found, placed, done, rfl⟩ := facetData_eq_ok.mp made
  have among : facet ∈ e.cell.facets := by
    obtain ⟨i, -, present⟩ := Option.bind_eq_some_iff.mp found
    exact List.mem_of_getElem? present
  refine ⟨facet, found, among, (Outcome.matched_zipWith (Outcome.mapM_eq_ok.mp placed) (mapEntity_points done)).imp ?_⟩
  rintro q d ⟨x, ⟨j, p⟩, place, ⟨same, det, here, positive, data⟩, rfl⟩
  dsimp only [referencePoint] at same here data
  subst same
  exact ⟨x, p, place, ⟨det, here, positive⟩, congrArg PointData.position data, rfl⟩

theorem facetData_directed {e : Element} {rule : Rule ℝ} {l : Int} {net : List (List ℝ)} {data : List (PointData ℝ)}
    (made : facetData e dim rule l net = .ok data) :
    ∃ facet, entry? e.cell.facets l = some facet ∧
      List.Forall₂ (fun q d => ∃ x m, e.cell.facetPoint facet q.position = .ok x ∧ Directed e dim net facet x m d)
        rule data := by
  obtain ⟨facet, found, among, matched⟩ := facetData_onFacet made
  refine ⟨facet, found, matched.imp ?_⟩
  rintro q _ ⟨x, p, place, ⟨det, here, positive⟩, position, rfl⟩
  obtain rfl := dim_eq_of_determinant? here
  have rows : (jacobianAt e e.dim net x).length = e.cell.dim := by simp [jacobianAt, jacobian, Element.dim]
  obtain ⟨m, normal, ahead, beyond⟩ := outward_spec among rows here positive p.position (centroid e.dim net)
  exact ⟨x, m, place, .of_sides among position ⟨det, here, positive⟩ normal ahead beyond⟩

/-- In one, two and three dimensions every Jacobian has a determinant. -/
theorem exists_determinant (small : dim ∈ [1, 2, 3]) (net gradients : List (List ℝ)) :
    ∃ det, determinant? (jacobian dim dim net gradients) = some det := by
  simp only [List.mem_cons, List.not_mem_nil, or_false] at small
  rcases small with rfl | rfl | rfl <;> exact ⟨_, rfl⟩

theorem mapEntity_isOk {axes k : Nat} {ids : Option (List Int)} {net : List (List ℝ)} {points : List (ReferencePoint ℝ)}
    (positive : ∀ p ∈ points, ∃ det, determinant? (jacobian dim axes net p.gradients) = some det ∧ 0 < det) :
    ∃ mapped, mapEntity axes dim ids k net points = .ok mapped := by
  have each : ∀ p ∈ points, ∃ t, mapped axes dim net p = .ok t ∧ 0 < t.2.1 := by
    intro p member
    obtain ⟨det, here, above⟩ := positive p member
    unfold mapped
    simp only [here]
    exact ⟨_, rfl, above⟩
  obtain ⟨all, run, matched⟩ := Outcome.mapM_of_forall each
  refine ⟨all.map fun (j, _, d) => (j, d), Outcome.bind_eq_ok.mpr ⟨all, run, ?_⟩⟩
  rw [if_neg]
  · rfl
  · rw [List.any_eq_true]
    rintro ⟨t, member, small⟩
    obtain ⟨_, -, above⟩ := Outcome.exists_of_matched matched member
    exact absurd above (not_lt.mpr (of_decide_eq_true small))

/-- An element with a positive determinant at every point is tabulated. -/
theorem volumeData_isOk {e : Element} {rule : Rule ℝ} {net : List (List ℝ)}
    (positive : ∀ q ∈ rule, ∃ det, determinant? (jacobianAt e dim net q.position) = some det ∧ 0 < det) :
    ∃ data, volumeData e dim rule net = .ok data := by
  have each : ∀ p ∈ rule.map fun q => referencePoint e q.position q.weight,
      ∃ det, determinant? (jacobian dim e.dim net p.gradients) = some det ∧ 0 < det := List.forall_mem_map.mpr positive
  obtain ⟨mapped, made⟩ := mapEntity_isOk each
  exact ⟨_, Outcome.bind_eq_ok.mpr ⟨mapped, made, rfl⟩⟩

/-- A facet with a positive determinant at every point is tabulated. -/
theorem facetData_isOk {e : Element} {rule : Rule ℝ} {l : Int} {net : List (List ℝ)} {positions : List (List ℝ)}
    (found : entry? e.cell.facets l = some facet)
    (placed : List.Forall₂ (fun q x => e.cell.facetPoint facet q.position = .ok x) rule positions)
    (positive : ∀ x ∈ positions, ∃ det, determinant? (jacobianAt e dim net x) = some det ∧ 0 < det) :
    ∃ data, facetData e dim rule l net = .ok data := by
  have each : ∀ p ∈ List.zipWith (fun x q => referencePoint e x q.weight) positions rule,
      ∃ det, determinant? (jacobian dim e.dim net p.gradients) = some det ∧ 0 < det := by
    intro p member
    rw [← List.map_uncurry_zip_eq_zipWith, List.mem_map] at member
    obtain ⟨⟨x, q⟩, paired, rfl⟩ := member
    exact positive x (List.of_mem_zip paired).1
  obtain ⟨mapped, made⟩ := mapEntity_isOk each
  exact ⟨_, facetData_eq_ok.mpr ⟨facet, positions, mapped, found, Outcome.mapM_eq_ok.mpr placed, made, rfl⟩⟩

/-! ### Warped hexahedra -/

section Warped

variable {k : Element.Kind} {e : Element}

theorem facetPoint_top (s t : ℝ) : Cell.hex.facetPoint [4, 5, 6, 7] [s, t] = .ok [s, t, 1] := by
  have weights : Cell.quad.cornerWeights [s, t] = .ok [half * half * ((1 - s) * (1 - t)),
      half * half * ((1 + s) * (1 - t)), half * half * ((1 + s) * (1 + t)), half * half * ((1 - s) * (1 + t))] := rfl
  refine Outcome.bind_eq_ok.mpr ⟨_, weights, congrArg Except.ok ?_⟩
  simp [Cell.cornerSum, Cell.dim, Cell.corners, List.range_succ, total_eq_sum, ofInt_real, half_real]
  refine ⟨?_, ?_, ?_⟩ <;> ring

theorem facetTangents_top : Cell.hex.facetTangents [4, 5, 6, 7] = [[(1 : ℝ), 0, 0], [0, 1, 0]] := by
  simp [Cell.facetTangents, Cell.facetCell, Cell.edgeVector, Cell.corners, ofInt_real, half_real]
  norm_num

theorem pointsOut_top : Cell.hex.PointsOut [4, 5, 6, 7] [0, 0, 1] :=
  ⟨rfl, [0, 0, 1], ⟨rfl, 1, by simp [Cell.corners]⟩, by simp⟩

theorem jacobianAt_warpedNet (known : Element.OfKind k .hex e) (w s t : ℝ) :
    jacobianAt e 3 (warpedNet e w) [s, t, 1] = [[1, 0, 0], [0, 1, 0], [w * t, w * s, 1]] :=
  jacobian_warpedNet known w s t 1

/-- The mean of the control points lies beyond the top of a warped hexahedron at the points with `1 < wst`. -/
theorem dot_sub_centroid_warped {w s t : ℝ}
    (outward : IsOutwardNormal .hex [4, 5, 6, 7] [[1, 0, 0], [0, 1, 0], [w * t, w * s, 1]] m) :
    dot m (Linear.Vec.sub (warp w [s, t, 1]) [0, 0, 0]) =
      (1 - w * (s * t)) * dot m (image [[1, 0, 0], [0, 1, 0], [w * t, w * s, 1]] [0, 0, 1]) := by
  obtain ⟨a, b, c, rfl⟩ := List.length_eq_three.mp outward.length
  have tangential := outward.tangential
  rw [facetTangents_top, List.forall_mem_cons, List.forall_mem_singleton] at tangential
  simp only [image, List.map_cons, List.map_nil, dot_cons, dot_nil] at tangential
  simp only [image, warp, Linear.Vec.sub, List.zipWith_cons_cons, List.zipWith_nil_left, List.map_cons, List.map_nil,
    dot_cons, dot_nil]
  linear_combination s * tangential.1 + t * tangential.2

theorem facetData_warped (known : Element.OfKind k .hex e) (w s t weight : ℝ) :
    ∃ d m, facetData e 3 [⟨[s, t], weight⟩] 1 (warpedNet e w) = .ok [d] ∧
      Directed e 3 (warpedNet e w) [4, 5, 6, 7] [s, t, 1] m d := by
  have found : entry? e.cell.facets 1 = some [4, 5, 6, 7] := by
    rw [known.shape]
    rfl
  have place : e.cell.facetPoint [4, 5, 6, 7] [s, t] = .ok [s, t, 1] := by
    rw [known.shape]
    exact facetPoint_top s t
  have placed : List.Forall₂ (fun (q : QuadraturePoint ℝ) x => e.cell.facetPoint [4, 5, 6, 7] q.position = .ok x)
      [⟨[s, t], weight⟩] [[s, t, 1]] := .cons place .nil
  have positive : ∃ det, determinant? (jacobianAt e 3 (warpedNet e w) [s, t, 1]) = some det ∧ 0 < det := by
    rw [jacobianAt_warpedNet known]
    exact ⟨_, rfl, by norm_num⟩
  obtain ⟨data, made⟩ := facetData_isOk found placed (List.forall_mem_singleton.mpr positive)
  obtain ⟨facet, same, directed⟩ := facetData_directed made
  cases found.symm.trans same
  obtain ⟨d, data, ⟨x, m, there, directed⟩, rest, rfl⟩ := List.forall₂_cons_left_iff.mp directed
  cases List.forall₂_nil_left_iff.mp rest
  cases place.symm.trans there
  exact ⟨d, m, made, directed⟩

/-- On the top of a warped hexahedron the normals point out where `wst ≤ 1`; elsewhere their negatives do. -/
theorem Directed.outward_warped (known : Element.OfKind k .hex e) {w s t : ℝ} {d : PointData ℝ}
    (directed : Directed e 3 (warpedNet e w) [4, 5, 6, 7] [s, t, 1] m d) :
    IsOutwardNormal .hex [4, 5, 6, 7] (jacobianAt e 3 (warpedNet e w) [s, t, 1])
      (if w * (s * t) ≤ 1 then d.normal else d.normal.map (-·)) := by
  have shape := known.shape
  have outward : IsOutwardNormal .hex [4, 5, 6, 7] (jacobianAt e 3 (warpedNet e w) [s, t, 1]) m := shape ▸ directed.outward
  have height : 0 < dot m (image (jacobianAt e 3 (warpedNet e w) [s, t, 1]) [0, 0, 1]) := outward.outward _ pointsOut_top
  have distance : dot m (Linear.Vec.sub d.position (centroid 3 (warpedNet e w))) =
      (1 - w * (s * t)) * dot m (image (jacobianAt e 3 (warpedNet e w) [s, t, 1]) [0, 0, 1]) := by
    rw [jacobianAt_warpedNet known] at outward ⊢
    rw [directed.position, interpolate_warpedNet known w rfl, centroid_warpedNet known]
    exact dot_sub_centroid_warped outward
  have iff := directed.iff
  rw [shape, Ahead, if_neg (by decide), distance, mul_nonneg_iff_of_pos_right height, sub_nonneg] at iff
  split
  · next before => exact iff.mpr before
  · next beyond =>
      obtain same | same := directed.sides
      · exact absurd (iff.mp (same ▸ outward)) beyond
      · rw [same, map_neg_map_neg]
        exact outward

theorem onFacets_warped (known : Element.OfKind k .hex e) (w s t weight : ℝ) :
    ∃ tab d, onFacets e ⟨e.size, 3, [warpedNet e w]⟩ [1] [⟨[s, t], weight⟩] none = .ok tab ∧ tab.entities = [[d]] ∧
      IsOutwardNormal .hex [4, 5, 6, 7] (jacobianAt e 3 (warpedNet e w) [s, t, 1])
        (if w * (s * t) ≤ 1 then d.normal else d.normal.map (-·)) := by
  obtain ⟨d, m, made, directed⟩ := facetData_warped known w s t weight
  exact ⟨⟨3, 1, e.size, true, [[d]]⟩, d, (onFacets_eq_ok rfl rfl).mpr ⟨[[d]], .cons made .nil, rfl⟩, rfl,
    directed.outward_warped known⟩

/-- The trilinear hexahedron. -/
theorem exists_trilinear : ∃ e, Element.ofCell .hex "lagrange" 1 = .ok e ∧ Element.OfKind .linear .hex e := by
  obtain ⟨e, made⟩ := Outcome.exists_of_isSome (x := Element.lagrange .hex 1) (by cbv)
  obtain ⟨nodes, placed, made'⟩ := Outcome.bind_eq_ok.mp made
  cases placed
  exact ⟨e, made, Element.ofKind_ofLattice (k := .linear) (fun _ => rfl) made'⟩

end Warped

/-! ### The normals of a batch -/

/-- Every facet that is tabulated has unit normals that are orthogonal to it, and at each of its points the normal is
the outward one exactly if the mean of the control points is not beyond the facet. -/
theorem onFacets_normals {e : Element} {nets : ControlNets ℝ} {locals : List Int} {rule : Rule ℝ} {ids : Option (List Int)}
    {tab : Tabulation ℝ} (tabulated : onFacets e nets locals rule ids = .ok tab) {k : Nat} {l : Int}
    {net : List (List ℝ)} (here : locals[k]? = some l) (there : nets.nets[k]? = some net) :
    ∃ facet data, entry? e.cell.facets l = some facet ∧ tab.entities[k]? = some data ∧
      List.Forall₂ (fun q d => ∃ x m, e.cell.facetPoint facet q.position = .ok x ∧ Directed e nets.dim net facet x m d)
        rule data := by
  obtain ⟨groups, made, done⟩ := Outcome.bind_eq_ok.mp tabulated
  cases done
  have listed := mem_ascending.mpr (List.mem_of_getElem? here)
  obtain ⟨group, -, own⟩ := Outcome.exists_of_matched_left (Outcome.mapM_eq_ok.mp made) listed
  have data := facetData_of_lookup (fits_of_facetGroup own) made here there (rule.map fun _ => blank nets.dim nets.points)
  obtain ⟨facet, found, directed⟩ := facetData_directed data
  refine ⟨facet, _, found, ?_, directed⟩
  have inside := (List.getElem?_eq_some_iff.mp there).1
  simp [inside]

theorem onFacets_normals_trilinear : ∃ e tab d m, Element.ofCell .hex "lagrange" 1 = .ok e ∧
    onFacets e ⟨e.size, 3, [warpedNet e 2]⟩ [1] [⟨[0, 0], 1⟩] none = .ok tab ∧ tab.entities[0]? = some [d] ∧
    Directed e 3 (warpedNet e 2) [4, 5, 6, 7] [0, 0, 1] m d := by
  obtain ⟨e, made, known⟩ := exists_trilinear
  obtain ⟨tab, d, tabulated, entities, -⟩ := onFacets_warped known 2 0 0 1
  obtain ⟨facet, data, found, here, matched⟩ := onFacets_normals tabulated (k := 0) (l := 1) rfl rfl
  rw [known.shape] at found
  cases found
  rw [entities] at here
  cases here
  obtain ⟨⟨x, m, place, directed⟩, -⟩ := List.forall₂_cons.mp matched
  rw [known.shape] at place
  cases (facetPoint_top 0 0).symm.trans place
  exact ⟨e, tab, d, m, made, tabulated, by rw [entities]; rfl, directed⟩

/-- At a corner where the top of a hexahedron is bent far enough, the normal points in. -/
theorem onFacets_normal_inward : ∃ e tab d, Element.ofCell .hex "lagrange" 1 = .ok e ∧
    onFacets e ⟨e.size, 3, [warpedNet e 2]⟩ [1] [⟨[1, 1], 1⟩] none = .ok tab ∧ tab.entities = [[d]] ∧
    Cell.hex.facetPoint [4, 5, 6, 7] [(1 : ℝ), 1] = .ok [1, 1, 1] ∧ Cell.hex.PointsOut [4, 5, 6, 7] [0, 0, 1] ∧
    dot d.normal (image (jacobianAt e 3 (warpedNet e 2) [1, 1, 1]) [0, 0, 1]) < 0 := by
  obtain ⟨e, made, known⟩ := exists_trilinear
  obtain ⟨tab, d, tabulated, entities, outward⟩ := onFacets_warped known 2 1 1 1
  rw [if_neg (by norm_num)] at outward
  have height := outward.outward [0, 0, 1] pointsOut_top
  rw [dot_map_neg, neg_pos] at height
  exact ⟨e, tab, d, made, tabulated, entities, facetPoint_top 1 1, pointsOut_top, height⟩

end Tabulation

end Galerkin
