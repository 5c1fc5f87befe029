import Mathlib
import Galerkin.Proofs.Element.Nodal

/-!
Elements on the faces of their cell. A face is placed in the cell by its corners, in any order that goes around it; the
values of an element there are those of the element of the same kind on the face.
-/

namespace Galerkin

namespace Cell

/-- The weights of the corners of a point, a line, a triangle or a quadrilateral. -/
def weightPolynomials : Cell → List Polynomial
  | point => [[⟨1, []⟩]]
  | line => [[⟨mkRat 1 2, [0]⟩, ⟨mkRat (-1) 2, [1]⟩], [⟨mkRat 1 2, [0]⟩, ⟨mkRat 1 2, [1]⟩]]
  | tri => [[⟨1, [0, 0]⟩, ⟨-1, [1, 0]⟩, ⟨-1, [0, 1]⟩], [⟨1, [1, 0]⟩], [⟨1, [0, 1]⟩]]
  | quad => [(-1, -1), (1, -1), (1, 1), (-1, 1)].map fun (s, t) =>
      [⟨mkRat 1 4, [0, 0]⟩, ⟨mkRat s 4, [1, 0]⟩, ⟨mkRat t 4, [0, 1]⟩, ⟨mkRat (s * t) 4, [1, 1]⟩]
  | _ => []

section Weights

variable {c d : Cell} {x w : List ℝ}

theorem cornerWeights_eq_ok (found : c.cornerWeights x = .ok w) : w = c.weightPolynomials.map (·.eval x) := by
  cases c
  · cases found
    simp [weightPolynomials, Monomial.powers]
  · rcases x with _ | ⟨s, _⟩
    · cases found
    · cases found
      simp [weightPolynomials, Monomial.powers, natPow_eq_pow, half_real, Rat.mkRat_eq_div]
      constructor <;> ring
  · rcases x with _ | ⟨s, _ | ⟨t, _ | _⟩⟩
    · cases found
    · cases found
    · cases found
      simp [weightPolynomials, Monomial.powers, natPow_eq_pow, barycentric, total_eq_sum]
      ring
    · cases found
  · rcases x with _ | ⟨s, _ | ⟨t, _⟩⟩
    · cases found
    · cases found
    · cases found
      simp [weightPolynomials, Monomial.powers, natPow_eq_pow, half_real, Rat.mkRat_eq_div]
      refine ⟨?_, ?_, ?_, ?_⟩ <;> ring
  · cases x <;> cases found
  · cases x <;> cases found

/-- Where a point of a cell lies in another one that its corners are placed in, as polynomials in its coordinates. -/
def placing (d c : Cell) (corners : List Nat) : List Polynomial :=
  (List.range c.dim).map fun axis => Polynomial.collect ((corners.zip d.weightPolynomials).flatMap fun (k, p) =>
    Polynomial.scale ((c.corners.getD k []).getD axis 0) p)

theorem cornerSum_eq (found : d.cornerWeights x = .ok w) (corners : List Nat) :
    c.cornerSum corners w = (placing d c corners).map (·.eval x) := by
  rw [cornerWeights_eq_ok found, placing, List.map_map]
  refine List.map_congr_left fun axis _ => ?_
  rw [Function.comp_apply, Polynomial.eval_collect, total_eq_sum, List.zip_map_right, List.map_map]
  induction corners.zip d.weightPolynomials with
  | nil => rfl
  | cons t rest ih =>
      rw [List.map_cons, List.sum_cons, List.flatMap_cons, Polynomial.eval_append, Polynomial.eval_scale, ih]
      refine congrArg (· + _) ((mul_comm _ _).trans (congrArg (· * _) ?_))
      exact congrArg Rat.cast rfl

/-- The weights of a point place it where it is. -/
theorem placing_self (c : Cell) : placing c c (List.range c.cornerCount) =
    match c with
    | line => [[⟨1, [1]⟩]]
    | tri | quad => [[⟨1, [1, 0]⟩], [⟨1, [0, 1]⟩]]
    | tet | hex => [[], [], []]
    | point => [] := by
  cases c <;> decide +kernel

theorem cornerWeights_cornerSum (found : c.cornerWeights x = .ok w) :
    c.cornerWeights (c.cornerSum (List.range c.cornerCount) w) = .ok w := by
  rw [cornerSum_eq found, placing_self]
  cases c
  · exact found
  · rcases x with _ | ⟨s, _⟩
    · cases found
    · have short : line.cornerWeights [s] = .ok w := found
      simpa [Monomial.powers, natPow_eq_pow] using short
  · rcases x with _ | ⟨s, _ | ⟨t, _ | _⟩⟩
    · cases found
    · cases found
    · simpa [Monomial.powers, natPow_eq_pow] using found
    · cases found
  · rcases x with _ | ⟨s, _ | ⟨t, _⟩⟩
    · cases found
    · cases found
    · have short : quad.cornerWeights [s, t] = .ok w := found
      simpa [Monomial.powers, natPow_eq_pow] using short
  · cases x <;> cases found
  · cases x <;> cases found

end Weights

/-! ### Turns -/

/-- The orders of a cell's corners that keep its shape. -/
def turns : Cell → List (List Nat)
  | quad => (List.range 4).cyclicPermutations ++ (List.range 4).reverse.cyclicPermutations
  | c => (List.range c.cornerCount).permutations'

section Turns

variable {c : Cell} {π g h : List Nat}

theorem mem_turns : π ∈ c.turns ↔
    π.Perm (List.range c.cornerCount) ∧ (c = quad → π ~r List.range 4 ∨ π ~r (List.range 4).reverse) := by
  cases c
  case quad =>
    rw [turns, List.mem_append, List.mem_cyclicPermutations_iff, List.mem_cyclicPermutations_iff]
    refine ⟨fun turned => ⟨?_, fun _ => turned⟩, fun both => both.2 rfl⟩
    exact turned.elim (·.perm) fun reversed => reversed.perm.trans (List.reverse_perm _)
  all_goals simp [turns, List.mem_permutations']

theorem map_idxOf (distinct : h.Nodup) : h.map (h.idxOf ·) = List.range h.length := by
  refine List.ext_getElem (by simp) fun i left right => ?_
  rw [List.getElem_map, List.getElem_range, distinct.idxOf_getElem]

/-- Lists of the same corners differ by a turn, if those of a quadrilateral go around it in the same way or in the opposite one. -/
theorem exists_turn (distinct : h.Nodup) (length : h.length = c.cornerCount) (same : g.Perm h)
    (around : c = quad → g ~r h ∨ g ~r h.reverse) : ∃ π ∈ c.turns, g = π.map fun i => h.getD i 0 := by
  refine ⟨g.map (h.idxOf ·), mem_turns.mpr ⟨?_, fun shape => ?_⟩, ?_⟩
  · rw [← length, ← map_idxOf distinct]
    exact same.map _
  · subst shape
    have four : h.map (h.idxOf ·) = List.range 4 := (map_idxOf distinct).trans (congrArg List.range length)
    rw [← four, ← List.map_reverse]
    exact (around rfl).imp (·.map _) (·.map _)
  · rw [List.map_map]
    refine (List.map_id g).symm.trans (List.map_congr_left fun v member => ?_)
    have bound : h.idxOf v < h.length := List.idxOf_lt_length_iff.mpr (same.mem_iff.mp member)
    rw [Function.comp_apply, List.getD_eq_getElem _ _ bound, List.getElem_idxOf, id]

end Turns

end Cell

namespace Element

namespace Kind

/-- The point of a cell that a point of another one stands for. -/
def place (d c : Cell) (corners : List Nat) (y : List ℚ) : List ℚ := (Cell.placing d c corners).map (·.eval y)

/-- A cell whose corners are placed in another one such that its own element has the monomials and the nodes there. -/
structure Face (k : Kind) (d c : Cell) (corners : List Nat) : Prop where
  monomials : ∀ e ∈ k.exponents c, ∀ m ∈ Polynomial.compose d.dim e (Cell.placing d c corners), m.exponents ∈ k.exponents d
  inside : ∀ y ∈ k.points d, place d c corners y ∈ k.points c
  entities : ∀ y ∈ k.points d, (c.supporting entityTolerance (place d c corners y)).Perm
    ((d.supporting entityTolerance y).map fun i => corners.getD i 0)
  bounds : ∀ y ∈ k.points d, ∀ i ∈ d.supporting entityTolerance y, i < corners.length
  onto : ∀ x ∈ k.points c, (∀ i ∈ c.supporting entityTolerance x, i ∈ corners) → ∃ y ∈ k.points d, place d c corners y = x

instance (k : Kind) (d c : Cell) (corners : List Nat) : Decidable (k.Face d c corners) :=
  decidable_of_iff
    ((∀ e ∈ k.exponents c, ∀ m ∈ Polynomial.compose d.dim e (Cell.placing d c corners),
        (k.exponents d).contains m.exponents = true) ∧
      (∀ y ∈ k.points d, place d c corners y ∈ k.points c ∧
        (c.supporting entityTolerance (place d c corners y)).Perm
          ((d.supporting entityTolerance y).map fun i => corners.getD i 0) ∧
        ∀ i ∈ d.supporting entityTolerance y, i < corners.length) ∧
      ∀ x ∈ k.points c, (∀ i ∈ c.supporting entityTolerance x, i ∈ corners) →
        ∃ y ∈ k.points d, place d c corners y = x)
    ⟨fun all => ⟨fun e member m among => List.contains_iff_mem.mp (all.1 e member m among), fun y member => (all.2.1 y member).1, fun y member => (all.2.1 y member).2.1,
      fun y member => (all.2.1 y member).2.2, all.2.2⟩,
    fun face => ⟨fun e member m among => List.contains_iff_mem.mpr (face.monomials e member m among), fun y member => ⟨face.inside y member, face.entities y member, face.bounds y member⟩,
      face.onto⟩⟩

variable {k : Kind} {d c : Cell} {corners : List Nat}

theorem face_of_facet (fits : k.Fits c) : ∀ facet ∈ c.facets, k.Face c.facetCell c facet := by
  revert fits
  cases k <;> cases c <;> decide +kernel

theorem face_of_turn (fits : k.Fits d) (flat : d.dim ≤ 2) : ∀ π ∈ d.turns, k.Face d d π := by
  revert fits flat
  cases k <;> cases d <;> decide +kernel

theorem exists_nodalBasis (fits : k.Fits d) (flat : d.dim ≤ 2) :
    ∃ basis, NodalBasis (k.points d) (k.exponents d) basis := by
  have found : (nodalBasis (k.points d) (k.exponents d)).toOption.isSome := by
    revert fits flat
    cases k <;> cases d <;> decide +kernel
  obtain ⟨basis, made⟩ := Outcome.exists_of_isSome found
  exact ⟨basis, nodalBasis_eq_ok (length_exponents fits) made⟩

end Kind

/-! ### Values on a face -/

/-- The value at a point of the combination of a basis with coefficients for the faces that its nodes lie inside. -/
noncomputable def fieldAt (c : Cell) (nodes : List (List ℚ)) (basis : List Polynomial) (u : List Nat → ℝ)
    (x : List ℝ) : ℝ :=
  ∑ a ∈ Finset.range nodes.length, (basis.getD a []).eval x * u (c.supporting entityTolerance (nodes.getD a []))

section Values

variable {k : Kind} {d c : Cell} {corners : List Nat} {nodes nodes' : List (List ℚ)} {basis basis' : List Polynomial}
  {t w : List ℝ}

theorem fieldAt_congr {u u' : List Nat → ℝ} (same : ∀ y ∈ nodes, u (c.supporting entityTolerance y) =
    u' (c.supporting entityTolerance y)) (x : List ℝ) : fieldAt c nodes basis u x = fieldAt c nodes basis u' x := by
  refine Finset.sum_congr rfl fun a inside => congrArg (_ * ·) (same _ ?_)
  rw [List.getD_eq_getElem _ _ (Finset.mem_range.mp inside)]
  exact List.getElem_mem _

theorem realPoint_place (d c : Cell) (corners : List Nat) (y : List ℚ) :
    realPoint (Kind.place d c corners y) = (Cell.placing d c corners).map (·.eval (realPoint y)) := by
  rw [realPoint, Kind.place, List.map_map]
  exact List.map_congr_left fun p _ => (p.eval_cast y).symm

/-- A polynomial of the element is, on a face, one of the face's own element. -/
theorem Kind.Face.sum_eval (face : k.Face d c corners) (nodal : NodalBasis nodes (k.exponents d) basis)
    (found : d.cornerWeights t = .ok w) {p : Polynomial} (within : ∀ m ∈ p, m.exponents ∈ k.exponents c) :
    p.eval (c.cornerSum corners w) = ∑ b ∈ Finset.range nodes.length,
      p.eval (realPoint (place d c corners (nodes.getD b []))) * (basis.getD b []).eval t := by
  rw [Cell.cornerSum_eq found]
  induction p with
  | nil => exact (Finset.sum_eq_zero fun b _ => zero_mul _).symm
  | cons m rest ih =>
      rw [List.forall_mem_cons] at within
      have composed := nodal.sum_eval (face.monomials m.exponents within.1) t
      rw [Polynomial.eval_cons, ih within.2, Monomial.eval_real, ← Polynomial.eval_compose d.dim, ← composed,
        Finset.mul_sum, ← Finset.sum_add_distrib]
      refine Finset.sum_congr rfl fun b _ => ?_
      rw [Polynomial.eval_cons, Monomial.eval_real, realPoint_place, Polynomial.eval_compose]
      ring

/-- On a face an element has the values of the element there, with the coefficients of the nodes on the face. -/
theorem Kind.Face.fieldAt_eq (face : k.Face d c corners) (nodal : NodalBasis nodes (k.exponents c) basis)
    (listed : ∀ x ∈ k.points c, x ∈ nodes) (nodal' : NodalBasis nodes' (k.exponents d) basis')
    (known : ∀ y ∈ nodes', y ∈ k.points d) (found : d.cornerWeights t = .ok w) {u : List Nat → ℝ}
    (symmetric : ∀ l l' : List Nat, l.Perm l' → u l = u l') :
    fieldAt c nodes basis u (c.cornerSum corners w) =
      fieldAt d nodes' basis' (fun l => u (l.map fun i => corners.getD i 0)) t := by
  have place (b : Nat) (inside : b ∈ Finset.range nodes'.length) : nodes'.getD b [] ∈ k.points d := by
    rw [List.getD_eq_getElem _ _ (Finset.mem_range.mp inside)]
    exact known _ (List.getElem_mem _)
  unfold fieldAt
  calc _ = ∑ a ∈ Finset.range nodes.length, ∑ b ∈ Finset.range nodes'.length,
          (basis.getD a []).eval (realPoint (Kind.place d c corners (nodes'.getD b []))) * (basis'.getD b []).eval t *
            u (c.supporting entityTolerance (nodes.getD a [])) := by
          refine Finset.sum_congr rfl fun a inside => ?_
          have own : basis.getD a [] ∈ basis := by
            rw [List.getD_eq_getElem _ _ (nodal.length.symm ▸ Finset.mem_range.mp inside)]
            exact List.getElem_mem _
          rw [face.sum_eval nodal' found (nodal.within _ own), Finset.sum_mul]
    _ = ∑ b ∈ Finset.range nodes'.length, (basis'.getD b []).eval t *
          u (c.supporting entityTolerance (Kind.place d c corners (nodes'.getD b []))) := by
        rw [Finset.sum_comm]
        refine Finset.sum_congr rfl fun b inside => ?_
        -- The face's node is a node of the element, and only the function of that node is not zero there.
        obtain ⟨i, bound, here⟩ := List.mem_iff_getElem.mp (listed _ (face.inside _ (place b inside)))
        rw [← List.getD_eq_getElem _ [] bound] at here
        rw [← here, Finset.sum_eq_single_of_mem i (Finset.mem_range.mpr bound) fun a other apart => ?_]
        · rw [nodal.delta i bound i bound, if_pos rfl, one_mul]
        · rw [nodal.delta i bound a (Finset.mem_range.mp other), if_neg (Ne.symm apart), zero_mul, zero_mul]
    _ = _ := Finset.sum_congr rfl fun b inside => congrArg (_ * ·) (symmetric _ _ (face.entities _ (place b inside)))

end Values

end Element

end Galerkin
