import Mathlib
import Galerkin.Proofs.Element
import Galerkin.Proofs.Linear.Elimination
import Galerkin.Proofs.Polynomial

/-!
The basis of an element is nodal, and it reproduces the monomials of its space: the functions are one at their own node
and zero at the others, and every monomial is the combination of them with its values at the nodes.

The basis of an element reproduces the derivatives of the polynomials of its space as it does their values. The constant
is one of them: the functions of the basis sum to one everywhere, and their gradients to zero.
-/

namespace Galerkin

open Linear.Elimination (entry)

namespace Element

/-- Functions that are one at their own node and zero at the others, and that reproduce some monomials. -/
structure NodalBasis (nodes : List (List ℚ)) (exponents : List (List Nat)) (basis : List Polynomial) : Prop where
  length : basis.length = nodes.length
  within : ∀ p ∈ basis, ∀ m ∈ p, m.exponents ∈ exponents
  delta : ∀ a < nodes.length, ∀ b < nodes.length,
    (basis.getD b []).eval (realPoint (nodes.getD a [])) = if a = b then 1 else 0
  reproduces : ∀ e ∈ exponents, ∀ x : List ℝ, ∑ a ∈ Finset.range nodes.length,
    Monomial.powers e (realPoint (nodes.getD a [])) * (basis.getD a []).eval x = Monomial.powers e x

theorem entry_vandermonde {nodes : List (List ℚ)} {exponents : List (List Nat)} {i j : Nat} (row : i < nodes.length)
    (column : j < exponents.length) : entry j ((vandermonde nodes exponents).getD i []) =
      Monomial.powers (exponents.getD j []) (nodes.getD i []) := by
  simp [entry, vandermonde, row, column]

section Inverse

variable {nodes : List (List ℚ)} {exponents : List (List Nat)} {C : List (List ℚ)}

theorem length_vandermonde (nodes : List (List ℚ)) (exponents : List (List Nat)) :
    (vandermonde nodes exponents).length = nodes.length := List.length_map _

theorem square_vandermonde (square : exponents.length = nodes.length) :
    ∀ row ∈ vandermonde nodes exponents, row.length = (vandermonde nodes exponents).length := by
  intro row member
  obtain ⟨x, -, rfl⟩ := List.mem_map.mp member
  rw [List.length_map, length_vandermonde, square]

/-- A function of the basis has a column of the inverse for its coefficients. -/
theorem eval_column (square : exponents.length = nodes.length) (height : C.length = nodes.length) (k : Nat) (x : List ℝ) :
    (Polynomial.ofCoeffs (column C k) exponents).eval x =
      ∑ j ∈ Finset.range nodes.length, ((entry k (C.getD j []) : ℚ) : ℝ) * Monomial.powers (exponents.getD j []) x := by
  rw [Polynomial.eval_ofCoeffs (by rw [column, List.length_map, height, square]), square]
  refine Finset.sum_congr rfl fun j member => ?_
  have bound : j < C.length := height ▸ Finset.mem_range.mp member
  simp [column, entry, bound]

theorem powers_realPoint (square : exponents.length = nodes.length) {i j : Nat} (row : i < nodes.length)
    (member : j ∈ Finset.range nodes.length) : Monomial.powers (exponents.getD j []) (realPoint (nodes.getD i [])) =
      ((entry j ((vandermonde nodes exponents).getD i []) : ℚ) : ℝ) := by
  rw [Monomial.powers_cast, entry_vandermonde row (square.symm ▸ Finset.mem_range.mp member)]

/-- The matrix times its inverse: the values of the functions at the nodes. -/
theorem eval_column_node (square : exponents.length = nodes.length) (height : C.length = nodes.length)
    (found : Linear.Elimination.inverse? (vandermonde nodes exponents) = some C) {a b : Nat} (first : a < nodes.length)
    (second : b < nodes.length) : (Polynomial.ofCoeffs (column C b) exponents).eval (realPoint (nodes.getD a [])) =
      if a = b then 1 else 0 := by
  have unit := Linear.Elimination.sum_inverse_right (square_vandermonde square) found
  rw [length_vandermonde] at unit
  calc _ = ∑ j ∈ Finset.range nodes.length, ((entry b (C.getD j []) : ℚ) : ℝ) *
        ((entry j ((vandermonde nodes exponents).getD a []) : ℚ) : ℝ) :=
      (eval_column square height b _).trans
        (Finset.sum_congr rfl fun j member => by rw [powers_realPoint square first member])
    _ = ((∑ j ∈ Finset.range nodes.length, entry j ((vandermonde nodes exponents).getD a []) *
        entry b (C.getD j []) : ℚ) : ℝ) := by
      rw [Rat.cast_sum]
      exact Finset.sum_congr rfl fun j _ => by rw [Rat.cast_mul, mul_comm]
    _ = if a = b then 1 else 0 := by
      rw [unit a first b second, apply_ite Rat.cast, Rat.cast_one, Rat.cast_zero]

/-- The inverse times the matrix: the functions with the values of a monomial at the nodes. -/
theorem sum_powers_mul_column (square : exponents.length = nodes.length) (height : C.length = nodes.length)
    (found : Linear.Elimination.inverse? (vandermonde nodes exponents) = some C) {i : Nat}
    (member : i ∈ Finset.range nodes.length) (x : List ℝ) : ∑ a ∈ Finset.range nodes.length,
      Monomial.powers (exponents.getD i []) (realPoint (nodes.getD a [])) *
        (Polynomial.ofCoeffs (column C a) exponents).eval x = Monomial.powers (exponents.getD i []) x := by
  have unit := Linear.Elimination.sum_inverse_left (square_vandermonde square) found
  rw [length_vandermonde] at unit
  calc _ = ∑ a ∈ Finset.range nodes.length, ∑ j ∈ Finset.range nodes.length,
        (((entry a (C.getD j []) : ℚ) : ℝ) * ((entry i ((vandermonde nodes exponents).getD a []) : ℚ) : ℝ)) *
          Monomial.powers (exponents.getD j []) x := by
        refine Finset.sum_congr rfl fun a inside => ?_
        rw [eval_column square height, powers_realPoint square (Finset.mem_range.mp inside) member, Finset.mul_sum]
        exact Finset.sum_congr rfl fun j _ => by ring
    _ = ∑ j ∈ Finset.range nodes.length, (if j = i then 1 else 0) * Monomial.powers (exponents.getD j []) x := by
      rw [Finset.sum_comm]
      refine Finset.sum_congr rfl fun j inside => ?_
      have one := unit j (Finset.mem_range.mp inside) i (Finset.mem_range.mp member)
      rw [← Finset.sum_mul, ← Rat.cast_one, ← Rat.cast_zero (α := ℝ), ← apply_ite Rat.cast, ← one, Rat.cast_sum]
      exact congrArg (· * _) (Finset.sum_congr rfl fun a _ => (Rat.cast_mul _ _).symm)
    _ = _ := by
      rw [Finset.sum_eq_single_of_mem i member fun j _ apart => by rw [if_neg apart, zero_mul], if_pos rfl, one_mul]

theorem nodalBasis_eq_ok {basis : List Polynomial} (square : exponents.length = nodes.length)
    (made : nodalBasis nodes exponents = .ok basis) : NodalBasis nodes exponents basis := by
  unfold nodalBasis at made
  split at made
  swap
  · cases made
  next C found =>
  cases made
  have height : C.length = nodes.length :=
    (Linear.Elimination.length_inverse (square_vandermonde square) found).trans (length_vandermonde nodes exponents)
  have here {k : Nat} (inside : k < nodes.length) :
      ((List.range nodes.length).map fun k => Polynomial.ofCoeffs (column C k) exponents).getD k [] =
        Polynomial.ofCoeffs (column C k) exponents := by
    simp [inside]
  refine ⟨by simp, fun p known m member => ?_, fun a first b second => ?_, fun e known x => ?_⟩
  · obtain ⟨k, -, rfl⟩ := List.mem_map.mp known
    have listed := (List.mem_filter.mp member).1
    rw [← List.map_uncurry_zip_eq_zipWith, List.mem_map] at listed
    obtain ⟨⟨c, e⟩, paired, rfl⟩ := listed
    exact (List.of_mem_zip paired).2
  · rw [here second]
    exact eval_column_node square height found first second
  · obtain ⟨i, bound, rfl⟩ := List.mem_iff_getElem.mp known
    have own : exponents[i] = exponents.getD i [] := (List.getD_eq_getElem _ _ bound).symm
    rw [own, Finset.sum_congr rfl fun a inside => by rw [here (Finset.mem_range.mp inside)]]
    exact sum_powers_mul_column square height found (Finset.mem_range.mpr (square ▸ bound)) x

end Inverse

/-- A polynomial with the monomials of the space is the combination of the basis with its values at the nodes. -/
theorem NodalBasis.sum_eval {nodes : List (List ℚ)} {exponents : List (List Nat)} {basis : List Polynomial}
    (nodal : NodalBasis nodes exponents basis) {p : Polynomial} (within : ∀ m ∈ p, m.exponents ∈ exponents) (x : List ℝ) :
    ∑ a ∈ Finset.range nodes.length, p.eval (realPoint (nodes.getD a [])) * (basis.getD a []).eval x = p.eval x := by
  induction p with
  | nil => exact Finset.sum_eq_zero fun a _ => zero_mul _
  | cons m rest ih =>
      rw [List.forall_mem_cons] at within
      rw [Polynomial.eval_cons, ← ih within.2, Monomial.eval_real, ← nodal.reproduces m.exponents within.1 x, Finset.mul_sum,
        ← Finset.sum_add_distrib]
      refine Finset.sum_congr rfl fun a _ => ?_
      rw [Polynomial.eval_cons, Monomial.eval_real]
      ring

theorem OfKind.nodal {k : Kind} {cell : Cell} {e : Element} (known : OfKind k cell e) :
    NodalBasis e.nodes (k.exponents cell) e.basis :=
  nodalBasis_eq_ok ((Kind.length_exponents known.fits).trans known.nodes.length_eq.symm) known.basis

end Element

open Finset

namespace Element

/-! ### Unity -/

/-- The derivative of a polynomial of the space combines those of the basis with the polynomial's values at the nodes. -/
theorem NodalBasis.sum_derivative {nodes : List (List ℚ)} {exponents : List (List Nat)} {basis : List Polynomial}
    (nodal : NodalBasis nodes exponents basis) {p : Polynomial} (within : ∀ m ∈ p, m.exponents ∈ exponents) (axis : Nat)
    (x : List ℝ) : ∑ a ∈ range nodes.length,
      p.eval (realPoint (nodes.getD a [])) * ((basis.getD a []).derivative axis).eval x = (p.derivative axis).eval x := by
  -- Missing coordinates count as ones; with enough of them there is one to move along.
  let y := x ++ List.replicate (axis + 1) 1
  have inside : axis < y.length := by
    rw [List.length_append, List.length_replicate]
    omega
  have terms := HasDerivAt.fun_sum fun a (_ : a ∈ range nodes.length) =>
    ((basis.getD a []).hasDerivAt_eval inside).const_mul (p.eval (realPoint (nodes.getD a [])))
  simp only [nodal.sum_eval within] at terms
  have same := terms.unique (p.hasDerivAt_eval inside)
  simpa only [y, Polynomial.eval_append_ones] using same

theorem Kind.constant_mem (k : Kind) (cell : Cell) : List.replicate cell.dim 0 ∈ k.exponents cell := by
  cases k <;> cases cell <;> decide +kernel

section Unity

variable {k : Kind} {cell : Cell} {e : Element}

theorem Kind.one_within (k : Kind) (cell : Cell) : ∀ m ∈ Polynomial.one cell.dim, m.exponents ∈ k.exponents cell := by
  intro m member
  rw [List.mem_singleton.mp member]
  exact k.constant_mem cell

theorem OfKind.size (known : OfKind k cell e) : e.size = e.nodes.length := known.nodal.length

theorem OfKind.sum_values (known : OfKind k cell e) (x : List ℝ) : ∑ a ∈ range e.size, (e.values x).getD a 0 = 1 := by
  have value : ∀ a ∈ range e.nodes.length, (e.values x).getD a 0 =
      (Polynomial.one cell.dim).eval (realPoint (e.nodes.getD a [])) * (e.basis.getD a []).eval x := by
    intro a member
    have inside : a < e.basis.length := known.nodal.length.symm ▸ mem_range.mp member
    rw [Polynomial.eval_one, one_mul]
    simp [values, inside]
  calc ∑ a ∈ range e.size, (e.values x).getD a 0
      = ∑ a ∈ range e.nodes.length,
          (Polynomial.one cell.dim).eval (realPoint (e.nodes.getD a [])) * (e.basis.getD a []).eval x := by
        rw [known.size]
        exact sum_congr rfl value
    _ = (Polynomial.one cell.dim).eval x := known.nodal.sum_eval (k.one_within cell) x
    _ = 1 := Polynomial.eval_one _ x

theorem OfKind.sum_gradients (known : OfKind k cell e) (x : List ℝ) (axis : Nat) :
    ∑ a ∈ range e.size, ((e.gradients x).getD a []).getD axis 0 = 0 := by
  have slope : ∀ a ∈ range e.nodes.length, ((e.gradients x).getD a []).getD axis 0 = if axis < e.dim then
      (Polynomial.one cell.dim).eval (realPoint (e.nodes.getD a [])) * ((e.basis.getD a []).derivative axis).eval x
      else 0 := by
    intro a member
    have inside : a < e.basis.length := known.nodal.length.symm ▸ mem_range.mp member
    rw [Polynomial.eval_one, one_mul]
    by_cases there : axis < e.dim
    · simp [gradients, inside, there]
    · simp [gradients, inside, there]
  rw [known.size, sum_congr rfl slope]
  by_cases there : axis < e.dim
  · simp only [if_pos there]
    exact (known.nodal.sum_derivative (k.one_within cell) axis x).trans (Polynomial.eval_derivative_one _ axis x)
  · simp only [if_neg there, sum_const_zero]

end Unity

/-! ### Unisolvence -/

open Linear.Elimination (Kills Independent)

variable {nodes nodes' : List (List ℚ)} {exponents : List (List Nat)}

/-- The only combination of the monomials that vanishes at all nodes is the one without coefficients. -/
def Unisolvent (nodes : List (List ℚ)) (exponents : List (List Nat)) : Prop :=
  ∀ v : Nat → ℚ, (∀ x ∈ nodes, ∑ j ∈ range exponents.length, Monomial.powers (exponents.getD j []) x * v j = 0) →
    ∀ j < exponents.length, v j = 0

theorem Unisolvent.perm (unisolvent : Unisolvent nodes exponents) (perm : nodes.Perm nodes') :
    Unisolvent nodes' exponents :=
  fun v vanishes => unisolvent v fun x member => vanishes x (perm.mem_iff.mp member)

theorem kills_powers (v : Nat → ℚ) (x : List ℚ) :
    Kills exponents.length v (exponents.map fun e => Monomial.powers e x) ↔
      ∑ j ∈ range exponents.length, Monomial.powers (exponents.getD j []) x * v j = 0 := by
  have entries : ∀ j ∈ range exponents.length, entry j (exponents.map fun e => Monomial.powers e x) * v j =
      Monomial.powers (exponents.getD j []) x * v j := by
    intro j member
    have inside := mem_range.mp member
    rw [entry, List.getD_eq_getElem _ _ (by rwa [List.length_map]), List.getElem_map, List.getD_eq_getElem _ _ inside]
  rw [Kills, sum_congr rfl entries]

theorem independent_vandermonde : Independent exponents.length (vandermonde nodes exponents) ↔
    Unisolvent nodes exponents := by
  simp only [Independent, Unisolvent, vandermonde, List.forall_mem_map, kills_powers]

/-- There is a nodal basis exactly for nodes that tell the polynomials of the space apart. -/
theorem exists_nodalBasis_iff (square : exponents.length = nodes.length) :
    (∃ basis, nodalBasis nodes exponents = .ok basis) ↔ Unisolvent nodes exponents := by
  have rows := square_vandermonde square
  have size : (vandermonde nodes exponents).length = exponents.length := (length_vandermonde _ _).trans square.symm
  rw [← independent_vandermonde, ← size]
  unfold nodalBasis
  constructor
  · rintro ⟨basis, made⟩
    split at made
    · next C found => exact Linear.Elimination.independent_of_inverse rows found
    · cases made
  · intro independent
    obtain ⟨C, found⟩ := Linear.Elimination.exists_inverse rows independent
    rw [found]
    exact ⟨_, rfl⟩

/-! ### Elements of every kind -/

namespace Kind

variable {k : Kind} {cell : Cell}

/-- The basis for the nodes in the order of their lattice, which is not the order of any element. -/
theorem nodalBasis_points (fits : k.Fits cell) :
    (nodalBasis (k.points cell) (k.exponents cell)).toOption.isSome := by
  revert fits
  cases k <;> cases cell <;> decide +kernel

theorem unisolvent (fits : k.Fits cell) : Unisolvent (k.points cell) (k.exponents cell) :=
  (exists_nodalBasis_iff (length_exponents fits)).mp (Outcome.exists_of_isSome (nodalBasis_points fits))

theorem exists_ofLattice (fits : k.Fits cell) (family : Family) (order : Nat) :
    ∃ e, ofLattice cell family order (k.points cell) (k.exponents cell) = .ok e := by
  have perm := (arranged_perm cell (k.points cell)).symm
  obtain ⟨basis, found⟩ := (exists_nodalBasis_iff ((length_exponents fits).trans perm.length_eq)).mpr
    ((unisolvent fits).perm perm)
  exact ⟨_, Outcome.bind_eq_ok.mpr ⟨basis, found, rfl⟩⟩

theorem take_arranged (fits : k.Fits cell) :
    ((arranged cell (k.points cell)).map (·.2)).take cell.cornerCount = cornerNodes cell := by
  revert fits
  cases k <;> cases cell <;> intro fits <;> first | exact absurd (fits rfl) (by decide) | cbv

end Kind

end Element

end Galerkin
