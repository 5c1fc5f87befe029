import Mathlib
import Galerkin.Proofs.Element.Reproduction

/-!
The nodes of the Lagrange lattice tell the polynomials of its order apart, whatever the order. Nodes and monomials have
the same indices, and with an index come all smaller ones. So the nodes lie on lines along the first axis, and a line
that reaches some layer has a node in each layer below. From the outermost layer inwards, the coefficients of a
combination that vanishes at all nodes form, layer by layer, one in the remaining variables that vanishes at the nodes
of the layer.
-/

namespace Galerkin

open Finset

/-- The points of the closed cell. -/
structure Cell.Encloses (cell : Cell) (x : List ℚ) : Prop where
  length : x.length = cell.dim
  simplex : cell.isSimplex = true → (∀ t ∈ x, 0 ≤ t) ∧ x.sum ≤ 1
  cube : cell.isSimplex = false → ∀ t ∈ x, -1 ≤ t ∧ t ≤ 1

namespace Lattice

/-! ### Indices -/

theorem nodup_tuples {β : Type} {xs : List β} (distinct : xs.Nodup) (d : Nat) : (tuples xs d).Nodup := by
  induction d with
  | zero => exact List.nodup_singleton _
  | succ d ih =>
      rw [tuples, List.nodup_flatMap]
      constructor
      · intro x _
        exact ih.map (List.cons_injective)
      · apply distinct.imp
        intro x y other t first second
        rcases List.mem_map.mp first with ⟨rest, _, rfl⟩
        rcases List.mem_map.mp second with ⟨rest', _, same⟩
        exact other (List.cons.inj same).1.symm

theorem mem_indices {cell : Cell} {count : Nat} {e : List Nat} :
    e ∈ indices cell count ↔
      e.length = cell.dim ∧ (∀ k ∈ e, k < count) ∧ (cell.isSimplex = true → e.sum < count) := by
  have within : e ∈ tuples (List.range count) cell.dim ↔ e.length = cell.dim ∧ ∀ k ∈ e, k < count := by
    simp only [Element.mem_tuples, List.mem_range]
  rw [indices]
  split
  · next simplex =>
      rw [List.mem_filter, within, decide_eq_true_eq, Element.totalSize_eq_sum, and_assoc]
      simp [simplex]
  · next cube => simp [within, cube]

theorem nodup_indices (cell : Cell) (count : Nat) : (indices cell count).Nodup := by
  have all := nodup_tuples (List.nodup_range (n := count)) cell.dim
  rw [indices]
  split
  · exact all.filter _
  · exact all

theorem mem_tuples_of_mem_indices {cell : Cell} {count : Nat} {e : List Nat} (member : e ∈ indices cell count) :
    e ∈ tuples (List.range count) cell.dim := by
  rcases mem_indices.mp member with ⟨length, entries, _⟩
  exact Element.mem_tuples.mpr ⟨length, fun k inside => List.mem_range.mpr (entries k inside)⟩

/-- With an index come all that are smaller in every entry. -/
theorem mem_indices_of_le {cell : Cell} {count : Nat} {e e' : List Nat} (below : List.Forall₂ (· ≤ ·) e' e)
    (member : e ∈ indices cell count) : e' ∈ indices cell count := by
  rcases mem_indices.mp member with ⟨length, entries, total⟩
  apply mem_indices.mpr
  refine ⟨below.length_eq.trans length, ?_, fun simplex => lt_of_le_of_lt below.sum_le_sum (total simplex)⟩
  intro k inside
  rcases Outcome.exists_of_matched_left below inside with ⟨k', inside', bound⟩
  exact lt_of_le_of_lt bound (entries k' inside')

/-! ### Combinations of monomials -/

section Combinations

variable {K : Type} [CommRing K] {tick : Nat → K} {count d : Nat}

/-- A monomial at a node, both given by their indices. -/
def monomialAt (tick : Nat → K) : List Nat → List Nat → K
  | k :: e, j :: i => tick j ^ k * monomialAt tick e i
  | _, _ => 1

/-- A combination of the monomials with all exponents below a count, at a node. -/
def combinationAt (tick : Nat → K) (count d : Nat) (c : List Nat → K) (i : List Nat) : K :=
  ((tuples (List.range count) d).map fun e => c e * monomialAt tick e i).sum

/-- Along the first axis a combination is a polynomial, with combinations in the other variables for coefficients. -/
theorem combinationAt_cons (c : List Nat → K) (j : Nat) (i : List Nat) :
    combinationAt tick count (d + 1) c (j :: i) =
      ∑ k ∈ range count, combinationAt tick count d (fun e => c (k :: e)) i * tick j ^ k := by
  have layer (k : Nat) : (((tuples (List.range count) d).map (k :: ·)).map fun e => c e * monomialAt tick e (j :: i)).sum =
      combinationAt tick count d (fun e => c (k :: e)) i * tick j ^ k := by
    rw [combinationAt, ← List.sum_map_mul_right, List.map_map]
    apply congrArg List.sum
    apply List.map_congr_left
    intro e _
    simp only [Function.comp_apply, monomialAt]
    ring
  rw [combinationAt, tuples, List.map_flatMap, List.flatMap, List.sum_flatten, List.map_map]
  calc ((List.range count).map _).sum
      = ((List.range count).map fun k => combinationAt tick count d (fun e => c (k :: e)) i * tick j ^ k).sum := by
        apply congrArg List.sum
        apply List.map_congr_left
        intro k _
        exact layer k
    _ = _ := rfl

/-- A polynomial of degree at most `n` that vanishes at more than `n` points has no coefficients. -/
theorem coefficients_eq_zero [IsDomain K] (apart : Function.Injective tick) {n : Nat} {a : Nat → K}
    (vanishes : ∀ j ≤ n, ∑ k ∈ range (n + 1), a k * tick j ^ k = 0) : ∀ k ≤ n, a k = 0 := by
  have distinct : Function.Injective fun j : Fin (n + 1) => tick j := fun j j' same => Fin.ext (apart same)
  have none := Matrix.eq_zero_of_forall_index_sum_mul_pow_eq_zero (v := fun k : Fin (n + 1) => a k) distinct fun j => by
    rw [← vanishes j (by omega), Finset.sum_range]
  intro k bound
  exact congrFun none ⟨k, by omega⟩

/-- Where `I` holds of an index it holds of all that are smaller in every entry. -/
def Lower (I : List Nat → Prop) : Prop := ∀ e e', List.Forall₂ (· ≤ ·) e' e → I e → I e'

theorem Lower.layer {I : List Nat → Prop} (lower : Lower I) (k : Nat) : Lower fun e => I (k :: e) :=
  fun e e' below => lower (k :: e) (k :: e') (.cons le_rfl below)

section Vanishing

variable [IsDomain K] {I : List Nat → Prop} {c : List Nat → K}

/-- Where the layers further out have no coefficients, the combination in a layer vanishes at the nodes of the layer. -/
theorem layer_vanishes (apart : Function.Injective tick) (lower : Lower I)
    (vanishes : ∀ i ∈ tuples (List.range count) (d + 1), I i → combinationAt tick count (d + 1) c i = 0) {k : Nat}
    (bound : k < count) (further : ∀ k' > k, k' < count → ∀ e ∈ tuples (List.range count) d, c (k' :: e) = 0) :
    ∀ i ∈ tuples (List.range count) d, I (k :: i) → combinationAt tick count d (fun e => c (k :: e)) i = 0 := by
  intro i member inside
  have none : ∀ k' > k, k' < count → combinationAt tick count d (fun e => c (k' :: e)) i = 0 := by
    intro k' later bound'
    have terms : (tuples (List.range count) d).map (fun e => c (k' :: e) * monomialAt tick e i) =
        (tuples (List.range count) d).map fun _ => 0 := by
      apply List.map_congr_left
      intro e listed
      rw [further k' later bound' e listed, zero_mul]
    rw [combinationAt, terms]
    simp
  -- The line through the node has a node in every layer up to this one.
  have line : ∀ j ≤ k, ∑ k' ∈ range (k + 1), combinationAt tick count d (fun e => c (k' :: e)) i * tick j ^ k' = 0 := by
    intro j near
    have listed : j :: i ∈ tuples (List.range count) (d + 1) := by
      rw [tuples, List.mem_flatMap]
      exact ⟨j, List.mem_range.mpr (by omega), List.mem_map_of_mem member⟩
    have below : List.Forall₂ (· ≤ ·) (j :: i) (k :: i) := .cons near (List.forall₂_refl i)
    rw [← vanishes (j :: i) listed (lower _ _ below inside), combinationAt_cons]
    apply Finset.sum_subset (range_subset_range.mpr bound)
    intro k' within beyond
    rw [mem_range] at within beyond
    rw [none k' (by omega) within, zero_mul]
  exact coefficients_eq_zero apart line k le_rfl

/-- A combination of monomials with the indices of a lower set that vanishes at its nodes has no coefficients. -/
theorem combination_eq_zero (apart : Function.Injective tick) (lower : Lower I) (outside : ∀ e, ¬ I e → c e = 0)
    (vanishes : ∀ i ∈ tuples (List.range count) d, I i → combinationAt tick count d c i = 0) :
    ∀ e ∈ tuples (List.range count) d, c e = 0 := by
  induction d generalizing I c with
  | zero =>
      intro e member
      have nil : e = [] := List.mem_singleton.mp member
      subst nil
      by_cases inside : I []
      · simpa [combinationAt, tuples, monomialAt] using vanishes [] member inside
      · exact outside [] inside
  | succ d ih =>
      have layer (k : Nat) : k < count → ∀ e ∈ tuples (List.range count) d, c (k :: e) = 0 := by
        induction k using Nat.strong_decreasing_induction with
        | base => exact ⟨count, fun k beyond bound => absurd bound (by omega)⟩
        | step k further =>
            intro bound
            apply ih (lower.layer k) fun e => outside (k :: e)
            exact layer_vanishes apart lower vanishes bound further
      intro e member
      rw [tuples, List.mem_flatMap] at member
      rcases member with ⟨k, bound, rest⟩
      rcases List.mem_map.mp rest with ⟨e', inside, rfl⟩
      exact layer k (List.mem_range.mp bound) e' inside

end Vanishing

end Combinations

/-! ### Nodes -/

section Nodes

variable {cell : Cell} {n : Nat}

theorem place_eq (cell : Cell) (n i : Nat) : place cell n i = if cell.isSimplex then (i : ℚ) / n else 2 * i / n - 1 := by
  rw [place, Rat.mkRat_eq_div, Rat.mkRat_eq_div]
  push_cast
  rfl

theorem place_injective (cell : Cell) (positive : 0 < n) : Function.Injective (place cell n) := by
  have nonzero : (n : ℚ) ≠ 0 := by exact_mod_cast positive.ne'
  intro i j same
  rw [place_eq, place_eq] at same
  split at same
  · exact_mod_cast (div_left_inj' nonzero).mp same
  · have doubled : (2 : ℚ) * i = 2 * j := (div_left_inj' nonzero).mp (sub_left_inj.mp same)
    exact_mod_cast mul_left_cancel₀ two_ne_zero doubled

theorem nodup_points (cell : Cell) (positive : 0 < n) : (lagrangePoints cell n).Nodup :=
  (nodup_indices cell (n + 1)).map (List.map_injective_iff.mpr (place_injective cell positive))

theorem encloses_points (positive : 0 < n) : ∀ x ∈ lagrangePoints cell n, cell.Encloses x := by
  have real : (0 : ℚ) < n := by exact_mod_cast positive
  intro x member
  rcases List.mem_map.mp member with ⟨e, listed, rfl⟩
  rcases mem_indices.mp listed with ⟨length, entries, total⟩
  have bound : ∀ k ∈ e, (k : ℚ) ≤ n := by
    intro k inside
    exact_mod_cast Nat.le_of_lt_succ (entries k inside)
  constructor
  · rw [List.length_map, length]
  · intro simplex
    have places : e.map (place cell n) = e.map fun k : Nat => (k : ℚ) * (n : ℚ)⁻¹ := by
      apply List.map_congr_left
      intro k _
      rw [place_eq, if_pos simplex, div_eq_mul_inv]
    constructor
    · rw [places, List.forall_mem_map]
      intro k _
      positivity
    · have sum : (e.map (fun k : Nat => (k : ℚ))).sum ≤ n := by
        rw [← Nat.cast_list_sum]
        exact_mod_cast Nat.le_of_lt_succ (total simplex)
      rw [places, List.sum_map_mul_right, ← div_eq_mul_inv, div_le_one real]
      exact sum
  · intro cube
    rw [List.forall_mem_map]
    intro k inside
    rw [place_eq, if_neg (by simp [cube])]
    have low : 0 ≤ 2 * (k : ℚ) / n := by positivity
    have high : 2 * (k : ℚ) / n ≤ 2 := by
      rw [div_le_iff₀ real]
      linarith [bound k inside]
    constructor <;> linarith

/-- The index of a corner: the first place or the last one in every direction. -/
def cornerIndex (n : Nat) (corner : List Int) : List Nat := corner.map fun t => if t = 1 then n else 0

theorem sum_cornerIndex (n : Nat) (corner : List Int) : (cornerIndex n corner).sum = corner.count 1 * n := by
  induction corner with
  | nil => simp [cornerIndex]
  | cons t rest ih =>
      have tail : (cornerIndex n (t :: rest)).sum = (if t = 1 then n else 0) + (cornerIndex n rest).sum := rfl
      rw [tail, ih, List.count_cons, add_mul, add_comm]
      by_cases last : t = 1 <;> simp [last]

theorem place_zero (cell : Cell) (n : Nat) : place cell n 0 = if cell.isSimplex then 0 else -1 := by
  rw [place_eq]
  split <;> norm_num

theorem place_self (cell : Cell) (positive : 0 < n) : place cell n n = 1 := by
  have nonzero : (n : ℚ) ≠ 0 := by exact_mod_cast positive.ne'
  rw [place_eq]
  split
  · exact div_self nonzero
  · rw [mul_div_assoc, div_self nonzero]
    norm_num

theorem corner_mem_points (positive : 0 < n) : ∀ corner ∈ Element.cornerNodes cell, corner ∈ lagrangePoints cell n := by
  have ends : ∀ corner ∈ cell.corners, corner.length = cell.dim ∧
      (∀ t ∈ corner, t = 1 ∨ t = if cell.isSimplex then 0 else -1) ∧
        (cell.isSimplex = true → corner.count 1 ≤ 1) := by
    cases cell <;> decide
  intro x member
  rcases List.mem_map.mp member with ⟨corner, listed, rfl⟩
  rcases ends corner listed with ⟨length, entries, single⟩
  apply List.mem_map.mpr
  refine ⟨cornerIndex n corner, mem_indices.mpr ⟨?_, ?_, ?_⟩, ?_⟩
  · rw [cornerIndex, List.length_map, length]
  · rw [cornerIndex, List.forall_mem_map]
    intro t _
    split <;> omega
  · intro simplex
    calc (cornerIndex n corner).sum = corner.count 1 * n := sum_cornerIndex n corner
      _ ≤ 1 * n := Nat.mul_le_mul_right n (single simplex)
      _ < n + 1 := by omega
  · rw [cornerIndex, List.map_map]
    apply List.map_congr_left
    intro t inside
    rw [Function.comp_apply]
    rcases entries t inside with rfl | other
    · rw [if_pos rfl, place_self cell positive, Int.cast_one]
    · have apart : t ≠ 1 := by
        rw [other]
        split <;> decide
      rw [if_neg apart, place_zero, other]
      split <;> norm_num

end Nodes

end Lattice

namespace Element

/-! ### Unisolvence -/

section Unisolvence

variable {cell : Cell} {n : Nat}

/-- Over numbers that extend the rational ones, the only combination of the monomials that vanishes at all nodes is the
one without coefficients. -/
def UnisolventOver {K : Type} [CommRing K] (ι : ℚ →+* K) (nodes : List (List ℚ)) (exponents : List (List Nat)) :
    Prop :=
  ∀ v : Nat → K,
    (∀ x ∈ nodes, ∑ j ∈ range exponents.length, ι (Monomial.powers (exponents.getD j []) x) * v j = 0) →
      ∀ j < exponents.length, v j = 0

theorem unisolventOver_rat {nodes : List (List ℚ)} {exponents : List (List Nat)} :
    UnisolventOver (.id ℚ) nodes exponents ↔ Unisolvent nodes exponents := by
  simp only [UnisolventOver, Unisolvent, RingHom.id_apply]

theorem natPow_rat (x : ℚ) (k : Nat) : Arithmetic.natPow x k = x ^ k := by
  have real : ((Arithmetic.natPow x k : ℚ) : ℝ) = ((x ^ k : ℚ) : ℝ) := by
    rw [Arithmetic.natPow, Monomial.powWithin_cast, ← Arithmetic.natPow, natPow_eq_pow, Rat.cast_pow]
  exact Rat.cast_injective real

variable {K : Type} [CommRing K]

/-- The places of a lattice among numbers that extend the rational ones. -/
def tick (ι : ℚ →+* K) (cell : Cell) (n i : Nat) : K := ι (Lattice.place cell n i)

theorem powers_point (ι : ℚ →+* K) (e i : List Nat) :
    ι (Monomial.powers e (i.map (Lattice.place cell n))) = Lattice.monomialAt (tick ι cell n) e i := by
  induction e generalizing i with
  | nil => exact map_one _
  | cons k e ih =>
      cases i with
      | nil => exact map_one _
      | cons j i => rw [List.map_cons, Monomial.powers, natPow_rat, Lattice.monomialAt, ← ih, tick, map_mul, map_pow]

theorem tick_injective [IsDomain K] (ι : ℚ →+* K) (cell : Cell) (positive : 0 < n) :
    Function.Injective (tick ι cell n) :=
  ι.injective.comp (Lattice.place_injective cell positive)

theorem sum_getD {β : Type} (l : List β) (default : β) (f : β → K) :
    ∑ j ∈ range l.length, f (l.getD j default) = (l.map f).sum := by
  rw [Finset.sum_range, ← List.sum_ofFn]
  apply congrArg List.sum
  apply List.ext_getElem (by simp)
  intro j left right
  simp

/-- A sum over the indices of a lattice as one over all tuples. -/
theorem sum_indices {count : Nat} {f : List Nat → K} (outside : ∀ e, e ∉ Lattice.indices cell count → f e = 0) :
    ((Lattice.indices cell count).map f).sum = ((Lattice.tuples (List.range count) cell.dim).map f).sum := by
  rw [← List.sum_toFinset f (Lattice.nodup_indices cell count),
    ← List.sum_toFinset f (Lattice.nodup_tuples List.nodup_range cell.dim)]
  apply Finset.sum_subset
  · intro e member
    rw [List.mem_toFinset] at member ⊢
    exact Lattice.mem_tuples_of_mem_indices member
  · intro e _ other
    exact outside e fun listed => other (List.mem_toFinset.mpr listed)

/-- The coefficients of a list of monomials by the exponents of these. -/
def coefficientOf (exponents : List (List Nat)) (v : Nat → K) (e : List Nat) : K :=
  if exponents.idxOf e < exponents.length then v (exponents.idxOf e) else 0

theorem coefficientOf_of_notMem {exponents : List (List Nat)} {e : List Nat} (v : Nat → K) (other : e ∉ exponents) :
    coefficientOf exponents v e = 0 := by
  rw [← List.idxOf_lt_length_iff] at other
  exact if_neg other

theorem coefficientOf_getD {exponents : List (List Nat)} (distinct : exponents.Nodup) (v : Nat → K) {j : Nat}
    (inside : j < exponents.length) : coefficientOf exponents v (exponents.getD j []) = v j := by
  rw [List.getD_eq_getElem _ _ inside, coefficientOf, distinct.idxOf_getElem, if_pos inside]

theorem combinationAt_coefficientOf (ι : ℚ →+* K) (v : Nat → K) (i : List Nat) :
    Lattice.combinationAt (tick ι cell n) (n + 1) cell.dim (coefficientOf (Lattice.indices cell (n + 1)) v) i =
      ∑ j ∈ range (Lattice.indices cell (n + 1)).length,
        ι (Monomial.powers ((Lattice.indices cell (n + 1)).getD j []) (i.map (Lattice.place cell n))) * v j := by
  have distinct := Lattice.nodup_indices cell (n + 1)
  rw [Lattice.combinationAt, ← sum_indices, ← sum_getD _ []]
  · apply Finset.sum_congr rfl
    intro j member
    rw [coefficientOf_getD distinct v (mem_range.mp member), powers_point, mul_comm]
  · intro e other
    rw [coefficientOf_of_notMem v other, zero_mul]

theorem unisolventOver_points [IsDomain K] (ι : ℚ →+* K) (positive : 0 < n) :
    UnisolventOver ι (Lattice.lagrangePoints cell n) (Lattice.indices cell (n + 1)) := by
  intro v vanishes j bound
  have lower : Lattice.Lower (· ∈ Lattice.indices cell (n + 1)) := fun e e' below => Lattice.mem_indices_of_le below
  have zero : ∀ i ∈ Lattice.tuples (List.range (n + 1)) cell.dim, i ∈ Lattice.indices cell (n + 1) →
      Lattice.combinationAt (tick ι cell n) (n + 1) cell.dim (coefficientOf (Lattice.indices cell (n + 1)) v) i = 0 := by
    intro i _ inside
    rw [combinationAt_coefficientOf ι]
    exact vanishes _ (List.mem_map_of_mem inside)
  have member : (Lattice.indices cell (n + 1)).getD j [] ∈ Lattice.indices cell (n + 1) := by
    rw [List.getD_eq_getElem _ _ bound]
    exact List.getElem_mem bound
  rw [← coefficientOf_getD (Lattice.nodup_indices cell (n + 1)) v bound]
  exact Lattice.combination_eq_zero (tick_injective ι cell positive) lower (fun _ => coefficientOf_of_notMem v) zero _
    (Lattice.mem_tuples_of_mem_indices member)

end Unisolvence

section Inverse

open Linear.Elimination (entry inverse? Row)

/-- Matrices that are inverse to each other on both sides. -/
structure Inverts (size : Nat) (V C : List (Row ℚ)) : Prop where
  right : ∀ a < size, ∀ b < size,
    ∑ i ∈ range size, entry i (V.getD a []) * entry b (C.getD i []) = if a = b then 1 else 0
  left : ∀ a < size, ∀ b < size,
    ∑ i ∈ range size, entry i (C.getD a []) * entry b (V.getD i []) = if a = b then 1 else 0

/-- The values of monomials at nodes that tell their combinations apart have an inverse. -/
theorem exists_inverse_vandermonde {nodes : List (List ℚ)} {exponents : List (List Nat)}
    (square : exponents.length = nodes.length) (unisolvent : Unisolvent nodes exponents) :
    ∃ C, inverse? (vandermonde nodes exponents) = some C ∧ Inverts nodes.length (vandermonde nodes exponents) C := by
  have rows := square_vandermonde square
  have size := length_vandermonde nodes exponents
  have independent := independent_vandermonde.mpr unisolvent
  rw [square, ← size] at independent
  rcases Linear.Elimination.exists_inverse rows independent with ⟨C, found⟩
  refine ⟨C, found, ?_⟩
  rw [← size]
  exact ⟨Linear.Elimination.sum_inverse_right rows found, Linear.Elimination.sum_inverse_left rows found⟩

end Inverse

end Element

namespace Lattice

open Element

theorem length_points (cell : Cell) (n : Nat) : (lagrangePoints cell n).length = (indices cell (n + 1)).length :=
  List.length_map _

/-- At every order the nodes are different points of the closed cell, the corners among them, as many as there are
monomials; they tell the combinations of the monomials apart, so that the matrix of the values of the monomials at the
nodes, in the order that elements have them in, is found to have an inverse. -/
theorem lagrange_unisolvent (cell : Cell) {n : Int} (order : 1 ≤ n) :
    ∃ nodes, lagrangeNodes cell n = .ok nodes ∧ nodes.Nodup ∧ (∀ x ∈ nodes, cell.Encloses x) ∧
      (∀ x ∈ cornerNodes cell, x ∈ nodes) ∧ nodes.length = (lagrangeExponents cell n).length ∧
      (∀ (K : Type) [CommRing K] [IsDomain K] (ι : ℚ →+* K), UnisolventOver ι nodes (lagrangeExponents cell n)) ∧
      let V := vandermonde ((arranged cell nodes).map (·.2)) (lagrangeExponents cell n)
      ∃ C, Linear.Elimination.inverse? V = some C ∧ Inverts nodes.length V C := by
  obtain ⟨m, rfl⟩ := Int.eq_ofNat_of_zero_le (by omega : 0 ≤ n)
  have positive : 0 < m := by omega
  have exponents : lagrangeExponents cell m = indices cell (m + 1) := rfl
  rw [exponents]
  have placed : lagrangeNodes cell m = .ok (lagrangePoints cell m) := if_neg (by omega)
  have rational : UnisolventOver (.id ℚ) (lagrangePoints cell m) (indices cell (m + 1)) :=
    unisolventOver_points _ positive
  have unisolvent := unisolventOver_rat.mp rational
  have perm := (arranged_perm cell (lagrangePoints cell m)).symm
  have square := (length_points cell m).symm.trans perm.length_eq
  rcases exists_inverse_vandermonde square (unisolvent.perm perm) with ⟨C, found, inverts⟩
  rw [← perm.length_eq] at inverts
  exact ⟨lagrangePoints cell m, placed, nodup_points cell positive, encloses_points positive,
    corner_mem_points positive, length_points cell m, fun K _ _ ι => unisolventOver_points ι positive, C, found, inverts⟩

/-- The cubic lattice on a tetrahedron. -/
theorem lagrange_unisolvent_tet : (1 : Int) ≤ 3 ∧ ∃ nodes, lagrangeNodes .tet 3 = .ok nodes ∧ nodes.length = 20 ∧
    [0, mkRat 1 3, mkRat 2 3] ∈ nodes ∧ Unisolvent nodes (lagrangeExponents .tet 3) := by
  have order : (1 : Int) ≤ 3 := by decide
  obtain ⟨nodes, placed, -, -, -, size, unisolvent, -⟩ := lagrange_unisolvent .tet order
  have points : lagrangePoints .tet 3 = nodes := Except.ok.inj placed
  refine ⟨order, nodes, placed, ?_, ?_, unisolventOver_rat.mp (unisolvent ℚ _)⟩
  · rw [size]
    decide
  · rw [← points]
    decide +kernel

end Lattice

end Galerkin
