import Mathlib
import Galerkin.Proofs.Element.Nodal

/-!
Elements reproduce their space: polynomials of a total degree on simplices, of a degree in each variable on cubes, and of
a degree that counts no linear variables for the serendipity family. There is an element for every cell, family and order
that are supported and for no others. Its nodes start with the corners, and a polynomial of the space is at every point,
inside the cell or not, the sum of the basis with the polynomial's values at the nodes; so is its gradient with those of
the basis. Constants and affine functions are among these polynomials.
-/

namespace Galerkin

open Finset

/-! ### Polynomials in the coordinates -/

/-- The exponents of the coordinates; those that are missing are zero. -/
noncomputable def exponentsOf (d : Nat) (e : List Nat) : Fin d →₀ ℕ := Finsupp.equivFunOnFinite.symm fun i => e.getD i 0

@[simp] theorem exponentsOf_apply (d : Nat) (e : List Nat) (i : Fin d) : exponentsOf d e i = e.getD i 0 := rfl

theorem powers_ofFn {d : Nat} (e : List Nat) (x : Fin d → ℝ) :
    Monomial.powers e (List.ofFn x) = ∏ i, x i ^ e.getD i 0 := by
  induction d generalizing e with
  | zero => cases e <;> simp [Monomial.powers]
  | succ d ih =>
      cases e with
      | nil => simp [Monomial.powers]
      | cons k ks => rw [List.ofFn_succ, Monomial.powers_cons, ih, Fin.prod_univ_succ]; rfl

namespace Polynomial

/-- A polynomial as one in the coordinates of a space. -/
noncomputable def inCoordinates (d : Nat) (p : Polynomial) : MvPolynomial (Fin d) ℝ :=
  (p.map fun m => MvPolynomial.monomial (exponentsOf d m.exponents) (m.coeff : ℝ)).sum

variable {d : Nat}

theorem inCoordinates_cons (m : Monomial) (p : Polynomial) : inCoordinates d (m :: p) =
    MvPolynomial.monomial (exponentsOf d m.exponents) (m.coeff : ℝ) + inCoordinates d p := by
  rw [inCoordinates, List.map_cons, List.sum_cons, inCoordinates]

theorem eval_monomial (s : Fin d →₀ ℕ) (c : ℝ) (x : Fin d → ℝ) :
    MvPolynomial.eval x (MvPolynomial.monomial s c) = c * ∏ i, x i ^ s i := by
  rw [MvPolynomial.eval_monomial, Finsupp.prod_fintype _ _ fun i => pow_zero _]

theorem eval_inCoordinates (p : Polynomial) (x : Fin d → ℝ) :
    MvPolynomial.eval x (p.inCoordinates d) = p.eval (List.ofFn x) := by
  induction p with
  | nil => exact map_zero _
  | cons m p ih =>
      rw [inCoordinates_cons, map_add, ih, eval_cons, eval_monomial, Monomial.eval_real, powers_ofFn]
      rfl

/-- The exponents of a derivative. -/
theorem exponentsOf_set (e : List Nat) (i : Fin d) :
    exponentsOf d (e.set i (e.getD i 0 - 1)) = exponentsOf d e - Finsupp.single i 1 := by
  ext j
  rw [Finsupp.tsub_apply, exponentsOf_apply, exponentsOf_apply]
  by_cases same : i = j
  · subst same
    rw [Finsupp.single_eq_same]
    by_cases inside : (i : Nat) < e.length
    · rw [List.getD_eq_getElem _ _ (by rwa [List.length_set]), List.getElem_set_self]
    · rw [List.set_eq_of_length_le (not_lt.mp inside), List.getD_eq_default _ _ (not_lt.mp inside)]
  · rw [Finsupp.single_eq_of_ne (Ne.symm same), Nat.sub_zero, List.getD_eq_getElem?_getD,
      List.getElem?_set_ne (Fin.val_ne_of_ne same), List.getD_eq_getElem?_getD]

theorem eval_pderiv_inCoordinates (p : Polynomial) (i : Fin d) (x : Fin d → ℝ) :
    MvPolynomial.eval x (MvPolynomial.pderiv i (p.inCoordinates d)) = (p.derivative i).eval (List.ofFn x) := by
  rw [eval_derivative]
  induction p with
  | nil => rw [inCoordinates, List.map_nil, List.sum_nil, map_zero, map_zero]; rfl
  | cons m p ih =>
      rw [inCoordinates_cons, map_add, map_add, ih, List.map_cons, eval_cons, MvPolynomial.pderiv_monomial, eval_monomial,
        ← exponentsOf_set, Monomial.eval_real, Monomial.derivative, powers_ofFn, Rat.cast_mul, Rat.cast_natCast,
        exponentsOf_apply, mul_comm (m.coeff : ℝ)]
      rfl

end Polynomial

/-! ### Spaces -/

/-- Is this one of the monomials of a family and order? -/
def Family.Has (f : Family) (cell : Cell) (order : Nat) (s : Fin cell.dim →₀ ℕ) : Prop :=
  if cell.isSimplex then ∑ i, s i ≤ order
  else (∀ i, s i ≤ order) ∧ (f = .serendipity → ∑ i with 2 ≤ s i, s i ≤ order)

/-- The families agree at first order. -/
theorem Family.has_one (f : Family) {cell : Cell} {s : Fin cell.dim →₀ ℕ} :
    f.Has cell 1 s ↔ Family.lagrange.Has cell 1 s := by
  rw [Has, Has]
  split
  · exact Iff.rfl
  · refine and_congr_right fun bound => iff_of_true (fun _ => ?_) nofun
    rw [filter_false_of_mem fun i _ => Nat.not_le.mpr (Nat.lt_succ_of_le (bound i)), sum_empty]
    exact Nat.zero_le 1

/-- The span of the monomials of a family and order. -/
noncomputable def Family.space (f : Family) (cell : Cell) (order : Nat) : Submodule ℝ (MvPolynomial (Fin cell.dim) ℝ) :=
  Submodule.span ℝ ((fun s => MvPolynomial.monomial s 1) '' {s | f.Has cell order s})

namespace Element

/-- The family and order that an element of a kind is made for. -/
def Kind.family : Kind → Family
  | linear | quadratic => .lagrange
  | serendipity => .serendipity

def Kind.order : Kind → Nat
  | linear => 1
  | quadratic | serendipity => 2

theorem mem_tuples {β : Type} {xs : List β} {n : Nat} {t : List β} :
    t ∈ Lattice.tuples xs n ↔ t.length = n ∧ ∀ b ∈ t, b ∈ xs := by
  induction n generalizing t with
  | zero =>
      rw [Lattice.tuples, List.mem_singleton, List.length_eq_zero_iff]
      refine ⟨fun none => ⟨none, by simp [none]⟩, And.left⟩
  | succ n ih =>
      simp only [Lattice.tuples, List.mem_flatMap, List.mem_map, ih]
      constructor
      · rintro ⟨x, listed, rest, ⟨length, others⟩, rfl⟩
        exact ⟨congrArg (· + 1) length, List.forall_mem_cons.mpr ⟨listed, others⟩⟩
      · rintro ⟨length, listed⟩
        cases t with
        | nil => cases length
        | cons x rest =>
            rw [List.forall_mem_cons] at listed
            exact ⟨x, listed.1, rest, ⟨Nat.succ.inj length, listed.2⟩, rfl⟩

theorem totalSize_eq_sum (sizes : List Nat) : totalSize sizes = sizes.sum := rfl

theorem superlinearDegree_eq_sum {d : Nat} (s : Fin d → ℕ) :
    Lattice.superlinearDegree (List.ofFn s) = ∑ i with 2 ≤ s i, s i := by
  have kept (sizes : List Nat) :
      (sizes.filter (2 ≤ ·)).sum = (sizes.map fun n => if 2 ≤ n then n else 0).sum := by
    induction sizes with
    | nil => rfl
    | cons n sizes ih =>
        rw [List.map_cons, List.sum_cons, ← ih, List.filter_cons]
        by_cases large : 2 ≤ n <;> simp [large]
  rw [Lattice.superlinearDegree, totalSize_eq_sum, kept, List.map_ofFn, List.sum_ofFn, sum_filter]
  rfl

theorem ofFn_mem_tuples {d count : Nat} {s : Fin d → ℕ} :
    List.ofFn s ∈ Lattice.tuples (List.range count) d ↔ ∀ i, s i < count := by
  rw [mem_tuples, List.length_ofFn, List.forall_mem_ofFn_iff]
  simp only [List.mem_range, true_and]

theorem ofFn_mem_indices {cell : Cell} {order : Nat} {s : Fin cell.dim →₀ ℕ} :
    List.ofFn s ∈ Lattice.indices cell (order + 1) ↔ Family.lagrange.Has cell order s := by
  rw [Lattice.indices, Family.Has]
  split
  · rw [List.mem_filter, ofFn_mem_tuples, totalSize_eq_sum, List.sum_ofFn, decide_eq_true_eq, Nat.lt_succ_iff,
      and_iff_right_iff_imp]
    exact fun bound i => Nat.lt_succ_of_le ((single_le_sum (fun _ _ => Nat.zero_le _) (mem_univ i)).trans bound)
  · rw [ofFn_mem_tuples, and_iff_left fun other => absurd other (by decide)]
    exact forall_congr' fun i => Nat.lt_succ_iff

/-- The exponents of an element list the monomials of its family and order. -/
theorem Kind.ofFn_mem_exponents {k : Kind} {cell : Cell} (fits : k.Fits cell) {s : Fin cell.dim →₀ ℕ} :
    List.ofFn s ∈ k.exponents cell ↔ k.family.Has cell k.order s := by
  cases k with
  | linear => exact ofFn_mem_indices
  | quadratic => exact ofFn_mem_indices
  | serendipity =>
      have cube : ¬ cell.isSimplex = true := by rw [fits rfl]; decide
      have degrees : List.ofFn s ∈ Lattice.indices cell 3 ↔ Family.lagrange.Has cell 2 s := ofFn_mem_indices
      rw [Family.Has, if_neg cube, and_iff_left nofun] at degrees
      rw [Kind.exponents, List.mem_filter, superlinearDegree_eq_sum, decide_eq_true_eq, Family.Has, if_neg cube]
      exact and_congr degrees ⟨fun bound _ => bound, fun bound => bound rfl⟩

/-! ### Interpolation -/

/-- A point with as many real coordinates as asked for. -/
noncomputable def pointOf (d : Nat) (x : List ℚ) : Fin d → ℝ := fun i => (x.getD i 0 : ℝ)

theorem ofFn_pointOf {d : Nat} {x : List ℚ} (length : x.length = d) : List.ofFn (pointOf d x) = realPoint x := by
  subst length
  refine List.ext_getElem (by rw [List.length_ofFn, realPoint, List.length_map]) fun i left right => ?_
  rw [List.getElem_ofFn, pointOf, List.getD_eq_getElem _ _ (by rwa [List.length_ofFn] at left)]
  simp only [realPoint, List.getElem_map]

theorem powers_ofFn_ofFn {d : Nat} (s : Fin d →₀ ℕ) (x : Fin d → ℝ) :
    Monomial.powers (List.ofFn s) (List.ofFn x) = MvPolynomial.eval x (MvPolynomial.monomial s 1) := by
  rw [powers_ofFn, Polynomial.eval_monomial, one_mul]
  refine prod_congr rfl fun i _ => ?_
  rw [List.getD_eq_getElem _ _ (by rw [List.length_ofFn]; exact i.isLt), List.getElem_ofFn]

/-- A polynomial of the span is the combination of the basis with its values at the nodes. -/
theorem NodalBasis.interpolates {nodes : List (List ℚ)} {exponents : List (List Nat)} {basis : List Polynomial}
    (nodal : NodalBasis nodes exponents basis) {d : Nat} (formed : ∀ x ∈ nodes, x.length = d) {S : Set (Fin d →₀ ℕ)}
    (listed : ∀ s ∈ S, List.ofFn s ∈ exponents) {p : MvPolynomial (Fin d) ℝ}
    (within : p ∈ Submodule.span ℝ ((fun s => MvPolynomial.monomial s (1 : ℝ)) '' S)) :
    ∑ a ∈ range nodes.length,
      MvPolynomial.C (MvPolynomial.eval (pointOf d (nodes.getD a [])) p) * (basis.getD a []).inCoordinates d = p := by
  induction within using Submodule.span_induction with
  | mem p member =>
      obtain ⟨s, known, rfl⟩ := member
      refine MvPolynomial.funext fun x => ?_
      rw [map_sum, ← powers_ofFn_ofFn, ← nodal.reproduces _ (listed s known)]
      refine sum_congr rfl fun a member => ?_
      have own : (nodes.getD a []).length = d := by
        rw [List.getD_eq_getElem _ _ (mem_range.mp member)]
        exact formed _ (List.getElem_mem _)
      rw [map_mul, MvPolynomial.eval_C, Polynomial.eval_inCoordinates, ← powers_ofFn_ofFn, ofFn_pointOf own]
  | zero => simp
  | add p q _ _ first second =>
      simp only [map_add, add_mul, sum_add_distrib]
      rw [first, second]
  | smul c p _ ih =>
      simp only [MvPolynomial.smul_eval, map_mul, mul_assoc]
      rw [← mul_sum, ih, MvPolynomial.smul_eq_C_mul]

end Element

/-! ### Names -/

theorem Cell.ofName_eq_ok {s : String} {c : Cell} : Cell.ofName s = .ok c ↔ c ∈ bodies ∧ c.name = s := by
  constructor
  · intro found
    unfold ofName ofName? at found
    split at found
    · next c' here =>
        cases found
        exact ⟨List.mem_of_find?_eq_some here, by simpa using List.find?_some here⟩
    · cases found
  · rintro ⟨member, rfl⟩
    cases c with
    | point => exact absurd member (by decide)
    | line | tri | quad | tet | hex => rfl

theorem Family.ofName_eq_ok {s : String} {f : Family} : Family.ofName s = .ok f ↔ f.name = s := by
  constructor
  · intro found
    unfold ofName at found
    split at found
    · next f' here =>
        cases found
        simpa using List.find?_some here
    · cases found
  · rintro rfl
    cases f <;> rfl

namespace Element

/-- A shape, family and order that there is an element for. Truth counts as one. -/
structure Supported (shape family : String) (order : Number) (cell : Cell) (f : Family) (n : Nat) : Prop where
  body : cell ∈ Cell.bodies
  named : cell.name = shape ∧ f.name = family
  whole : order = .int n ∨ order = .bool true ∧ n = 1
  low : n = 1 ∨ n = 2
  cube : f = .serendipity → n = 2 → cell = .quad ∨ cell = .hex

/-- The kind of element for a family and order. -/
def Kind.of (f : Family) (n : Nat) : Kind :=
  if n = 1 then linear else match f with
    | .lagrange => quadratic
    | .serendipity => serendipity

namespace Kind

variable {cell : Cell} {f : Family} {n : Nat}

theorem fits_of (cube : f = .serendipity → n = 2 → cell = .quad ∨ cell = .hex) (low : n = 1 ∨ n = 2) :
    (of f n).Fits cell := by
  obtain rfl | rfl := low
  · exact nofun
  · cases f with
    | lagrange => exact nofun
    | serendipity =>
        intro _
        obtain rfl | rfl := cube rfl rfl <;> rfl

theorem has_of (low : n = 1 ∨ n = 2) {s : Fin cell.dim →₀ ℕ} :
    (of f n).family.Has cell (of f n).order s ↔ f.Has cell n s := by
  obtain rfl | rfl := low
  · exact f.has_one.symm
  · cases f <;> exact Iff.rfl

end Kind

theorem wholeOrder_eq_ok {cell : Cell} {family : String} {order : Number} {i : Int} :
    wholeOrder cell family order = .ok i ↔ order = .int i ∨ ∃ b, order = .bool b ∧ i = if b then 1 else 0 := by
  cases order with
  | int n => simp [wholeOrder]
  | bool b =>
      simp only [wholeOrder, Outcome.pure_eq_ok, reduceCtorEq, Number.bool.injEq, exists_eq_left', false_or]
      exact eq_comm
  | real x =>
      refine iff_of_false (fun made => ?_) (by simp)
      obtain ⟨f, -, made⟩ := Outcome.bind_eq_ok.mp made
      repeat' split at made
      all_goals cases made

theorem ofCell_eq_ok {cell : Cell} (body : cell ∈ Cell.bodies) {family : String} {order : Int} {e : Element} :
    ofCell cell family order = .ok e ↔ ∃ (f : Family) (n : Nat), f.name = family ∧ order = n ∧ (n = 1 ∨ n = 2) ∧
      (f = .serendipity → n = 2 → cell = .quad ∨ cell = .hex) ∧
      ofLattice cell (Kind.of f n).family n ((Kind.of f n).points cell) ((Kind.of f n).exponents cell) = .ok e := by
  constructor
  · intro made
    obtain ⟨f, named, made⟩ := Outcome.bind_eq_ok.mp made
    have named := Family.ofName_eq_ok.mp named
    have orders : order = 1 ∨ order = 2 := by
      by_contra other
      have refused : (decide (order < 1) || decide (2 < order)) = true := by
        rw [Bool.or_eq_true, decide_eq_true_eq, decide_eq_true_eq]
        omega
      rw [if_pos refused] at made
      split at made <;> cases made
    obtain rfl | rfl := orders
    · refine ⟨f, 1, named, rfl, .inl rfl, nofun, ?_⟩
      cases f <;> exact made
    · cases f with
      | lagrange => exact ⟨.lagrange, 2, named, rfl, .inr rfl, nofun, made⟩
      | serendipity =>
          obtain ⟨points, placed, made⟩ := Outcome.bind_eq_ok.mp made
          obtain ⟨exponents, taken, made⟩ := Outcome.bind_eq_ok.mp made
          obtain ⟨_, checked, placed⟩ := Outcome.bind_eq_ok.mp placed
          obtain ⟨_, _, taken⟩ := Outcome.bind_eq_ok.mp taken
          cases placed
          cases taken
          refine ⟨.serendipity, 2, named, rfl, .inr rfl, fun _ _ => ?_, made⟩
          cases cell with
          | quad => exact .inl rfl
          | hex => exact .inr rfl
          | point => exact absurd body (by decide)
          | line | tri | tet => cases checked
  · rintro ⟨f, n, rfl, rfl, rfl | rfl, cube, made⟩
    · cases f <;> exact made
    · cases f with
      | lagrange => exact made
      | serendipity => obtain rfl | rfl := cube rfl rfl <;> exact made

theorem make_eq_ok {shape family : String} {order : Number} {e : Element} :
    make shape family order = .ok e ↔ ∃ cell f n, Supported shape family order cell f n ∧
      ofLattice cell (Kind.of f n).family n ((Kind.of f n).points cell) ((Kind.of f n).exponents cell) = .ok e := by
  constructor
  · intro made
    obtain ⟨cell, found, made⟩ := Outcome.bind_eq_ok.mp made
    obtain ⟨i, whole, made⟩ := Outcome.bind_eq_ok.mp made
    obtain ⟨body, called⟩ := Cell.ofName_eq_ok.mp found
    obtain ⟨f, n, named, rfl, low, cube, made⟩ := (ofCell_eq_ok body).mp made
    refine ⟨cell, f, n, ⟨body, ⟨called, named⟩, ?_, low, cube⟩, made⟩
    obtain same | ⟨b, same, count⟩ := wholeOrder_eq_ok.mp whole
    · exact .inl same
    · cases b with
      | true => exact .inr ⟨same, Int.natCast_inj.mp count⟩
      | false =>
          have none : n = 0 := Int.natCast_inj.mp count
          omega
  · rintro ⟨cell, f, n, supported, made⟩
    have whole : wholeOrder cell family order = .ok (n : Int) := by
      refine wholeOrder_eq_ok.mpr (supported.whole.imp id ?_)
      rintro ⟨same, rfl⟩
      exact ⟨true, same, rfl⟩
    exact Outcome.bind_eq_ok.mpr ⟨cell, Cell.ofName_eq_ok.mpr ⟨supported.body, supported.named.1⟩,
      Outcome.bind_eq_ok.mpr ⟨n, whole,
        (ofCell_eq_ok supported.body).mpr ⟨f, n, supported.named.2, rfl, supported.low, supported.cube, made⟩⟩⟩

/-! ### Polynomials at the nodes -/

section Points

variable (e : Element)

/-- A node as a point of space. -/
noncomputable def nodeAt (a : Nat) : Fin e.cell.dim → ℝ := pointOf e.cell.dim (e.nodes.getD a [])

/-- The value of a function of the basis. -/
noncomputable def valueAt (a : Nat) (x : Fin e.cell.dim → ℝ) : ℝ := (e.values (List.ofFn x)).getD a 0

/-- The derivative of a function of the basis along an axis. -/
noncomputable def slopeAt (a : Nat) (i : Fin e.cell.dim) (x : Fin e.cell.dim → ℝ) : ℝ :=
  ((e.gradients (List.ofFn x)).getD a []).getD i 0

/-- Does the basis make the polynomials of a space from their values at the nodes? -/
structure Reproducing (space : Submodule ℝ (MvPolynomial (Fin e.cell.dim) ℝ)) : Prop where
  formed : ∀ x ∈ e.nodes, x.length = e.cell.dim
  size : e.nodes.length = e.size
  corners : e.nodes.take e.cell.cornerCount = cornerNodes e.cell
  value : ∀ p ∈ space, ∀ x, ∑ a ∈ range e.size, MvPolynomial.eval (e.nodeAt a) p * e.valueAt a x = MvPolynomial.eval x p
  slope : ∀ p ∈ space, ∀ i x, ∑ a ∈ range e.size, MvPolynomial.eval (e.nodeAt a) p * e.slopeAt a i x =
    MvPolynomial.eval x (MvPolynomial.pderiv i p)
  nodal : ∀ a < e.size, ∀ b < e.size, e.valueAt b (e.nodeAt a) = if a = b then 1 else 0

/-- Does the basis make affine functions, and among them constants, from their values at the nodes? -/
structure ReproducingAffine : Prop where
  unity : ∀ x, ∑ a ∈ range e.size, e.valueAt a x = 1
  still : ∀ i x, ∑ a ∈ range e.size, e.slopeAt a i x = 0
  value : ∀ (g : Fin e.cell.dim → ℝ) (h : ℝ) x,
    ∑ a ∈ range e.size, (∑ i, g i * e.nodeAt a i + h) * e.valueAt a x = ∑ i, g i * x i + h
  slope : ∀ (g : Fin e.cell.dim → ℝ) (h : ℝ) i x,
    ∑ a ∈ range e.size, (∑ i, g i * e.nodeAt a i + h) * e.slopeAt a i x = g i

variable {e}

theorem valueAt_eq (a : Nat) (x : Fin e.cell.dim → ℝ) :
    e.valueAt a x = MvPolynomial.eval x ((e.basis.getD a []).inCoordinates e.cell.dim) := by
  rw [Polynomial.eval_inCoordinates, valueAt, values]
  exact List.getD_map e.basis [] fun p => p.eval (List.ofFn x)

theorem slopeAt_eq {a : Nat} (inside : a < e.size) (i : Fin e.cell.dim) (x : Fin e.cell.dim → ℝ) :
    e.slopeAt a i x =
      MvPolynomial.eval x (MvPolynomial.pderiv i ((e.basis.getD a []).inCoordinates e.cell.dim)) := by
  have there : (i : Nat) < e.dim := i.isLt
  rw [Polynomial.eval_pderiv_inCoordinates, slopeAt]
  simp [gradients, show a < e.basis.length from inside, there]

end Points

theorem Kind.formed {k : Kind} {cell : Cell} {x : List ℚ} (member : x ∈ k.points cell) : x.length = cell.dim := by
  have lattice : ∀ x ∈ latticeNodes cell, x.length = cell.dim := by
    cases cell <;> decide +kernel
  exact lattice x (mem_latticeNodes member)

/-- An element of some kind makes the polynomials of its space. -/
theorem OfKind.reproducing {k : Kind} {e : Element} (known : OfKind k e.cell e)
    (corners : e.nodes.take e.cell.cornerCount = cornerNodes e.cell) :
    e.Reproducing (k.family.space e.cell k.order) := by
  have formed : ∀ x ∈ e.nodes, x.length = e.cell.dim := fun x member => Kind.formed (known.nodes.mem_iff.mp member)
  have made {p : MvPolynomial (Fin e.cell.dim) ℝ} (within : p ∈ k.family.space e.cell k.order) :
      ∑ a ∈ range e.size, MvPolynomial.C (MvPolynomial.eval (e.nodeAt a) p) *
        (e.basis.getD a []).inCoordinates e.cell.dim = p := by
    rw [known.size]
    exact known.nodal.interpolates formed (fun s has => (Kind.ofFn_mem_exponents known.fits).mpr has) within
  refine ⟨formed, known.size.symm, corners, fun p within x => ?_, fun p within i x => ?_, fun a first b second => ?_⟩
  · calc _ = MvPolynomial.eval x (∑ a ∈ range e.size, MvPolynomial.C (MvPolynomial.eval (e.nodeAt a) p) *
          (e.basis.getD a []).inCoordinates e.cell.dim) := by
          simp only [map_sum, map_mul, MvPolynomial.eval_C, valueAt_eq]
      _ = _ := by rw [made within]
  · calc _ = MvPolynomial.eval x (MvPolynomial.pderiv i (∑ a ∈ range e.size,
          MvPolynomial.C (MvPolynomial.eval (e.nodeAt a) p) * (e.basis.getD a []).inCoordinates e.cell.dim)) := by
          rw [map_sum, map_sum]
          refine sum_congr rfl fun a member => ?_
          rw [MvPolynomial.pderiv_C_mul, map_mul, MvPolynomial.eval_C, slopeAt_eq (mem_range.mp member)]
      _ = _ := by rw [made within]
  · rw [known.size] at first second
    rw [valueAt_eq, Polynomial.eval_inCoordinates, nodeAt, ofFn_pointOf (by
      rw [List.getD_eq_getElem _ _ first]
      exact formed _ (List.getElem_mem first))]
    exact known.nodal.delta a first b second

section Affine

variable {f : Family} {cell : Cell} {n : Nat}

/-- An affine function as a polynomial. -/
noncomputable def affine {d : Nat} (g : Fin d → ℝ) (h : ℝ) : MvPolynomial (Fin d) ℝ :=
  ∑ i, MvPolynomial.C (g i) * MvPolynomial.X i + MvPolynomial.C h

theorem has_of_low (low : 1 ≤ n) {s : Fin cell.dim →₀ ℕ} (degree : ∑ i, s i ≤ 1) : f.Has cell n s := by
  have each (i : Fin cell.dim) : s i ≤ 1 := (single_le_sum (fun _ _ => Nat.zero_le _) (mem_univ i)).trans degree
  rw [Family.Has]
  split
  · exact degree.trans low
  · refine ⟨fun i => (each i).trans low, fun _ => ?_⟩
    exact (sum_le_sum_of_subset (filter_subset _ _)).trans (degree.trans low)

theorem affine_mem_space (low : 1 ≤ n) (g : Fin cell.dim → ℝ) (h : ℝ) : affine g h ∈ f.space cell n := by
  have listed {s : Fin cell.dim →₀ ℕ} (degree : ∑ i, s i ≤ 1) (c : ℝ) : MvPolynomial.monomial s c ∈ f.space cell n := by
    have unit : MvPolynomial.monomial s 1 ∈ f.space cell n := Submodule.subset_span ⟨s, has_of_low low degree, rfl⟩
    rw [← mul_one c, ← smul_eq_mul, ← MvPolynomial.smul_monomial]
    exact Submodule.smul_mem _ c unit
  refine Submodule.add_mem _ (Submodule.sum_mem _ fun i _ => ?_) ?_
  · rw [MvPolynomial.C_mul_X_eq_monomial]
    exact listed (by simp [Finsupp.single_apply]) (g i)
  · exact listed (by simp) h

theorem Reproducing.toAffine {e : Element} (reproducing : e.Reproducing (f.space e.cell n)) (low : 1 ≤ n) :
    e.ReproducingAffine := by
  have values (g : Fin e.cell.dim → ℝ) (h : ℝ) (x : Fin e.cell.dim → ℝ) :
      MvPolynomial.eval x (affine g h) = ∑ i, g i * x i + h := by
    simp [affine]
  have slopes (g : Fin e.cell.dim → ℝ) (h : ℝ) (i : Fin e.cell.dim) (x : Fin e.cell.dim → ℝ) :
      MvPolynomial.eval x (MvPolynomial.pderiv i (affine g h)) = g i := by
    simp [affine, MvPolynomial.pderiv_X, Pi.single_apply]
  have value (g : Fin e.cell.dim → ℝ) (h : ℝ) (x : Fin e.cell.dim → ℝ) :
      ∑ a ∈ range e.size, (∑ i, g i * e.nodeAt a i + h) * e.valueAt a x = ∑ i, g i * x i + h := by
    simpa only [values] using reproducing.value _ (affine_mem_space low g h) x
  have slope (g : Fin e.cell.dim → ℝ) (h : ℝ) (i : Fin e.cell.dim) (x : Fin e.cell.dim → ℝ) :
      ∑ a ∈ range e.size, (∑ i, g i * e.nodeAt a i + h) * e.slopeAt a i x = g i := by
    simpa only [values, slopes] using reproducing.slope _ (affine_mem_space low g h) i x
  refine ⟨fun x => ?_, fun i x => ?_, value, slope⟩
  · simpa using value 0 1 x
  · simpa using slope 0 1 i x

end Affine

/-! ### Elements by name -/

theorem reproducing_of_make {shape family : String} {order : Number} {e : Element} (made : make shape family order = .ok e) :
    ∃ f n, Supported shape family order e.cell f n ∧ e.order = n ∧ e.Reproducing (f.space e.cell n) := by
  obtain ⟨cell, f, n, supported, made⟩ := make_eq_ok.mp made
  have fits := Kind.fits_of supported.cube supported.low
  have known := ofKind_ofLattice fits made
  obtain ⟨basis, found, made⟩ := Outcome.bind_eq_ok.mp made
  cases made
  have space : f.space cell n = (Kind.of f n).family.space cell (Kind.of f n).order := by
    simp only [Family.space, Kind.has_of supported.low]
  refine ⟨f, n, supported, rfl, ?_⟩
  rw [space]
  exact known.reproducing (Kind.take_arranged fits)

/-- There is an element for just what is supported, and it makes every polynomial of its space from the values at its
nodes. -/
theorem make_reproduces (shape family : String) (order : Number) :
    ((∃ e, make shape family order = .ok e) ↔ ∃ cell f n, Supported shape family order cell f n) ∧
    ∀ e, make shape family order = .ok e → ∃ f n, Supported shape family order e.cell f n ∧ e.order = n ∧
      e.Reproducing (f.space e.cell n) ∧ e.ReproducingAffine := by
  refine ⟨⟨?_, ?_⟩, fun e made => ?_⟩
  · rintro ⟨e, made⟩
    obtain ⟨cell, f, n, supported, -⟩ := make_eq_ok.mp made
    exact ⟨cell, f, n, supported⟩
  · rintro ⟨cell, f, n, supported⟩
    obtain ⟨e, made⟩ := Kind.exists_ofLattice (Kind.fits_of supported.cube supported.low) (Kind.of f n).family n
    exact ⟨e, make_eq_ok.mpr ⟨cell, f, n, supported, made⟩⟩
  · obtain ⟨f, n, supported, order, reproducing⟩ := reproducing_of_make made
    have low : 1 ≤ n := by obtain rfl | rfl := supported.low <;> decide
    exact ⟨f, n, supported, order, reproducing, reproducing.toAffine low⟩

/-- Hexahedra have serendipity elements. -/
theorem make_reproduces_hex : ∃ e, make "hex" "serendipity" (.int 2) = .ok e ∧ e.cell = .hex ∧
    e.Reproducing (Family.serendipity.space e.cell 2) ∧ e.ReproducingAffine := by
  obtain ⟨exists_iff, reproduces⟩ := make_reproduces "hex" "serendipity" (.int 2)
  obtain ⟨e, made⟩ := exists_iff.mpr ⟨.hex, .serendipity, 2, by decide, ⟨rfl, rfl⟩, .inl rfl, .inr rfl, fun _ _ => .inr rfl⟩
  obtain ⟨f, n, supported, -, reproducing, affine⟩ := reproduces e made
  obtain same | ⟨other, -⟩ := supported.whole
  · obtain rfl : n = 2 := (Int.natCast_inj.mp (Number.int.inj same)).symm
    have hex : e.cell = .hex := by
      have named := supported.named.1
      revert named
      cases e.cell <;> decide
    have serendipity : f = .serendipity := by
      have named := supported.named.2
      revert named
      cases f <;> decide
    exact ⟨e, made, hex, serendipity ▸ reproducing, affine⟩
  · cases other

end Element

end Galerkin
