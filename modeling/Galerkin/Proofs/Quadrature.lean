import Mathlib
import Galerkin.Quadrature
import Galerkin.Proofs.Polynomial

/-!
Quadrature on the reference cells is exact up to the degree that was asked for, if the rules for the interval are Gauss
rules: integrals over a cell are taken apart along the axes in the way in which its rule is put together.
-/

namespace Galerkin

open MeasureTheory Set

/-! ### Integrals by slices -/

/-- The cube over [-1, 1]. -/
def cube (n : Nat) : Set (Fin n → ℝ) := Icc (fun _ => -1) fun _ => 1

/-- The points with coordinates that are not negative and add up to `s` at most. -/
def simplex (n : Nat) (s : ℝ) : Set (Fin n → ℝ) := {x | (∀ i, 0 ≤ x i) ∧ ∑ i, x i ≤ s}

theorem isCompact_simplex (n : Nat) (s : ℝ) : IsCompact (simplex n s) := by
  have closed : IsClosed (simplex n s) := by
    have signs : IsClosed {x : Fin n → ℝ | ∀ i, 0 ≤ x i} := by
      rw [ofPred_forall]
      exact isClosed_iInter fun i => isClosed_le continuous_const (continuous_apply i)
    exact signs.inter (isClosed_le (f := fun x : Fin n → ℝ => ∑ i, x i) (by fun_prop) continuous_const)
  refine IsCompact.of_isClosed_subset (isCompact_Icc (a := fun _ => 0) (b := fun _ => s)) closed fun x inside => ?_
  refine ⟨inside.1, fun i => ?_⟩
  exact (Finset.single_le_sum (fun j _ => inside.1 j) (Finset.mem_univ i)).trans inside.2

theorem cons_mem_cube {n : Nat} {t : ℝ} {y : Fin n → ℝ} :
    (Fin.cons t y : Fin (n + 1) → ℝ) ∈ cube (n + 1) ↔ t ∈ Icc (-1) 1 ∧ y ∈ cube n := by
  simp only [cube, mem_Icc, Pi.le_def, Fin.forall_fin_succ, Fin.cons_zero, Fin.cons_succ]
  tauto

theorem cons_mem_simplex {n : Nat} {s t : ℝ} {y : Fin n → ℝ} :
    (Fin.cons t y : Fin (n + 1) → ℝ) ∈ simplex (n + 1) s ↔ t ∈ Icc 0 s ∧ y ∈ simplex n (s - t) := by
  simp only [simplex, mem_ofPred_eq, mem_Icc, Fin.forall_fin_succ, Fin.sum_univ_succ, Fin.cons_zero, Fin.cons_succ]
  constructor
  · rintro ⟨⟨first, others⟩, below⟩
    have rest := Finset.sum_nonneg fun i (_ : i ∈ Finset.univ) => others i
    exact ⟨⟨first, by linarith⟩, others, by linarith⟩
  · rintro ⟨⟨first, -⟩, others, below⟩
    exact ⟨⟨first, others⟩, by linarith⟩

/-- An integral over a compact set, slice by slice along the first axis. -/
theorem setIntegral_slices {n : Nat} {a b : ℝ} (ordered : a ≤ b) {S : Set (Fin (n + 1) → ℝ)} {T : ℝ → Set (Fin n → ℝ)}
    (slices : ∀ t y, (Fin.cons t y : Fin (n + 1) → ℝ) ∈ S ↔ t ∈ Icc a b ∧ y ∈ T t) (compact : IsCompact S)
    {f : (Fin (n + 1) → ℝ) → ℝ} (continuous : Continuous f) :
    ∫ x in S, f x = ∫ t in a..b, ∫ y in T t, f (Fin.cons t y) := by
  let split := MeasurableEquiv.piFinSuccAbove (fun _ : Fin (n + 1) => ℝ) 0
  have preserving : MeasurePreserving split.symm := (volume_preserving_piFinSuccAbove (fun _ => ℝ) 0).symm split
  have joined (t : ℝ) (y : Fin n → ℝ) : split.symm (t, y) = Fin.cons t y := Fin.insertNth_zero' t y
  have measurable := compact.measurableSet
  have integrable : Integrable (S.indicator f) :=
    (continuous.continuousOn.integrableOn_compact compact).integrable_indicator measurable
  have slice (t : ℝ) : ∫ y, S.indicator f (Fin.cons t y) =
      (Icc a b).indicator (fun t => ∫ y in T t, f (Fin.cons t y)) t := by
    by_cases inside : t ∈ Icc a b
    · have same : (fun y => S.indicator f (Fin.cons t y)) = (T t).indicator fun y => f (Fin.cons t y) := by
        funext y
        by_cases member : y ∈ T t
        · rw [indicator_of_mem member, indicator_of_mem ((slices t y).mpr ⟨inside, member⟩)]
        · rw [indicator_of_notMem member, indicator_of_notMem fun whole => member ((slices t y).mp whole).2]
      have across : T t = preimage (fun y => (Fin.cons t y : Fin (n + 1) → ℝ)) S := by
        ext y
        simp [slices, inside]
      have cut : Measurable fun y : Fin n → ℝ => (Fin.cons t y : Fin (n + 1) → ℝ) :=
        (Continuous.finCons continuous_const continuous_id).measurable
      rw [same, indicator_of_mem inside, integral_indicator (across ▸ cut measurable)]
    · have none : (fun y => S.indicator f (Fin.cons t y)) = fun _ => 0 := by
        funext y
        exact indicator_of_notMem (fun member => inside ((slices t y).mp member).1) f
      rw [none, indicator_of_notMem inside, integral_zero]
  calc ∫ x in S, f x
      = ∫ x, S.indicator f x := (integral_indicator measurable).symm
    _ = ∫ p, S.indicator f (split.symm p) := (preserving.integral_comp' _).symm
    _ = ∫ t, ∫ y, S.indicator f (split.symm (t, y)) :=
        integral_prod _ (preserving.integrable_comp_of_integrable integrable)
    _ = ∫ t, (Icc a b).indicator (fun t => ∫ y in T t, f (Fin.cons t y)) t := by
        simp only [joined, slice]
    _ = ∫ t in a..b, ∫ y in T t, f (Fin.cons t y) := by
        rw [integral_indicator measurableSet_Icc, intervalIntegral.integral_of_le ordered, integral_Icc_eq_integral_Ioc]

/-! ### Monomials over the cells -/

theorem continuous_powers (exponents : List Nat) (n : Nat) :
    Continuous fun x : Fin n → ℝ => Monomial.powers exponents (List.ofFn x) := by
  induction exponents generalizing n with
  | nil => exact continuous_const
  | cons k ks ih =>
      cases n with
      | zero => exact continuous_const
      | succ n =>
          simp only [List.ofFn_succ, Monomial.powers_cons]
          have rest := (ih n).comp (f := fun x : Fin (n + 1) → ℝ => fun i => x i.succ) (by fun_prop)
          exact (by fun_prop : Continuous fun x : Fin (n + 1) → ℝ => x 0 ^ k).mul rest

theorem volume_univ_zero : (volume : Measure (Fin 0 → ℝ)).real univ = 1 := by
  rw [volume_pi, Measure.pi_of_empty _ fun i => i.elim0]
  simp

/-- The integral of a monomial over a cube is a product of integrals over the interval. -/
theorem integral_cube {exponents : List Nat} {n : Nat} (sized : exponents.length = n) :
    ∫ x in cube n, Monomial.powers exponents (List.ofFn x) = (exponents.map fun k => ∫ t in (-1 : ℝ)..1, t ^ k).prod := by
  induction exponents generalizing n with
  | nil =>
      subst sized
      have whole : cube 0 = univ := eq_univ_of_forall fun x => ⟨fun i => i.elim0, fun i => i.elim0⟩
      simp [whole, Monomial.powers, volume_univ_zero]
  | cons k ks ih =>
      subst sized
      rw [List.length_cons, setIntegral_slices (by norm_num) (T := fun _ => cube ks.length) (fun _ _ => cons_mem_cube)
        isCompact_Icc (continuous_powers _ _)]
      simp only [List.ofFn_cons, Monomial.powers_cons, integral_const_mul, ih rfl, intervalIntegral.integral_mul_const,
        List.map_cons, List.prod_cons]

/-- The integral of a monomial over the unit simplex, by its exponents: a product of Beta integrals. -/
noncomputable def betaProduct : List Nat → ℝ
  | [] => 1
  | k :: ks => (∫ t in (0 : ℝ)..1, t ^ k * (1 - t) ^ (ks.length + ks.sum)) * betaProduct ks

theorem integral_scaled (k m : Nat) (s : ℝ) :
    ∫ t in (0 : ℝ)..s, t ^ k * (s - t) ^ m = s ^ (m + 1 + k) * ∫ t in (0 : ℝ)..1, t ^ k * (1 - t) ^ m := by
  have scaled := intervalIntegral.smul_integral_comp_mul_left (a := 0) (b := 1) (fun t => t ^ k * (s - t) ^ m) s
  rw [mul_zero, mul_one, smul_eq_mul] at scaled
  rw [← scaled, ← intervalIntegral.integral_const_mul, ← intervalIntegral.integral_const_mul]
  refine intervalIntegral.integral_congr fun t _ => ?_
  have factor : s - s * t = s * (1 - t) := by ring
  simp only [factor, mul_pow]
  ring

theorem integral_simplex {exponents : List Nat} {n : Nat} (sized : exponents.length = n) {s : ℝ} (nonneg : 0 ≤ s) :
    ∫ x in simplex n s, Monomial.powers exponents (List.ofFn x) =
      s ^ (exponents.length + exponents.sum) * betaProduct exponents := by
  induction exponents generalizing n s with
  | nil =>
      subst sized
      have whole : simplex 0 s = univ := eq_univ_of_forall fun x => ⟨fun i => i.elim0, by simpa using nonneg⟩
      simp [whole, betaProduct, Monomial.powers, volume_univ_zero]
  | cons k ks ih =>
      subst sized
      have slice : ∀ t ∈ uIcc 0 s, ∫ y in simplex ks.length (s - t), Monomial.powers (k :: ks) (List.ofFn (Fin.cons t y)) =
          t ^ k * (s - t) ^ (ks.length + ks.sum) * betaProduct ks := by
        intro t inside
        rw [uIcc_of_le nonneg] at inside
        simp only [List.ofFn_cons, Monomial.powers_cons, integral_const_mul]
        rw [ih rfl (sub_nonneg.mpr inside.2), mul_assoc]
      rw [List.length_cons, setIntegral_slices nonneg (fun _ _ => cons_mem_simplex) (isCompact_simplex _ _)
        (continuous_powers _ _), intervalIntegral.integral_congr slice, intervalIntegral.integral_mul_const, integral_scaled,
        betaProduct, mul_assoc, List.sum_cons]
      congr 2
      omega

namespace Quadrature

/-! ### Sums over a rule for the interval -/

/-- The weighted sum of the values of a function at the points of a rule for an interval. -/
noncomputable def lineSum (line : List (ℝ × ℝ)) (f : ℝ → ℝ) : ℝ := (line.map fun t => t.2 * f t.1).sum

/-- Does a rule integrate all powers below `2 * n` over [-1, 1]? The Gauss rule of `n` points does. -/
def GaussExact (n : Nat) (line : List (ℝ × ℝ)) : Prop :=
  ∀ k < 2 * n, lineSum line (· ^ k) = ∫ x in (-1 : ℝ)..1, x ^ k

variable {line : List (ℝ × ℝ)} {f g : ℝ → ℝ}

theorem lineSum_const_mul (c : ℝ) : lineSum line (fun x => c * f x) = c * lineSum line f := by
  simp only [lineSum, mul_left_comm _ c, List.sum_map_mul_left]

theorem lineSum_mul_const (c : ℝ) : lineSum line (fun x => f x * c) = lineSum line f * c := by
  simp only [lineSum, ← mul_assoc, List.sum_map_mul_right]

theorem lineSum_add : lineSum line (fun x => f x + g x) = lineSum line f + lineSum line g := by
  simp only [lineSum, mul_add, List.sum_map_add]

/-- Rules integrate combinations of what they integrate. -/
theorem lineSum_combination {a b : ℝ} (first : Continuous f) (second : Continuous g)
    (left : lineSum line f = ∫ x in (-1 : ℝ)..1, f x) (right : lineSum line g = ∫ x in (-1 : ℝ)..1, g x) :
    lineSum line (fun x => a * f x + b * g x) = ∫ x in (-1 : ℝ)..1, (a * f x + b * g x) := by
  rw [lineSum_add, lineSum_const_mul, lineSum_const_mul, left, right, intervalIntegral.integral_add
    ((first.const_mul a).intervalIntegrable _ _) ((second.const_mul b).intervalIntegrable _ _),
    intervalIntegral.integral_const_mul, intervalIntegral.integral_const_mul]

/-- Factors along the interval that is scaled to [0, 1] count like powers. -/
theorem lineSum_factors {n : Nat} (gauss : GaussExact n line) (k a m : Nat) (small : k + a + m < 2 * n) :
    lineSum line (fun x => x ^ k * ((x + 1) / 2) ^ a * (1 - (x + 1) / 2) ^ m) =
      ∫ x in (-1 : ℝ)..1, x ^ k * ((x + 1) / 2) ^ a * (1 - (x + 1) / 2) ^ m := by
  induction m generalizing k with
  | zero =>
      simp only [pow_zero, mul_one]
      induction a generalizing k with
      | zero =>
          simp only [pow_zero, mul_one]
          exact gauss k (by omega)
      | succ a ih =>
          have apart : (fun x : ℝ => x ^ k * ((x + 1) / 2) ^ (a + 1)) = fun x =>
              1 / 2 * (x ^ (k + 1) * ((x + 1) / 2) ^ a) + 1 / 2 * (x ^ k * ((x + 1) / 2) ^ a) := by
            funext x
            ring
          rw [apart]
          exact lineSum_combination (by fun_prop) (by fun_prop) (ih (k + 1) (by omega)) (ih k (by omega))
  | succ m ih =>
      have apart : (fun x : ℝ => x ^ k * ((x + 1) / 2) ^ a * (1 - (x + 1) / 2) ^ (m + 1)) = fun x =>
          1 / 2 * (x ^ k * ((x + 1) / 2) ^ a * (1 - (x + 1) / 2) ^ m) +
            -(1 / 2) * (x ^ (k + 1) * ((x + 1) / 2) ^ a * (1 - (x + 1) / 2) ^ m) := by
        funext x
        ring
      rw [apart]
      exact lineSum_combination (by fun_prop) (by fun_prop) (ih k (by omega)) (ih (k + 1) (by omega))

/-- Carried over to [0, 1], a Gauss rule integrates what the collapsed cubes ask for. -/
theorem lineSum_onUnit {n : Nat} (gauss : GaussExact n line) {a m : Nat} (small : a + m < 2 * n) :
    lineSum (onUnit line) (fun u => u ^ a * (1 - u) ^ m) = ∫ u in (0 : ℝ)..1, u ^ a * (1 - u) ^ m := by
  have carried : lineSum (onUnit line) (fun u => u ^ a * (1 - u) ^ m) =
      1 / 2 * lineSum line (fun x => x ^ 0 * ((x + 1) / 2) ^ a * (1 - (x + 1) / 2) ^ m) := by
    rw [← lineSum_const_mul, lineSum, onUnit, List.map_map, lineSum]
    refine congrArg List.sum (List.map_congr_left fun t _ => ?_)
    simp only [Function.comp, half_real]
    ring
  have moved := intervalIntegral.integral_comp_div_add (a := -1) (b := 1) (fun u : ℝ => u ^ a * (1 - u) ^ m)
    two_ne_zero (1 / 2)
  have ends : (-1 : ℝ) / 2 + 1 / 2 = 0 ∧ (1 : ℝ) / 2 + 1 / 2 = 1 := by norm_num
  rw [ends.1, ends.2, smul_eq_mul] at moved
  have halves (x : ℝ) : x ^ 0 * ((x + 1) / 2) ^ a * (1 - (x + 1) / 2) ^ m =
      (x / 2 + 1 / 2) ^ a * (1 - (x / 2 + 1 / 2)) ^ m := by
    rw [pow_zero, one_mul, add_div]
  rw [carried, lineSum_factors gauss 0 a m (by omega)]
  simp only [halves]
  rw [moved]
  ring

/-! ### Sums over the rules of cells -/

/-- The weighted sum of the values of a function at the points of a rule. -/
noncomputable def sum (rule : Rule ℝ) (f : List ℝ → ℝ) : ℝ := (rule.map fun q => q.weight * f q.position).sum

theorem sum_flatMap {α : Type} (xs : List α) (rule : α → Rule ℝ) (f : List ℝ → ℝ) :
    sum (xs.flatMap rule) f = (xs.map fun x => sum (rule x) f).sum := by
  simp only [sum, List.flatMap, List.map_flatten, List.sum_flatten, List.map_map, Function.comp_def]

theorem sum_lineRule (line : List (ℝ × ℝ)) (f : List ℝ → ℝ) : sum (lineRule line) f = lineSum line fun x => f [x] := by
  simp only [sum, lineRule, lineSum, List.map_map, Function.comp_def]

theorem sum_quadRule (line : List (ℝ × ℝ)) (f : List ℝ → ℝ) :
    sum (quadRule line) f = lineSum line fun x => lineSum line fun y => f [x, y] := by
  rw [quadRule, sum_flatMap, lineSum]
  refine congrArg List.sum (List.map_congr_left fun t _ => ?_)
  simp only [sum, lineSum, List.map_map, Function.comp_def, mul_assoc, List.sum_map_mul_left]

theorem sum_hexRule (line : List (ℝ × ℝ)) (f : List ℝ → ℝ) :
    sum (hexRule line) f = lineSum line fun x => lineSum line fun y => lineSum line fun z => f [x, y, z] := by
  rw [hexRule, sum_flatMap, lineSum]
  refine congrArg List.sum (List.map_congr_left fun t _ => ?_)
  rw [sum_flatMap, lineSum, ← List.sum_map_mul_left]
  refine congrArg List.sum (List.map_congr_left fun s _ => ?_)
  simp only [sum, lineSum, List.map_map, Function.comp_def, mul_assoc, List.sum_map_mul_left]

theorem sum_triRule (unit : List (ℝ × ℝ)) (f : List ℝ → ℝ) :
    sum (triRule unit) f = lineSum unit fun u => (1 - u) * lineSum unit fun v => f [u, v * (1 - u)] := by
  rw [triRule, sum_flatMap, lineSum]
  refine congrArg List.sum (List.map_congr_left fun t _ => ?_)
  rw [← lineSum_const_mul, sum, lineSum, List.map_map, ← List.sum_map_mul_left]
  refine congrArg List.sum (List.map_congr_left fun s _ => ?_)
  simp only [Function.comp]
  ring

theorem sum_tetRule (unit : List (ℝ × ℝ)) (f : List ℝ → ℝ) :
    sum (tetRule unit) f = lineSum unit fun u => (1 - u) ^ 2 * lineSum unit fun v => (1 - v) *
      lineSum unit fun w => f [u, v * (1 - u), w * (1 - u) * (1 - v)] := by
  rw [tetRule, sum_flatMap, lineSum]
  refine congrArg List.sum (List.map_congr_left fun t _ => ?_)
  rw [← lineSum_const_mul, sum_flatMap, lineSum, ← List.sum_map_mul_left]
  refine congrArg List.sum (List.map_congr_left fun s _ => ?_)
  rw [← lineSum_const_mul, ← lineSum_const_mul, sum, lineSum, List.map_map, ← List.sum_map_mul_left, ← List.sum_map_mul_left]
  refine congrArg List.sum (List.map_congr_left fun r _ => ?_)
  simp only [Function.comp]
  ring

/-! ### Signs of weights -/

/-- Are the points of a rule for the interval inside it, and is no weight negative? -/
def Nonneg (line : List (ℝ × ℝ)) : Prop := ∀ t ∈ line, t.1 ∈ Icc (-1) 1 ∧ 0 ≤ t.2

theorem Nonneg.onUnit {line : List (ℝ × ℝ)} (nonneg : Nonneg line) :
    ∀ u ∈ Quadrature.onUnit line, 0 ≤ 1 - u.1 ∧ 0 ≤ u.2 := by
  rw [Quadrature.onUnit, List.forall_mem_map]
  intro t member
  obtain ⟨inside, weight⟩ := nonneg t member
  have above : t.1 ≤ 1 := inside.2
  simp only [half_real]
  constructor <;> linarith

/-- No rule of a cell has a negative weight if none for the interval has one. -/
theorem nonneg_ofCell {lines : LineRules ℝ} (nonneg : ∀ n, Nonneg (lines n)) (c : Cell) (degree : Int) :
    ∀ q ∈ ofCell lines c degree, 0 ≤ q.weight := by
  have weights (n : Nat) : ∀ t ∈ lines n, 0 ≤ t.2 := fun t member => (nonneg n t member).2
  cases c with
  | point =>
      intro q member
      rw [List.mem_singleton.mp member]
      exact zero_le_one
  | line => exact List.forall_mem_map.mpr (weights _)
  | quad =>
      refine List.forall_mem_flatMap.mpr fun s first => List.forall_mem_map.mpr fun t second => ?_
      exact mul_nonneg (weights _ s first) (weights _ t second)
  | hex =>
      refine List.forall_mem_flatMap.mpr fun r first => List.forall_mem_flatMap.mpr fun s second =>
        List.forall_mem_map.mpr fun t third => ?_
      exact mul_nonneg (mul_nonneg (weights _ r first) (weights _ s second)) (weights _ t third)
  | tri =>
      refine List.forall_mem_flatMap.mpr fun u first => List.forall_mem_map.mpr fun v second => ?_
      obtain ⟨left, weight⟩ := (nonneg _).onUnit u first
      exact mul_nonneg (mul_nonneg weight ((nonneg _).onUnit v second).2) left
  | tet =>
      refine List.forall_mem_flatMap.mpr fun u first => List.forall_mem_flatMap.mpr fun v second =>
        List.forall_mem_map.mpr fun w third => ?_
      obtain ⟨left, weight⟩ := (nonneg _).onUnit u first
      obtain ⟨left', weight'⟩ := (nonneg _).onUnit v second
      have product := mul_nonneg (mul_nonneg weight weight') ((nonneg _).onUnit w third).2
      exact mul_nonneg (mul_nonneg product (mul_self_nonneg _)) left'

/-! ### Exactness -/

/-- The powers that the Jacobian of the collapsed cube adds to those of a polynomial along an axis. -/
def extraPowers : Cell → Nat
  | .tri => 1
  | .tet => 2
  | _ => 0

theorem lt_two_mul_pointsPerAxis (degree extra : Nat) : degree + extra < 2 * pointsPerAxis degree extra := by
  have division : Int.fdiv (degree + extra + 2) 2 = (degree + extra + 2) / 2 :=
    Int.fdiv_eq_ediv_of_nonneg _ (by norm_num)
  have enough : (Int.fdiv (degree + extra + 2) 2).toNat ≤ pointsPerAxis degree extra := Nat.le_max_right _ _
  rw [division] at enough
  omega

/-- The points of a reference cell. -/
def region (c : Cell) : Set (Fin c.dim → ℝ) := if c.isSimplex then simplex c.dim 1 else cube c.dim

variable {lines : LineRules ℝ} {degree : Nat}

/-- On a product of intervals the sum of a monomial is a product of sums of powers. -/
theorem sum_ofCell_cube {c : Cell} (tensor : c.isSimplex = false) {exponents : List Nat} (sized : exponents.length = c.dim) :
    sum (ofCell lines c degree) (Monomial.powers exponents) =
      (exponents.map fun k => lineSum (lines (pointsPerAxis degree (extraPowers c))) (· ^ k)).prod := by
  cases c with
  | tri | tet => cases tensor
  | point =>
      obtain rfl := List.length_eq_zero_iff.mp sized
      simp [sum, ofCell, Monomial.powers]
  | line =>
      obtain ⟨a, rfl⟩ := List.length_eq_one_iff.mp sized
      simp [ofCell, sum_lineRule, extraPowers, Monomial.powers, natPow_eq_pow]
  | quad =>
      obtain ⟨a, b, rfl⟩ := List.length_eq_two.mp sized
      simp [ofCell, sum_quadRule, extraPowers, Monomial.powers, natPow_eq_pow, lineSum_const_mul, lineSum_mul_const]
  | hex =>
      obtain ⟨a, b, c, rfl⟩ := List.length_eq_three.mp sized
      simp [ofCell, sum_hexRule, extraPowers, Monomial.powers, natPow_eq_pow, lineSum_const_mul, lineSum_mul_const]

theorem sum_triRule_powers {line : List (ℝ × ℝ)} {n a b : Nat} (gauss : GaussExact n line) (small : a + b + 1 < 2 * n) :
    sum (triRule (onUnit line)) (Monomial.powers [a, b]) = betaProduct [a, b] := by
  have inner (u : ℝ) : (1 - u) * lineSum (onUnit line) (fun v => Monomial.powers [a, b] [u, v * (1 - u)]) =
      u ^ a * (1 - u) ^ (1 + b) * lineSum (onUnit line) fun v => v ^ b * (1 - v) ^ 0 := by
    rw [← lineSum_const_mul, ← lineSum_const_mul]
    refine congrArg (lineSum _) (funext fun v => ?_)
    simp only [Monomial.powers, natPow_eq_pow, mul_pow]
    ring
  rw [sum_triRule]
  simp only [inner]
  rw [lineSum_mul_const, lineSum_onUnit gauss (by omega), lineSum_onUnit gauss (by omega)]
  simp [betaProduct]

theorem sum_tetRule_powers {line : List (ℝ × ℝ)} {n a b c : Nat} (gauss : GaussExact n line) (small : a + b + c + 2 < 2 * n) :
    sum (tetRule (onUnit line)) (Monomial.powers [a, b, c]) = betaProduct [a, b, c] := by
  have inner (u v : ℝ) : (1 - v) * lineSum (onUnit line)
      (fun w => Monomial.powers [a, b, c] [u, v * (1 - u), w * (1 - u) * (1 - v)]) =
        u ^ a * (1 - u) ^ (b + c) * (v ^ b * (1 - v) ^ (1 + c) * lineSum (onUnit line) fun w => w ^ c * (1 - w) ^ 0) := by
    rw [← lineSum_const_mul, ← lineSum_const_mul, ← lineSum_const_mul]
    refine congrArg (lineSum _) (funext fun w => ?_)
    simp only [Monomial.powers, natPow_eq_pow, mul_pow]
    ring
  have outer (u : ℝ) : (1 - u) ^ 2 * lineSum (onUnit line) (fun v => (1 - v) * lineSum (onUnit line)
      fun w => Monomial.powers [a, b, c] [u, v * (1 - u), w * (1 - u) * (1 - v)]) =
        u ^ a * (1 - u) ^ (2 + (b + c)) * (lineSum (onUnit line) (fun v => v ^ b * (1 - v) ^ (1 + c)) *
          lineSum (onUnit line) fun w => w ^ c * (1 - w) ^ 0) := by
    simp only [inner]
    rw [lineSum_const_mul, lineSum_mul_const]
    ring
  rw [sum_tetRule]
  simp only [outer]
  rw [lineSum_mul_const, lineSum_onUnit gauss (by omega), lineSum_onUnit gauss (by omega), lineSum_onUnit gauss (by omega)]
  simp [betaProduct]

/-- The rule for a cell integrates all monomials up to the degree asked for, if the rule for the interval is as exact as a
Gauss rule: those of this total degree, and on products of intervals all with exponents up to the degree. -/
theorem rules_exact {c : Cell} (body : c ∈ Cell.bodies) (degree : Nat)
    (gauss : GaussExact (pointsPerAxis degree (extraPowers c)) (lines (pointsPerAxis degree (extraPowers c)))) :
    ∃ rule, ofName lines c.name degree = .ok rule ∧ ∀ exponents : List Nat, exponents.length = c.dim →
      (exponents.sum ≤ degree ∨ c.isSimplex = false ∧ ∀ k ∈ exponents, k ≤ degree) →
        sum rule (Monomial.powers exponents) = ∫ x in region c, Monomial.powers exponents (List.ofFn x) := by
  have named : ofName lines c.name degree = .ok (ofCell lines c degree) := by
    cases c <;> rfl
  refine ⟨_, named, fun exponents sized small => ?_⟩
  have enough := lt_two_mul_pointsPerAxis degree (extraPowers c)
  cases flat : c.isSimplex with
  | false =>
      have each : ∀ k ∈ exponents, k ≤ degree := by
        rcases small with total | ⟨-, each⟩
        · exact fun k member => (List.single_le_sum (fun _ _ => Nat.zero_le _) k member).trans total
        · exact each
      rw [region, flat, if_neg Bool.false_ne_true, sum_ofCell_cube flat sized, integral_cube sized]
      refine congrArg List.prod (List.map_congr_left fun k member => gauss k ?_)
      have bound := each k member
      omega
  | true =>
      have total : exponents.sum ≤ degree := small.resolve_right fun tensor => Bool.false_ne_true (tensor.1.symm.trans flat)
      rw [region, flat, if_pos rfl, integral_simplex sized zero_le_one, one_pow, one_mul]
      cases c with
      | point | line | quad | hex => cases flat
      | tri =>
          obtain ⟨a, b, rfl⟩ := List.length_eq_two.mp sized
          have extra : extraPowers .tri = 1 := rfl
          simp only [List.sum_cons, List.sum_nil] at total
          exact sum_triRule_powers gauss (by omega)
      | tet =>
          obtain ⟨a, b, c, rfl⟩ := List.length_eq_three.mp sized
          have extra : extraPowers .tet = 2 := rfl
          simp only [List.sum_cons, List.sum_nil] at total
          exact sum_tetRule_powers gauss (by omega)

/-- The Gauss rule of two points. -/
noncomputable def twoPoints : List (ℝ × ℝ) := [(-(1 / √3), 1), (1 / √3, 1)]

theorem gaussExact_twoPoints : GaussExact 2 twoPoints := by
  have square : (1 / √3) ^ 2 = (1 : ℝ) / 3 := by
    rw [div_pow, one_pow, Real.sq_sqrt (by norm_num)]
  intro k small
  simp only [lineSum, twoPoints, List.map_cons, List.map_nil, List.sum_cons, List.sum_nil, integral_pow]
  interval_cases k
  · norm_num
  · norm_num
  · rw [neg_sq, square]
    norm_num
  · norm_num [Odd.neg_pow (by decide : Odd 3)]

theorem rules_exact_twoPoints :
    (∃ rule, ofName (fun _ => twoPoints) "tri" 2 = .ok rule ∧
      sum rule (Monomial.powers [1, 1]) = ∫ x in simplex 2 1, Monomial.powers [1, 1] (List.ofFn x)) ∧
    ∃ rule, ofName (fun _ => twoPoints) "hex" 3 = .ok rule ∧
      sum rule (Monomial.powers [3, 2, 2]) = ∫ x in cube 3, Monomial.powers [3, 2, 2] (List.ofFn x) := by
  let lines : LineRules ℝ := fun _ => twoPoints
  have two : pointsPerAxis 2 1 = 2 ∧ pointsPerAxis 3 0 = 2 := by decide
  have gauss : GaussExact (pointsPerAxis 2 1) (lines (pointsPerAxis 2 1)) := two.1 ▸ gaussExact_twoPoints
  have gauss' : GaussExact (pointsPerAxis 3 0) (lines (pointsPerAxis 3 0)) := two.2 ▸ gaussExact_twoPoints
  constructor
  · obtain ⟨rule, named, exact⟩ := rules_exact (c := .tri) (by decide) 2 gauss
    exact ⟨rule, named, exact [1, 1] rfl (.inl (by decide))⟩
  · obtain ⟨rule, named, exact⟩ := rules_exact (c := .hex) (by decide) 3 gauss'
    exact ⟨rule, named, exact [3, 2, 2] rfl (.inr ⟨rfl, by decide⟩)⟩

end Quadrature

end Galerkin
