import Mathlib
import Galerkin.Linear.LeastSquares
import Galerkin.Proofs.Exact

/-!
Vectors of real numbers: sums, multiples and combinations, and the maps that keep them.
-/

namespace Galerkin.Linear

namespace Vec

section Lengths

variable {α : Type} [Arithmetic α] {n : Nat} {x y : Vec α}

@[simp] theorem length_zeros : (zeros n : Vec α).length = n := List.length_replicate

@[simp] theorem length_add : (add x y).length = min x.length y.length := List.length_zipWith

@[simp] theorem length_sub : (sub x y).length = min x.length y.length := List.length_zipWith

@[simp] theorem length_mul : (mul x y).length = min x.length y.length := List.length_zipWith

@[simp] theorem length_div : (div x y).length = min x.length y.length := List.length_zipWith

@[simp] theorem length_scale (c : α) : (scale c x).length = x.length := List.length_map _

@[simp] theorem length_neg : (neg x).length = x.length := List.length_map _

omit [Arithmetic α] in
/-- Going through vectors with their coefficients keeps the number of entries, if each step does. -/
theorem length_foldl_zip {step : Vec α → α × Vec α → Vec α} {coeffs : List α} {vectors : List (Vec α)}
    (sized : x.length = n) (all : ∀ v ∈ vectors, v.length = n)
    (keeps : ∀ x t, x.length = n → t.2.length = n → (step x t).length = n) :
    ((coeffs.zip vectors).foldl step x).length = n := by
  induction coeffs generalizing x vectors with
  | nil => exact sized
  | cons c coeffs ih =>
      cases vectors with
      | nil => exact sized
      | cons v vectors =>
          have next : (step x (c, v)).length = n := keeps x (c, v) sized (all v List.mem_cons_self)
          exact ih next fun w member => all w (List.mem_cons_of_mem v member)

theorem length_addCombination (sized : x.length = n) {coeffs : List α} {vectors : List (Vec α)}
    (all : ∀ v ∈ vectors, v.length = n) : (addCombination x coeffs vectors).length = n :=
  length_foldl_zip sized all fun x t first second => by simp [first, second]

theorem length_subCombination (sized : x.length = n) {coeffs : List α} {vectors : List (Vec α)}
    (all : ∀ v ∈ vectors, v.length = n) : (subCombination x coeffs vectors).length = n :=
  length_foldl_zip sized all fun x t first second => by simp [first, second]

end Lengths

variable {n : Nat} {x y z : Vec ℝ}

theorem sub_scale (c : ℝ) (x y : Vec ℝ) : sub x (scale c y) = add x (scale (-c) y) := by
  rw [sub, add, scale, scale, List.zipWith_map_right, List.zipWith_map_right]
  congr 1
  funext a b
  exact (sub_eq_add_neg _ _).trans (congrArg _ (neg_mul c b).symm)

theorem sub_add (x y z : Vec ℝ) : sub x (add y z) = sub (sub x y) z := by
  induction x generalizing y z with
  | nil => rfl
  | cons a x ih =>
      cases y with
      | nil => rfl
      | cons b y =>
          cases z with
          | nil => rfl
          | cons c z => exact congrArg₂ List.cons (sub_add_eq_sub_sub a b c) (ih y z)

theorem mul_add_scale (w x y : Vec ℝ) (c : ℝ) :
    mul w (add x (scale c y)) = add (mul w x) (scale c (mul w y)) := by
  induction w generalizing x y with
  | nil => rfl
  | cons e w ih =>
      cases x with
      | nil => rfl
      | cons a x =>
          cases y with
          | nil => rfl
          | cons b y =>
              have head : e * (a + c * b) = e * a + c * (e * b) := by ring
              exact congrArg₂ List.cons head (ih x y)

theorem mul_div {w : Vec ℝ} (sized : x.length = w.length) (nonzero : ∀ a ∈ w, a ≠ 0) :
    mul w (div x w) = x := by
  induction w generalizing x with
  | nil => exact (List.length_eq_zero_iff.mp sized).symm
  | cons e w ih =>
      obtain ⟨a, x, rfl⟩ := List.exists_cons_of_length_eq_add_one sized
      have head : e * (a / e) = a := mul_div_cancel₀ a (nonzero e List.mem_cons_self)
      exact congrArg₂ List.cons head
        (ih (Nat.succ.inj sized) fun b member => nonzero b (List.mem_cons_of_mem e member))

theorem sub_self_eq_zeros : sub x x = zeros x.length := by
  induction x with
  | nil => rfl
  | cons a x ih => exact congrArg₂ List.cons (sub_self a) ih

/-! ### Products -/

@[simp] theorem dot_nil (y : Vec ℝ) : Arithmetic.dot [] y = 0 := rfl

@[simp] theorem dot_cons (a b : ℝ) (x y : Vec ℝ) :
    Arithmetic.dot (a :: x) (b :: y) = a * b + Arithmetic.dot x y := by
  simp only [Arithmetic.dot, total_eq_sum, List.zipWith_cons_cons, List.sum_cons]

theorem dot_comm (x y : Vec ℝ) : Arithmetic.dot x y = Arithmetic.dot y x :=
  congrArg Arithmetic.total (List.zipWith_comm_of_comm mul_comm)

theorem dot_map_mul (c : ℝ) (x y : Vec ℝ) : Arithmetic.dot (x.map (c * ·)) y = c * Arithmetic.dot x y := by
  induction x generalizing y with
  | nil => exact (mul_zero c).symm
  | cons a x ih =>
      cases y with
      | nil => exact (mul_zero c).symm
      | cons b y => rw [List.map_cons, dot_cons, dot_cons, ih, mul_add, mul_assoc]

theorem dot_map_neg (x y : Vec ℝ) : Arithmetic.dot (x.map (-·)) y = -Arithmetic.dot x y := by
  rw [← neg_one_mul, ← dot_map_mul]
  exact congrArg (Arithmetic.dot · y) (List.map_congr_left fun a _ => (neg_one_mul a).symm)

theorem dot_map_div (c : ℝ) (x y : Vec ℝ) : Arithmetic.dot (x.map (· / c)) y = Arithmetic.dot x y / c := by
  rw [div_eq_inv_mul, ← dot_map_mul]
  exact congrArg (Arithmetic.dot · y) (List.map_congr_left fun a _ => div_eq_inv_mul a c)

/-! ### Norm -/

theorem dot_self_nonneg (x : Vec ℝ) : 0 ≤ Arithmetic.dot x x := by
  rw [Arithmetic.dot, total_eq_sum, List.zipWith_self]
  refine List.sum_nonneg fun a member => ?_
  obtain ⟨b, -, rfl⟩ := List.mem_map.mp member
  exact mul_self_nonneg b

theorem norm_nonneg (x : Vec ℝ) : 0 ≤ norm x := Real.sqrt_nonneg _

theorem norm_zeros (n : Nat) : norm (zeros n : Vec ℝ) = 0 := by
  have none : Arithmetic.dot (zeros n : Vec ℝ) (zeros n) = 0 := by
    rw [Arithmetic.dot, total_eq_sum, zeros, List.zipWith_replicate']
    exact (List.sum_replicate n _).trans (by rw [mul_zero, smul_zero])
  exact (congrArg Real.sqrt none).trans Real.sqrt_zero

theorem eq_zeros_of_norm (none : norm x = 0) : x = zeros x.length := by
  have squares : Arithmetic.dot x x = 0 := (Real.sqrt_eq_zero (dot_self_nonneg x)).mp none
  rw [Arithmetic.dot, total_eq_sum, List.zipWith_self] at squares
  rw [zeros, List.eq_replicate_iff]
  refine ⟨rfl, fun a member => ?_⟩
  have square : a * a = 0 := List.all_zero_of_le_zero_le_of_sum_eq_zero
    (fun c found => by
      obtain ⟨e, -, rfl⟩ := List.mem_map.mp found
      exact mul_self_nonneg e)
    squares (List.mem_map_of_mem (f := fun a => a * a) member)
  exact mul_self_eq_zero.mp square

/-! ### Combinations -/

/-- Vectors without a coefficient do not count. -/
theorem addCombination_append (x : Vec ℝ) {coeffs : List ℝ} {vectors : List (Vec ℝ)}
    (few : coeffs.length ≤ vectors.length) (more : List (Vec ℝ)) :
    addCombination x coeffs (vectors ++ more) = addCombination x coeffs vectors := by
  induction coeffs generalizing x vectors with
  | nil => rfl
  | cons c coeffs ih =>
      cases vectors with
      | nil => exact absurd few (Nat.not_succ_le_zero _)
      | cons v vectors => exact ih (add x (scale c v)) (Nat.le_of_succ_le_succ few)

theorem subCombination_eq (x : Vec ℝ) (coeffs : List ℝ) (vectors : List (Vec ℝ)) :
    subCombination x coeffs vectors = addCombination x (coeffs.map (-·)) vectors := by
  induction coeffs generalizing x vectors with
  | nil => rfl
  | cons c coeffs ih =>
      cases vectors with
      | nil => rfl
      | cons v vectors =>
          have head := sub_scale c x v
          exact (ih (sub x (scale c v)) vectors).trans
            (congrArg (addCombination · (coeffs.map (-·)) vectors) head)

theorem sub_addCombination (x y : Vec ℝ) (coeffs : List ℝ) (vectors : List (Vec ℝ)) :
    sub x (addCombination y coeffs vectors) = subCombination (sub x y) coeffs vectors := by
  induction coeffs generalizing y vectors with
  | nil => rfl
  | cons c coeffs ih =>
      cases vectors with
      | nil => rfl
      | cons v vectors =>
          have head := sub_add x y (scale c v)
          exact (ih (add y (scale c v)) vectors).trans
            (congrArg (subCombination · coeffs vectors) head)

end Vec

/-- A map that keeps sums and multiples of vectors of one length. -/
structure IsLinear (n : Nat) (map : Vec ℝ → Vec ℝ) : Prop where
  length : ∀ {v : Vec ℝ}, v.length = n → (map v).length = n
  add_scale : ∀ {v w : Vec ℝ} (c : ℝ), v.length = n → w.length = n →
    map (Vec.add v (Vec.scale c w)) = Vec.add (map v) (Vec.scale c (map w))

namespace IsLinear

variable {n : Nat} {map : Vec ℝ → Vec ℝ} (linear : IsLinear n map)

include linear

theorem sub_scale {v w : Vec ℝ} (c : ℝ) (first : v.length = n) (second : w.length = n) :
    map (Vec.sub v (Vec.scale c w)) = Vec.sub (map v) (Vec.scale c (map w)) := by
  rw [Vec.sub_scale, Vec.sub_scale]
  exact linear.add_scale (-c) first second

theorem addCombination {v : Vec ℝ} (sized : v.length = n) (coeffs : List ℝ) {vectors : List (Vec ℝ)}
    (all : ∀ w ∈ vectors, w.length = n) :
    map (Vec.addCombination v coeffs vectors) = Vec.addCombination (map v) coeffs (vectors.map map) := by
  induction coeffs generalizing v vectors with
  | nil => rfl
  | cons c coeffs ih =>
      cases vectors with
      | nil => rfl
      | cons w vectors =>
          have here := all w List.mem_cons_self
          have next : (Vec.add v (Vec.scale c w)).length = n := by simp [sized, here]
          have head := linear.add_scale c sized here
          exact (ih next fun u member => all u (List.mem_cons_of_mem w member)).trans
            (congrArg (Vec.addCombination · coeffs (vectors.map map)) head)

theorem zeros : map (Vec.zeros n) = Vec.zeros n := by
  have same : Vec.sub (Vec.zeros n) (Vec.scale 1 (Vec.zeros n)) = (Vec.zeros n : Vec ℝ) := by
    simp [Vec.sub, Vec.scale, Vec.zeros]
  have image := linear.sub_scale 1 (v := Vec.zeros n) (w := Vec.zeros n) Vec.length_zeros Vec.length_zeros
  rw [same] at image
  have one (v : Vec ℝ) : Vec.scale 1 v = v := by simp [Vec.scale]
  rw [one, Vec.sub_self_eq_zeros, linear.length Vec.length_zeros] at image
  exact image

/-- The map after a scaling of the entries. -/
theorem comp_mul {w : Vec ℝ} (sized : w.length = n) : IsLinear n fun v => map (Vec.mul w v) where
  length := fun {v} same => linear.length (by simp [sized, same])
  add_scale := fun {u v} c first second => by
    rw [Vec.mul_add_scale]
    exact linear.add_scale c (by simp [sized, first]) (by simp [sized, second])

end IsLinear

end Galerkin.Linear
