import Mathlib
import Galerkin.Kernel.Evaluation
import Galerkin.Proofs.Exact

/-!
Loops that add to the entries of an array. What a loop adds is read off with weights on the entries, so
that no entry has to be named.
-/

namespace Galerkin

open Finset

/-- A step that keeps `I` and raises a measure by `δ`. -/
def Raises {σ : Type} (I : σ → Prop) (μ : σ → ℝ) (f : σ → σ) (δ : ℝ) : Prop :=
  ∀ s, I s → I (f s) ∧ μ (f s) = μ s + δ

namespace Raises

variable {σ β : Type} {I : σ → Prop} {μ : σ → ℝ}

theorem skip : Raises I μ (fun s => s) 0 := fun _ inside => ⟨inside, (add_zero _).symm⟩

theorem foldl {f : σ → β → σ} {δ : β → ℝ} {bs : List β} (each : ∀ b ∈ bs, Raises I μ (f · b) (δ b)) :
    Raises I μ (fun s => bs.foldl f s) (bs.map δ).sum := by
  induction bs with
  | nil => exact skip
  | cons head tail ih =>
      intro s inside
      rcases each head List.mem_cons_self s inside with ⟨kept, first⟩
      rcases ih (fun b member => each b (List.mem_cons_of_mem head member)) _ kept with ⟨last, rest⟩
      refine ⟨last, ?_⟩
      dsimp only at first rest ⊢
      rw [List.foldl_cons, rest, first, List.map_cons, List.sum_cons, add_assoc]

theorem foldl_range {f : σ → Nat → σ} {δ : Nat → ℝ} {count : Nat}
    (each : ∀ i < count, Raises I μ (f · i) (δ i)) :
    Raises I μ (fun s => (List.range count).foldl f s) (∑ i ∈ range count, δ i) := by
  have sums := foldl fun i (member : i ∈ List.range count) => each i (List.mem_range.mp member)
  have total : ((List.range count).map δ).sum = ∑ i ∈ range count, δ i := rfl
  rw [total] at sums
  exact sums

end Raises

/-- The sum of all entries of an array, each times its weight. -/
noncomputable def weighted (φ : Nat → ℝ) (xs : Array ℝ) : ℝ := ∑ l ∈ range xs.size, φ l * xs.getD l 0

/-- On arrays of `n` entries, `f` adds `δ` to the weighted sum. -/
abbrev Adds (n : Nat) (φ : Nat → ℝ) (f : Array ℝ → Array ℝ) (δ : ℝ) : Prop :=
  Raises (·.size = n) (weighted φ) f δ

/-- The sum over a row of basis functions, each with the weight of the entry that it reaches. -/
noncomputable def along (φ : Nat → ℝ) (start stride count : Nat) (row : List ℝ) : ℝ :=
  ∑ a ∈ range count, row.getD a 0 * φ (a * stride + start)

/-- Weights on the entries of a square, stored row by row. -/
def onSquare (size : Nat) (ρ : Nat → Nat → ℝ) (i : Nat) : ℝ := ρ (i / size) (i % size)

theorem onSquare_entry {size r c : Nat} (column : c < size) (ρ : Nat → Nat → ℝ) :
    onSquare size ρ (r * size + c) = ρ r c := by
  rw [onSquare, Nat.mul_comm, Nat.mul_add_div (by omega), Nat.mul_add_mod, Nat.div_eq_of_lt column,
    Nat.mod_eq_of_lt column, add_zero]

theorem weighted_replicate (φ : Nat → ℝ) (n : Nat) : weighted φ (Array.replicate n 0) = 0 := by
  refine sum_eq_zero fun l member => ?_
  have bound := mem_range.mp member
  rw [Array.size_replicate] at bound
  simp [Array.getD, bound]

/-- The weighted sum that picks out one entry. -/
theorem weighted_single {xs : Array ℝ} {i : Nat} (inside : i < xs.size) :
    weighted (fun l => if l = i then 1 else 0) xs = xs.getD i 0 := by
  rw [weighted, sum_eq_single_of_mem i (mem_range.mpr inside)]
  · rw [if_pos rfl, one_mul]
  · intro l _ apart
    rw [if_neg apart, zero_mul]

theorem sum_zipIdx {row : List ℝ} {count : Nat} (short : row.length ≤ count) (g : Nat → ℝ) :
    (row.zipIdx.map fun t => t.1 * g t.2).sum = ∑ a ∈ range count, row.getD a 0 * g a := by
  have tail : ∀ a ∈ range count, a ∉ range row.length → row.getD a 0 * g a = 0 := by
    intro a _ outside
    rw [mem_range, not_lt] at outside
    rw [List.getD_eq_default _ _ outside, zero_mul]
  rw [← sum_subset (range_subset_range.mpr short) tail, sum_range, ← List.sum_ofFn]
  refine congrArg List.sum (List.ext_getElem (by simp) fun a left right => ?_)
  simp

theorem sum_map_sum {ι κ : Type} (xs : List ι) (s : Finset κ) (f : ι → κ → ℝ) :
    (xs.map fun x => ∑ b ∈ s, f x b).sum = ∑ b ∈ s, (xs.map fun x => f x b).sum := by
  induction xs with
  | nil => simp
  | cons head tail ih => simp [ih, sum_add_distrib]

namespace Adds

variable {n : Nat} {φ : Nat → ℝ}

theorem modify {i : Nat} (inside : i < n) (x : ℝ) : Adds n φ (·.modify i (· + x)) (φ i * x) := by
  intro xs size
  have bound : i < xs.size := size ▸ inside
  refine ⟨(Array.size_modify ..).trans size, ?_⟩
  rw [weighted, weighted, Array.size_modify]
  have entry : ∀ l ∈ range xs.size, φ l * (xs.modify i (· + x)).getD l 0 =
      φ l * xs.getD l 0 + if l = i then φ i * x else 0 := by
    intro l member
    have here := mem_range.mp member
    rw [Array.getD_eq_getD_getElem?, Array.getD_eq_getD_getElem?, Array.getElem?_modify]
    by_cases same : i = l
    · subst same
      simp [here]
      ring
    · simp [same, Ne.symm same]
  rw [sum_congr rfl entry, sum_add_distrib, sum_ite_eq' (range xs.size) i, if_pos (mem_range.mpr bound)]

theorem spread {start stride count : Nat} {row : List ℝ} (short : row.length ≤ count)
    (inside : ∀ a < row.length, a * stride + start < n) (x : ℝ) :
    Adds n φ (Kernel.spread start stride row x) (x * along φ start stride count row) := by
  have steps : Adds n φ (fun xs => row.zipIdx.foldl (fun sum (w, a) =>
      sum.modify (a * stride + start) (· + x * w)) xs)
      (row.zipIdx.map fun t => φ (t.2 * stride + start) * (x * t.1)).sum := by
    refine Raises.foldl fun t member => ?_
    have bound := List.snd_lt_of_mem_zipIdx member
    exact modify (inside t.2 (by simpa using bound)) (x * t.1)
  have total : (row.zipIdx.map fun t => φ (t.2 * stride + start) * (x * t.1)).sum =
      x * along φ start stride count row := by
    rw [along, ← sum_zipIdx short, ← List.sum_map_mul_left]
    refine congrArg List.sum (List.map_congr_left fun t _ => ?_)
    ring
  rw [total] at steps
  exact steps

end Adds

namespace Kernel

variable {k : Kernel} {count : Nat} {rows : Array (List ℝ)}

/-- The basis rows of the unknowns reach entries of the element only. -/
structure Fitting (k : Kernel) (count : Nat) (rows : Array (List ℝ)) : Prop where
  short : ∀ i < k.unknownCount, (rows.getD i []).length ≤ count
  inside : ∀ i < k.unknownCount, ∀ a < (rows.getD i []).length, k.column i < k.width

theorem Fitting.reach (fitting : Fitting k count rows) {i : Nat} (unknown : i < k.unknownCount) {a : Nat}
    (inside : a < (rows.getD i []).length) : a * k.width + k.column i < count * k.width := by
  have column := fitting.inside i unknown a inside
  have row := fitting.short i unknown
  calc a * k.width + k.column i < a * k.width + k.width := by omega
    _ = (a + 1) * k.width := by ring
    _ ≤ count * k.width := Nat.mul_le_mul_right _ (by omega)

theorem adds_addDensities (fitting : Fitting k count rows) (weight : ℝ) (densities : Array ℝ)
    (φ : Nat → ℝ) :
    Adds (count * k.width) φ (k.addDensities rows weight densities)
      (∑ i ∈ range k.unknownCount, weight * densities.getD i 0 *
        along φ (k.column i) k.width count (rows.getD i [])) := by
  refine Raises.foldl_range fun i unknown => ?_
  by_cases zero : Arithmetic.isZero (weight * densities.getD i 0)
  · have none := (isZero_iff _).mp zero
    simp only [zero, ↓reduceIte]
    rw [none, zero_mul]
    exact .skip
  · simp only [zero, Bool.false_eq_true, ↓reduceIte]
    exact Adds.spread (fitting.short i unknown) (fun a inside => fitting.reach unknown inside) _

theorem entry_lt {size i j : Nat} (row : i < size) (column : j < size) : i * size + j < size * size := by
  calc i * size + j < i * size + size := by omega
    _ = (i + 1) * size := by ring
    _ ≤ size * size := Nat.mul_le_mul_right _ row

/-- In a row of a square the basis reaches entries of that row only. -/
theorem along_onSquare (fitting : Fitting k count rows) {j : Nat} (unknown : j < k.unknownCount)
    (ρ : Nat → Nat → ℝ) (r : Nat) :
    along (onSquare (count * k.width) ρ) (r * (count * k.width) + k.column j) k.width count (rows.getD j []) =
      along (ρ r) (k.column j) k.width count (rows.getD j []) := by
  refine sum_congr rfl fun b _ => ?_
  by_cases inside : b < (rows.getD j []).length
  · have place : b * k.width + (r * (count * k.width) + k.column j) =
        r * (count * k.width) + (b * k.width + k.column j) := by ring
    rw [place, onSquare_entry (fitting.reach unknown inside)]
  · rw [List.getD_eq_default _ _ (not_lt.mp inside), zero_mul, zero_mul]

theorem adds_addSlopes (fitting : Fitting k count rows) (weight rateWeight : ℝ) (slopes : Array ℝ)
    (ρ : Nat → Nat → ℝ) :
    Adds (count * k.width * (count * k.width)) (onSquare (count * k.width) ρ)
      (k.addSlopes rows weight rateWeight (count * k.width) slopes)
      (∑ i ∈ range k.unknownCount, ∑ j ∈ range k.unknownCount,
        weight * (slopes.getD (i * k.unknownCount + j) 0 * if k.isRate j then rateWeight else 1) *
          along (fun r => along (ρ r) (k.column j) k.width count (rows.getD j [])) (k.column i) k.width count
            (rows.getD i [])) := by
  refine Raises.foldl_range fun i row => Raises.foldl_range fun j column => ?_
  by_cases zero : Arithmetic.isZero (slopes.getD (i * k.unknownCount + j) 0)
  · have none := (isZero_iff _).mp zero
    simp only [zero, ↓reduceIte]
    rw [none, zero_mul, mul_zero, zero_mul]
    exact .skip
  · simp only [zero, Bool.false_eq_true, ↓reduceIte]
    have scaled : (if k.isRate j = true then slopes.getD (i * k.unknownCount + j) 0 * rateWeight
        else slopes.getD (i * k.unknownCount + j) 0) =
        slopes.getD (i * k.unknownCount + j) 0 * if k.isRate j then rateWeight else 1 := by
      split
      · rfl
      · rw [mul_one]
    rw [scaled]
    generalize weight * (slopes.getD (i * k.unknownCount + j) 0 * if k.isRate j then rateWeight else 1) = h
    let inner := fun r => along (ρ r) (k.column j) k.width count (rows.getD j [])
    have total : ((rows.getD i []).zipIdx.map fun t => h * t.1 *
          along (onSquare (count * k.width) ρ) ((t.2 * k.width + k.column i) * (count * k.width) + k.column j)
            k.width count (rows.getD j [])).sum =
        h * along inner (k.column i) k.width count (rows.getD i []) := by
      rw [along, ← sum_zipIdx (fitting.short i row), ← List.sum_map_mul_left]
      refine congrArg List.sum (List.map_congr_left fun t _ => ?_)
      rw [along_onSquare fitting column]
      ring
    rw [← total]
    refine Raises.foldl fun t member => ?_
    have first : t.2 < (rows.getD i []).length := by
      have bound := List.snd_lt_of_mem_zipIdx member
      simpa using bound
    refine Adds.spread (fitting.short j column) (fun b second => ?_) (h * t.1)
    have entry := entry_lt (fitting.reach row first) (fitting.reach column second)
    calc b * k.width + ((t.2 * k.width + k.column i) * (count * k.width) + k.column j)
        = (t.2 * k.width + k.column i) * (count * k.width) + (b * k.width + k.column j) := by ring
      _ < _ := entry

end Kernel

end Galerkin
