import Mathlib
import Galerkin.Assembly.System
import Galerkin.Proofs.Entries
import Galerkin.Proofs.Kernel.Accumulation

/-!
Scattering: in an assembled system every entry is the sum of what the contributions hold for it, also
where several of them meet and where one has a number twice.
-/

namespace Galerkin

open Finset

namespace Linear.SparseMatrix

/-! ### Rows -/

/-- Are the columns of a row in ascending order? -/
def Sorted (row : List (Nat × ℝ)) : Prop := (row.map (·.1)).Pairwise (· < ·)

theorem sumAt_addToRow (column : Nat) (x : ℝ) (row : List (Nat × ℝ)) (j : Nat) :
    sumAt id (addToRow column x row) j = sumAt id row j + if column = j then x else 0 := by
  induction row with
  | nil => rw [addToRow, sumAt_cons, sumAt_nil, zero_add, add_zero, id]
  | cons head tail ih =>
      rw [addToRow]
      split
      · rw [sumAt_cons, id, add_comm]
      · split
        · next same =>
            rw [sumAt_cons, sumAt_cons, ← same]
            simp only [id]
            split <;> ring
        · rw [sumAt_cons, sumAt_cons, ih, add_assoc]

theorem mem_keys_addToRow {column : Nat} {x : ℝ} {row : List (Nat × ℝ)} {j : Nat}
    (member : j ∈ (addToRow column x row).map (·.1)) : j = column ∨ j ∈ row.map (·.1) := by
  induction row with
  | nil => exact Or.inl (List.mem_singleton.mp member)
  | cons head tail ih =>
      rw [addToRow] at member
      split at member
      · exact List.mem_cons.mp member
      · split at member
        · exact Or.inr member
        · rcases List.mem_cons.mp member with rfl | later
          · exact Or.inr List.mem_cons_self
          · exact (ih later).imp id (List.mem_cons_of_mem _)

theorem sorted_addToRow (column : Nat) (x : ℝ) {row : List (Nat × ℝ)} (sorted : Sorted row) :
    Sorted (addToRow column x row) := by
  induction row with
  | nil => exact List.pairwise_singleton _ _
  | cons head tail ih =>
      rcases List.pairwise_cons.mp sorted with ⟨first, rest⟩
      rw [addToRow]
      split
      · next before =>
          refine List.pairwise_cons.mpr ⟨fun j member => ?_, sorted⟩
          rcases List.mem_cons.mp member with rfl | later
          · exact before
          · exact before.trans (first j later)
      · next notBefore =>
          split
          · exact List.pairwise_cons.mpr ⟨first, rest⟩
          · next apart =>
              refine List.pairwise_cons.mpr ⟨fun j member => ?_, ih rest⟩
              rcases mem_keys_addToRow member with rfl | old
              · exact lt_of_le_of_ne (not_lt.mp notBefore) (Ne.symm apart)
              · exact first j old

theorem rowEntry_eq_sumAt {row : List (Nat × ℝ)} (sorted : Sorted row) (j : Nat) :
    rowEntry row j = sumAt id row j := by
  rw [sumAt_eq_lookup (sorted.imp ne_of_lt) j, Option.map_id]
  rfl

/-! ### Matrices -/

/-- A matrix of `n` rows, each in order. -/
structure Ordered (n : Nat) (m : SparseMatrix ℝ) : Prop where
  rows : m.rows.size = n
  sorted : ∀ i, Sorted (m.rows.getD i [])

theorem rows_zero (n i : Nat) : (zero n : SparseMatrix ℝ).rows.getD i [] = [] := by
  rw [zero, Array.getD_eq_getD_getElem?, Array.getElem?_replicate]
  split <;> rfl

theorem ordered_zero (n : Nat) : Ordered n (zero n) where
  rows := Array.size_replicate
  sorted := by
    intro i
    rw [rows_zero]
    exact List.Pairwise.nil

theorem get_zero (n i j : Nat) : (zero n : SparseMatrix ℝ).get i j = 0 := by
  rw [get, rows_zero]
  rfl

theorem rows_addEntry (m : SparseMatrix ℝ) (a b : Nat) (x : ℝ) (i : Nat) :
    (m.addEntry a b x).rows.getD i [] =
      if a = i ∧ i < m.rows.size then addToRow b x (m.rows.getD i []) else m.rows.getD i [] := by
  rw [addEntry, Array.getD_eq_getD_getElem?, Array.getElem?_modify]
  by_cases same : a = i
  · subst same
    by_cases inside : a < m.rows.size
    · simp [Array.getD, inside]
    · simp [Array.getD, inside]
  · simp [Array.getD_eq_getD_getElem?, same]

/-- The sum of all entries of a matrix, each times its weight. -/
noncomputable def weigh (n : Nat) (ρ : Nat → Nat → ℝ) (m : SparseMatrix ℝ) : ℝ :=
  ∑ i ∈ range n, ∑ j ∈ range n, ρ i j * m.get i j

theorem weigh_zero (n : Nat) (ρ : Nat → Nat → ℝ) : weigh n ρ (zero n) = 0 :=
  sum_eq_zero fun i _ => sum_eq_zero fun j _ => by rw [get_zero, mul_zero]

/-- The weights that pick out one row. -/
theorem weigh_single {n i : Nat} (m : SparseMatrix ℝ) (inside : i < n) (f : Nat → ℝ) :
    m.weigh n (fun r j => (if r = i then 1 else 0) * f j) = ∑ j ∈ range n, f j * m.get i j := by
  rw [weigh, sum_eq_single_of_mem i (mem_range.mpr inside)]
  · simp only [if_true, one_mul]
  · intro r _ apart
    simp only [if_neg apart, zero_mul, sum_const_zero]

/-- On matrices of `n` rows, `f` adds `δ` to the weighted sum. -/
abbrev Gains (n : Nat) (ρ : Nat → Nat → ℝ) (f : SparseMatrix ℝ → SparseMatrix ℝ) (δ : ℝ) : Prop :=
  Raises (Ordered n) (weigh n ρ) f δ

theorem gains_addEntry {n : Nat} {ρ : Nat → Nat → ℝ} {a b : Nat} (row : a < n) (column : b < n) (x : ℝ) :
    Gains n ρ (·.addEntry a b x) (ρ a b * x) := by
  intro m ordered
  have kept : Ordered n (m.addEntry a b x) := by
    refine ⟨(Array.size_modify ..).trans ordered.rows, fun i => ?_⟩
    rw [rows_addEntry]
    split
    · exact sorted_addToRow b x (ordered.sorted i)
    · exact ordered.sorted i
  refine ⟨kept, ?_⟩
  have entry : ∀ i ∈ range n, ∀ j, (m.addEntry a b x).get i j =
      m.get i j + if i = a then if j = b then x else 0 else 0 := by
    intro i member j
    have inside := mem_range.mp member
    rw [get, get, rowEntry_eq_sumAt (kept.sorted i), rowEntry_eq_sumAt (ordered.sorted i), rows_addEntry]
    by_cases same : a = i
    · rw [if_pos ⟨same, ordered.rows.symm ▸ inside⟩, if_pos same.symm, sumAt_addToRow]
      simp only [eq_comm]
    · rw [if_neg fun both => same both.1, if_neg (Ne.symm same), add_zero]
  rw [weigh, weigh]
  have split : ∀ i ∈ range n, ∑ j ∈ range n, ρ i j * (m.addEntry a b x).get i j =
      ∑ j ∈ range n, ρ i j * m.get i j + if i = a then ρ a b * x else 0 := by
    intro i member
    simp only [entry i member, mul_add, sum_add_distrib]
    congr 1
    by_cases same : i = a
    · subst same
      simp only [if_true, mul_ite, mul_zero]
      rw [sum_ite_eq' (range n) b, if_pos (mem_range.mpr column)]
    · simp [same]
  rw [sum_congr rfl split, sum_add_distrib, sum_ite_eq' (range n) a, if_pos (mem_range.mpr row)]

end Linear.SparseMatrix

open Linear

namespace Contribution

variable {n : Nat} {c : Contribution ℝ}

/-- Do all numbers of a contribution lie below `n`? -/
def Below (n : Nat) (c : Contribution ℝ) : Prop := ∀ i ∈ c.dofs, i < n

theorem adds_addResidual (below : c.Below n) (φ : Nat → ℝ) :
    Adds n φ (fun r => c.addResidual r) ((c.dofs.zip c.system.residual).map fun t => φ t.1 * t.2).sum :=
  Raises.foldl fun t member => Adds.modify (below t.1 (List.of_mem_zip member).1) t.2

theorem gains_addTangent (below : c.Below n) (ρ : Nat → Nat → ℝ) :
    SparseMatrix.Gains n ρ (fun m => addTangent m c) ((c.dofs.zip c.system.tangent).map fun t =>
      ((c.dofs.zip t.2).map fun u => ρ t.1 u.1 * u.2).sum).sum :=
  Raises.foldl fun t row => Raises.foldl fun u entry =>
    SparseMatrix.gains_addEntry (below t.1 (List.of_mem_zip row).1) (below u.1 (List.of_mem_zip entry).1) u.2

end Contribution

/-! ### Elements -/

theorem sum_zip {dofs : List Nat} {xs : Array ℝ} (size : dofs.length = xs.size) (φ : Nat → ℝ) :
    ((dofs.zip xs.toList).map fun t => φ t.1 * t.2).sum = weighted (fun i => φ (dofs.getD i 0)) xs := by
  rw [weighted, sum_range, ← List.sum_ofFn]
  refine congrArg List.sum (List.ext_getElem (by simp [size]) fun i left right => ?_)
  have inside : i < xs.size := by simpa using right
  have number : i < dofs.length := size ▸ inside
  simp [number]

theorem sum_range_mul (f : Nat → ℝ) (rows columns : Nat) :
    ∑ i ∈ range (rows * columns), f i = ∑ r ∈ range rows, ∑ c ∈ range columns, f (r * columns + c) := by
  induction rows with
  | zero => simp
  | succ rows ih => rw [Nat.add_mul, one_mul, sum_range_add, ih, sum_range_succ]

theorem sum_zip_rows {dofs : List Nat} {size : Nat} {xs : Array ℝ} (length : dofs.length = size)
    (square : xs.size = size * size) (ρ : Nat → Nat → ℝ) :
    ((dofs.zip ((List.range size).map fun r =>
        (xs.extract (r * size) ((r + 1) * size)).toList)).map fun t =>
      ((dofs.zip t.2).map fun u => ρ t.1 u.1 * u.2).sum).sum =
      weighted (onSquare size fun r c => ρ (dofs.getD r 0) (dofs.getD c 0)) xs := by
  rw [weighted, square, sum_range_mul, sum_range, ← List.sum_ofFn]
  refine congrArg List.sum (List.ext_getElem (by simp [length]) fun r left right => ?_)
  have row : r < size := by simpa using right
  have last : (r + 1) * size ≤ xs.size := square ▸ Nat.mul_le_mul_right size row
  have extent : (xs.extract (r * size) ((r + 1) * size)).size = size := by
    rw [Array.size_extract, Nat.min_eq_left last, Nat.add_mul, one_mul, Nat.add_sub_cancel_left]
  have number : r < dofs.length := length.symm ▸ row
  rw [List.getElem_map, List.getElem_zip, List.getElem_map, List.getElem_range, List.getElem_ofFn]
  dsimp only
  rw [sum_zip (length.trans extent.symm), weighted, extent]
  refine sum_congr rfl fun c member => ?_
  have column := mem_range.mp member
  have entry : (xs.extract (r * size) ((r + 1) * size)).getD c 0 = xs.getD (r * size + c) 0 := by
    rw [Array.getD_eq_getD_getElem?, Array.getD_eq_getD_getElem?, Array.getElem?_extract]
    have inside : c < min ((r + 1) * size) xs.size - r * size := by
      rw [Nat.min_eq_left last, Nat.add_mul, one_mul, Nat.add_sub_cancel_left]
      exact column
    rw [if_pos inside]
  rw [entry, onSquare_entry column]
  simp [number]

namespace System

variable {n : Nat} {cs : List (Contribution ℝ)}

/-- Every entry of the residual is the sum of what the contributions hold for it. -/
theorem residual_ofContributions (below : ∀ c ∈ cs, c.Below n) :
    (ofContributions n cs).residual.length = n ∧ ∀ φ,
      weighted φ (ofContributions n cs).residual.toArray =
        (cs.map fun c => ((c.dofs.zip c.system.residual).map fun t => φ t.1 * t.2).sum).sum := by
  have added := fun φ => Raises.foldl (fun c member => Contribution.adds_addResidual (below c member) φ)
    (Array.replicate n 0) Array.size_replicate
  refine ⟨(Array.length_toList ..).trans (added 0).1, fun φ => ?_⟩
  have sums := (added φ).2
  rw [weighted_replicate, zero_add] at sums
  rw [ofContributions, Array.toArray_toList]
  exact sums

/-- Every entry of the tangent is the sum of what the contributions hold for it. -/
theorem tangent_ofContributions (below : ∀ c ∈ cs, c.Below n) (ρ : Nat → Nat → ℝ) :
    (ofContributions n cs).tangent.weigh n ρ = (cs.map fun c => ((c.dofs.zip c.system.tangent).map fun t =>
      ((c.dofs.zip t.2).map fun u => ρ t.1 u.1 * u.2).sum).sum).sum := by
  have added := Raises.foldl (fun c member => Contribution.gains_addTangent (below c member) ρ)
    (SparseMatrix.zero n) (SparseMatrix.ordered_zero n)
  have sums := added.2
  rw [SparseMatrix.weigh_zero, zero_add] at sums
  exact sums

end System

end Galerkin
