import Mathlib
import Galerkin.Linear.Elimination

/-!
Gauss–Jordan elimination over the rationals gives inverses. Every row stays a combination of the rows of the matrix, with
the coefficients behind it, and the columns that have been worked through are those of the identity. It never gets stuck
unless a combination of the columns vanishes.
-/

namespace Galerkin.Linear.Elimination

theorem isZero_rat (x : ℚ) : Arithmetic.isZero x = true ↔ x = 0 := by
  rw [Arithmetic.isZero, Bool.and_eq_true, decide_eq_true_eq, decide_eq_true_eq]
  exact le_antisymm_iff.symm

section Rows

variable {rows others : List (Row ℚ)} {best row pivot : Row ℚ} {j k : Nat}

theorem takeLargest_eq_none (none : takeLargest k rows = none) : rows = [] := by
  cases rows with
  | nil => rfl
  | cons _ _ =>
      rw [takeLargest] at none
      split at none
      · cases none
      · split at none <;> cases none

theorem takeLargest_perm (found : takeLargest k rows = some (best, others)) : (best :: others).Perm rows := by
  induction rows generalizing best others with
  | nil => cases found
  | cons row rest ih =>
      rw [takeLargest] at found
      split at found
      · next none =>
          cases found
          rw [takeLargest_eq_none none]
      · next largest rest' found' =>
          split at found
          · cases found
            exact (List.Perm.swap _ _ _).trans ((ih found').cons row)
          · cases found
            exact List.Perm.refl _

theorem entry_scaled (c : ℚ) (row : Row ℚ) (j : Nat) : entry j (scaled c row) = entry j row * c := by
  rw [entry, scaled, List.getD_eq_getElem?_getD, List.getElem?_map, entry, List.getD_eq_getElem?_getD]
  cases row[j]? with
  | none => exact (zero_mul c).symm
  | some x => rfl

/-- Clearing subtracts a multiple of the pivot row. -/
theorem entry_clear (same : row.length = pivot.length) (k j : Nat) :
    entry j (clear k pivot row) = entry j row - entry k row * entry j pivot := by
  unfold clear
  dsimp only
  split
  · next zero =>
      rw [(isZero_rat _).mp zero]
      rw [zero_mul, sub_zero]
  · rw [entry, List.getD_eq_getElem?_getD, List.getElem?_zipWith]
    simp only [entry, List.getD_eq_getElem?_getD]
    by_cases inside : j < row.length
    · rw [List.getElem?_eq_getElem inside, List.getElem?_eq_getElem (same ▸ inside)]
      rfl
    · rw [List.getElem?_eq_none (not_lt.mp inside), List.getElem?_eq_none (same ▸ not_lt.mp inside)]
      change (0 : ℚ) = 0 - _ * 0
      rw [mul_zero, sub_zero]

theorem length_clear (same : row.length = pivot.length) (k : Nat) : (clear k pivot row).length = row.length := by
  unfold clear
  dsimp only
  split
  · rfl
  · rw [List.length_zipWith, same, Nat.min_self]

theorem length_scaled (c : ℚ) (row : Row ℚ) : (scaled c row).length = row.length := List.length_map _

end Rows

variable {V : List (Row ℚ)} {done rest : List (Row ℚ)} {k : Nat}

/-- Is the first half of a row the combination of the rows of a matrix with the coefficients in its second half? -/
structure Combined (V : List (Row ℚ)) (row : Row ℚ) : Prop where
  length : row.length = V.length + V.length
  entries : ∀ j < V.length, entry j row =
    ∑ i ∈ Finset.range V.length, entry (V.length + i) row * entry j (V.getD i [])

theorem Combined.scaled {row : Row ℚ} (combined : Combined V row) (c : ℚ) : Combined V (scaled c row) where
  length := (length_scaled c row).trans combined.length
  entries := by
    intro j inside
    rw [entry_scaled, combined.entries j inside, Finset.sum_mul]
    refine Finset.sum_congr rfl fun i _ => ?_
    rw [entry_scaled]
    ring

theorem Combined.clear {row pivot : Row ℚ} (combined : Combined V row) (combined' : Combined V pivot) (k : Nat) :
    Combined V (clear k pivot row) := by
  have same := combined.length.trans combined'.length.symm
  refine ⟨(length_clear same k).trans combined.length, fun j inside => ?_⟩
  rw [entry_clear same, combined.entries j inside, combined'.entries j inside, Finset.mul_sum, ← Finset.sum_sub_distrib]
  refine Finset.sum_congr rfl fun i _ => ?_
  rw [entry_clear same]
  ring

/-- The state of the elimination when `k` columns have been worked through. -/
structure Reduced (V : List (Row ℚ)) (k : Nat) (done rest : List (Row ℚ)) : Prop where
  combined : ∀ row ∈ done ++ rest, Combined V row
  count : done.length = k
  identity : ∀ i row, done[i]? = some row → ∀ j < k, entry j row = if i = j then 1 else 0
  cleared : ∀ row ∈ rest, ∀ j < k, entry j row = 0

/-- One more column becomes that of the identity. -/
theorem Reduced.step (reduced : Reduced V k done rest) {pivot : Row ℚ} {others : List (Row ℚ)}
    (found : takeLargest k rest = some (pivot, others)) (some : entry k pivot ≠ 0) :
    let unit := scaled (1 / entry k pivot) pivot
    Reduced V (k + 1) (done.map (clear k unit) ++ [unit]) (others.map (clear k unit)) := by
  intro unit
  have perm := takeLargest_perm found
  have among : ∀ row ∈ pivot :: others, row ∈ rest := fun row => perm.mem_iff.mp
  have own := (reduced.combined pivot (List.mem_append_right _ (among pivot List.mem_cons_self))).scaled (1 / entry k pivot)
  have first : ∀ j < k, entry j unit = 0 := by
    intro j inside
    rw [entry_scaled, reduced.cleared pivot (among pivot List.mem_cons_self) j inside]
    exact zero_mul _
  have one : entry k unit = 1 := by
    rw [entry_scaled]
    exact mul_one_div_cancel some
  have same : ∀ row ∈ done ++ rest, row.length = unit.length := fun row member =>
    (reduced.combined row member).length.trans own.length.symm
  refine ⟨?_, ?_, ?_, ?_⟩
  · intro row member
    rcases List.mem_append.mp member with earlier | later
    · rcases List.mem_append.mp earlier with before | last
      · obtain ⟨old, listed, rfl⟩ := List.mem_map.mp before
        exact (reduced.combined old (List.mem_append_left _ listed)).clear own k
      · exact List.mem_singleton.mp last ▸ own
    · obtain ⟨old, listed, rfl⟩ := List.mem_map.mp later
      exact (reduced.combined old (List.mem_append_right _ (among old (List.mem_cons_of_mem _ listed)))).clear own k
  · rw [List.length_append, List.length_map, reduced.count, List.length_singleton]
  · intro i row here j inside
    rcases Nat.lt_or_ge i k with before | last
    · rw [List.getElem?_append_left (by rw [List.length_map, reduced.count]; exact before), List.getElem?_map,
        Option.map_eq_some_iff] at here
      obtain ⟨row, here, rfl⟩ := here
      rw [entry_clear (same row (List.mem_append_left _ (List.mem_of_getElem? here)))]
      rcases Nat.lt_succ_iff_lt_or_eq.mp inside with earlier | rfl
      · rw [reduced.identity i row here j earlier, first j earlier, mul_zero, sub_zero]
      · rw [one, mul_one, sub_self, if_neg (by omega)]
    · rw [List.getElem?_append_right (by rw [List.length_map, reduced.count]; exact last), List.length_map, reduced.count,
        List.getElem?_singleton] at here
      split at here
      · next zero =>
          cases here
          have place : i = k := by omega
          subst place
          rcases Nat.lt_succ_iff_lt_or_eq.mp inside with earlier | rfl
          · rw [first j earlier, if_neg (by omega)]
          · rw [one, if_pos rfl]
      · cases here
  · intro row member j inside
    obtain ⟨old, kept, rfl⟩ := List.mem_map.mp member
    have listed := among old (List.mem_cons_of_mem _ kept)
    rw [entry_clear (same old (List.mem_append_right _ listed))]
    rcases Nat.lt_succ_iff_lt_or_eq.mp inside with earlier | rfl
    · rw [reduced.cleared old listed j earlier, first j earlier, mul_zero, sub_zero]
    · rw [one, mul_one, sub_self]

/-- After some more columns these are those of the identity, too. -/
theorem Reduced.columns {m : Nat} (reduced : Reduced V k done rest) {last : List (Row ℚ)}
    (finished : columns (List.range' k m) done rest = some last) : ∃ left, Reduced V (k + m) last left := by
  induction m generalizing k done rest with
  | zero =>
      cases finished
      exact ⟨rest, reduced⟩
  | succ m ih =>
      rw [List.range'_succ, Elimination.columns] at finished
      split at finished
      · cases finished
      · next pivot others found =>
          dsimp only at finished
          split at finished
          · cases finished
          · next some =>
              obtain ⟨left, final⟩ := ih (reduced.step found fun zero => some ((isZero_rat _).mpr zero)) finished
              exact ⟨left, by rwa [Nat.add_assoc, Nat.add_comm 1 m] at final⟩

/-! ### The inverse -/

theorem entry_unit (n i j : Nat) : entry j (unit n i : Row ℚ) = if i = j ∧ j < n then 1 else 0 := by
  rw [entry, unit, List.getD_eq_getElem?_getD, List.getElem?_map]
  by_cases inside : j < n
  · rw [List.getElem?_range inside]
    simp [inside]
  · rw [List.getElem?_eq_none (by simpa using inside)]
    simp [inside]

/-- The rows of a square matrix, each with a row of the identity. -/
theorem reduced_extended (square : ∀ row ∈ V, row.length = V.length) :
    Reduced V 0 [] (V.mapIdx fun i row => row ++ unit V.length i) := by
  refine ⟨?_, rfl, nofun, nofun⟩
  intro row member
  rw [List.nil_append, List.mem_mapIdx] at member
  obtain ⟨i, inside, rfl⟩ := member
  have length : V[i].length = V.length := square _ (List.getElem_mem inside)
  refine ⟨?_, fun j bound => ?_⟩
  · rw [List.length_append, length, unit, List.length_map, List.length_range]
  · have left : entry j (V[i] ++ unit V.length i) = entry j V[i] := by
      rw [entry, List.getD_append _ _ _ _ (length.symm ▸ bound), entry]
    have right (i' : Nat) : entry (V.length + i') (V[i] ++ unit V.length i) = entry i' (unit V.length i) := by
      rw [entry, List.getD_append_right _ _ _ _ (by omega), length, Nat.add_sub_cancel_left, entry]
    rw [left, Finset.sum_eq_single_of_mem i (Finset.mem_range.mpr inside) fun i' _ apart => ?_]
    · rw [right, entry_unit, if_pos ⟨rfl, inside⟩, one_mul, List.getD_eq_getElem _ _ inside]
    · rw [right, entry_unit, if_neg fun both => apart both.1.symm, zero_mul]

theorem reduced_of_inverse (square : ∀ row ∈ V, row.length = V.length) {C : List (Row ℚ)} (found : inverse? V = some C) :
    ∃ done left, Reduced V V.length done left ∧ C = done.map (·.drop V.length) := by
  obtain ⟨done, finished, rfl⟩ := Option.map_eq_some_iff.mp found
  rw [List.range_eq_range'] at finished
  obtain ⟨left, reduced⟩ := (reduced_extended square).columns finished
  rw [Nat.zero_add] at reduced
  exact ⟨done, left, reduced, rfl⟩

theorem length_inverse (square : ∀ row ∈ V, row.length = V.length) {C : List (Row ℚ)} (found : inverse? V = some C) :
    C.length = V.length := by
  obtain ⟨done, left, reduced, rfl⟩ := reduced_of_inverse square found
  rw [List.length_map, reduced.count]

/-- An inverse that is found is one: its rows combine those of the matrix to the rows of the identity. -/
theorem sum_inverse_left (square : ∀ row ∈ V, row.length = V.length) {C : List (Row ℚ)} (found : inverse? V = some C) :
    ∀ l < V.length, ∀ j < V.length,
      ∑ i ∈ Finset.range V.length, entry i (C.getD l []) * entry j (V.getD i []) = if l = j then 1 else 0 := by
  intro l first j second
  obtain ⟨done, left, reduced, rfl⟩ := reduced_of_inverse square found
  have inside : l < done.length := reduced.count.symm ▸ first
  have row : (done.map (·.drop V.length)).getD l [] = done[l].drop V.length := by
    rw [List.getD_eq_getElem _ _ (by rwa [List.length_map]), List.getElem_map]
  have coefficient (i : Nat) : entry i (done[l].drop V.length) = entry (V.length + i) done[l] := by
    rw [entry, entry, List.getD_eq_getElem?_getD, List.getD_eq_getElem?_getD, List.getElem?_drop]
  rw [← reduced.identity l done[l] (List.getElem?_eq_getElem inside) j second,
    (reduced.combined done[l] (List.mem_append_left _ (List.getElem_mem inside))).entries j second, row]
  exact Finset.sum_congr rfl fun i _ => by rw [coefficient]

/-- The inverse is one on either side. -/
theorem sum_inverse_right (square : ∀ row ∈ V, row.length = V.length) {C : List (Row ℚ)} (found : inverse? V = some C) :
    ∀ l < V.length, ∀ j < V.length,
      ∑ i ∈ Finset.range V.length, entry i (V.getD l []) * entry j (C.getD i []) = if l = j then 1 else 0 := by
  let matrix (rows : List (Row ℚ)) : Matrix (Fin V.length) (Fin V.length) ℚ := fun i j => entry j (rows.getD i [])
  have product : matrix C * matrix V = 1 := by
    ext l j
    rw [Matrix.mul_apply, Matrix.one_apply]
    simp only [matrix, Fin.ext_iff]
    rw [Fin.sum_univ_eq_sum_range fun i => entry i (C.getD l []) * entry j (V.getD i [])]
    exact sum_inverse_left square found l l.isLt j j.isLt
  intro l first j second
  have other : matrix V * matrix C = 1 := mul_eq_one_comm.mp product
  have entries := congrFun (congrFun other ⟨l, first⟩) ⟨j, second⟩
  rw [Matrix.mul_apply, Matrix.one_apply] at entries
  simp only [matrix, Fin.mk.injEq] at entries
  rwa [Fin.sum_univ_eq_sum_range fun i => entry i (V.getD l []) * entry j (C.getD i [])] at entries

/-! ### Matrices that have an inverse -/

/-- Does the combination of the first `n` entries of a row with some coefficients vanish? -/
def Kills (n : Nat) (v : Nat → ℚ) (row : Row ℚ) : Prop := ∑ j ∈ Finset.range n, entry j row * v j = 0

/-- No combination of the first `n` columns vanishes but the one without coefficients. -/
def Independent (n : Nat) (rows : List (Row ℚ)) : Prop := ∀ v, (∀ row ∈ rows, Kills n v row) → ∀ j < n, v j = 0

theorem abs_rat (x : ℚ) : Arithmetic.abs x = |x| := by
  unfold Arithmetic.abs
  by_cases negative : x < 0
  · exact (if_pos negative).trans (abs_of_neg negative).symm
  · exact (if_neg negative).trans (abs_of_nonneg (not_lt.mp negative)).symm

theorem takeLargest_largest {rows others : List (Row ℚ)} {best : Row ℚ} (found : takeLargest k rows = some (best, others)) :
    ∀ row ∈ rows, |entry k row| ≤ |entry k best| := by
  induction rows generalizing best others with
  | nil => exact List.forall_mem_nil _
  | cons row rest ih =>
      rw [takeLargest] at found
      split at found
      · next none =>
          cases found
          rw [takeLargest_eq_none none]
          exact List.forall_mem_singleton.mpr le_rfl
      · next largest rest' found' =>
          have bound := ih found'
          rw [abs_rat, abs_rat] at found
          split at found
          · next larger =>
              cases found
              exact List.forall_mem_cons.mpr ⟨larger.le, bound⟩
          · next smaller =>
              cases found
              exact List.forall_mem_cons.mpr ⟨le_rfl, fun other member => (bound other member).trans (not_lt.mp smaller)⟩

theorem Kills.of_scaled {n : Nat} {v : Nat → ℚ} {row : Row ℚ} {c : ℚ} (kills : Kills n v (scaled c row)) (some : c ≠ 0) :
    Kills n v row := by
  have factored : (∑ j ∈ Finset.range n, entry j row * v j) * c = 0 := by
    rw [Finset.sum_mul, ← kills]
    exact Finset.sum_congr rfl fun j _ => by rw [entry_scaled]; ring
  exact (mul_eq_zero.mp factored).resolve_right some

theorem Kills.of_clear {n : Nat} {v : Nat → ℚ} {row pivot : Row ℚ} (same : row.length = pivot.length)
    (kills : Kills n v (clear k pivot row)) (pivoted : Kills n v pivot) : Kills n v row := by
  have split : ∑ j ∈ Finset.range n, entry j (clear k pivot row) * v j =
      ∑ j ∈ Finset.range n, entry j row * v j - entry k row * ∑ j ∈ Finset.range n, entry j pivot * v j := by
    rw [Finset.mul_sum, ← Finset.sum_sub_distrib]
    exact Finset.sum_congr rfl fun j _ => by rw [entry_clear same]; ring
  rw [kills, pivoted, mul_zero, sub_zero] at split
  exact split.symm

/-- Clearing a column keeps the rows independent. -/
theorem Independent.step {n : Nat} (independent : Independent n (done ++ rest)) {pivot : Row ℚ} {others : List (Row ℚ)}
    (found : takeLargest k rest = some (pivot, others)) (some : entry k pivot ≠ 0)
    (same : ∀ row ∈ done ++ rest, row.length = pivot.length) :
    let unit := scaled (1 / entry k pivot) pivot
    Independent n ((done.map (clear k unit) ++ [unit]) ++ others.map (clear k unit)) := by
  intro unit v killed
  have own : Kills n v unit := killed unit (by simp)
  have length : ∀ row ∈ done ++ rest, row.length = unit.length := fun row member =>
    (same row member).trans (length_scaled _ _).symm
  refine independent v fun row member => ?_
  rcases List.mem_append.mp member with before | later
  · exact (killed (clear k unit row) (by simp [List.mem_map_of_mem before])).of_clear (length row member) own
  · rcases List.mem_cons.mp ((takeLargest_perm found).mem_iff.mpr later) with rfl | other
    · exact own.of_scaled (one_div_ne_zero some)
    · exact (killed (clear k unit row) (by simp [List.mem_map_of_mem other])).of_clear (length row member) own

/-- There is a pivot in the next column: without one, this column would be a combination of those before it. -/
theorem Reduced.exists_pivot (reduced : Reduced V k done rest) {n : Nat} (inside : k < n)
    (independent : Independent n (done ++ rest)) : ∃ row ∈ rest, entry k row ≠ 0 := by
  by_contra none
  push Not at none
  have killed := independent (fun j => if j < k then -entry k (done.getD j []) else if j = k then 1 else 0) ?_ k inside
  · simp at killed
  intro row member
  rw [Kills, ← Finset.sum_subset (Finset.range_subset_range.mpr (Nat.succ_le_of_lt inside)) fun j _ outside => ?_,
    Finset.sum_range_succ, if_neg (lt_irrefl k), if_pos rfl, mul_one,
    Finset.sum_congr rfl fun j before => by rw [if_pos (Finset.mem_range.mp before)]]
  · rcases List.mem_append.mp member with before | later
    · obtain ⟨i, bound, rfl⟩ := List.mem_iff_getElem.mp before
      have own : i ∈ Finset.range k := Finset.mem_range.mpr (reduced.count ▸ bound)
      rw [Finset.sum_congr rfl fun j earlier => by
          rw [reduced.identity i _ (List.getElem?_eq_getElem bound) j (Finset.mem_range.mp earlier)],
        Finset.sum_eq_single_of_mem i own fun j _ apart => by rw [if_neg apart.symm, zero_mul], if_pos rfl, one_mul,
        List.getD_eq_getElem _ _ bound, neg_add_cancel]
    · rw [none row later, Finset.sum_eq_zero fun j earlier => by
        rw [reduced.cleared row later j (Finset.mem_range.mp earlier), zero_mul], add_zero]
  · have beyond : k < j := by simpa using outside
    rw [if_neg (by omega), if_neg (by omega), mul_zero]

theorem columns_isSome {n m : Nat} (reduced : Reduced V k done rest) (inside : k + m ≤ n)
    (independent : Independent n (done ++ rest)) : ∃ last, columns (List.range' k m) done rest = some last := by
  induction m generalizing k done rest with
  | zero => exact ⟨done, rfl⟩
  | succ m ih =>
      obtain ⟨row, listed, nonzero⟩ := reduced.exists_pivot (by omega) independent
      rw [List.range'_succ, Elimination.columns]
      cases found : takeLargest k rest with
      | none =>
          rw [takeLargest_eq_none found] at listed
          cases listed
      | some taken =>
          obtain ⟨pivot, others⟩ := taken
          have some : entry k pivot ≠ 0 := fun zero => by
            have bound := takeLargest_largest found row listed
            rw [zero, abs_zero] at bound
            exact nonzero (abs_nonpos_iff.mp bound)
          have member : pivot ∈ done ++ rest :=
            List.mem_append_right _ ((takeLargest_perm found).mem_iff.mp List.mem_cons_self)
          have same : ∀ row ∈ done ++ rest, row.length = pivot.length := fun row listed =>
            (reduced.combined row listed).length.trans (reduced.combined pivot member).length.symm
          dsimp only
          rw [if_neg fun zero => some ((isZero_rat _).mp zero)]
          exact ih (reduced.step found some) (by omega) (independent.step found some same)

/-- The inverse is found for every square matrix with independent columns. -/
theorem exists_inverse (square : ∀ row ∈ V, row.length = V.length) (independent : Independent V.length V) :
    ∃ C, inverse? V = some C := by
  have extended : Independent V.length ([] ++ V.mapIdx fun i row => row ++ unit V.length i) := by
    intro v killed
    refine independent v fun row member => ?_
    obtain ⟨i, bound, rfl⟩ := List.mem_iff_getElem.mp member
    rw [Kills, ← killed (V[i] ++ unit V.length i) (List.mem_mapIdx.mpr ⟨i, bound, rfl⟩)]
    refine Finset.sum_congr rfl fun j within => ?_
    rw [entry, entry, List.getD_append _ _ _ _ (by rw [square _ member]; exact Finset.mem_range.mp within)]
  obtain ⟨last, finished⟩ := columns_isSome (reduced_extended square) (Nat.zero_add _).le extended
  exact ⟨last.map (·.drop V.length), by rw [inverse?, List.range_eq_range', finished]; rfl⟩

/-- The columns of a matrix with an inverse are independent. -/
theorem independent_of_inverse (square : ∀ row ∈ V, row.length = V.length) {C : List (Row ℚ)} (found : inverse? V = some C) :
    Independent V.length V := by
  intro v killed l inside
  calc v l = ∑ j ∈ Finset.range V.length, (if l = j then 1 else 0) * v j := by
        rw [Finset.sum_eq_single_of_mem l (Finset.mem_range.mpr inside) fun j _ apart => by rw [if_neg apart.symm, zero_mul],
          if_pos rfl, one_mul]
    _ = ∑ j ∈ Finset.range V.length,
          (∑ i ∈ Finset.range V.length, entry i (C.getD l []) * entry j (V.getD i [])) * v j :=
        Finset.sum_congr rfl fun j within => by rw [sum_inverse_left square found l inside j (Finset.mem_range.mp within)]
    _ = ∑ i ∈ Finset.range V.length,
          entry i (C.getD l []) * ∑ j ∈ Finset.range V.length, entry j (V.getD i []) * v j := by
        simp only [Finset.sum_mul, Finset.mul_sum, mul_assoc]
        exact Finset.sum_comm
    _ = 0 := Finset.sum_eq_zero fun i within => by
        have bound := Finset.mem_range.mp within
        have zero : Kills V.length v (V.getD i []) :=
          killed _ (by rw [List.getD_eq_getElem _ _ bound]; exact List.getElem_mem bound)
        rw [zero, mul_zero]

end Galerkin.Linear.Elimination
