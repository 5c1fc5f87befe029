import Mathlib
import Galerkin.Proofs.Entries
import Galerkin.Proofs.Kernel.Accumulation
import Galerkin.Proofs.Outcome

/-!
What a kernel computes for an element: at every point the slots have the values of what they stand for,
and residual and tangent are sums over points and unknowns. What buffers held before a point never shows.
-/

namespace Galerkin

open Finset

/-- The basis function of a control point, or its derivative along an axis. -/
def PointData.basisAt (p : PointData ℝ) (axis : Option Nat) (a : Nat) : ℝ :=
  match axis with
  | none => p.basis.getD a 0
  | some j => (p.gradients.getD a []).getD j 0

namespace NodalValues

def entry (v : NodalValues ℝ) (e a c : Nat) : ℝ := v.data.getD ((e * v.points + a) * v.width + c) 0

/-- The value of a component at a point of element `e`, or its derivative along an axis. -/
noncomputable def interpolate (v : NodalValues ℝ) (count e column : Nat) (p : PointData ℝ)
    (axis : Option Nat) : ℝ :=
  ∑ a ∈ range count, p.basisAt axis a * v.entry e a column

theorem get_eq_ok {v : NodalValues ℝ} {e a c : Nat} {x : ℝ} (done : v.get e a c = .ok x) :
    a < v.points ∧ c < v.width ∧ x = v.entry e a c := by
  unfold get at done
  split at done
  · next bounds =>
      split at done
      · next y found =>
          cases done
          refine ⟨bounds.2.1, bounds.2.2, ?_⟩
          rw [entry, Array.getD_eq_getD_getElem?, found]
          rfl
      · cases done
  · cases done

end NodalValues

namespace Kernel

theorem basisRow_eq_ok {p : PointData ℝ} {axis : Option Nat} {row : List ℝ}
    (done : basisRow p axis = .ok row) (a : Nat) : row.getD a 0 = p.basisAt axis a := by
  cases axis with
  | none =>
      cases done
      rfl
  | some j =>
      have matched := Outcome.mapM_eq_ok.mp done
      rw [PointData.basisAt]
      generalize p.gradients = gradients at matched
      clear done
      induction matched generalizing a with
      | nil => rfl
      | @cons g d gs ds first _ ih =>
          cases a with
          | zero =>
              split at first
              · next x found =>
                  cases first
                  simp [List.getD, found]
              · cases first
          | succ a => exact ih a

theorem interpolated_eq_ok {values : NodalValues ℝ} {e column : Nat} {row : List ℝ} {x : ℝ}
    (done : interpolated values e column row = .ok x) :
    (∀ a < row.length, a < values.points ∧ column < values.width) ∧
      x = ∑ a ∈ range values.points, row.getD a 0 * values.entry e a column := by
  rcases Outcome.bind_eq_ok.mp done with ⟨terms, mapped, sum⟩
  cases sum
  have matched := Outcome.mapM_eq_ok.mp mapped
  have each : List.Forall₂ (fun t y => (t.2 < values.points ∧ column < values.width) ∧
      y = t.1 * values.entry e t.2 column) row.zipIdx terms := by
    refine matched.imp fun t y term => ?_
    rcases Outcome.bind_eq_ok.mp term with ⟨z, got, product⟩
    cases product
    rcases NodalValues.get_eq_ok got with ⟨point, inside, rfl⟩
    exact ⟨⟨point, inside⟩, rfl⟩
  have bounds : ∀ a < row.length, a < values.points ∧ column < values.width := by
    intro a inside
    have member : (row[a], a) ∈ row.zipIdx := by
      rw [List.mk_mem_zipIdx_iff_getElem?]
      exact List.getElem?_eq_getElem inside
    rcases Outcome.exists_of_matched_left each member with ⟨y, _, fits, _⟩
    exact fits
  refine ⟨bounds, ?_⟩
  have short : row.length ≤ values.points := by
    by_contra long
    exact absurd (bounds values.points (by omega)).1 (lt_irrefl _)
  have products : terms.map id = row.zipIdx.map fun t => t.1 * values.entry e t.2 column :=
    Outcome.map_eq_of_matched (each.imp fun _ _ term => term.2)
  rw [List.map_id] at products
  rw [← sum_zipIdx short, total_eq_sum, products]

/-- Do all values come for `count` control points with as many components as the kernel has? -/
structure Inputs.Shaped (k : Kernel) (count : Nat) (inputs : Inputs ℝ) : Prop where
  statePoints : inputs.state.points = count
  stateWidth : inputs.state.width = k.width
  ratePoints : inputs.rate.points = count
  rateWidth : inputs.rate.width = k.width
  externalPoints : inputs.external.points = count

/-- The value of a slot at a point of element `e`. -/
noncomputable def reading (inputs : Inputs ℝ) (count e : Nat) (p : PointData ℝ) (s : Slot) : ℝ :=
  match s.source with
  | .param => inputs.params.getD s.column 0
  | .normal => p.normal.getD s.column 0
  | .value => inputs.state.interpolate count e s.column p s.axis
  | .rate => inputs.rate.interpolate count e s.column p s.axis
  | .external => inputs.external.interpolate count e s.column p s.axis

section Readings

variable {k : Kernel} {count e : Nat} {inputs : Inputs ℝ} {p : PointData ℝ}

theorem interpolated_basis {values : NodalValues ℝ} (points : values.points = count) {column : Nat}
    {axis : Option Nat} {x : ℝ}
    (done : (do interpolated values e column (← basisRow p axis)) = .ok x) :
    ∃ row, basisRow p axis = .ok row ∧ (∀ a < row.length, a < count ∧ column < values.width) ∧
      x = values.interpolate count e column p axis := by
  rcases Outcome.bind_eq_ok.mp done with ⟨row, found, value⟩
  rcases interpolated_eq_ok value with ⟨bounds, sum⟩
  rw [points] at bounds sum
  refine ⟨row, found, bounds, sum.trans (sum_congr rfl fun a _ => ?_)⟩
  rw [basisRow_eq_ok found]

theorem slotValue_eq_ok (shaped : inputs.Shaped k count) {s : Slot} {x : ℝ}
    (done : slotValue inputs e p s = .ok x) : x = reading inputs count e p s := by
  unfold slotValue at done
  unfold reading
  cases source : s.source with
  | param =>
      simp only [source] at done
      split at done
      · next y found =>
          cases done
          simp [List.getD, found]
      · cases done
  | normal =>
      simp only [source] at done
      split at done
      · next y found =>
          cases done
          simp [List.getD, found]
      · cases done
  | value =>
      rw [source] at done
      rcases interpolated_basis shaped.statePoints done with ⟨_, _, _, value⟩
      exact value
  | rate =>
      rw [source] at done
      rcases interpolated_basis shaped.ratePoints done with ⟨_, _, _, value⟩
      exact value
  | external =>
      rw [source] at done
      rcases interpolated_basis shaped.externalPoints done with ⟨_, _, _, value⟩
      exact value

/-- What is read for an unknown lies within the element. -/
theorem row_of_slotValue (shaped : inputs.Shaped k count) {s : Slot} (unknown : s.isUnknown) {x : ℝ}
    (done : slotValue inputs e p s = .ok x) {row : List ℝ} (found : basisRow p s.axis = .ok row) :
    ∀ a < row.length, a < count ∧ s.column < k.width := by
  unfold slotValue at done
  cases source : s.source with
  | value =>
      rw [source] at done
      rcases interpolated_basis shaped.statePoints done with ⟨row', found', bounds, _⟩
      cases found.symm.trans found'
      rw [shaped.stateWidth] at bounds
      exact bounds
  | rate =>
      rw [source] at done
      rcases interpolated_basis shaped.ratePoints done with ⟨row', found', bounds, _⟩
      cases found.symm.trans found'
      rw [shaped.rateWidth] at bounds
      exact bounds
  | external => simp [Slot.isUnknown, source] at unknown
  | param => simp [Slot.isUnknown, source] at unknown
  | normal => simp [Slot.isUnknown, source] at unknown

end Readings

/-! ### Buffers -/

/-- The keys of a kernel's densities, and the slots of its unknowns. -/
structure Keyed (k : Kernel) : Prop where
  residual : (k.residual.map (·.1)).Nodup
  residualBound : ∀ i ∈ k.residual.map (·.1), i < k.unknownCount
  tangent : (k.tangent.map (·.1)).Nodup
  tangentBound : ∀ i ∈ k.tangent.map (·.1), i.1 < k.unknownCount ∧ i.2 < k.unknownCount
  unknown : ∀ i < k.unknownCount, ∃ s, k.slots[i]? = some s ∧ s.isUnknown

/-- Buffers between two points: entries that are never written are zero. -/
structure Clean (k : Kernel) (w : Workspace ℝ) : Prop where
  densities : w.densities.size = k.unknownCount
  slopes : w.slopes.size = k.unknownCount * k.unknownCount
  noDensity : ∀ i < k.unknownCount, i ∉ k.residual.map (·.1) → w.densities.getD i 0 = 0
  noSlope : ∀ i < k.unknownCount, ∀ j < k.unknownCount, (i, j) ∉ k.tangent.map (·.1) →
    w.slopes.getD (i * k.unknownCount + j) 0 = 0

theorem size_foldl_set {κ β : Type} (place : κ → Nat) (value : β → ℝ) (entries : List (κ × β))
    (xs : Array ℝ) :
    (entries.foldl (fun xs t => xs.setIfInBounds (place t.1) (value t.2)) xs).size = xs.size := by
  induction entries generalizing xs with
  | nil => rfl
  | cons head tail ih => rw [List.foldl_cons, ih, Array.size_setIfInBounds]

section Writing

variable {κ β : Type} (place : κ → Nat) (value : β → ℝ) {entries : List (κ × β)} {key : κ}

theorem getD_foldl_set_of_notMem
    (apart : ∀ other ∈ entries.map (·.1), place other ≠ place key) (xs : Array ℝ) :
    (entries.foldl (fun xs t => xs.setIfInBounds (place t.1) (value t.2)) xs).getD (place key) 0 =
      xs.getD (place key) 0 := by
  induction entries generalizing xs with
  | nil => rfl
  | cons head tail ih =>
      have other := apart head.1 List.mem_cons_self
      rw [List.foldl_cons, ih fun other member => apart other (List.mem_cons_of_mem _ member)]
      rw [Array.getD_eq_getD_getElem?, Array.getD_eq_getD_getElem?, Array.getElem?_setIfInBounds_ne other]

theorem getD_foldl_set_of_mem [DecidableEq κ] (distinct : (entries.map (·.1)).Nodup)
    (apart : ∀ other ∈ entries.map (·.1), place other = place key → other = key)
    (member : key ∈ entries.map (·.1)) (xs : Array ℝ) (inside : place key < xs.size) :
    (entries.foldl (fun xs t => xs.setIfInBounds (place t.1) (value t.2)) xs).getD (place key) 0 =
      sumAt value entries key := by
  induction entries generalizing xs with
  | nil => cases member
  | cons head tail ih =>
      rw [List.map_cons, List.nodup_cons] at distinct
      rw [List.foldl_cons, sumAt_cons]
      by_cases same : head.1 = key
      · subst same
        rw [if_pos rfl, sumAt_of_notMem distinct.1, add_zero, getD_foldl_set_of_notMem]
        · simp [Array.getD, inside]
        · intro other later equal
          exact distinct.1 (apart other (List.mem_cons_of_mem _ later) equal ▸ later)
      · have later : key ∈ tail.map (·.1) := (List.mem_cons.mp member).resolve_left (Ne.symm same)
        rw [if_neg same, zero_add]
        exact ih distinct.2 (fun other member => apart other (List.mem_cons_of_mem _ member)) later _
          (by rw [Array.size_setIfInBounds]; exact inside)

end Writing

theorem clean_zero (k : Kernel) (size : Nat) : Clean k (.zero k.unknownCount size) where
  densities := Array.size_replicate
  slopes := Array.size_replicate
  noDensity := fun i inside _ => by simp [Workspace.zero, Array.getD, inside]
  noSlope := fun i row j column _ => by
    simp [Workspace.zero, Array.getD, entry_lt row column]

section Points

variable {k : Kernel} {count e : Nat} {inputs : Inputs ℝ} {p : PointData ℝ} {w w' : Workspace ℝ}

/-- The value of a density, given the values of slots and temporaries. -/
noncomputable def densityOf {κ : Type} [DecidableEq κ] (values : Array ℝ) (entries : List (κ × Formula Nat))
    (key : κ) : ℝ :=
  sumAt (Formula.eval fun n => values.getD n 0) entries key

theorem position_injective {n : Nat} {s t : Nat × Nat} (left : s.2 < n) (right : t.2 < n)
    (same : s.1 * n + s.2 = t.1 * n + t.2) : s = t := by
  have first : s.1 = t.1 := by
    rcases lt_trichotomy s.1 t.1 with less | equal | more
    · have step : (s.1 + 1) * n ≤ t.1 * n := Nat.mul_le_mul_right n less
      rw [Nat.add_mul] at step
      omega
    · exact equal
    · have step : (t.1 + 1) * n ≤ s.1 * n := Nat.mul_le_mul_right n more
      rw [Nat.add_mul] at step
      omega
  rw [first] at same
  exact Prod.ext first (by omega)

/-- Writing the densities of a point leaves nothing of the point before. -/
theorem assign_spec (keyed : Keyed k) (clean : Clean k w) (values : Array ℝ) :
    Clean k (k.assign values w) ∧
      (∀ i < k.unknownCount, (k.assign values w).densities.getD i 0 = densityOf values k.residual i) ∧
      ∀ i < k.unknownCount, ∀ j < k.unknownCount,
        (k.assign values w).slopes.getD (i * k.unknownCount + j) 0 = densityOf values k.tangent (i, j) := by
  let value := Formula.eval fun n => values.getD n 0
  let place := fun key : Nat × Nat => key.1 * k.unknownCount + key.2
  have apart {j : Nat} (i : Nat) (column : j < k.unknownCount) :
      ∀ other ∈ k.tangent.map (·.1), place other = place (i, j) → other = (i, j) :=
    fun other member => position_injective (keyed.tangentBound other member).2 column
  have noDensity : ∀ i < k.unknownCount, i ∉ k.residual.map (·.1) →
      (k.assign values w).densities.getD i 0 = 0 := by
    intro i inside absent
    refine (getD_foldl_set_of_notMem id value ?_ w.densities).trans
      (clean.noDensity i inside absent)
    rintro other member (same : other = i)
    exact absent (same ▸ member)
  have noSlope : ∀ i < k.unknownCount, ∀ j < k.unknownCount, (i, j) ∉ k.tangent.map (·.1) →
      (k.assign values w).slopes.getD (i * k.unknownCount + j) 0 = 0 := by
    intro i row j column absent
    refine (getD_foldl_set_of_notMem place value (?_ : ∀ other ∈ _, place other ≠ place (i, j)) w.slopes).trans
      (clean.noSlope i row j column absent)
    intro other member same
    exact absent (apart i column other member same ▸ member)
  refine ⟨⟨?_, ?_, noDensity, noSlope⟩, ?_, ?_⟩
  · exact (size_foldl_set id value k.residual w.densities).trans clean.densities
  · exact (size_foldl_set place value k.tangent w.slopes).trans clean.slopes
  · intro i inside
    by_cases member : i ∈ k.residual.map (·.1)
    · exact getD_foldl_set_of_mem id value keyed.residual (fun _ _ same => same) member
        w.densities (clean.densities.symm ▸ inside)
    · exact (noDensity i inside member).trans (sumAt_of_notMem member).symm
  · intro i row j column
    by_cases member : (i, j) ∈ k.tangent.map (·.1)
    · exact getD_foldl_set_of_mem place value keyed.tangent (apart i column) member w.slopes
        (clean.slopes.symm ▸ entry_lt row column)
    · exact (noSlope i row j column member).trans (sumAt_of_notMem member).symm

/-! ### Points and elements -/

/-- The values of slots and temporaries at a point of element `e`. -/
noncomputable def pointValues (k : Kernel) (inputs : Inputs ℝ) (count e : Nat) (p : PointData ℝ) : Array ℝ :=
  k.withTemporaries (k.slots.map (reading inputs count e p)).toArray

/-- The axis of the derivative that a slot reads. -/
def axisOf (k : Kernel) (i : Nat) : Option Nat := k.slots[i]?.bind (·.axis)

/-- The sum over the control points of the basis that an unknown is interpolated with, each with the
weight of the local unknown it multiplies. -/
noncomputable def tested (k : Kernel) (count : Nat) (φ : Nat → ℝ) (p : PointData ℝ) (i : Nat) : ℝ :=
  ∑ a ∈ range count, p.basisAt (k.axisOf i) a * φ (a * k.width + k.column i)

noncomputable def pointResidual (k : Kernel) (inputs : Inputs ℝ) (count e : Nat) (φ : Nat → ℝ)
    (p : PointData ℝ) : ℝ :=
  ∑ i ∈ range k.unknownCount, p.weight * densityOf (k.pointValues inputs count e p) k.residual i *
    k.tested count φ p i

/-- `ρ` weighs the entries of the tangent by row and column. -/
noncomputable def pointTangent (k : Kernel) (inputs : Inputs ℝ) (rateWeight : ℝ) (count e : Nat)
    (ρ : Nat → Nat → ℝ) (p : PointData ℝ) : ℝ :=
  ∑ i ∈ range k.unknownCount, ∑ j ∈ range k.unknownCount,
    p.weight * (densityOf (k.pointValues inputs count e p) k.tangent (i, j) *
        if k.isRate j then rateWeight else 1) *
      k.tested count (fun r => k.tested count (ρ r) p j) p i

theorem mapM_toArray_eq_ok {α β : Type} {f : α → Except Failure β} {xs : List α} {ys : Array β}
    (done : xs.toArray.mapM f = .ok ys) : List.Forall₂ (fun x y => f x = .ok y) xs ys.toList := by
  rw [List.mapM_toArray, Outcome.map_eq_ok] at done
  rcases done with ⟨list, mapped, rfl⟩
  exact Outcome.mapM_eq_ok.mp mapped

/-- What a point adds, if its slots can be read. -/
theorem addPoint_eq_ok (keyed : Keyed k) (shaped : inputs.Shaped k count) (clean : Clean k w)
    {rateWeight : ℝ} (done : k.addPoint inputs rateWeight (count * k.width) e w p = .ok w') :
    Clean k w' ∧
      (w.residual.size = count * k.width → w'.residual.size = count * k.width ∧
        ∀ φ, weighted φ w'.residual = weighted φ w.residual + k.pointResidual inputs count e φ p) ∧
      (w.tangent.size = count * k.width * (count * k.width) →
        w'.tangent.size = count * k.width * (count * k.width) ∧
        ∀ ρ, weighted (onSquare (count * k.width) ρ) w'.tangent =
          weighted (onSquare (count * k.width) ρ) w.tangent +
            k.pointTangent inputs rateWeight count e ρ p) := by
  rcases Outcome.bind_eq_ok.mp done with ⟨values, valued, rest⟩
  rcases Outcome.bind_eq_ok.mp rest with ⟨rows, rowed, result⟩
  have valuesMatched := mapM_toArray_eq_ok valued
  have rowsMatched := mapM_toArray_eq_ok rowed
  have readings : values = (k.slots.map (reading inputs count e p)).toArray := by
    have lists : values.toList.map id = k.slots.map (reading inputs count e p) :=
      Outcome.map_eq_of_matched (valuesMatched.imp fun _ _ value => slotValue_eq_ok shaped value)
    rw [List.map_id] at lists
    rw [← lists, Array.toArray_toList]
  have unknownRow : ∀ i < k.unknownCount, ∃ s, k.slots[i]? = some s ∧
      basisRow p s.axis = .ok (rows.getD i []) ∧
      ∀ a < (rows.getD i []).length, a < count ∧ s.column < k.width := by
    intro i unknown
    rcases keyed.unknown i unknown with ⟨s, here, isUnknown⟩
    rcases Outcome.getElem?_of_matched valuesMatched here with ⟨x, _, value⟩
    rcases Outcome.getElem?_of_matched rowsMatched here with ⟨row, there, found⟩
    have same : rows.getD i [] = row := by
      rw [Array.getElem?_toList] at there
      rw [Array.getD_eq_getD_getElem?, there]
      rfl
    rw [same]
    exact ⟨s, here, found, row_of_slotValue shaped isUnknown value found⟩
  have fitting : Fitting k count rows := by
    constructor
    · intro i unknown
      rcases unknownRow i unknown with ⟨s, _, _, bounds⟩
      by_contra long
      exact absurd (bounds count (by omega)).1 (lt_irrefl _)
    · intro i unknown a inside
      rcases unknownRow i unknown with ⟨s, here, _, bounds⟩
      rw [column, here]
      exact (bounds a inside).2
  have test : ∀ i < k.unknownCount, ∀ φ,
      along φ (k.column i) k.width count (rows.getD i []) = k.tested count φ p i := by
    intro i unknown φ
    rcases unknownRow i unknown with ⟨s, here, found, _⟩
    refine sum_congr rfl fun a _ => ?_
    rw [basisRow_eq_ok found, axisOf, here]
    rfl
  rcases assign_spec keyed clean (k.withTemporaries values) with ⟨cleaned, densities, slopes⟩
  cases result
  refine ⟨⟨cleaned.densities, cleaned.slopes, cleaned.noDensity, cleaned.noSlope⟩, ?_, ?_⟩
  · intro size
    have added := fun φ => adds_addDensities fitting p.weight
      (k.assign (k.withTemporaries values) w).densities φ w.residual size
    refine ⟨(added 0).1, fun φ => (added φ).2.trans (congrArg _ (sum_congr rfl fun i member => ?_))⟩
    have unknown := mem_range.mp member
    rw [densities i unknown, test i unknown, pointValues, ← readings]
  · intro size
    have added := fun ρ => adds_addSlopes fitting p.weight rateWeight
      (k.assign (k.withTemporaries values) w).slopes ρ w.tangent size
    refine ⟨(added 0).1, fun ρ => (added ρ).2.trans (congrArg _ (sum_congr rfl fun i row => ?_))⟩
    refine sum_congr rfl fun j column => ?_
    have left := mem_range.mp row
    have right := mem_range.mp column
    rw [slopes i left j right, test i left, pointValues, ← readings]
    simp only [test j right]

/-- A workspace that holds the shares of some points. -/
structure Gathered (k : Kernel) (inputs : Inputs ℝ) (rateWeight : ℝ) (count e : Nat)
    (points : List (PointData ℝ)) (w : Workspace ℝ) : Prop where
  clean : Clean k w
  residualSize : w.residual.size = count * k.width
  tangentSize : w.tangent.size = count * k.width * (count * k.width)
  residual : ∀ φ, weighted φ w.residual = (points.map (k.pointResidual inputs count e φ)).sum
  tangent : ∀ ρ, weighted (onSquare (count * k.width) ρ) w.tangent =
    (points.map (k.pointTangent inputs rateWeight count e ρ)).sum

theorem Gathered.zero (k : Kernel) (inputs : Inputs ℝ) (rateWeight : ℝ) (count e : Nat) :
    Gathered k inputs rateWeight count e [] (.zero k.unknownCount (count * k.width)) where
  clean := clean_zero k _
  residualSize := Array.size_replicate
  tangentSize := Array.size_replicate
  residual φ := by
    rw [Workspace.zero, weighted_replicate]
    rfl
  tangent ρ := by
    rw [Workspace.zero, weighted_replicate]
    rfl

theorem Gathered.add (keyed : Keyed k) (shaped : inputs.Shaped k count) {rateWeight : ℝ}
    {points : List (PointData ℝ)} (before : Gathered k inputs rateWeight count e points w)
    (added : k.addPoint inputs rateWeight (count * k.width) e w p = .ok w') :
    Gathered k inputs rateWeight count e (points ++ [p]) w' := by
  rcases addPoint_eq_ok keyed shaped before.clean added with ⟨clean, toResidual, toTangent⟩
  rcases toResidual before.residualSize with ⟨residualSize, residual⟩
  rcases toTangent before.tangentSize with ⟨tangentSize, tangent⟩
  refine ⟨clean, residualSize, tangentSize, fun φ => ?_, fun ρ => ?_⟩
  · rw [residual, before.residual, List.map_append, List.sum_append, List.map_singleton, List.sum_singleton]
  · rw [tangent, before.tangent, List.map_append, List.sum_append, List.map_singleton, List.sum_singleton]

/-- The system of an element, entry by entry: both sums run over all points, and only what a point itself
reads enters its share. -/
theorem elementSystem_eq_ok (keyed : Keyed k) (shaped : inputs.Shaped k count) {rateWeight : ℝ}
    {points : List (PointData ℝ)} {sys : ElementSystem ℝ}
    (done : k.elementSystem inputs rateWeight count e points = .ok sys) :
    ∃ residual tangent : Array ℝ,
      sys = ⟨residual.toList, (List.range (count * k.width)).map fun r =>
        (tangent.extract (r * (count * k.width)) ((r + 1) * (count * k.width))).toList⟩ ∧
      residual.size = count * k.width ∧ tangent.size = count * k.width * (count * k.width) ∧
      (∀ φ, weighted φ residual = (points.map (k.pointResidual inputs count e φ)).sum) ∧
      ∀ ρ, weighted (onSquare (count * k.width) ρ) tangent =
        (points.map (k.pointTangent inputs rateWeight count e ρ)).sum := by
  rcases Outcome.bind_eq_ok.mp done with ⟨last, folded, result⟩
  cases result
  have all : Gathered k inputs rateWeight count e points last := by
    refine Outcome.foldlM_induction folded ?_ fun _ _ _ _ _ before added => before.add keyed shaped added
    exact .zero k inputs rateWeight count e
  exact ⟨last.residual, last.tangent, rfl, all.residualSize, all.tangentSize, all.residual, all.tangent⟩

end Points

end Kernel

end Galerkin
