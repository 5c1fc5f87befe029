import Mathlib
import Galerkin.Proofs.Kernel.Access
import Galerkin.Proofs.Kernel.Evaluation

/-!
Reading the slots is all that can fail in an element, and data of the right shape can be read. What comes of an element is
a square system.
-/

namespace Galerkin

/-- Values for all control points of some elements. -/
structure NodalValues.Sized (v : NodalValues ℝ) (count perElement perPoint : Nat) : Prop where
  elements : v.elements = count
  points : v.points = perElement
  width : v.width = perPoint
  data : v.data.size = count * perElement * perPoint

theorem NodalValues.Sized.shape {v : NodalValues ℝ} {elements points width : Nat}
    (sized : v.Sized elements points width) : v.shape = [elements, points, width] := by
  rw [NodalValues.shape, sized.elements, sized.points, sized.width]

theorem NodalValues.Sized.full {v : NodalValues ℝ} {elements points width : Nat} (sized : v.Sized elements points width) :
    v.Full elements points width := ⟨sized.shape, sized.data⟩

theorem NodalValues.sized_zeros (elements points width : Nat) :
    (NodalValues.zeros elements points width : NodalValues ℝ).Sized elements points width :=
  ⟨rfl, rfl, rfl, by simp [NodalValues.zeros, NodalValues.ofFn]⟩

/-- A basis of `count` functions of `dim` coordinates. -/
structure PointData.Shaped (p : PointData ℝ) (dim count : Nat) : Prop where
  basis : p.basis.length = count
  gradients : p.gradients.length = count
  axes : ∀ g ∈ p.gradients, g.length = dim

structure Tabulation.Shaped (tab : Tabulation ℝ) : Prop where
  points : ∀ points ∈ tab.entities, ∀ p ∈ points, p.Shaped tab.dim tab.basisCount
  normals : tab.hasNormals = true → ∀ points ∈ tab.entities, ∀ p ∈ points, p.normal.length = tab.dim

/-- A system of `size` unknowns. -/
structure ElementSystem.Square (size : Nat) (sys : ElementSystem ℝ) : Prop where
  residual : sys.residual.length = size
  tangent : sys.tangent.length = size
  rows : ∀ row ∈ sys.tangent, row.length = size

namespace Kernel

variable {k : Kernel} {inputs : Inputs ℝ} {e : Nat} {p : PointData ℝ}

theorem basisRow_isOk {dim count : Nat} (shaped : p.Shaped dim count) {axis : Option Nat}
    (inside : ∀ j ∈ axis, j < dim) : ∃ row, basisRow p axis = .ok row ∧ row.length = count :=
  have fits : p.Fits dim count false := ⟨shaped.basis, shaped.gradients, shaped.axes, nofun⟩
  basisRow_isOk_of_fits fits inside

theorem interpolated_isOk {v : NodalValues ℝ} {elements points width column : Nat}
    (sized : v.Sized elements points width) (element : e < elements) (inside : column < width)
    {row : List ℝ} (short : row.length ≤ points) : ∃ x, interpolated v e column row = .ok x :=
  interpolated_isOk_of_full sized.full element inside short

/-! ### Elements -/

/-- Can all slots be read at a point? -/
def Readable (k : Kernel) (inputs : Inputs ℝ) (e : Nat) (p : PointData ℝ) : Prop :=
  ∀ s ∈ k.slots, ∃ x row, slotValue inputs e p s = .ok x ∧ basisRow p s.axis = .ok row

theorem mapM_toArray_isOk {α β : Type} {f : α → Except Failure β} {xs : List α}
    (each : ∀ x ∈ xs, ∃ y, f x = .ok y) : ∃ ys, xs.toArray.mapM f = .ok ys := by
  rcases Outcome.mapM_of_forall (R := fun _ _ => True) (fun x member =>
    (each x member).imp fun _ found => ⟨found, trivial⟩) with ⟨list, mapped, _⟩
  exact ⟨list.toArray, by rw [List.mapM_toArray]; exact Outcome.map_eq_ok.mpr ⟨list, mapped, rfl⟩⟩

variable {rateWeight : ℝ} {size : Nat}

theorem addPoint_isOk_iff (w : Workspace ℝ) :
    (∃ w', k.addPoint inputs rateWeight size e w p = .ok w') ↔ Readable k inputs e p := by
  constructor
  · rintro ⟨w', done⟩ s member
    rcases Outcome.bind_eq_ok.mp done with ⟨values, valued, rest⟩
    rcases Outcome.bind_eq_ok.mp rest with ⟨rows, rowed, _⟩
    rcases Outcome.exists_of_matched_left (mapM_toArray_eq_ok valued) member with ⟨x, _, value⟩
    rcases Outcome.exists_of_matched_left (mapM_toArray_eq_ok rowed) member with ⟨row, _, found⟩
    exact ⟨x, row, value, found⟩
  · intro readable
    rcases mapM_toArray_isOk fun s member => (readable s member).imp fun _ both =>
      both.choose_spec.1 with ⟨values, valued⟩
    rcases mapM_toArray_isOk fun s member => (readable s member).choose_spec.imp fun _ both =>
      both.2 with ⟨rows, rowed⟩
    exact ⟨_, Outcome.bind_eq_ok.mpr ⟨values, valued, Outcome.bind_eq_ok.mpr ⟨rows, rowed, rfl⟩⟩⟩

theorem elementSystem_isOk_iff {count : Nat} {points : List (PointData ℝ)} :
    (∃ sys, k.elementSystem inputs rateWeight count e points = .ok sys) ↔
      ∀ p ∈ points, Readable k inputs e p := by
  let size := count * k.width
  have run : (∃ w, points.foldlM (k.addPoint inputs rateWeight size e) (.zero k.unknownCount size) = .ok w) ↔
      ∀ p ∈ points, Readable k inputs e p :=
    Outcome.foldlM_isOk_iff fun w p => addPoint_isOk_iff (p := p) w
  constructor
  · rintro ⟨sys, done⟩
    rcases Outcome.bind_eq_ok.mp done with ⟨w, folded, _⟩
    exact run.mp ⟨w, folded⟩
  · intro readable
    rcases run.mpr readable with ⟨w, folded⟩
    exact ⟨_, Outcome.bind_eq_ok.mpr ⟨w, folded, rfl⟩⟩

/-- All elements have systems where all their points can be read. -/
theorem systems_isOk {count : Nat} {entities : List (List (PointData ℝ))}
    (readable : ∀ e points, entities[e]? = some points → ∀ p ∈ points, Readable k inputs e p) :
    ∃ systems, List.Forall₂ (fun t sys => k.elementSystem inputs rateWeight count t.2 t.1 = .ok sys)
      entities.zipIdx systems := by
  refine Outcome.exists_matched fun t member => elementSystem_isOk_iff.mpr ?_
  exact readable t.2 t.1 (List.mem_zipIdx_iff_getElem?.mp member)

/-! ### Other values of the same shape -/

/-- Values that can be read at the same places. -/
structure Like (v w : NodalValues ℝ) : Prop where
  elements : w.elements = v.elements
  points : w.points = v.points
  width : w.width = v.width
  size : w.data.size = v.data.size

theorem get_of_like {v w : NodalValues ℝ} (like : Like v w) {a c : Nat} {x : ℝ} (found : v.get e a c = .ok x) :
    ∃ y, w.get e a c = .ok y := by
  unfold NodalValues.get at found ⊢
  rw [like.elements, like.points, like.width]
  split at found
  · next inside =>
      rw [if_pos inside]
      split at found
      · next value here =>
          have bound := (Array.getElem?_eq_some_iff.mp here).1
          rw [← like.size] at bound
          rw [Array.getElem?_eq_getElem bound]
          exact ⟨_, rfl⟩
      · cases found
  · cases found

theorem interpolated_of_like {v w : NodalValues ℝ} (like : Like v w) {column : Nat} {axis : Option Nat} {x : ℝ}
    (found : (do interpolated v e column (← basisRow p axis)) = .ok x) :
    ∃ y, (do interpolated w e column (← basisRow p axis)) = .ok y := by
  rcases Outcome.bind_eq_ok.mp found with ⟨row, basis, summed⟩
  rcases Outcome.bind_eq_ok.mp summed with ⟨terms, mapped, _⟩
  have each : ∀ t ∈ row.zipIdx, ∃ y, (do pure (t.1 * (← w.get e t.2 column))) = Except.ok y ∧ True := by
    intro t member
    rcases Outcome.exists_of_matched_left (Outcome.mapM_eq_ok.mp mapped) member with ⟨y, _, term⟩
    rcases Outcome.bind_eq_ok.mp term with ⟨z, read, _⟩
    rcases get_of_like like read with ⟨z', read'⟩
    exact ⟨_, Outcome.bind_eq_ok.mpr ⟨z', read', rfl⟩, trivial⟩
  rcases Outcome.mapM_of_forall each with ⟨terms', mapped', _⟩
  exact ⟨_, Outcome.bind_eq_ok.mpr ⟨row, basis, Outcome.bind_eq_ok.mpr ⟨terms', mapped', rfl⟩⟩⟩

theorem Readable.of_like (readable : Readable k inputs e p) (inputs' : Inputs ℝ)
    (state : Like inputs.state inputs'.state) (rate : Like inputs.rate inputs'.rate)
    (external : Like inputs.external inputs'.external) (params : inputs'.params = inputs.params) :
    Readable k inputs' e p := by
  intro s member
  rcases readable s member with ⟨x, row, value, basis⟩
  have other : ∃ y, slotValue inputs' e p s = .ok y := by
    unfold slotValue at value ⊢
    cases source : s.source with
    | param =>
        rw [params]
        rw [source] at value
        exact ⟨x, value⟩
    | normal =>
        rw [source] at value
        exact ⟨x, value⟩
    | value =>
        rw [source] at value
        exact interpolated_of_like state value
    | rate =>
        rw [source] at value
        exact interpolated_of_like rate value
    | external =>
        rw [source] at value
        exact interpolated_of_like external value
  rcases other with ⟨y, found⟩
  exact ⟨y, row, found, basis⟩

/-! ### Sizes -/

/-- Steps that keep the size of an array keep it together. -/
theorem size_foldl {β : Type} {f : Array ℝ → β → Array ℝ} (each : ∀ xs b, (f xs b).size = xs.size) (bs : List β)
    (xs : Array ℝ) : (bs.foldl f xs).size = xs.size := by
  induction bs generalizing xs with
  | nil => rfl
  | cons b rest ih => rw [List.foldl_cons, ih, each]

theorem size_spread (start stride : Nat) (row : List ℝ) (x : ℝ) (sum : Array ℝ) :
    (spread start stride row x sum).size = sum.size :=
  size_foldl (fun _ _ => Array.size_modify ..) _ _

theorem size_addDensities (rows : Array (List ℝ)) (weight : ℝ) (densities sum : Array ℝ) :
    (k.addDensities rows weight densities sum).size = sum.size := by
  refine size_foldl (fun sum i => ?_) _ _
  dsimp only
  split
  · rfl
  · exact size_spread ..

theorem size_addSlopes (rows : Array (List ℝ)) (weight rateWeight : ℝ) (size : Nat) (slopes sum : Array ℝ) :
    (k.addSlopes rows weight rateWeight size slopes sum).size = sum.size := by
  refine size_foldl (fun sum i => size_foldl (fun sum j => ?_) _ _) _ _
  dsimp only
  split
  · rfl
  · exact size_foldl (fun _ _ => size_spread ..) _ _

theorem size_addPoint {rateWeight : ℝ} {size : Nat} {w w' : Workspace ℝ}
    (done : k.addPoint inputs rateWeight size e w p = .ok w') :
    w'.residual.size = w.residual.size ∧ w'.tangent.size = w.tangent.size := by
  obtain ⟨values, -, done⟩ := Outcome.bind_eq_ok.mp done
  obtain ⟨rows, -, done⟩ := Outcome.bind_eq_ok.mp done
  cases done
  exact ⟨size_addDensities .., size_addSlopes ..⟩

theorem square_elementSystem {rateWeight : ℝ} {count : Nat} {points : List (PointData ℝ)} {sys : ElementSystem ℝ}
    (done : k.elementSystem inputs rateWeight count e points = .ok sys) : sys.Square (count * k.width) := by
  obtain ⟨w, summed, done⟩ := Outcome.bind_eq_ok.mp done
  cases done
  obtain ⟨residual, tangent⟩ := Outcome.foldlM_induction (P := fun _ (w : Workspace ℝ) =>
      w.residual.size = count * k.width ∧ w.tangent.size = count * k.width * (count * k.width)) summed
    ⟨Array.size_replicate, Array.size_replicate⟩ fun _ _ _ _ _ sizes added =>
      ⟨(size_addPoint added).1.trans sizes.1, (size_addPoint added).2.trans sizes.2⟩
  refine ⟨residual, by simp, fun row member => ?_⟩
  obtain ⟨i, inside, rfl⟩ := List.mem_map.mp member
  have last : (i + 1) * (count * k.width) ≤ w.tangent.size :=
    tangent.symm ▸ Nat.mul_le_mul_right _ (List.mem_range.mp inside)
  rw [Array.length_toList, Array.size_extract, Nat.min_eq_left last, Nat.add_mul, one_mul, Nat.add_sub_cancel_left]

end Kernel

end Galerkin
