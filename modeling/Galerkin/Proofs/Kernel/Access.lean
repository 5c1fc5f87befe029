import Mathlib
import Galerkin.Kernel.Evaluation
import Galerkin.Proofs.Outcome

/-!
Evaluation with every access checked: what is read must be there, and what is written must have a place. Where the
numbers in a kernel stay below the sizes of what they number, the checks change nothing. What is read of an element is
all that its system depends on.
-/

namespace Galerkin

/-! ### Checked steps -/

/-- On states with `I`, a checked step does what an unchecked one does, and keeps `I`. -/
def Realizes {σ : Type} (I : σ → Prop) (checked : σ → Except Failure σ) (step : σ → σ) : Prop :=
  ∀ s, I s → checked s = .ok (step s) ∧ I (step s)

namespace Realizes

variable {σ β : Type} {I : σ → Prop}

theorem skip : Realizes I (fun s => pure s) fun s => s := fun _ inside => ⟨rfl, inside⟩

theorem ite {c : Prop} [Decidable c] {f f' : σ → Except Failure σ} {g g' : σ → σ} (first : Realizes I f g)
    (second : Realizes I f' g') :
    Realizes I (fun s => if c then f s else f' s) fun s => if c then g s else g' s := by
  split
  · exact first
  · exact second

theorem foldlM {f : σ → β → Except Failure σ} {g : σ → β → σ} {l : List β}
    (each : ∀ b ∈ l, Realizes I (f · b) (g · b)) : Realizes I (fun s => l.foldlM f s) fun s => l.foldl g s := by
  induction l with
  | nil => exact skip
  | cons b rest ih =>
      rw [List.forall_mem_cons] at each
      intro s inside
      obtain ⟨first, kept⟩ := each.1 s inside
      obtain ⟨later, last⟩ := ih each.2 _ kept
      dsimp only at first later ⊢
      rw [List.foldlM_cons, first]
      exact ⟨later, last⟩

end Realizes

namespace Checked

variable {α : Type}

/-- The entry at a place, which must be there. -/
def read (xs : Array α) (i : Nat) : Except Failure α :=
  match xs[i]? with
  | some x => pure x
  | none => throw .outOfRange

/-- Puts an entry in a place, which must be there. -/
def write (xs : Array α) (i : Nat) (x : α) : Except Failure (Array α) :=
  if i < xs.size then pure (xs.setIfInBounds i x) else throw .outOfRange

/-- Changes the entry at a place, which must be there. -/
def update (xs : Array α) (i : Nat) (f : α → α) : Except Failure (Array α) :=
  if i < xs.size then pure (xs.modify i f) else throw .outOfRange

/-- The place of an entry in a square table, which must have its row and its column. -/
def cell (side i j : Nat) : Except Failure Nat :=
  if i < side ∧ j < side then pure (i * side + j) else throw .outOfRange

/-- The value of a formula whose variables must all have values. -/
def value [Scalar α] (values : Array α) (e : Formula Nat) : Except Failure α :=
  if ∀ i ∈ e.atoms, i < values.size then pure (e.eval fun i => values.getD i 0) else throw .outOfRange

theorem read_eq_ok {xs : Array α} {i : Nat} (inside : i < xs.size) (d : α) : read xs i = .ok (xs.getD i d) := by
  rw [read, Array.getElem?_eq_getElem inside, Array.getD_eq_getD_getElem?, Array.getElem?_eq_getElem inside]
  rfl

theorem realizes_write {n i : Nat} (inside : i < n) (x : α) :
    Realizes (·.size = n) (write · i x) (·.setIfInBounds i x) := by
  intro xs size
  exact ⟨if_pos (size ▸ inside), Array.size_setIfInBounds.trans size⟩

theorem realizes_update {n i : Nat} (inside : i < n) (f : α → α) :
    Realizes (·.size = n) (update · i f) (·.modify i f) := by
  intro xs size
  exact ⟨if_pos (size ▸ inside), Array.size_modify.trans size⟩

theorem cell_eq_ok {side i j : Nat} (row : i < side) (column : j < side) : cell side i j = .ok (i * side + j) :=
  if_pos ⟨row, column⟩

theorem cell_lt {side i j : Nat} (row : i < side) (column : j < side) : i * side + j < side * side :=
  calc i * side + j < i * side + side := Nat.add_lt_add_left column _
    _ = (i + 1) * side := (Nat.succ_mul i side).symm
    _ ≤ side * side := Nat.mul_le_mul_right _ row

theorem value_eq_ok [Scalar α] {values : Array α} {e : Formula Nat} (known : ∀ i ∈ e.atoms, i < values.size) :
    value values e = .ok (e.eval fun i => values.getD i 0) := if_pos known

end Checked

namespace Formula

/-- Formulas one after the other over variables below `count`, each of which gives one more variable. -/
def Chained : Nat → List (Formula Nat) → Prop
  | _, [] => True
  | count, e :: rest => (∀ i ∈ e.atoms, i < count) ∧ Chained (count + 1) rest

end Formula

/-! ### Values of the right shape -/

/-- Values for every component of every control point of some elements. -/
structure NodalValues.Full {α : Type} (v : NodalValues α) (elements points width : Nat) : Prop where
  shape : v.shape = [elements, points, width]
  data : v.data.size = elements * points * width

theorem NodalValues.full_zeros {α : Type} [Zero α] (elements points width : Nat) :
    (NodalValues.zeros elements points width : NodalValues α).Full elements points width :=
  ⟨rfl, by simp [NodalValues.zeros, NodalValues.ofFn]⟩

theorem NodalValues.Full.get_isOk {α : Type} {v : NodalValues α} {elements points width e a c : Nat}
    (full : v.Full elements points width) (element : e < elements) (point : a < points) (column : c < width) :
    ∃ x, v.get e a c = .ok x := by
  have inside : (e * points + a) * width + c < v.data.size := by
    rw [full.data]
    calc (e * points + a) * width + c < (e * points + a) * width + width := by omega
      _ = (e * points + a + 1) * width := by ring
      _ ≤ elements * points * width := by
        refine Nat.mul_le_mul_right _ ?_
        calc e * points + a + 1 ≤ e * points + points := by omega
          _ = (e + 1) * points := by ring
          _ ≤ elements * points := Nat.mul_le_mul_right _ element
  obtain ⟨rfl, rfl, rfl⟩ : v.elements = elements ∧ v.points = points ∧ v.width = width := by
    simpa [NodalValues.shape] using full.shape
  rw [NodalValues.get, if_pos ⟨element, point, column⟩, Array.getElem?_eq_getElem inside]
  exact ⟨_, rfl⟩

/-! ### What an element reads -/

theorem getElem?_flatMap {α β : Type} {rows : List α} {g : α → List β} {m : Nat}
    (length : ∀ r ∈ rows, (g r).length = m) {e : Nat} {r : α} (here : rows[e]? = some r) {i : Nat}
    (inside : i < m) : (rows.flatMap g)[e * m + i]? = (g r)[i]? := by
  induction rows generalizing e with
  | nil => cases here
  | cons head tail ih =>
      rw [List.forall_mem_cons] at length
      rw [List.flatMap_cons]
      cases e with
      | zero =>
          cases here
          rw [zero_mul, zero_add, List.getElem?_append_left (length.1.symm ▸ inside)]
      | succ e =>
          have place : (e + 1) * m + i = (g head).length + (e * m + i) := by
            rw [length.1]
            ring
          rw [place, List.getElem?_append_right (Nat.le_add_right _ _), Nat.add_sub_cancel_left]
          exact ih length.2 here

namespace Kernel


/-- Values of two batches that are those of one entity of each. -/
def Agree {α : Type} (v : NodalValues α) (e : Nat) (v' : NodalValues α) (e' : Nat) : Prop :=
  ∀ a c, v.get e a c = v'.get e' a c

/-- Rows of one length, read at an entity and read alone. -/
theorem agree_flatMap {α β : Type} {rows : List β} {g : β → List α} {count width e : Nat} {p : β}
    (length : ∀ p ∈ rows, (g p).length = count * width) (here : rows[e]? = some p) :
    Agree ⟨rows.length, count, width, (rows.flatMap g).toArray⟩ e ⟨1, count, width, (g p).toArray⟩ 0 := by
  intro a c
  have bound := (List.getElem?_eq_some_iff.mp here).1
  by_cases inside : a < count ∧ c < width
  · have place : (e * count + a) * width + c = e * (count * width) + (a * width + c) := by ring
    have within : a * width + c < count * width := by
      calc a * width + c < a * width + width := by omega
        _ = (a + 1) * width := by ring
        _ ≤ count * width := Nat.mul_le_mul_right _ inside.1
    simp only [NodalValues.get, bound, inside, and_self, if_true, Nat.zero_lt_one, List.getElem?_toArray, place,
      getElem?_flatMap length here within, Nat.zero_mul, Nat.zero_add]
  · simp [NodalValues.get, inside]

variable {α : Type} [Scalar α] {e e' : Nat}

theorem interpolated_congr {v v' : NodalValues α} (same : Agree v e v' e') (column : Nat) (row : List α) :
    interpolated v e column row = interpolated v' e' column row := by
  simp only [interpolated, same _ _]

theorem slotValue_congr {inputs inputs' : Inputs α} (state : Agree inputs.state e inputs'.state e') (rate : Agree inputs.rate e inputs'.rate e')
    (external : Agree inputs.external e inputs'.external e') (params : inputs.params = inputs'.params)
    (p : PointData α) : slotValue inputs e p = slotValue inputs' e' p := by
  funext s
  simp only [slotValue, params, interpolated_congr state, interpolated_congr rate, interpolated_congr external]

/-- The system of an entity depends on nothing but what is read of this entity. -/
theorem elementSystem_congr (k : Kernel) (inputs inputs' : Inputs α) (state : Agree inputs.state e inputs'.state e')
    (rate : Agree inputs.rate e inputs'.rate e') (external : Agree inputs.external e inputs'.external e')
    (params : inputs.params = inputs'.params) (rateWeight : α) (count : Nat) (points : List (PointData α)) :
    k.elementSystem inputs rateWeight count e points = k.elementSystem inputs' rateWeight count e' points := by
  have step : k.addPoint inputs rateWeight (count * k.width) e = k.addPoint inputs' rateWeight (count * k.width) e' := by
    funext w p
    simp only [addPoint, slotValue_congr state rate external params]
  simp only [elementSystem, step]

end Kernel

/-- A point with `count` basis functions of `dim` coordinates, and with a normal where it needs one. -/
structure PointData.Fits {α : Type} (p : PointData α) (dim count : Nat) (normal : Bool) : Prop where
  basis : p.basis.length = count
  gradients : p.gradients.length = count
  axes : ∀ g ∈ p.gradients, g.length = dim
  normal : normal = true → p.normal.length = dim

namespace Kernel

variable {α : Type} [Scalar α]

/-- The basis functions of a point, of which there must be `count`, or their derivatives along an axis. -/
def checkedRow (p : PointData α) (count : Nat) (axis : Option Nat) : Except Failure (List α) := do
  let row ← basisRow p axis
  if row.length = count then pure row else throw .outOfRange

def checkedTemporaries (k : Kernel) (slots : Array α) : Except Failure (Array α) :=
  k.temporaries.foldlM (fun values t => do pure (values.push (← Checked.value values t))) slots

def checkedAssign (k : Kernel) (values : Array α) (w : Workspace α) : Except Failure (Workspace α) := do
  let densities ← k.residual.foldlM (fun g (i, e) => do Checked.write g i (← Checked.value values e)) w.densities
  let slopes ← k.tangent.foldlM (fun h ((i, j), e) => do
    Checked.write h (← Checked.cell k.unknownCount i j) (← Checked.value values e)) w.slopes
  pure { w with densities, slopes }

def checkedDensities (k : Kernel) (rows : Array (List α)) (weight : α) (densities sum : Array α) :
    Except Failure (Array α) :=
  (List.range k.unknownCount).foldlM (fun sum i => do
    let s ← Checked.read k.slots.toArray i
    let row ← Checked.read rows i
    let g := weight * (← Checked.read densities i)
    if Arithmetic.isZero g then pure sum
    else row.zipIdx.foldlM (fun sum (w, a) =>
      Checked.update sum (a * k.width + s.column) (· + g * w)) sum) sum

def checkedSlopes (k : Kernel) (rows : Array (List α)) (weight rateWeight : α) (size : Nat) (slopes sum : Array α) :
    Except Failure (Array α) :=
  (List.range k.unknownCount).foldlM (fun sum i =>
    (List.range k.unknownCount).foldlM (fun sum j => do
      let s ← Checked.read k.slots.toArray i
      let t ← Checked.read k.slots.toArray j
      let left ← Checked.read rows i
      let right ← Checked.read rows j
      let h ← Checked.read slopes (← Checked.cell k.unknownCount i j)
      if Arithmetic.isZero h then pure sum
      else
        let h := weight * (if t.isRate then h * rateWeight else h)
        left.zipIdx.foldlM (fun sum (w, a) => right.zipIdx.foldlM (fun sum (v, b) => do
          let place ← Checked.cell size (a * k.width + s.column) (b * k.width + t.column)
          Checked.update sum place (· + h * w * v)) sum) sum) sum) sum

/-- What one point adds, with every access checked. -/
def checkedPoint (k : Kernel) (inputs : Inputs α) (rateWeight : α) (count e : Nat) (w : Workspace α)
    (p : PointData α) : Except Failure (Workspace α) := do
  let values ← k.slots.toArray.mapM (slotValue inputs e p)
  let rows ← k.slots.toArray.mapM fun s => checkedRow p count s.axis
  let w ← k.checkedAssign (← k.checkedTemporaries values) w
  let residual ← k.checkedDensities rows p.weight w.densities w.residual
  let tangent ← k.checkedSlopes rows p.weight rateWeight (count * k.width) w.slopes w.tangent
  pure { w with residual, tangent }

/-- The system of one element, with every access checked. -/
def checkedSystem (k : Kernel) (inputs : Inputs α) (rateWeight : α) (count e : Nat) (points : List (PointData α)) :
    Except Failure (ElementSystem α) := do
  let size := count * k.width
  let w ← points.foldlM (k.checkedPoint inputs rateWeight count e) (.zero k.unknownCount size)
  pure ⟨w.residual.toList,
    (List.range size).map fun i => (w.tangent.extract (i * size) ((i + 1) * size)).toList⟩

/-! ### Kernels whose numbers stay below what they number -/

/-- How many columns a source has. -/
def extent (k : Kernel) : Source → Nat
  | .value | .rate => k.width
  | .external => k.externalWidth
  | .param => k.paramNames.length
  | .normal => k.dim

structure Bounded (k : Kernel) : Prop where
  columns : ∀ s ∈ k.slots, s.column < k.extent s.source
  axes : ∀ s ∈ k.slots, ∀ j ∈ s.axis, j < k.dim
  normal : ∀ s ∈ k.slots, s.source = .normal → k.usesNormal = true
  /-- The unknowns are the first slots, and no others. -/
  unknowns : k.unknownCount ≤ k.slots.length ∧
    ∀ i s, k.slots[i]? = some s → (s.isUnknown = true ↔ i < k.unknownCount)
  residual : ∀ t ∈ k.residual, t.1 < k.unknownCount
  tangent : ∀ t ∈ k.tangent, t.1.1 < k.unknownCount ∧ t.1.2 < k.unknownCount
  temporaries : Formula.Chained k.slots.length k.temporaries
  densities : ∀ e ∈ k.residual.map (·.2) ++ k.tangent.map (·.2), ∀ i ∈ e.atoms,
    i < k.slots.length + k.temporaries.length

/-- Do the values of a batch of `elements` have the shapes that a kernel asks for? -/
structure Inputs.Full (k : Kernel) (inputs : Inputs α) (elements count : Nat) : Prop where
  state : inputs.state.Full elements count k.width
  rate : inputs.rate.Full elements count k.width
  external : inputs.external.Full elements count k.externalWidth
  params : inputs.params.length = k.paramNames.length

section Reading

variable {k : Kernel} {inputs : Inputs α} {p : PointData α} {elements count e : Nat}

omit [Scalar α] in
theorem basisRow_isOk_of_fits {dim : Nat} {normal : Bool} (fits : p.Fits dim count normal) {axis : Option Nat}
    (inside : ∀ j ∈ axis, j < dim) : ∃ row, basisRow p axis = .ok row ∧ row.length = count := by
  cases axis with
  | none => exact ⟨p.basis, rfl, fits.basis⟩
  | some j =>
      obtain ⟨row, found, matched⟩ : ∃ row, basisRow p (some j) = .ok row ∧
          List.Forall₂ (fun _ _ => True) p.gradients row := by
        refine Outcome.mapM_of_forall fun g member => ?_
        have bound : j < g.length := fits.axes g member ▸ inside j rfl
        rw [List.getElem?_eq_getElem bound]
        exact ⟨_, rfl, trivial⟩
      exact ⟨row, found, matched.length_eq.symm.trans fits.gradients⟩

theorem interpolated_isOk_of_full {v : NodalValues α} {width column : Nat} (full : v.Full elements count width)
    (element : e < elements) (inside : column < width) {row : List α} (short : row.length ≤ count) :
    ∃ x, interpolated v e column row = .ok x := by
  have each : ∀ t ∈ row.zipIdx, ∃ x, (do pure (t.1 * (← v.get e t.2 column))) = Except.ok x ∧ True := by
    intro t member
    have bound := List.snd_lt_of_mem_zipIdx member
    obtain ⟨x, found⟩ := full.get_isOk element (a := t.2) (by omega) inside
    exact ⟨_, Outcome.bind_eq_ok.mpr ⟨x, found, rfl⟩, trivial⟩
  obtain ⟨terms, found, -⟩ := Outcome.mapM_of_forall each
  exact ⟨_, Outcome.bind_eq_ok.mpr ⟨terms, found, rfl⟩⟩

variable (bounded : Bounded k) (full : inputs.Full k elements count) (element : e < elements)
  (fits : p.Fits k.dim count k.usesNormal)

include bounded fits

omit [Scalar α] in
theorem Bounded.checkedRow_isOk {s : Slot} (member : s ∈ k.slots) : ∃ row, basisRow p s.axis = .ok row ∧
    checkedRow p count s.axis = .ok row ∧ row.length = count := by
  obtain ⟨row, found, length⟩ := basisRow_isOk_of_fits fits (bounded.axes s member)
  refine ⟨row, found, Outcome.bind_eq_ok.mpr ⟨row, found, ?_⟩, length⟩
  rw [if_pos length]
  rfl

include full element

/-- Every slot finds what it reads. -/
theorem Bounded.slotValue_isOk {s : Slot} (member : s ∈ k.slots) : ∃ x, slotValue inputs e p s = .ok x := by
  obtain ⟨row, found, -, length⟩ := bounded.checkedRow_isOk fits member
  have column := bounded.columns s member
  have interpolates {v : NodalValues α} {width : Nat} (full : v.Full elements count width)
      (inside : s.column < width) : ∃ x, (do interpolated v e s.column (← basisRow p s.axis)) = .ok x := by
    obtain ⟨x, value⟩ := interpolated_isOk_of_full full element inside length.le
    exact ⟨x, Outcome.bind_eq_ok.mpr ⟨row, found, value⟩⟩
  unfold slotValue
  cases source : s.source with
  | param =>
      rw [source, extent, ← full.params] at column
      dsimp only
      rw [List.getElem?_eq_getElem column]
      exact ⟨_, rfl⟩
  | normal =>
      rw [source, extent, ← fits.normal (bounded.normal s member source)] at column
      dsimp only
      rw [List.getElem?_eq_getElem column]
      exact ⟨_, rfl⟩
  | value =>
      rw [source] at column
      exact interpolates full.state column
  | rate =>
      rw [source] at column
      exact interpolates full.rate column
  | external =>
      rw [source] at column
      exact interpolates full.external column

end Reading

/-! ### What the checks change -/

section Agreement

variable {k : Kernel}

theorem checkedTemporaries_eq_ok {slots : Array α} (chained : Formula.Chained slots.size k.temporaries) :
    k.checkedTemporaries slots = .ok (k.withTemporaries slots) ∧
      (k.withTemporaries slots).size = slots.size + k.temporaries.length := by
  rw [checkedTemporaries, withTemporaries]
  generalize k.temporaries = temporaries at chained
  induction temporaries generalizing slots with
  | nil => exact ⟨rfl, rfl⟩
  | cons t rest ih =>
      obtain ⟨known, later⟩ := chained
      let next := slots.push (t.eval fun i => slots.getD i 0)
      have size : next.size = slots.size + 1 := Array.size_push ..
      obtain ⟨done, last⟩ := @ih next (size ▸ later)
      rw [List.foldlM_cons, Checked.value_eq_ok known, List.foldl_cons, List.length_cons]
      exact ⟨done, last.trans (by omega)⟩

/-- Writing the densities of a point finds the places of all of them. -/
theorem Bounded.checkedAssign_eq_ok (bounded : Bounded k) {values : Array α}
    (size : values.size = k.slots.length + k.temporaries.length) {w : Workspace α}
    (densities : w.densities.size = k.unknownCount) (slopes : w.slopes.size = k.unknownCount * k.unknownCount) :
    k.checkedAssign values w = .ok (k.assign values w) ∧ (k.assign values w).densities.size = k.unknownCount ∧
      (k.assign values w).slopes.size = k.unknownCount * k.unknownCount := by
  have known : ∀ e ∈ k.residual.map (·.2) ++ k.tangent.map (·.2), Checked.value values e =
      .ok (e.eval fun i => values.getD i 0) := by
    intro e member
    exact Checked.value_eq_ok fun i inside => size ▸ bounded.densities e member i inside
  obtain ⟨first, kept⟩ := Realizes.foldlM (l := k.residual) (I := (·.size = k.unknownCount))
    (f := fun g (t : Nat × Formula Nat) => do Checked.write g t.1 (← Checked.value values t.2))
    (g := fun g t => g.setIfInBounds t.1 (t.2.eval fun i => values.getD i 0)) (fun t member => by
      have own := known t.2 (List.mem_append_left _ (List.mem_map_of_mem member))
      simp only [own]
      exact Checked.realizes_write (bounded.residual t member) _) w.densities densities
  obtain ⟨second, last⟩ := Realizes.foldlM (l := k.tangent) (I := (·.size = k.unknownCount * k.unknownCount))
    (f := fun h (t : (Nat × Nat) × Formula Nat) => do
      Checked.write h (← Checked.cell k.unknownCount t.1.1 t.1.2) (← Checked.value values t.2))
    (g := fun h t => h.setIfInBounds (t.1.1 * k.unknownCount + t.1.2) (t.2.eval fun i => values.getD i 0))
    (fun t member => by
      obtain ⟨row, column⟩ := bounded.tangent t member
      have own := known t.2 (List.mem_append_right _ (List.mem_map_of_mem member))
      simp only [own, Checked.cell_eq_ok row column]
      exact Checked.realizes_write (Checked.cell_lt row column) _) w.slopes slopes
  exact ⟨Outcome.bind_eq_ok.mpr ⟨_, first, Outcome.bind_eq_ok.mpr ⟨_, second, rfl⟩⟩, kept, last⟩

/-- Rows of `count` basis functions, one for each slot. -/
structure Rows (k : Kernel) (count : Nat) (rows : Array (List α)) : Prop where
  size : rows.size = k.slots.length
  length : ∀ i < k.slots.length, (rows.getD i []).length = count

omit [Scalar α] in
theorem Bounded.column_lt (bounded : Bounded k) {i : Nat} (inside : i < k.unknownCount) : k.column i < k.width := by
  have bound : i < k.slots.length := lt_of_lt_of_le inside bounded.unknowns.1
  have here : k.slots[i]? = some k.slots[i] := List.getElem?_eq_getElem bound
  have unknown := (bounded.unknowns.2 i _ here).mpr inside
  have below := bounded.columns _ (List.getElem_mem bound)
  rw [column, here]
  generalize k.slots[i] = s at unknown below ⊢
  rcases s with ⟨name, source, column, axis⟩
  cases source <;> first | exact below | cases unknown

omit [Scalar α] in
/-- Every control point has a place for the component of an unknown. -/
theorem Bounded.place_lt (bounded : Bounded k) {count a i : Nat} (point : a < count) (inside : i < k.unknownCount) :
    a * k.width + k.column i < count * k.width :=
  calc a * k.width + k.column i < a * k.width + k.width := Nat.add_lt_add_left (bounded.column_lt inside) _
    _ = (a + 1) * k.width := (Nat.succ_mul a k.width).symm
    _ ≤ count * k.width := Nat.mul_le_mul_right _ point

/-- What an unknown reads while it is worked on: its slot, and its row of basis functions. -/
structure Bounded.Unknown (k : Kernel) (count : Nat) (rows : Array (List α)) (i : Nat) (s : Slot) : Prop where
  slot : Checked.read k.slots.toArray i = .ok s
  row : Checked.read rows i = .ok (rows.getD i [])
  column : k.column i = s.column
  isRate : k.isRate i = s.isRate
  place : ∀ t ∈ (rows.getD i []).zipIdx, t.2 * k.width + s.column < count * k.width

omit [Scalar α] in
theorem Bounded.unknown {count : Nat} (bounded : Bounded k) {rows : Array (List α)} (ruled : Rows k count rows) {i : Nat}
    (inside : i < k.unknownCount) : ∃ s, Unknown k count rows i s := by
  have bound : i < k.slots.length := lt_of_lt_of_le inside bounded.unknowns.1
  have here : k.slots[i]? = some k.slots[i] := List.getElem?_eq_getElem bound
  have column : k.column i = k.slots[i].column := by
    rw [Kernel.column, here]
    rfl
  refine ⟨k.slots[i], ?_, Checked.read_eq_ok (ruled.size.symm ▸ bound) [], column, ?_, fun t member => ?_⟩
  · rw [Checked.read, List.getElem?_toArray, here]
    rfl
  · rw [Kernel.isRate, here]
    rfl
  · rw [← column]
    exact bounded.place_lt (ruled.length i bound ▸ List.snd_lt_of_mem_zipIdx member) inside

variable {count : Nat} {rows : Array (List α)}

/-- Adding densities finds all entries that the rows reach. -/
theorem Bounded.checkedDensities_eq_ok (bounded : Bounded k) (ruled : Rows k count rows) (weight : α) {densities : Array α}
    (size : densities.size = k.unknownCount) : Realizes (·.size = count * k.width)
      (k.checkedDensities rows weight densities) (k.addDensities rows weight densities) := by
  refine Realizes.foldlM fun i member => ?_
  have inside := List.mem_range.mp member
  obtain ⟨s, slot, row, column, -, place⟩ := bounded.unknown ruled inside
  have density := Checked.read_eq_ok (size.symm ▸ inside) (0 : α)
  simp only [slot, row, density, column]
  exact .ite .skip (.foldlM fun t among => Checked.realizes_update (place t among) _)

/-- Adding slopes finds all entries of the square that the rows reach. -/
theorem Bounded.checkedSlopes_eq_ok (bounded : Bounded k) (ruled : Rows k count rows) (weight rateWeight : α)
    {slopes : Array α} (size : slopes.size = k.unknownCount * k.unknownCount) :
    Realizes (·.size = count * k.width * (count * k.width))
      (k.checkedSlopes rows weight rateWeight (count * k.width) slopes)
      (k.addSlopes rows weight rateWeight (count * k.width) slopes) := by
  refine Realizes.foldlM fun i member => Realizes.foldlM fun j member' => ?_
  have row := List.mem_range.mp member
  have column := List.mem_range.mp member'
  obtain ⟨s, slot, left, first, -, place⟩ := bounded.unknown ruled row
  obtain ⟨t, slot', right, second, isRate, place'⟩ := bounded.unknown ruled column
  have slope := Checked.read_eq_ok (size.symm ▸ Checked.cell_lt row column) (0 : α)
  have entry := Checked.cell_eq_ok row column
  simp only [slot, slot', left, right, entry, Outcome.ok_bind, slope, first, second, isRate]
  refine .ite .skip (.foldlM fun u among => .foldlM fun v among' => ?_)
  have cell := Checked.cell_eq_ok (place u among) (place' v among')
  have same : v.2 * k.width + ((u.2 * k.width + s.column) * (count * k.width) + t.column) =
      (u.2 * k.width + s.column) * (count * k.width) + (v.2 * k.width + t.column) := by omega
  simp only [cell, same]
  exact Checked.realizes_update (Checked.cell_lt (place u among) (place' v among')) _

/-- Buffers of the sizes that the loops over points count on. -/
structure Workspace.Sized (k : Kernel) (count : Nat) (w : Workspace α) : Prop where
  densities : w.densities.size = k.unknownCount
  slopes : w.slopes.size = k.unknownCount * k.unknownCount
  residual : w.residual.size = count * k.width
  tangent : w.tangent.size = count * k.width * (count * k.width)

theorem Workspace.sized_zero (k : Kernel) (count : Nat) :
    Sized k count (.zero k.unknownCount (count * k.width) : Workspace α) :=
  ⟨Array.size_replicate, Array.size_replicate, Array.size_replicate, Array.size_replicate⟩

variable {inputs : Inputs α} {elements e : Nat}

theorem Bounded.checkedPoint_eq_ok (bounded : Bounded k) (full : inputs.Full k elements count) (element : e < elements)
    {p : PointData α} (fits : p.Fits k.dim count k.usesNormal) (rateWeight : α) {w : Workspace α} (sized : w.Sized k count) :
    ∃ w', k.checkedPoint inputs rateWeight count e w p = .ok w' ∧
      k.addPoint inputs rateWeight (count * k.width) e w p = .ok w' ∧ w'.Sized k count := by
  obtain ⟨values, valued, -⟩ : ∃ values, k.slots.mapM (slotValue inputs e p) = .ok values ∧
      List.Forall₂ (fun _ _ => True) k.slots values := Outcome.mapM_of_forall fun s member =>
    (bounded.slotValue_isOk full element fits member).imp fun _ found => ⟨found, trivial⟩
  obtain ⟨rows, rowed, ruled⟩ : ∃ rows, k.slots.mapM (fun s => basisRow p s.axis) = .ok rows ∧
      List.Forall₂ (fun s row => checkedRow p count s.axis = .ok row ∧ row.length = count) k.slots rows :=
    Outcome.mapM_of_forall fun s member => bounded.checkedRow_isOk fits member
  have checkedRows : k.slots.mapM (fun s => checkedRow p count s.axis) = .ok rows :=
    Outcome.mapM_eq_ok.mpr (ruled.imp fun _ _ => And.left)
  have arrays {β : Type} {f : Slot → Except Failure β} {ys : List β} (mapped : k.slots.mapM f = .ok ys) :
      k.slots.toArray.mapM f = .ok ys.toArray := by
    rw [List.mapM_toArray, mapped]
    rfl
  have even : Rows k count rows.toArray := by
    refine ⟨ruled.length_eq.symm, fun i inside => ?_⟩
    obtain ⟨row, here, -, length⟩ := Outcome.getElem?_of_matched ruled (List.getElem?_eq_getElem inside)
    rw [Array.getD_eq_getD_getElem?, List.getElem?_toArray, here]
    exact length
  have slots : values.toArray.size = k.slots.length := (Outcome.mapM_eq_ok.mp valued).length_eq.symm
  obtain ⟨extended, size⟩ := checkedTemporaries_eq_ok (slots.symm ▸ bounded.temporaries)
  obtain ⟨assigned, densities, slopes⟩ := bounded.checkedAssign_eq_ok (size.trans (by rw [slots])) sized.densities sized.slopes
  obtain ⟨residual, residualSize⟩ := bounded.checkedDensities_eq_ok even p.weight densities w.residual sized.residual
  obtain ⟨tangent, tangentSize⟩ := bounded.checkedSlopes_eq_ok even p.weight rateWeight slopes w.tangent sized.tangent
  let after := k.assign (k.withTemporaries values.toArray) w
  refine ⟨{ after with
    residual := k.addDensities rows.toArray p.weight after.densities w.residual
    tangent := k.addSlopes rows.toArray p.weight rateWeight (count * k.width) after.slopes w.tangent }, ?_, ?_,
    ⟨densities, slopes, residualSize, tangentSize⟩⟩
  · refine Outcome.bind_eq_ok.mpr ⟨_, arrays valued, Outcome.bind_eq_ok.mpr ⟨_, arrays checkedRows, ?_⟩⟩
    refine Outcome.bind_eq_ok.mpr ⟨_, extended, Outcome.bind_eq_ok.mpr ⟨_, assigned, ?_⟩⟩
    exact Outcome.bind_eq_ok.mpr ⟨_, residual, Outcome.bind_eq_ok.mpr ⟨_, tangent, rfl⟩⟩
  · exact Outcome.bind_eq_ok.mpr ⟨_, arrays valued, Outcome.bind_eq_ok.mpr ⟨_, arrays rowed, rfl⟩⟩

/-- The checks change nothing in an element. -/
theorem Bounded.checkedSystem_eq_ok (bounded : Bounded k) (full : inputs.Full k elements count) (element : e < elements)
    {points : List (PointData α)} (fits : ∀ p ∈ points, p.Fits k.dim count k.usesNormal) (rateWeight : α) :
    ∃ sys, k.checkedSystem inputs rateWeight count e points = .ok sys ∧
      k.elementSystem inputs rateWeight count e points = .ok sys := by
  have run (w : Workspace α) (sized : w.Sized k count) : ∃ last,
      points.foldlM (k.checkedPoint inputs rateWeight count e) w = .ok last ∧
        points.foldlM (k.addPoint inputs rateWeight (count * k.width) e) w = .ok last := by
    induction points generalizing w with
    | nil => exact ⟨w, rfl, rfl⟩
    | cons p rest ih =>
        rw [List.forall_mem_cons] at fits
        obtain ⟨next, checked, added, kept⟩ := bounded.checkedPoint_eq_ok full element fits.1 rateWeight sized
        obtain ⟨last, first, second⟩ := ih fits.2 next kept
        rw [List.foldlM_cons, List.foldlM_cons, checked, added]
        exact ⟨last, first, second⟩
  obtain ⟨last, checked, added⟩ := run _ (Workspace.sized_zero k count)
  exact ⟨_, Outcome.bind_eq_ok.mpr ⟨last, checked, rfl⟩, Outcome.bind_eq_ok.mpr ⟨last, added, rfl⟩⟩

omit [Scalar α] in
theorem length_paramValues {params : Parameters α} {values : List α} (found : k.paramValues params = .ok values) :
    values.length = k.paramNames.length := by
  cases params with
  | named given =>
      simp only [paramValues] at found
      split at found
      · next none =>
          rw [List.isEmpty_iff, List.filter_eq_nil_iff] at none
          rw [Outcome.pure_eq_ok] at found
          rw [← found]
          generalize k.paramNames = names at none
          induction names with
          | nil => rfl
          | cons name rest ih =>
              rw [List.forall_mem_cons] at none
              obtain ⟨x, here⟩ : ∃ x, given.lookup name = some x :=
                Option.ne_none_iff_exists'.mp fun absent => none.1 (Option.isNone_iff_eq_none.mpr absent)
              rw [List.filterMap_cons, here, List.length_cons, List.length_cons, ih none.2]
      · rw [Outcome.throw_eq_ok] at found
        exact found.elim
  | listed given =>
      simp only [paramValues] at found
      split at found
      · next same =>
          rw [Outcome.pure_eq_ok] at found
          exact found ▸ same
      · rw [Outcome.throw_eq_ok] at found
        exact found.elim

end Agreement

/-! ### Batches -/

/-- What evaluating a batch checks before it comes to the elements. -/
theorem evaluate_eq_ok {k : Kernel} {rateWeight : α} {tab : Tabulation α} {state : NodalValues α}
    {rate external : Option (NodalValues α)} {params : Parameters α} {systems : List (ElementSystem α)} :
    let count := tab.entities.length
    let rates := rate.getD (.zeros count tab.basisCount k.width)
    let others := external.getD (.zeros count tab.basisCount k.externalWidth)
    k.evaluate tab state rate external params rateWeight = .ok systems ↔
      state.shape = [count, tab.basisCount, k.width] ∧
      others.shape = [count, tab.basisCount, k.externalWidth] ∧
      (k.usesNormal = true → tab.hasNormals = true) ∧
      ∃ values, k.paramValues params = .ok values ∧
        List.Forall₂ (fun t sys => k.elementSystem ⟨state, rates, others, values⟩ rateWeight
          tab.basisCount t.2 t.1 = .ok sys) tab.entities.zipIdx systems := by
  intro count rates others
  have check (name : String) (v : NodalValues α) (expected : List Nat) (u : Unit) :
      checkShape name v expected = .ok u ↔ v.shape = expected := by
    unfold checkShape
    split
    · next same => exact iff_of_true rfl same
    · next apart => exact iff_of_false (fun done => nomatch done) apart
  unfold evaluate
  by_cases normals : (k.usesNormal && !tab.hasNormals) = true
  · simp only [normals, ↓reduceIte]
    constructor
    · intro done
      rcases Outcome.bind_eq_ok.mp done with ⟨_, _, rest⟩
      rcases Outcome.bind_eq_ok.mp rest with ⟨_, _, rest⟩
      cases rest
    · rintro ⟨_, _, needs, _⟩
      simp at normals
      rw [needs normals.1] at normals
      cases normals.2
  · have needs : k.usesNormal = true → tab.hasNormals = true := by
      simpa using normals
    simp only [normals, Bool.false_eq_true, ↓reduceIte, Outcome.bind_eq_ok, check, Outcome.mapM_eq_ok]
    constructor
    · rintro ⟨_, first, _, second, values, valued, matched⟩
      exact ⟨first, second, needs, values, valued, matched⟩
    · rintro ⟨first, second, _, values, valued, matched⟩
      exact ⟨(), first, (), second, values, valued, matched⟩

/-- Does a tabulation have the shapes that a kernel asks for? -/
structure Fed (k : Kernel) (tab : Tabulation α) : Prop where
  points : ∀ points ∈ tab.entities, ∀ p ∈ points, p.Fits k.dim tab.basisCount k.usesNormal
  normals : k.usesNormal = true → tab.hasNormals = true

/-- With data of the right shapes, a batch is evaluated, and checking every access changes nothing. -/
theorem Bounded.evaluate_checked {k : Kernel} (bounded : Bounded k) {tab : Tabulation α} (fed : k.Fed tab)
    {state : NodalValues α} {rate external : Option (NodalValues α)} {params : Parameters α} {values : List α}
    (states : state.Full tab.entities.length tab.basisCount k.width)
    (rates : ∀ v ∈ rate, v.Full tab.entities.length tab.basisCount k.width)
    (externals : ∀ v ∈ external, v.Full tab.entities.length tab.basisCount k.externalWidth)
    (found : k.paramValues params = .ok values) (rateWeight : α) :
    let inputs : Inputs α := ⟨state, rate.getD (.zeros tab.entities.length tab.basisCount k.width),
      external.getD (.zeros tab.entities.length tab.basisCount k.externalWidth), values⟩
    ∃ systems, k.evaluate tab state rate external params rateWeight = .ok systems ∧
      List.Forall₂ (fun t sys => k.checkedSystem inputs rateWeight tab.basisCount t.2 t.1 = .ok sys)
        tab.entities.zipIdx systems := by
  intro inputs
  have full : inputs.Full k tab.entities.length tab.basisCount := by
    refine ⟨states, ?_, ?_, length_paramValues found⟩
    · cases rate with
      | none => exact NodalValues.full_zeros ..
      | some v => exact rates v rfl
    · cases external with
      | none => exact NodalValues.full_zeros ..
      | some v => exact externals v rfl
  have each : ∀ t ∈ tab.entities.zipIdx, ∃ sys, k.elementSystem inputs rateWeight tab.basisCount t.2 t.1 = .ok sys ∧
      k.checkedSystem inputs rateWeight tab.basisCount t.2 t.1 = .ok sys := by
    intro t member
    have here := List.mem_zipIdx_iff_getElem?.mp member
    have element := (List.getElem?_eq_some_iff.mp here).1
    obtain ⟨sys, checked, done⟩ := bounded.checkedSystem_eq_ok full element
      (fed.points t.1 (List.mem_of_getElem? here)) rateWeight
    exact ⟨sys, done, checked⟩
  obtain ⟨systems, mapped, checked⟩ := Outcome.mapM_of_forall each
  exact ⟨systems, evaluate_eq_ok.mpr ⟨states.shape, full.external.shape, fed.normals, values, found,
    Outcome.mapM_eq_ok.mp mapped⟩, checked⟩

end Kernel

end Galerkin
