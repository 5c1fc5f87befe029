import Mathlib
import Galerkin.Proofs.Kernel.Residual

/-!
The kernel of a form whose fields are those of the layouts never reads or writes where there is nothing: all its numbers
stay below what they number. The layouts know fields by their names alone, so that a field that only shares its name
with one of theirs leads out of range.
-/

namespace Galerkin

open Linearization (Spec)

/-- Common parts use variables, and those common parts that come before them. -/
def Calculus.SharesInOrder (rules : Calculus Quantity) : Prop :=
  ∀ {count es}, (∀ e ∈ es, ∀ i ∈ e.atoms, i < count) →
    Formula.Chained count (rules.share count es).common ∧
      ∀ e ∈ (rules.share count es).formulas, ∀ i ∈ e.atoms, i < count + (rules.share count es).common.length

theorem Calculus.textbook_sharesInOrder : (textbook : Calculus Quantity).SharesInOrder := fun known => ⟨trivial, known⟩

namespace Kernel

variable {rules : Calculus Quantity} {s : Setting} {pairs : List (Formula Quantity × Formula Quantity)}
  {l : Linearization} {k : Kernel}

/-- The dimension of a kernel, and the variables that its formulas use. -/
theorem formulas_of_ofLinearization (lawful : rules.Lawful) (ordered : rules.SharesInOrder) (spec : Spec rules s pairs l)
    {boundary : Bool} (done : ofLinearization l boundary rules.share = .ok k) : k.dim = s.dim ∧
      Formula.Chained l.table.symbolList.length k.temporaries ∧
      ∀ e ∈ k.residual.map (·.2) ++ k.tangent.map (·.2), ∀ i ∈ e.atoms,
        i < l.table.symbolList.length + k.temporaries.length := by
  have known : ∀ e ∈ (l.residual.mergeSort residualOrder).map (·.2) ++ (l.tangent.mergeSort tangentOrder).map (·.2),
      ∀ q ∈ e.atoms, q ∈ l.table.quantities := by
    refine List.forall_mem_append.mpr ⟨List.forall_mem_map.mpr fun t member => ?_,
      List.forall_mem_map.mpr fun t member => ?_⟩
    · exact spec.residual_atoms lawful t ((List.mergeSort_perm _ _).mem_iff.mp member)
    · exact spec.tangent_atoms lawful t ((List.mergeSort_perm _ _).mem_iff.mp member)
  obtain ⟨chained, formulas⟩ := ordered (numbered_of_known known)
  simp only [ofLinearization] at done
  split at done
  · cases done
  · obtain ⟨slots, -, done⟩ := Outcome.bind_eq_ok.mp done
    cases done
    refine ⟨spec.dim, chained, fun e member => formulas e ?_⟩
    have second {β : Type} {keys : List β} {es : List (Formula Nat)} {e : Formula Nat}
        (member : e ∈ (keys.zip es).map (·.2)) : e ∈ es := by
      obtain ⟨t, among, rfl⟩ := List.mem_map.mp member
      exact (List.of_mem_zip among).2
    rcases List.mem_append.mp member with residual | tangent
    · exact List.mem_of_mem_take (second residual)
    · exact List.mem_of_mem_drop (second tangent)

/-- Slots of unknowns come first. -/
theorem isUnknown_iff_lt (spec : Spec rules s pairs l) (built : Built l k) {i : Nat} {slot : Slot}
    (here : k.slots[i]? = some slot) : slot.isUnknown = true ↔ i < k.unknownCount := by
  obtain ⟨q, there, name, found⟩ := Outcome.getElem?_of_matched built.slots.flip here
  have same : slot.isUnknown = q.isUnknown := by rw [SymbolTable.slot_eq_ok found, Quantity.slot_isUnknown]
  have known := SymbolTable.symbolList_perm.mem_iff.mp (List.mem_of_getElem? there)
  obtain ⟨rest, split⟩ : ∃ rest, l.unknownList ++ rest = l.table.symbolList := SymbolTable.unknowns_prefix spec.frozen
  have first {j : Nat} (bound : j < l.unknownList.length) : l.unknownList[j]? = l.table.symbolList[j]? :=
    split ▸ (List.getElem?_append_left bound).symm
  rw [same, built.unknownCount, ← Spec.length_unknownList]
  constructor
  · intro unknown
    obtain ⟨j, early⟩ := List.mem_iff_getElem?.mp ((spec.mem_unknownList q).mpr ⟨known, unknown⟩)
    have bound := (List.getElem?_eq_some_iff.mp early).1
    rw [first bound] at early
    have distinct := SymbolTable.symbolList_perm.nodup_iff.mpr spec.distinct
    have place := (List.getElem?_inj (List.getElem?_eq_some_iff.mp there).1 distinct).mp (there.trans early.symm)
    exact place ▸ bound
  · intro inside
    exact spec.moving_of_getElem? ((first inside).trans there)

section Slots

variable {q : Quantity}

/-- The column of a quantity is one of those that its source has. -/
theorem columnOf_lt_extent (spec : Spec rules s pairs l) (built : Built l k) (dim : k.dim = s.dim)
    (known : q ∈ l.table.quantities) (inside : q.InRange s) : l.table.columnOf q < k.extent q.source := by
  cases q with
  | unknown field comps timeOrder axis =>
      have extent : k.extent (Quantity.unknown field comps timeOrder axis).source = k.width := by
        rw [Quantity.source]
        split <;> rfl
      rw [extent, built.width, SymbolTable.columnOf, spec.internal]
      exact inside.1
  | external field comps axis =>
      rw [Quantity.source, extent, built.externalWidth, SymbolTable.columnOf, spec.external]
      exact inside.1
  | param parameter =>
      rw [Quantity.source, extent, built.paramNames]
      exact List.idxOf_lt_length_of_mem (SymbolTable.mem_paramNames.mpr known)
  | normal comp =>
      rw [Quantity.source, extent, dim]
      exact inside

theorem axisOf_lt (inside : q.InRange s) : ∀ j ∈ q.axisOf, j < s.dim := by
  cases q with
  | unknown field comps timeOrder axis => exact inside.2
  | external field comps axis => exact inside.2
  | _ => exact nofun

theorem isNormal_of_source (normal : q.source = .normal) : q.isNormal = true := by
  cases q with
  | normal comp => rfl
  | unknown field comps timeOrder axis =>
      rw [Quantity.source] at normal
      split at normal <;> cases normal
  | _ => cases normal

end Slots

/-- All numbers in the kernel of a form stay below what they number. -/
theorem bounded_ofForm (lawful : rules.Lawful) (ordered : rules.SharesInOrder) {name : String} {boundary : Bool}
    {form : Expr} (fits : s.Fits form) (made : ofForm rules s name boundary form = .ok k) : k.Bounded := by
  obtain ⟨l, linearized, done⟩ := Outcome.bind_eq_ok.mp made
  obtain ⟨pairs, expanded, spec⟩ := Linearization.ofForm_eq_ok lawful linearized
  have built := ofLinearization_eq_ok lawful spec done
  obtain ⟨dim, chained, formulas⟩ := formulas_of_ofLinearization lawful ordered spec done
  have keys := keyed spec built
  have length := built.slots.length_eq
  have slots : ∀ slot ∈ k.slots, ∃ q ∈ l.table.quantities, ∃ name, q.InRange s ∧
      slot = ⟨name, q.source, l.table.columnOf q, q.axisOf⟩ := by
    intro slot member
    obtain ⟨q, present, name, found⟩ := Outcome.exists_of_matched built.slots member
    have known := SymbolTable.symbolList_perm.mem_iff.mp present
    exact ⟨q, known, name, inRange_of_mem spec (WeakForm.expand_inRange fits expanded) known, SymbolTable.slot_eq_ok found⟩
  constructor
  case columns =>
    intro slot member
    obtain ⟨q, known, name, inside, rfl⟩ := slots slot member
    exact columnOf_lt_extent spec built dim known inside
  case axes =>
    intro slot member
    obtain ⟨q, -, name, inside, rfl⟩ := slots slot member
    exact dim ▸ axisOf_lt inside
  case normal =>
    intro slot member normal
    obtain ⟨q, known, name, -, rfl⟩ := slots slot member
    exact usesNormal_of_mem built known (isNormal_of_source normal)
  case unknowns =>
    refine ⟨?_, fun i slot => isUnknown_iff_lt spec built⟩
    rw [← length, built.unknownCount, ← Spec.length_unknownList]
    exact (SymbolTable.unknowns_prefix spec.frozen).length_le
  case residual => exact fun t member => keys.residualBound t.1 (List.mem_map_of_mem member)
  case tangent => exact fun t member => keys.tangentBound t.1 (List.mem_map_of_mem member)
  case temporaries => exact length ▸ chained
  case densities => exact length ▸ formulas

/-- The kernel of a form whose fields are those of the layouts never leaves its arrays: columns, axes and unknowns are
there, the unknowns are the first slots, each of their components has a place at every control point, and checking every
access changes nothing in the evaluation of any batch of the right shapes, which succeeds. -/
theorem evaluate_inBounds (lawful : rules.Lawful) (ordered : rules.SharesInOrder) {name : String} {boundary : Bool}
    {form : Expr} (fits : s.Fits form) (made : ofForm rules s name boundary form = .ok k) :
    k.Bounded ∧
    (∀ count a i, a < count → i < k.unknownCount → a * k.width + k.column i < count * k.width) ∧
    ∀ (α : Type) [Scalar α] (tab : Tabulation α) (state : NodalValues α) (rate external : Option (NodalValues α))
      (params : Parameters α) (values : List α) (rateWeight : α), k.Fed tab →
      state.Full tab.entities.length tab.basisCount k.width →
      (∀ v ∈ rate, v.Full tab.entities.length tab.basisCount k.width) →
      (∀ v ∈ external, v.Full tab.entities.length tab.basisCount k.externalWidth) →
      k.paramValues params = .ok values →
      let inputs : Inputs α := ⟨state, rate.getD (.zeros tab.entities.length tab.basisCount k.width),
        external.getD (.zeros tab.entities.length tab.basisCount k.externalWidth), values⟩
      ∃ systems, k.evaluate tab state rate external params rateWeight = .ok systems ∧
        List.Forall₂ (fun t sys => k.checkedSystem inputs rateWeight tab.basisCount t.2 t.1 = .ok sys)
          tab.entities.zipIdx systems := by
  have bounded := bounded_ofForm lawful ordered fits made
  refine ⟨bounded, fun count a i point inside => bounded.place_lt point inside, ?_⟩
  intro α _ tab state rate external params values rateWeight fed states rates externals found
  exact bounded.evaluate_checked fed states rates externals found rateWeight

section Plane

/-- A scalar field in the plane. -/
def plane : Setting := ⟨2, ⟨2, [⟨"u", 0, false⟩]⟩, .empty 2⟩

/-- The square of a vector field that has the name of the scalar. -/
def squares : Expr :=
  .pairing (.field ⟨"u", 1, false⟩ [⟨"i"⟩] [] 0) (.field ⟨"u", 1, false⟩ [⟨"i"⟩] [] 0)

def squaresKernel : Kernel where
  name := "form"
  dim := 2
  width := 1
  externalWidth := 0
  slots := [⟨"u_0", .value, 0, none⟩, ⟨"u_1", .value, 1, none⟩]
  unknownCount := 2
  temporaries := []
  residual := [(0, .var 0), (1, .var 1)]
  tangent := [((0, 0), Formula.one), ((1, 1), Formula.one)]
  paramNames := []
  usesNormal := false
  boundary := false

theorem ofForm_squares : ofForm .textbook plane "form" false squares = .ok squaresKernel := by cbv

/-- The middle of the unit square. -/
noncomputable def middle : PointData ℝ :=
  let half : ℝ := (1 / 2 : ℚ)
  ⟨List.replicate 4 (half * half), [[-half, -half], [half, -half], [half, half], [-half, half]], 1, [half, half], []⟩

theorem evaluate_squares : squaresKernel.evaluate ⟨2, 1, 4, false, [[middle]]⟩ ⟨1, 4, 1, #[1, 1, 1, 1]⟩ none none
    (.named []) (0 : ℝ) = .error .outOfRange := by
  let values : NodalValues ℝ := ⟨1, 4, 1, #[1, 1, 1, 1]⟩
  let inputs : Inputs ℝ := ⟨values, .zeros 1 4 1, .zeros 1 4 0, []⟩
  have first : slotValue inputs 0 middle ⟨"u_0", .value, 0, none⟩ = .ok 1 := by
    simp [slotValue, basisRow, interpolated, inputs, values, NodalValues.get, middle, Arithmetic.total]
    norm_num
  have second : slotValue inputs 0 middle ⟨"u_1", .value, 1, none⟩ = .error .outOfRange := by
    simp [slotValue, basisRow, interpolated, inputs, values, NodalValues.get, middle]
    rfl
  have slots : squaresKernel.slots.toArray.mapM (slotValue inputs 0 middle) = .error .outOfRange := by
    rw [List.mapM_toArray]
    change Array.mk <$> List.mapM (slotValue inputs 0 middle) ([_] ++ _ :: []) = _
    rw [Outcome.mapM_eq_error (Outcome.mapM_eq_ok.mpr (.cons first .nil)) second]
    rfl
  have element : squaresKernel.elementSystem inputs 0 4 0 [middle] = .error .outOfRange := by
    refine Outcome.bind_eq_error.mpr (Or.inl ?_)
    rw [List.foldlM_cons]
    exact Outcome.bind_eq_error.mpr (Or.inl (Outcome.bind_eq_error.mpr (Or.inl slots)))
  let system (t : List (PointData ℝ) × Nat) := squaresKernel.elementSystem inputs 0 4 t.2 t.1
  have before : ([] : List (List (PointData ℝ) × Nat)).mapM system = .ok [] := Outcome.mapM_eq_ok.mpr .nil
  have first : system ([middle], 0) = .error .outOfRange := element
  exact Outcome.mapM_eq_error before first []

/-- A field that only shares its name with one of the layout has components that are not there. -/
theorem squares_outOfRange : ∃ k, ofForm .textbook plane "form" false squares = .ok k ∧
    (∃ s ∈ k.slots, s.source = .value ∧ k.width ≤ s.column) ∧
    k.Fed (⟨2, 1, 4, false, [[middle]]⟩ : Tabulation ℝ) ∧
    (⟨1, 4, 1, #[1, 1, 1, 1]⟩ : NodalValues ℝ).Full 1 4 k.width ∧
    k.evaluate ⟨2, 1, 4, false, [[middle]]⟩ ⟨1, 4, 1, #[1, 1, 1, 1]⟩ none none (.named []) (0 : ℝ) =
      .error .outOfRange := by
  refine ⟨squaresKernel, ofForm_squares, ⟨⟨"u_1", .value, 1, none⟩, by decide, rfl, le_rfl⟩, ⟨?_, nofun⟩, ⟨rfl, rfl⟩,
    evaluate_squares⟩
  intro points present p among
  rw [List.mem_singleton.mp present, List.mem_singleton] at among
  rw [among]
  exact ⟨rfl, rfl, by simp [middle, squaresKernel], nofun⟩

/-- In the layout that has the vector field, the same form stays inside. -/
theorem squares_inBounds : let k : Kernel := { squaresKernel with width := 2 }
    ofForm .textbook ⟨2, ⟨2, [⟨"u", 1, false⟩]⟩, .empty 2⟩ "form" false squares = .ok k ∧ k.Bounded ∧
      ∃ systems, k.evaluate ⟨2, 1, 4, false, [[middle]]⟩ (.zeros 1 4 2) none none (.named []) (0 : ℝ) = .ok systems ∧
        List.Forall₂ (fun t sys => k.checkedSystem ⟨.zeros 1 4 2, .zeros 1 4 2, .zeros 1 4 0, []⟩ 0 4 t.2 t.1 = .ok sys)
          [([middle], 0)] systems := by
  intro k
  have made : ofForm .textbook ⟨2, ⟨2, [⟨"u", 1, false⟩]⟩, .empty 2⟩ "form" false squares = .ok k := by cbv
  have fits : Setting.Fits ⟨2, ⟨2, [⟨"u", 1, false⟩]⟩, .empty 2⟩ squares := by
    refine ⟨⟨rfl, rfl, List.nodup_singleton _, List.nodup_nil⟩, fun f member => ?_⟩
    have same : f = ⟨"u", 1, false⟩ := by simpa [squares, Expr.fields] using member
    rw [same]
    exact List.mem_cons_self
  obtain ⟨bounded, -, evaluates⟩ :=
    evaluate_inBounds Calculus.textbook_lawful Calculus.textbook_sharesInOrder fits made
  have absent (width : Nat) : ∀ v ∈ (none : Option (NodalValues ℝ)), v.Full 1 4 width := by
    intro v given
    cases given
  have fed : k.Fed (⟨2, 1, 4, false, [[middle]]⟩ : Tabulation ℝ) := by
    refine ⟨fun points present p among => ?_, fun normals => ?_⟩
    · rw [List.mem_singleton.mp present, List.mem_singleton] at among
      rw [among]
      refine ⟨rfl, rfl, by simp [middle, k, squaresKernel], fun uses => ?_⟩
      cases uses
    · cases normals
  exact ⟨made, bounded, evaluates ℝ ⟨2, 1, 4, false, [[middle]]⟩ (.zeros 1 4 2) none none (.named []) [] 0 fed
    (NodalValues.full_zeros 1 4 2) (absent 2) (absent 0) rfl⟩

end Plane

end Kernel

end Galerkin
