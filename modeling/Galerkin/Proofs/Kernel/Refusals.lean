import Mathlib
import Galerkin.Proofs.Kernel.Residual

/-!
What a kernel refuses. State, external values and parameters are looked at before anything is evaluated: a call fails
as the first thing that is wrong with them says, whatever the numbers are, and the elements are worked on only with
arrays of the right shapes. Rates are not looked at: they are read where slots stand for rates, and nowhere else.
-/

namespace Galerkin

variable {α : Type}

/-- What is wrong with an array that is given for values at control points. -/
def GivenArray.faults (v : GivenArray α) (name : String) (expected : List Nat) : List Failure :=
  if v.shape = expected then [] else [.invalid (.stateShape name v.shape expected)]

namespace GivenArray

variable {v : GivenArray α} {name : String} {elements points width : Nat}

theorem firstOf_nodal :
    Outcome.FirstOf (v.faults name [elements, points, width]) (v.nodal name elements points width) := by
  rw [faults, nodal]
  split
  · exact Outcome.firstOf_nil.mpr ⟨_, rfl⟩
  · exact Outcome.firstOf_cons.mpr rfl

theorem faults_eq_nil {expected : List Nat} : v.faults name expected = [] ↔ v.shape = expected := by
  rw [faults]
  split
  · next same => exact iff_of_true rfl same
  · next other => exact iff_of_false (List.cons_ne_nil _ _) other

theorem nodal_eq_ok {w : NodalValues α} : v.nodal name elements points width = .ok w ↔
    v.shape = [elements, points, width] ∧ w = ⟨elements, points, width, v.data⟩ := by
  rw [nodal]
  split
  · next same => rw [Outcome.pure_eq_ok, eq_comm, and_iff_right same]
  · next other => exact iff_of_false nofun fun both => other both.1

theorem mapM_nodal_eq_ok {given : Option (GivenArray α)} {w : Option (NodalValues α)} :
    given.mapM (·.nodal name elements points width) = .ok w ↔
      (∀ v ∈ given, v.shape = [elements, points, width]) ∧ w = given.map fun v => ⟨elements, points, width, v.data⟩ := by
  cases given with
  | none =>
      rw [Option.mapM_none, Outcome.pure_eq_ok, eq_comm]
      exact (and_iff_right nofun).symm
  | some v =>
      refine Outcome.map_eq_ok.trans ?_
      simp only [nodal_eq_ok, Option.mem_some_iff, forall_eq', Option.map_some, and_assoc, exists_and_left, exists_eq_left]
      exact and_congr_right fun _ => eq_comm

theorem firstOf_mapM_nodal {given : Option (GivenArray α)} :
    Outcome.FirstOf (given.toList.flatMap (·.faults name [elements, points, width]))
      (given.mapM (·.nodal name elements points width)) := by
  cases given with
  | none => exact Outcome.firstOf_nil.mpr ⟨none, rfl⟩
  | some v =>
      exact Outcome.firstOf_bind firstOf_nodal fun x _ => Outcome.firstOf_nil.mpr ⟨some x, rfl⟩

end GivenArray

namespace Kernel

/-! ### Checks -/

/-- What is wrong with the parameters: names without a value, or a list of the wrong length. -/
def parameterFaults (k : Kernel) : Parameters α → List Failure
  | .named values =>
    let absent := k.paramNames.filter fun p => (values.lookup p).isNone
    if absent.isEmpty then [] else [.missing (.parameters k.name absent)]
  | .listed values =>
    if values.length = k.paramNames.length then []
    else [.invalid (.parameterCount k.paramNames.length values.length)]

/-- What is wrong with the arrays of a call, in the order in which it is noticed. -/
def arrayFaults (k : Kernel) (tab : Tabulation α) (state : GivenArray α) (external : Option (GivenArray α)) :
    List Failure :=
  let count := tab.entities.length
  state.faults "x_loc" [count, tab.basisCount, k.width] ++
    (external.toList.flatMap (·.faults "ext_loc" [count, tab.basisCount, k.externalWidth]) ++
      if k.usesNormal && !tab.hasNormals then [.invalid (.needsNormals k.name)] else [])

/-- What is wrong with a call. Parameters come last. -/
def faults (k : Kernel) (tab : Tabulation α) (state : GivenArray α) (external : Option (GivenArray α))
    (params : Parameters α) : List Failure := k.arrayFaults tab state external ++ k.parameterFaults params

theorem firstOf_paramValues (k : Kernel) (params : Parameters α) :
    Outcome.FirstOf (k.parameterFaults params) (k.paramValues params) := by
  cases params with
  | named values =>
      simp only [parameterFaults, paramValues]
      split
      · exact Outcome.firstOf_nil.mpr ⟨_, rfl⟩
      · exact Outcome.firstOf_cons.mpr rfl
  | listed values =>
      simp only [parameterFaults, paramValues]
      split
      · exact Outcome.firstOf_nil.mpr ⟨_, rfl⟩
      · exact Outcome.firstOf_cons.mpr rfl

section Calls

variable [Scalar α] (k : Kernel) (tab : Tabulation α) (state : GivenArray α) (rate : Option (NodalValues α))
  (external : Option (GivenArray α)) (params : Parameters α) (rateWeight : α)

/-- What the elements are worked on with, once all that is looked at has passed. -/
def admitted : Except Failure (Inputs α) := do
  let count := tab.entities.length
  let state ← state.nodal "x_loc" count tab.basisCount k.width
  let external ← external.mapM fun v => v.nodal "ext_loc" count tab.basisCount k.externalWidth
  if k.usesNormal && !tab.hasNormals then throw (.invalid (.needsNormals k.name))
  let values ← k.paramValues params
  pure ⟨state, rate.getD (.zeros count tab.basisCount k.width),
    external.getD (.zeros count tab.basisCount k.externalWidth), values⟩

/-- The systems of all elements, with nothing looked at. -/
def systemsOf (inputs : Inputs α) : Except Failure (List (ElementSystem α)) :=
  tab.entities.zipIdx.mapM fun (points, e) => k.elementSystem inputs rateWeight tab.basisCount e points

/-- Everything is looked at before the first element is worked on. -/
theorem call_eq_admitted : k.call tab state rate external params rateWeight =
    k.admitted tab state rate external params >>= k.systemsOf tab rateWeight := by
  simp only [call, admitted, evaluate, bind_assoc]
  refine Outcome.bind_congr fun x states => ?_
  refine Outcome.bind_congr fun given externals => ?_
  have stateShape : checkShape "x_loc" x [tab.entities.length, tab.basisCount, k.width] = .ok () := by
    rw [(GivenArray.nodal_eq_ok.mp states).2]
    exact if_pos rfl
  have externalShape : checkShape "ext_loc" (given.getD (.zeros tab.entities.length tab.basisCount k.externalWidth))
      [tab.entities.length, tab.basisCount, k.externalWidth] = .ok () := by
    rw [(GivenArray.mapM_nodal_eq_ok.mp externals).2]
    cases external <;> exact if_pos rfl
  rw [stateShape, externalShape]
  cases k.usesNormal && !tab.hasNormals
  · simp only [Outcome.ok_bind, Bool.false_eq_true, ite_false, bind_assoc]
    rfl
  · rfl

theorem firstOf_admitted :
    Outcome.FirstOf (k.faults tab state external params) (k.admitted tab state rate external params) := by
  simp only [faults, arrayFaults, List.append_assoc]
  refine Outcome.firstOf_bind GivenArray.firstOf_nodal fun x _ => ?_
  refine Outcome.firstOf_bind GivenArray.firstOf_mapM_nodal fun given _ => ?_
  cases k.usesNormal && !tab.hasNormals
  · rw [if_neg Bool.false_ne_true, if_neg Bool.false_ne_true, List.nil_append,
      ← List.append_nil (k.parameterFaults params)]
    exact Outcome.firstOf_bind (k.firstOf_paramValues params) fun values _ => Outcome.firstOf_nil.mpr ⟨_, rfl⟩
  · exact Outcome.firstOf_cons.mpr rfl

/-- What is worked on when nothing is wrong. -/
theorem admitted_eq_ok (fine : k.faults tab state external params = []) : ∃ values,
    values.length = k.paramNames.length ∧ ∀ rate, k.admitted tab state rate external params =
      .ok ⟨⟨tab.entities.length, tab.basisCount, k.width, state.data⟩,
        rate.getD (.zeros tab.entities.length tab.basisCount k.width),
        (external.map fun v => ⟨tab.entities.length, tab.basisCount, k.externalWidth, v.data⟩).getD
          (.zeros tab.entities.length tab.basisCount k.externalWidth), values⟩ := by
  have listed := (List.append_eq_nil_iff.mp fine).2
  have all := fun rate => firstOf_admitted k tab state rate external params
  rw [fine] at all
  have first := k.firstOf_paramValues params
  rw [listed] at first
  obtain ⟨values, found⟩ := Outcome.firstOf_nil.mp first
  refine ⟨values, length_paramValues found, fun rate => ?_⟩
  obtain ⟨inputs, done⟩ := Outcome.firstOf_nil.mp (all rate)
  rw [done]
  obtain ⟨x, states, done⟩ := Outcome.bind_eq_ok.mp done
  obtain ⟨given, externals, done⟩ := Outcome.bind_eq_ok.mp done
  rw [found, (GivenArray.nodal_eq_ok.mp states).2, (GivenArray.mapM_nodal_eq_ok.mp externals).2] at done
  split at done
  · cases done
  · cases done
    rfl

end Calls

section Faults

variable {k : Kernel} {tab : Tabulation α} {state : GivenArray α} {external : Option (GivenArray α)}
  {params : Parameters α}

theorem arrayFaults_eq_nil : k.arrayFaults tab state external = [] ↔
    state.shape = [tab.entities.length, tab.basisCount, k.width] ∧
    (∀ v ∈ external, v.shape = [tab.entities.length, tab.basisCount, k.externalWidth]) ∧
    (k.usesNormal = true → tab.hasNormals = true) := by
  have normals : (if k.usesNormal && !tab.hasNormals then [Failure.invalid (.needsNormals k.name)] else []) = [] ↔
      (k.usesNormal = true → tab.hasNormals = true) := by
    cases k.usesNormal <;> cases tab.hasNormals <;> simp
  simp only [arrayFaults, List.append_eq_nil_iff, GivenArray.faults_eq_nil, List.flatMap_eq_nil_iff, Option.mem_toList,
    normals, Option.mem_def]

/-- Arrays are refused as values that do not fit. -/
theorem invalid_of_mem_arrayFaults {e : Failure} (member : e ∈ k.arrayFaults tab state external) :
    ∃ why, e = .invalid why := by
  have shape {v : GivenArray α} {name : String} {expected : List Nat} (among : e ∈ v.faults name expected) :
      ∃ why, e = .invalid why := by
    rw [GivenArray.faults] at among
    split at among
    · cases among
    · exact ⟨_, List.mem_singleton.mp among⟩
  rcases List.mem_append.mp member with states | later
  · exact shape states
  · rcases List.mem_append.mp later with externals | normals
    · obtain ⟨v, -, among⟩ := List.mem_flatMap.mp externals
      exact shape among
    · split at normals
      · exact ⟨_, List.mem_singleton.mp normals⟩
      · cases normals

theorem outOfRange_notMem_faults : .outOfRange ∉ k.faults tab state external params := by
  intro member
  rcases List.mem_append.mp member with arrays | parameters
  · obtain ⟨why, impossible⟩ := invalid_of_mem_arrayFaults arrays
    cases impossible
  · cases params <;> simp only [parameterFaults] at parameters <;> split at parameters <;> simp at parameters

/-- With an array of the wrong shape, or a list of parameters of the wrong length, the first fault is a value that does
not fit. -/
theorem head?_faults_of_wrong (wrong : state.shape ≠ [tab.entities.length, tab.basisCount, k.width] ∨
      (∃ v ∈ external, v.shape ≠ [tab.entities.length, tab.basisCount, k.externalWidth]) ∨
      ∃ values, params = .listed values ∧ values.length ≠ k.paramNames.length) :
    ∃ why, (k.faults tab state external params).head? = some (.invalid why) := by
  rw [faults]
  cases arrays : k.arrayFaults tab state external with
  | cons e rest =>
      obtain ⟨why, rfl⟩ := invalid_of_mem_arrayFaults (arrays ▸ List.mem_cons_self)
      exact ⟨why, rfl⟩
  | nil =>
      obtain ⟨states, externals, -⟩ := arrayFaults_eq_nil.mp arrays
      rcases wrong with other | ⟨v, given, other⟩ | ⟨values, rfl, other⟩
      · exact absurd states other
      · exact absurd (externals v given) other
      · exact ⟨.parameterCount k.paramNames.length values.length, by simp only [parameterFaults, if_neg other]; rfl⟩

end Faults

/-! ### Work on elements -/

section Reads

variable [Scalar α] {k : Kernel} {inputs : Inputs α}

/-- Does some work fail only where an entry is not there? -/
def OnlyReads {β : Type} (x : Except Failure β) : Prop := Outcome.Avoids (· ≠ .outOfRange) x

theorem onlyReads_getElem? {β : Type} (x : Option β) :
    OnlyReads (match x with | some y => pure y | none => throw .outOfRange : Except Failure β) := by
  cases x with
  | none => exact Outcome.avoids_throw (not_not.mpr rfl)
  | some y => exact Outcome.avoids_ok y

omit [Scalar α] in
theorem onlyReads_get (v : NodalValues α) (e a c : Nat) : OnlyReads (v.get e a c) := by
  unfold NodalValues.get
  split
  · exact onlyReads_getElem? _
  · exact Outcome.avoids_throw (not_not.mpr rfl)

omit [Scalar α] in
theorem onlyReads_basisRow (p : PointData α) (axis : Option Nat) : OnlyReads (basisRow p axis) := by
  cases axis with
  | none => exact Outcome.avoids_ok _
  | some j => exact Outcome.avoids_mapM fun g _ => onlyReads_getElem? _

theorem onlyReads_interpolated (v : NodalValues α) (e column : Nat) (p : PointData α) (axis : Option Nat) :
    OnlyReads (do interpolated v e column (← basisRow p axis)) := by
  refine Outcome.avoids_bind (onlyReads_basisRow p axis) fun row _ => ?_
  refine Outcome.avoids_bind ?_ fun _ _ => Outcome.avoids_ok _
  exact Outcome.avoids_mapM fun t _ => Outcome.avoids_bind (onlyReads_get v e _ column) fun _ _ => Outcome.avoids_ok _

theorem onlyReads_slotValue (e : Nat) (p : PointData α) (s : Slot) : OnlyReads (slotValue inputs e p s) := by
  unfold slotValue
  cases s.source with
  | param => exact onlyReads_getElem? _
  | normal => exact onlyReads_getElem? _
  | value => exact onlyReads_interpolated inputs.state e s.column p s.axis
  | rate => exact onlyReads_interpolated inputs.rate e s.column p s.axis
  | external => exact onlyReads_interpolated inputs.external e s.column p s.axis

omit [Scalar α] in
theorem onlyReads_toArray {β γ : Type} {f : β → Except Failure γ} {xs : List β} (each : ∀ x ∈ xs, OnlyReads (f x)) :
    OnlyReads (xs.toArray.mapM f) := by
  rw [List.mapM_toArray, map_eq_pure_bind]
  exact Outcome.avoids_bind (Outcome.avoids_mapM each) fun _ _ => Outcome.avoids_ok _

theorem onlyReads_systemsOf (tab : Tabulation α) (rateWeight : α) : OnlyReads (k.systemsOf tab rateWeight inputs) := by
  refine Outcome.avoids_mapM fun t _ => Outcome.avoids_bind ?_ fun _ _ => Outcome.avoids_ok _
  refine Outcome.avoids_foldlM (fun p _ w => ?_) _
  refine Outcome.avoids_bind ?_ fun values _ => Outcome.avoids_bind ?_ fun rows _ => Outcome.avoids_ok _
  · exact onlyReads_toArray fun s _ => onlyReads_slotValue t.2 p s
  · exact onlyReads_toArray fun s _ => onlyReads_basisRow p s.axis

/-- Where some slot of some point finds nothing to read, this is how the work ends. -/
theorem systemsOf_eq_error {k : Kernel} {inputs : Inputs ℝ} {tab : Tabulation ℝ} {points : List (PointData ℝ)} {e : Nat}
    (here : tab.entities[e]? = some points) {p : PointData ℝ} (among : p ∈ points) (lacks : ¬Readable k inputs e p)
    (rateWeight : ℝ) : k.systemsOf tab rateWeight inputs = .error .outOfRange := by
  cases done : k.systemsOf tab rateWeight inputs with
  | error d => rw [not_not.mp (onlyReads_systemsOf tab rateWeight d done)]
  | ok systems =>
      have member : (points, e) ∈ tab.entities.zipIdx := List.mem_zipIdx_iff_getElem?.mpr here
      obtain ⟨system, -, made⟩ := Outcome.exists_of_matched_left (Outcome.mapM_eq_ok.mp done) member
      exact absurd (elementSystem_isOk_iff.mp ⟨system, made⟩ p among) lacks

variable {rate : NodalValues α}

theorem slotValue_eq_of_rates {e : Nat} {s : Slot}
    (same : s.source = .rate → ∀ a, inputs.rate.get e a s.column = rate.get e a s.column) (p : PointData α) :
    slotValue inputs e p s = slotValue { inputs with rate := rate } e p s := by
  unfold slotValue
  cases source : s.source with
  | rate => simp only [interpolated, same source]
  | _ => rfl

theorem systemsOf_eq_of_rates {tab : Tabulation α}
    (same : ∀ s ∈ k.slots, s.source = .rate → ∀ e < tab.entities.length, ∀ a,
      inputs.rate.get e a s.column = rate.get e a s.column) (rateWeight : α) :
    k.systemsOf tab rateWeight inputs = k.systemsOf tab rateWeight { inputs with rate := rate } := by
  refine Outcome.mapM_congr fun t member => ?_
  have inside : t.2 < tab.entities.length := (List.getElem?_eq_some_iff.mp (List.mem_zipIdx_iff_getElem?.mp member)).1
  have run (w : Workspace α) : t.1.foldlM (k.addPoint inputs rateWeight (tab.basisCount * k.width) t.2) w =
      t.1.foldlM (k.addPoint { inputs with rate := rate } rateWeight (tab.basisCount * k.width) t.2) w := by
    refine Outcome.foldlM_congr (fun p _ w => ?_) w
    have values : k.slots.mapM (slotValue inputs t.2 p) = k.slots.mapM (slotValue { inputs with rate := rate } t.2 p) :=
      Outcome.mapM_congr fun s member => slotValue_eq_of_rates (fun source => same s member source t.2 inside) p
    simp only [addPoint, List.mapM_toArray, values]
  simp only [elementSystem, run]

end Reads

/-- A call fails as the first fault says, before any element is worked on: wrong shapes of the state or of external
values, and lists of parameters of the wrong length, are refused whatever the numbers are. Where there is no fault, the
elements are worked on with arrays of the right shapes, and all that can fail there is that an entry is not there. Rates
are not looked at, and only their entries in the columns of slots that stand for rates are read. -/
theorem call_refuses [Scalar α] (k : Kernel) (tab : Tabulation α) (state : GivenArray α)
    (external : Option (GivenArray α)) (params : Parameters α) :
    let count := tab.entities.length
    let stateShape := [count, tab.basisCount, k.width]
    let externalShape := [count, tab.basisCount, k.externalWidth]
    (∀ rate rateWeight e, k.call tab state rate external params rateWeight = .error e ∧ e ≠ .outOfRange ↔
      (k.faults tab state external params).head? = some e) ∧
    (state.shape ≠ stateShape ∨ (∃ v ∈ external, v.shape ≠ externalShape) ∨
        (∃ values, params = .listed values ∧ values.length ≠ k.paramNames.length) →
      ∃ why, ∀ rate rateWeight, k.call tab state rate external params rateWeight = .error (.invalid why)) ∧
    (k.faults tab state external params = [] →
      state.shape = stateShape ∧ (∀ v ∈ external, v.shape = externalShape) ∧ ∃ values,
        values.length = k.paramNames.length ∧ ∀ rate rateWeight, k.call tab state rate external params rateWeight =
          k.systemsOf tab rateWeight ⟨⟨count, tab.basisCount, k.width, state.data⟩,
            rate.getD (.zeros count tab.basisCount k.width),
            (external.map fun v => ⟨count, tab.basisCount, k.externalWidth, v.data⟩).getD
              (.zeros count tab.basisCount k.externalWidth), values⟩) ∧
    ∀ rate rate' : NodalValues α, (∀ s ∈ k.slots, s.source = .rate → ∀ e < count, ∀ a,
        rate.get e a s.column = rate'.get e a s.column) →
      ∀ rateWeight, k.call tab state (some rate) external params rateWeight =
        k.call tab state (some rate') external params rateWeight := by
  intro count stateShape externalShape
  have first : ∀ rate rateWeight e, k.call tab state rate external params rateWeight = .error e ∧ e ≠ .outOfRange ↔
      (k.faults tab state external params).head? = some e := by
    intro rate rateWeight e
    have good : ∀ d ∈ k.faults tab state external params, d ≠ .outOfRange := by
      rintro d member rfl
      exact outOfRange_notMem_faults member
    rw [call_eq_admitted]
    exact Outcome.firstOf_bind_avoids (firstOf_admitted k tab state rate external params) good
      (fun inputs _ => onlyReads_systemsOf tab rateWeight) e
  refine ⟨first, fun wrong => ?_, fun fine => ?_, fun rate rate' same rateWeight => ?_⟩
  · obtain ⟨why, head⟩ := head?_faults_of_wrong wrong
    exact ⟨why, fun rate rateWeight => ((first rate rateWeight _).mpr head).1⟩
  · obtain ⟨states, externals, -⟩ := arrayFaults_eq_nil.mp (List.append_eq_nil_iff.mp fine).1
    obtain ⟨values, length, admits⟩ := admitted_eq_ok k tab state external params fine
    refine ⟨states, externals, values, length, fun rate rateWeight => ?_⟩
    rw [call_eq_admitted, admits]
    rfl
  · cases faults : k.faults tab state external params with
    | cons e rest =>
        have refused := fun rate => ((first rate rateWeight e).mpr (faults ▸ rfl)).1
        rw [refused, refused]
    | nil =>
        obtain ⟨values, -, admits⟩ := admitted_eq_ok k tab state external params faults
        rw [call_eq_admitted, call_eq_admitted, admits, admits]
        exact systemsOf_eq_of_rates same rateWeight

section Storage

/-- A scalar paired with its rate. -/
def storage : Expr := .pairing (.bare ⟨"u", 0, false⟩) (.field ⟨"u", 0, false⟩ [] [] 1)

def storageKernel : Kernel where
  name := "storage"
  dim := 1
  width := 1
  externalWidth := 0
  slots := [⟨"u", .value, 0, none⟩, ⟨"u_t", .rate, 0, none⟩]
  unknownCount := 2
  temporaries := []
  residual := [(0, .var 1)]
  tangent := [((0, 1), Formula.one)]
  paramNames := []
  usesNormal := false
  boundary := false

theorem ofForm_storage : ofForm .textbook line "storage" false storage = .ok storageKernel := by cbv

theorem storage_faults : storageKernel.faults (⟨1, 1, 2, false, [[thirdPoint]]⟩ : Tabulation ℝ) ⟨[1, 2, 1], #[0, 0]⟩
    none (.named []) = [] :=
  List.append_eq_nil_iff.mpr ⟨arrayFaults_eq_nil.mpr ⟨rfl, nofun, nofun⟩, rfl⟩

/-- Rates of the wrong shape are not refused: more components than there are unknowns are passed over, and with too few
control points the evaluation leaves the array. -/
theorem storage_misshapen_rate :
    let tab : Tabulation ℝ := ⟨1, 1, 2, false, [[thirdPoint]]⟩
    ∃ k, ofForm .textbook line "storage" false storage = .ok k ∧
      (⟨1, 2, 2, #[3, 0, 6, 0]⟩ : NodalValues ℝ).shape ≠ [1, 2, k.width] ∧
      (∃ systems, k.call tab ⟨[1, 2, 1], #[0, 0]⟩ (some ⟨1, 2, 2, #[3, 0, 6, 0]⟩) none (.named []) 0 = .ok systems) ∧
      (⟨1, 1, 1, #[3]⟩ : NodalValues ℝ).shape ≠ [1, 2, k.width] ∧
      k.call tab ⟨[1, 2, 1], #[0, 0]⟩ (some ⟨1, 1, 1, #[3]⟩) none (.named []) 0 = .error .outOfRange := by
  intro tab
  obtain ⟨values, -, admits⟩ := admitted_eq_ok storageKernel tab ⟨[1, 2, 1], #[0, 0]⟩ none (.named []) storage_faults
  refine ⟨storageKernel, ofForm_storage, by decide, ?_, by decide, ?_⟩
  · rw [call_eq_admitted, admits]
    let inputs : Inputs ℝ := ⟨⟨1, 2, 1, #[0, 0]⟩, ⟨1, 2, 2, #[3, 0, 6, 0]⟩, .zeros 1 2 0, values⟩
    have reads {v : NodalValues ℝ} {width : Nat} (full : v.Full 1 2 width) (inside : 0 < width) :
        ∃ x, (do interpolated v 0 0 (← basisRow thirdPoint none)) = .ok x :=
      interpolated_isOk_of_full full Nat.one_pos inside le_rfl
    have readable : Readable storageKernel inputs 0 thirdPoint := by
      intro s member
      rcases List.mem_pair.mp member with rfl | rfl
      · obtain ⟨x, value⟩ := reads (v := inputs.state) ⟨rfl, rfl⟩ Nat.one_pos
        exact ⟨x, thirdPoint.basis, value, rfl⟩
      · obtain ⟨x, value⟩ := reads (v := inputs.rate) ⟨rfl, rfl⟩ Nat.two_pos
        exact ⟨x, thirdPoint.basis, value, rfl⟩
    obtain ⟨system, done⟩ := elementSystem_isOk_iff.mpr fun p (among : p ∈ [thirdPoint]) =>
      List.mem_singleton.mp among ▸ readable
    exact ⟨[system], Outcome.mapM_eq_ok.mpr (.cons done .nil)⟩
  · rw [call_eq_admitted, admits]
    refine systemsOf_eq_error (e := 0) rfl (List.mem_singleton_self thirdPoint) (fun readable => ?_) 0
    obtain ⟨x, row, value, found⟩ := readable ⟨"u_t", .rate, 0, none⟩ (by decide)
    obtain ⟨row, found, summed⟩ := Outcome.bind_eq_ok.mp value
    cases found
    have second := (interpolated_eq_ok summed).1 1 (by decide)
    exact lt_irrefl 1 second.1

/-- A flat state is refused; with a state of the right shape, rates with a component too many are as good as those
without. -/
theorem storage_refuses :
    let tab : Tabulation ℝ := ⟨1, 1, 2, false, [[thirdPoint]]⟩
    (∃ why, ∀ rate rateWeight, storageKernel.call tab ⟨[1, 2], #[0, 0]⟩ rate none (.named []) rateWeight =
      .error (.invalid why)) ∧
    (∃ values, values.length = 0 ∧ ∀ rate rateWeight,
      storageKernel.call tab ⟨[1, 2, 1], #[0, 0]⟩ rate none (.named []) rateWeight =
        storageKernel.systemsOf tab rateWeight ⟨⟨1, 2, 1, #[0, 0]⟩, rate.getD (.zeros 1 2 1), .zeros 1 2 0, values⟩) ∧
    let evaluated := fun rate => storageKernel.call tab ⟨[1, 2, 1], #[0, 0]⟩ (some rate) none (.named [])
    ∀ rateWeight, evaluated ⟨1, 2, 2, #[3, 0, 6, 0]⟩ rateWeight = evaluated ⟨1, 2, 1, #[3, 6]⟩ rateWeight := by
  intro tab
  obtain ⟨-, refused, -⟩ := call_refuses storageKernel tab ⟨[1, 2], #[0, 0]⟩ none (.named [])
  obtain ⟨-, -, admitted, reads⟩ := call_refuses storageKernel tab ⟨[1, 2, 1], #[0, 0]⟩ none (.named [])
  obtain ⟨-, -, values, length, done⟩ := admitted storage_faults
  refine ⟨refused (Or.inl ?_), ⟨values, length, done⟩, reads _ _ ?_⟩
  · decide
  · intro s member source e inside a
    have column : s.column = 0 := by
      rcases List.mem_pair.mp member with rfl | rfl <;> rfl
    rw [column, Nat.lt_one_iff.mp inside]
    match a with
    | 0 => rfl
    | 1 => rfl
    | a + 2 => rfl

end Storage

end Kernel

end Galerkin
