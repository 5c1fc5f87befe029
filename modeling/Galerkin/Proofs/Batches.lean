import Mathlib
import Galerkin.Proofs.Kernel.Refusals
import Galerkin.Proofs.Tabulation.Normals

/-!
Batches. What comes of a batch of facets, and of the elements that a kernel is called on, is what comes of each row alone,
in any arithmetic. The rows in another order, or some of them, have their results in this order.
-/

namespace Galerkin

section Picked

variable {β γ : Type} {order : List Nat}

/-- The entries at some positions, in the order of these. -/
def picked (order : List Nat) (xs : List β) : List β := order.filterMap (xs[·]?)

theorem picked_cons (k : Nat) (xs : List β) : picked (k :: order) xs = xs[k]?.toList ++ picked order xs := by
  rw [picked, List.filterMap_cons]
  cases xs[k]? <;> rfl

theorem picked_singleton {k : Nat} {xs : List β} {x : β} (here : xs[k]? = some x) : picked [k] xs = [x] := by
  rw [picked_cons, here]
  rfl

theorem getElem?_picked {xs : List β} (inside : ∀ k ∈ order, k < xs.length) (i : Nat) :
    (picked order xs)[i]? = order[i]?.bind (xs[·]?) := by
  induction order generalizing i with
  | nil => rfl
  | cons k rest ih =>
      rw [List.forall_mem_cons] at inside
      rw [picked_cons, List.getElem?_eq_getElem inside.1, Option.toList_some, List.singleton_append]
      cases i with
      | zero => exact (List.getElem?_eq_getElem inside.1).symm
      | succ i => exact ih inside.2 i

theorem length_picked {xs : List β} (inside : ∀ k ∈ order, k < xs.length) : (picked order xs).length = order.length := by
  induction order with
  | nil => rfl
  | cons k rest ih =>
      rw [List.forall_mem_cons] at inside
      rw [picked_cons, List.getElem?_eq_getElem inside.1, List.length_append, ih inside.2, List.length_cons]
      exact Nat.add_comm 1 rest.length

theorem zip_picked {xs : List β} {ys : List γ} (same : ys.length = xs.length) :
    (picked order xs).zip (picked order ys) = picked order (xs.zip ys) := by
  induction order with
  | nil => rfl
  | cons k rest ih =>
      rw [picked_cons, picked_cons, picked_cons, ← ih]
      by_cases inside : k < xs.length
      · obtain ⟨x, here⟩ : ∃ x, xs[k]? = some x := ⟨_, List.getElem?_eq_getElem inside⟩
        obtain ⟨y, there⟩ : ∃ y, ys[k]? = some y := ⟨_, List.getElem?_eq_getElem (same ▸ inside)⟩
        have both : (xs.zip ys)[k]? = some (x, y) := List.getElem?_zip_eq_some.mpr ⟨here, there⟩
        rw [here, there, both]
        rfl
      · have outside := Nat.le_of_not_lt inside
        rw [List.getElem?_eq_none outside, List.getElem?_eq_none (same ▸ outside),
          List.getElem?_eq_none (List.length_zip.trans_le (Nat.min_le_left _ _ |>.trans outside))]
        rfl

theorem matched_picked {R : β → γ → Prop} {xs : List β} {ys : List γ} (matched : List.Forall₂ R xs ys)
    (order : List Nat) : List.Forall₂ R (picked order xs) (picked order ys) := by
  induction order with
  | nil => exact .nil
  | cons k rest ih =>
      rw [picked_cons, picked_cons]
      refine List.rel_append ?_ ih
      cases here : xs[k]? with
      | none =>
          rw [List.getElem?_eq_none (matched.length_eq ▸ List.getElem?_eq_none_iff.mp here)]
          exact .nil
      | some x =>
          obtain ⟨y, there, related⟩ := Outcome.getElem?_of_matched matched here
          rw [there]
          exact .cons related .nil

end Picked

variable {α : Type}

/-! ### Facets -/

/-- The control points of some elements of a batch. -/
def ControlNets.pick (nets : ControlNets α) (order : List Nat) : ControlNets α :=
  { nets with nets := picked order nets.nets }

namespace Tabulation

def pick (tab : Tabulation α) (order : List Nat) : Tabulation α := { tab with entities := picked order tab.entities }

/-- The numbers under which some entities of a batch are reported. -/
def pickedIds (ids : Option (List Int)) (order : List Nat) : Option (List Int) :=
  some (match ids with
    | none => order.map fun k => (k : Int)
    | some ids => picked order ids)

theorem reportedId_pickedIds (ids : Option (List Int)) (k : Nat) :
    reportedId (pickedIds ids [k]) 0 = reportedId ids k := by
  cases ids with
  | none => rfl
  | some ids =>
      rw [pickedIds, picked_cons]
      cases here : ids[k]? <;> simp [reportedId, here, picked]

variable [Scalar α] {e : Element} {nets : ControlNets α} {rule : Rule α} {ids : Option (List Int)} {locals : List Int}
  {tab : Tabulation α}

theorem onFacets_pick (full : locals.length = nets.nets.length) (done : onFacets e nets locals rule ids = .ok tab)
    (order : List Nat) (numbers : Option (List Int)) :
    onFacets e (nets.pick order) (picked order locals) rule numbers = .ok (tab.pick order) := by
  obtain ⟨entities, matched, rfl⟩ := (onFacets_matched full).mp done
  have still : (picked order locals).length = (nets.pick order).nets.length :=
    (matched_picked (R := fun _ _ => True) (List.forall₂_iff_get.mpr ⟨full, fun _ _ _ => trivial⟩) order).length_eq
  refine (onFacets_matched still).mpr ⟨picked order entities, ?_, rfl⟩
  rw [ControlNets.pick, zip_picked full]
  exact matched_picked matched order

theorem onFacets_alone {k : Nat} {l : Int} {net : List (List α)} (here : locals[k]? = some l)
    (there : nets.nets[k]? = some net) :
    onFacets e (nets.pick [k]) (picked [k] locals) rule (pickedIds ids [k]) =
      facetRow e nets.dim nets.points rule ids k l net >>= fun data =>
        pure ⟨nets.dim, rule.length, nets.points, true, [data]⟩ := by
  have single : ascending [l] = [l] := by simp [ascending, List.eraseDups_cons]
  have row : rowsOf [l] l = [0] := by simp [rowsOf]
  rw [ControlNets.pick, picked_singleton here, picked_singleton there, onFacets, single, List.mapM_cons, row,
    facetGroup_eq_mapM (List.cons_ne_nil 0 []) (by simp)]
  simp only [List.mapM_cons, List.mapM_nil, List.getD_cons_zero, facetRow_congr (reportedId_pickedIds ids k)]
  cases facetRow e nets.dim nets.points rule ids k l net with
  | error f => rfl
  | ok data => rfl

theorem reported_of_mapEntity {axes dim k : Nat} {net : List (List α)} {points : List (ReferencePoint α)}
    {err : AssemblyError} (failed : mapEntity axes dim ids k net points = .error (.assembly err)) :
    reportedId ids k = .ok err.entity := by
  rcases Outcome.bind_eq_error.mp failed with failed | ⟨all, -, failed⟩
  · obtain ⟨p, -, failed⟩ := Outcome.exists_of_mapM_eq_error failed
    unfold mapped at failed
    dsimp only at failed
    split at failed <;> cases failed
  · split at failed
    · rcases Outcome.bind_eq_error.mp failed with unreported | ⟨id, reported, failed⟩
      · unfold reportedId at unreported
        repeat' split at unreported
        all_goals cases unreported
      · cases failed
        exact reported
    · cases failed

theorem facetPoint_ne_assembly {c : Cell} {facet : List Nat} {x : List α} {err : AssemblyError} :
    c.facetPoint facet x ≠ .error (.assembly err) := by
  intro failed
  rcases Outcome.bind_eq_error.mp failed with failed | ⟨_, -, impossible⟩
  · unfold Cell.cornerWeights at failed
    split at failed <;> cases failed
  · cases impossible

/-- A row that is refused for its map is named by its number. -/
theorem reported_of_facetRow {dim points k : Nat} {l : Int} {net : List (List α)} {err : AssemblyError}
    (failed : facetRow e dim points rule ids k l net = .error (.assembly err)) : reportedId ids k = .ok err.entity := by
  unfold facetRow at failed
  split at failed
  swap
  · cases failed
  next facet found =>
    rcases Outcome.bind_eq_error.mp failed with failed | ⟨positions, -, failed⟩
    · obtain ⟨q, -, failed⟩ := Outcome.exists_of_mapM_eq_error failed
      exact absurd failed facetPoint_ne_assembly
    · split at failed
      · cases failed
      · rcases Outcome.bind_eq_error.mp failed with failed | ⟨_, -, impossible⟩
        · exact reported_of_mapEntity failed
        · cases impossible

end Tabulation

/-! ### Kernels -/

/-- The rows of a table that has `size` entries to a row. -/
def pickRows {β : Type} (size : Nat) (order : List Nat) (data : Array β) : Array β :=
  (order.flatMap fun e => (data.extract (e * size) ((e + 1) * size)).toList).toArray

def NodalValues.pick (v : NodalValues α) (order : List Nat) : NodalValues α :=
  ⟨order.length, v.points, v.width, pickRows (v.points * v.width) order v.data⟩

def GivenArray.pick (v : GivenArray α) (order : List Nat) : GivenArray α :=
  match v.shape with
  | [] => v
  | _ :: rest => ⟨order.length :: rest, pickRows rest.prod order v.data⟩

theorem GivenArray.pick_of_shape {v : GivenArray α} {elements points width : Nat} (shape : v.shape = [elements, points, width])
    (order : List Nat) : v.pick order =
      ⟨[order.length, points, width], ((⟨elements, points, width, v.data⟩ : NodalValues α).pick order).data⟩ := by
  obtain ⟨_, data⟩ := v
  cases shape
  simp [pick, NodalValues.pick]

/-- Does an array hold an entry for each place, in at least `count` rows? -/
structure NodalValues.Covers (v : NodalValues α) (count : Nat) : Prop where
  full : v.Full v.elements v.points v.width
  rows : count ≤ v.elements

namespace Kernel

variable {v : NodalValues α} {order : List Nat} {count : Nat}

theorem agree_pick (covers : v.Covers count) (inside : ∀ e ∈ order, e < count) {i e : Nat} (here : order[i]? = some e) :
    Agree (v.pick order) i v e := by
  let row := fun e => (v.data.extract (e * (v.points * v.width)) ((e + 1) * (v.points * v.width))).toList
  have length : ∀ e ∈ order, (row e).length = v.points * v.width := by
    intro e member
    have last : (e + 1) * (v.points * v.width) ≤ v.data.size := by
      rw [covers.full.data, Nat.mul_assoc]
      exact Nat.mul_le_mul_right _ (Nat.lt_of_lt_of_le (inside e member) covers.rows)
    rw [Array.length_toList, Array.size_extract, Nat.min_eq_left last, Nat.add_mul, one_mul, Nat.add_sub_cancel_left]
  have alone : Agree (v.pick order) i ⟨1, v.points, v.width, (row e).toArray⟩ 0 := agree_flatMap length here
  have member := List.mem_of_getElem? here
  have bound : e < v.elements := Nat.lt_of_lt_of_le (inside e member) covers.rows
  intro a c
  rw [alone a c]
  by_cases within : a < v.points ∧ c < v.width
  · have place : (e * v.points + a) * v.width + c = e * (v.points * v.width) + (a * v.width + c) := by ring
    have short : a * v.width + c < (row e).length := by
      calc a * v.width + c < a * v.width + v.width := by omega
        _ = (a + 1) * v.width := by ring
        _ ≤ v.points * v.width := Nat.mul_le_mul_right _ within.1
        _ = (row e).length := (length e member).symm
    have entry : (row e)[a * v.width + c]? = v.data[e * (v.points * v.width) + (a * v.width + c)]? := by
      rw [Array.length_toList, Array.size_extract] at short
      rw [Array.getElem?_toList, Array.getElem?_extract_of_lt short]
      exact (Array.getElem?_eq_getElem _).symm
    simp only [NodalValues.get, bound, within, and_self, if_true, Nat.zero_lt_one, List.getElem?_toArray, place,
      Nat.zero_mul, Nat.zero_add, entry]
  · simp [NodalValues.get, within]

theorem agree_zeros [Zero α] {n n' e e' : Nat} (first : e < n) (second : e' < n') (points width : Nat) :
    Agree (.zeros n points width : NodalValues α) e (.zeros n' points width) e' := by
  have only {n e a c : Nat} {x : α} (read : (.zeros n points width : NodalValues α).get e a c = .ok x) : x = 0 := by
    unfold NodalValues.get at read
    split at read
    · split at read
      · next y here =>
          cases read
          have member := Array.mem_of_getElem? here
          simp only [NodalValues.zeros, NodalValues.ofFn, List.mem_toArray, List.mem_map] at member
          obtain ⟨-, -, rfl⟩ := member
          rfl
      · cases read
    · cases read
  intro a c
  by_cases within : a < points ∧ c < width
  · obtain ⟨x, left⟩ := (NodalValues.full_zeros n points width).get_isOk (α := α) first within.1 within.2
    obtain ⟨y, right⟩ := (NodalValues.full_zeros n' points width).get_isOk (α := α) second within.1 within.2
    rw [left, right, only left, only right]
  · simp [NodalValues.get, NodalValues.zeros, NodalValues.ofFn, within]

/-! ### Calls -/

section Calls

variable [Scalar α] {k : Kernel} {tab : Tabulation α} {state : GivenArray α} {rate : Option (NodalValues α)}
  {external : Option (GivenArray α)} {params : Parameters α} {rateWeight : α} {systems : List (ElementSystem α)}

/-- What the elements of a batch are worked on with. -/
def gathered (k : Kernel) (tab : Tabulation α) (state : GivenArray α) (rate : Option (NodalValues α))
    (external : Option (GivenArray α)) (values : List α) : Inputs α :=
  ⟨⟨tab.entities.length, tab.basisCount, k.width, state.data⟩,
    rate.getD (.zeros tab.entities.length tab.basisCount k.width),
    (external.map fun v => ⟨tab.entities.length, tab.basisCount, k.externalWidth, v.data⟩).getD
      (.zeros tab.entities.length tab.basisCount k.externalWidth), values⟩

theorem call_eq_ok : k.call tab state rate external params rateWeight = .ok systems ↔
    k.arrayFaults tab state external = [] ∧ ∃ values, k.paramValues params = .ok values ∧
      k.systemsOf tab rateWeight (k.gathered tab state rate external values) = .ok systems := by
  have others : ((external.map fun v => (⟨tab.entities.length, tab.basisCount, k.externalWidth, v.data⟩ : NodalValues α)).getD
      (.zeros tab.entities.length tab.basisCount k.externalWidth)).shape =
        [tab.entities.length, tab.basisCount, k.externalWidth] := by
    cases external <;> rfl
  simp only [call, Outcome.bind_eq_ok, GivenArray.nodal_eq_ok, GivenArray.mapM_nodal_eq_ok, evaluate_eq_ok,
    arrayFaults_eq_nil, systemsOf, gathered, Outcome.mapM_eq_ok]
  constructor
  · rintro ⟨_, ⟨states, rfl⟩, _, ⟨externals, rfl⟩, -, -, normals, found⟩
    exact ⟨⟨states, externals, normals⟩, found⟩
  · rintro ⟨⟨states, externals, normals⟩, found⟩
    exact ⟨_, ⟨states, rfl⟩, _, ⟨externals, rfl⟩, rfl, others, normals, found⟩

omit [Scalar α] in
theorem arrayFaults_pick (fits : k.arrayFaults tab state external = []) (inside : ∀ e ∈ order, e < tab.entities.length) :
    k.arrayFaults (tab.pick order) (state.pick order) (external.map (·.pick order)) = [] := by
  obtain ⟨states, externals, normals⟩ := arrayFaults_eq_nil.mp fits
  have length : (tab.pick order).entities.length = order.length := length_picked inside
  refine arrayFaults_eq_nil.mpr ⟨?_, ?_, normals⟩
  · rw [length, GivenArray.pick_of_shape states]
    rfl
  · intro w among
    obtain ⟨v, given, rfl⟩ := Option.mem_map.mp among
    rw [length, GivenArray.pick_of_shape (externals v given)]
    rfl

omit [Scalar α] in
theorem arrayFaults_of_pick {e : Nat} (first : state.shape.head? = some tab.entities.length)
    (others : ∀ v ∈ external, v.shape.head? = some tab.entities.length)
    (fits : k.arrayFaults (tab.pick [e]) (state.pick [e]) (external.map (·.pick [e])) = []) :
    k.arrayFaults tab state external = [] := by
  obtain ⟨states, externals, normals⟩ := arrayFaults_eq_nil.mp fits
  have restored {v : GivenArray α} {width : Nat} (head : v.shape.head? = some tab.entities.length)
      (shape : (v.pick [e]).shape = [(tab.pick [e]).entities.length, tab.basisCount, width]) :
      v.shape = [tab.entities.length, tab.basisCount, width] := by
    obtain ⟨shape', data⟩ := v
    cases shape' with
    | nil => cases head
    | cons n rest =>
        cases head
        obtain ⟨-, rfl⟩ := List.cons.inj shape
        rfl
  refine arrayFaults_eq_nil.mpr ⟨restored first states, fun v given => ?_, normals⟩
  exact restored (others v given) (externals _ (Option.mem_map_of_mem _ given))

/-- A row of a batch has the system that it had in the batch it is taken from. -/
theorem elementSystem_pick (fits : k.arrayFaults tab state external = []) (states : state.data.size = state.shape.prod)
    (externals : ∀ v ∈ external, v.data.size = v.shape.prod) (rates : ∀ v ∈ rate, v.Covers tab.entities.length)
    (inside : ∀ e ∈ order, e < tab.entities.length) {i e : Nat} (here : order[i]? = some e) (values : List α)
    (points : List (PointData α)) :
    k.elementSystem (k.gathered (tab.pick order) (state.pick order) (rate.map (·.pick order)) (external.map (·.pick order))
      values) rateWeight tab.basisCount i points =
        k.elementSystem (k.gathered tab state rate external values) rateWeight tab.basisCount e points := by
  obtain ⟨stateShape, externalShape, -⟩ := arrayFaults_eq_nil.mp fits
  have length : (tab.pick order).entities.length = order.length := length_picked inside
  have first : i < (tab.pick order).entities.length := length ▸ (List.getElem?_eq_some_iff.mp here).1
  have second := inside e (List.mem_of_getElem? here)
  have whole {v : GivenArray α} {width : Nat} (full : v.data.size = v.shape.prod)
      (shape : v.shape = [tab.entities.length, tab.basisCount, width]) :
      Agree ⟨(tab.pick order).entities.length, tab.basisCount, width, (v.pick order).data⟩ i
        ⟨tab.entities.length, tab.basisCount, width, v.data⟩ e := by
    have covers : NodalValues.Covers ⟨tab.entities.length, tab.basisCount, width, v.data⟩ tab.entities.length := by
      refine ⟨⟨rfl, full.trans ?_⟩, le_rfl⟩
      simp [shape, Nat.mul_assoc]
    rw [length, GivenArray.pick_of_shape shape]
    exact agree_pick covers inside here
  have rated : Agree ((rate.map (·.pick order)).getD (.zeros (tab.pick order).entities.length tab.basisCount k.width)) i
      (rate.getD (.zeros tab.entities.length tab.basisCount k.width)) e := by
    cases rate with
    | none => exact agree_zeros first second _ _
    | some v => exact agree_pick (rates v rfl) inside here
  have given : Agree (((external.map (·.pick order)).map fun v =>
      ⟨(tab.pick order).entities.length, tab.basisCount, k.externalWidth, v.data⟩).getD
        (.zeros (tab.pick order).entities.length tab.basisCount k.externalWidth)) i
      ((external.map fun v => ⟨tab.entities.length, tab.basisCount, k.externalWidth, v.data⟩).getD
        (.zeros tab.entities.length tab.basisCount k.externalWidth)) e := by
    cases external with
    | none => exact agree_zeros first second _ _
    | some v => exact whole (externals v rfl) (externalShape v rfl)
  exact k.elementSystem_congr (k.gathered (tab.pick order) (state.pick order) _ _ values) (k.gathered tab state _ _ values)
    (whole states stateShape) rated given rfl rateWeight tab.basisCount points

/-- The rows of a batch in some order have their systems in this order. -/
theorem call_pick (states : state.data.size = state.shape.prod) (externals : ∀ v ∈ external, v.data.size = v.shape.prod)
    (rates : ∀ v ∈ rate, v.Covers tab.entities.length) (inside : ∀ e ∈ order, e < tab.entities.length)
    (done : k.call tab state rate external params rateWeight = .ok systems) :
    k.call (tab.pick order) (state.pick order) (rate.map (·.pick order)) (external.map (·.pick order)) params rateWeight =
      .ok (picked order systems) := by
  obtain ⟨fits, values, valued, done⟩ := call_eq_ok.mp done
  have worked := Outcome.mapM_eq_ok.mp done
  have count : systems.length = tab.entities.length := worked.length_eq.symm.trans List.length_zipIdx
  refine call_eq_ok.mpr ⟨arrayFaults_pick fits inside, values, valued, Outcome.mapM_eq_ok.mpr ?_⟩
  refine List.forall₂_iff_get.mpr ⟨?_, fun i left right => ?_⟩
  · rw [List.length_zipIdx, Tabulation.pick, length_picked inside, length_picked (count.symm ▸ inside)]
  · obtain ⟨e, here⟩ : ∃ e, order[i]? = some e := by
      rw [length_picked (count.symm ▸ inside)] at right
      exact ⟨_, List.getElem?_eq_getElem right⟩
    have bound := inside e (List.mem_of_getElem? here)
    have taken : (tab.pick order).entities.zipIdx[i]? = some (tab.entities[e], i) := by
      have entity : (picked order tab.entities)[i]? = some tab.entities[e] := by
        rw [getElem?_picked inside, here]
        exact List.getElem?_eq_getElem bound
      rw [List.getElem?_zipIdx, Tabulation.pick, entity, Nat.zero_add]
      rfl
    have numbered : tab.entities.zipIdx[e]? = some (tab.entities[e], e) := by simp [bound]
    obtain ⟨sys, found, own⟩ := Outcome.getElem?_of_matched worked numbered
    have result : (picked order systems)[i]? = some sys := by
      rw [getElem?_picked (count.symm ▸ inside), here]
      exact found
    rw [List.get_eq_getElem, List.get_eq_getElem, (List.getElem?_eq_some_iff.mp taken).2,
      (List.getElem?_eq_some_iff.mp result).2]
    exact (elementSystem_pick fits states externals rates inside here values _).trans own

/-- A batch that is not empty is evaluated where each of its rows is. -/
theorem call_isOk_iff (some : 0 < tab.entities.length) (first : state.shape.head? = .some tab.entities.length)
    (others : ∀ v ∈ external, v.shape.head? = .some tab.entities.length)
    (states : state.data.size = state.shape.prod) (externals : ∀ v ∈ external, v.data.size = v.shape.prod)
    (rates : ∀ v ∈ rate, v.Covers tab.entities.length) :
    (∃ systems, k.call tab state rate external params rateWeight = .ok systems) ↔ ∀ e < tab.entities.length, ∃ systems,
      k.call (tab.pick [e]) (state.pick [e]) (rate.map (·.pick [e])) (external.map (·.pick [e])) params rateWeight =
        .ok systems := by
  have within {e : Nat} (inside : e < tab.entities.length) : ∀ e' ∈ [e], e' < tab.entities.length := by
    simpa using inside
  constructor
  · rintro ⟨systems, done⟩ e inside
    exact ⟨_, call_pick states externals rates (within inside) done⟩
  · intro each
    obtain ⟨_, done⟩ := each 0 some
    obtain ⟨fits, values, valued, -⟩ := call_eq_ok.mp done
    have fits := arrayFaults_of_pick first others fits
    have worked : ∀ t ∈ tab.entities.zipIdx, ∃ sys, k.elementSystem (k.gathered tab state rate external values)
        rateWeight tab.basisCount t.2 t.1 = .ok sys ∧ True := by
      intro t member
      have here := List.mem_zipIdx_iff_getElem?.mp member
      have inside := (List.getElem?_eq_some_iff.mp here).1
      obtain ⟨_, done⟩ := each t.2 inside
      obtain ⟨-, values', valued', done⟩ := call_eq_ok.mp done
      cases valued.symm.trans valued'
      have alone : (tab.pick [t.2]).entities.zipIdx = [(t.1, 0)] := by
        rw [Tabulation.pick, picked_singleton here]
        rfl
      rw [systemsOf, alone, List.mapM_cons] at done
      obtain ⟨sys, own, -⟩ := Outcome.bind_eq_ok.mp done
      exact ⟨sys, (elementSystem_pick fits states externals rates (within inside) rfl values t.1).symm.trans own, trivial⟩
    obtain ⟨systems, mapped, -⟩ := Outcome.mapM_of_forall worked
    exact ⟨systems, call_eq_ok.mpr ⟨fits, values, valued, mapped⟩⟩

end Calls

end Kernel

/-! ### Transparency -/

section Transparent

open Tabulation

variable [Scalar α] {e : Element} {nets : ControlNets α} {locals : List Int} {rule : Rule α} {ids : Option (List Int)}

namespace Tabulation

/-- A row by itself has what the work on it comes to, with its name in the batch where it is refused. -/
theorem onFacets_alone_eq_error {k : Nat} {l : Int} {net : List (List α)} {f : Failure} (here : locals[k]? = some l)
    (there : nets.nets[k]? = some net) : onFacets e (nets.pick [k]) (picked [k] locals) rule (pickedIds ids [k]) = .error f ↔
      facetRow e nets.dim nets.points rule ids k l net = .error f := by
  rw [onFacets_alone here there]
  cases facetRow e nets.dim nets.points rule ids k l net with
  | error g => exact ⟨fun failed => congrArg _ (Except.error.inj failed), fun failed => congrArg _ (Except.error.inj failed)⟩
  | ok data => exact iff_of_false nofun nofun

/-- A batch that is refused is refused as one of its rows is by itself. -/
theorem exists_refused (full : locals.length = nets.nets.length) {f : Failure}
    (failed : onFacets e nets locals rule ids = .error f) : ∃ k < nets.nets.length,
      onFacets e (nets.pick [k]) (picked [k] locals) rule (pickedIds ids [k]) = .error f ∧
      ∀ err, f = .assembly err → reportedId ids k = .ok err.entity := by
  obtain ⟨k, l, net, here, there, failed⟩ := onFacets_eq_error full failed
  refine ⟨k, (List.getElem?_eq_some_iff.mp there).1, (onFacets_alone_eq_error here there).mpr failed, ?_⟩
  rintro err rfl
  exact reported_of_facetRow failed

/-- A batch is tabulated where each of its rows is by itself. -/
theorem onFacets_isOk_iff (full : locals.length = nets.nets.length) :
    (∃ tab, onFacets e nets locals rule ids = .ok tab) ↔ ∀ k < nets.nets.length, ∃ tab,
      onFacets e (nets.pick [k]) (picked [k] locals) rule (pickedIds ids [k]) = .ok tab := by
  constructor
  · rintro ⟨tab, done⟩ k -
    exact ⟨_, onFacets_pick full done [k] _⟩
  · intro each
    cases done : onFacets e nets locals rule ids with
    | ok tab => exact ⟨tab, rfl⟩
    | error f =>
        obtain ⟨k, inside, refused, -⟩ := exists_refused full done
        obtain ⟨tab, made⟩ := each k inside
        cases made.symm.trans refused

end Tabulation

/-- Batches are transparent, for facets and for kernels.

A batch of facets is tabulated exactly if each of its rows is by itself. Then the rows in any order, or some of them, have
their rows of the table in this order, whatever facets they are and under whatever numbers; a single row is a case of
this. Where the batch is refused, one of its rows is refused in the same way by itself, and what is named is this row.

The systems of a kernel are those of the rows in the same way: in any order of the rows of the table, of the state, of the
rates and of the external values they come in this order, and each is what the kernel has for its row alone. -/
theorem batches_are_transparent :
    (∀ (e : Element) (nets : ControlNets α) (locals : List Int) (rule : Rule α) (ids : Option (List Int)),
      locals.length = nets.nets.length →
      ((∃ tab, onFacets e nets locals rule ids = .ok tab) ↔ ∀ k < nets.nets.length, ∃ tab,
        onFacets e (nets.pick [k]) (picked [k] locals) rule (pickedIds ids [k]) = .ok tab) ∧
      (∀ tab, onFacets e nets locals rule ids = .ok tab → ∀ order numbers,
        onFacets e (nets.pick order) (picked order locals) rule numbers = .ok (tab.pick order)) ∧
      ∀ f, onFacets e nets locals rule ids = .error f → ∃ k < nets.nets.length,
        onFacets e (nets.pick [k]) (picked [k] locals) rule (pickedIds ids [k]) = .error f ∧
        ∀ err, f = .assembly err → reportedId ids k = .ok err.entity) ∧
    ∀ (k : Kernel) (tab : Tabulation α) (state : GivenArray α) (rate : Option (NodalValues α))
      (external : Option (GivenArray α)) (params : Parameters α) (rateWeight : α),
      let count := tab.entities.length
      let taken := fun order => k.call (tab.pick order) (state.pick order) (rate.map (·.pick order))
        (external.map (·.pick order)) params rateWeight
      state.data.size = state.shape.prod → (∀ v ∈ external, v.data.size = v.shape.prod) → (∀ v ∈ rate, v.Covers count) →
      (∀ systems, k.call tab state rate external params rateWeight = .ok systems →
        systems.length = count ∧ ∀ order, (∀ e ∈ order, e < count) → taken order = .ok (picked order systems)) ∧
      (0 < count → state.shape.head? = some count → (∀ v ∈ external, v.shape.head? = some count) →
        ((∃ systems, k.call tab state rate external params rateWeight = .ok systems) ↔
          ∀ e < count, ∃ systems, taken [e] = .ok systems)) := by
  refine ⟨fun e nets locals rule ids full => ?_, ?_⟩
  · exact ⟨onFacets_isOk_iff full, fun tab done => onFacets_pick full done, fun f failed => exists_refused full failed⟩
  · intro k tab state rate external params rateWeight count taken states externals rates
    refine ⟨fun systems done => ⟨?_, fun order inside => Kernel.call_pick states externals rates inside done⟩, ?_⟩
    · obtain ⟨-, values, -, done⟩ := Kernel.call_eq_ok.mp done
      exact (Outcome.mapM_eq_ok.mp done).length_eq.symm.trans List.length_zipIdx
    · exact fun some first others => Kernel.call_isOk_iff some first others states externals rates

end Transparent

section Mixed

open Tabulation Arithmetic

/-- The bottom of a straight hexahedron, after the top of a warped one. -/
theorem onFacets_mixed {k : Element.Kind} {e : Element} (known : Element.OfKind k .hex e) : ∃ a b : PointData ℝ,
    onFacets e ⟨e.size, 3, [warpedNet e 2, warpedNet e 0]⟩ [1, 0] [⟨[0, 0], 1⟩] (some [7, 4]) =
      .ok ⟨3, 1, e.size, true, [[a], [b]]⟩ := by
  obtain ⟨a, -, top, -⟩ := facetData_warped known 2 0 0 1
  have found : entry? e.cell.facets 0 = some [0, 3, 2, 1] := by
    rw [known.shape]
    rfl
  have place : e.cell.facetPoint [0, 3, 2, 1] [(0 : ℝ), 0] = .ok [0, 0, -1] := by
    rw [known.shape]
    have weights : Cell.quad.cornerWeights [(0 : ℝ), 0] = .ok [half * half * ((1 - 0) * (1 - 0)),
        half * half * ((1 + 0) * (1 - 0)), half * half * ((1 + 0) * (1 + 0)), half * half * ((1 - 0) * (1 + 0))] := rfl
    refine Outcome.bind_eq_ok.mpr ⟨_, weights, congrArg Except.ok ?_⟩
    simp [Cell.cornerSum, Cell.dim, Cell.corners, List.range_succ, total_eq_sum, ofInt_real, half_real]
    norm_num
  have placed : List.Forall₂ (fun (q : QuadraturePoint ℝ) x => e.cell.facetPoint [0, 3, 2, 1] q.position = .ok x)
      [⟨[0, 0], 1⟩] [[0, 0, -1]] := .cons place .nil
  have positive : ∃ det, determinant? (jacobianAt e 3 (warpedNet e 0) [0, 0, -1]) = some det ∧ 0 < det := by
    rw [jacobianAt, jacobian_warpedNet known]
    exact ⟨_, rfl, by norm_num⟩
  obtain ⟨data, bottom⟩ := facetData_isOk found placed (List.forall_mem_singleton.mpr positive)
  obtain ⟨_, -, matched⟩ := facetData_directed bottom
  obtain ⟨b, rfl⟩ := List.length_eq_one_iff.mp matched.length_eq.symm
  exact ⟨a, b, (onFacets_eq_ok rfl rfl).mpr ⟨_, .cons top (.cons bottom .nil), rfl⟩⟩

/-- The storage in two elements that have one table. -/
theorem storage_call : ∃ s t : ElementSystem ℝ,
    Kernel.storageKernel.call (⟨1, 1, 2, false, [[Kernel.thirdPoint], [Kernel.thirdPoint]]⟩ : Tabulation ℝ)
      ⟨[2, 2, 1], #[0, 1, 2, 3]⟩ (some ⟨2, 2, 1, #[4, 5, 6, 7]⟩) none (.named []) 1 = .ok [s, t] := by
  let inputs : Kernel.Inputs ℝ := ⟨⟨2, 2, 1, #[0, 1, 2, 3]⟩, ⟨2, 2, 1, #[4, 5, 6, 7]⟩, .zeros 2 2 0, []⟩
  have readable {e : Nat} (inside : e < 2) : Kernel.Readable Kernel.storageKernel inputs e Kernel.thirdPoint := by
    have reads {v : NodalValues ℝ} (full : v.Full 2 2 1) :
        ∃ x, (do Kernel.interpolated v e 0 (← Kernel.basisRow Kernel.thirdPoint none)) = .ok x :=
      Kernel.interpolated_isOk_of_full full inside Nat.one_pos le_rfl
    intro s member
    rcases List.mem_pair.mp member with rfl | rfl
    · obtain ⟨x, value⟩ := reads (v := inputs.state) ⟨rfl, rfl⟩
      exact ⟨x, Kernel.thirdPoint.basis, value, rfl⟩
    · obtain ⟨x, value⟩ := reads (v := inputs.rate) ⟨rfl, rfl⟩
      exact ⟨x, Kernel.thirdPoint.basis, value, rfl⟩
  have each {e : Nat} (inside : e < 2) : ∃ s,
      Kernel.storageKernel.elementSystem inputs 1 2 e [Kernel.thirdPoint] = .ok s :=
    Kernel.elementSystem_isOk_iff.mpr (List.forall_mem_singleton.mpr (readable inside))
  obtain ⟨s, first⟩ := each Nat.two_pos
  obtain ⟨t, second⟩ := each Nat.one_lt_two
  exact ⟨s, t, Kernel.call_eq_ok.mpr ⟨Kernel.arrayFaults_eq_nil.mpr ⟨rfl, nofun, nofun⟩, [], rfl,
    Outcome.mapM_eq_ok.mpr (.cons first (.cons second .nil))⟩⟩

/-- The top of a warped hexahedron and the bottom of a straight one, and the storage in two elements: with the rows
exchanged, so are the results. -/
theorem batches_are_transparent_mixed : ∃ (e : Element) (a b : PointData ℝ) (s t : ElementSystem ℝ),
    Element.ofCell .hex "lagrange" 1 = .ok e ∧
    onFacets e ⟨e.size, 3, [warpedNet e 2, warpedNet e 0]⟩ [1, 0] [⟨[0, 0], 1⟩] (some [7, 4]) =
      .ok ⟨3, 1, e.size, true, [[a], [b]]⟩ ∧
    onFacets e ⟨e.size, 3, [warpedNet e 0, warpedNet e 2]⟩ [0, 1] [⟨[0, 0], 1⟩] none =
      .ok ⟨3, 1, e.size, true, [[b], [a]]⟩ ∧
    Kernel.storageKernel.call (⟨1, 1, 2, false, [[Kernel.thirdPoint], [Kernel.thirdPoint]]⟩ : Tabulation ℝ)
      ⟨[2, 2, 1], #[0, 1, 2, 3]⟩ (some ⟨2, 2, 1, #[4, 5, 6, 7]⟩) none (.named []) 1 = .ok [s, t] ∧
    Kernel.storageKernel.call (⟨1, 1, 2, false, [[Kernel.thirdPoint], [Kernel.thirdPoint]]⟩ : Tabulation ℝ)
      ⟨[2, 2, 1], #[2, 3, 0, 1]⟩ (some ⟨2, 2, 1, #[6, 7, 4, 5]⟩) none (.named []) 1 = .ok [t, s] := by
  obtain ⟨e, made, known⟩ := exists_trilinear
  obtain ⟨a, b, tabulated⟩ := onFacets_mixed known
  obtain ⟨s, t, called⟩ := storage_call
  obtain ⟨facets, kernels⟩ := batches_are_transparent (α := ℝ)
  obtain ⟨-, reordered, -⟩ := facets e ⟨e.size, 3, [warpedNet e 2, warpedNet e 0]⟩ [1, 0] [⟨[0, 0], 1⟩] (some [7, 4]) rfl
  obtain ⟨exchanged, -⟩ := kernels Kernel.storageKernel ⟨1, 1, 2, false, [[Kernel.thirdPoint], [Kernel.thirdPoint]]⟩ ⟨[2, 2, 1], #[0, 1, 2, 3]⟩ (some ⟨2, 2, 1, #[4, 5, 6, 7]⟩) none
    (.named []) 1 rfl nofun (fun v given => by cases given; exact ⟨⟨rfl, rfl⟩, le_rfl⟩)
  obtain ⟨-, exchanged⟩ := exchanged _ called
  exact ⟨e, a, b, s, t, made, tabulated, reordered _ tabulated [1, 0] none, called, exchanged [1, 0] (by decide)⟩

end Mixed

end Galerkin
