import Mathlib
import Galerkin.Proofs.ElementSpace.Growth
import Galerkin.Proofs.Mesh.Facets

/-!
Control points of one mesh with its elements in two orders. Vertices keep their numbers, and the other points
correspond through their corner sets.
-/

namespace Galerkin

namespace ElementSpace

variable {vertices : Nat} {keys others : List (List Nat)} {here there : List Nat}

/-- Corners whose point is a vertex, or is inside and has been met. -/
def Known (vertices : Nat) (keys : List (List Nat)) (here : List Nat) : Prop :=
  (∃ v < vertices, here = [v]) ∨ here.length ≠ 1 ∧ Mesh.key here ∈ keys

/-- The number behind other corner sets of the point with a number behind these. -/
def renumber (vertices : Nat) (keys others : List (List Nat)) (p : Nat) : Nat :=
  if p < vertices then p else vertices + others.idxOf (keys.getD (p - vertices) [])

theorem renumber_vertex {p : Nat} (vertex : p < vertices) : renumber vertices keys others p = p := if_pos vertex

theorem key_singleton (v : Nat) : Mesh.key [v] = [v] := List.mergeSort_singleton v

theorem length_key (here : List Nat) : (Mesh.key here).length = here.length := List.length_mergeSort _

theorem pointOf_renumber (known : Known vertices keys here) :
    pointOf vertices others here = renumber vertices keys others (pointOf vertices keys here) := by
  rcases known with ⟨v, vertex, rfl⟩ | ⟨inner, member⟩
  · exact (renumber_vertex vertex).symm
  · have bound := List.idxOf_lt_length_iff.mpr member
    rw [pointOf_of_inner inner, pointOf_of_inner inner, renumber, if_neg (by omega), Nat.add_sub_cancel_left,
      List.getD_eq_getElem _ _ bound, List.getElem_idxOf]

theorem pointOf_lt (known : Known vertices keys here) : pointOf vertices keys here < vertices + keys.length := by
  rcases known with ⟨v, vertex, rfl⟩ | ⟨inner, member⟩
  · exact vertex.trans_le (Nat.le_add_right _ _)
  · rw [pointOf_of_inner inner]
    exact Nat.add_lt_add_left (List.idxOf_lt_length_iff.mpr member) _

/-- Different corner sets have different points. -/
theorem pointOf_inj (known : Known vertices keys here) (known' : Known vertices keys there) :
    pointOf vertices keys here = pointOf vertices keys there ↔ Mesh.key here = Mesh.key there := by
  rcases known with ⟨v, vertex, rfl⟩ | ⟨inner, member⟩ <;> rcases known' with ⟨w, vertex', rfl⟩ | ⟨inner', member'⟩
  · simp [pointOf, key_singleton]
  · rw [pointOf_of_inner inner']
    refine iff_of_false (fun same => ?_) fun same => inner' ?_
    · have : v = vertices + _ := same
      omega
    · rw [← length_key, ← same, length_key]
      rfl
  · rw [pointOf_of_inner inner]
    refine iff_of_false (fun same => ?_) fun same => inner ?_
    · have : vertices + _ = w := same
      omega
    · rw [← length_key, same, length_key]
      rfl
  · rw [pointOf_of_inner inner, pointOf_of_inner inner', Nat.add_left_cancel_iff]
    exact List.idxOf_inj member

section Bijection

variable {p q : Nat}

theorem renumber_lt (same : others.Perm keys) (inside : p < vertices + keys.length) :
    renumber vertices keys others p < vertices + keys.length := by
  unfold renumber
  split
  · omega
  · have bound : p - vertices < keys.length := by omega
    rw [List.getD_eq_getElem _ _ bound, ← same.length_eq]
    exact Nat.add_lt_add_left (List.idxOf_lt_length_iff.mpr (same.mem_iff.mpr (List.getElem_mem bound))) _

theorem renumber_inj (same : others.Perm keys) (distinct : keys.Nodup) (first : p < vertices + keys.length)
    (second : q < vertices + keys.length) (equal : renumber vertices keys others p = renumber vertices keys others q) :
    p = q := by
  unfold renumber at equal
  split at equal <;> split at equal
  · exact equal
  · omega
  · omega
  · have left : p - vertices < keys.length := by omega
    have right : q - vertices < keys.length := by omega
    rw [List.getD_eq_getElem _ _ left, List.getD_eq_getElem _ _ right, Nat.add_left_cancel_iff,
      List.idxOf_inj (same.mem_iff.mpr (List.getElem_mem left)), distinct.getElem_inj_iff] at equal
    omega

end Bijection

/-! ### The space of a permuted mesh -/

section Permuted

variable {s s' : ElementSpace ℝ} {τ : Equiv.Perm Nat} {e a p : Nat}

/-- The corner sets of all points are those of inner nodes of elements. -/
theorem mem_innerKeys {s : ElementSpace ℝ} {k : List Nat} : k ∈ s.innerKeys ↔ ∃ corners ∈ s.mesh.elements,
    ∃ entity ∈ s.element.entities, (hereOf corners entity).length ≠ 1 ∧ Mesh.key (hereOf corners entity) = k := by
  rw [innerKeys, keysOf, mem_foldl_meet]
  simp only [List.not_mem_nil, false_or, List.mem_flatMap, List.mem_map, Array.mem_toList_iff]
  constructor
  · rintro ⟨_, ⟨corners, among, entity, inside, rfl⟩, own⟩
    exact ⟨corners, among, entity, inside, own⟩
  · rintro ⟨corners, among, entity, inside, own⟩
    exact ⟨_, ⟨corners, among, entity, inside, rfl⟩, own⟩

theorem nodup_innerKeys (s : ElementSpace ℝ) : s.innerKeys.Nodup := nodup_foldl_meet List.nodup_nil _

/-- What two spaces have in common that are made for permuted meshes. -/
structure Permuted (τ : Equiv.Perm Nat) (s s' : ElementSpace ℝ) : Prop where
  built : s.Built
  built' : s'.Built
  formed : s.mesh.Formed
  mesh : s.mesh.Permuted τ s'.mesh
  element : s'.element = s.element
  quadratureOrder : s'.quadratureOrder = s.quadratureOrder

/-- The new number of a control point. -/
def pointNumber (s s' : ElementSpace ℝ) : Nat → Nat := renumber s.mesh.vertices.size s.innerKeys s'.innerKeys

theorem Permuted.innerKeys (permuted : Permuted τ s s') : s'.innerKeys.Perm s.innerKeys := by
  refine (List.perm_ext_iff_of_nodup (nodup_innerKeys s') (nodup_innerKeys s)).mpr fun k => ?_
  rw [mem_innerKeys, mem_innerKeys, permuted.element]
  simp only [permuted.mesh.mem]

theorem Built.known (built : s.Built) (formed : s.mesh.Formed) {corners entity : List Nat}
    (among : corners ∈ s.mesh.elements) (inside : entity ∈ s.element.entities) :
    Known s.mesh.vertices.size s.innerKeys (hereOf corners entity) := by
  by_cases single : (hereOf corners entity).length = 1
  · obtain ⟨v, here⟩ := List.length_eq_one_iff.mp single
    refine Or.inl ⟨v, ?_, here⟩
    obtain ⟨c, own, same⟩ := List.mem_map.mp (here ▸ List.mem_cons_self : v ∈ hereOf corners entity)
    have bound : c < corners.length := (built.entities entity inside c own).trans_eq (formed.corners corners among).symm
    rw [List.getD_eq_getElem _ _ bound] at same
    exact formed.vertices corners among v (same ▸ List.getElem_mem bound)
  · exact Or.inr ⟨single, mem_innerKeys.mpr ⟨corners, among, entity, inside, single, rfl⟩⟩

theorem Built.controlPoints (built : s.Built) (e : Nat) : s.controlPoints[e]? =
    (s.mesh.elements[e]?).map fun corners => s.element.entities.map fun entity =>
      pointOf s.mesh.vertices.size s.innerKeys (hereOf corners entity) := by
  rw [built.points, List.getElem?_toArray, rowsOf, List.getElem?_map, Array.getElem?_toList]

theorem Built.size_positions (built : s.Built) : s.positions.size = s.mesh.vertices.size + s.innerKeys.length := by
  simp [built.positions]

/-- Every element has the points it had before, under their new numbers. -/
theorem Permuted.controlPoints (permuted : Permuted τ s s') (e : Nat) :
    s'.controlPoints[τ e]? = (s.controlPoints[e]?).map (List.map (pointNumber s s')) := by
  rw [permuted.built'.controlPoints, permuted.built.controlPoints, permuted.mesh.elements, Option.map_map]
  cases found : s.mesh.elements[e]? with
  | none => rfl
  | some corners =>
      rw [Option.map_some, Option.map_some, Function.comp_apply, List.map_map, permuted.element, permuted.mesh.vertices]
      refine congrArg some (List.map_congr_left fun entity inside => ?_)
      exact pointOf_renumber (permuted.built.known permuted.formed (Array.mem_of_getElem? found) inside)

theorem Built.lt_size (built : s.Built) (formed : s.mesh.Formed) {points : List Nat}
    (found : s.controlPoints[e]? = some points) (member : p ∈ points) : p < s.positions.size := by
  rw [built.controlPoints, Option.map_eq_some_iff] at found
  obtain ⟨corners, here, rfl⟩ := found
  obtain ⟨entity, inside, rfl⟩ := List.mem_map.mp member
  rw [built.size_positions]
  exact pointOf_lt (built.known formed (Array.mem_of_getElem? here) inside)

theorem Permuted.size_positions (permuted : Permuted τ s s') : s'.positions.size = s.positions.size := by
  rw [permuted.built'.size_positions, permuted.built.size_positions, permuted.mesh.vertices, permuted.innerKeys.length_eq]

theorem Permuted.pointNumber_lt (permuted : Permuted τ s s') (inside : p < s.positions.size) :
    pointNumber s s' p < s.positions.size := by
  rw [permuted.built.size_positions] at inside ⊢
  exact renumber_lt permuted.innerKeys inside

theorem Permuted.pointNumber_inj (permuted : Permuted τ s s') {q : Nat} (first : p < s.positions.size)
    (second : q < s.positions.size) (equal : pointNumber s s' p = pointNumber s s' q) : p = q := by
  rw [permuted.built.size_positions] at first second
  exact renumber_inj permuted.innerKeys (nodup_innerKeys s) first second equal

/-- A point stands where it stood. -/
theorem Permuted.position (permuted : Permuted τ s s') (inside : p < s.positions.size) :
    s'.positions.getD (pointNumber s s' p) [] = s.positions.getD p [] := by
  have size := permuted.built.size_positions
  rw [Array.getD_eq_getD_getElem?, Array.getD_eq_getD_getElem?, permuted.built'.positions, permuted.built.positions,
    permuted.mesh.vertices]
  by_cases vertex : p < s.mesh.vertices.size
  · rw [pointNumber, renumber_vertex vertex, Array.getElem?_append_left vertex, Array.getElem?_append_left vertex]
  · have bound : p - s.mesh.vertices.size < s.innerKeys.length := by omega
    have known : s.innerKeys[p - s.mesh.vertices.size] ∈ s'.innerKeys := permuted.innerKeys.mem_iff.mpr (List.getElem_mem bound)
    have mean : keyMean s'.mesh = keyMean s.mesh := by
      funext k
      rw [keyMean, keyMean, permuted.mesh.vertices, Mesh.dim, Mesh.dim, permuted.mesh.cell]
    rw [pointNumber, renumber, if_neg vertex, List.getD_eq_getElem _ _ bound,
      Array.getElem?_append_right (Nat.le_add_right _ _), Array.getElem?_append_right (not_lt.mp vertex),
      Nat.add_sub_cancel_left, List.getElem?_toArray, List.getElem?_toArray, List.getElem?_map, List.getElem?_map, mean,
      List.getElem?_idxOf known, List.getElem?_eq_getElem bound]

/-! ### Nodes -/

/-- The control point of a node of an element. -/
def nodePoint? (s : ElementSpace ℝ) (e a : Nat) : Option Nat := (s.controlPoints[e]?).bind (·[a]?)

/-- The sorted corner numbers of the entity that a node of an element lies inside. -/
def nodeKey? (s : ElementSpace ℝ) (e a : Nat) : Option (List Nat) := do
  let corners ← s.mesh.elements[e]?
  let entity ← s.element.entities[a]?
  pure (Mesh.key (hereOf corners entity))

theorem Built.exists_node (built : s.Built) (formed : s.mesh.Formed) {k : List Nat} (point : s.nodePoint? e a = some p)
    (key : s.nodeKey? e a = some k) : ∃ here, Known s.mesh.vertices.size s.innerKeys here ∧
      p = pointOf s.mesh.vertices.size s.innerKeys here ∧ k = Mesh.key here := by
  obtain ⟨corners, here, rest⟩ := Option.bind_eq_some_iff.mp key
  obtain ⟨entity, inside, same⟩ := Option.bind_eq_some_iff.mp rest
  rw [nodePoint?, built.controlPoints, here, Option.map_some, Option.bind_some, List.getElem?_map, inside] at point
  exact ⟨_, built.known formed (Array.mem_of_getElem? here) (List.mem_of_getElem? inside), (Option.some.inj point).symm,
    (Option.some.inj same).symm⟩

/-- Points correspond through the sorted corner numbers of the entities they lie inside. -/
theorem Permuted.corresponds (permuted : Permuted τ s s') (formed' : s'.mesh.Formed) {e' a' p' : Nat} {k k' : List Nat}
    (point : s.nodePoint? e a = some p) (key : s.nodeKey? e a = some k) (point' : s'.nodePoint? e' a' = some p')
    (key' : s'.nodeKey? e' a' = some k') : p' = pointNumber s s' p ↔ k' = k := by
  obtain ⟨here, known, rfl, rfl⟩ := permuted.built.exists_node permuted.formed point key
  obtain ⟨there, known', rfl, rfl⟩ := permuted.built'.exists_node formed' point' key'
  have again : Known s'.mesh.vertices.size s'.innerKeys here := by
    rw [permuted.mesh.vertices]
    exact known.imp_right fun inner => ⟨inner.1, permuted.innerKeys.mem_iff.mpr inner.2⟩
  rw [← pointOf_inj known' again, pointNumber, ← pointOf_renumber known, permuted.mesh.vertices]

end Permuted

end ElementSpace

end Galerkin
