import Mathlib
import Galerkin.Proofs.Element.Trace
import Galerkin.Proofs.ElementSpace.Renumbering

/-!
Control points are shared through the entities of the mesh. A node's point is known by the corners of the mesh that the
node lies between, whichever element it is seen from, and so is the place where the point stands.
-/

namespace Galerkin

section Seen

variable {α : Type} {m : Mesh α} {o o' : Nat × Nat}

/-- The corners of a facet in the order in which an owner has them. -/
def Mesh.seen? (m : Mesh α) (o : Nat × Nat) : Option (List Nat) := do
  let corners ← m.elements[o.1]?
  let facet ← m.cell.facets[o.2]?
  pure (ElementSpace.hereOf corners facet)

/-- Two owners go around a facet in the same way or in opposite ones. Only four corners have other orders, too. -/
def Mesh.Aligned (m : Mesh α) (o o' : Nat × Nat) : Prop :=
  m.cell = .hex → ∀ g h, m.seen? o = some g → m.seen? o' = some h → g ~r h ∨ g ~r h.reverse

theorem Mesh.exists_seen (formed : m.Formed) {F : Facet} (listed : F ∈ m.facets) (owner : o ∈ F.owners) :
    ∃ corners facet, m.elements[o.1]? = some corners ∧ m.cell.facets[o.2]? = some facet ∧
      (ElementSpace.hereOf corners facet).Perm F.corners := by
  obtain ⟨i, here⟩ := Array.mem_iff_getElem?.mp listed
  have found : m.facet? i = some F := by
    rw [facet?, if_neg (by omega)]
    exact here
  obtain ⟨corners, facet, element, there, same⟩ := mem_owners_facet? formed found owner
  exact ⟨corners, facet, element, there, key_eq_iff.mp same⟩

theorem Mesh.seen?_eq {corners facet : List Nat} (element : m.elements[o.1]? = some corners)
    (there : m.cell.facets[o.2]? = some facet) : m.seen? o = some (ElementSpace.hereOf corners facet) := by
  rw [seen?, element, Option.bind_eq_bind, Option.bind_some, there]
  rfl

end Seen

namespace Cell

variable {c : Cell} {facet : List Nat}

theorem flat_facetCell (c : Cell) : c.facetCell.dim ≤ 2 := by
  cases c <;> decide

theorem facet_regular : ∀ facet ∈ c.facets, facet.Nodup ∧ facet.length = c.facetCell.cornerCount ∧
    ∀ i ∈ facet, i < c.cornerCount := by
  cases c <;> decide

theorem facetCell_eq_quad : c.facetCell = quad → c = hex := by
  cases c <;> decide

end Cell

namespace Element

theorem nodup_supporting (cell : Cell) (tol : ℚ) (x : List ℚ) : (cell.supporting tol x).Nodup := by
  have kept {β : Type} (xs : List β) (p : β × Nat → Bool) : ((xs.zipIdx.filter p).map (·.2)).Nodup :=
    (List.filter_sublist.map _).nodup (List.nodup_zipIdx_map_snd xs)
  unfold Cell.supporting
  split
  · exact kept _ _
  · exact kept _ _

/-- The corners are the nodes that lie inside a corner. -/
theorem supporting_eq_singleton {cell : Cell} {k : Kind} {x : List ℚ} (member : x ∈ k.points cell) {c : Nat} :
    cell.supporting entityTolerance x = [c] ↔ (cornerNodes cell)[c]? = some x := by
  have corners : ∀ c < cell.cornerCount, cell.supporting entityTolerance ((cornerNodes cell).getD c []) = [c] := by
    cases cell <;> decide +kernel
  have single : ∀ x ∈ latticeNodes cell, (cell.supporting entityTolerance x).length = 1 → x ∈ cornerNodes cell := by
    cases cell <;> decide +kernel
  have count : (cornerNodes cell).length = cell.cornerCount := List.length_map _
  constructor
  · intro alone
    obtain ⟨i, bound, rfl⟩ := List.mem_iff_getElem.mp (single x (Kind.mem_latticeNodes member) (alone ▸ rfl))
    have own := corners i (count ▸ bound)
    rw [List.getD_eq_getElem _ _ bound, alone] at own
    obtain rfl := List.singleton_inj.mp own
    exact List.getElem?_eq_getElem bound
  · intro here
    obtain ⟨bound, rfl⟩ := List.getElem?_eq_some_iff.mp here
    have own := corners c (count ▸ bound)
    rwa [List.getD_eq_getElem _ _ bound] at own

theorem Kind.Fits.facetCell {k : Kind} {cell : Cell} (fits : k.Fits cell) : k.Fits cell.facetCell := by
  intro cube
  have body := fits cube
  cases cell <;> first | rfl | cases body

theorem cornerNodes_subset {cell : Cell} {k : Kind} (fits : k.Fits cell) : ∀ x ∈ cornerNodes cell, x ∈ k.points cell := by
  revert fits
  cases cell <;> cases k <;> decide +kernel

end Element

namespace ElementSpace

open Element (cornerNodes entityTolerance)

variable {s : ElementSpace ℝ} {e a p v : Nat} {corners here : List Nat}

/-- The corners of the mesh that a node of an element lies between. -/
def nodeCorners? (s : ElementSpace ℝ) (e a : Nat) : Option (List Nat) := do
  let corners ← s.mesh.elements[e]?
  let entity ← s.element.entities[a]?
  pure (hereOf corners entity)

theorem nodeCorners?_eq_some : s.nodeCorners? e a = some here ↔ ∃ corners entity, s.mesh.elements[e]? = some corners ∧
    s.element.entities[a]? = some entity ∧ hereOf corners entity = here := by
  simp [nodeCorners?, Option.bind_eq_some_iff]

theorem Built.nodePoint?_eq (built : s.Built) (e a : Nat) :
    s.nodePoint? e a = (s.nodeCorners? e a).map (pointOf s.mesh.vertices.size s.innerKeys) := by
  rw [nodePoint?, built.controlPoints, nodeCorners?]
  cases s.mesh.elements[e]? with
  | none => rfl
  | some corners =>
      rw [Option.map_some, Option.bind_some, List.getElem?_map]
      cases s.element.entities[a]? <;> rfl

theorem nodup_hereOf {entity : List Nat} (distinct : corners.Nodup) (single : entity.Nodup)
    (bounds : ∀ i ∈ entity, i < corners.length) : (hereOf corners entity).Nodup := by
  refine List.Nodup.map_on (fun i first j second same => ?_) single
  rw [List.getD_eq_getElem _ _ (bounds i first), List.getD_eq_getElem _ _ (bounds j second)] at same
  exact distinct.getElem_inj_iff.mp same

/-- A space as it is made for a mesh whose elements have distinct corners. -/
structure Regular (k : Element.Kind) (s : ElementSpace ℝ) : Prop where
  formed : s.mesh.Formed
  distinct : ∀ corners ∈ s.mesh.elements, corners.Nodup
  built : s.Built
  kind : Element.OfKind k s.mesh.cell s.element

section Regular

variable {k : Element.Kind} {x : List ℚ}

theorem Regular.entity (regular : s.Regular k) (a : Nat) :
    s.element.entities[a]? = (s.element.nodes[a]?).map (s.mesh.cell.supporting entityTolerance) := by
  rw [regular.kind.entities, List.getElem?_map]

theorem Regular.nodeCorners?_eq (regular : s.Regular k) (found : s.mesh.elements[e]? = some corners)
    (node : s.element.nodes[a]? = some x) :
    s.nodeCorners? e a = some (hereOf corners (s.mesh.cell.supporting entityTolerance x)) :=
  nodeCorners?_eq_some.mpr ⟨corners, _, found, by rw [regular.entity, node, Option.map_some], rfl⟩

theorem Regular.nodup_here (regular : s.Regular k) (among : corners ∈ s.mesh.elements) {entity : List Nat}
    (inside : entity ∈ s.element.entities) : (hereOf corners entity).Nodup := by
  have bounds := regular.built.entities entity inside
  rw [← regular.formed.corners corners among] at bounds
  refine nodup_hereOf (regular.distinct corners among) ?_ bounds
  rw [regular.kind.entities, List.mem_map] at inside
  obtain ⟨x, -, rfl⟩ := inside
  exact Element.nodup_supporting _ _ _

/-- Nodes have one point exactly when they lie between the same corners. -/
theorem Regular.nodePoint?_eq_iff (regular : s.Regular k) {e' a' : Nat} {there : List Nat}
    (found : s.nodeCorners? e a = some here) (found' : s.nodeCorners? e' a' = some there) :
    s.nodePoint? e a = s.nodePoint? e' a' ↔ ∀ v, v ∈ here ↔ v ∈ there := by
  rw [regular.built.nodePoint?_eq, regular.built.nodePoint?_eq, found, found', Option.map_some, Option.map_some,
    Option.some_inj]
  obtain ⟨corners, entity, element, inside, rfl⟩ := nodeCorners?_eq_some.mp found
  obtain ⟨corners', entity', element', inside', rfl⟩ := nodeCorners?_eq_some.mp found'
  have among := Array.mem_of_getElem? element
  have among' := Array.mem_of_getElem? element'
  have listed := List.mem_of_getElem? inside
  have listed' := List.mem_of_getElem? inside'
  rw [pointOf_inj (regular.built.known regular.formed among listed) (regular.built.known regular.formed among' listed'),
    Mesh.key_eq_iff]
  exact List.perm_ext_iff_of_nodup (regular.nodup_here among listed) (regular.nodup_here among' listed')

/-- A node at a corner has the corner's vertex as its point. -/
theorem Regular.nodePoint?_corner (regular : s.Regular k) (found : s.mesh.elements[e]? = some corners) {c : Nat}
    (vertex : corners[c]? = some v) (node : s.element.nodes[a]? = (cornerNodes s.mesh.cell)[c]?) :
    s.nodePoint? e a = some v := by
  obtain ⟨bound, rfl⟩ := List.getElem?_eq_some_iff.mp vertex
  have inside : c < (cornerNodes s.mesh.cell).length := by
    rw [cornerNodes, List.length_map]
    exact bound.trans_eq (regular.formed.corners corners (Array.mem_of_getElem? found))
  rw [List.getElem?_eq_getElem inside] at node
  have member := regular.kind.nodes.mem_iff.mp (List.mem_of_getElem? node)
  have single := (Element.supporting_eq_singleton member).mpr (List.getElem?_eq_getElem inside)
  rw [regular.built.nodePoint?_eq, regular.nodeCorners?_eq found node, single, hereOf, List.map_singleton,
    List.getD_eq_getElem _ _ bound]
  rfl

/-- A node is at a corner if it lies inside a single one. -/
theorem Regular.single_iff (regular : s.Regular k) (node : x ∈ s.element.nodes) :
    (s.mesh.cell.supporting entityTolerance x).length = 1 ↔ x ∈ cornerNodes s.mesh.cell := by
  have member := regular.kind.nodes.mem_iff.mp node
  rw [List.length_eq_one_iff, List.mem_iff_getElem?]
  exact exists_congr fun c => Element.supporting_eq_singleton member

/-- The points of the other nodes are numbered behind the vertices, without gaps. -/
theorem Regular.exists_inner_iff (regular : s.Regular k) :
    (∃ e a x, s.element.nodes[a]? = some x ∧ x ∉ cornerNodes s.mesh.cell ∧ s.nodePoint? e a = some p) ↔
      s.mesh.vertices.size ≤ p ∧ p < s.positions.size := by
  have size := regular.built.size_positions
  constructor
  · rintro ⟨e, a, x, node, inner, point⟩
    have single := mt (regular.single_iff (List.mem_of_getElem? node)).mp inner
    rw [regular.built.nodePoint?_eq, Option.map_eq_some_iff] at point
    obtain ⟨here, found, rfl⟩ := point
    obtain ⟨corners, entity, element, inside, rfl⟩ := nodeCorners?_eq_some.mp found
    have known := regular.built.known regular.formed (Array.mem_of_getElem? element) (List.mem_of_getElem? inside)
    rw [regular.entity, node, Option.map_some, Option.some_inj] at inside
    rw [← inside] at known ⊢
    refine ⟨?_, (pointOf_lt known).trans_eq size.symm⟩
    rw [pointOf_of_inner (by rwa [hereOf, List.length_map])]
    exact Nat.le_add_right _ _
  · rintro ⟨above, below⟩
    have bound : p - s.mesh.vertices.size < s.innerKeys.length := by omega
    obtain ⟨corners, among, entity, inside, inner, key⟩ := mem_innerKeys.mp (List.getElem_mem bound)
    obtain ⟨e, element⟩ := Array.mem_iff_getElem?.mp among
    obtain ⟨a, entry⟩ := List.mem_iff_getElem?.mp inside
    have own := entry
    rw [regular.entity, Option.map_eq_some_iff] at own
    obtain ⟨x, node, rfl⟩ := own
    refine ⟨e, a, x, node, fun corner => inner ?_, ?_⟩
    · rw [hereOf, List.length_map]
      exact (regular.single_iff (List.mem_of_getElem? node)).mpr corner
    · rw [regular.built.nodePoint?_eq, regular.nodeCorners?_eq element node, Option.map_some, pointOf_of_inner inner, key,
        (nodup_innerKeys s).idxOf_getElem]
      exact congrArg some (by omega)

/-- A point stands at the mean of the corners that its nodes lie between. -/
theorem Regular.position (regular : s.Regular k) (placed : ∀ x ∈ s.mesh.vertices, x.length = s.mesh.dim)
    (found : s.nodeCorners? e a = some here) (point : s.nodePoint? e a = some p) :
    s.positions[p]? = some (keyMean s.mesh (Mesh.key here)) := by
  rw [regular.built.nodePoint?_eq, found, Option.map_some, Option.some_inj] at point
  subst point
  obtain ⟨corners, entity, element, inside, rfl⟩ := nodeCorners?_eq_some.mp found
  rw [regular.built.positions]
  rcases regular.built.known regular.formed (Array.mem_of_getElem? element) (List.mem_of_getElem? inside) with
    ⟨v, vertex, here⟩ | ⟨inner, member⟩
  · have length := placed _ (Array.getElem_mem vertex)
    rw [here, pointOf, Array.getElem?_append_left vertex, Array.getElem?_eq_getElem vertex, key_singleton, keyMean]
    refine congrArg some (List.ext_getElem (by simp [length]) fun i left right => ?_)
    simp [vertex, left]
  · rw [pointOf_of_inner inner, Array.getElem?_append_right (Nat.le_add_right _ _), Nat.add_sub_cancel_left,
      List.getElem?_toArray, List.getElem?_map, List.getElem?_idxOf member, Option.map_some]

/-! ### Facets -/

theorem pointOf_perm {vertices : Nat} {keys : List (List Nat)} {g h : List Nat} (perm : g.Perm h) :
    pointOf vertices keys g = pointOf vertices keys h := by
  by_cases single : h.length = 1
  · obtain ⟨v, rfl⟩ := List.length_eq_one_iff.mp single
    rw [List.perm_singleton.mp perm]
  · rw [pointOf_of_inner single, pointOf_of_inner (perm.length_eq ▸ single), Mesh.key_eq_iff.mpr perm]

theorem hereOf_hereOf {facet entity : List Nat} (bounds : ∀ i ∈ entity, i < facet.length) :
    hereOf (hereOf corners facet) entity = hereOf corners (hereOf facet entity) := by
  rw [hereOf, hereOf, hereOf, hereOf, List.map_map]
  refine List.map_congr_left fun i member => ?_
  have bound := bounds i member
  simp [bound]

/-- The points of an element on a facet are those of the nodes that the facet's own element has. -/
theorem Regular.facetPoints_eq_ok (regular : s.Regular k) (found : s.mesh.elements[e]? = some corners) {l : Nat}
    {facet : List Nat} (there : s.mesh.cell.facets[l]? = some facet) :
    ∃ points, s.facetPoints e l = .ok points ∧ ∀ p, p ∈ points ↔ ∃ y ∈ k.points s.mesh.cell.facetCell,
      p = pointOf s.mesh.vertices.size s.innerKeys
        (hereOf (hereOf corners facet) (s.mesh.cell.facetCell.supporting entityTolerance y)) := by
  have face := Element.Kind.face_of_facet regular.kind.fits facet (List.mem_of_getElem? there)
  have row := regular.built.controlPoints e
  rw [found, Option.map_some] at row
  have nodes : s.facetNodes l =
      .ok ((s.element.entities.zipIdx.filter fun e => e.1.all facet.contains).map (·.2)) := by
    rw [facetNodes, entry?, ← Int.ofNat_eq_natCast, Block.position?_ofNat (List.getElem?_eq_some_iff.mp there).1,
      Option.bind_some, there]
    rfl
  have points : s.elementPoints e = .ok (s.element.entities.map fun entity =>
      pointOf s.mesh.vertices.size s.innerKeys (hereOf corners entity)) := by
    rw [elementPoints, ← Int.ofNat_eq_natCast, Block.position?_ofNat (Array.getElem?_eq_some_iff.mp row).1,
      Option.bind_some, row]
    rfl
  refine ⟨_, Outcome.bind_eq_ok.mpr ⟨_, nodes, Outcome.bind_eq_ok.mpr ⟨_, points, rfl⟩⟩, fun p => ?_⟩
  simp only [List.mem_map, List.mem_filter, Prod.exists, List.mem_zipIdx_iff_getElem?]
  constructor
  · rintro ⟨a, ⟨entity, _, ⟨here, inside⟩, rfl⟩, rfl⟩
    have own := here
    rw [regular.entity, Option.map_eq_some_iff] at own
    obtain ⟨x, node, rfl⟩ := own
    have member := regular.kind.nodes.mem_iff.mp (List.mem_of_getElem? node)
    obtain ⟨y, known, rfl⟩ := face.onto x member fun i among => by simpa using List.all_eq_true.mp inside i among
    refine ⟨y, known, ?_⟩
    rw [List.getD_eq_getElem?_getD, List.getElem?_map, here, Option.map_some, Option.getD_some,
      hereOf_hereOf (face.bounds y known)]
    exact pointOf_perm ((face.entities y known).map _)
  · rintro ⟨y, known, rfl⟩
    have member := regular.kind.nodes.mem_iff.mpr (face.inside y known)
    obtain ⟨a, node⟩ := List.mem_iff_getElem?.mp member
    have here := regular.entity a
    rw [node, Option.map_some] at here
    refine ⟨a, ⟨_, a, ⟨here, List.all_eq_true.mpr fun i among => ?_⟩, rfl⟩, ?_⟩
    · obtain ⟨j, own, rfl⟩ := List.mem_map.mp ((face.entities y known).mem_iff.mp among)
      rw [List.getD_eq_getElem _ _ (face.bounds y known j own)]
      exact List.contains_iff_mem.mpr (List.getElem_mem _)
    · rw [List.getD_eq_getElem?_getD, List.getElem?_map, here, Option.map_some, Option.getD_some,
        hereOf_hereOf (face.bounds y known)]
      exact pointOf_perm ((face.entities y known).map _)

/-- The corners of a facet as one owner has them are a turn of those that another one has. -/
theorem Regular.exists_turn (regular : s.Regular k) {F : Facet} (listed : F ∈ s.mesh.facets) {o o' : Nat × Nat}
    (owner : o ∈ F.owners) (owner' : o' ∈ F.owners) (aligned : s.mesh.Aligned o o') :
    ∃ corners facet corners' facet' π, s.mesh.elements[o.1]? = some corners ∧ s.mesh.cell.facets[o.2]? = some facet ∧
      s.mesh.elements[o'.1]? = some corners' ∧ s.mesh.cell.facets[o'.2]? = some facet' ∧
      π ∈ s.mesh.cell.facetCell.turns ∧ hereOf corners facet = hereOf (hereOf corners' facet') π := by
  obtain ⟨corners, facet, element, there, same⟩ := Mesh.exists_seen regular.formed listed owner
  obtain ⟨corners', facet', element', there', same'⟩ := Mesh.exists_seen regular.formed listed owner'
  obtain ⟨single, length, bounds⟩ := Cell.facet_regular facet' (List.mem_of_getElem? there')
  have among := Array.mem_of_getElem? element'
  rw [← regular.formed.corners corners' among] at bounds
  have distinct := nodup_hereOf (regular.distinct corners' among) single bounds
  obtain ⟨π, turn, turned⟩ := Cell.exists_turn distinct ((List.length_map _).trans length) (same.trans same'.symm)
    fun shape => aligned (Cell.facetCell_eq_quad shape) _ _ (Mesh.seen?_eq element there) (Mesh.seen?_eq element' there')
  exact ⟨corners, facet, corners', facet', π, element, there, element', there', turn, turned⟩

end Regular

/-- What holds of the control points of a space. -/
structure Shared (s : ElementSpace ℝ) : Prop where
  /-- Every node of every element has a point. -/
  total : ∀ e < s.mesh.elements.size, ∀ a < s.element.size, ∃ p here, s.nodePoint? e a = some p ∧ s.nodeCorners? e a = some here
  /-- Nodes have the same point exactly when they lie between the same corners. -/
  same : ∀ e a e' a' here there, s.nodeCorners? e a = some here → s.nodeCorners? e' a' = some there →
    (s.nodePoint? e a = s.nodePoint? e' a' ↔ ∀ v, v ∈ here ↔ v ∈ there)
  /-- A node at a corner has the corner's vertex. -/
  vertices : ∀ e corners, s.mesh.elements[e]? = some corners → ∀ c v, corners[c]? = some v →
    (cornerNodes s.mesh.cell).getD c [] ∈ s.element.nodes ∧
      ∀ a, s.element.nodes[a]? = (cornerNodes s.mesh.cell)[c]? → s.nodePoint? e a = some v
  /-- The points of the other nodes are those behind the vertices. -/
  others : ∀ p, (∃ e a x, s.element.nodes[a]? = some x ∧ x ∉ cornerNodes s.mesh.cell ∧ s.nodePoint? e a = some p) ↔
    s.mesh.vertices.size ≤ p ∧ p < s.positions.size
  /-- A point stands where the linear map of any element that has it puts its node there. -/
  positions : ∃ corner, Element.lagrange s.mesh.cell 1 = .ok corner ∧
    ∀ e corners a x p, s.mesh.elements[e]? = some corners → s.element.nodes[a]? = some x → s.nodePoint? e a = some p →
      s.positions[p]? = some (vertexMean s.mesh.dim ((corner.values x).map Arithmetic.ofRat)
        (corners.map fun v => s.mesh.vertices.getD v []))
  /-- The two owners of a facet have the same points there. -/
  facets : ∀ F ∈ s.mesh.facets, ∀ o o', F.owners = [o, o'] → s.mesh.Aligned o o' →
    ∃ points points', s.facetPoints o.1 o.2 = .ok points ∧ s.facetPoints o'.1 o'.2 = .ok points' ∧
      ∀ p, p ∈ points ↔ p ∈ points'

/-- Two owners of a facet have the same points there, however it is turned. -/
theorem Regular.facetPoints_same {k : Element.Kind} (regular : s.Regular k) {F : Facet} (listed : F ∈ s.mesh.facets)
    {o o' : Nat × Nat} (owner : o ∈ F.owners) (owner' : o' ∈ F.owners) (aligned : s.mesh.Aligned o o') :
    ∃ points points', s.facetPoints o.1 o.2 = .ok points ∧ s.facetPoints o'.1 o'.2 = .ok points' ∧
      ∀ p, p ∈ points ↔ p ∈ points' := by
  obtain ⟨corners, facet, corners', facet', π, element, there, element', there', turn, turned⟩ :=
    regular.exists_turn listed owner owner' aligned
  obtain ⟨points, made, members⟩ := regular.facetPoints_eq_ok element there
  obtain ⟨points', made', members'⟩ := regular.facetPoints_eq_ok element' there'
  refine ⟨points, points', made, made', fun p => ?_⟩
  have face := Element.Kind.face_of_turn (regular.kind.fits.facetCell) (Cell.flat_facetCell _) π turn
  rw [members, members', turned]
  constructor
  · rintro ⟨y, known, rfl⟩
    refine ⟨_, face.inside y known, ?_⟩
    rw [hereOf_hereOf (face.bounds y known)]
    exact pointOf_perm ((face.entities y known).symm.map _)
  · rintro ⟨y', known', rfl⟩
    obtain ⟨y, known, rfl⟩ := face.onto y' known' fun i inside =>
      (Cell.mem_turns.mp turn).1.mem_iff.mpr (List.mem_range.mpr (face.bounds _ known' i inside |>.trans_eq
        ((Cell.mem_turns.mp turn).1.length_eq.trans List.length_range)))
    refine ⟨y, known, ?_⟩
    rw [hereOf_hereOf (face.bounds y known)]
    exact pointOf_perm ((face.entities y known).map _)

theorem make_regular {mesh : Mesh ℝ} (formed : mesh.Formed) (distinct : ∀ corners ∈ mesh.elements, corners.Nodup)
    {family : String} {order : Int} {quadratureOrder : Option Int}
    (made : make mesh family order quadratureOrder = .ok s) : s.mesh = mesh ∧ ∃ k, s.Regular k := by
  obtain ⟨same, -, -, built⟩ := make_eq_ok formed.corners made
  obtain ⟨k, kind⟩ := make_ofKind made
  subst same
  exact ⟨rfl, k, formed, distinct, built, kind⟩

/-- Control points are shared exactly through the entities of the mesh, for elements of every family and order. Vertices
are the points at corners, the others are numbered behind them, and each stands where all elements that have it see it. -/
theorem make_shared {mesh : Mesh ℝ} (formed : mesh.Formed) (distinct : ∀ corners ∈ mesh.elements, corners.Nodup)
    (placed : ∀ x ∈ mesh.vertices, x.length = mesh.dim) {family : String} {order : Int} {quadratureOrder : Option Int}
    (made : make mesh family order quadratureOrder = .ok s) : s.mesh = mesh ∧ s.Shared := by
  obtain ⟨rfl, k, regular⟩ := make_regular formed distinct made
  obtain ⟨_, _, rest⟩ := Outcome.bind_eq_ok.mp made
  obtain ⟨corner, linear, -⟩ := Outcome.bind_eq_ok.mp rest
  refine ⟨rfl, ?_, ?_, ?_, ?_, ?_, ?_⟩
  · intro e element a node
    rw [Element.size, regular.kind.nodal.length] at node
    have found := regular.nodeCorners?_eq (Array.getElem?_eq_getElem element) (List.getElem?_eq_getElem node)
    exact ⟨_, _, by rw [regular.built.nodePoint?_eq, found, Option.map_some], found⟩
  · exact fun e a e' a' here there => regular.nodePoint?_eq_iff
  · intro e corners found c v vertex
    refine ⟨?_, fun a => regular.nodePoint?_corner found vertex⟩
    have inside : c < (cornerNodes s.mesh.cell).length := by
      rw [cornerNodes, List.length_map]
      exact (List.getElem?_eq_some_iff.mp vertex).1.trans_eq (formed.corners corners (Array.mem_of_getElem? found))
    rw [List.getD_eq_getElem _ _ inside]
    exact regular.kind.nodes.mem_iff.mpr (Element.cornerNodes_subset regular.kind.fits _ (List.getElem_mem inside))
  · exact fun p => regular.exists_inner_iff
  · refine ⟨corner, linear, fun e corners a x p found node point => ?_⟩
    have mean := Element.mean_of_lagrange linear
      (Element.Kind.mem_latticeNodes (regular.kind.nodes.mem_iff.mp (List.mem_of_getElem? node)))
    rw [vertexMean_of_mean mean (formed.corners corners (Array.mem_of_getElem? found))]
    exact regular.position placed (regular.nodeCorners?_eq found node) point
  · intro F listed o o' owners
    exact regular.facetPoints_same listed (by simp [owners]) (by simp [owners])

/-! ### Two triangles -/

/-- A square that is cut along a diagonal. -/
noncomputable def cutSquare : Mesh ℝ :=
  ⟨.tri, #[[0, 0], [1, 0], [1, 1], [0, 1]], #[[0, 1, 2], [0, 2, 3]], #[⟨[0, 1], [(0, 0)]⟩, ⟨[1, 2], [(0, 1)]⟩,
    ⟨[2, 0], [(0, 2), (1, 0)]⟩, ⟨[2, 3], [(1, 1)]⟩, ⟨[3, 0], [(1, 2)]⟩]⟩

theorem formed_cutSquare : cutSquare.Formed where
  corners := by decide
  vertices := by decide
  facets := by cbv

/-- There are quadratic spaces of triangles. -/
theorem exists_quadratic {mesh : Mesh ℝ} (triangles : mesh.cell = .tri) : ∃ s, make mesh "lagrange" 2 none = .ok s := by
  have quadratic : (Element.ofCell .tri "lagrange" 2).toOption.isSome := by cbv
  have linear : (Element.lagrange .tri 1).toOption.isSome := by cbv
  obtain ⟨element, found⟩ := Outcome.exists_of_isSome quadratic
  obtain ⟨corner, found'⟩ := Outcome.exists_of_isSome linear
  rw [make, triangles, found, found']
  exact ⟨_, rfl⟩

theorem make_cutSquare : ∃ s, make cutSquare "lagrange" 2 none = .ok s := exists_quadratic rfl

theorem cutSquare_shared : cutSquare.Formed ∧ (∀ corners ∈ cutSquare.elements, corners.Nodup) ∧
    (∀ x ∈ cutSquare.vertices, x.length = cutSquare.dim) ∧
    ∃ s, make cutSquare "lagrange" 2 none = .ok s ∧ s.mesh = cutSquare ∧ s.Shared := by
  obtain ⟨s, made⟩ := make_cutSquare
  have distinct : ∀ corners ∈ cutSquare.elements, corners.Nodup := by decide
  have placed : ∀ x ∈ cutSquare.vertices, x.length = cutSquare.dim := by simp [cutSquare, Mesh.dim, Cell.dim]
  exact ⟨formed_cutSquare, distinct, placed, s, made, make_shared formed_cutSquare distinct placed made⟩

end ElementSpace

end Galerkin
