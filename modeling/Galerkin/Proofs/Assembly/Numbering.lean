import Mathlib
import Galerkin.Proofs.Assembly.Blocks
import Galerkin.Proofs.DofMap

/-!
Every element of a block has as many numbers as it has unknowns, all below the count of the numbering.
-/

namespace Galerkin

/-! ### Nodes and control points -/

/-- One node, and one face of the cell, for every function of the basis. -/
structure Element.Nodal (e : Element) : Prop where
  nodes : e.nodes.length = e.size
  entities : e.entities.length = e.size

namespace Element

theorem nodal_ofLattice {cell : Cell} {family : Family} {order : Nat} {nodes : List (List Rat)}
    {exponents : List (List Nat)} {e : Element} (made : ofLattice cell family order nodes exponents = .ok e) :
    e.Nodal := by
  obtain ⟨basis, found, made⟩ := Outcome.bind_eq_ok.mp made
  cases made
  unfold nodalBasis at found
  split at found
  · cases found
    constructor <;> simp [size]
  · cases found

theorem nodal_lagrange {cell : Cell} {order : Nat} {e : Element} (made : lagrange cell order = .ok e) : e.Nodal := by
  obtain ⟨_, _, made⟩ := Outcome.bind_eq_ok.mp made
  exact nodal_ofLattice made

theorem nodal_serendipity {cell : Cell} {order : Nat} {e : Element} (made : serendipity cell order = .ok e) :
    e.Nodal := by
  obtain ⟨_, _, made⟩ := Outcome.bind_eq_ok.mp made
  obtain ⟨_, _, made⟩ := Outcome.bind_eq_ok.mp made
  exact nodal_ofLattice made

theorem nodal_ofCell {cell : Cell} {family : String} {order : Int} {e : Element}
    (made : ofCell cell family order = .ok e) : e.Nodal := by
  obtain ⟨_, _, made⟩ := Outcome.bind_eq_ok.mp made
  split at made
  · split at made
    · cases made
    · exact nodal_serendipity made
  · split at made
    · cases made
    · exact nodal_lagrange made

end Element

namespace ElementSpace

variable {mesh : Mesh ℝ}

theorem length_foldl_addNode (corners : List Nat) (nodes : List (NodePlace ℝ)) (points : List Nat)
    (grown : Growth ℝ) :
    (nodes.foldl (fun (points, grown) node =>
      let (p, grown) := addNode mesh corners grown node
      (points ++ [p], grown)) (points, grown)).1.length = points.length + nodes.length := by
  induction nodes generalizing points grown with
  | nil => rfl
  | cons node rest ih =>
      rw [List.foldl_cons, ih, List.length_append, List.length_singleton, List.length_cons]
      omega

theorem length_addElement (nodes : List (NodePlace ℝ)) (grown : Growth ℝ) (corners : List Nat) :
    (addElement mesh nodes grown corners).1.length = nodes.length := by
  rw [addElement, length_foldl_addNode, List.length_nil, Nat.zero_add]

/-- As many control points for each element as the basis has functions. -/
def Even (s : ElementSpace ℝ) : Prop := ∀ points ∈ s.controlPoints, points.length = s.element.size

theorem make_even {family : String} {order : Int} {quadratureOrder : Option Int} {s : ElementSpace ℝ}
    (made : make mesh family order quadratureOrder = .ok s) : s.Even := by
  obtain ⟨element, found, made⟩ := Outcome.bind_eq_ok.mp made
  obtain ⟨corner, _, made⟩ := Outcome.bind_eq_ok.mp made
  obtain ⟨_, _, made⟩ := Outcome.bind_eq_ok.mp made
  cases made
  have nodal := Element.nodal_ofCell found
  have nodes : (nodePlaces element corner : List (NodePlace ℝ)).length = element.size := by
    rw [nodePlaces, List.length_zipWith, nodal.entities, nodal.nodes, Nat.min_self]
  refine Array.foldl_induction
    (fun _ (built : Array (List Nat) × Growth ℝ) => ∀ points ∈ built.1, points.length = element.size) ?_ ?_
  · simp
  · intro i built before points member
    rcases Array.mem_push.mp member with earlier | last
    · exact before points earlier
    · rw [last, length_addElement, nodes]

theorem Even.elementPoints {s : ElementSpace ℝ} (even : s.Even) {element : Int} {points : List Nat}
    (found : s.elementPoints element = .ok points) : points.length = s.element.size := by
  unfold ElementSpace.elementPoints at found
  split at found
  · next here =>
      cases found
      obtain ⟨k, _, there⟩ := Option.bind_eq_some_iff.mp here
      exact even points (Array.mem_of_getElem? there)
  · cases found

end ElementSpace

namespace Tabulation

theorem basisCount_onVolumes {e : Element} {nets : ControlNets ℝ} {rule : Rule ℝ} {ids : Option (List Int)}
    {tab : Tabulation ℝ} (made : onVolumes e nets rule ids = .ok tab) : tab.basisCount = nets.points := by
  unfold onVolumes at made
  split at made
  · cases made
  · obtain ⟨_, _, made⟩ := Outcome.bind_eq_ok.mp made
    cases made
    rfl

theorem basisCount_onFacets {e : Element} {nets : ControlNets ℝ} {locals : List Int} {rule : Rule ℝ}
    {ids : Option (List Int)} {tab : Tabulation ℝ} (made : onFacets e nets locals rule ids = .ok tab) :
    tab.basisCount = nets.points := by
  obtain ⟨_, _, made⟩ := Outcome.bind_eq_ok.mp made
  cases made
  rfl

end Tabulation

/-! ### Blocks -/

namespace Block

theorem mapM_id_eq_some {xs : List (Option Nat)} {ys : List Nat} (all : xs.mapM id = some ys) :
    xs = ys.map some := by
  induction xs generalizing ys with
  | nil =>
      cases all
      rfl
  | cons x rest ih =>
      rw [List.mapM_cons] at all
      obtain ⟨y, first, all⟩ := Option.bind_eq_some_iff.mp all
      obtain ⟨others, later, all⟩ := Option.bind_eq_some_iff.mp all
      cases all
      rw [List.map_cons, ← ih later, ← first, id]

/-- The numbers of one element: one for every component of every control point. -/
theorem numbers_eq_ok {m : DofMap} {place : Place} {entity : Int} {points row : List Nat}
    (made : numbers m place entity points = .ok row) :
    row.length = points.length * m.width ∧ ∀ i ∈ row, ∃ point ∈ points, some i ∈ m.row point := by
  unfold numbers at made
  split at made
  · next all =>
      cases made
      have entries := mapM_id_eq_some all
      constructor
      · rw [← DofMap.length_elementDofs, entries, List.length_map]
      · intro i member
        exact List.mem_flatMap.mp (entries ▸ List.mem_map_of_mem member : some i ∈ m.elementDofs points)
  · cases made

theorem numberRows_eq_ok {m : DofMap} {place : Place} {entities : List Int} {rows dofs : List (List Nat)}
    (made : numberRows m place entities rows = .ok dofs) {row : List Nat} (member : row ∈ dofs) :
    ∃ entity, ∃ points ∈ rows, numbers m place entity points = .ok row := by
  unfold numberRows at made
  split at made
  · cases made
  · obtain ⟨pair, inside, done⟩ := Outcome.exists_of_matched (Outcome.mapM_eq_ok.mp made) member
    exact ⟨pair.1, pair.2, (List.of_mem_zip inside).2, done⟩

/-- What blocks have in common when a numbering of occupied control points numbers the elements of a space. -/
structure Context.Sound (c : Context ℝ) : Prop where
  even : c.space.Even
  below : ∀ point i, some i ∈ c.dofs.row point → i < c.dofs.count

variable {c : Context ℝ} {b : Block ℝ}

theorem numbered_of_rows (sound : c.Sound) {elements entities : List Int} {rows dofs : List (List Nat)}
    {place : Place} (found : elements.mapM c.space.elementPoints = .ok rows)
    (made : numberRows c.dofs place entities rows = .ok dofs) (fill : b.dofs = dofs)
    (count : b.tab.basisCount = c.space.element.size) (width : b.kernel.width = c.dofs.width) :
    b.Numbered c.dofs.count := by
  constructor
  · intro row member
    obtain ⟨entity, points, present, done⟩ := numberRows_eq_ok made (fill ▸ member)
    obtain ⟨element, _, located⟩ := Outcome.exists_of_matched (Outcome.mapM_eq_ok.mp found) present
    rw [(numbers_eq_ok done).1, count, width, sound.even.elementPoints located]
  · intro row member i inside
    obtain ⟨entity, points, _, done⟩ := numberRows_eq_ok made (fill ▸ member)
    obtain ⟨point, _, numbered⟩ := (numbers_eq_ok done).2 i inside
    exact sound.below point i numbered

theorem ofPiece_eq_ok {w : WorkPiece} (sound : c.Sound) (made : ofPiece c w = .ok b) :
    ∃ k, w.kernel = some k ∧ b.kernel = k.kernel ∧
      (b.kernel.width = c.dofs.width → b.Numbered c.dofs.count) := by
  unfold ofPiece at made
  split at made
  · next k compiled =>
      obtain ⟨rows, found, made⟩ := Outcome.bind_eq_ok.mp made
      obtain ⟨dofs, numbers, made⟩ := Outcome.bind_eq_ok.mp made
      obtain ⟨tab, tabulated, made⟩ := Outcome.bind_eq_ok.mp made
      cases made
      exact ⟨k, compiled, rfl, numbered_of_rows sound found numbers rfl (Tabulation.basisCount_onVolumes tabulated)⟩
  · cases made

theorem ofRegion_eq_ok {w : WorkPiece} {r : Region} (sound : c.Sound) (made : ofRegion c w r = .ok b) :
    ∃ k, r.kernel = some k ∧ b.kernel = k.kernel ∧
      (b.kernel.width = c.dofs.width → b.Numbered c.dofs.count) := by
  unfold ofRegion at made
  split at made
  · next k compiled =>
      obtain ⟨owners, _, made⟩ := Outcome.bind_eq_ok.mp made
      obtain ⟨rows, found, made⟩ := Outcome.bind_eq_ok.mp made
      obtain ⟨dofs, numbers, made⟩ := Outcome.bind_eq_ok.mp made
      obtain ⟨tab, tabulated, made⟩ := Outcome.bind_eq_ok.mp made
      cases made
      exact ⟨k, compiled, rfl, numbered_of_rows sound found numbers rfl (Tabulation.basisCount_onFacets tabulated)⟩
  · cases made

/-- The kernels that the blocks of a work piece are made with. -/
def usedKernels (w : WorkPiece) : List CompiledKernel :=
  w.kernel.toList ++ (w.regions.filter (·.form.isSome)).filterMap (·.kernel)

theorem mem_allOfPiece {w : WorkPiece} (sound : c.Sound) {blocks : List (Block ℝ)}
    (made : allOfPiece c w = .ok blocks) (member : b ∈ blocks) :
    ∃ k ∈ usedKernels w, b.kernel = k.kernel ∧ (b.kernel.width = c.dofs.width → b.Numbered c.dofs.count) := by
  obtain ⟨inside, first, made⟩ := Outcome.bind_eq_ok.mp made
  obtain ⟨regions, others, made⟩ := Outcome.bind_eq_ok.mp made
  cases made
  rcases List.mem_cons.mp member with rfl | later
  · obtain ⟨k, compiled, rest⟩ := ofPiece_eq_ok sound first
    exact ⟨k, List.mem_append_left _ (Option.mem_toList.mpr compiled), rest⟩
  · obtain ⟨r, present, done⟩ := Outcome.exists_of_matched (Outcome.mapM_eq_ok.mp others) later
    obtain ⟨k, compiled, rest⟩ := ofRegion_eq_ok sound done
    exact ⟨k, List.mem_append_right _ (List.mem_filterMap.mpr ⟨r, present, compiled⟩), rest⟩

/-- The blocks of a domain, by what its discretization numbers. -/
theorem mem_allOf {lines : LineRules ℝ} {d : Domain ℝ} {x : Discretization ℝ} {n : Galerkin.Numbered ℝ}
    {blocks : List (Block ℝ)} (discretized : d.discretization = some x) (numbered : x.numbered = some n)
    (sound : Context.Sound ⟨x.space, n.dofs, lines⟩) (made : allOf lines d = .ok blocks) (member : b ∈ blocks) :
    ∃ w ∈ d.pieces, ∃ k ∈ usedKernels w, b.kernel = k.kernel ∧
      (b.kernel.width = n.dofs.width → b.Numbered n.dofs.count) := by
  unfold allOf at made
  simp only [discretized, numbered] at made
  obtain ⟨parts, found, made⟩ := Outcome.bind_eq_ok.mp made
  cases made
  obtain ⟨part, present, inside⟩ := List.mem_flatten.mp member
  obtain ⟨w, among, done⟩ := Outcome.exists_of_matched (Outcome.mapM_eq_ok.mp found) present
  exact ⟨w, among, mem_allOfPiece sound done inside⟩

end Block

end Galerkin
