import Mathlib
import Galerkin.Proofs.Domain.LifeCycle
import Galerkin.Proofs.Tabulation.Normals

/-!
Which entities of a discretized domain can be assembled. Every element that a piece lists has numbers for all of its
unknowns, so that blocks fail to be made only where a facet has no element of its piece.
-/

namespace Galerkin

/-- Does a failure tell of control points without numbers? -/
def Failure.LacksDofs (e : Failure) : Prop :=
  ∃ points piece region entity, e = .assembly ⟨.withoutDofs points, piece, region, entity⟩

/-- Does a failure tell of what was not done to a domain before? -/
def Failure.OfStage (e : Failure) : Prop := e.LacksDofs ∨ ∃ m, e = .misuse m

namespace Tabulation

variable {e : Element} {nets : ControlNets ℝ} {rule : Rule ℝ} {ids : Option (List Int)}

theorem mapEntity_avoids (axes dim k : Nat) (net : List (List ℝ)) (points : List (ReferencePoint ℝ)) :
    Outcome.Avoids Failure.OfStage (mapEntity axes dim ids k net points) := by
  refine Outcome.avoids_bind (Outcome.avoids_mapM fun p _ => ?_) fun all _ => ?_
  · unfold mapped
    dsimp only
    split
    · exact Outcome.avoids_throw nofun
    · exact Outcome.avoids_ok _
  · split
    · refine Outcome.avoids_bind ?_ fun id _ => Outcome.avoids_bind (Outcome.avoids_throw nofun) nofun
      unfold reportedId
      split
      · exact Outcome.avoids_ok _
      · split
        · exact Outcome.avoids_ok _
        · exact Outcome.avoids_throw nofun
    · exact Outcome.avoids_ok _

theorem onVolumes_avoids : Outcome.Avoids Failure.OfStage (onVolumes e nets rule ids) := by
  unfold onVolumes
  split
  · exact Outcome.avoids_bind (Outcome.avoids_throw nofun) nofun
  · refine Outcome.avoids_bind (Outcome.avoids_mapM fun t _ => ?_) fun _ _ => Outcome.avoids_ok _
    exact Outcome.avoids_bind (mapEntity_avoids _ _ _ _ _) fun _ _ => Outcome.avoids_ok _

theorem facetPoint_avoids (cell : Cell) (facet : List Nat) (x : List ℝ) :
    Outcome.Avoids Failure.OfStage (cell.facetPoint facet x) := by
  refine Outcome.avoids_bind ?_ fun _ _ => Outcome.avoids_ok _
  unfold Cell.cornerWeights
  split
  · exact Outcome.avoids_ok _
  · exact Outcome.avoids_ok _
  · exact Outcome.avoids_ok _
  · exact Outcome.avoids_ok _
  · exact Outcome.avoids_throw nofun
  · exact Outcome.avoids_throw nofun

theorem onFacets_avoids {locals : List Int} : Outcome.Avoids Failure.OfStage (onFacets e nets locals rule ids) := by
  refine Outcome.avoids_bind (Outcome.avoids_mapM fun l _ => ?_) fun _ _ => Outcome.avoids_ok _
  unfold facetGroup
  split
  swap
  · exact Outcome.avoids_throw nofun
  refine Outcome.avoids_bind (Outcome.avoids_mapM fun q _ => facetPoint_avoids _ _ _) fun positions _ => ?_
  refine Outcome.avoids_bind (Outcome.avoids_mapM fun k _ => ?_) fun chosen _ => ?_
  · split
    · exact Outcome.avoids_ok _
    · exact Outcome.avoids_throw nofun
  split
  · exact Outcome.avoids_bind (Outcome.avoids_throw nofun) nofun
  · refine Outcome.avoids_mapM fun t _ => ?_
    exact Outcome.avoids_bind (mapEntity_avoids _ _ _ _ _) fun _ _ => Outcome.avoids_ok _

end Tabulation

namespace Block

variable {c : Context ℝ}

/-! ### Numbers -/

/-- Has every control point numbers? -/
def Context.Numbers (c : Context ℝ) (row : List Nat) : Prop := ∃ numbers : List Nat, c.dofs.elementDofs row = numbers.map some

theorem numberRows_avoids {place : Place} {entities : List Int} {rows : List (List Nat)}
    (numbered : ∀ row ∈ rows, c.Numbers row) :
    Outcome.Avoids Failure.LacksDofs (numberRows c.dofs place entities rows) := by
  unfold numberRows
  split
  · exact Outcome.avoids_throw nofun
  · refine Outcome.avoids_mapM fun t member => ?_
    obtain ⟨numbered, all⟩ := numbered t.2 (List.of_mem_zip member).2
    have found : numbers c.dofs place t.1 t.2 = .ok numbered := numbers_eq_ok_iff.mpr all
    exact fun e fails => nomatch found.symm.trans fails

theorem elementPoints_avoids (space : ElementSpace ℝ) (e : Int) :
    Outcome.Avoids Failure.OfStage (space.elementPoints e) := by
  unfold ElementSpace.elementPoints
  split
  · exact Outcome.avoids_ok _
  · exact Outcome.avoids_throw nofun

/-- Have all elements of a work piece numbers, as far as they are there? -/
def Context.NumbersAll (c : Context ℝ) (w : WorkPiece) : Prop :=
  ∀ e ∈ w.elements, ∀ row, c.space.elementPoints e = .ok row → c.Numbers row

theorem rows_numbered {w : WorkPiece} (all : c.NumbersAll w) {elements : List Int} (listed : ∀ e ∈ elements, e ∈ w.elements)
    {rows : List (List Nat)} (found : elements.mapM c.space.elementPoints = .ok rows) : ∀ row ∈ rows, c.Numbers row := by
  intro row member
  obtain ⟨e, element, here⟩ := Outcome.exists_of_matched (Outcome.mapM_eq_ok.mp found) member
  exact all e (listed e element) row here

/-- The owner of a facet is an element of the work piece. -/
theorem mem_of_ownerOf {mesh : Mesh ℝ} {w : WorkPiece} {place : Place} {f : Int} {o : Nat × Nat}
    (owned : ownerOf mesh w place f = .ok o) : Int.ofNat o.1 ∈ w.elements := by
  have head := ownerOf_eq_ok.mp owned
  rw [WorkPiece.owner?_eq_head?] at head
  have chosen := List.mem_of_head? head
  exact List.contains_iff_mem.mp (List.mem_filter.mp chosen).2

theorem ofPiece_avoids {w : WorkPiece} (all : c.NumbersAll w) : Outcome.Avoids Failure.LacksDofs (ofPiece c w) := by
  unfold ofPiece
  split
  · refine Outcome.avoids_bind (Outcome.avoids_mapM fun e _ => (elementPoints_avoids _ e).mono fun _ => Or.inl) fun rows found => ?_
    refine Outcome.avoids_bind (numberRows_avoids (rows_numbered all (fun e => id) found)) fun _ _ => ?_
    exact Outcome.avoids_bind (Tabulation.onVolumes_avoids.mono fun _ => Or.inl) fun _ _ => Outcome.avoids_ok _
  · exact Outcome.avoids_throw nofun

theorem ownerOf_avoids (mesh : Mesh ℝ) (w : WorkPiece) (place : Place) (f : Int) :
    Outcome.Avoids Failure.OfStage (ownerOf mesh w place f) := by
  unfold ownerOf
  split
  · exact Outcome.avoids_throw nofun
  · split
    · exact Outcome.avoids_ok _
    · exact Outcome.avoids_throw nofun

theorem ofRegion_avoids {w : WorkPiece} (all : c.NumbersAll w) (r : Region) :
    Outcome.Avoids Failure.LacksDofs (ofRegion c w r) := by
  unfold ofRegion
  split
  · refine Outcome.avoids_bind (Outcome.avoids_mapM fun f _ => (ownerOf_avoids _ _ _ f).mono fun _ => Or.inl)
      fun owners owned => ?_
    have listed : ∀ e ∈ owners.map fun o => Int.ofNat o.1, e ∈ w.elements := by
      intro e member
      obtain ⟨o, among, rfl⟩ := List.mem_map.mp member
      obtain ⟨f, -, own⟩ := Outcome.exists_of_matched (Outcome.mapM_eq_ok.mp owned) among
      exact mem_of_ownerOf own
    refine Outcome.avoids_bind (Outcome.avoids_mapM fun e _ => (elementPoints_avoids _ e).mono fun _ => Or.inl) fun rows found => ?_
    refine Outcome.avoids_bind (numberRows_avoids (rows_numbered all listed found)) fun _ _ => ?_
    exact Outcome.avoids_bind (Tabulation.onFacets_avoids.mono fun _ => Or.inl) fun _ _ => Outcome.avoids_ok _
  · exact Outcome.avoids_throw nofun

theorem allOfPiece_avoids {w : WorkPiece} (all : c.NumbersAll w) :
    Outcome.Avoids Failure.LacksDofs (allOfPiece c w) :=
  Outcome.avoids_bind (ofPiece_avoids all) fun _ _ =>
    Outcome.avoids_bind (Outcome.avoids_mapM fun r _ => ofRegion_avoids all r) fun _ _ => Outcome.avoids_ok _

/-! ### Jacobians -/

/-- Where the map of an element is looked at: at the points of the rule inside, or at those on one of its facets. -/
noncomputable def Context.positionsAt (c : Context ℝ) (facet : Option Nat) : List (List ℝ) :=
  let cell := c.space.mesh.cell
  match facet with
  | none => (Quadrature.ofCell c.lines cell c.space.quadratureOrder).map (·.position)
  | some l => (Quadrature.ofCell c.lines cell.facetCell c.space.quadratureOrder).filterMap fun q =>
      cell.facets[l]?.bind fun facet => (cell.facetPoint facet q.position).toOption

/-- The determinant of the derivative of an element's map at a point of the cell. -/
noncomputable def Context.determinantAt (c : Context ℝ) (points : List Nat) (x : List ℝ) : Option ℝ :=
  Tabulation.determinant? (Tabulation.jacobian c.space.mesh.dim c.space.element.dim
    (points.map fun p => c.space.positions.getD p []) (c.space.element.gradients x))

/-- Does an element with given control points, or a facet of it, pass the check of its Jacobian? -/
def Context.Passes (c : Context ℝ) (facet : Option Nat) (points : List Nat) : Prop :=
  ∀ x ∈ c.positionsAt facet, ∀ det ∈ c.determinantAt points x, 0 < det

theorem dim_of_body {cell : Cell} (body : cell ∈ Cell.bodies) : cell.dim ∈ [1, 2, 3] := by
  revert body
  cases cell <;> decide

/-- The points of the rules for facets have places on every facet. -/
theorem facetPoint_isOk {cell : Cell} (body : cell ∈ Cell.bodies) (lines : LineRules ℝ) (degree : Int) (facet : List Nat) :
    ∀ q ∈ Quadrature.ofCell lines cell.facetCell degree, ∃ x, cell.facetPoint facet q.position = .ok x := by
  have weights : ∀ q ∈ Quadrature.ofCell lines cell.facetCell degree,
      ∃ ws, cell.facetCell.cornerWeights q.position = .ok ws := by
    intro q member
    cases cell with
    | point => exact absurd body (by decide)
    | line => exact ⟨_, rfl⟩
    | tri | quad =>
        obtain ⟨t, -, rfl⟩ := List.mem_map.mp member
        exact ⟨_, rfl⟩
    | tet =>
        obtain ⟨t, -, member⟩ := List.mem_flatMap.mp member
        obtain ⟨u, -, rfl⟩ := List.mem_map.mp member
        exact ⟨_, rfl⟩
    | hex =>
        obtain ⟨t, -, member⟩ := List.mem_flatMap.mp member
        obtain ⟨u, -, rfl⟩ := List.mem_map.mp member
        exact ⟨_, rfl⟩
  intro q member
  obtain ⟨ws, found⟩ := weights q member
  exact ⟨_, Outcome.bind_eq_ok.mpr ⟨ws, found, rfl⟩⟩

/-- An element that passes the check has data, and so has a facet of it. -/
theorem dataOf_isOk (body : c.space.mesh.cell ∈ Cell.bodies) (same : c.space.element.cell = c.space.mesh.cell)
    {facet : Option Nat} (present : ∀ l ∈ facet, l < c.space.mesh.cell.facets.length) {points : List Nat}
    (passes : c.Passes facet points) : ∃ data, c.dataOf facet points = .ok data := by
  have dims : c.space.element.dim = c.space.mesh.dim := congrArg Cell.dim same
  have small : c.space.mesh.dim ∈ [1, 2, 3] := dim_of_body body
  have positive : ∀ x ∈ c.positionsAt facet, ∃ det, c.determinantAt points x = some det ∧ 0 < det := by
    intro x member
    obtain ⟨det, here⟩ : ∃ det, c.determinantAt points x = some det := by
      rw [Context.determinantAt, dims]
      exact Tabulation.exists_determinant small _ _
    exact ⟨det, here, passes x member det here⟩
  cases facet with
  | none => exact Tabulation.volumeData_isOk fun q member => positive q.position (List.mem_map_of_mem member)
  | some l =>
      have inside := present l rfl
      obtain ⟨facet, here⟩ : ∃ facet, c.space.mesh.cell.facets[l]? = some facet := ⟨_, List.getElem?_eq_getElem inside⟩
      obtain ⟨positions, placed⟩ := Outcome.exists_matched (facetPoint_isOk body c.lines c.space.quadratureOrder facet)
      have found : entry? c.space.mesh.cell.facets (Int.ofNat l) = some facet := by
        rw [ entry?, position?_ofNat inside, Option.bind_some, here]
      have own : List.Forall₂ (fun q x => c.space.element.cell.facetPoint facet q.position = .ok x)
          (Quadrature.ofCell c.lines c.space.mesh.cell.facetCell c.space.quadratureOrder) positions := by
        rw [same]
        exact placed
      refine Tabulation.facetData_isOk (same ▸ found) own fun x member => positive x ?_
      obtain ⟨q, listed, place⟩ := Outcome.exists_of_matched placed member
      refine List.mem_filterMap.mpr ⟨q, listed, ?_⟩
      rw [here, Option.bind_some, place]
      rfl

end Block

namespace Domain

variable {d : Domain ℝ} {x : Discretization ℝ}

/-! ### Occupied points -/

theorem Occupied.mesh (occupied : Occupied d x) : x.space.mesh = d.mesh := by
  obtain ⟨_, _, _, made⟩ := occupied.made
  exact (ElementSpace.make_shape made).1

theorem Occupied.size (occupied : Occupied d x) : x.space.controlPoints.size = d.mesh.elements.size := by
  obtain ⟨_, _, _, made⟩ := occupied.made
  exact (ElementSpace.make_shape made).2.1

theorem Occupied.cell (occupied : Occupied d x) : x.space.element.cell = x.space.mesh.cell := by
  obtain ⟨_, _, _, made⟩ := occupied.made
  obtain ⟨mesh, -, cell⟩ := ElementSpace.make_shape made
  exact cell.trans (congrArg Mesh.cell mesh.symm)

theorem Occupied.built (occupied : Occupied d x) (formed : d.mesh.Formed) : x.space.Built := by
  obtain ⟨_, _, _, made⟩ := occupied.made
  exact (ElementSpace.make_eq_ok formed.corners made).2.2.2

theorem Occupied.numbered (occupied : Occupied d x) :
    x.numbered = some ⟨Preparation.dofsOf x, .zeros (Preparation.dofsOf x).count⟩ := by
  obtain ⟨_, _, _, -, same⟩ := occupied.points
  rw [same]
  rfl

/-- The listed elements are there. -/
theorem Occupied.position (occupied : Occupied d x) {w : WorkPiece} (piece : w ∈ d.pieces) {e : Int}
    (element : e ∈ w.elements) : ∃ k row, position? x.space.controlPoints.size e = some k ∧
      x.space.controlPoints[k]? = some row ∧ x.space.elementPoints e = .ok row := by
  obtain ⟨rows, _, _, found, -⟩ := occupied.points
  obtain ⟨own, -, done⟩ := Outcome.exists_of_matched_left (Outcome.mapM_eq_ok.mp found) piece
  obtain ⟨row, -, done⟩ := Outcome.exists_of_matched_left (Outcome.mapM_eq_ok.mp done) element
  obtain ⟨k, position, here⟩ := Block.elementPoints_eq_ok.mp done
  exact ⟨k, row, position, here, done⟩

/-- A control point is occupied when a work piece lists an element that contains it. -/
theorem Occupied.on_iff (occupied : Occupied d x) (formed : d.mesh.Formed) (p : Nat) :
    x.points.occupied[p]? = some true ↔
      ∃ w ∈ d.pieces, ∃ e ∈ w.elements, ∃ row, x.space.elementPoints e = .ok row ∧ p ∈ row := by
  obtain ⟨rows, internal, external, found, same⟩ := occupied.points
  have flag : x.points.occupied[p]? = if p < x.space.positions.size then
      some (decide (p ∈ (rows.map List.flatten).flatten)) else none := by
    rw [same]
    exact getElem?_occupied_numberedSpace _ p
  have listed : p ∈ (rows.map List.flatten).flatten ↔
      ∃ w ∈ d.pieces, ∃ e ∈ w.elements, ∃ row, x.space.elementPoints e = .ok row ∧ p ∈ row := by
    rw [mem_points occupied.size found]
    constructor
    · rintro ⟨k, row, number, here, inside⟩
      obtain ⟨w, piece, number⟩ := List.mem_flatMap.mp number
      obtain ⟨e, element, position⟩ := List.mem_map.mp number
      rw [← occupied.size] at position
      exact ⟨w, piece, e, element, row, Block.elementPoints_eq_ok.mpr ⟨k, position, here⟩, inside⟩
    · rintro ⟨w, piece, e, element, row, done, inside⟩
      obtain ⟨k, position, here⟩ := Block.elementPoints_eq_ok.mp done
      rw [occupied.size] at position
      exact ⟨k, row, List.mem_flatMap.mpr ⟨w, piece, List.mem_map.mpr ⟨e, element, position⟩⟩, here, inside⟩
  rw [flag, ← listed]
  by_cases member : p ∈ (rows.map List.flatten).flatten
  · obtain ⟨w, -, e, -, row, done, inside⟩ := listed.mp member
    obtain ⟨k, -, here⟩ := Block.elementPoints_eq_ok.mp done
    have bound := (occupied.built formed).lt_size (occupied.mesh.symm ▸ formed) here inside
    simp [bound, member]
  · simp [member]

/-- The context in which the blocks of a discretized domain are made. -/
noncomputable def contextOf (lines : LineRules ℝ) (x : Discretization ℝ) : Block.Context ℝ :=
  ⟨x.space, Preparation.dofsOf x, lines⟩

theorem numbers_of_on {width : Nat} {occupied : List Bool} {row : List Nat} (on : ∀ p ∈ row, DofMap.On occupied p) :
    ∃ numbers : List Nat, (DofMap.ofOccupied width occupied).elementDofs row = numbers.map some := by
  refine ⟨row.flatMap fun p => (List.range width).map fun c => Nat.count (DofMap.On occupied) p * width + c, ?_⟩
  rw [DofMap.elementDofs, List.map_flatMap]
  refine List.flatMap_congr fun p member => ?_
  rw [DofMap.row_ofOccupied, List.map_map]
  refine List.map_congr_left fun c _ => ?_
  rw [if_pos (on p member)]
  rfl

theorem Occupied.numbers (occupied : Occupied d x) (formed : d.mesh.Formed) (lines : LineRules ℝ) {w : WorkPiece}
    (piece : w ∈ d.pieces) : (contextOf lines x).NumbersAll w := by
  intro e element row found
  refine numbers_of_on fun p inside => ?_
  have flag := (occupied.on_iff formed p).mpr ⟨w, piece, e, element, row, found, inside⟩
  rwa [← Array.getElem?_toList] at flag

/-- What is held of an element of a piece, or of a facet of it, that passes the check. -/
theorem Occupied.holds (occupied : Occupied d x) (formed : d.mesh.Formed) (body : d.mesh.cell ∈ Cell.bodies)
    (lines : LineRules ℝ) {w : WorkPiece} (piece : w ∈ d.pieces) {e : Int} (element : e ∈ w.elements) {k : Nat}
    (position : position? x.space.controlPoints.size e = some k) (facet : Option Nat)
    (present : ∀ l ∈ facet, l < d.mesh.cell.facets.length)
    (passes : ∀ row, x.space.controlPoints[k]? = some row → (contextOf lines x).Passes facet row) :
    ∃ part, (contextOf lines x).Holds (k, facet) part := by
  obtain ⟨_, row, again, here, found⟩ := occupied.position piece element
  cases position.symm.trans again
  obtain ⟨numbers, numbered⟩ := occupied.numbers formed lines piece e element row found
  rw [← occupied.mesh] at body present
  obtain ⟨data, done⟩ := Block.dataOf_isOk (c := contextOf lines x) body occupied.cell present (passes row here)
  exact ⟨⟨row, numbers, data⟩, here, numbered, done⟩

/-! ### Faults -/

/-- What is wrong with a facet of a region: that it is not there, or that no element of the work piece owns it. -/
def facetFault? (mesh : Mesh ℝ) (w : WorkPiece) (r : Region) (f : Int) : Option Failure :=
  if f < 0 ∨ mesh.facets.size ≤ f then some (.assembly ⟨.noSuchFacet, some w.name, some r.name, f⟩)
  else if w.owners mesh f = [] then some (.assembly ⟨.noOwner, some w.name, some r.name, f⟩)
  else none

/-- What is wrong with the facets of the regions with a form, by piece, region and place in the list. -/
def facetFaults (d : Domain ℝ) : List Failure :=
  d.pieces.flatMap fun w => (w.regions.filter (·.form.isSome)).flatMap fun r =>
    r.facets.flatMap fun f => (facetFault? d.mesh w r f).toList

theorem owners_of_getElem? {mesh : Mesh ℝ} {w : WorkPiece} {f : Int} (front : ¬f < 0) {F : Facet}
    (found : mesh.facets[f.toNat]? = some F) :
    w.owners mesh f = F.owners.filter fun o => w.elements.contains (Int.ofNat o.1) := by
  rw [WorkPiece.owners, Mesh.facet?, if_neg front, found]
  rfl

theorem firstOf_ownerOf (mesh : Mesh ℝ) (w : WorkPiece) (r : Region) (f : Int) :
    Outcome.FirstOf (facetFault? mesh w r f).toList (Block.ownerOf mesh w ⟨w.name, some r.name⟩ f) := by
  unfold facetFault? Block.ownerOf
  by_cases negative : f < 0
  · rw [if_pos (Or.inl negative), if_pos negative]
    exact Outcome.firstOf_cons.mpr rfl
  rw [if_neg negative]
  cases found : mesh.facets[f.toNat]? with
  | none =>
      have outside : mesh.facets.size ≤ f := by
        have bound := Array.getElem?_eq_none_iff.mp found
        omega
      rw [if_pos (Or.inr outside)]
      exact Outcome.firstOf_cons.mpr rfl
  | some F =>
      have inside : ¬(f < 0 ∨ mesh.facets.size ≤ f) := by
        have bound := (Array.getElem?_eq_some_iff.mp found).1
        omega
      rw [if_neg inside]
      dsimp only
      rw [← owners_of_getElem? negative found]
      split
      · next empty =>
          rw [empty]
          exact Outcome.firstOf_cons.mpr rfl
      · next some =>
          obtain ⟨o, others, shape⟩ := List.exists_cons_of_ne_nil some
          rw [shape]
          exact Outcome.firstOf_nil.mpr ⟨o, rfl⟩

theorem exists_facetFault? {mesh : Mesh ℝ} {w : WorkPiece} {r : Region} {f : Int} :
    (∃ e, facetFault? mesh w r f = some e) ↔
      f < 0 ∨ mesh.facets.size ≤ f ∨ ∀ F, mesh.facets[f.toNat]? = some F → ∀ o ∈ F.owners, Int.ofNat o.1 ∉ w.elements := by
  unfold facetFault?
  by_cases outside : f < 0 ∨ mesh.facets.size ≤ f
  · rw [if_pos outside, ← or_assoc]
    exact iff_of_true ⟨_, rfl⟩ (Or.inl outside)
  rw [if_neg outside, ← or_assoc, or_iff_right outside]
  obtain ⟨F, found⟩ : ∃ F, mesh.facets[f.toNat]? = some F := ⟨_, Array.getElem?_eq_getElem (by omega)⟩
  have none : w.owners mesh f = [] ↔ ∀ o ∈ F.owners, Int.ofNat o.1 ∉ w.elements := by
    rw [owners_of_getElem? (fun negative => outside (Or.inl negative)) found, List.filter_eq_nil_iff]
    simp only [List.contains_iff_mem]
  simp only [found, Option.some.injEq, forall_eq', ← none]
  split
  · next empty => exact iff_of_true ⟨_, rfl⟩ empty
  · next some => exact iff_of_false (fun ⟨_, impossible⟩ => nomatch impossible) some

/-- Has every piece a kernel, and every region with a form? -/
def Compiled (d : Domain ℝ) : Prop :=
  ∀ w ∈ d.pieces, w.kernel.isSome = true ∧ ∀ r ∈ w.regions, r.form.isSome = true → r.kernel.isSome = true

/-- Do all elements of pieces pass the check of their Jacobians, and all facets that belong to one of these? -/
structure Oriented (lines : LineRules ℝ) (d : Domain ℝ) (x : Discretization ℝ) : Prop where
  elements : ∀ w ∈ d.pieces, ∀ e ∈ w.elements, ∀ row, x.space.elementPoints e = .ok row →
    (contextOf lines x).Passes none row
  facets : ∀ w ∈ d.pieces, ∀ r ∈ w.regions, r.form.isSome = true → ∀ f ∈ r.facets, ∀ o ∈ w.owner? d.mesh f,
    ∀ row, x.space.elementPoints (Int.ofNat o.1) = .ok row → (contextOf lines x).Passes (some o.2) row

section Blocks

variable {lines : LineRules ℝ} {w : WorkPiece} (occupied : Occupied d x) (formed : d.mesh.Formed)
  (body : d.mesh.cell ∈ Cell.bodies) (oriented : Oriented lines d x) (piece : w ∈ d.pieces)

include occupied formed body oriented piece

/-- A compiled piece with elements has a block. -/
theorem ofPiece_oriented (compiled : w.kernel.isSome = true) (some : w.elements ≠ []) :
    ∃ b, Block.ofPiece (contextOf lines x) w = .ok b := by
  obtain ⟨k, kernel⟩ := Option.isSome_iff_exists.mp compiled
  have places : ∀ e ∈ w.elements, ∃ part, (contextOf lines x).HoldsAt
      ((position? x.space.controlPoints.size e).map (·, none)) part := by
    intro e element
    obtain ⟨k, row, position, here, found⟩ := occupied.position piece element
    obtain ⟨part, holds⟩ := occupied.holds formed body lines piece element position none nofun
      fun other same => by
        cases here.symm.trans same
        exact oriented.elements w piece e element row found
    exact ⟨part, (k, none), by rw [position]; rfl, holds⟩
  obtain ⟨parts, located⟩ := Outcome.exists_matched places
  have dims : x.space.mesh.dim = x.space.element.dim := (congrArg Cell.dim occupied.cell).symm
  refine Block.ofPiece_isOk dims kernel ?_ (List.forall₂_map_left_iff.mpr located)
  rintro rfl
  exact some (List.forall₂_nil_right_iff.mp located)

/-- A compiled region with facets has a block when nothing is wrong with its facets. -/
theorem ofRegion_oriented {r : Region} (region : r ∈ w.regions) (form : r.form.isSome = true)
    (compiled : r.kernel.isSome = true) (some : r.facets ≠ []) :
    Outcome.FirstOf (r.facets.flatMap fun f => (facetFault? d.mesh w r f).toList)
      (Block.ofRegion (contextOf lines x) w r) := by
  obtain ⟨k, kernel⟩ := Option.isSome_iff_exists.mp compiled
  have owned := Outcome.firstOf_mapM fun f (_ : f ∈ r.facets) => firstOf_ownerOf d.mesh w r f
  generalize (r.facets.flatMap fun f => (facetFault? d.mesh w r f).toList) = faults at owned ⊢
  cases faults with
  | cons e rest =>
      refine Outcome.firstOf_cons.mpr ?_
      unfold Block.ofRegion
      rw [kernel]
      refine Outcome.bind_eq_error.mpr (Or.inl ?_)
      rw [← occupied.mesh] at owned
      exact Outcome.firstOf_cons.mp owned
  | nil =>
      obtain ⟨owners, found⟩ := Outcome.firstOf_nil.mp owned
      have places : ∀ f ∈ r.facets, ∃ part, (contextOf lines x).HoldsAt
          ((w.owner? x.space.mesh f).map fun o => (o.1, Option.some o.2)) part := by
        intro f facet
        obtain ⟨o, -, own⟩ := Outcome.exists_of_matched_left (Outcome.mapM_eq_ok.mp found) facet
        have owner := Block.ownerOf_eq_ok.mp own
        have element := Block.mem_of_ownerOf own
        obtain ⟨k, row, position, here, done⟩ := occupied.position piece element
        cases Block.position?_ofNat_eq_some position
        have present : ∀ l ∈ Option.some o.2, l < d.mesh.cell.facets.length := by
          rintro _ ⟨⟩
          exact WorkPiece.owner?_lt formed owner
        obtain ⟨part, holds⟩ := occupied.holds formed body lines piece element position
          (Option.some o.2) present fun other same => by
            cases here.symm.trans same
            exact oriented.facets w piece r region form f facet o owner row done
        exact ⟨part, (o.1, Option.some o.2), by rw [occupied.mesh, owner]; rfl, holds⟩
      obtain ⟨parts, located⟩ := Outcome.exists_matched places
      refine Outcome.firstOf_nil.mpr (Block.ofRegion_isOk kernel ?_ (List.forall₂_map_left_iff.mpr located))
      rintro rfl
      exact some (List.forall₂_nil_right_iff.mp located)

/-- The blocks of a piece are made when nothing is wrong with its facets. -/
theorem allOfPiece_oriented (compiled : d.Compiled) (filled : Preparation.Filled d) :
    Outcome.FirstOf ((w.regions.filter (·.form.isSome)).flatMap fun r =>
      r.facets.flatMap fun f => (facetFault? d.mesh w r f).toList) (Block.allOfPiece (contextOf lines x) w) := by
  have inside := ofPiece_oriented occupied formed body oriented piece (compiled w piece).1 (filled w piece).1
  have regions := Outcome.firstOf_mapM fun r (member : r ∈ w.regions.filter (·.form.isSome)) =>
    ofRegion_oriented occupied formed body oriented piece (List.mem_filter.mp member).1 (List.mem_filter.mp member).2
      ((compiled w piece).2 r (List.mem_filter.mp member).1 (List.mem_filter.mp member).2)
      ((filled w piece).2 r (List.mem_filter.mp member).1 (List.mem_filter.mp member).2)
  have both := Outcome.firstOf_bind (Outcome.firstOf_nil.mpr inside) fun b _ =>
    Outcome.firstOf_bind regions fun bs _ => Outcome.firstOf_nil.mpr ⟨b :: bs, rfl⟩
  rw [List.nil_append, List.append_nil] at both
  exact both

end Blocks

theorem allOf_eq (occupied : Occupied d x) (lines : LineRules ℝ) :
    Block.allOf lines d = d.pieces.mapM (Block.allOfPiece (contextOf lines x)) >>= fun parts => pure parts.flatten := by
  unfold Block.allOf
  rw [occupied.present]
  dsimp only
  rw [occupied.numbered]
  rfl

/-- Blocks are made unless something is wrong with a facet, and the first such fault is the one reported. -/
theorem allOf_oriented {lines : LineRules ℝ} (occupied : Occupied d x) (formed : d.mesh.Formed)
    (body : d.mesh.cell ∈ Cell.bodies) (oriented : Oriented lines d x) (compiled : d.Compiled)
    (filled : Preparation.Filled d) : Outcome.FirstOf d.facetFaults (Block.allOf lines d) := by
  have pieces := Outcome.firstOf_mapM fun w (piece : w ∈ d.pieces) =>
    allOfPiece_oriented occupied formed body oriented piece compiled filled
  have all := Outcome.firstOf_bind pieces fun parts _ => Outcome.firstOf_nil.mpr ⟨parts.flatten, rfl⟩
  rw [List.append_nil] at all
  rw [allOf_eq occupied lines]
  exact all

theorem allOf_avoids (occupied : Occupied d x) (formed : d.mesh.Formed) (lines : LineRules ℝ) :
    Outcome.Avoids Failure.LacksDofs (Block.allOf lines d) := by
  rw [allOf_eq occupied lines]
  refine Outcome.avoids_bind (Outcome.avoids_mapM fun w piece => ?_) fun _ _ => Outcome.avoids_ok _
  exact Block.allOfPiece_avoids (occupied.numbers formed lines piece)

/-- The numbers in blocks are those of unknowns. -/
theorem allOf_below (occupied : Occupied d x) {lines : LineRules ℝ} {blocks : List (Block ℝ)}
    (built : Block.allOf lines d = .ok blocks) :
    ∀ b ∈ blocks, ∀ row ∈ b.dofs, ∀ i ∈ row, i < (Preparation.dofsOf x).count := by
  have below {places : List (Option (Nat × Option Nat))} {b : Block ℝ} {parts : List Part}
      (made : Block.Made (contextOf lines x) places b parts) : ∀ row ∈ b.dofs, ∀ i ∈ row, i < (Preparation.dofsOf x).count := by
    intro row member i inside
    rw [made.dofs] at member
    obtain ⟨part, among, rfl⟩ := List.mem_map.mp member
    obtain ⟨_, -, there, -, holds⟩ := Outcome.exists_of_matched made.located among
    have numbered : some i ∈ (Preparation.dofsOf x).elementDofs part.points := holds.dofs ▸ List.mem_map_of_mem inside
    obtain ⟨p, -, here⟩ := List.mem_flatMap.mp numbered
    exact DofMap.lt_count_ofOccupied here
  intro b member
  rw [allOf_eq occupied lines] at built
  obtain ⟨parts, found, done⟩ := Outcome.bind_eq_ok.mp built
  cases done
  obtain ⟨part, among, inside⟩ := List.mem_flatten.mp member
  obtain ⟨w, -, made⟩ := Outcome.exists_of_matched (Outcome.mapM_eq_ok.mp found) among
  obtain ⟨first, inner, made⟩ := Outcome.bind_eq_ok.mp made
  obtain ⟨others, outer, made⟩ := Outcome.bind_eq_ok.mp made
  cases made
  rcases List.mem_cons.mp inside with rfl | region
  · obtain ⟨_, _, -, -, -, -, own⟩ := Block.ofPiece_made inner
    exact below own
  · obtain ⟨r, -, made⟩ := Outcome.exists_of_matched (Outcome.mapM_eq_ok.mp outer) region
    obtain ⟨_, _, -, -, -, -, own⟩ := Block.ofRegion_made made
    exact below own

theorem exists_facetFaults : (∃ e, d.facetFaults.head? = some e) ↔
    ∃ w ∈ d.pieces, ∃ r ∈ w.regions, r.form.isSome = true ∧ ∃ f ∈ r.facets, f < 0 ∨ d.mesh.facets.size ≤ f ∨
      ∀ F, d.mesh.facets[f.toNat]? = some F → ∀ o ∈ F.owners, Int.ofNat o.1 ∉ w.elements := by
  have any : (∃ e, d.facetFaults.head? = some e) ↔ ∃ e, e ∈ d.facetFaults := by
    cases d.facetFaults <;> simp
  rw [any]
  simp only [facetFaults, List.mem_flatMap, List.mem_filter, Option.mem_toList]
  constructor
  · rintro ⟨e, w, piece, r, ⟨region, form⟩, f, facet, fault⟩
    exact ⟨w, piece, r, region, form, f, facet, exists_facetFault?.mp ⟨e, fault⟩⟩
  · rintro ⟨w, piece, r, region, form, f, facet, missing⟩
    obtain ⟨e, fault⟩ := exists_facetFault? (r := r).mpr missing
    exact ⟨e, w, piece, r, ⟨region, form⟩, f, facet, fault⟩

/-- Every assembled entity has numbers for its unknowns. After a discretization that succeeds, whatever was done before
and is done after it, the occupied control points are those of listed elements, and each has one number for every
component. All numbers in blocks are below the count, and no failure tells of points without numbers. Compiled forms
on elements and facets that pass the check of their Jacobians have blocks, unless a region lists a facet that is not there or
that no element of its piece owns; the first of these is reported. -/
theorem entities_are_numbered {rules : Calculus Quantity} {mesh : Mesh ℝ} (formed : mesh.Formed)
    (body : mesh.cell ∈ Cell.bodies) {before later : List Operation} {family : String} {order : Number}
    {quadratureOrder : Option Int}
    (succeeds : (((ofMesh mesh).after rules before).perform rules (.discretize family order quadratureOrder)).1 = .ok ()) :
    let d := (ofMesh mesh).after rules (before ++ .discretize family order quadratureOrder :: later)
    ∃ x n, d.discretization = some x ∧ x.numbered = some n ∧
      (∀ p, x.points.occupied[p]? = some true ↔
        ∃ w ∈ d.pieces, ∃ e ∈ w.elements, ∃ row, x.space.elementPoints e = .ok row ∧ p ∈ row) ∧
      n.dofs.count = x.points.occupied.toList.count true * x.points.internal.width ∧
      ∀ lines : LineRules ℝ,
        (∀ blocks, Block.allOf lines d = .ok blocks → ∀ b ∈ blocks, ∀ row ∈ b.dofs, ∀ i ∈ row, i < n.dofs.count) ∧
        (∀ e, Block.allOf lines d = .error e → ¬e.LacksDofs) ∧
        (d.Compiled → Preparation.Filled d → Oriented lines d x →
          ((∃ e, Block.allOf lines d = .error e) ↔
            ∃ w ∈ d.pieces, ∃ r ∈ w.regions, r.form.isSome = true ∧ ∃ f ∈ r.facets, f < 0 ∨ mesh.facets.size ≤ f ∨
              ∀ F, mesh.facets[f.toNat]? = some F → ∀ o ∈ F.owners, Int.ofNat o.1 ∉ w.elements) ∧
          ∀ e, Block.allOf lines d = .error e ↔ d.facetFaults.head? = some e) := by
  intro d
  have same : d.mesh = mesh := (after_distinct rules (distinct_ofMesh mesh) _).2
  obtain ⟨x, occupied⟩ := occupied_after succeeds
  have built : d.mesh.Formed := same.symm ▸ formed
  refine ⟨x, _, occupied.present, occupied.numbered, occupied.on_iff built, rfl, fun lines => ⟨?_, ?_, ?_⟩⟩
  · exact fun blocks => allOf_below occupied
  · exact allOf_avoids occupied built lines
  · intro compiled filled oriented
    have first := allOf_oriented occupied built (same.symm ▸ body) oriented compiled filled
    refine ⟨?_, first⟩
    rw [← same, ← exists_facetFaults]
    exact exists_congr first

/-! ### A region that reaches too far -/

section Chain

open Simulation

/-- Two elements in a row. -/
noncomputable def chain : Mesh ℝ :=
  ⟨.line, #[[0], [1], [(2 : ℚ)]], #[[0, 1], [1, 2]], #[⟨[0], [(0, 0)]⟩, ⟨[1], [(0, 1), (1, 0)]⟩, ⟨[2], [(1, 1)]⟩]⟩

theorem formed_chain : chain.Formed where
  corners := by decide
  vertices := by decide
  facets := by cbv

noncomputable def chainSpace : ElementSpace ℝ :=
  ⟨chain, .lagrange, 1, lineElement, 2, #[[0, 1], [1, 2]], #[[0], [1], [(2 : ℚ)]]⟩

theorem make_chain : ElementSpace.make chain "lagrange" 1 none = .ok chainSpace := by
  rw [ElementSpace.make, show chain.cell = .line from rfl, ofCell_line, lagrange_line]
  rfl

/-- A work piece that covers the first element, with a region that reaches to the end of the second. -/
noncomputable def reaching (x : Option (Discretization ℝ)) (inside tip : Option CompiledKernel) : Domain ℝ :=
  ⟨chain, [⟨"storage", [0], some storage, inside, [⟨"tip", [1, 2], some storage, tip⟩]⟩], [], x⟩

noncomputable def chainPoints (occupied : Array Bool) : ControlPoints ℝ :=
  ⟨1, Kernel.line.internal, Kernel.line.external, #[[0], [1], [(2 : ℚ)]], #[[0], [0], [0]], #[[0], [0], [0]],
    #[[], [], []], occupied⟩

noncomputable def chainDiscretization : Discretization ℝ :=
  ⟨chainSpace, chainPoints #[true, true, false], some ⟨⟨1, #[some 0, some 1, none], 2⟩, .zeros 2⟩⟩

noncomputable def preparing : List Operation :=
  [.addPiece (some "storage") (some [0]), .assignForm "storage" storage, .addBoundary "storage" "tip" [1, 2],
    .assignBoundaryForm "storage" "tip" storage]

theorem after_preparing : (ofMesh chain).after .textbook preparing = reaching none none none := rfl

theorem discretize_chain : (reaching none none none).perform .textbook (.discretize "lagrange" (.int 1) none) =
    (.ok (), reaching (some chainDiscretization) none none) := by
  have layouts : (reaching none none none).layouts = .ok (Kernel.line.internal, Kernel.line.external) := by cbv
  have points : ControlPoints.make (reaching none none none).mesh.dim chainSpace.positions Kernel.line.internal
      Kernel.line.external = chainPoints #[false, false, false] := by
    simp [ControlPoints.make, chainSpace, chainPoints]
    exact ⟨rfl, rfl, rfl⟩
  refine Outcome.run_bind_eq_ok.mpr ⟨_, _, rfl, ?_⟩
  refine Outcome.run_bind_eq_ok.mpr ⟨_, _, Outcome.run_lift_eq_ok.mpr ⟨layouts, rfl⟩, ?_⟩
  refine Outcome.run_bind_eq_ok.mpr ⟨_, _, Outcome.run_lift_eq_ok.mpr ⟨rfl, rfl⟩, ?_⟩
  refine Outcome.run_bind_eq_ok.mpr ⟨_, _, Outcome.run_lift_eq_ok.mpr ⟨make_chain, rfl⟩, ?_⟩
  rw [points]
  rfl

theorem compile_chain : (reaching (some chainDiscretization) none none).perform .textbook (.compile "sequential") =
    (.ok (), reaching (some chainDiscretization) (some ⟨storageKernel, .sequential⟩)
      (some ⟨Block.tipKernel, .sequential⟩)) := by
  let k : CompiledKernel := ⟨storageKernel, .sequential⟩
  let l : CompiledKernel := ⟨Block.tipKernel, .sequential⟩
  refine Outcome.run_bind_eq_ok.mpr ⟨_, _, rfl, ?_⟩
  refine Outcome.run_bind_eq_ok.mpr ⟨(), reaching (some chainDiscretization) (some k) (some l), ?_, rfl⟩
  refine Outcome.run_bind_eq_ok.mpr ⟨k, _, Outcome.run_lift_eq_ok.mpr ⟨?_, rfl⟩, ?_⟩
  · exact Outcome.bind_eq_ok.mpr ⟨_, ofForm_storage, rfl⟩
  · refine Outcome.run_bind_eq_ok.mpr ⟨(), reaching (some chainDiscretization) (some k) none, rfl, ?_⟩
    refine Outcome.run_bind_eq_ok.mpr ⟨(), reaching (some chainDiscretization) (some k) (some l), ?_, rfl⟩
    refine Outcome.run_bind_eq_ok.mpr ⟨l, _, Outcome.run_lift_eq_ok.mpr ⟨?_, rfl⟩, rfl⟩
    exact Outcome.bind_eq_ok.mpr ⟨_, Block.ofForm_tip, rfl⟩

theorem gradients_line (t : ℝ) : lineElement.gradients [t] = [[-1 / 2], [1 / 2]] := by
  have slopes : lineElement.basis.map (Polynomial.derivative 0) = [[⟨-1 / 2, [0]⟩], [⟨1 / 2, [0]⟩]] := by cbv
  change (lineElement.basis.map (Polynomial.derivative 0)).map (fun p => [p.eval [t]]) = _
  rw [slopes]
  simp [Polynomial.eval, Monomial.eval, Monomial.powers, Arithmetic.total, Arithmetic.sumOf, Arithmetic.ofRat,
    natPow_eq_pow]

/-- The first element is half as long as the reference cell wherever one looks. -/
theorem oriented_chain (inside tip : Option CompiledKernel) :
    Oriented midpointRules (reaching (some chainDiscretization) inside tip) chainDiscretization := by
  have stretch (t : ℝ) : (contextOf midpointRules chainDiscretization).determinantAt [0, 1] [t] = some (1 / 2) := by
    change Tabulation.determinant? (Tabulation.jacobian 1 1 [[0], [1]] (lineElement.gradients [t])) = _
    rw [gradients_line]
    simp [Tabulation.jacobian, Tabulation.determinant?, Arithmetic.total]
  have passes (facet : Option Nat) : (contextOf midpointRules chainDiscretization).Passes facet [0, 1] := by
    intro x member det here
    obtain ⟨t, rfl⟩ : ∃ t, x = [t] := by
      cases facet with
      | none => exact ⟨0, List.mem_singleton.mp member⟩
      | some l =>
          obtain ⟨q, -, found⟩ := List.mem_filterMap.mp member
          obtain ⟨facet, -, placed⟩ := Option.bind_eq_some_iff.mp found
          exact ⟨_, (Option.some.inj placed).symm⟩
    rw [stretch] at here
    cases here
    norm_num
  constructor
  · intro w piece e element row found
    cases List.mem_singleton.mp piece
    cases List.mem_singleton.mp element
    cases found
    exact passes none
  · intro w piece r region _ f facet o owner row found
    cases List.mem_singleton.mp piece
    cases List.mem_singleton.mp region
    rcases List.mem_pair.mp facet with rfl | rfl
    · cases owner
      cases found
      exact passes (some 1)
    · cases owner

/-- The life cycle of a piece with a region that lists a facet of another element: points of the first element only
are occupied, and this facet is reported. -/
theorem entities_of_reaching :
    let ops := preparing ++ .discretize "lagrange" (.int 1) none :: [.compile "sequential"]
    chain.Formed ∧ chain.cell ∈ Cell.bodies ∧
      (((ofMesh chain).after .textbook preparing).perform .textbook (.discretize "lagrange" (.int 1) none)).1 = .ok () ∧
      ∃ x n, ((ofMesh chain).after .textbook ops).discretization = some x ∧ x.numbered = some n ∧ n.dofs.count = 2 ∧
        Block.allOf midpointRules ((ofMesh chain).after .textbook ops) =
          .error (.assembly ⟨.noOwner, some "storage", some "tip", 2⟩) := by
  intro ops
  have body : chain.cell ∈ Cell.bodies := by decide
  have succeeds : (((ofMesh chain).after .textbook preparing).perform .textbook
      (.discretize "lagrange" (.int 1) none)).1 = .ok () := by
    rw [after_preparing, discretize_chain]
  have reached : (ofMesh chain).after .textbook ops = reaching (some chainDiscretization)
      (some ⟨storageKernel, .sequential⟩) (some ⟨Block.tipKernel, .sequential⟩) := by
    rw [after_append, after_preparing, after_cons, discretize_chain, after_cons, compile_chain]
    rfl
  refine ⟨formed_chain, body, succeeds, ?_⟩
  obtain ⟨x, n, present, numbered, -, count, rest⟩ :=
    @entities_are_numbered .textbook chain formed_chain body preparing [.compile "sequential"] _ _ _ succeeds
  rw [show (ofMesh chain).after .textbook (preparing ++ .discretize "lagrange" (.int 1) none :: [.compile "sequential"]) = _
    from reached] at present rest
  rw [reached]
  cases present
  refine ⟨_, n, rfl, numbered, count, (((rest midpointRules).2.2 ?_ ?_ (oriented_chain _ _)).2 _).mpr ?_⟩
  · intro w piece
    cases List.mem_singleton.mp piece
    refine ⟨rfl, fun r region _ => ?_⟩
    cases List.mem_singleton.mp region
    rfl
  · intro w piece
    cases List.mem_singleton.mp piece
    refine ⟨List.cons_ne_nil _ _, fun r region _ => ?_⟩
    cases List.mem_singleton.mp region
    exact List.cons_ne_nil _ _
  · rfl

end Chain

end Domain

end Galerkin
