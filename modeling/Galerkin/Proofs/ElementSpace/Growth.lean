import Mathlib
import Galerkin.Proofs.Assembly.Numbering
import Galerkin.Proofs.Element

/-!
The control points of a space in closed form. Points inside edges, facets and elements come behind the vertices, one
for each set of corners, in the order in which these sets are met first.
-/

namespace Galerkin

namespace ElementSpace

/-- The corner sets met so far, after one more entity. A vertex is no corner set. -/
def meet (keys : List (List Nat)) (here : List Nat) : List (List Nat) :=
  if here.length = 1 ∨ Mesh.key here ∈ keys then keys else keys ++ [Mesh.key here]

/-- The number of the control point inside an entity with these corners. -/
def pointOf (vertices : Nat) (keys : List (List Nat)) : List Nat → Nat
  | [vertex] => vertex
  | here => vertices + keys.idxOf (Mesh.key here)

theorem prefix_meet (keys : List (List Nat)) (here : List Nat) : keys <+: meet keys here := by
  unfold meet
  split
  · exact List.prefix_rfl
  · exact List.prefix_append _ _

theorem mem_meet {keys : List (List Nat)} {here k : List Nat} :
    k ∈ meet keys here ↔ k ∈ keys ∨ here.length ≠ 1 ∧ Mesh.key here = k := by
  unfold meet
  split
  · next known =>
      refine ⟨Or.inl, fun either => either.elim id fun new => ?_⟩
      exact new.2 ▸ known.resolve_left new.1
  · next new =>
      rw [not_or] at new
      rw [List.mem_append, List.mem_singleton]
      exact or_congr_right (by simp [new.1, eq_comm])

theorem nodup_meet {keys : List (List Nat)} (distinct : keys.Nodup) (here : List Nat) : (meet keys here).Nodup := by
  unfold meet
  split
  · exact distinct
  · next new =>
      rw [not_or] at new
      exact List.nodup_append.mpr ⟨distinct, List.nodup_singleton _, fun k known l other same =>
        new.2 (List.mem_singleton.mp other ▸ same ▸ known)⟩

theorem prefix_foldl_meet (heres keys : List (List Nat)) : keys <+: heres.foldl meet keys := by
  induction heres generalizing keys with
  | nil => exact List.prefix_rfl
  | cons here rest ih => exact (prefix_meet keys here).trans (ih _)

theorem mem_foldl_meet {heres keys : List (List Nat)} {k : List Nat} :
    k ∈ heres.foldl meet keys ↔ k ∈ keys ∨ ∃ here ∈ heres, here.length ≠ 1 ∧ Mesh.key here = k := by
  induction heres generalizing keys with
  | nil => simp
  | cons here rest ih =>
      rw [List.foldl_cons, ih, mem_meet, or_assoc]
      simp

theorem nodup_foldl_meet {keys : List (List Nat)} (distinct : keys.Nodup) (heres : List (List Nat)) :
    (heres.foldl meet keys).Nodup := by
  induction heres generalizing keys with
  | nil => exact distinct
  | cons here rest ih => exact ih (nodup_meet distinct here)

/-- Corner sets that are met later do not change the number of a point. -/
theorem pointOf_of_longer {vertices : Nat} {keys more : List (List Nat)} {here : List Nat} (longer : keys <+: more)
    (known : here.length = 1 ∨ Mesh.key here ∈ keys) : pointOf vertices more here = pointOf vertices keys here := by
  obtain ⟨rest, rfl⟩ := longer
  match here with
  | [vertex] => rfl
  | [] => simp [pointOf, List.idxOf_append_of_mem (known.resolve_left (by simp))]
  | _ :: _ :: _ => simp [pointOf, List.idxOf_append_of_mem (known.resolve_left (by simp))]

section Growing

variable {mesh : Mesh ℝ} {keys : List (List Nat)} {g : Growth ℝ}

/-- The mean of the vertices in a corner set. -/
noncomputable def keyMean (mesh : Mesh ℝ) (key : List Nat) : List ℝ :=
  (List.range mesh.dim).map fun axis =>
    (key.length : ℝ)⁻¹ * (key.map fun v => (mesh.vertices.getD v []).getD axis 0).sum

/-- What has been found when some corner sets were met. -/
structure Grown (mesh : Mesh ℝ) (keys : List (List Nat)) (g : Growth ℝ) : Prop where
  inner : g.inner = keys.zipIdx mesh.vertices.size
  positions : g.positions = mesh.vertices ++ (keys.map (keyMean mesh)).toArray

/-- The corners of the mesh that a node of an element lies between. -/
def hereOf (corners : List Nat) (entity : List Nat) : List Nat := entity.map fun c => corners.getD c 0

theorem lookup_zipIdx (keys : List (List Nat)) (start : Nat) (key : List Nat) :
    (keys.zipIdx start).lookup key = if key ∈ keys then some (start + keys.idxOf key) else none := by
  induction keys generalizing start with
  | nil => rfl
  | cons k rest ih =>
      rw [List.zipIdx_cons, List.lookup_cons, ih]
      by_cases same : key = k
      · simp [same]
      · have differ : (key == k) = false := beq_false_of_ne same
        simp only [differ, List.mem_cons, same, false_or]
        split
        · rw [List.idxOf_cons_ne _ (Ne.symm same)]
          congr 1
          omega
        · rfl

theorem pointOf_of_inner {vertices : Nat} {here : List Nat} (inner : here.length ≠ 1) :
    pointOf vertices keys here = vertices + keys.idxOf (Mesh.key here) := by
  cases here with
  | nil => rfl
  | cons v rest =>
      cases rest with
      | nil => exact absurd rfl inner
      | cons _ _ => rfl

theorem addNode_of_inner {corners : List Nat} {node : NodePlace ℝ}
    (inner : (hereOf corners node.entity).length ≠ 1) :
    addNode mesh corners g node =
      match g.inner.lookup (Mesh.key (hereOf corners node.entity)) with
      | some p => (p, g)
      | none => (g.positions.size, ⟨g.inner ++ [(Mesh.key (hereOf corners node.entity), g.positions.size)],
          g.positions.push (vertexMean mesh.dim node.weights (corners.map fun v => mesh.vertices.getD v []))⟩) := by
  have shape : hereOf corners node.entity = node.entity.map fun c => corners.getD c 0 := rfl
  simp only [addNode, ← shape]
  generalize hereOf corners node.entity = here at *
  cases here with
  | nil => rfl
  | cons v rest =>
      cases rest with
      | nil => exact absurd rfl inner
      | cons _ _ => rfl

theorem addNode_grown (grown : Grown mesh keys g) {corners : List Nat} {node : NodePlace ℝ}
    (middle : (hereOf corners node.entity).length ≠ 1 →
      vertexMean mesh.dim node.weights (corners.map fun v => mesh.vertices.getD v []) =
        keyMean mesh (Mesh.key (hereOf corners node.entity))) :
    ∃ g', addNode mesh corners g node =
        (pointOf mesh.vertices.size (meet keys (hereOf corners node.entity)) (hereOf corners node.entity), g') ∧
      Grown mesh (meet keys (hereOf corners node.entity)) g' := by
  by_cases single : (hereOf corners node.entity).length = 1
  · obtain ⟨v, shape⟩ := List.length_eq_one_iff.mp single
    have unchanged : meet keys (hereOf corners node.entity) = keys := if_pos (Or.inl single)
    refine ⟨g, ?_, by rw [unchanged]; exact grown⟩
    have here : (node.entity.map fun c => corners.getD c 0) = [v] := shape
    rw [shape]
    simp only [addNode, here, pointOf]
  · rw [addNode_of_inner single, grown.inner, lookup_zipIdx, pointOf_of_inner single]
    by_cases known : Mesh.key (hereOf corners node.entity) ∈ keys
    · have unchanged : meet keys (hereOf corners node.entity) = keys := if_pos (Or.inr known)
      rw [unchanged, if_pos known]
      exact ⟨g, rfl, grown⟩
    · have longer : meet keys (hereOf corners node.entity) = keys ++ [Mesh.key (hereOf corners node.entity)] :=
        if_neg (not_or.mpr ⟨single, known⟩)
      have size : g.positions.size = mesh.vertices.size + keys.length := by simp [grown.positions]
      rw [longer, if_neg known, List.idxOf_append_of_notMem known, List.idxOf_cons_self, add_zero,
        size]
      refine ⟨_, rfl, ?_, ?_⟩
      · rw [List.zipIdx_append]
        rfl
      · rw [List.map_append, middle single, grown.positions]
        simp

theorem addElement_grown {nodes : List (NodePlace ℝ)} {corners : List Nat} (grown : Grown mesh keys g)
    (middle : ∀ node ∈ nodes, (hereOf corners node.entity).length ≠ 1 →
      vertexMean mesh.dim node.weights (corners.map fun v => mesh.vertices.getD v []) =
        keyMean mesh (Mesh.key (hereOf corners node.entity))) (points : List Nat) :
    let later := (nodes.map fun node => hereOf corners node.entity).foldl meet keys
    ∃ g', nodes.foldl (fun (points, grown) node =>
        let (p, grown) := addNode mesh corners grown node
        (points ++ [p], grown)) (points, g) =
        (points ++ nodes.map fun node => pointOf mesh.vertices.size later (hereOf corners node.entity), g') ∧
      Grown mesh later g' := by
  induction nodes generalizing keys g points with
  | nil => exact ⟨g, by simp, grown⟩
  | cons node rest ih =>
      rw [List.forall_mem_cons] at middle
      obtain ⟨g', first, grown'⟩ := addNode_grown grown middle.1
      obtain ⟨last, others, final⟩ := ih grown' middle.2
        (points ++ [pointOf mesh.vertices.size (meet keys (hereOf corners node.entity)) (hereOf corners node.entity)])
      refine ⟨last, ?_, final⟩
      have known : (hereOf corners node.entity).length = 1 ∨
          Mesh.key (hereOf corners node.entity) ∈ meet keys (hereOf corners node.entity) :=
        or_iff_not_imp_left.mpr fun inner => mem_meet.mpr (Or.inr ⟨inner, rfl⟩)
      have longer := prefix_foldl_meet (rest.map fun node => hereOf corners node.entity)
        (meet keys (hereOf corners node.entity))
      have stable : pointOf mesh.vertices.size _ (hereOf corners node.entity) =
          pointOf mesh.vertices.size _ (hereOf corners node.entity) := pointOf_of_longer longer known
      rw [List.foldl_cons]
      dsimp only
      rw [first, others, List.map_cons, List.map_cons, List.foldl_cons, stable, List.append_assoc]
      rfl

/-- The corner sets of all entities of some elements, in the order of their first visit. -/
def keysOf (entities : List (List Nat)) (elements : List (List Nat)) (keys : List (List Nat)) : List (List Nat) :=
  (elements.flatMap fun corners => entities.map (hereOf corners)).foldl meet keys

/-- The control points of all elements. -/
def rowsOf (vertices : Nat) (entities : List (List Nat)) (elements keys : List (List Nat)) : List (List Nat) :=
  elements.map fun corners => entities.map fun entity => pointOf vertices keys (hereOf corners entity)

/-- Does the weighted mean of an element's corners put every node in the middle of its entity? -/
def Centred (mesh : Mesh ℝ) (nodes : List (NodePlace ℝ)) (corners : List Nat) : Prop :=
  ∀ node ∈ nodes, (hereOf corners node.entity).length ≠ 1 →
    vertexMean mesh.dim node.weights (corners.map fun v => mesh.vertices.getD v []) =
      keyMean mesh (Mesh.key (hereOf corners node.entity))

theorem addElements_grown {nodes : List (NodePlace ℝ)} {elements : List (List Nat)} (grown : Grown mesh keys g)
    (centred : ∀ corners ∈ elements, Centred mesh nodes corners) (rows : Array (List Nat)) :
    let entities := nodes.map (·.entity)
    ∃ g', elements.foldl (fun (rows, grown) corners =>
        let (row, grown) := addElement mesh nodes grown corners
        (rows.push row, grown)) (rows, g) =
        (rows ++ (rowsOf mesh.vertices.size entities elements (keysOf entities elements keys)).toArray, g') ∧
      Grown mesh (keysOf entities elements keys) g' := by
  intro entities
  induction elements generalizing keys g rows with
  | nil => exact ⟨g, by simp [rowsOf], grown⟩
  | cons corners rest ih =>
      rw [List.forall_mem_cons] at centred
      obtain ⟨g', first, grown'⟩ := addElement_grown grown centred.1 []
      have heres : (nodes.map fun node => hereOf corners node.entity) = entities.map (hereOf corners) := by
        rw [List.map_map]
        rfl
      have all : keysOf entities (corners :: rest) keys =
          keysOf entities rest ((entities.map (hereOf corners)).foldl meet keys) := by
        rw [keysOf, List.flatMap_cons, List.foldl_append, keysOf]
      rw [heres] at first grown'
      obtain ⟨last, others, final⟩ := ih grown' centred.2 (rows.push (nodes.map fun node =>
        pointOf mesh.vertices.size ((entities.map (hereOf corners)).foldl meet keys) (hereOf corners node.entity)))
      refine ⟨last, ?_, all ▸ final⟩
      -- Corner sets of later elements leave the row of the first element as it is.
      have row : (nodes.map fun node => pointOf mesh.vertices.size ((entities.map (hereOf corners)).foldl meet keys)
          (hereOf corners node.entity)) = entities.map fun entity =>
            pointOf mesh.vertices.size (keysOf entities (corners :: rest) keys) (hereOf corners entity) := by
        rw [all]
        refine (List.map_congr_left fun node member => ?_).trans List.map_map.symm
        refine (pointOf_of_longer (prefix_foldl_meet _ _) ?_).symm
        refine or_iff_not_imp_left.mpr fun inner => mem_foldl_meet.mpr (Or.inr ⟨_, ?_, inner, rfl⟩)
        exact heres ▸ List.mem_map_of_mem member
      have begun : addElement mesh nodes g corners = (nodes.map fun node => pointOf mesh.vertices.size
          ((entities.map (hereOf corners)).foldl meet keys) (hereOf corners node.entity), g') := by
        rw [addElement, first, List.nil_append]
      rw [List.foldl_cons]
      dsimp only
      rw [begun]
      dsimp only
      rw [others, row, rowsOf, rowsOf, List.map_cons, all]
      simp

/-! ### Nodes in the middle -/

theorem mem_nodePlaces {k : Element.Kind} {cell : Cell} {element corner : Element} (known : Element.OfKind k cell element)
    (linear : Element.lagrange cell 1 = .ok corner) {node : NodePlace ℝ} (member : node ∈ nodePlaces element corner) :
    ∃ weights, Element.Mean cell node.entity weights ∧ node.weights = weights.map Arithmetic.ofRat := by
  rw [nodePlaces, known.entities, List.zipWith_map_left, List.zipWith_self, List.mem_map] at member
  obtain ⟨x, among, rfl⟩ := member
  exact ⟨_, Element.mean_of_lagrange linear (Element.Kind.mem_latticeNodes (known.nodes.mem_iff.mp among)), rfl⟩

theorem map_entity_nodePlaces {k : Element.Kind} {cell : Cell} {element corner : Element}
    (known : Element.OfKind k cell element) :
    (nodePlaces element corner : List (NodePlace ℝ)).map (·.entity) = element.entities := by
  rw [nodePlaces, known.entities, List.zipWith_map_left, List.zipWith_self, List.map_map]
  rfl

theorem sum_map_ite {ι : Type} (p : ι → Bool) (f : ι → ℝ) (xs : List ι) :
    (xs.map fun x => if p x then f x else 0).sum = ((xs.filter p).map f).sum := by
  induction xs with
  | nil => rfl
  | cons x rest ih => cases chosen : p x <;> simp [chosen, ih]

theorem vertexMean_of_mean {cell : Cell} {entity corners : List Nat} {weights : List Rat}
    (mean : Element.Mean cell entity weights) (length : corners.length = cell.cornerCount) :
    vertexMean mesh.dim (weights.map Arithmetic.ofRat) (corners.map fun v => mesh.vertices.getD v []) =
      keyMean mesh (Mesh.key (hereOf corners entity)) := by
  refine List.map_congr_left fun axis _ => ?_
  have listed : (corners.map fun v => mesh.vertices.getD v []) =
      (List.range cell.cornerCount).map fun c => mesh.vertices.getD (corners.getD c 0) [] := by
    refine List.ext_getElem (by simp [length]) fun i left right => ?_
    rw [List.length_map] at left
    simp [left]
  have sorted : (Mesh.key (hereOf corners entity)).Perm (hereOf corners entity) := List.mergeSort_perm _ _
  have weighted : List.zipWith (fun (w : ℝ) (x : List ℝ) => w * x.getD axis 0) (weights.map Arithmetic.ofRat)
      (corners.map fun v => mesh.vertices.getD v []) = (List.range cell.cornerCount).map fun c =>
        if entity.contains c then (entity.length : ℝ)⁻¹ * (mesh.vertices.getD (corners.getD c 0) []).getD axis 0
        else 0 := by
    rw [mean.weights, Element.meanWeights, listed, List.map_map, List.zipWith_map, List.zipWith_self]
    refine List.map_congr_left fun c _ => ?_
    have share : (Arithmetic.ofRat (mkRat 1 entity.length) : ℝ) = (entity.length : ℝ)⁻¹ := by
      change ((mkRat 1 entity.length : ℚ) : ℝ) = _
      simp [Rat.mkRat_eq_div]
    have none : (Arithmetic.ofRat 0 : ℝ) = 0 := Rat.cast_zero
    rw [Function.comp_apply, apply_ite Arithmetic.ofRat, share, none, ite_mul, zero_mul]
  rw [total_eq_sum, weighted, sum_map_ite, ← mean.corners, sorted.length_eq, (sorted.map _).sum_eq, hereOf,
    List.length_map, List.map_map, ← List.sum_map_mul_left]
  rfl

/-- The corner sets of all points of a space that are no vertices. -/
def innerKeys (s : ElementSpace ℝ) : List (List Nat) := keysOf s.element.entities s.mesh.elements.toList []

/-- The control points of a space, and where they stand. -/
structure Built (s : ElementSpace ℝ) : Prop where
  entities : ∀ entity ∈ s.element.entities, ∀ c ∈ entity, c < s.mesh.cell.cornerCount
  points : s.controlPoints =
    (rowsOf s.mesh.vertices.size s.element.entities s.mesh.elements.toList s.innerKeys).toArray
  positions : s.positions = s.mesh.vertices ++ (s.innerKeys.map (keyMean s.mesh)).toArray

/-- The element of a space is one of the known kinds. -/
theorem make_ofKind {family : String} {order : Int} {quadratureOrder : Option Int} {s : ElementSpace ℝ}
    (made : make mesh family order quadratureOrder = .ok s) : ∃ k, Element.OfKind k mesh.cell s.element := by
  obtain ⟨element, found, made⟩ := Outcome.bind_eq_ok.mp made
  obtain ⟨_, _, made⟩ := Outcome.bind_eq_ok.mp made
  obtain ⟨_, _, made⟩ := Outcome.bind_eq_ok.mp made
  cases made
  exact Element.ofKind_ofCell found

/-- A space is made for the elements of its mesh. -/
theorem make_shape {family : String} {order : Int} {quadratureOrder : Option Int} {s : ElementSpace ℝ}
    (made : make mesh family order quadratureOrder = .ok s) :
    s.mesh = mesh ∧ s.controlPoints.size = mesh.elements.size ∧ s.element.cell = mesh.cell := by
  obtain ⟨k, kind⟩ := make_ofKind made
  obtain ⟨element, found, made⟩ := Outcome.bind_eq_ok.mp made
  obtain ⟨corner, _, made⟩ := Outcome.bind_eq_ok.mp made
  obtain ⟨_, _, made⟩ := Outcome.bind_eq_ok.mp made
  cases made
  refine ⟨rfl, ?_, kind.shape⟩
  refine Array.foldl_induction (fun i (built : Array (List Nat) × Growth ℝ) => built.1.size = i) rfl ?_
  intro i built before
  exact (Array.size_push _).trans (congrArg (· + 1) before)

/-- Whether there is a space depends on the cell of the mesh only. -/
theorem make_isOk {family : String} {order : Int} {quadratureOrder : Option Int} {s : ElementSpace ℝ}
    (made : make mesh family order quadratureOrder = .ok s) {mesh' : Mesh ℝ} (cell : mesh'.cell = mesh.cell) :
    ∃ s', make mesh' family order quadratureOrder = .ok s' ∧ s'.element = s.element ∧
      s'.quadratureOrder = s.quadratureOrder := by
  obtain ⟨element, found, made⟩ := Outcome.bind_eq_ok.mp made
  obtain ⟨corner, linear, made⟩ := Outcome.bind_eq_ok.mp made
  obtain ⟨family', named, made⟩ := Outcome.bind_eq_ok.mp made
  cases made
  rw [← cell] at found linear
  have again : ∃ points positions, make mesh' family order quadratureOrder =
      .ok ⟨mesh', family', order.toNat, element, quadratureOrder.getD (2 * order), points, positions⟩ :=
    ⟨_, _, Outcome.bind_eq_ok.mpr ⟨element, found, Outcome.bind_eq_ok.mpr ⟨corner, linear,
      Outcome.bind_eq_ok.mpr ⟨family', named, rfl⟩⟩⟩⟩
  obtain ⟨points, positions, again⟩ := again
  exact ⟨_, again, rfl, rfl⟩

theorem make_eq_ok {family : String} {order : Int} {quadratureOrder : Option Int} {s : ElementSpace ℝ}
    (cornered : ∀ corners ∈ mesh.elements, corners.length = mesh.cell.cornerCount)
    (made : make mesh family order quadratureOrder = .ok s) :
    s.mesh = mesh ∧ Element.ofCell mesh.cell family order = .ok s.element ∧
      s.quadratureOrder = quadratureOrder.getD (2 * order) ∧ s.Built := by
  obtain ⟨element, found, made⟩ := Outcome.bind_eq_ok.mp made
  obtain ⟨corner, linear, made⟩ := Outcome.bind_eq_ok.mp made
  obtain ⟨k, placed⟩ := Element.ofKind_ofCell found
  have centred : ∀ corners ∈ mesh.elements.toList, Centred mesh (nodePlaces element corner) corners := by
    intro corners member node among _
    obtain ⟨weights, mean, same⟩ := mem_nodePlaces placed linear among
    rw [same]
    exact vertexMean_of_mean mean (cornered corners (Array.mem_toList_iff.mp member))
  have fresh : Grown mesh [] ⟨[], mesh.vertices⟩ := ⟨rfl, by simp⟩
  obtain ⟨g, run, grown⟩ := addElements_grown fresh centred #[]
  have listed : (nodePlaces element corner : List (NodePlace ℝ)).map (·.entity) = element.entities :=
    map_entity_nodePlaces placed
  rw [Array.foldl_toList, listed] at run
  rw [listed] at grown
  simp only [run] at made
  obtain ⟨_, _, made⟩ := Outcome.bind_eq_ok.mp made
  cases made
  refine ⟨rfl, found, rfl, ?_, by simp [innerKeys], grown.positions⟩
  intro entity member
  rw [← listed, List.mem_map] at member
  obtain ⟨node, among, rfl⟩ := member
  obtain ⟨weights, mean, -⟩ := mem_nodePlaces placed linear among
  intro c inside
  rw [mean.corners, List.mem_filter, List.mem_range] at inside
  exact inside.1

end Growing

end ElementSpace

end Galerkin
