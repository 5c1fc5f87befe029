import Mathlib
import Galerkin.Proofs.Domain.Preparation

/-!
Domains with the same tasks. When the elements of a mesh come in another order, or the same work is divided among other
pieces and regions, a domain that had blocks has them again, and its unknowns get numbers that correspond.
-/

namespace Galerkin

namespace Domain

/-- The points of the pieces of a domain. -/
theorem mem_points {d : Domain ℝ} {space : ElementSpace ℝ} (size : space.controlPoints.size = d.mesh.elements.size)
    {rows : List (List (List Nat))} (found : d.pieces.mapM (pointsOf space) = .ok rows) {p : Nat} :
    p ∈ (rows.map List.flatten).flatten ↔ ∃ k row, some k ∈ d.numbers ∧ space.controlPoints[k]? = some row ∧ p ∈ row := by
  have matched := Outcome.mapM_eq_ok.mp found
  constructor
  · intro member
    obtain ⟨_, listed, inside⟩ := List.mem_flatten.mp member
    obtain ⟨own, among, rfl⟩ := List.mem_map.mp listed
    obtain ⟨row, among', inside⟩ := List.mem_flatten.mp inside
    obtain ⟨w, piece, done⟩ := Outcome.exists_of_matched matched among
    obtain ⟨e, element, done⟩ := Outcome.exists_of_matched (Outcome.mapM_eq_ok.mp done) among'
    obtain ⟨k, position, here⟩ := Block.elementPoints_eq_ok.mp done
    refine ⟨k, row, List.mem_flatMap.mpr ⟨w, piece, List.mem_map.mpr ⟨e, element, ?_⟩⟩, here, inside⟩
    rw [← size, position]
  · rintro ⟨k, row, number, here, inside⟩
    obtain ⟨w, piece, number⟩ := List.mem_flatMap.mp number
    obtain ⟨e, element, position⟩ := List.mem_map.mp number
    obtain ⟨own, among, done⟩ := Outcome.exists_of_matched_left matched piece
    obtain ⟨row', among', done⟩ := Outcome.exists_of_matched_left (Outcome.mapM_eq_ok.mp done) element
    obtain ⟨k', position', here'⟩ := Block.elementPoints_eq_ok.mp done
    rw [size, position] at position'
    cases position'
    cases here.symm.trans here'
    exact List.mem_flatten.mpr ⟨own.flatten, List.mem_map_of_mem among, List.mem_flatten.mpr ⟨row, among', inside⟩⟩

/-- There are points of all pieces when all elements are there. -/
theorem pointsOf_isOk_iff {d : Domain ℝ} {space : ElementSpace ℝ}
    (size : space.controlPoints.size = d.mesh.elements.size) :
    (∃ rows, d.pieces.mapM (pointsOf space) = .ok rows) ↔ none ∉ d.numbers := by
  constructor
  · rintro ⟨rows, found⟩ missing
    obtain ⟨w, piece, missing⟩ := List.mem_flatMap.mp missing
    obtain ⟨e, element, position⟩ := List.mem_map.mp missing
    obtain ⟨own, -, done⟩ := Outcome.exists_of_matched_left (Outcome.mapM_eq_ok.mp found) piece
    obtain ⟨row, -, done⟩ := Outcome.exists_of_matched_left (Outcome.mapM_eq_ok.mp done) element
    obtain ⟨k, position', -⟩ := Block.elementPoints_eq_ok.mp done
    rw [size, position] at position'
    cases position'
  · intro all
    have each : ∀ w ∈ d.pieces, ∃ rows, pointsOf space w = .ok rows ∧ True := by
      intro w piece
      have elements : ∀ e ∈ w.elements, ∃ row, space.elementPoints e = .ok row ∧ True := by
        intro e element
        cases position : position? d.mesh.elements.size e with
        | none => exact absurd (List.mem_flatMap.mpr ⟨w, piece, List.mem_map.mpr ⟨e, element, position⟩⟩) all
        | some k =>
            rw [← size] at position
            exact ⟨_, Block.elementPoints_eq_ok.mpr ⟨k, position, Array.getElem?_eq_getElem (lt_of_position? position)⟩,
              trivial⟩
      obtain ⟨rows, done, -⟩ := Outcome.mapM_of_forall elements
      exact ⟨rows, done, trivial⟩
    obtain ⟨rows, done, -⟩ := Outcome.mapM_of_forall each
    exact ⟨rows, done⟩

namespace Stages

/-- Two domains on meshes of the same elements in different orders, with the same forms when they are discretized, and
with pieces that have the same elements. -/
structure Reordered (τ : Equiv.Perm Nat) (s s' : Stages) : Prop where
  mesh : s.start.mesh.Permuted τ s'.start.mesh
  formed : s'.start.mesh.Formed
  fresh : s'.start.discretization = none
  forms : ∀ form, form ∈ s'.start.forms ↔ form ∈ s.start.forms
  numbers : ∀ o, o ∈ s'.final.numbers ↔ o ∈ s.final.numbers.map (Option.map τ)

/-- Two such domains whose tasks are the same when they are compiled. -/
structure Rearranged (τ : Equiv.Perm Nat) (s s' : Stages) : Prop extends Reordered τ s s' where
  named : s'.final.WellNamed
  filled : Preparation.Filled s'.final
  tasks : s'.final.tasks.Perm (s.final.tasks.map (Task.relabel τ))

end Stages

section Rearranged

variable {τ : Equiv.Perm Nat} {s s' : Stages} {P : Preparation} {x : Discretization ℝ} {dofs : DofMap}
  {blocks : List (Block ℝ)}

theorem Stages.Reordered.pieces (reordered : Stages.Reordered τ s s') (filled : Preparation.Filled s.final)
    (some : s.final.pieces ≠ []) : s'.start.pieces ≠ [] := by
  intro none
  obtain ⟨w, piece⟩ := List.exists_mem_of_ne_nil _ some
  obtain ⟨e, element⟩ := List.exists_mem_of_ne_nil _ (filled w piece).1
  have number : position? s.final.mesh.elements.size e ∈ s.final.numbers :=
    List.mem_flatMap.mpr ⟨w, piece, List.mem_map_of_mem element⟩
  have impossible := (reordered.numbers _).mpr (List.mem_map_of_mem number)
  rw [s'.numbers, Domain.numbers, none] at impossible
  cases impossible

theorem getElem?_occupied_numberedSpace {space : ElementSpace ℝ} {dim : Nat} {internal external : Layout}
    (ids : List Nat) (p : Nat) : (numberedSpace space dim internal external ids).points.occupied[p]? =
      if p < space.positions.size then some (decide (p ∈ ids)) else none := ControlPoints.occupied_make ids p

theorem size_occupied_numberedSpace {space : ElementSpace ℝ} {dim : Nat} {internal external : Layout} {ids : List Nat} :
    (numberedSpace space dim internal external ids).points.occupied.size = space.positions.size := by
  have outside (p : Nat) : (numberedSpace space dim internal external ids).points.occupied.size ≤ p ↔
      space.positions.size ≤ p := by
    rw [← Array.getElem?_eq_none_iff, getElem?_occupied_numberedSpace]
    split <;> simp <;> omega
  exact le_antisymm ((outside _).mpr le_rfl) ((outside _).mp le_rfl)

/-- It does not matter in which order points are listed, and how often. -/
theorem numberedSpace_congr {space : ElementSpace ℝ} {dim : Nat} {internal external : Layout} {ids others : List Nat}
    (same : ∀ p, p ∈ others ↔ p ∈ ids) :
    numberedSpace space dim internal external others = numberedSpace space dim internal external ids := by
  have points : (ControlPoints.make dim space.positions internal external).occupy others =
      (ControlPoints.make dim space.positions internal external).occupy ids := by
    refine congrArg (fun flags => { ControlPoints.make dim space.positions internal external with occupied := flags })
      (Array.ext_getElem? fun p => ?_)
    rw [ControlPoints.getElem?_occupied, ControlPoints.getElem?_occupied]
    simp only [same]
  rw [numberedSpace, numberedSpace, points]

theorem length_occupied {d : Domain ℝ} (discretized : P.Discretized d x) :
    x.points.occupied.toList.length = x.space.positions.size := by
  obtain ⟨_, _, _, _, -, -, -, -, same⟩ := discretized.parts
  rw [Array.length_toList, same]
  exact size_occupied_numberedSpace

/-- A point of a discretization is occupied when it belongs to an element of a piece. -/
theorem on_occupied {d : Domain ℝ} (discretized : P.Discretized d x) {p : Nat} (inside : p < x.space.positions.size) :
    DofMap.On x.points.occupied.toList p ↔
      ∃ k row, some k ∈ d.numbers ∧ x.space.controlPoints[k]? = some row ∧ p ∈ row := by
  obtain ⟨internal, external, _, rows, -, -, made, found, same⟩ := discretized.parts
  have flag : x.points.occupied[p]? = some (decide (p ∈ (rows.map List.flatten).flatten)) := by
    rw [same, getElem?_occupied_numberedSpace, if_pos inside]
  rw [DofMap.On, Array.getElem?_toList, flag, ← mem_points (ElementSpace.make_shape made).2.1 found]
  simp

/-- A point belongs to the pieces of a domain under its new number as it did under its old one. -/
theorem Stages.Reordered.occupies_iff (reordered : Stages.Reordered τ s s') {space space' : ElementSpace ℝ}
    (permuted : space.Permuted τ space') {p : Nat} (inside : p < space.positions.size) :
    (∃ k row, some k ∈ s'.final.numbers ∧ space'.controlPoints[k]? = some row ∧ space.pointNumber space' p ∈ row) ↔
      ∃ k row, some k ∈ s.final.numbers ∧ space.controlPoints[k]? = some row ∧ p ∈ row := by
  constructor
  · rintro ⟨k, _, number, here, member⟩
    obtain ⟨o, known, moved⟩ := List.mem_map.mp ((reordered.numbers _).mp number)
    obtain ⟨j, rfl, rfl⟩ := Option.map_eq_some_iff.mp moved
    rw [permuted.controlPoints, Option.map_eq_some_iff] at here
    obtain ⟨row, here, rfl⟩ := here
    obtain ⟨q, own, equal⟩ := List.mem_map.mp member
    have same := permuted.pointNumber_inj (permuted.built.lt_size permuted.formed here own) inside equal
    exact ⟨j, row, known, here, same ▸ own⟩
  · rintro ⟨k, row, number, here, member⟩
    refine ⟨τ k, row.map (space.pointNumber space'), (reordered.numbers _).mpr (List.mem_map.mpr ⟨some k, number, rfl⟩),
      ?_, List.mem_map_of_mem member⟩
    rw [permuted.controlPoints, here]
    rfl

theorem Stages.Reordered.carried (reordered : Stages.Reordered τ s s') {x' : Discretization ℝ}
    (discretized : P.Discretized s.start x) (discretized' : P.Discretized s'.start x')
    (permuted : x.space.Permuted τ x'.space) :
    DofMap.Carried (x.space.pointNumber x'.space) x.points.occupied.toList x'.points.occupied.toList := by
  have length := length_occupied discretized
  have length' := (length_occupied discretized').trans permuted.size_positions
  refine ⟨length'.trans length.symm, fun p inside => ?_, fun p first q second equal => ?_, fun p inside => ?_⟩
  · rw [length] at inside ⊢
    exact permuted.pointNumber_lt inside
  · rw [length] at first second
    exact permuted.pointNumber_inj first second equal
  · have place := permuted.pointNumber_lt (inside.trans_eq length)
    have on : DofMap.On x'.points.occupied.toList (x.space.pointNumber x'.space p) ↔
        DofMap.On x.points.occupied.toList p := by
      rw [on_occupied discretized' (permuted.size_positions.symm ▸ place), on_occupied discretized (length ▸ inside),
        ← s'.numbers, ← s.numbers]
      exact reordered.occupies_iff permuted (length ▸ inside)
    rw [DofMap.On, DofMap.On] at on
    rw [List.getElem?_eq_getElem inside, List.getElem?_eq_getElem (place.trans_eq length'.symm)] at on ⊢
    exact congrArg some (Bool.eq_iff_iff.mpr (by simpa using on))

/-- The elements of the pieces are there in both domains. -/
theorem Stages.Reordered.pointsOf_isOk (reordered : Stages.Reordered τ s s') {space space' : ElementSpace ℝ}
    (size : space.controlPoints.size = s.start.mesh.elements.size)
    (size' : space'.controlPoints.size = s'.start.mesh.elements.size) {rows : List (List (List Nat))}
    (found : s.start.pieces.mapM (pointsOf space) = .ok rows) :
    ∃ rows', s'.start.pieces.mapM (pointsOf space') = .ok rows' := by
  refine (pointsOf_isOk_iff size').mpr fun missing => (pointsOf_isOk_iff size).mp ⟨rows, found⟩ ?_
  rw [← s'.numbers] at missing
  rw [← s.numbers]
  obtain ⟨o, member, none⟩ := List.mem_map.mp ((reordered.numbers none).mp missing)
  rwa [Option.map_eq_none_iff.mp none] at member

/-- A domain can be discretized when another one with the same tasks can. -/
theorem Stages.Reordered.discretized (reordered : Stages.Reordered τ s s') (filled : Preparation.Filled s.final)
    (formed : s.start.mesh.Formed) (discretized : P.Discretized s.start x) :
    ∃ x', P.Discretized s'.start x' ∧ x.space.Permuted τ x'.space ∧ Domain.setting x' = Domain.setting x := by
  obtain ⟨internal, external, whole, rows, layouts, order, made, found, same⟩ := discretized.parts
  have cell := reordered.mesh.cell
  have dim : s'.start.mesh.dim = s.start.mesh.dim := congrArg Cell.dim cell
  obtain ⟨space', made', element, quadratureOrder⟩ := ElementSpace.make_isOk made cell
  obtain ⟨mesh', size', -⟩ := ElementSpace.make_shape made'
  obtain ⟨mesh, size, -⟩ := ElementSpace.make_shape made
  obtain ⟨-, -, -, built⟩ := ElementSpace.make_eq_ok (fun c member => formed.corners c member) made
  obtain ⟨-, -, -, built'⟩ := ElementSpace.make_eq_ok
    (fun c member => (formed.corners c ((reordered.mesh.mem c).mp member)).trans (congrArg _ cell.symm)) made'
  have permuted : x.space.Permuted τ space' :=
    ⟨built, built', mesh ▸ formed, by rw [mesh, mesh']; exact reordered.mesh, element, quadratureOrder⟩
  obtain ⟨rows', found'⟩ := reordered.pointsOf_isOk size size' found
  refine ⟨numberedSpace space' s'.start.mesh.dim internal external (rows'.map List.flatten).flatten,
    ⟨reordered.fresh, reordered.pieces filled discretized.pieces, internal, external, whole, rows',
      layouts_congr dim reordered.forms layouts, by rw [cell]; exact order, made', found', rfl⟩,
    permuted, ?_⟩
  have here : setting x = ⟨x.space.mesh.dim, internal, external⟩ := by
    rw [same]
    rfl
  rw [here]
  refine congrArg (Setting.mk · internal external) ?_
  rw [mesh]
  exact (congrArg Mesh.dim mesh').trans dim

/-- The new number of an unknown when domains were discretized for permuted meshes. -/
noncomputable def dofNumber (x x' : Discretization ℝ) : Nat → Nat :=
  DofMap.renumber x.points.internal.width x.points.occupied.toList x'.points.occupied.toList
    (x.space.pointNumber x'.space)

/-- The control points and unknowns of one discretization under the numbers that they have in another: vertices keep
theirs, and other points correspond when the entities they lie inside have the same corners. -/
structure Corresponds (x x' : Discretization ℝ) (σ ρ : Nat → Nat) : Prop where
  points : Set.BijOn σ (Set.Iio x.space.positions.size) (Set.Iio x'.space.positions.size)
  vertices : ∀ v < x.space.mesh.vertices.size, σ v = v
  keys : ∀ {e a p e' a' p' k k'}, x.space.nodePoint? e a = some p → x.space.nodeKey? e a = some k →
    x'.space.nodePoint? e' a' = some p' → x'.space.nodeKey? e' a' = some k' → (p' = σ p ↔ k' = k)
  positions : ∀ p < x.space.positions.size, x'.space.positions.getD (σ p) [] = x.space.positions.getD p []
  count : (Preparation.dofsOf x').count = (Preparation.dofsOf x).count
  unknowns : Set.BijOn ρ (Set.Iio (Preparation.dofsOf x).count) (Set.Iio (Preparation.dofsOf x').count)
  rows : ∀ p < x.space.positions.size,
    (Preparation.dofsOf x').row (σ p) = ((Preparation.dofsOf x).row p).map (Option.map ρ)

theorem bijOn_of_injective {f : Nat → Nat} {n : Nat} (below : ∀ i < n, f i < n)
    (apart : ∀ i < n, ∀ j < n, f i = f j → i = j) : Set.BijOn f (Set.Iio n) (Set.Iio n) :=
  ((Set.finite_Iio n).injOn_iff_bijOn_of_mapsTo below).mp fun i first j second => apart i first j second

theorem Stages.Reordered.corresponds (reordered : Stages.Reordered τ s s') {x' : Discretization ℝ}
    (discretized : P.Discretized s.start x) (discretized' : P.Discretized s'.start x')
    (permuted : x.space.Permuted τ x'.space) (settings : setting x' = setting x) :
    Corresponds x x' (x.space.pointNumber x'.space) (dofNumber x x') := by
  have carried := reordered.carried discretized discretized' permuted
  have width : x'.points.internal.width = x.points.internal.width := congrArg (·.internal.width) settings
  have count : (Preparation.dofsOf x').count = (Preparation.dofsOf x).count := by
    change _ * _ = _ * _
    rw [carried.count, width]
  constructor
  · rw [permuted.size_positions]
    exact bijOn_of_injective (fun p => permuted.pointNumber_lt) fun p first q second => permuted.pointNumber_inj first second
  · exact fun v vertex => ElementSpace.renumber_vertex vertex
  · exact permuted.corresponds (discretized'.mesh.symm ▸ reordered.formed)
  · exact fun p inside => permuted.position inside
  · exact count
  · rw [count]
    exact bijOn_of_injective (fun i => carried.renumber_lt) fun i first j second => carried.renumber_inj first second
  · intro p inside
    rw [← length_occupied discretized] at inside
    change (DofMap.ofOccupied x'.points.internal.width _).row _ = _
    rw [width]
    exact carried.row inside

/-- Discretizations whose points correspond hold the same in their contexts. -/
theorem renumbered_context {x' : Discretization ℝ} {ρ : Nat → Nat} (permuted : x.space.Permuted τ x'.space)
    (corresponds : Corresponds x x' (x.space.pointNumber x'.space) ρ) :
    Block.Context.Renumbered τ (x.space.pointNumber x'.space) ρ
      (P.context x (Preparation.dofsOf x)) (P.context x' (Preparation.dofsOf x')) where
  lines := rfl
  cell := permuted.mesh.cell
  element := permuted.element
  quadratureOrder := permuted.quadratureOrder
  points := permuted.controlPoints
  positions := fun _ _ here p member =>
    corresponds.positions p (permuted.built.lt_size permuted.formed here member)
  rows := fun _ _ here p member => corresponds.rows p (permuted.built.lt_size permuted.formed here member)

theorem Stages.Rearranged.yields (rearranged : Stages.Rearranged τ s s') (named : s.final.WellNamed)
    (formed : s.start.mesh.Formed) (yields : P.Yields s x dofs blocks) :
    ∃ x' blocks', P.Yields s' x' (Preparation.dofsOf x') blocks' ∧ x.space.Permuted τ x'.space ∧
      setting x' = setting x ∧ Corresponds x x' (x.space.pointNumber x'.space) (dofNumber x x') := by
  obtain ⟨discretized, rfl, -⟩ := (Preparation.yields_iff named).mp yields
  have filled := yields.filled named
  obtain ⟨jobss, -, become⟩ := yields.jobs named
  obtain ⟨b, known⟩ := yields.backend named
  obtain ⟨x', discretized', permuted, settings⟩ := rearranged.discretized filled formed discretized
  have corresponds := rearranged.corresponds discretized discretized' permuted settings
  obtain ⟨jobs', become', -⟩ := (renumbered_context permuted corresponds).jobs become rearranged.tasks
  rw [← settings] at become'
  obtain ⟨blocks', yields'⟩ := Preparation.yields_of_jobs rearranged.named discretized' rearranged.filled known become'
  exact ⟨x', blocks', yields', permuted, settings, corresponds⟩

/-- Does a state prescribe as many values at each control point as external fields have? -/
def Fits (x : Discretization ℝ) (s : AssemblyState ℝ) : Prop :=
  ∀ p < x.space.positions.size, (s.prescribed.getD p []).length = x.points.external.width

theorem within_of_becomes (formed : x.space.mesh.Formed) (built : x.space.Built) {t : Task} {j : Job}
    (become : t.Becomes P.rules (setting x) (P.context x (Preparation.dofsOf x)) j) :
    j.Within x.space.positions.size (Preparation.dofsOf x).count := by
  obtain ⟨_, there, -, -, -, holds⟩ := become
  refine ⟨fun p => built.lt_size formed holds.points, fun i member => ?_⟩
  have numbered : some i ∈ (Preparation.dofsOf x).elementDofs j.part.points := by
    rw [show (Preparation.dofsOf x).elementDofs j.part.points = j.part.dofs.map some from holds.dofs]
    exact List.mem_map_of_mem member
  obtain ⟨p, -, here⟩ := List.mem_flatMap.mp numbered
  exact DofMap.lt_count_ofOccupied here

theorem fed_of_becomes (formed : x.space.mesh.Formed) (built : x.space.Built) {state : AssemblyState ℝ}
    (fits : Fits x state) {t : Task} {j : Job}
    (become : t.Becomes P.rules (setting x) (P.context x (Preparation.dofsOf x)) j) : j.Fed state := by
  intro p member
  have inside := (within_of_becomes formed built become).points p member
  obtain ⟨_, there, -, -, made, -⟩ := become
  exact (fits p inside).trans (Kernel.widths_ofForm made).2.symm

/-- The systems of two domains with the same tasks, whose contexts hold the same under other numbers. -/
theorem Stages.Rearranged.assemble (rearranged : Stages.Rearranged τ s s') (named : s.final.WellNamed) (formed : x.space.mesh.Formed)
    (built : x.space.Built) {x' : Discretization ℝ} {dofs' : DofMap} {blocks' : List (Block ℝ)} {σ ρ : Nat → Nat}
    (yields : P.Yields s x dofs blocks) (yields' : P.Yields s' x' dofs' blocks') (settings : setting x' = setting x)
    (renumbered : Block.Context.Renumbered τ σ ρ (P.context x dofs) (P.context x' dofs'))
    (below : ∀ i < dofs.count, ρ i < dofs.count) (apart : ∀ i < dofs.count, ∀ j < dofs.count, ρ i = ρ j → i = j)
    {state state' : AssemblyState ℝ} (fits : Fits x state)
    (same : state.Renumbered σ ρ x.space.positions.size dofs.count state') :
    Outcome.Alike (System.Renumbered ρ dofs.count) (Block.assemble blocks dofs.count state)
      (Block.assemble blocks' dofs.count state') := by
  obtain ⟨-, rfl, -⟩ := (Preparation.yields_iff named).mp yields
  obtain ⟨jobss, does, become⟩ := yields.jobs named
  obtain ⟨jobss', does', become'⟩ := yields'.jobs rearranged.named
  obtain ⟨jobs, others, perm⟩ := renumbered.jobs become rearranged.tasks
  rw [settings] at become'
  rw [← List.right_unique_forall₂' Task.becomes_unique become' others] at perm
  have all : ∀ j ∈ jobss.flatten, ∃ t : Task,
      t.Becomes P.rules (setting x) (P.context x (Preparation.dofsOf x)) j := fun j member => by
    obtain ⟨t, -, own⟩ := Outcome.exists_of_matched become member
    exact ⟨t, own⟩
  refine Block.assemble_renumbered does does' perm (fun j member => ?_) below apart same (fun j member => ?_)
  · obtain ⟨t, own⟩ := all j member
    exact within_of_becomes formed built own
  · obtain ⟨t, own⟩ := all j member
    exact fed_of_becomes formed built fits own

end Rearranged

end Domain

end Galerkin
