import Mathlib
import Galerkin.Tabulation
import Galerkin.Proofs.Entries
import Galerkin.Proofs.Exact
import Galerkin.Proofs.Outcome

/-!
Tabulating a batch is tabulating each of its elements or facets by itself: neither the numbers under which they are
reported nor the groups that facets are worked through in show in the result.

A batch of facets is worked through by the numbers that they have in their elements, and what is found is sorted back. In
any arithmetic this is the work on each row by itself, in its failures as well.
-/

namespace Galerkin

namespace Tabulation

/-! ### Rows of facets -/

section Rows

variable {α : Type} [Scalar α] {e : Element} {nets : ControlNets α} {rule : Rule α} {ids : Option (List Int)}
  {locals : List Int} {tab : Tabulation α}

/-- The work on one row of a batch of facets. -/
def facetRow (e : Element) (dim points : Nat) (rule : Rule α) (ids : Option (List Int)) (k : Nat) (l : Int)
    (net : List (List α)) : Except Failure (List (PointData α)) := do
  let some facet := entry? e.cell.facets l | throw .outOfRange
  let positions ← rule.mapM fun q => e.cell.facetPoint facet q.position
  if points ≠ e.size then throw .misshapen
  let mapped ← mapEntity e.dim dim ids k net (List.zipWith (fun x q => referencePoint e x q.weight) positions rule)
  pure (List.zipWith (fun (j, d) q =>
    onFacet dim (e.cell.facetTangents facet) (centroid dim net) q.weight j d) mapped rule)

/-- The place of a row shows in the number under which it is reported, and nowhere else. -/
theorem facetRow_congr {ids' : Option (List Int)} {k k' : Nat} (same : reportedId ids k = reportedId ids' k')
    (dim points : Nat) (l : Int) (net : List (List α)) :
    facetRow e dim points rule ids k l net = facetRow e dim points rule ids' k' l net := by
  simp only [facetRow, mapEntity, same]

/-- The number under which an entity is reported matters to failures only. -/
theorem mapEntity_eq_ok {axes dim k : Nat} {net : List (List α)} {points : List (ReferencePoint α)}
    {data : List (List (List α) × PointData α)} :
    mapEntity axes dim ids k net points = .ok data ↔ mapEntity axes dim none 0 net points = .ok data := by
  unfold mapEntity
  rw [Outcome.bind_eq_ok, Outcome.bind_eq_ok]
  refine exists_congr fun all => and_congr_right fun _ => ?_
  split
  · constructor
    · intro done
      obtain ⟨_, -, impossible⟩ := Outcome.bind_eq_ok.mp done
      cases impossible
    · intro done
      cases done
  · rfl

/-- The place of a row shows in failures only. -/
theorem facetRow_eq_ok_iff {dim points k : Nat} {l : Int} {net : List (List α)} {data : List (PointData α)} :
    facetRow e dim points rule ids k l net = .ok data ↔ facetRow e dim points rule none 0 l net = .ok data := by
  unfold facetRow
  cases entry? e.cell.facets l with
  | none => exact Iff.rfl
  | some facet =>
      refine Iff.trans Outcome.bind_eq_ok (Iff.trans ?_ Outcome.bind_eq_ok.symm)
      refine exists_congr fun positions => and_congr_right fun _ => ?_
      split
      · rfl
      · simp only [Outcome.bind_eq_ok, mapEntity_eq_ok]

theorem mem_rowsOf {l : Int} {k : Nat} : k ∈ rowsOf locals l ↔ locals[k]? = some l := by
  simp only [rowsOf, List.mem_map, List.mem_filter, List.mem_zipIdx_iff_getElem?, decide_eq_true_eq]
  constructor
  · rintro ⟨⟨_, _⟩, ⟨here, rfl⟩, rfl⟩
    exact here
  · intro here
    exact ⟨(l, k), ⟨here, rfl⟩, rfl⟩

theorem mem_ascending {l : Int} : l ∈ ascending locals ↔ l ∈ locals := by
  rw [ascending, List.mem_eraseDups, List.mem_mergeSort]

theorem rowsOf_ne_nil {l : Int} (member : l ∈ ascending locals) : rowsOf locals l ≠ [] := by
  obtain ⟨k, here⟩ := List.mem_iff_getElem?.mp (mem_ascending.mp member)
  exact List.ne_nil_of_mem (mem_rowsOf.mpr here)

/-- Rows that are there are worked on one after the other. -/
theorem facetGroup_eq_mapM {l : Int} {rows : List Nat} (filled : rows ≠ []) (present : ∀ k ∈ rows, k < nets.nets.length) :
    facetGroup e nets rule ids l rows = (rows.mapM fun k => do
      pure (k, ← facetRow e nets.dim nets.points rule ids k l (nets.nets.getD k []))) := by
  have fails {f : Failure} {work : Nat → Except Failure (Nat × List (PointData α))}
      (each : ∀ k, work k = .error f) : rows.mapM work = .error f := by
    obtain ⟨k, rest, rfl⟩ := List.exists_cons_of_ne_nil filled
    have none : ([] : List Nat).mapM work = .ok [] := rfl
    exact Outcome.mapM_eq_error none (each k) rest
  have chosen {work : Nat → Except Failure (Nat × List (List α))}
      (each : ∀ k ∈ rows, work k = .ok (k, nets.nets.getD k [])) :
      rows.mapM work = .ok (rows.map fun k => (k, nets.nets.getD k [])) :=
    Outcome.mapM_eq_ok.mpr (List.forall₂_map_right_iff.mpr (List.forall₂_same.mpr each))
  unfold facetGroup facetRow
  cases entry? e.cell.facets l with
  | none => exact (fails fun _ => rfl).symm
  | some facet =>
      cases placed : (rule.mapM fun q => e.cell.facetPoint facet q.position) with
      | error f =>
          simp only [placed]
          exact (fails fun _ => rfl).symm
      | ok positions =>
          simp only [placed, Outcome.ok_bind]
          refine Eq.trans (congrArg₂ (· >>= ·) (chosen fun k member => ?_) rfl) ?_
          · rw [List.getElem?_eq_getElem (present k member), List.getD_eq_getElem _ _ (present k member)]
            rfl
          · simp only [Outcome.ok_bind]
            split
            · exact (fails fun _ => rfl).symm
            · rw [List.mapM_map]
              refine Outcome.mapM_congr fun k _ => ?_
              rw [bind_assoc]
              rfl

theorem present_of_facetGroup {l : Int} {rows : List Nat} {group : List (Nat × List (PointData α))}
    (done : facetGroup e nets rule ids l rows = .ok group) : ∀ k ∈ rows, k < nets.nets.length := by
  unfold facetGroup at done
  split at done
  swap
  · cases done
  obtain ⟨positions, -, done⟩ := Outcome.bind_eq_ok.mp done
  obtain ⟨chosen, picked, -⟩ := Outcome.bind_eq_ok.mp done
  intro k member
  obtain ⟨t, -, here⟩ := Outcome.exists_of_matched_left (Outcome.mapM_eq_ok.mp picked) member
  by_contra outside
  rw [List.getElem?_eq_none_iff.mpr (Nat.le_of_not_lt outside)] at here
  cases here

/-- The result of a row, next to its number. -/
def Found (e : Element) (nets : ControlNets α) (rule : Rule α) (ids : Option (List Int)) (l : Int) (k : Nat)
    (t : Nat × List (PointData α)) : Prop :=
  t.1 = k ∧ ∃ net, nets.nets[k]? = some net ∧ facetRow e nets.dim nets.points rule ids k l net = .ok t.2

theorem facetGroup_matched {l : Int} {rows : List Nat} {group : List (Nat × List (PointData α))} (filled : rows ≠ []) :
    facetGroup e nets rule ids l rows = .ok group ↔ List.Forall₂ (Found e nets rule ids l) rows group := by
  have each {k : Nat} (inside : k < nets.nets.length) (t : Nat × List (PointData α)) :
      (do pure (k, ← facetRow e nets.dim nets.points rule ids k l (nets.nets.getD k []))) = Except.ok t ↔
        Found e nets rule ids l k t := by
    rw [Found, List.getElem?_eq_getElem inside, List.getD_eq_getElem _ _ inside, Outcome.bind_eq_ok]
    constructor
    · rintro ⟨data, done, same⟩
      cases same
      exact ⟨rfl, _, rfl, done⟩
    · rintro ⟨rfl, net, same, done⟩
      cases same
      exact ⟨t.2, done, rfl⟩
  constructor
  · intro done
    have present := present_of_facetGroup done
    rw [facetGroup_eq_mapM filled present, Outcome.mapM_eq_ok] at done
    exact (Outcome.matched_congr fun k member t => each (present k member) t).mp done
  · intro matched
    have present : ∀ k ∈ rows, k < nets.nets.length := by
      intro k member
      obtain ⟨t, -, -, net, here, -⟩ := Outcome.exists_of_matched_left matched member
      exact (List.getElem?_eq_some_iff.mp here).1
    rw [facetGroup_eq_mapM filled present, Outcome.mapM_eq_ok]
    exact (Outcome.matched_congr fun k member t => each (present k member) t).mpr matched

/-- What is found for a row is the result of the work on it. -/
theorem facetRow_of_lookup {groups : List (List (Nat × List (PointData α)))}
    (done : (ascending locals).mapM (fun l => facetGroup e nets rule ids l (rowsOf locals l)) = .ok groups)
    {k : Nat} {l : Int} (here : locals[k]? = some l) {net : List (List α)} (there : nets.nets[k]? = some net)
    (unused : List (PointData α)) :
    facetRow e nets.dim nets.points rule ids k l net = .ok ((groups.flatten.lookup k).getD unused) := by
  have all : List.Forall₂ (fun l group => List.Forall₂ (Found e nets rule ids l) (rowsOf locals l) group)
      (ascending locals) groups :=
    (Outcome.matched_congr fun l member group => facetGroup_matched (rowsOf_ne_nil member)).mp (Outcome.mapM_eq_ok.mp done)
  obtain ⟨t, inside, same⟩ : ∃ t ∈ groups.flatten, t.1 = k := by
    obtain ⟨group, member, matched⟩ :=
      Outcome.exists_of_matched_left all (mem_ascending.mpr (List.mem_of_getElem? here))
    obtain ⟨t, inside, same, -⟩ := Outcome.exists_of_matched_left matched (mem_rowsOf.mpr here)
    exact ⟨t, List.mem_flatten.mpr ⟨group, member, inside⟩, same⟩
  obtain ⟨data, found⟩ : ∃ data, groups.flatten.lookup k = some data :=
    Option.isSome_iff_exists.mp (List.lookup_isSome_iff.mpr ⟨t, inside, by simp [same]⟩)
  obtain ⟨group, among, inside⟩ := List.mem_flatten.mp (mem_of_lookup found)
  obtain ⟨l', -, matched⟩ := Outcome.exists_of_matched all among
  obtain ⟨k', row, rfl, net', there', own⟩ := Outcome.exists_of_matched matched inside
  cases here.symm.trans (mem_rowsOf.mp row)
  cases there.symm.trans there'
  rw [found]
  exact own

/-- A batch fails as one of its rows does. -/
theorem onFacets_eq_error (full : locals.length = nets.nets.length) {f : Failure}
    (failed : onFacets e nets locals rule ids = .error f) :
    ∃ k l net, locals[k]? = some l ∧ nets.nets[k]? = some net ∧
      facetRow e nets.dim nets.points rule ids k l net = .error f := by
  rcases Outcome.bind_eq_error.mp failed with failed | ⟨_, -, impossible⟩
  swap
  · cases impossible
  obtain ⟨l, member, failed⟩ := Outcome.exists_of_mapM_eq_error failed
  have present : ∀ k ∈ rowsOf locals l, k < nets.nets.length := fun k row =>
    full ▸ (List.getElem?_eq_some_iff.mp (mem_rowsOf.mp row)).1
  rw [facetGroup_eq_mapM (rowsOf_ne_nil member) present] at failed
  obtain ⟨k, row, failed⟩ := Outcome.exists_of_mapM_eq_error failed
  rcases Outcome.bind_eq_error.mp failed with failed | ⟨_, -, impossible⟩
  · refine ⟨k, l, _, mem_rowsOf.mp row, List.getElem?_eq_getElem (present k row), ?_⟩
    rwa [List.getD_eq_getElem _ _ (present k row)] at failed
  · cases impossible

/-- A batch is the table of its rows. -/
theorem onFacets_matched (full : locals.length = nets.nets.length) :
    onFacets e nets locals rule ids = .ok tab ↔ ∃ entities,
      List.Forall₂ (fun (t : List (List α) × Int) data => facetRow e nets.dim nets.points rule none 0 t.2 t.1 = .ok data)
        (nets.nets.zip locals) entities ∧ tab = ⟨nets.dim, rule.length, nets.points, true, entities⟩ := by
  have forward {tab : Tabulation α} (done : onFacets e nets locals rule ids = .ok tab) : ∃ entities,
      List.Forall₂ (fun (t : List (List α) × Int) data => facetRow e nets.dim nets.points rule none 0 t.2 t.1 = .ok data)
        (nets.nets.zip locals) entities ∧ tab = ⟨nets.dim, rule.length, nets.points, true, entities⟩ := by
    obtain ⟨groups, made, done⟩ := Outcome.bind_eq_ok.mp done
    refine ⟨_, List.forall₂_iff_get.mpr ⟨?_, fun k left right => ?_⟩, (Except.ok.inj done).symm⟩
    · simp [full]
    · simp only [List.get_eq_getElem, List.getElem_zip, List.getElem_map, List.getElem_range]
      exact facetRow_eq_ok_iff.mp
        (facetRow_of_lookup made (List.getElem?_eq_getElem _) (List.getElem?_eq_getElem _) _)
  refine ⟨forward, ?_⟩
  rintro ⟨entities, matched, rfl⟩
  cases done : onFacets e nets locals rule ids with
  | error f =>
      obtain ⟨k, l, net, here, there, failed⟩ := onFacets_eq_error full done
      obtain ⟨data, -, made⟩ := Outcome.getElem?_of_matched matched (x := (net, l))
        (List.getElem?_zip_eq_some.mpr ⟨there, here⟩)
      cases failed.symm.trans (facetRow_eq_ok_iff.mpr made)
  | ok other =>
      obtain ⟨entities', matched', rfl⟩ := forward done
      have unique : Relator.RightUnique fun (t : List (List α) × Int) data =>
          facetRow e nets.dim nets.points rule none 0 t.2 t.1 = .ok data := fun _ _ _ first second =>
        Except.ok.inj (first.symm.trans second)
      rw [List.right_unique_forall₂' unique matched matched']

end Rows

variable {e : Element} {nets : ControlNets ℝ} {rule : Rule ℝ} {ids : Option (List Int)} {tab : Tabulation ℝ}

/-- The data of one element. -/
noncomputable def volumeData (e : Element) (dim : Nat) (rule : Rule ℝ) (net : List (List ℝ)) :
    Except Failure (List (PointData ℝ)) := do
  let mapped ← mapEntity e.dim dim none 0 net (rule.map fun q => referencePoint e q.position q.weight)
  pure (mapped.map (·.2))

/-- The data of one facet of an element. -/
noncomputable def facetData (e : Element) (dim : Nat) (rule : Rule ℝ) (localFacet : Int) (net : List (List ℝ)) :
    Except Failure (List (PointData ℝ)) := do
  let some facet := entry? e.cell.facets localFacet | throw .outOfRange
  let positions ← rule.mapM fun q => e.cell.facetPoint facet q.position
  let mapped ← mapEntity e.dim dim none 0 net (List.zipWith (fun x q => referencePoint e x q.weight) positions rule)
  pure (List.zipWith (fun (j, d) q =>
    onFacet dim (e.cell.facetTangents facet) (centroid dim net) q.weight j d) mapped rule)

theorem onVolumes_eq_ok : onVolumes e nets rule ids = .ok tab ↔ nets.dim = e.dim ∧ nets.points = e.size ∧
    ∃ entities, List.Forall₂ (fun net data => volumeData e nets.dim rule net = .ok data) nets.nets entities ∧
      tab = ⟨nets.dim, rule.length, nets.points, false, entities⟩ := by
  have each (net : List (List ℝ)) (k : Nat) (data : List (PointData ℝ)) :
      (do pure ((← mapEntity e.dim nets.dim ids k net
        (rule.map fun q => referencePoint e q.position q.weight)).map (·.2))) = Except.ok data ↔
        volumeData e nets.dim rule net = .ok data := by
    rw [volumeData, Outcome.bind_eq_ok, Outcome.bind_eq_ok]
    exact exists_congr fun all => and_congr_left fun _ => mapEntity_eq_ok
  have run (entities : List (List (PointData ℝ))) :
      (nets.nets.zipIdx.mapM fun t => do pure ((← mapEntity e.dim nets.dim ids t.2 t.1
        (rule.map fun q => referencePoint e q.position q.weight)).map (·.2))) = Except.ok entities ↔
        List.Forall₂ (fun net data => volumeData e nets.dim rule net = .ok data) nets.nets entities := by
    rw [Outcome.mapM_eq_ok]
    exact Outcome.matched_zipIdx fun k net _ data => each net k data
  unfold onVolumes
  split
  · next apart =>
      refine iff_of_false (fun done => by cases done) ?_
      rintro ⟨dim, points, -⟩
      simp [dim, points] at apart
  · next fits =>
      simp only [Bool.or_eq_true, decide_eq_true_eq, not_or, not_not] at fits
      constructor
      · intro done
        obtain ⟨entities, mapped, done⟩ := Outcome.bind_eq_ok.mp done
        exact ⟨fits.1, fits.2, entities, (run entities).mp mapped, (Except.ok.inj done).symm⟩
      · rintro ⟨-, -, entities, mapped, rfl⟩
        exact Outcome.bind_eq_ok.mpr ⟨entities, (run entities).mpr mapped, rfl⟩

/-! ### Facets -/

theorem facetData_eq_ok {dim : Nat} {l : Int} {net : List (List ℝ)} {data : List (PointData ℝ)} :
    facetData e dim rule l net = .ok data ↔ ∃ facet positions mapped, entry? e.cell.facets l = some facet ∧
      (rule.mapM fun q => e.cell.facetPoint facet q.position) = .ok positions ∧
      mapEntity e.dim dim none 0 net (List.zipWith (fun x q => referencePoint e x q.weight) positions rule) =
        .ok mapped ∧
      data = List.zipWith (fun (j, d) q =>
        onFacet dim (e.cell.facetTangents facet) (centroid dim net) q.weight j d) mapped rule := by
  unfold facetData
  cases entry? e.cell.facets l with
  | none => simp
  | some facet =>
      constructor
      · intro done
        obtain ⟨positions, placed, done⟩ := Outcome.bind_eq_ok.mp done
        obtain ⟨mapped, made, done⟩ := Outcome.bind_eq_ok.mp done
        exact ⟨facet, positions, mapped, rfl, placed, made, (Except.ok.inj done).symm⟩
      · rintro ⟨_, positions, mapped, same, placed, made, rfl⟩
        cases same
        exact Outcome.bind_eq_ok.mpr ⟨positions, placed, Outcome.bind_eq_ok.mpr ⟨mapped, made, rfl⟩⟩

theorem facetRow_eq_ok {dim points k : Nat} {l : Int} {net : List (List ℝ)} {data : List (PointData ℝ)}
    (fits : points = e.size) :
    facetRow e dim points rule ids k l net = .ok data ↔ facetData e dim rule l net = .ok data := by
  subst fits
  unfold facetRow facetData
  cases entry? e.cell.facets l with
  | none => exact Iff.rfl
  | some facet => simp only [ne_eq, not_true_eq_false, if_false, Outcome.bind_eq_ok, mapEntity_eq_ok]

/-- What is found for a row is the data of the facet in this row. -/
theorem facetData_of_lookup {locals : List Int} (fits : nets.points = e.size)
    {groups : List (List (Nat × List (PointData ℝ)))}
    (done : (ascending locals).mapM (fun l => facetGroup e nets rule ids l (rowsOf locals l)) = .ok groups)
    {k : Nat} {l : Int} (here : locals[k]? = some l) {net : List (List ℝ)} (there : nets.nets[k]? = some net)
    (unused : List (PointData ℝ)) :
    facetData e nets.dim rule l net = .ok ((groups.flatten.lookup k).getD unused) :=
  (facetRow_eq_ok fits).mp (facetRow_of_lookup done here there unused)

theorem onFacets_eq_ok {locals : List Int} (full : locals.length = nets.nets.length) (fits : nets.points = e.size) :
    onFacets e nets locals rule ids = .ok tab ↔
      ∃ entities, List.Forall₂ (fun (t : List (List ℝ) × Int) data => facetData e nets.dim rule t.2 t.1 = .ok data)
        (nets.nets.zip locals) entities ∧ tab = ⟨nets.dim, rule.length, nets.points, true, entities⟩ := by
  rw [onFacets_matched full]
  refine exists_congr fun entities => and_congr_left fun _ => ?_
  exact Outcome.matched_congr fun t _ data => facetRow_eq_ok fits

end Tabulation

end Galerkin
