import Mathlib
import Galerkin.Proofs.Tabulation.Normals

/-!
Affine functions of space. However an element is bent, its basis combines the values of an affine function at the control
points to the values of the function, and the gradients in space combine them to its gradient.
-/

namespace Galerkin

open Finset Arithmetic

namespace Tabulation

variable {k : Element.Kind} {cell : Cell} {e : Element} {dim : Nat} {net : List (List ℝ)} {x g : List ℝ} {h : ℝ}

/-! ### Jacobians and their inverses -/

/-- The inverse of a Jacobian undoes it. -/
theorem sum_mul_inverse {j : List (List ℝ)} {det : ℝ} (here : determinant? j = some det) (nonzero : det ≠ 0) {i m : Nat}
    (row : i < j.length) (column : m < j.length) :
    ∑ n ∈ range j.length, (j.getD i []).getD n 0 * ((inverse det j).getD n []).getD m 0 = if i = m then 1 else 0 := by
  obtain ⟨a, rfl, rfl⟩ | ⟨a, b, c, d, rfl, same⟩ | ⟨a, b, c, d, p, f, q, r, s, rfl, same⟩ := square_of_determinant? here
  · simp only [List.length_cons, List.length_nil] at row column ⊢
    interval_cases i
    interval_cases m
    simp [inverse, nonzero]
  · simp only [List.length_cons, List.length_nil] at row column ⊢
    interval_cases i <;> interval_cases m <;>
      simp [inverse, sum_range_succ] <;> field_simp <;> rw [same] <;> ring
  · simp only [List.length_cons, List.length_nil] at row column ⊢
    interval_cases i <;> interval_cases m <;>
      simp [inverse, sum_range_succ] <;> field_simp <;> rw [same] <;> ring

/-! ### What is tabulated at a place -/

/-- The data of a point that stands at the place `x` of the reference cell. -/
structure MappedAt (e : Element) (dim : Nat) (net : List (List ℝ)) (x : List ℝ) (d : PointData ℝ) : Prop where
  basis : d.basis = e.values x
  position : d.position = interpolate dim (e.values x) net
  gradients : ∃ det, determinant? (jacobianAt e dim net x) = some det ∧ 0 < det ∧
    d.gradients = (e.gradients x).map (physical (inverse det (jacobianAt e dim net x)) dim)

/-- The place tells the basis, its gradients and the position. -/
theorem MappedAt.unique {d d' : PointData ℝ} (first : MappedAt e dim net x d) (second : MappedAt e dim net x d') :
    d.basis = d'.basis ∧ d.gradients = d'.gradients ∧ d.position = d'.position := by
  obtain ⟨det, here, -, gradients⟩ := first.gradients
  obtain ⟨det', here', -, gradients'⟩ := second.gradients
  cases here.symm.trans here'
  exact ⟨first.basis.trans second.basis.symm, gradients.trans gradients'.symm, first.position.trans second.position.symm⟩

theorem MappedAt.unital (known : Element.OfKind k cell e) (mapped : MappedAt e dim net x d) : d.Unital e.size := by
  obtain ⟨det, -, -, gradients⟩ := mapped.gradients
  exact unital_of_reference known x _ mapped.basis gradients

theorem volumeData_mapped {rule : Rule ℝ} {data : List (PointData ℝ)} (done : volumeData e dim rule net = .ok data) :
    List.Forall₂ (fun q d => MappedAt e dim net q.position d) rule data := by
  obtain ⟨mapped, made, done⟩ := Outcome.bind_eq_ok.mp done
  cases done
  have points := mapEntity_points made
  rw [List.forall₂_map_left_iff] at points
  rw [List.forall₂_map_right_iff]
  refine points.imp fun q t => ?_
  rintro ⟨same, det, here, positive, data⟩
  rw [same] at here data
  rw [data]
  exact ⟨rfl, rfl, det, here, positive, rfl⟩

theorem facetData_mapped {rule : Rule ℝ} {l : Int} {data : List (PointData ℝ)}
    (done : facetData e dim rule l net = .ok data) : ∃ facet, entry? e.cell.facets l = some facet ∧
      List.Forall₂ (fun q d => ∃ x, e.cell.facetPoint facet q.position = .ok x ∧ MappedAt e dim net x d) rule data := by
  obtain ⟨facet, positions, mapped, found, placed, made, rfl⟩ := facetData_eq_ok.mp done
  refine ⟨facet, found, (Outcome.matched_zipWith (Outcome.mapM_eq_ok.mp placed) (mapEntity_points made)).imp ?_⟩
  rintro q d ⟨x, ⟨j, p⟩, place, ⟨same, det, here, positive, data⟩, rfl⟩
  dsimp only [referencePoint] at same here data
  subst same data
  exact ⟨x, place, rfl, rfl, det, here, positive, rfl⟩

/-! ### Affine functions -/

/-- Control points with a coordinate for each dimension of space. -/
def Formed (dim : Nat) (net : List (List ℝ)) : Prop := ∀ x ∈ net, x.length = dim

theorem dot_of_lengths {y : List ℝ} (left : g.length = dim) (right : y.length = dim) :
    dot g y = ∑ i ∈ range dim, g.getD i 0 * y.getD i 0 := by
  rw [dot, total_eq_sum, sum_zipWith_getD (left.trans right.symm) 0 0, right]

/-- What a combination of the values of an affine function at the control points comes to. -/
theorem sum_mul_affine (formed : Formed dim net) (linear : g.length = dim) (weight : Nat → ℝ) :
    ∑ a ∈ range net.length, weight a * (dot g (net.getD a []) + h) =
      ∑ i ∈ range dim, g.getD i 0 * ∑ a ∈ range net.length, weight a * (net.getD a []).getD i 0 +
        (∑ a ∈ range net.length, weight a) * h := by
  have each : ∀ a ∈ range net.length, weight a * (dot g (net.getD a []) + h) =
      (∑ i ∈ range dim, g.getD i 0 * (weight a * (net.getD a []).getD i 0)) + weight a * h := by
    intro a member
    have inside : a < net.length := mem_range.mp member
    have sized : (net.getD a []).length = dim := by
      rw [List.getD_eq_getElem _ _ inside]
      exact formed _ (List.getElem_mem inside)
    rw [dot_of_lengths linear sized, mul_add, mul_sum]
    exact congrArg (· + _) (sum_congr rfl fun i _ => by ring)
  rw [sum_congr rfl each, sum_add_distrib, sum_comm, sum_mul]
  simp only [mul_sum]

/-- Do the data of a point tell an affine function and its gradient there from its values at the control points? -/
structure ReproducesAffine (dim : Nat) (net : List (List ℝ)) (d : PointData ℝ) : Prop where
  value : ∀ (g : List ℝ) (h : ℝ), g.length = dim →
    ∑ a ∈ range net.length, d.basisAt none a * (dot g (net.getD a []) + h) = dot g d.position + h
  gradient : ∀ (g : List ℝ) (h : ℝ), g.length = dim → ∀ i < dim,
    ∑ a ∈ range net.length, d.basisAt (some i) a * (dot g (net.getD a []) + h) = g.getD i 0

variable {d : PointData ℝ}

theorem getD_interpolate {weights : List ℝ} (sized : weights.length = net.length) {i : Nat} (inside : i < dim) :
    (interpolate dim weights net).getD i 0 = ∑ a ∈ range net.length, weights.getD a 0 * (net.getD a []).getD i 0 := by
  rw [← sum_zipWith_getD (f := fun w y => w * y.getD i 0) sized 0 []]
  simp [interpolate, inside, total_eq_sum]

theorem getD_jacobianAt (sized : net.length = e.size) {i j : Nat} (row : i < dim)
    (column : j < e.dim) : ((jacobianAt e dim net x).getD i []).getD j 0 =
      ∑ a ∈ range net.length, (net.getD a []).getD i 0 * ((e.gradients x).getD a []).getD j 0 := by
  have lengths : net.length = (e.gradients x).length := by
    rw [sized, Element.gradients, List.length_map, Element.size]
  rw [lengths, ← sum_zipWith_getD (f := fun y g => y.getD i 0 * g.getD j 0) lengths [] []]
  simp [jacobianAt, jacobian, row, column, total_eq_sum]

theorem MappedAt.reproduces (known : Element.OfKind k cell e) (sized : net.length = e.size) (formed : Formed dim net)
    (mapped : MappedAt e dim net x d) : ReproducesAffine dim net d := by
  obtain ⟨det, here, positive, gradients⟩ := mapped.gradients
  obtain rfl : dim = e.dim := dim_eq_of_determinant? here
  have unital := mapped.unital known
  refine ⟨fun g h linear => ?_, fun g h linear m inside => ?_⟩
  · have values : (e.values x).length = net.length := by
      rw [sized, Element.values, List.length_map, Element.size]
    have position : d.position.length = e.dim := by
      rw [mapped.position, interpolate, List.length_map, List.length_range]
    rw [sum_mul_affine formed linear, sized, unital.sum none, if_pos rfl, one_mul, dot_of_lengths linear position]
    refine congrArg (· + h) (sum_congr rfl fun i member => ?_)
    rw [mapped.position, getD_interpolate values (mem_range.mp member), sized]
    simp only [PointData.basisAt, mapped.basis]
  · -- In reference coordinates the basis combines the control points to the Jacobian, which its inverse then undoes.
    have slope : ∀ i ∈ range e.dim, ∑ a ∈ range net.length, d.basisAt (some m) a * (net.getD a []).getD i 0 =
        if i = m then 1 else 0 := by
      intro i member
      have rows : (jacobianAt e e.dim net x).length = e.dim := by
        rw [jacobianAt, jacobian, List.length_map, List.length_range]
      calc ∑ a ∈ range net.length, d.basisAt (some m) a * (net.getD a []).getD i 0
          = ∑ a ∈ range net.length, ∑ n ∈ range e.dim, (net.getD a []).getD i 0 * ((e.gradients x).getD a []).getD n 0 *
              ((inverse det (jacobianAt e e.dim net x)).getD n []).getD m 0 := by
            refine sum_congr rfl fun a among => ?_
            rw [basisAt_physical gradients (sized ▸ mem_range.mp among), if_pos inside, sum_mul]
            exact sum_congr rfl fun n _ => by ring
        _ = ∑ n ∈ range e.dim, ((jacobianAt e e.dim net x).getD i []).getD n 0 *
              ((inverse det (jacobianAt e e.dim net x)).getD n []).getD m 0 := by
            rw [sum_comm]
            refine sum_congr rfl fun n among => ?_
            rw [← sum_mul, getD_jacobianAt sized (mem_range.mp member) (mem_range.mp among)]
        _ = if i = m then 1 else 0 := by
            have inverted := sum_mul_inverse here positive.ne' (i := i) (m := m) (rows.symm ▸ mem_range.mp member)
              (rows.symm ▸ inside)
            rwa [rows] at inverted
    rw [sum_mul_affine formed linear, sized, unital.sum (some m), if_neg (Option.some_ne_none m), zero_mul, add_zero, ← sized,
      sum_congr rfl fun i member => congrArg (g.getD i 0 * ·) (slope i member)]
    simp [inside]

/-! ### Failures -/

/-- Is the determinant of a Jacobian not positive? -/
def Degenerate (j : List (List ℝ)) : Prop := ∃ det, determinant? j = some det ∧ det ≤ 0

/-- Does some work fail exactly if an entity offends, and with the number of one that does? -/
structure FailsFor {β : Type} (ids : Option (List Int)) (offends : Nat → Prop) (r : Except Failure β) : Prop where
  iff : (∃ f, r = .error f) ↔ ∃ i, offends i
  names : ∀ f, r = .error f → ∃ i id, offends i ∧ reportedId ids i = .ok id ∧ f = jacobianFailure id

section FailsFor

variable {α β γ : Type} {ids : Option (List Int)}

theorem FailsFor.congr {offends others : Nat → Prop} {r : Except Failure β} (fails : FailsFor ids offends r)
    (same : ∀ i, offends i ↔ others i) : FailsFor ids others r := by
  have equal : offends = others := funext fun i => propext (same i)
  exact equal ▸ fails

theorem FailsFor.andThen {offends : Nat → Prop} {r : Except Failure β} {next : β → Except Failure γ}
    (fails : FailsFor ids offends r) (last : ∀ b, ∃ c, next b = .ok c) : FailsFor ids offends (r >>= next) := by
  have same (f : Failure) : r >>= next = .error f ↔ r = .error f := by
    rw [Outcome.bind_eq_error, or_iff_left]
    rintro ⟨b, -, impossible⟩
    obtain ⟨c, done⟩ := last b
    cases done.symm.trans impossible
  constructor
  · simp only [same, fails.iff]
  · intro f failed
    exact fails.names f ((same f).mp failed)

theorem FailsFor.after {offends : Nat → Prop} {r : Except Failure β} {next : β → Except Failure γ} {b : β}
    (done : r = .ok b) (fails : FailsFor ids offends (next b)) : FailsFor ids offends (r >>= next) := by
  rw [done]
  exact fails

/-- If all offenders have one number, it is reported. -/
theorem FailsFor.eq_error {offends : Nat → Prop} {r : Except Failure β} (fails : FailsFor ids offends r) {i : Nat} {id : Int}
    (offender : offends i) (number : ∀ j, offends j → reportedId ids j = .ok id) : r = .error (jacobianFailure id) := by
  obtain ⟨f, failed⟩ := fails.iff.mpr ⟨i, offender⟩
  obtain ⟨j, id', other, named, rfl⟩ := fails.names f failed
  cases (number j other).symm.trans named
  exact failed

theorem failsFor_mapM {work : α → Except Failure β} {offends : α → Nat → Prop} {xs : List α}
    (each : ∀ x ∈ xs, FailsFor ids (offends x) (work x)) :
    FailsFor ids (fun i => ∃ x ∈ xs, offends x i) (xs.mapM work) := by
  refine ⟨⟨?_, ?_⟩, fun f failed => ?_⟩
  · rintro ⟨f, failed⟩
    obtain ⟨x, member, here⟩ := Outcome.exists_of_mapM_eq_error failed
    obtain ⟨i, offender⟩ := (each x member).iff.mp ⟨f, here⟩
    exact ⟨i, x, member, offender⟩
  · rintro ⟨i, x, member, offender⟩
    obtain ⟨f, failed⟩ := (each x member).iff.mpr ⟨i, offender⟩
    cases all : xs.mapM work with
    | error f' => exact ⟨f', rfl⟩
    | ok ys =>
        obtain ⟨y, -, done⟩ := Outcome.exists_of_matched_left (Outcome.mapM_eq_ok.mp all) member
        cases failed.symm.trans done
  · obtain ⟨x, member, here⟩ := Outcome.exists_of_mapM_eq_error failed
    obtain ⟨i, id, offender, named⟩ := (each x member).names f here
    exact ⟨i, id, ⟨x, member, offender⟩, named⟩

end FailsFor

/-- An entity fails for itself, because of one of its points. -/
theorem mapEntity_failsFor (small : dim ∈ [1, 2, 3]) {ids : Option (List Int)} {i : Nat} {id : Int}
    (reported : reportedId ids i = .ok id) (points : List (ReferencePoint ℝ)) :
    FailsFor ids (fun j => j = i ∧ ∃ p ∈ points, Degenerate (jacobian dim dim net p.gradients))
      (mapEntity dim dim ids i net points) := by
  have each : ∀ p ∈ points, ∃ t, mapped dim dim net p = .ok t ∧
      determinant? (jacobian dim dim net p.gradients) = some t.2.1 := by
    intro p _
    obtain ⟨det, here⟩ := exists_determinant small net p.gradients
    unfold mapped
    simp only [here]
    exact ⟨_, rfl, rfl⟩
  obtain ⟨all, run, matched⟩ := Outcome.mapM_of_forall each
  have any : (all.any fun t => t.2.1 ≤ 0) = true ↔ ∃ p ∈ points, Degenerate (jacobian dim dim net p.gradients) := by
    rw [List.any_eq_true]
    constructor
    · rintro ⟨t, member, below⟩
      obtain ⟨p, present, here⟩ := Outcome.exists_of_matched matched member
      exact ⟨p, present, t.2.1, here, of_decide_eq_true below⟩
    · rintro ⟨p, present, det, here, below⟩
      obtain ⟨t, member, same⟩ := Outcome.exists_of_matched_left matched present
      cases same.symm.trans here
      exact ⟨t, member, decide_eq_true below⟩
  unfold mapEntity
  rw [run, Outcome.ok_bind]
  by_cases offends : ∃ p ∈ points, Degenerate (jacobian dim dim net p.gradients)
  · rw [if_pos (any.mpr offends), reported]
    exact ⟨iff_of_true ⟨_, rfl⟩ ⟨i, rfl, offends⟩, fun f failed =>
      ⟨i, id, ⟨rfl, offends⟩, reported, (Except.error.inj failed).symm⟩⟩
  · rw [if_neg fun found => offends (any.mp found)]
    exact ⟨iff_of_false nofun fun ⟨_, _, offender⟩ => offends offender, nofun⟩

/-- Does the map of an element degenerate at one of the points of a rule? -/
def OffendsInside (e : Element) (nets : ControlNets ℝ) (rule : Rule ℝ) (i : Nat) : Prop :=
  ∃ net, nets.nets[i]? = some net ∧ ∃ q ∈ rule, Degenerate (jacobianAt e nets.dim net q.position)

/-- Does it degenerate at one of the points that a rule has on a facet? -/
def OffendsOnFacet (e : Element) (nets : ControlNets ℝ) (locals : List Int) (rule : Rule ℝ) (i : Nat) : Prop :=
  ∃ net l facet, nets.nets[i]? = some net ∧ locals[i]? = some l ∧ entry? e.cell.facets l = some facet ∧
    ∃ q ∈ rule, ∃ x, e.cell.facetPoint facet q.position = .ok x ∧ Degenerate (jacobianAt e nets.dim net x)

variable {nets : ControlNets ℝ} {rule : Rule ℝ} {ids : Option (List Int)}

theorem onVolumes_failsFor (small : e.dim ∈ [1, 2, 3]) (space : nets.dim = e.dim) (fits : nets.points = e.size)
    (reported : ∀ i < nets.nets.length, ∃ id, reportedId ids i = .ok id) :
    FailsFor ids (OffendsInside e nets rule) (onVolumes e nets rule ids) := by
  have each : ∀ t ∈ nets.nets.zipIdx, FailsFor ids
      (fun j => j = t.2 ∧ ∃ q ∈ rule, Degenerate (jacobianAt e nets.dim t.1 q.position))
      (do pure ((← mapEntity e.dim nets.dim ids t.2 t.1 (rule.map fun q => referencePoint e q.position q.weight)).map
        (·.2))) := by
    intro t member
    obtain ⟨id, named⟩ := reported t.2 (List.getElem?_eq_some_iff.mp (List.mem_zipIdx_iff_getElem?.mp member)).1
    rw [space]
    refine ((mapEntity_failsFor small named _).andThen fun _ => ⟨_, rfl⟩).congr fun j => and_congr_right fun _ => ?_
    simp only [List.mem_map, exists_exists_and_eq_and]
    rfl
  have shape : ¬(nets.dim ≠ e.dim || nets.points ≠ e.size) := by simp [space, fits]
  unfold onVolumes
  rw [if_neg shape]
  refine ((failsFor_mapM each).andThen fun entities => ⟨_, rfl⟩).congr fun j => ?_
  constructor
  · rintro ⟨t, member, rfl, offender⟩
    exact ⟨t.1, List.mem_zipIdx_iff_getElem?.mp member, offender⟩
  · rintro ⟨net, here, offender⟩
    exact ⟨(net, j), List.mem_zipIdx_iff_getElem?.mpr here, rfl, offender⟩

/-- Are there facets with some numbers, and places for the points of a rule on them? -/
def Placeable (e : Element) (locals : List Int) (rule : Rule ℝ) : Prop :=
  ∀ l ∈ locals, ∃ facet, entry? e.cell.facets l = some facet ∧
    ∀ q ∈ rule, ∃ x, e.cell.facetPoint facet q.position = .ok x

theorem facetGroup_failsFor (small : e.dim ∈ [1, 2, 3]) (space : nets.dim = e.dim) (fits : nets.points = e.size)
    (reported : ∀ i < nets.nets.length, ∃ id, reportedId ids i = .ok id) {locals : List Int}
    (full : locals.length ≤ nets.nets.length) (placeable : Placeable e locals rule) {l : Int} (member : l ∈ locals) :
    FailsFor ids (fun i => locals[i]? = some l ∧ OffendsOnFacet e nets locals rule i)
      (facetGroup e nets rule ids l (rowsOf locals l)) := by
  obtain ⟨facet, found, places⟩ := placeable l member
  obtain ⟨positions, placed, matched⟩ := Outcome.mapM_of_forall fun q inside => (places q inside).imp fun x done =>
    ⟨done, done⟩
  have present : ∀ i ∈ rowsOf locals l, nets.nets[i]? = some (nets.nets.getD i []) := by
    intro i row
    have inside : i < nets.nets.length :=
      Nat.lt_of_lt_of_le (List.getElem?_eq_some_iff.mp (mem_rowsOf.mp row)).1 full
    rw [List.getElem?_eq_getElem inside, List.getD_eq_getElem _ _ inside]
  have degenerates (net : List (List ℝ)) : (∃ p ∈ List.zipWith (fun x q => referencePoint e x q.weight) positions rule,
      Degenerate (jacobian e.dim e.dim net p.gradients)) ↔
        ∃ q ∈ rule, ∃ x, e.cell.facetPoint facet q.position = .ok x ∧ Degenerate (jacobianAt e nets.dim net x) := by
    rw [space, List.zipWith_comm, ← List.map_uncurry_zip_eq_zipWith]
    constructor
    · rintro ⟨p, member, degenerate⟩
      obtain ⟨⟨q, x⟩, paired, rfl⟩ := List.mem_map.mp member
      exact ⟨q, (List.of_mem_zip paired).1, x, List.forall₂_zip matched paired, degenerate⟩
    · rintro ⟨q, member, x, place, degenerate⟩
      obtain ⟨i, here⟩ := List.mem_iff_getElem?.mp member
      obtain ⟨x', there, place'⟩ := Outcome.getElem?_of_matched matched here
      cases place.symm.trans place'
      have paired : (q, x) ∈ rule.zip positions := List.mem_of_getElem? (List.getElem?_zip_eq_some.mpr ⟨here, there⟩)
      exact ⟨_, List.mem_map_of_mem paired, degenerate⟩
  have each : ∀ t ∈ (rowsOf locals l).map fun i => (i, nets.nets.getD i []),
      FailsFor ids (fun j => j = t.1 ∧ ∃ p ∈ List.zipWith (fun x q => referencePoint e x q.weight) positions rule,
        Degenerate (jacobian e.dim e.dim t.2 p.gradients))
      (do
        let mapped ← mapEntity e.dim nets.dim ids t.1 t.2
          (List.zipWith (fun x q => referencePoint e x q.weight) positions rule)
        pure (t.1, List.zipWith (fun m q => onFacet nets.dim (e.cell.facetTangents facet)
          (centroid nets.dim t.2) q.weight m.1 m.2) mapped rule)) := by
    intro t among
    obtain ⟨i, row, rfl⟩ := List.mem_map.mp among
    obtain ⟨id, named⟩ := reported i (List.getElem?_eq_some_iff.mp (present i row)).1
    rw [space]
    exact (mapEntity_failsFor small named _).andThen fun _ => ⟨_, rfl⟩
  unfold facetGroup
  simp only [found]
  refine .after placed (.after (b := (rowsOf locals l).map fun i => (i, nets.nets.getD i [])) ?_ ?_)
  · refine Outcome.mapM_eq_ok.mpr (List.forall₂_map_right_iff.mpr (List.forall₂_same.mpr fun i row => ?_))
    rw [present i row]
    rfl
  · rw [if_neg (not_not.mpr fits)]
    refine (failsFor_mapM each).congr fun j => ?_
    simp only [List.mem_map, exists_exists_and_eq_and, degenerates]
    constructor
    · rintro ⟨i, row, rfl, offends⟩
      have here := mem_rowsOf.mp row
      exact ⟨here, _, l, facet, present j row, here, found, offends⟩
    · rintro ⟨here, net, l', facet', there, here', found', offends⟩
      cases here.symm.trans here'
      cases found.symm.trans found'
      have row := mem_rowsOf.mpr here
      cases there.symm.trans (present j row)
      exact ⟨j, row, rfl, offends⟩

theorem onFacets_failsFor (small : e.dim ∈ [1, 2, 3]) (space : nets.dim = e.dim) (fits : nets.points = e.size)
    (reported : ∀ i < nets.nets.length, ∃ id, reportedId ids i = .ok id) {locals : List Int}
    (full : locals.length ≤ nets.nets.length) (placeable : Placeable e locals rule) :
    FailsFor ids (OffendsOnFacet e nets locals rule) (onFacets e nets locals rule ids) := by
  have each : ∀ l ∈ ascending locals, FailsFor ids (fun i => locals[i]? = some l ∧ OffendsOnFacet e nets locals rule i)
      (facetGroup e nets rule ids l (rowsOf locals l)) := fun l member =>
    facetGroup_failsFor small space fits reported full placeable (mem_ascending.mp member)
  refine ((failsFor_mapM each).andThen fun groups => ⟨_, rfl⟩).congr fun i => ?_
  constructor
  · rintro ⟨l, -, -, offends⟩
    exact offends
  · intro offends
    obtain ⟨net, l, facet, -, here, -, -⟩ := id offends
    exact ⟨l, mem_ascending.mpr (List.mem_of_getElem? here), here, offends⟩

/-! ### Warped and collapsed hexahedra -/

section Hexahedra

variable {k : Element.Kind} {e : Element}

theorem formed_warpedNet (known : Element.OfKind k .hex e) (w : ℝ) :
    (warpedNet e w).length = e.size ∧ Formed 3 (warpedNet e w) := by
  refine ⟨by rw [warpedNet, List.length_map, known.size], List.forall_mem_map.mpr fun a member => ?_⟩
  have sized : (realPoint a).length = 3 := by
    rw [realPoint, List.length_map]
    exact length_points k a (known.nodes.mem_iff.mp member)
  obtain ⟨s, t, u, same⟩ := List.length_eq_three.mp sized
  rw [same]
  rfl

theorem onVolumes_warped (known : Element.OfKind k .hex e) (w s t u : ℝ) :
    ∃ tab, onVolumes e ⟨e.size, 3, [warpedNet e w]⟩ [⟨[s, t, u], 1⟩] none = .ok tab := by
  have dim : e.dim = 3 := congrArg Cell.dim known.shape
  have positive : ∃ det, determinant? (jacobian 3 e.dim (warpedNet e w) (e.gradients [s, t, u])) = some det ∧ 0 < det := by
    rw [jacobian_warpedNet known]
    exact ⟨_, rfl, by norm_num⟩
  have point : ∃ mapped, mapEntity e.dim 3 none 0 (warpedNet e w) [referencePoint e [s, t, u] 1] = .ok mapped :=
    mapEntity_isOk (List.forall_mem_singleton.mpr positive)
  obtain ⟨mapped, made⟩ := point
  exact ⟨_, onVolumes_eq_ok.mpr ⟨dim.symm, rfl, _, .cons (Outcome.bind_eq_ok.mpr ⟨mapped, made, rfl⟩) .nil, rfl⟩⟩

/-- Control points that are all in one place. -/
def collapsedNet (e : Element) : List (List ℝ) := List.replicate e.size [0, 0, 0]

theorem degenerate_collapsedNet (known : Element.OfKind k .hex e) (x : List ℝ) :
    Degenerate (jacobianAt e 3 (collapsedNet e) x) := by
  have origin (i : Nat) : ([0, 0, 0] : List ℝ).getD i 0 = 0 := match i with
    | 0 | 1 | 2 | _ + 3 => rfl
  have flat (i j : Nat) : total (List.zipWith (fun y g => y.getD i 0 * g.getD j 0) (collapsedNet e) (e.gradients x)) = 0 := by
    rw [total_eq_sum]
    refine List.sum_eq_zero fun a member => ?_
    rw [← List.map_uncurry_zip_eq_zipWith, List.mem_map] at member
    obtain ⟨t, paired, rfl⟩ := member
    rw [Function.uncurry, List.eq_of_mem_replicate (List.of_mem_zip paired).1, origin, zero_mul]
  have zeros : jacobianAt e 3 (collapsedNet e) x = [[0, 0, 0], [0, 0, 0], [0, 0, 0]] := by
    have dim : e.dim = 3 := congrArg Cell.dim known.shape
    rw [jacobianAt, dim]
    simp only [jacobian, flat]
    rfl
  refine ⟨0, ?_, le_rfl⟩
  rw [zeros, determinant?]
  norm_num

end Hexahedra

/-! ### Batches -/

/-- Are these the data of a point of an entity? -/
def Holds (tab : Tabulation ℝ) (i j : Nat) (d : PointData ℝ) : Prop :=
  ∃ data, tab.entities[i]? = some data ∧ data[j]? = some d

theorem Holds.unique {tab : Tabulation ℝ} {i j : Nat} {d d' : PointData ℝ} (first : tab.Holds i j d)
    (second : tab.Holds i j d') : d = d' := by
  obtain ⟨data, entity, point⟩ := first
  obtain ⟨data', entity', point'⟩ := second
  cases entity.symm.trans entity'
  exact Option.some.inj (point.symm.trans point')

theorem onVolumes_mapped {tab : Tabulation ℝ} (done : onVolumes e nets rule ids = .ok tab) {i j : Nat}
    {q : QuadraturePoint ℝ} (here : nets.nets[i]? = some net) (point : rule[j]? = some q) :
    ∃ d, tab.Holds i j d ∧ MappedAt e nets.dim net q.position d := by
  obtain ⟨-, -, entities, matched, rfl⟩ := onVolumes_eq_ok.mp done
  obtain ⟨data, entity, own⟩ := Outcome.getElem?_of_matched matched here
  obtain ⟨d, there, mapped⟩ := Outcome.getElem?_of_matched (volumeData_mapped own) point
  exact ⟨d, ⟨data, entity, there⟩, mapped⟩

theorem onFacets_mapped {locals : List Int} {tab : Tabulation ℝ} (done : onFacets e nets locals rule ids = .ok tab)
    {i j : Nat} {l : Int} {q : QuadraturePoint ℝ} (here : nets.nets[i]? = some net) (side : locals[i]? = some l)
    (point : rule[j]? = some q) : nets.points = e.size ∧ ∃ facet x d, entry? e.cell.facets l = some facet ∧
      e.cell.facetPoint facet q.position = .ok x ∧ tab.Holds i j d ∧ MappedAt e nets.dim net x d := by
  obtain ⟨groups, made, done⟩ := Outcome.bind_eq_ok.mp done
  cases done
  have listed := mem_ascending.mpr (List.mem_of_getElem? side)
  obtain ⟨group, -, own⟩ := Outcome.exists_of_matched_left (Outcome.mapM_eq_ok.mp made) listed
  have fits := fits_of_facetGroup own
  have data := facetData_of_lookup fits made side here (rule.map fun _ => blank nets.dim nets.points)
  obtain ⟨facet, found, matched⟩ := facetData_mapped data
  obtain ⟨d, there, x, place, mapped⟩ := Outcome.getElem?_of_matched matched point
  refine ⟨fits, facet, x, d, found, place, ⟨_, ?_, there⟩, mapped⟩
  have inside := (List.getElem?_eq_some_iff.mp here).1
  simp [inside]

/-- Whatever the shape of the elements, affine functions are reproduced with their gradients at every point inside them
and on their facets; both are alike where a point on a facet is one of those inside. A batch is refused exactly if a
determinant is not positive somewhere, and then for an entity with such a point. -/
theorem tabulations_reproduce_affine {cell : Cell} (body : cell ∈ Cell.bodies) {family : String} {order : Int} {e : Element}
    (made : Element.ofCell cell family order = .ok e) (nets owners : ControlNets ℝ)
    (formed : ∀ net ∈ nets.nets, net.length = nets.points ∧ Formed nets.dim net)
    (formed' : ∀ net ∈ owners.nets, net.length = owners.points ∧ Formed owners.dim net)
    (locals : List Int) (rule facetRule : Rule ℝ) (ids facetIds : Option (List Int)) :
    (∀ tab, onVolumes e nets rule ids = .ok tab →
      ∀ (i j : Nat) net q, nets.nets[i]? = some net → rule[j]? = some q →
        ∃ d, tab.Holds i j d ∧ ReproducesAffine nets.dim net d) ∧
    (∀ tab, onFacets e owners locals facetRule facetIds = .ok tab →
      ∀ (i j : Nat) net l q, owners.nets[i]? = some net → locals[i]? = some l → facetRule[j]? = some q →
        ∃ d, tab.Holds i j d ∧ ReproducesAffine owners.dim net d) ∧
    (∀ tab tab', onVolumes e nets rule ids = .ok tab → onFacets e owners locals facetRule facetIds = .ok tab' →
      ∀ (i j i' j' : Nat) net l facet q q' d d', nets.nets[i]? = some net → rule[j]? = some q →
        owners.nets[i']? = some net → locals[i']? = some l → facetRule[j']? = some q' →
        entry? cell.facets l = some facet → cell.facetPoint facet q'.position = .ok q.position →
        tab.Holds i j d → tab'.Holds i' j' d' →
        d.basis = d'.basis ∧ d.gradients = d'.gradients ∧ d.position = d'.position) ∧
    (nets.dim = cell.dim → nets.points = e.size → (∀ i < nets.nets.length, ∃ id, reportedId ids i = .ok id) →
      FailsFor ids (OffendsInside e nets rule) (onVolumes e nets rule ids)) ∧
    (owners.dim = cell.dim → owners.points = e.size → (∀ i < owners.nets.length, ∃ id, reportedId facetIds i = .ok id) →
      locals.length ≤ owners.nets.length → Placeable e locals facetRule →
      FailsFor facetIds (OffendsOnFacet e owners locals facetRule) (onFacets e owners locals facetRule facetIds)) := by
  obtain ⟨k, known⟩ := Element.ofKind_ofCell made
  obtain rfl := known.shape
  have small : e.dim ∈ [1, 2, 3] := by
    revert body
    rw [Element.dim]
    cases e.cell <;> decide
  refine ⟨fun tab done i j net q here point => ?_, fun tab done i j net l q here side point => ?_,
    fun tab tab' done done' i j i' j' net l facet q q' d d' here point here' side point' found place holds holds' => ?_,
    fun space fits reported => onVolumes_failsFor small space fits reported,
    fun space fits reported full placeable => onFacets_failsFor small space fits reported full placeable⟩
  · obtain ⟨d, holds, mapped⟩ := onVolumes_mapped done here point
    obtain ⟨sized, coordinates⟩ := formed net (List.mem_of_getElem? here)
    obtain ⟨-, fits, -⟩ := onVolumes_eq_ok.mp done
    exact ⟨d, holds, mapped.reproduces known (sized.trans fits) coordinates⟩
  · obtain ⟨fits, facet, x, d, -, -, holds, mapped⟩ := onFacets_mapped done here side point
    obtain ⟨sized, coordinates⟩ := formed' net (List.mem_of_getElem? here)
    exact ⟨d, holds, mapped.reproduces known (sized.trans fits) coordinates⟩
  · obtain ⟨c, own, inside⟩ := onVolumes_mapped done here point
    obtain ⟨-, facet', x, c', found', place', own', onSide⟩ := onFacets_mapped done' here' side point'
    cases found.symm.trans found'
    cases place.symm.trans place'
    cases holds.unique own
    cases holds'.unique own'
    obtain ⟨det, first, -⟩ := inside.gradients
    obtain ⟨det', second, -⟩ := onSide.gradients
    rw [(dim_eq_of_determinant? first).trans (dim_eq_of_determinant? second).symm] at inside
    exact inside.unique onSide

theorem tabulations_reproduce_affine_warped : ∃ e tab tab' d d', Element.ofCell .hex "lagrange" 1 = .ok e ∧
    onVolumes e ⟨e.size, 3, [warpedNet e 2]⟩ [⟨[0, 0, 1], 1⟩] none = .ok tab ∧
    onFacets e ⟨e.size, 3, [warpedNet e 2]⟩ [1] [⟨[0, 0], 1⟩] none = .ok tab' ∧
    tab.Holds 0 0 d ∧ ReproducesAffine 3 (warpedNet e 2) d ∧ tab'.Holds 0 0 d' ∧ ReproducesAffine 3 (warpedNet e 2) d' ∧
    d.gradients = d'.gradients ∧
    onVolumes e ⟨e.size, 3, [collapsedNet e]⟩ [⟨[0, 0, 1], 1⟩] (some [7]) = .error (jacobianFailure 7) ∧
    onFacets e ⟨e.size, 3, [collapsedNet e]⟩ [1] [⟨[0, 0], 1⟩] (some [7]) = .error (jacobianFailure 7) := by
  obtain ⟨e, made, known⟩ := exists_trilinear
  obtain ⟨tab, done⟩ := onVolumes_warped known 2 0 0 1
  obtain ⟨tab', _, done', -⟩ := onFacets_warped known 2 0 0 1
  have shape := known.shape
  have formed : ∀ net ∈ [warpedNet e 2], net.length = e.size ∧ Formed 3 net :=
    List.forall_mem_singleton.mpr (formed_warpedNet known 2)
  obtain ⟨inside, onSide, alike, -, -⟩ := tabulations_reproduce_affine (by decide) made
    ⟨e.size, 3, [warpedNet e 2]⟩ ⟨e.size, 3, [warpedNet e 2]⟩ formed formed [1] [⟨[0, 0, 1], 1⟩] [⟨[0, 0], 1⟩] none none
  obtain ⟨d, holds, reproduces⟩ := inside tab done 0 0 _ _ rfl rfl
  obtain ⟨d', holds', reproduces'⟩ := onSide tab' done' 0 0 _ _ _ rfl rfl rfl
  have same := alike tab tab' done done' 0 0 0 0 _ _ _ _ _ d d' rfl rfl rfl rfl rfl rfl (facetPoint_top 0 0) holds holds'
  have collapsed : ∀ net ∈ [collapsedNet e], net.length = e.size ∧ Formed 3 net :=
    List.forall_mem_singleton.mpr ⟨List.length_replicate, fun x member => by rw [List.eq_of_mem_replicate member]; rfl⟩
  have seven : ∀ i < [collapsedNet e].length, reportedId (some [7]) i = .ok 7 := by
    intro i first
    obtain rfl := Nat.lt_one_iff.mp first
    rfl
  have reported : ∀ i < [collapsedNet e].length, ∃ id, reportedId (some [7]) i = .ok id := fun i first =>
    ⟨7, seven i first⟩
  have top : entry? e.cell.facets 1 = some [4, 5, 6, 7] := by
    rw [shape]
    rfl
  have place : e.cell.facetPoint [4, 5, 6, 7] [0, 0] = .ok [(0 : ℝ), 0, 1] := by
    rw [shape]
    exact facetPoint_top 0 0
  obtain ⟨-, -, -, fails, fails'⟩ := tabulations_reproduce_affine (by decide) made
    ⟨e.size, 3, [collapsedNet e]⟩ ⟨e.size, 3, [collapsedNet e]⟩ collapsed collapsed [1] [⟨[0, 0, 1], 1⟩] [⟨[0, 0], 1⟩]
    (some [7]) (some [7])
  refine ⟨e, tab, tab', d, d', made, done, done', holds, reproduces, holds', reproduces', same.2.1, ?_, ?_⟩
  · refine (fails rfl rfl reported).eq_error (i := 0)
      ⟨_, rfl, _, List.mem_singleton_self _, degenerate_collapsedNet known _⟩ fun j ⟨_, here, _⟩ => ?_
    exact seven j (List.getElem?_eq_some_iff.mp here).1
  · refine (fails' rfl rfl reported le_rfl ?_).eq_error (i := 0)
      ⟨_, 1, _, rfl, rfl, top, _, List.mem_singleton_self _, _, place, degenerate_collapsedNet known _⟩
      fun j ⟨_, _, _, here, _⟩ => ?_
    · exact List.forall_mem_singleton.mpr ⟨_, top, List.forall_mem_singleton.mpr ⟨_, place⟩⟩
    · exact seven j (List.getElem?_eq_some_iff.mp here).1

end Tabulation

end Galerkin
