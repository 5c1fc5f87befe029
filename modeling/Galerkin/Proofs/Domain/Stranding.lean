import Mathlib
import Galerkin.Proofs.Domain.Conservation
import Galerkin.Proofs.Domain.Entities

/-!
Discretizations that fail. They leave a domain as it was, unless a piece names an element that the mesh lacks: then
the domain has control points already, but their unknowns get no numbers, and no operation helps it out of this.
-/

namespace Galerkin

namespace Domain

variable {rules : Calculus Quantity} {lines : LineRules ℝ} {d d' : Domain ℝ} {family : String} {order : Number}
  {quadratureOrder : Option Int}

/-- Has a domain control points, and no numbers of their unknowns? -/
def HalfMade (d : Domain ℝ) : Prop := ∃ x, d.discretization = some x ∧ x.numbered = none

/-- Is a domain taken to be discretized, but not by the assembly? -/
structure Stranded (lines : LineRules ℝ) (d : Domain ℝ) : Prop where
  late : ∀ name elements,
    (addPiece name elements : Work ℝ WorkPiece).run.run d = (.error (.misuse .workPieceTooLate), d)
  again : ∀ family order quadratureOrder,
    (discretize family order quadratureOrder : Work ℝ Unit).run.run d = (.error (.misuse .alreadyDiscretized), d)
  early : Block.allOf lines d = .error (.misuse .notDiscretized)

/-- Does a discretization get as far as the points of the pieces, one of which has an element that the mesh lacks? -/
structure Strands (d : Domain ℝ) (family : String) (order : Number) (quadratureOrder : Option Int) : Prop where
  fresh : d.discretization = none
  layouts : ∃ layouts, d.layouts = .ok layouts
  space : ∃ whole space, Element.wholeOrder d.mesh.cell family order = .ok whole ∧
    ElementSpace.make d.mesh family whole quadratureOrder = .ok space
  lacks : ∃ w ∈ d.pieces, ∃ e ∈ w.elements, e < -(d.mesh.elements.size : Int) ∨ (d.mesh.elements.size : Int) ≤ e

/-! ### What a domain answers -/

theorem discretize_present (present : d.discretization.isSome = true) (family : String) (order : Number)
    (quadratureOrder : Option Int) :
    (discretize family order quadratureOrder : Work ℝ Unit).run.run d = (.error (.misuse .alreadyDiscretized), d) := by
  unfold discretize
  change (ite _ _ _ : Work ℝ Unit).run.run d = _
  rw [if_pos present]
  rfl

theorem addPiece_present (present : d.discretization.isSome = true) (name : Option String) (elements : Option (List Int)) :
    (addPiece name elements : Work ℝ WorkPiece).run.run d = (.error (.misuse .workPieceTooLate), d) := by
  unfold addPiece
  change (ite _ _ _ : Work ℝ WorkPiece).run.run d = _
  rw [if_pos present]
  rfl

end Domain

namespace Block

variable {c : Context ℝ}

/-- The making of blocks never complains that a domain is not discretized, once it has begun. -/
theorem allOfPiece_begun (w : WorkPiece) : Outcome.Avoids (· = .misuse .notDiscretized) (allOfPiece c w) := by
  have stage : ∀ e : Failure, e = .misuse .notDiscretized → e.OfStage := fun e same => Or.inr ⟨_, same⟩
  have rows (elements : List Int) :
      Outcome.Avoids (· = .misuse .notDiscretized) (elements.mapM c.space.elementPoints) :=
    Outcome.avoids_mapM fun e _ => (elementPoints_avoids _ e).mono stage
  have numbered (place : Place) (entities : List Int) (rows : List (List Nat)) :
      Outcome.Avoids (· = .misuse .notDiscretized) (numberRows c.dofs place entities rows) := by
    unfold numberRows
    split
    · exact Outcome.avoids_throw nofun
    · refine Outcome.avoids_mapM fun ⟨entity, points⟩ _ => ?_
      dsimp only
      unfold numbers
      split
      · exact Outcome.avoids_ok _
      · exact Outcome.avoids_throw nofun
  refine Outcome.avoids_bind ?_ fun _ _ => Outcome.avoids_bind (Outcome.avoids_mapM fun r _ => ?_) fun _ _ =>
    Outcome.avoids_ok _
  · unfold ofPiece
    split
    · refine Outcome.avoids_bind (rows _) fun _ _ => Outcome.avoids_bind (numbered _ _ _) fun _ _ => ?_
      exact Outcome.avoids_bind (Tabulation.onVolumes_avoids.mono stage) fun _ _ => Outcome.avoids_ok _
    · exact Outcome.avoids_throw nofun
  · unfold ofRegion
    split
    · refine Outcome.avoids_bind (Outcome.avoids_mapM fun f _ => (ownerOf_avoids _ _ _ f).mono stage) fun _ _ => ?_
      refine Outcome.avoids_bind (rows _) fun _ _ => Outcome.avoids_bind (numbered _ _ _) fun _ _ => ?_
      exact Outcome.avoids_bind (Tabulation.onFacets_avoids.mono stage) fun _ _ => Outcome.avoids_ok _
    · exact Outcome.avoids_throw nofun

end Block

namespace Domain

variable {rules : Calculus Quantity} {lines : LineRules ℝ} {d d' : Domain ℝ} {family : String} {order : Number}
  {quadratureOrder : Option Int}

theorem stranded_iff : Stranded lines d ↔ d.HalfMade := by
  constructor
  · intro stranded
    cases present : d.discretization with
    | none =>
        have wrong := stranded.late none none
        unfold addPiece at wrong
        change (ite _ _ _ : Work ℝ WorkPiece).run.run d = _ at wrong
        rw [present, if_neg (by simp)] at wrong
        dsimp only at wrong
        split at wrong <;> cases wrong
    | some x =>
        refine ⟨x, present, ?_⟩
        cases numbered : x.numbered with
        | none => rfl
        | some n =>
            have early := stranded.early
            unfold Block.allOf at early
            rw [present] at early
            dsimp only at early
            rw [numbered] at early
            refine absurd rfl (Outcome.avoids_bind (Outcome.avoids_mapM fun w _ => Block.allOfPiece_begun w)
              (fun _ _ => Outcome.avoids_ok _) _ early)
  · rintro ⟨x, present, unnumbered⟩
    have some : d.discretization.isSome = true := by
      rw [present]
      rfl
    refine ⟨addPiece_present some, discretize_present some, ?_⟩
    unfold Block.allOf
    rw [present]
    dsimp only
    rw [unnumbered]
    rfl

/-! ### One discretization -/

theorem position?_eq_none {size : Nat} {i : Int} : position? size i = none ↔ i < -(size : Int) ∨ (size : Int) ≤ i := by
  unfold position?
  split
  · split
    · exact iff_of_false nofun (by omega)
    · exact iff_of_true rfl (by omega)
  · split
    · exact iff_of_false nofun (by omega)
    · exact iff_of_true rfl (by omega)

theorem lacks_iff : none ∈ d.numbers ↔
    ∃ w ∈ d.pieces, ∃ e ∈ w.elements, e < -(d.mesh.elements.size : Int) ∨ (d.mesh.elements.size : Int) ≤ e := by
  simp only [numbers, List.mem_flatMap, List.mem_map, position?_eq_none]

/-- Occupied points are as far as pieces come before one of them fails. -/
theorem occupyPieces_eq_error {space : ElementSpace ℝ} {pieces : List WorkPiece} {e : Failure} (half : d.HalfMade)
    (failed : (pieces.forM (occupyPiece space)).run.run d = (.error e, d')) :
    d'.HalfMade ∧ ∃ w ∈ pieces, pointsOf space w = .error e := by
  induction pieces generalizing d with
  | nil => cases failed
  | cons w rest ih =>
      rcases Outcome.run_bind_eq_error.mp failed with here | ⟨_, later, occupied, failed⟩
      · rcases Outcome.run_bind_eq_error.mp here with lifted | ⟨_, _, -, impossible⟩
        · obtain ⟨missing, rfl⟩ := Outcome.run_lift_eq_error.mp lifted
          exact ⟨half, w, List.mem_cons_self, missing⟩
        · cases impossible
      · obtain ⟨ids, rfl⟩ := occupyPiece_eq_ok occupied
        obtain ⟨x, present, unnumbered⟩ := half
        have half : HalfMade (modifyDiscretization (fun x => { x with points := x.points.occupy ids }) d) :=
          ⟨{ x with points := x.points.occupy ids }, congrArg (Option.map _) present, unnumbered⟩
        obtain ⟨still, v, member, missing⟩ := ih half failed
        exact ⟨still, v, List.mem_cons_of_mem w member, missing⟩

theorem pointsOf_eq_error {space : ElementSpace ℝ} {w : WorkPiece} {e : Failure} (failed : pointsOf space w = .error e) :
    e = .outOfRange := by
  obtain ⟨i, -, missing⟩ := Outcome.exists_of_mapM_eq_error failed
  unfold ElementSpace.elementPoints at missing
  split at missing
  · cases missing
  · cases missing
    rfl

/-- A discretization that fails has reached the points of the pieces, or has changed nothing. -/
theorem discretize_eq_error {e : Failure} (fresh : d.discretization = none)
    (failed : (discretize family order quadratureOrder : Work ℝ Unit).run.run d = (.error e, d')) :
    Strands d family order quadratureOrder ∧ e = .outOfRange ∧ d'.HalfMade ∨
      ¬Strands d family order quadratureOrder ∧ d' = d := by
  unfold discretize at failed
  change (ite _ _ _ : Work ℝ Unit).run.run d = _ at failed
  rw [if_neg (by simp [fresh])] at failed
  change (ite _ _ _ : Work ℝ Unit).run.run d = _ at failed
  split at failed
  · next none =>
      cases failed
      refine Or.inr ⟨fun strands => ?_, rfl⟩
      obtain ⟨w, member, -⟩ := strands.lacks
      exact List.ne_nil_of_mem member (List.isEmpty_iff.mp none)
  rcases Outcome.run_bind_eq_error.mp failed with lifted | ⟨⟨internal, external⟩, _, lifted, failed⟩
  · obtain ⟨unlaid, rfl⟩ := Outcome.run_lift_eq_error.mp lifted
    refine Or.inr ⟨fun strands => ?_, rfl⟩
    obtain ⟨layouts, laid⟩ := strands.layouts
    cases laid.symm.trans unlaid
  obtain ⟨laid, rfl⟩ := Outcome.run_lift_eq_ok.mp lifted
  rcases Outcome.run_bind_eq_error.mp failed with lifted | ⟨whole, _, lifted, failed⟩
  · obtain ⟨odd, rfl⟩ := Outcome.run_lift_eq_error.mp lifted
    refine Or.inr ⟨fun strands => ?_, rfl⟩
    obtain ⟨whole, _, ordered, -⟩ := strands.space
    cases ordered.symm.trans odd
  obtain ⟨ordered, rfl⟩ := Outcome.run_lift_eq_ok.mp lifted
  rcases Outcome.run_bind_eq_error.mp failed with lifted | ⟨space, _, lifted, failed⟩
  · obtain ⟨unmade, rfl⟩ := Outcome.run_lift_eq_error.mp lifted
    refine Or.inr ⟨fun strands => ?_, rfl⟩
    obtain ⟨whole', space, ordered', made⟩ := strands.space
    cases ordered.symm.trans ordered'
    cases made.symm.trans unmade
  obtain ⟨made, rfl⟩ := Outcome.run_lift_eq_ok.mp lifted
  rcases Outcome.run_bind_eq_error.mp failed with impossible | ⟨_, later, stored, failed⟩
  · cases impossible
  cases stored
  rcases Outcome.run_bind_eq_error.mp failed with failed | ⟨_, _, -, impossible⟩
  swap
  · cases impossible
  obtain ⟨half, w, member, missing⟩ := occupyPieces_eq_error ⟨_, rfl, rfl⟩ failed
  refine Or.inl ⟨⟨fresh, ⟨_, laid⟩, ⟨whole, space, ordered, made⟩, ?_⟩, pointsOf_eq_error missing, half⟩
  have size := (ElementSpace.make_shape made).2.1
  rw [← lacks_iff]
  by_contra all
  obtain ⟨rows, found⟩ := (pointsOf_isOk_iff size).mpr all
  obtain ⟨_, -, known⟩ := Outcome.exists_of_matched_left (Outcome.mapM_eq_ok.mp found) member
  cases known.symm.trans missing

theorem not_halfMade_of_ok
    (done : (discretize family order quadratureOrder : Work ℝ Unit).run.run d = (.ok (), d')) : ¬d'.HalfMade := by
  rintro ⟨x, present, unnumbered⟩
  obtain ⟨y, present', -, _, _, numbered⟩ := discretize_eq_ok done
  cases present.symm.trans present'
  cases unnumbered.symm.trans numbered

/-- Where a discretization meets an element that the mesh lacks, it fails. -/
theorem Strands.fails (strands : Strands d family order quadratureOrder) :
    ∃ d', (discretize family order quadratureOrder : Work ℝ Unit).run.run d = (.error .outOfRange, d') ∧ d'.HalfMade := by
  generalize run : (discretize family order quadratureOrder : Work ℝ Unit).run.run d = result
  rcases result with ⟨e | _, d'⟩
  · rcases discretize_eq_error strands.fresh run with ⟨-, rfl, half⟩ | ⟨without, -⟩
    · exact ⟨d', rfl, half⟩
    · exact absurd strands without
  · obtain ⟨-, -, _, _, _, space, rows, -, -, made, found, -⟩ := discretize_eq_ok_iff.mp run
    have all := (pointsOf_isOk_iff (ElementSpace.make_shape made).2.1).mp ⟨rows, found⟩
    exact absurd (lacks_iff.mpr strands.lacks) all

/-! ### Life cycles -/

/-- Only a discretization changes whether a domain is discretized. -/
theorem perform_discretization (rules : Calculus Quantity) (d : Domain ℝ) (op : Operation) :
    (d.perform rules op).2.discretization = d.discretization ∨
      ∃ family order quadratureOrder, op = .discretize family order quadratureOrder := by
  cases op with
  | addPiece name elements =>
      refine Or.inl ?_
      rw [perform_addPiece]
      have kept : Outcome.Preserves (fun now => now.discretization = d.discretization)
          (addPiece name elements : Work ℝ WorkPiece) := by
        refine Outcome.preserves_get fun now same => ?_
        dsimp only
        split
        · exact Outcome.preserves_throw _
        split
        · exact Outcome.preserves_throw _
        · exact Outcome.preserves_bind (Outcome.preserves_set same) fun _ => Outcome.preserves_pure _
      exact kept d rfl
  | addBoundary piece region facets =>
      refine Or.inl ?_
      change ((addBoundary piece region facets : Work ℝ Unit).run.run d).2.discretization = _
      unfold addBoundary
      rw [run_ask_bind]
      split
      · unfold WorkPiece.addRegion
        split <;> rfl
      · rfl
  | assignForm piece form => exact Or.inl rfl
  | assignBoundaryForm piece region form => exact Or.inl rfl
  | discretize family order quadratureOrder => exact Or.inr ⟨family, order, quadratureOrder, rfl⟩
  | compile backend => exact Or.inl (compile_kept backend d (Kept.refl d)).discretization

theorem halfMade_congr (same : d'.discretization = d.discretization) : d'.HalfMade ↔ d.HalfMade := by
  rw [HalfMade, HalfMade, same]

/-- Half-made domains come from half-made ones, or from a discretization that meets an element that the mesh lacks. -/
theorem halfMade_perform (rules : Calculus Quantity) (d : Domain ℝ) (op : Operation) :
    (d.perform rules op).2.HalfMade ↔ d.HalfMade ∨
      ∃ family order quadratureOrder, op = .discretize family order quadratureOrder ∧
        Strands d family order quadratureOrder := by
  rcases perform_discretization rules d op with same | ⟨family, order, quadratureOrder, rfl⟩
  · rw [halfMade_congr same]
    refine (or_iff_left_of_imp ?_).symm
    rintro ⟨family, order, quadratureOrder, rfl, strands⟩
    obtain ⟨d', run, half⟩ := strands.fails
    have reached : (d.perform rules (.discretize family order quadratureOrder)).2 = d' := congrArg Prod.snd run
    exact (halfMade_congr same).mp (reached ▸ half)
  · have named : (∃ f o q, Operation.discretize family order quadratureOrder = .discretize f o q ∧ Strands d f o q) ↔
        Strands d family order quadratureOrder := by
      constructor
      · rintro ⟨_, _, _, same, strands⟩
        cases same
        exact strands
      · exact fun strands => ⟨_, _, _, rfl, strands⟩
    rw [named]
    cases present : d.discretization with
    | some x =>
        have same : (d.perform rules (.discretize family order quadratureOrder)).2 = d :=
          discretize_again (by simp [present]) family order quadratureOrder
        rw [same]
        refine (or_iff_left_of_imp fun strands => ?_).symm
        cases strands.fresh.symm.trans present
    | none =>
        have whole : ¬d.HalfMade := by
          rintro ⟨x, impossible, -⟩
          cases present.symm.trans impossible
        rw [or_iff_right whole]
        generalize run : d.perform rules (.discretize family order quadratureOrder) = result
        rcases result with ⟨e | _, d'⟩
        · rcases discretize_eq_error present run with ⟨strands, -, half⟩ | ⟨without, rfl⟩
          · exact iff_of_true half strands
          · exact iff_of_false whole without
        · refine iff_of_false (not_halfMade_of_ok run) fun strands => ?_
          obtain ⟨_, failed, -⟩ := strands.fails
          cases failed.symm.trans run

/-- A life cycle ends half-made exactly when one of its discretizations met an element that the mesh lacks. -/
theorem halfMade_after (rules : Calculus Quantity) (d : Domain ℝ) (ops : List Operation) :
    (d.after rules ops).HalfMade ↔ d.HalfMade ∨
      ∃ before family order quadratureOrder later,
        ops = before ++ .discretize family order quadratureOrder :: later ∧
          Strands (d.after rules before) family order quadratureOrder := by
  induction ops generalizing d with
  | nil =>
      refine (or_iff_left_of_imp ?_).symm
      rintro ⟨before, _, _, _, later, impossible, -⟩
      cases before <;> cases impossible
  | cons op ops ih =>
      rw [after_cons, ih, halfMade_perform, or_assoc]
      refine or_congr_right ⟨?_, ?_⟩
      · rintro (⟨family, order, quadratureOrder, rfl, strands⟩ | ⟨before, family, order, quadratureOrder, later, rfl, strands⟩)
        · exact ⟨[], family, order, quadratureOrder, ops, rfl, strands⟩
        · exact ⟨op :: before, family, order, quadratureOrder, later, rfl, strands⟩
      · rintro ⟨before, family, order, quadratureOrder, later, same, strands⟩
        cases before with
        | nil =>
            cases same
            exact Or.inl ⟨family, order, quadratureOrder, rfl, strands⟩
        | cons first before =>
            cases same
            exact Or.inr ⟨before, family, order, quadratureOrder, later, rfl, strands⟩

/-- A discretization that fails leaves a domain as it was, and open for pieces and for another one, unless it meets an
element that the mesh lacks; after that the domain is stranded. Domains are stranded in no other way. -/
theorem discretize_undone_or_stranded (rules : Calculus Quantity) (lines : LineRules ℝ) :
    (∀ (d d' : Domain ℝ) (family : String) (order : Number) (quadratureOrder : Option Int) (e : Failure),
      d.discretization = none →
      (discretize family order quadratureOrder : Work ℝ Unit).run.run d = (.error e, d') →
      Strands d family order quadratureOrder ∧ e = .outOfRange ∧ Stranded lines d' ∨
        ¬Strands d family order quadratureOrder ∧ d' = d) ∧
    ∀ (mesh : Mesh ℝ) (ops : List Operation),
      Stranded lines ((ofMesh mesh).after rules ops) ↔
        ∃ before family order quadratureOrder later,
          ops = before ++ .discretize family order quadratureOrder :: later ∧
            Strands ((ofMesh mesh).after rules before) family order quadratureOrder := by
  constructor
  · intro d d' family order quadratureOrder e fresh failed
    rw [stranded_iff]
    exact discretize_eq_error fresh failed
  · intro mesh ops
    have whole : ¬(ofMesh mesh).HalfMade := by
      rintro ⟨x, impossible, -⟩
      cases impossible
    rw [stranded_iff, halfMade_after, or_iff_right whole]

section Outlier

open Kernel (line)
open Simulation (segment make_segment midpointRules)

/-- A segment with a piece of which the only element is the sixth of the mesh. -/
def outlying : List Operation := [.addPiece (some "p") (some [5]), .assignForm "p" conduction]

theorem strands_outlying :
    Strands ((ofMesh segment).after .textbook outlying) "lagrange" (.int 1) none := by
  have reached : (ofMesh segment).after .textbook outlying = ⟨segment, [⟨"p", [5], some conduction, none, []⟩], [], none⟩ := by
    rfl
  rw [reached]
  refine ⟨rfl, ⟨(line.internal, line.external), ?_⟩, ⟨1, _, rfl, make_segment⟩, ?_⟩
  · cbv
  · exact ⟨_, List.mem_singleton_self _, 5, List.mem_singleton_self _, Or.inr (by decide)⟩

theorem discretize_undone_or_stranded_outlying :
    (∃ d', (discretize "lagrange" (.int 1) none : Work ℝ Unit).run.run ((ofMesh segment).after .textbook outlying) =
      (.error .outOfRange, d') ∧ Stranded midpointRules d') ∧
    Stranded midpointRules
      ((ofMesh segment).after .textbook (outlying ++ [.discretize "lagrange" (.int 1) none])) := by
  obtain ⟨each, cycle⟩ := discretize_undone_or_stranded .textbook midpointRules
  obtain ⟨d', failed, -⟩ := strands_outlying.fails
  refine ⟨⟨d', failed, ?_⟩, (cycle segment _).mpr ⟨outlying, "lagrange", .int 1, none, [], rfl, strands_outlying⟩⟩
  rcases each _ d' _ _ _ _ strands_outlying.fresh failed with ⟨-, -, stranded⟩ | ⟨without, -⟩
  · exact stranded
  · exact absurd strands_outlying without

/-- A discretization that fails leaves control points behind, and a domain that takes no pieces, is not discretized
again and has no blocks. -/
theorem discretize_not_undone : ∃ d', (discretize "lagrange" (.int 1) none : Work ℝ Unit).run.run
    ((ofMesh segment).after .textbook outlying) = (.error .outOfRange, d') ∧ d'.discretization ≠ none ∧
      Stranded midpointRules d' := by
  obtain ⟨d', failed, half⟩ := strands_outlying.fails
  refine ⟨d', failed, ?_, stranded_iff.mpr half⟩
  obtain ⟨x, present, -⟩ := half
  simp [present]

end Outlier

end Domain

end Galerkin
