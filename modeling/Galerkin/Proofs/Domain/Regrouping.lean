import Mathlib
import Galerkin.Proofs.Domain.Rearrangement

/-!
Two ways to have the same tasks: the elements of the mesh come in another order, or the elements and facets of a work
piece are divided among several pieces and regions with the same forms.
-/

namespace Galerkin

namespace WorkPiece

variable {m m' : Mesh ℝ} {w w' : WorkPiece} {τ : Equiv.Perm Nat}

/-! ### Elements in another order -/

/-- A region of the same facets, told by their sorted corners. -/
structure SameRegion (m m' : Mesh ℝ) (r r' : Region) : Prop where
  name : r'.name = r.name
  form : r'.form = r.form
  facets : (r'.facets.map m'.facetKey?).Perm (r.facets.map m.facetKey?)

/-- A work piece of the same elements and facets in a mesh with its elements in another order. -/
structure Permuted (τ : Equiv.Perm Nat) (m m' : Mesh ℝ) (w w' : WorkPiece) : Prop where
  name : w'.name = w.name
  form : w'.form = w.form
  elements : w'.elements.Perm (w.elements.map (Mesh.relabel τ m.elements.size))
  regions : List.Forall₂ (SameRegion m m') w.regions w'.regions

/-- Does the first owner still come first, for all facets that forms act on? -/
def KeepsOwners (τ : Equiv.Perm Nat) (m : Mesh ℝ) (w : WorkPiece) : Prop :=
  ∀ r ∈ w.regions, r.form.isSome = true → ∀ f ∈ r.facets, w.KeepsOwner τ m f

theorem Permuted.numbers (permuted : Permuted τ m m' w w') (mesh : m.Permuted τ m') :
    (w'.elements.map (position? m'.elements.size)).Perm
      ((w.elements.map (position? m.elements.size)).map (Option.map τ)) := by
  refine (permuted.elements.map _).trans (List.Perm.of_eq ?_)
  rw [List.map_map, List.map_map, mesh.size]
  exact List.map_congr_left fun e _ => mesh.position?_relabel e

/-- The place of the facet with given sorted corners in the element of a piece that owns it. -/
def placeOf (m : Mesh ℝ) (w : WorkPiece) (k : Option (List Nat)) : Option (Nat × Option Nat) :=
  (w.ownersOf m k).head?.map fun o => (o.1, some o.2)

theorem regionPlaces_eq (formed : m.Formed) (w : WorkPiece) (r : Region) :
    w.regionPlaces m r = (r.facets.map m.facetKey?).map (w.placeOf m) := by
  rw [regionPlaces, List.map_map]
  refine List.map_congr_left fun f _ => ?_
  rw [owner?_eq_head?, owners_eq_ownersOf formed]
  rfl

theorem Permuted.regionPlaces (permuted : Permuted τ m m' w w') (mesh : m.Permuted τ m') (formed : m.Formed)
    (formed' : m'.Formed) {r r' : Region} (same : SameRegion m m' r r') (keeps : ∀ f ∈ r.facets, w.KeepsOwner τ m f) :
    (w'.regionPlaces m' r').Perm ((w.regionPlaces m r).map (Option.map (Prod.map τ id))) := by
  rw [regionPlaces_eq formed, regionPlaces_eq formed']
  refine (same.facets.map _).trans (List.Perm.of_eq ?_)
  rw [List.map_map, List.map_map, List.map_map]
  refine List.map_congr_left fun f member => ?_
  have kept := keeps f member
  rw [KeepsOwner, owner?_eq_head?, owners_eq_ownersOf formed] at kept
  simp only [Function.comp_apply, placeOf, head?_ownersOf_permuted mesh permuted.elements kept, Option.map_map]
  rfl

theorem Permuted.tasks (permuted : Permuted τ m m' w w') (mesh : m.Permuted τ m') (formed : m.Formed)
    (formed' : m'.Formed) (keeps : w.KeepsOwners τ m) :
    (w'.tasks m').Perm ((w.tasks m).map (Task.relabel τ)) := by
  have inside : ((w'.insidePlaces m'.elements.size).map (Task.mk w'.form)).Perm
      (((w.insidePlaces m.elements.size).map (Task.mk w.form)).map (Task.relabel τ)) := by
    have places := ((permuted.numbers mesh).map fun o => o.map fun k => (k, (none : Option Nat))).map (Task.mk w'.form)
    rw [permuted.form] at places ⊢
    simpa [insidePlaces, Task.relabel, Function.comp_def, Option.map_map] using places
  have outside : ((w'.regions.filter (·.form.isSome)).flatMap fun r => (w'.regionPlaces m' r).map (Task.mk r.form)).Perm
      (((w.regions.filter (·.form.isSome)).flatMap fun r => (w.regionPlaces m r).map (Task.mk r.form)).map
        (Task.relabel τ)) := by
    rw [List.map_flatMap]
    have known := (List.forall₂_and_left _ _).mpr ⟨fun _ member => member, permuted.regions⟩
    have formed_iff : ∀ r r', r ∈ w.regions ∧ SameRegion m m' r r' → r.form.isSome = r'.form.isSome :=
      fun r r' own => congrArg Option.isSome own.2.form.symm
    refine Outcome.flatMap_perm ((Outcome.matched_filter known formed_iff).imp fun r r' own => ?_)
    obtain ⟨⟨member, same⟩, isSome⟩ := own
    have places := (permuted.regionPlaces mesh formed formed' same (keeps r member isSome)).map (Task.mk r'.form)
    rw [same.form] at places ⊢
    simpa [Task.relabel, Function.comp_def] using places
  rw [WorkPiece.tasks, WorkPiece.tasks, List.map_append]
  exact inside.append outside

/-! ### Pieces divided -/

/-- The facets of all regions of a work piece, each with the form that acts on it. -/
def facetForms (w : WorkPiece) : List (Int × Option Expr) := w.regions.flatMap fun r => r.facets.map (·, r.form)

/-- A work piece divided into several with the same form: each element goes to one of them, and so does each facet with
the form that acts on it. A facet on the boundary of the mesh goes to the piece that owns its element; others only change
their region. -/
structure Divided (m : Mesh ℝ) (w : WorkPiece) (parts : List WorkPiece) : Prop where
  form : ∀ v ∈ parts, v.form = w.form
  elements : (parts.flatMap (·.elements)).Perm w.elements
  facets : (parts.flatMap (·.facetForms)).Perm w.facetForms
  owned : ∀ v ∈ parts, ∀ r ∈ v.regions, r.form.isSome = true → ∀ f ∈ r.facets,
    (∃ F, m.facet? f = some F ∧ F.isBoundary = true ∧ v.owners m f ≠ []) ∨ ∀ e, e ∈ v.elements ↔ e ∈ w.elements

variable {v : WorkPiece} {parts : List WorkPiece}

theorem owners_of_boundary {f : Int} {F : Facet} (found : m.facet? f = some F) (boundary : F.isBoundary = true)
    (within : ∀ e ∈ v.elements, e ∈ w.elements) (some : v.owners m f ≠ []) : v.owners m f = w.owners m f := by
  obtain ⟨o, owners⟩ := List.length_eq_one_iff.mp (of_decide_eq_true boundary)
  unfold WorkPiece.owners at some ⊢
  rw [found] at some ⊢
  dsimp only [Option.elim] at some ⊢
  rw [owners, List.filter_singleton] at some
  have here : v.elements.contains (Int.ofNat o.1) = true := by
    by_contra absent
    rw [Bool.not_eq_true] at absent
    rw [absent] at some
    exact some rfl
  have there := List.contains_iff_mem.mpr (within _ (List.contains_iff_mem.mp here))
  rw [owners, List.filter_singleton, List.filter_singleton, here, there]

theorem owners_congr (elements : ∀ e, e ∈ v.elements ↔ e ∈ w.elements) (f : Int) : v.owners m f = w.owners m f := by
  refine List.filter_congr fun o _ => ?_
  rw [Bool.eq_iff_iff, List.contains_iff_mem, List.contains_iff_mem, elements]

theorem mem_facetForms {t : Int × Option Expr} : t ∈ v.facetForms ↔ ∃ r ∈ v.regions, t.2 = r.form ∧ t.1 ∈ r.facets := by
  rw [facetForms, List.mem_flatMap]
  constructor
  · rintro ⟨r, region, member⟩
    obtain ⟨f, facet, rfl⟩ := List.mem_map.mp member
    exact ⟨r, region, rfl, facet⟩
  · rintro ⟨r, region, form, facet⟩
    exact ⟨r, region, List.mem_map.mpr ⟨t.1, facet, by rw [← form]⟩⟩

/-- The task on a facet of a work piece. -/
def facetTask (m : Mesh ℝ) (w : WorkPiece) (t : Int × Option Expr) : Task :=
  ⟨t.2, (w.owner? m t.1).map fun o => (o.1, some o.2)⟩

theorem tasks_eq (m : Mesh ℝ) (w : WorkPiece) : w.tasks m =
    (w.insidePlaces m.elements.size).map (Task.mk w.form) ++
      (w.facetForms.filter (·.2.isSome)).map (w.facetTask m) := by
  have regions (rs : List Region) : ((rs.filter (·.form.isSome)).flatMap fun r =>
      (w.regionPlaces m r).map (Task.mk r.form)) =
      ((rs.flatMap fun r => r.facets.map (·, r.form)).filter (·.2.isSome)).map (w.facetTask m) := by
    induction rs with
    | nil => rfl
    | cons r rest ih =>
        rw [List.flatMap_cons, List.filter_append, List.map_append, ← ih, List.filter_cons]
        have kept : (r.facets.map (·, r.form)).filter (·.2.isSome) =
            if r.form.isSome then r.facets.map (·, r.form) else [] := by
          rw [List.filter_map]
          cases r.form <;> simp [Function.comp_def]
        rw [kept]
        split
        · rw [List.flatMap_cons, WorkPiece.regionPlaces, List.map_map, List.map_map]
          rfl
        · rfl
  rw [WorkPiece.tasks, regions]
  rfl

theorem Divided.numbers (divided : Divided m w parts) :
    (parts.flatMap fun v => v.elements.map (position? m.elements.size)).Perm
      (w.elements.map (position? m.elements.size)) := by
  rw [← List.map_flatMap]
  exact divided.elements.map _

theorem Divided.tasks (divided : Divided m w parts) : (parts.flatMap (·.tasks m)).Perm (w.tasks m) := by
  have within : ∀ v ∈ parts, ∀ e ∈ v.elements, e ∈ w.elements := fun v member e inside =>
    divided.elements.mem_iff.mp (List.mem_flatMap.mpr ⟨v, member, inside⟩)
  have inside : (parts.flatMap fun v => (v.insidePlaces m.elements.size).map (Task.mk v.form)).Perm
      ((w.insidePlaces m.elements.size).map (Task.mk w.form)) := by
    have places := (divided.elements.map fun e => (position? m.elements.size e).map (·, (none : Option Nat))).map
      (Task.mk w.form)
    rw [List.map_flatMap, List.map_flatMap] at places
    refine (List.Perm.of_eq (List.flatMap_congr fun v member => ?_)).trans places
    rw [divided.form v member]
    rfl
  have owner : ∀ v ∈ parts, ∀ t ∈ v.facetForms, t.2.isSome = true → v.facetTask m t = w.facetTask m t := by
    intro v member t listed isSome
    obtain ⟨r, region, form, facet⟩ := mem_facetForms.mp listed
    have owners : v.owners m t.1 = w.owners m t.1 := by
      rcases divided.owned v member r region (form ▸ isSome) t.1 facet with ⟨F, found, boundary, some⟩ | same
      · exact owners_of_boundary found boundary (within v member) some
      · exact owners_congr same t.1
    rw [facetTask, facetTask, owner?_eq_head?, owner?_eq_head?, owners]
  have outside : (parts.flatMap fun v => (v.facetForms.filter (·.2.isSome)).map (v.facetTask m)).Perm
      ((w.facetForms.filter (·.2.isSome)).map (w.facetTask m)) := by
    have facets := (divided.facets.filter (·.2.isSome)).map (w.facetTask m)
    rw [List.filter_flatMap, List.map_flatMap] at facets
    refine (List.Perm.of_eq (List.flatMap_congr fun v member => List.map_congr_left fun t listed => ?_)).trans facets
    obtain ⟨listed, isSome⟩ := List.mem_filter.mp listed
    exact owner v member t listed isSome
  simp only [tasks_eq]
  exact (List.flatMap_append_perm ..).symm.trans (inside.append outside)

end WorkPiece

namespace Domain

/-- What the pieces of all groups make together, when each group makes what one piece does. -/
theorem flatMap_groups {β : Type} {f : WorkPiece → List β} {pieces others : List WorkPiece}
    {groups : List (List WorkPiece)} (perm : others.Perm groups.flatten)
    (each : List.Forall₂ (fun w parts => (parts.flatMap f).Perm (f w)) pieces groups) :
    (others.flatMap f).Perm (pieces.flatMap f) := by
  refine (perm.flatMap_right f).trans ?_
  rw [← List.flatMap_id, List.flatMap_assoc]
  exact Outcome.flatMap_perm each

namespace Stages

variable {τ : Equiv.Perm Nat} {s s' : Stages}

/-- The same domain on a mesh with its elements in another order. -/
structure Permuted (τ : Equiv.Perm Nat) (s s' : Stages) : Prop where
  mesh : s.start.mesh.Permuted τ s'.start.mesh
  formed : s'.start.mesh.Formed
  fresh : s'.start.discretization = none
  forms : ∀ form, form ∈ s'.start.forms ↔ form ∈ s.start.forms
  pieces : List.Forall₂ (WorkPiece.Permuted τ s.start.mesh s'.start.mesh) s.final.pieces s'.final.pieces

/-- A domain with its work pieces divided. -/
structure Divided (s s' : Stages) : Prop where
  mesh : s'.start.mesh = s.start.mesh
  fresh : s'.start.discretization = none
  forms : ∀ form, form ∈ s'.start.forms ↔ form ∈ s.start.forms
  named : s'.final.WellNamed
  filled : Preparation.Filled s'.final
  pieces : ∃ groups, List.Forall₂ (WorkPiece.Divided s.start.mesh) s.final.pieces groups ∧
    s'.final.pieces.Perm groups.flatten

/-- Does the first owner of each facet that a form acts on still come first? -/
def KeepsOwners (τ : Equiv.Perm Nat) (s : Stages) : Prop := ∀ w ∈ s.final.pieces, w.KeepsOwners τ s.start.mesh

theorem Permuted.wellNamed (permuted : Permuted τ s s') (named : s.final.WellNamed) : s'.final.WellNamed where
  pieces := by
    rw [Outcome.map_eq_of_matched (permuted.pieces.imp fun w w' same => same.name)]
    exact named.pieces
  regions := by
    intro w' member
    obtain ⟨w, piece, same⟩ := Outcome.exists_of_matched permuted.pieces member
    rw [Outcome.map_eq_of_matched (same.regions.imp fun r r' same => same.name)]
    exact named.regions w piece

theorem Permuted.filled (permuted : Permuted τ s s') (filled : Preparation.Filled s.final) :
    Preparation.Filled s'.final := by
  intro w' member
  obtain ⟨w, piece, same⟩ := Outcome.exists_of_matched permuted.pieces member
  obtain ⟨elements, regions⟩ := filled w piece
  refine ⟨fun none => elements ?_, fun r' inner formed none => ?_⟩
  · have lengths := same.elements.length_eq
    rw [none, List.length_map] at lengths
    exact List.length_eq_zero_iff.mp lengths.symm
  · obtain ⟨r, region, equal⟩ := Outcome.exists_of_matched same.regions inner
    have lengths := equal.facets.length_eq
    rw [none, List.length_map, List.length_map] at lengths
    exact regions r region (equal.form ▸ formed) (List.length_eq_zero_iff.mp lengths.symm)

theorem Permuted.reordered (permuted : Permuted τ s s') : Reordered τ s s' where
  mesh := permuted.mesh
  formed := permuted.formed
  fresh := permuted.fresh
  forms := permuted.forms
  numbers := fun o => by
    rw [Domain.numbers, Domain.numbers, s.mesh, s'.mesh, List.map_flatMap]
    exact (Outcome.flatMap_perm (permuted.pieces.imp fun w w' same => same.numbers permuted.mesh)).mem_iff

theorem Permuted.rearranged (permuted : Permuted τ s s') (named : s.final.WellNamed)
    (filled : Preparation.Filled s.final) (formed : s.start.mesh.Formed) (keeps : s.KeepsOwners τ) :
    Rearranged τ s s' where
  toReordered := permuted.reordered
  named := permuted.wellNamed named
  filled := permuted.filled filled
  tasks := by
    rw [Domain.tasks, Domain.tasks, s.mesh, s'.mesh, List.map_flatMap]
    have known := (List.forall₂_and_left _ _).mpr ⟨fun _ member => member, permuted.pieces⟩
    exact Outcome.flatMap_perm (known.imp fun w w' own =>
      own.2.tasks permuted.mesh formed permuted.formed (keeps w own.1))

theorem Divided.reordered (divided : Divided s s') (formed : s.start.mesh.Formed) : Reordered (Equiv.refl Nat) s s' where
  mesh := ⟨by rw [divided.mesh], by rw [divided.mesh], fun e => by rw [divided.mesh]; rfl⟩
  formed := divided.mesh ▸ formed
  fresh := divided.fresh
  forms := divided.forms
  numbers := fun o => by
    obtain ⟨groups, each, perm⟩ := divided.pieces
    have numbers : s'.final.numbers.Perm s.final.numbers := by
      rw [Domain.numbers, Domain.numbers, s.mesh, s'.mesh, divided.mesh]
      exact flatMap_groups perm (each.imp fun w parts own => own.numbers)
    simp [numbers.mem_iff]

theorem Divided.rearranged (divided : Divided s s') (formed : s.start.mesh.Formed) :
    Rearranged (Equiv.refl Nat) s s' where
  toReordered := divided.reordered formed
  named := divided.named
  filled := divided.filled
  tasks := by
    obtain ⟨groups, each, perm⟩ := divided.pieces
    have relabel : ∀ t : Task, t.relabel (Equiv.refl Nat) = t := fun t => by simp [Task.relabel]
    rw [List.map_congr_left fun t _ => relabel t, List.map_id', Domain.tasks, Domain.tasks, s.mesh, s'.mesh, divided.mesh]
    exact flatMap_groups perm (each.imp fun w parts own => own.tasks)

variable {P : Preparation} {x : Discretization ℝ} {dofs : DofMap} {blocks : List (Block ℝ)}

/-- A domain whose pieces were divided is discretized as it was before. -/
theorem Divided.discretized (divided : Divided s s') (filled : Preparation.Filled s.final) (formed : s.start.mesh.Formed)
    (discretized : P.Discretized s.start x) : P.Discretized s'.start x := by
  have rearranged := divided.rearranged formed
  obtain ⟨internal, external, whole, rows, layouts, order, made, found, same⟩ := discretized.parts
  have size := (ElementSpace.make_shape made).2.1
  have size' : x.space.controlPoints.size = s'.start.mesh.elements.size := by rw [divided.mesh, size]
  obtain ⟨rows', found'⟩ := rearranged.pointsOf_isOk size size' found
  have numbers (o : Option Nat) : o ∈ s'.start.numbers ↔ o ∈ s.start.numbers := by
    rw [← s'.numbers, ← s.numbers, rearranged.numbers]
    simp
  refine ⟨divided.fresh, rearranged.pieces filled discretized.pieces, internal, external, whole, rows',
    layouts_congr (by rw [divided.mesh]) divided.forms layouts, by rw [divided.mesh]; exact order,
    by rw [divided.mesh]; exact made, found', ?_⟩
  rw [divided.mesh]
  refine same.trans (numberedSpace_congr fun p => ?_).symm
  rw [mem_points size' found', mem_points size found]
  simp only [numbers]

/-- A domain whose pieces were divided has blocks when it had blocks before. -/
theorem Divided.yields (divided : Divided s s') (named : s.final.WellNamed) (formed : s.start.mesh.Formed)
    (yields : P.Yields s x dofs blocks) : ∃ blocks', P.Yields s' x dofs blocks' := by
  obtain ⟨discretized, rfl, -⟩ := (Preparation.yields_iff named).mp yields
  obtain ⟨jobss, -, become⟩ := yields.jobs named
  obtain ⟨b, known⟩ := yields.backend named
  obtain ⟨jobs, become', -⟩ :=
    (Block.Context.Renumbered.refl (P.context x (Preparation.dofsOf x))).jobs become (divided.rearranged formed).tasks
  exact Preparation.yields_of_jobs divided.named (divided.discretized (yields.filled named) formed discretized)
    divided.filled known become'

end Stages

end Domain

end Galerkin
