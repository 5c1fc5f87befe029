import Mathlib
import Galerkin.Proofs.Assembly.Jobs
import Galerkin.Proofs.DofMap
import Galerkin.Proofs.ElementSpace.Renumbering

/-!
The same tasks under other numbers: of the elements, of the control points and of the unknowns. What they contribute is
the same at the new numbers, and so is the assembled system.
-/

namespace Galerkin

open Linear

variable {τ : Equiv.Perm Nat} {σ ρ : Nat → Nat} {rules : Calculus Quantity} {s : Setting}

/-- The same place in a mesh whose elements have other numbers. -/
def Task.relabel (τ : Equiv.Perm Nat) (t : Task) : Task := { t with place := t.place.map (Prod.map τ id) }

def Part.renumber (σ ρ : Nat → Nat) (p : Part) : Part := { p with points := p.points.map σ, dofs := p.dofs.map ρ }

def Job.renumber (σ ρ : Nat → Nat) (j : Job) : Job := { j with part := j.part.renumber σ ρ }

namespace Block.Context

/-- Contexts that hold the same at elements, control points and unknowns of other numbers. -/
structure Renumbered (τ : Equiv.Perm Nat) (σ ρ : Nat → Nat) (c c' : Context ℝ) : Prop where
  lines : c'.lines = c.lines
  cell : c'.space.mesh.cell = c.space.mesh.cell
  element : c'.space.element = c.space.element
  quadratureOrder : c'.space.quadratureOrder = c.space.quadratureOrder
  points : ∀ e : Nat, c'.space.controlPoints[τ e]? = (c.space.controlPoints[e]?).map (List.map σ)
  positions : ∀ (e : Nat) (points : List Nat), c.space.controlPoints[e]? = some points → ∀ p ∈ points,
    c'.space.positions.getD (σ p) [] = c.space.positions.getD p []
  rows : ∀ (e : Nat) (points : List Nat), c.space.controlPoints[e]? = some points → ∀ p ∈ points,
    c'.dofs.row (σ p) = (c.dofs.row p).map (Option.map ρ)

variable {c c' : Context ℝ} {place : Nat × Option Nat} {p : Part}

theorem Renumbered.refl (c : Context ℝ) : Renumbered (Equiv.refl Nat) id id c c where
  lines := rfl
  cell := rfl
  element := rfl
  quadratureOrder := rfl
  points := fun e => by simp
  positions := fun _ _ _ _ _ => rfl
  rows := fun _ _ _ _ _ => by simp

theorem Renumbered.holds (renumbered : Renumbered τ σ ρ c c') (holds : c.Holds place p) :
    c'.Holds (Prod.map τ id place) (p.renumber σ ρ) where
  points := by
    rw [Prod.map_fst, renumbered.points, holds.points]
    rfl
  dofs := by
    have rows : c'.dofs.elementDofs (p.points.map σ) = (c.dofs.elementDofs p.points).map (Option.map ρ) := by
      rw [DofMap.elementDofs, DofMap.elementDofs, List.flatMap_map, List.map_flatMap]
      exact List.flatMap_congr fun q member => renumbered.rows place.1 p.points holds.points q member
    rw [Part.renumber, rows, holds.dofs, List.map_map, List.map_map]
    rfl
  data := by
    have net : ((p.points.map σ).map fun q => c'.space.positions.getD q []) =
        p.points.map fun q => c.space.positions.getD q [] := by
      rw [List.map_map]
      exact List.map_congr_left fun q member => renumbered.positions place.1 p.points holds.points q member
    have same : c'.dataOf place.2 (p.points.map σ) = c.dataOf place.2 p.points := by
      unfold dataOf
      rw [net, renumbered.lines, renumbered.element, renumbered.quadratureOrder, Mesh.dim, Mesh.dim, renumbered.cell]
    exact same.trans holds.data

theorem Renumbered.becomes (renumbered : Renumbered τ σ ρ c c') {t : Task} {j : Job} (become : t.Becomes rules s c j) :
    (t.relabel τ).Becomes rules s c' (j.renumber σ ρ) := by
  obtain ⟨form, there, formed, placed, made, holds⟩ := become
  refine ⟨form, Prod.map τ id there, formed, ?_, made, renumbered.holds holds⟩
  rw [Task.relabel, placed]
  rfl

/-- The same tasks in another order and under other numbers come to the same jobs. -/
theorem Renumbered.jobs (renumbered : Renumbered τ σ ρ c c') {tasks others : List Task} {jobs : List Job}
    (become : List.Forall₂ (Task.Becomes rules s c) tasks jobs) (same : others.Perm (tasks.map (Task.relabel τ))) :
    ∃ jobs', List.Forall₂ (Task.Becomes rules s c') others jobs' ∧ jobs'.Perm (jobs.map (Job.renumber σ ρ)) := by
  have mapped : List.Forall₂ (Task.Becomes rules s c') (tasks.map (Task.relabel τ)) (jobs.map (Job.renumber σ ρ)) :=
    List.forall₂_map_left_iff.mpr (List.forall₂_map_right_iff.mpr (become.imp fun _ _ => renumbered.becomes))
  obtain ⟨jobs', matched, perm⟩ := List.perm_comp_forall₂ same mapped
  exact ⟨jobs', matched, perm⟩

end Block.Context

/-! ### Systems -/

/-- Two states with the same entries at the `n` unknowns and the `count` control points, under other numbers. -/
structure AssemblyState.Renumbered (σ ρ : Nat → Nat) (count n : Nat) (s s' : AssemblyState ℝ) : Prop where
  parameters : s'.parameters = s.parameters
  rateWeight : s'.rateWeight = s.rateWeight
  x : ∀ i < n, s'.x.getD (ρ i) 0 = s.x.getD i 0
  rate : ∀ i < n, s'.rate.getD (ρ i) 0 = s.rate.getD i 0
  prescribed : ∀ p < count, s'.prescribed.getD (σ p) [] = s.prescribed.getD p []

variable {count n : Nat} {state state' : AssemblyState ℝ}

theorem AssemblyState.renumbered_refl (count n : Nat) (state : AssemblyState ℝ) :
    state.Renumbered id id count n state :=
  ⟨rfl, rfl, fun _ _ => rfl, fun _ _ => rfl, fun _ _ => rfl⟩

theorem toArray_getD (x : Vec ℝ) (i : Nat) : x.toArray.getD i 0 = x.getD i 0 := by
  rw [Array.getD_eq_getD_getElem?, List.getElem?_toArray, List.getD_eq_getElem?_getD]

/-- Does a job work on some of `count` control points and `n` unknowns only? -/
structure Job.Within (count n : Nat) (j : Job) : Prop where
  points : ∀ p ∈ j.part.points, p < count
  dofs : ∀ i ∈ j.part.dofs, i < n

namespace Job

variable {j : Job}

theorem Within.gather (within : j.Within count n) {x x' : Vec ℝ} (same : ∀ i < n, x'.getD (ρ i) 0 = x.getD i 0)
    (width : Nat) : (j.part.renumber σ ρ).gather width x' = j.part.gather width x := by
  have entries : ((j.part.dofs.map ρ).map fun i => x'.toArray.getD i 0) =
      j.part.dofs.map fun i => x.toArray.getD i 0 := by
    rw [List.map_map]
    refine List.map_congr_left fun i member => ?_
    rw [Function.comp_apply, toArray_getD, toArray_getD, same i (within.dofs i member)]
  simp only [Part.gather, Part.renumber, entries, List.length_map]

theorem Within.prescribed (within : j.Within count n) (same : state.Renumbered σ ρ count n state') {p : Nat}
    (member : p ∈ j.part.points) : state'.prescribed.getD (σ p) [] = state.prescribed.getD p [] :=
  same.prescribed p (within.points p member)

theorem Within.gatherPrescribed (within : j.Within count n) (same : state.Renumbered σ ρ count n state') (width : Nat) :
    (j.part.renumber σ ρ).gatherPrescribed width state'.prescribed =
      j.part.gatherPrescribed width state.prescribed := by
  have rows : (j.part.points.map σ).flatMap (fun q => state'.prescribed.getD q []) =
      j.part.points.flatMap fun q => state.prescribed.getD q [] := by
    rw [List.flatMap_map]
    exact List.flatMap_congr fun p => within.prescribed same
  simp only [Part.gatherPrescribed, Part.renumber, rows, List.length_map]

/-- What a job computes does not depend on the numbers. -/
theorem Within.system (within : j.Within count n) (same : state.Renumbered σ ρ count n state') :
    (j.part.renumber σ ρ).system j.kernel state' = j.part.system j.kernel state := by
  have inputs (params : List ℝ) : (j.part.renumber σ ρ).inputs j.kernel state' params =
      j.part.inputs j.kernel state params := by
    rw [Part.inputs, Part.inputs, within.gather same.x, within.gather same.rate, within.gatherPrescribed same]
  have size : (j.part.renumber σ ρ).points.length = j.part.points.length := List.length_map ..
  rw [Part.system, Part.system, size, same.parameters, same.rateWeight]
  simp only [inputs]
  rfl

theorem Within.contributes (within : j.Within count n) (same : state.Renumbered σ ρ count n state')
    {c : Contribution ℝ} (contributes : j.Contributes state c) :
    (j.renumber σ ρ).Contributes state' (c.renumber ρ) :=
  ⟨(within.system same).trans contributes.1, congrArg (List.map ρ) contributes.2⟩

theorem Within.exists_contributes (within : j.Within count n) (same : state.Renumbered σ ρ count n state')
    {c : Contribution ℝ} (contributes : (j.renumber σ ρ).Contributes state' c) : ∃ c, j.Contributes state c :=
  ⟨⟨j.part.dofs, c.system⟩, (within.system same).symm.trans contributes.1, rfl⟩

theorem Within.fed (within : j.Within count n) (same : state.Renumbered σ ρ count n state') (fed : j.Fed state) :
    (j.renumber σ ρ).Fed state' := by
  intro q member
  obtain ⟨p, inside, rfl⟩ := List.mem_map.mp member
  rw [within.prescribed same inside]
  exact fed p inside

end Job

/-- The same jobs in another order and under other numbers give the same system at the new numbers. -/
theorem Block.assemble_renumbered {blocks blocks' : List (Block ℝ)} {jobss jobss' : List (List Job)}
    (does : List.Forall₂ Block.Does blocks jobss) (does' : List.Forall₂ Block.Does blocks' jobss')
    (jobs : jobss'.flatten.Perm (jobss.flatten.map (Job.renumber σ ρ))) (within : ∀ j ∈ jobss.flatten, j.Within count n)
    (below : ∀ i < n, ρ i < n) (apart : ∀ i < n, ∀ j < n, ρ i = ρ j → i = j)
    (same : state.Renumbered σ ρ count n state') (fed : ∀ j ∈ jobss.flatten, j.Fed state) :
    Outcome.Alike (System.Renumbered ρ n) (Block.assemble blocks n state) (Block.assemble blocks' n state') := by
  have fed' : ∀ j ∈ jobss'.flatten, j.Fed state' := by
    intro j member
    obtain ⟨k, listed, rfl⟩ := List.mem_map.mp (jobs.mem_iff.mp member)
    exact (within k listed).fed same (fed k listed)
  have forth : ∀ sys, Block.assemble blocks n state = .ok sys →
      ∃ sys', Block.assemble blocks' n state' = .ok sys' ∧ System.Renumbered ρ n sys sys' := by
    intro sys assembled
    obtain ⟨cs, matched, rfl⟩ := (Block.assemble_eq_ok_iff does fed).mp assembled
    have mapped : List.Forall₂ (Job.Contributes state') (jobss.flatten.map (Job.renumber σ ρ))
        (cs.map (·.renumber ρ)) := by
      refine List.forall₂_map_left_iff.mpr (List.forall₂_map_right_iff.mpr ?_)
      have each := (List.forall₂_and_left _ _).mpr ⟨fun _ member => member, matched⟩
      exact each.imp fun j c own => (within j own.1).contributes same own.2
    obtain ⟨others, matched', perm⟩ := List.perm_comp_forall₂ jobs mapped
    have bounded : ∀ c ∈ cs, c.Below n := by
      intro c member i inside
      obtain ⟨j, listed, own⟩ := Outcome.exists_of_matched matched member
      exact (within j listed).dofs i (own.2 ▸ inside)
    exact ⟨_, (Block.assemble_eq_ok_iff does' fed').mpr ⟨others, matched', rfl⟩,
      System.ofContributions_renumber bounded below apart perm⟩
  refine ⟨forth, fun sys' assembled => ?_⟩
  obtain ⟨others, matched, -⟩ := (Block.assemble_eq_ok_iff does' fed').mp assembled
  have each : ∀ j ∈ jobss.flatten, ∃ c, j.Contributes state c := by
    intro j listed
    obtain ⟨c, -, own⟩ := Outcome.exists_of_matched_left matched (jobs.mem_iff.mpr (List.mem_map_of_mem listed))
    exact (within j listed).exists_contributes same own
  obtain ⟨cs, contributed⟩ := Outcome.exists_matched each
  obtain ⟨other, again, renumbered⟩ := forth _ ((Block.assemble_eq_ok_iff does fed).mpr ⟨cs, contributed, rfl⟩)
  cases again.symm.trans assembled
  exact ⟨_, (Block.assemble_eq_ok_iff does fed).mpr ⟨cs, contributed, rfl⟩, renumbered⟩

end Galerkin
