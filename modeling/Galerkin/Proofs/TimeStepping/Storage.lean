import Mathlib
import Galerkin.Proofs.DofMap.Bijection
import Galerkin.Proofs.Linear.Sizes
import Galerkin.Proofs.TimeStepping.March

/-!
The control points are where a march keeps its state between runs. A step leaves there what it found, entry for entry,
so that reading the unknowns again changes nothing. This is true in any arithmetic: it takes no more than vectors with
one entry for each unknown, which is what the assembler and the linear solver give.
-/

namespace Galerkin

open Linear

/-! ### Sizes of assembled systems -/

section Sizes

variable {α : Type} [Arithmetic α] {n : Nat}

omit [Arithmetic α] in
theorem Linear.SparseMatrix.sized_zero (n : Nat) : (zero n : SparseMatrix α).Sized n :=
  ⟨rfl, Array.size_replicate⟩

theorem Linear.SparseMatrix.Sized.addEntry {m : SparseMatrix α} (sized : m.Sized n) (i j : Nat) (x : α) :
    (m.addEntry i j x).Sized n where
  size := sized.size
  rows := by rw [SparseMatrix.addEntry, Array.size_modify, sized.rows]

theorem Contribution.sized_addTangentRow (dofs : List Nat) {m : SparseMatrix α} (sized : m.Sized n) (i : Nat)
    (row : List α) : (addTangentRow dofs m i row).Sized n :=
  List.foldlRecOn _ _ sized fun _ sized u _ => sized.addEntry i u.1 u.2

theorem Contribution.sized_addTangent {m : SparseMatrix α} (sized : m.Sized n) (c : Contribution α) :
    (c.addTangent m).Sized n :=
  List.foldlRecOn _ _ sized fun _ sized t _ => sized_addTangentRow c.dofs sized t.1 t.2

theorem Contribution.size_addResidual (r : Array α) (c : Contribution α) : (c.addResidual r).size = r.size := by
  rw [addResidual]
  refine List.foldlRecOn (motive := fun s : Array α => s.size = r.size) _ _ rfl fun s sized t _ => ?_
  rw [Array.size_modify, sized]

theorem System.sized_ofContributions (n : Nat) (cs : List (Contribution α)) :
    (System.ofContributions n cs).residual.length = n ∧ (System.ofContributions n cs).tangent.Sized n := by
  constructor
  · rw [ofContributions, Array.length_toList]
    refine List.foldlRecOn (motive := fun s : Array α => s.size = n) _ _ Array.size_replicate fun s sized c _ => ?_
    rw [Contribution.size_addResidual, sized]
  · exact List.foldlRecOn _ _ (SparseMatrix.sized_zero n) fun m sized c _ => Contribution.sized_addTangent sized c

end Sizes

/-- Increments have an entry for each unknown. -/
def Machinery.Sized {α : Type} [Arithmetic α] (tools : Machinery α) : Prop :=
  ∀ p x rate weight system increment, tools.assemble p x rate weight = .ok system →
    tools.solve system.tangent (Vec.neg system.residual) = .ok increment → increment.length = p.dofs.count

theorem Simulation.machinery_sized {α : Type} [Scalar α] (num : Numerics α) (s : Stepper α) :
    (machinery num s).Sized := by
  intro p x rate weight system increment assembled solved
  obtain ⟨cs, -, same⟩ := Outcome.bind_eq_ok.mp assembled
  cases same
  obtain ⟨length, sized⟩ := System.sized_ofContributions p.dofs.count cs.flatten
  obtain ⟨result, found, same⟩ := Outcome.bind_eq_ok.mp solved
  cases same
  have right : (Vec.neg (System.ofContributions p.dofs.count cs.flatten).residual).length = p.dofs.count := by
    rw [Vec.length_neg, length]
  exact (Solver.length_solve (right.symm ▸ sized) found).trans right

/-! ### Control points that hold the unknowns -/

namespace ControlPoints

variable {α : Type} {c : ControlPoints α} {width : Nat} {occupied : List Bool}

theorem sized_scatter {stored : Array (List α)} (x : Array α) (size : stored.size = occupied.length)
    (even : ∀ row ∈ stored, row.length = width) :
    ((DofMap.ofOccupied width occupied).scatter x stored).size = occupied.length ∧
      ∀ row ∈ (DofMap.ofOccupied width occupied).scatter x stored, row.length = width := by
  constructor
  · have starts := DofMap.length_startsFrom width 0 occupied
    simp [DofMap.scatter, DofMap.ofOccupied, starts, size]
  · intro row member
    obtain ⟨⟨start, old⟩, inside, rfl⟩ := List.mem_map.mp (List.mem_toArray.mp member)
    have among : old ∈ stored := Array.mem_toList_iff.mp (List.of_mem_zip inside).2
    cases start with
    | none => exact even old among
    | some s => exact List.length_mapIdx.trans (even old among)

theorem Holds.scatter (holds : c.Holds occupied.length width) (x xt : Array α) :
    (c.scatter (.ofOccupied width occupied) x xt).Holds occupied.length width where
  values := (sized_scatter x holds.values holds.valueRows).1
  rates := (sized_scatter xt holds.rates holds.rateRows).1
  valueRows := (sized_scatter x holds.values holds.valueRows).2
  rateRows := (sized_scatter xt holds.rates holds.rateRows).2

end ControlPoints

namespace Problem

variable {α : Type} {p : Problem α}

/-- The control points have a row of values and a row of rates each, and the unknowns are the entries in the rows of
some of them. -/
def Stored (p : Problem α) : Prop :=
  ∃ width occupied, p.dofs = .ofOccupied width occupied ∧ p.points.Holds occupied.length width

theorem Stored.exchanges (stored : p.Stored) : ∃ occupied, p.points.Exchanges p.dofs occupied := by
  obtain ⟨width, occupied, dofs, holds⟩ := stored
  rw [dofs]
  exact ⟨occupied, holds.exchanges⟩

/-- The unknowns are what the control points hold. -/
structure Settled (p : Problem α) : Prop where
  stored : p.Stored
  read : p.gather = p
  x : p.unknowns.x.length = p.dofs.count
  rate : p.unknowns.rate.length = p.dofs.count

theorem Stored.gather (stored : p.Stored) : p.gather.Settled := by
  obtain ⟨occupied, exchanges⟩ := stored.exchanges
  exact ⟨stored, rfl, exchanges.length_gather.1, exchanges.length_gather.2⟩

/-- Storing what was read changes nothing. -/
theorem Settled.store (settled : p.Settled) : p.store = p := by
  obtain ⟨occupied, exchanges⟩ := settled.stored.exchanges
  have read := congrArg Problem.unknowns settled.read
  have x : (p.points.gather p.dofs).1 = p.unknowns.x := congrArg Unknowns.x read
  have rate : (p.points.gather p.dofs).2 = p.unknowns.rate := congrArg Unknowns.rate read
  rw [Problem.store, ← x, ← rate, exchanges.scatter_gather]

/-- What is stored is read again. -/
theorem Stored.store (stored : p.Stored) (x : p.unknowns.x.length = p.dofs.count)
    (rate : p.unknowns.rate.length = p.dofs.count) : p.store.Settled := by
  obtain ⟨occupied, exchanges⟩ := stored.exchanges
  have back := exchanges.gather_scatter p.unknowns.x p.unknowns.rate x rate
  refine ⟨?_, ?_, x, rate⟩
  · obtain ⟨width, flags, dofs, holds⟩ := stored
    refine ⟨width, flags, dofs, ?_⟩
    rw [Problem.store, dofs]
    exact holds.scatter _ _
  · rw [Problem.gather]
    dsimp only [Problem.store]
    rw [back]

end Problem

/-! ### Domains -/

section Domains

variable {α : Type}

/-- Every control point has a row of values and a row of rates, and the unknowns are the entries in the rows of some
of them. -/
structure Discretization.Stored (x : Discretization α) : Prop where
  holds : x.points.Holds x.points.occupied.size x.points.internal.width
  numbers : ∀ n, x.numbered = some n → ∃ occupied : List Bool, occupied.length = x.points.occupied.size ∧
    n.dofs = .ofOccupied x.points.internal.width occupied

/-- Are the unknowns of a domain, once they are numbered, entries in rows of its control points? -/
def Domain.Stored (d : Domain α) : Prop := ∀ p, d.problem = .ok p → p.Stored

theorem ControlPoints.size_occupy (c : ControlPoints α) (ids : List Nat) :
    (c.occupy ids).occupied.size = c.occupied.size :=
  List.foldlRecOn (motive := fun flags : Array Bool => flags.size = c.occupied.size) _ _ rfl fun flags sized i _ => by
    rw [Array.set!_eq_setIfInBounds, Array.size_setIfInBounds, sized]

theorem ControlPoints.holds_make [Zero α] (dim : Nat) (positions : Array (List α)) (internal external : Layout) :
    (make dim positions internal external).Holds positions.size internal.width := by
  have row : ∀ row ∈ positions.map fun _ => List.replicate internal.width (0 : α), row.length = internal.width := by
    intro row member
    obtain ⟨_, -, rfl⟩ := Array.mem_map.mp member
    exact List.length_replicate
  exact ⟨Array.size_map, Array.size_map, row, row⟩

namespace Domain

variable {d d' : Domain α}

theorem stored_of_discretization (stored : ∀ x, d.discretization = some x → x.Stored) : d.Stored := by
  intro p present
  obtain ⟨x, here, rest⟩ := Outcome.bind_eq_ok.mp present
  have found : d.discretization = some x := by
    unfold discretized at here
    split at here
    · next found =>
        rw [Outcome.pure_eq_ok] at here
        rwa [here] at found
    · cases here
  cases numbered : x.numbered with
  | none =>
      rw [numbered] at rest
      cases rest
  | some n =>
      rw [numbered] at rest
      cases rest
      obtain ⟨holds, numbers⟩ := stored x found
      obtain ⟨occupied, length, dofs⟩ := numbers n numbered
      exact ⟨_, occupied, dofs, length ▸ holds⟩

variable [Arithmetic α]

/-- Control points start with rows of zeros, and occupying and numbering them leaves the rows alone. -/
theorem discretize_rows (family : String) (order : Number) (quadratureOrder : Option Int) :
    Outcome.Preserves (fun d => ∀ x, d.discretization = some x → x.Stored)
      (discretize family order quadratureOrder : Work α Unit) := by
  refine Outcome.preserves_get fun now stored => ?_
  dsimp only
  split
  · exact Outcome.preserves_throw _
  split
  · exact Outcome.preserves_throw _
  refine Outcome.preserves_bind (Outcome.preserves_lift _) fun layouts => ?_
  refine Outcome.preserves_bind (Outcome.preserves_lift _) fun order => ?_
  refine Outcome.preserves_bind (Outcome.preserves_lift _) fun space => ?_
  refine Outcome.preserves_bind (Outcome.preserves_set fun x same => ?_) fun _ => ?_
  · cases same
    refine ⟨?_, nofun⟩
    have sized : (ControlPoints.make now.mesh.dim space.positions layouts.1 layouts.2).occupied.size =
        space.positions.size := Array.size_map
    exact sized.symm ▸ ControlPoints.holds_make _ _ _ _
  refine Outcome.preserves_bind (Outcome.preserves_forM fun w _ => ?_) fun _ => ?_
  · refine Outcome.preserves_bind (Outcome.preserves_lift _) fun rows => Outcome.preserves_modify fun d stored x same => ?_
    obtain ⟨y, here, rfl⟩ := Option.map_eq_some_iff.mp same
    obtain ⟨holds, numbers⟩ := stored y here
    have sized := y.points.size_occupy rows.flatten
    exact ⟨sized.symm ▸ ⟨holds.values, holds.rates, holds.valueRows, holds.rateRows⟩, fun n numbered => by
      rw [sized]
      exact numbers n numbered⟩
  · refine Outcome.preserves_modify fun d stored x same => ?_
    obtain ⟨y, here, rfl⟩ := Option.map_eq_some_iff.mp same
    refine ⟨(stored y here).holds, fun n numbered => ?_⟩
    cases numbered
    exact ⟨_, Array.length_toList, rfl⟩

/-- A domain that was discretized keeps its unknowns in its control points. -/
theorem discretize_stored {family : String} {order : Number} {quadratureOrder : Option Int}
    (done : (discretize family order quadratureOrder).run.run d = (.ok (), d')) : d'.Stored := by
  have fresh : d.discretization = none := by
    unfold discretize at done
    obtain ⟨start, _, got, done⟩ := Outcome.run_bind_eq_ok.mp done
    cases got
    simp only at done
    split at done
    · cases done
    · next absent => simpa using absent
  have rows := discretize_rows family order quadratureOrder d fun x present => by
    rw [fresh] at present
    cases present
  rw [done] at rows
  exact stored_of_discretization rows

end Domain

end Domains

/-! ### Steps -/

theorem TimeScheme.length_rate {α : Type} [Arithmetic α] (s : TimeScheme α) {x xPrev ratePrev : Vec α} (dt : α)
    {n : Nat} (sized : x.length = n) (before : xPrev.length = n) (rates : ratePrev.length = n) :
    (s.rate x xPrev ratePrev dt).length = n := by
  unfold TimeScheme.rate
  split
  · rw [Vec.length_zeros, sized]
  · dsimp only
    split
    · simp [sized, before, rates]
    · simp [sized, before]

namespace Newton

variable {α : Type} [Scalar α] {p : Equations α} {n : Nat}

/-- Increments of `n` entries keep iterates at `n` entries. -/
theorem Path.length_eq (solves_sized : ∀ v : Solve α, v.Made p → v.increment.length = n) {x y : Vec α}
    {solves : List (Solve α)} (path : Path p x solves y) (sized : x.length = n) : y.length = n := by
  induction solves generalizing x with
  | nil =>
      have same : y = x := path
      exact same ▸ sized
  | cons v rest ih =>
      obtain ⟨-, made, later⟩ := path
      exact ih later (by rw [Vec.length_add, sized, solves_sized v made, min_self])

end Newton

namespace TimeStepping

variable {α : Type} [Scalar α] {tools : Machinery α} {newton : Newton.Settings α} {scheme : TimeScheme α}
  {dt : StepSize α} {m m' : March α}

/-- A finished step can be read again from the control points. -/
theorem advance_settled (tools_sized : tools.Sized) (settled : m.problem.Settled) {report : StepReport α}
    (done : advance tools newton scheme dt m = (.ok report, m')) : m'.problem.Settled := by
  obtain ⟨weight, r, system, -, -, solved, -, -, rfl⟩ := advance_eq_ok.mp done
  obtain ⟨solves, path, rate, -⟩ := Newton.solve_eq_ok solved
  have x : r.x.length = m.problem.dofs.count :=
    path.length_eq (fun v made => tools_sized (m.commence _).problem _ _ _ _ _ made.assembled made.solved) settled.x
  have rates : r.rate.length = m.problem.dofs.count := by
    rw [rate]
    exact TimeScheme.length_rate scheme dt.value x settled.x settled.rate
  exact Problem.Stored.store (p := { ((m.commence (m.problem.unknowns.t + dt.value)).reach r).problem with
    unknowns := _ }) settled.stored x rates

end TimeStepping

end Galerkin
