import Mathlib
import Galerkin.Proofs.Assembly.Scatter
import Galerkin.Proofs.Kernel.Reading
import Galerkin.Proofs.Kernel.Shapes

/-!
What a block reads of a state and what it adds to a system: sums over all points of all its elements.
-/

namespace Galerkin

open Finset
open Linear

namespace Block

/-- Rows of numbers for every local unknown, all below `n`. -/
structure Numbered (n : Nat) (b : Block ℝ) : Prop where
  length : ∀ row ∈ b.dofs, row.length = b.tab.basisCount * b.kernel.width
  below : ∀ row ∈ b.dofs, ∀ i ∈ row, i < n

/-- What a block reads at a state. -/
noncomputable def dataAt (b : Block ℝ) (s : AssemblyState ℝ) : FieldData :=
  ⟨b.gather s.x, b.gather s.rate, b.gatherPrescribed s.prescribed, s.parameters⟩

/-- The number of the unknown that is stored at a place, if there is one. -/
def numberAt (b : Block ℝ) (e a c : Nat) : Option Nat :=
  b.dofs.flatten[(e * b.tab.basisCount + a) * b.kernel.width + c]?

variable {b : Block ℝ}

theorem data_gather (b : Block ℝ) (x : Vec ℝ) (e a c : Nat) :
    (b.gather x).data[(e * b.tab.basisCount + a) * b.kernel.width + c]? = (b.numberAt e a c).map fun i => x.getD i 0 := by
  have flat : (b.dofs.flatMap fun row => row.map fun i => x.toArray.getD i 0) =
      b.dofs.flatten.map fun i => x.getD i 0 := by
    rw [List.map_flatten, List.flatMap]
    simp [Array.getD_eq_getD_getElem?]
  rw [gather, List.getElem?_toArray, flat, List.getElem?_map, numberAt]

theorem entry_gather (x : Vec ℝ) (e a c : Nat) :
    (b.gather x).entry e a c = (b.numberAt e a c).elim 0 fun i => x.getD i 0 := by
  change (b.gather x).data.getD ((e * b.tab.basisCount + a) * b.kernel.width + c) 0 = _
  rw [Array.getD_eq_getD_getElem?, data_gather]
  cases b.numberAt e a c <;> rfl

/-- An element has a number for every component at each of its control points. -/
theorem Numbered.inside {n : Nat} (numbered : b.Numbered n) {row : List Nat} (member : row ∈ b.dofs) {a c : Nat}
    (point : a < b.tab.basisCount) (component : c < b.kernel.width) : a * b.kernel.width + c < row.length := by
  rw [numbered.length row member]
  calc a * b.kernel.width + c < a * b.kernel.width + b.kernel.width := by omega
    _ = (a + 1) * b.kernel.width := by ring
    _ ≤ _ := Nat.mul_le_mul_right _ point

theorem numberAt_eq {n : Nat} (numbered : b.Numbered n) {e a c : Nat} {row : List Nat}
    (here : b.dofs[e]? = some row) (point : a < b.tab.basisCount) (component : c < b.kernel.width) :
    b.numberAt e a c = some (row.getD (a * b.kernel.width + c) 0) := by
  have place : (e * b.tab.basisCount + a) * b.kernel.width + c =
      e * (b.tab.basisCount * b.kernel.width) + (a * b.kernel.width + c) := by ring
  have bound := numbered.inside (List.mem_of_getElem? here) point component
  have inside := bound.trans_eq (numbered.length row (List.mem_of_getElem? here))
  rw [numberAt, place]
  have found := getElem?_flatMap (g := id) numbered.length here inside
  rw [List.flatMap_id] at found
  rw [found, id, List.getD_eq_getElem?_getD, List.getElem?_eq_getElem bound]
  rfl

/-! ### Contributions -/

/-- The systems of all elements of a block, from what it reads. -/
structure Yields (b : Block ℝ) (d : FieldData) (rateWeight : ℝ) (cs : List (Contribution ℝ)) : Prop where
  length : b.dofs.length = b.tab.entities.length
  systems : ∃ systems, cs = List.zipWith Contribution.mk b.dofs systems ∧
    List.Forall₂ (fun t sys => b.kernel.elementSystem (d.inputs b.kernel.paramNames) rateWeight
      b.tab.basisCount t.2 t.1 = .ok sys) b.tab.entities.zipIdx systems

theorem contributions_eq_ok {s : AssemblyState ℝ} {cs : List (Contribution ℝ)}
    (done : b.contributions s = .ok cs) : b.Yields (b.dataAt s) s.rateWeight cs := by
  rcases Outcome.bind_eq_ok.mp done with ⟨systems, evaluated, last⟩
  cases last
  rcases Kernel.evaluate_eq_ok.mp evaluated with ⟨shape, _, _, values, valued, matched⟩
  refine ⟨(List.cons.inj shape).1, systems, rfl, ?_⟩
  rw [Kernel.paramValues_eq_ok valued] at matched
  exact matched

/-- A block that can be read everywhere, with the points and parameters that its kernel asks for, contributes. -/
theorem contributions_of_readable {s : AssemblyState ℝ} (dofs : b.dofs.length = b.tab.entities.length)
    (points : b.points.length = b.tab.entities.length)
    (normals : b.kernel.usesNormal = true → b.tab.hasNormals = true)
    (params : ∀ name ∈ b.kernel.paramNames, (s.parameters.lookup name).isSome)
    (readable : ∀ e points, b.tab.entities[e]? = some points → ∀ p ∈ points,
      Kernel.Readable b.kernel ((b.dataAt s).inputs b.kernel.paramNames) e p) :
    ∃ cs, b.contributions s = .ok cs := by
  obtain ⟨systems, matched⟩ := Kernel.systems_isOk readable
  have shape (width : Nat) {rows : List (List Nat)} (count : rows.length = b.tab.entities.length) :
      [rows.length, b.tab.basisCount, width] = [b.tab.entities.length, b.tab.basisCount, width] := by rw [count]
  exact ⟨_, Outcome.bind_eq_ok.mpr ⟨systems, Kernel.evaluate_eq_ok.mpr ⟨shape _ dofs, shape _ points, normals, _,
    Kernel.paramValues_named params, matched⟩, rfl⟩⟩

/-- Blocks that all contribute have a system. -/
theorem assemble_of_contributions {blocks : List (Block ℝ)} {n : Nat} {s : AssemblyState ℝ}
    (each : ∀ b ∈ blocks, ∃ cs, b.contributions s = .ok cs) : ∃ sys, assemble blocks n s = .ok sys := by
  obtain ⟨parts, matched⟩ := Outcome.exists_matched each
  exact ⟨_, Outcome.bind_eq_ok.mpr ⟨parts, Outcome.mapM_eq_ok.mpr matched, rfl⟩⟩

theorem map_contributions {τ : Type} {R : τ → ElementSystem ℝ → Prop} {ts : List τ}
    {systems : List (ElementSystem ℝ)} (matched : List.Forall₂ R ts systems) {rows : List (List Nat)}
    {f : Contribution ℝ → ℝ} {g : List Nat → τ → ℝ}
    (each : ∀ row ∈ rows, ∀ t sys, R t sys → f ⟨row, sys⟩ = g row t) :
    (List.zipWith Contribution.mk rows systems).map f = (rows.zip ts).map fun u => g u.1 u.2 := by
  induction matched generalizing rows with
  | nil => simp
  | @cons t sys ts systems first _ ih =>
      cases rows with
      | nil => rfl
      | cons row rest =>
          rw [List.forall_mem_cons] at each
          rw [List.zipWith_cons_cons, List.map_cons, List.zip_cons_cons, List.map_cons, ih each.2,
            each.1 t sys first]

/-- The sum over all points of all elements, each with the number of the element and its unknowns. -/
noncomputable def total (b : Block ℝ) (f : Nat → List Nat → PointData ℝ → ℝ) : ℝ :=
  ((b.dofs.zip b.tab.entities.zipIdx).map fun t => (t.2.1.map (f t.2.2 t.1)).sum).sum

theorem sum_contributions {R : List (PointData ℝ) × Nat → ElementSystem ℝ → Prop}
    {systems : List (ElementSystem ℝ)} (matched : List.Forall₂ R b.tab.entities.zipIdx systems)
    {f : Contribution ℝ → ℝ} {g : Nat → List Nat → PointData ℝ → ℝ}
    (each : ∀ row ∈ b.dofs, ∀ t sys, R t sys → f ⟨row, sys⟩ = (t.1.map (g t.2 row)).sum) :
    ((List.zipWith Contribution.mk b.dofs systems).map f).sum = b.total g :=
  congrArg List.sum (map_contributions matched (g := fun row t => (t.1.map (g t.2 row)).sum) each)

section Sums

variable {n : Nat} (numbered : b.Numbered n) (keyed : Kernel.Keyed b.kernel) {s : AssemblyState ℝ}
  {cs : List (Contribution ℝ)} (yields : b.Yields (b.dataAt s) s.rateWeight cs)

theorem inputs_shaped (b : Block ℝ) (s : AssemblyState ℝ) (names : List String) :
    ((b.dataAt s).inputs names).Shaped b.kernel b.tab.basisCount := ⟨rfl, rfl, rfl, rfl, rfl⟩

include numbered yields

theorem Yields.below : ∀ c ∈ cs, c.Below n := by
  rcases yields.systems with ⟨systems, rfl, _⟩
  intro c member
  rcases List.mem_iff_getElem?.mp member with ⟨i, here⟩
  rw [List.getElem?_zipWith] at here
  cases row : b.dofs[i]? with
  | none => simp [row] at here
  | some numbers =>
      cases system : systems[i]? with
      | none => simp [row, system] at here
      | some sys =>
          simp only [row, system, Option.some.injEq] at here
          subst here
          exact numbered.below numbers (List.mem_of_getElem? row)

include keyed

theorem Yields.residual (φ : Nat → ℝ) :
    (cs.map fun c => ((c.dofs.zip c.system.residual).map fun t => φ t.1 * t.2).sum).sum =
      b.total fun e row => b.kernel.pointResidual ((b.dataAt s).inputs b.kernel.paramNames) b.tab.basisCount e
        fun i => φ (row.getD i 0) := by
  rcases yields.systems with ⟨systems, rfl, matched⟩
  refine sum_contributions matched fun row member t sys done => ?_
  rcases Kernel.elementSystem_eq_ok keyed (inputs_shaped b s _) done with ⟨xs, _, rfl, size, _, sums, _⟩
  rw [← sums, ← sum_zip ((numbered.length row member).trans size.symm)]

theorem Yields.tangent (ρ : Nat → Nat → ℝ) :
    (cs.map fun c => ((c.dofs.zip c.system.tangent).map fun t =>
        ((c.dofs.zip t.2).map fun u => ρ t.1 u.1 * u.2).sum).sum).sum =
      b.total fun e row => b.kernel.pointTangent ((b.dataAt s).inputs b.kernel.paramNames) s.rateWeight
        b.tab.basisCount e fun i j => ρ (row.getD i 0) (row.getD j 0) := by
  rcases yields.systems with ⟨systems, rfl, matched⟩
  refine sum_contributions matched fun row member t sys done => ?_
  rcases Kernel.elementSystem_eq_ok keyed (inputs_shaped b s _) done with ⟨_, xs, rfl, _, square, _, sums⟩
  rw [← sums, ← sum_zip_rows (numbered.length row member) square]

end Sums

/-- The system of all blocks. -/
theorem assemble_eq_ok {blocks : List (Block ℝ)} {n : Nat} {s : AssemblyState ℝ} {sys : System ℝ}
    (sound : ∀ b ∈ blocks, b.Numbered n ∧ Kernel.Keyed b.kernel) (done : assemble blocks n s = .ok sys) :
    sys.residual.length = n ∧
      (∀ φ, weighted φ sys.residual.toArray = (blocks.map fun b => b.total fun e row =>
        b.kernel.pointResidual ((b.dataAt s).inputs b.kernel.paramNames) b.tab.basisCount e
          fun i => φ (row.getD i 0)).sum) ∧
      ∀ ρ, sys.tangent.weigh n ρ = (blocks.map fun b => b.total fun e row =>
        b.kernel.pointTangent ((b.dataAt s).inputs b.kernel.paramNames) s.rateWeight b.tab.basisCount e
          fun i j => ρ (row.getD i 0) (row.getD j 0)).sum := by
  rcases Outcome.bind_eq_ok.mp done with ⟨parts, mapped, last⟩
  cases last
  have yields : List.Forall₂ (fun b cs => (b.Numbered n ∧ Kernel.Keyed b.kernel) ∧
      b.Yields (b.dataAt s) s.rateWeight cs) blocks parts :=
    (List.forall₂_and_left _ _).mpr ⟨sound,
      (Outcome.mapM_eq_ok.mp mapped).imp fun _ _ made => contributions_eq_ok made⟩
  have below : ∀ c ∈ parts.flatten, c.Below n := by
    intro c member
    rcases List.mem_flatten.mp member with ⟨cs, present, inside⟩
    rcases Outcome.exists_of_matched yields present with ⟨b, _, ⟨numbered, _⟩, made⟩
    exact made.below numbered c inside
  have all (f : Contribution ℝ → ℝ) (g : Block ℝ → ℝ)
      (same : ∀ b cs, (b.Numbered n ∧ Kernel.Keyed b.kernel) ∧ b.Yields (b.dataAt s) s.rateWeight cs →
        (cs.map f).sum = g b) : (parts.flatten.map f).sum = (blocks.map g).sum := by
    rw [List.map_flatten, List.sum_flatten, List.map_map]
    exact congrArg List.sum (Outcome.map_eq_of_matched (yields.imp same))
  have residual := System.residual_ofContributions below
  refine ⟨residual.1, fun φ => ?_, fun ρ => ?_⟩
  · rw [residual.2]
    exact all _ _ fun b cs made => made.2.residual made.1.1 made.1.2 φ
  · rw [System.tangent_ofContributions below]
    exact all _ _ fun b cs made => made.2.tangent made.1.1 made.1.2 ρ

end Block

end Galerkin
