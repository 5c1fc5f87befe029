import Mathlib
import Galerkin.Proofs.Assembly.Scatter
import Galerkin.Proofs.Assembly.Tasks
import Galerkin.Proofs.Domain.Compilation
import Galerkin.Proofs.Mesh.Facets

/-!
Every entry of an assembled system is the sum of what the contributions hold for it, so that their order does not
matter, and other numbers of the unknowns are other places of the same entries.

The blocks of a compiled domain do one job for each of its tasks. A job is a kernel with what is held at a place, and
the assembled system is the sum of what the jobs contribute.

From tasks to blocks. A compiled work piece has blocks exactly when each of its tasks comes to a job, and its blocks do
these jobs.
-/

namespace Galerkin

/-! ### Sums of entries -/

open Finset

/-- Other keys, as long as they tell the same entries apart from the one that is asked for. -/
theorem sumAt_map_key {κ μ β K : Type} [DecidableEq κ] [DecidableEq μ] [AddCommMonoid K] {value : β → K} {f : κ → μ}
    {entries : List (κ × β)} {key : κ} (apart : ∀ t ∈ entries, f t.1 = f key → t.1 = key) :
    sumAt value (entries.map (Prod.map f id)) (f key) = sumAt value entries key := by
  rw [sumAt, sumAt, List.map_map]
  refine congrArg List.sum (List.map_congr_left fun t member => ?_)
  exact if_congr ⟨apart t member, congrArg f⟩ rfl rfl

namespace Contribution

variable {c : Contribution ℝ} {ρ : Nat → Nat} {i j : Nat}

/-- What a contribution holds for one unknown. -/
noncomputable def residualAt (c : Contribution ℝ) (i : Nat) : ℝ := sumAt id (c.dofs.zip c.system.residual) i

/-- What a contribution holds for a pair of unknowns. -/
noncomputable def tangentAt (c : Contribution ℝ) (i j : Nat) : ℝ :=
  sumAt (fun row => sumAt id (c.dofs.zip row) j) (c.dofs.zip c.system.tangent) i

/-- The same contribution to unknowns with other numbers. -/
def renumber (ρ : Nat → Nat) (c : Contribution ℝ) : Contribution ℝ := { c with dofs := c.dofs.map ρ }

theorem sumAt_renumber {β : Type} {value : β → ℝ} {dofs : List Nat} (apart : ∀ l ∈ dofs, ρ l = ρ i → l = i)
    (xs : List β) : sumAt value ((dofs.map ρ).zip xs) (ρ i) = sumAt value (dofs.zip xs) i := by
  rw [List.zip_map_left]
  exact sumAt_map_key fun t member => apart t.1 (List.of_mem_zip member).1

theorem residualAt_renumber (apart : ∀ l ∈ c.dofs, ρ l = ρ i → l = i) :
    (c.renumber ρ).residualAt (ρ i) = c.residualAt i :=
  sumAt_renumber apart _

theorem tangentAt_renumber (row : ∀ l ∈ c.dofs, ρ l = ρ i → l = i) (column : ∀ l ∈ c.dofs, ρ l = ρ j → l = j) :
    (c.renumber ρ).tangentAt (ρ i) (ρ j) = c.tangentAt i j := by
  rw [tangentAt, tangentAt, renumber, sumAt_renumber row]
  simp only [sumAt_renumber column]

end Contribution

namespace System

open Linear

variable {n : Nat} {cs : List (Contribution ℝ)} {i j : Nat}

theorem residual_entry (below : ∀ c ∈ cs, c.Below n) (inside : i < n) :
    (ofContributions n cs).residual.getD i 0 = (cs.map (·.residualAt i)).sum := by
  obtain ⟨length, sums⟩ := residual_ofContributions below
  have size : i < (ofContributions n cs).residual.toArray.size := by rwa [List.size_toArray, length]
  have entry : (ofContributions n cs).residual.getD i 0 = (ofContributions n cs).residual.toArray.getD i 0 := by
    rw [List.getD_eq_getElem?_getD, Array.getD_eq_getD_getElem?, List.getElem?_toArray]
  rw [entry, ← weighted_single size, sums]
  refine congrArg List.sum (List.map_congr_left fun c _ => ?_)
  simp [Contribution.residualAt, sumAt]

theorem weigh_single {m : SparseMatrix ℝ} (row : i < n) (column : j < n) :
    m.weigh n (fun r c => if r = i then if c = j then 1 else 0 else 0) = m.get i j := by
  rw [SparseMatrix.weigh, sum_eq_single_of_mem i (mem_range.mpr row), sum_eq_single_of_mem j (mem_range.mpr column)]
  · simp
  · intro c _ apart
    simp [apart]
  · intro r _ apart
    simp [apart]

theorem tangent_entry (below : ∀ c ∈ cs, c.Below n) (row : i < n) (column : j < n) :
    (ofContributions n cs).tangent.get i j = (cs.map (·.tangentAt i j)).sum := by
  rw [← weigh_single row column, tangent_ofContributions below]
  refine congrArg List.sum (List.map_congr_left fun c _ => ?_)
  rw [Contribution.tangentAt, sumAt]
  refine congrArg List.sum (List.map_congr_left fun t _ => ?_)
  by_cases same : t.1 = i
  · simp [same, sumAt]
  · simp [same]

/-- Every entry is the sum of what some contributions hold for it. -/
structure Sums (n : Nat) (cs : List (Contribution ℝ)) (sys : System ℝ) : Prop where
  residual : ∀ i < n, sys.residual.getD i 0 = (cs.map (·.residualAt i)).sum
  tangent : ∀ i < n, ∀ j < n, sys.tangent.get i j = (cs.map (·.tangentAt i j)).sum

theorem sums_ofContributions (below : ∀ c ∈ cs, c.Below n) : Sums n cs (ofContributions n cs) :=
  ⟨fun _ => residual_entry below, fun _ row _ => tangent_entry below row⟩

/-- Two systems with the same entries at the `n` unknowns, under other numbers. -/
structure Renumbered (ρ : Nat → Nat) (n : Nat) (sys sys' : System ℝ) : Prop where
  residual : ∀ i < n, sys'.residual.getD (ρ i) 0 = sys.residual.getD i 0
  tangent : ∀ i < n, ∀ j < n, sys'.tangent.get (ρ i) (ρ j) = sys.tangent.get i j

/-- Contributions in another order, to unknowns with other numbers, give the same entries in other places. -/
theorem ofContributions_renumber {ρ : Nat → Nat} (below : ∀ c ∈ cs, c.Below n)
    (within : ∀ i < n, ρ i < n) (apart : ∀ i < n, ∀ j < n, ρ i = ρ j → i = j) {others : List (Contribution ℝ)}
    (same : others.Perm (cs.map (·.renumber ρ))) :
    Renumbered ρ n (ofContributions n cs) (ofContributions n others) := by
  have bounded : ∀ c ∈ others, c.Below n := by
    intro c member
    obtain ⟨d, present, rfl⟩ := List.mem_map.mp (same.mem_iff.mp member)
    intro l inside
    obtain ⟨k, known, rfl⟩ := List.mem_map.mp inside
    exact within k (below d present k known)
  have told : ∀ i < n, ∀ c ∈ cs, ∀ l ∈ c.dofs, ρ l = ρ i → l = i := fun i inside c member l known =>
    apart l (below c member l known) i inside
  constructor
  · intro i inside
    rw [residual_entry bounded (within i inside), residual_entry below inside, (same.map _).sum_eq, List.map_map]
    refine congrArg List.sum (List.map_congr_left fun c member => ?_)
    exact Contribution.residualAt_renumber (told i inside c member)
  · intro i row j column
    rw [tangent_entry bounded (within i row) (within j column), tangent_entry below row column, (same.map _).sum_eq,
      List.map_map]
    refine congrArg List.sum (List.map_congr_left fun c member => ?_)
    exact Contribution.tangentAt_renumber (told i row c member) (told j column c member)

end System

/-! ### Jobs -/

/-- A kernel, without the name of its form, and what it works on. -/
structure Job where
  kernel : Kernel
  part : Part

namespace Kernel

/-- A kernel without the name of its form. -/
def nameless (k : Kernel) : Kernel := { k with name := "" }

end Kernel

/-- The system of a part does not depend on the name of the kernel. -/
theorem Part.system_nameless {p : Part} {k : Kernel} {s : AssemblyState ℝ} {sys : ElementSystem ℝ} :
    p.system k.nameless s = .ok sys ↔ p.system k s = .ok sys := by
  have values (params : List ℝ) : k.nameless.paramValues (.named s.parameters) = .ok params ↔
      k.paramValues (.named s.parameters) = .ok params := by
    have names : k.nameless.paramNames = k.paramNames := rfl
    unfold Kernel.paramValues
    simp only [names]
    split
    · rfl
    · exact iff_of_false (fun done => by cases done) fun done => by cases done
  rw [Part.system, Part.system, Outcome.bind_eq_ok, Outcome.bind_eq_ok]
  exact exists_congr fun params => and_congr (values params) Iff.rfl

namespace Job

/-- What a job contributes at a state. -/
def Contributes (s : AssemblyState ℝ) (j : Job) (c : Contribution ℝ) : Prop :=
  j.part.system j.kernel s = .ok c.system ∧ c.dofs = j.part.dofs

/-- Does a state have rows of the right width for the prescribed values that a job reads? -/
def Fed (s : AssemblyState ℝ) (j : Job) : Prop :=
  ∀ p ∈ j.part.points, (s.prescribed.getD p []).length = j.kernel.externalWidth

end Job

namespace Block

variable {b : Block ℝ} {jobs : List Job} {s : AssemblyState ℝ}

/-- A block does some jobs: all with its kernel, each on one of its parts. -/
structure Does (b : Block ℝ) (jobs : List Job) : Prop where
  some : jobs ≠ []
  kernel : ∀ j ∈ jobs, j.kernel = b.kernel.nameless
  holds : b.Holds (jobs.map (·.part))
  normals : b.kernel.usesNormal = true → b.tab.hasNormals = true

theorem Does.contributions {cs : List (Contribution ℝ)} (does : b.Does jobs) (fed : ∀ j ∈ jobs, j.Fed s) :
    b.contributions s = .ok cs ↔ List.Forall₂ (Job.Contributes s) jobs cs := by
  have wide : ∀ p ∈ jobs.map (·.part), ∀ i ∈ p.points, (s.prescribed.getD i []).length = b.kernel.externalWidth := by
    intro p member i inside
    obtain ⟨j, among, rfl⟩ := List.mem_map.mp member
    rw [fed j among i inside, does.kernel j among]
    rfl
  have each (systems : List (ElementSystem ℝ)) :
      List.Forall₂ (fun p sys => p.system b.kernel s = .ok sys) (jobs.map (·.part)) systems ↔
        List.Forall₂ (fun j sys => j.part.system j.kernel s = .ok sys) jobs systems := by
    rw [List.forall₂_map_left_iff]
    refine Outcome.matched_congr fun j member sys => ?_
    rw [does.kernel j member, Part.system_nameless]
  rw [contributions_eq_ok_iff does.holds (by simpa using does.some) does.normals wide]
  simp only [each]
  constructor
  · rintro ⟨systems, matched, rfl⟩
    clear wide each fed does
    induction matched with
    | nil => exact .nil
    | cons own _ ih => exact .cons ⟨own, rfl⟩ ih
  · intro matched
    clear wide each fed does
    induction matched with
    | nil => exact ⟨[], .nil, rfl⟩
    | @cons j c jobs cs first _ ih =>
        obtain ⟨systems, others, rfl⟩ := ih
        obtain ⟨dofs, system⟩ := c
        obtain ⟨own, rfl⟩ := first
        exact ⟨system :: systems, .cons own others, rfl⟩

/-- Every contribution of a block is a square system for the unknowns of one of its entities. -/
theorem Does.square {cs : List (Contribution ℝ)} (does : b.Does jobs) (done : b.contributions s = .ok cs) :
    ∀ c ∈ cs, (∃ j ∈ jobs, c.dofs = j.part.dofs) ∧ c.system.Square c.dofs.length := by
  obtain ⟨-, systems, rfl, matched⟩ := contributions_eq_ok done
  intro c member
  rw [← List.map_uncurry_zip_eq_zipWith] at member
  obtain ⟨⟨row, sys⟩, paired, rfl⟩ := List.mem_map.mp member
  obtain ⟨listed, present⟩ := List.of_mem_zip paired
  rw [does.holds.dofs, List.map_map] at listed
  obtain ⟨j, among, rfl⟩ := List.mem_map.mp listed
  have part : j.part ∈ jobs.map (·.part) := List.mem_map_of_mem among
  obtain ⟨t, -, evaluated⟩ := Outcome.exists_of_matched matched present
  have square := Kernel.square_elementSystem evaluated
  rw [← does.holds.even j.part part, ← does.holds.full j.part part] at square
  exact ⟨⟨j, among, rfl⟩, square⟩

theorem contributions_of_does {blocks : List (Block ℝ)} {jobss : List (List Job)} {css : List (List (Contribution ℝ))}
    (does : List.Forall₂ Does blocks jobss) (fed : ∀ j ∈ jobss.flatten, j.Fed s) :
    List.Forall₂ (fun b cs => b.contributions s = .ok cs) blocks css ↔
      List.Forall₂ (List.Forall₂ (Job.Contributes s)) jobss css := by
  induction does generalizing css with
  | nil => cases css <;> simp
  | @cons b jobs blocks jobss own _ ih =>
      rw [List.flatten_cons, List.forall_mem_append] at fed
      cases css with
      | nil => simp
      | cons cs css => rw [List.forall₂_cons, List.forall₂_cons, own.contributions fed.1, ih fed.2]

/-- Blocks are assembled by adding all that each of them contributes. -/
theorem assemble_eq_ok_iff_contributions {blocks : List (Block ℝ)} {n : Nat} {sys : System ℝ} :
    assemble blocks n s = .ok sys ↔ ∃ css,
      List.Forall₂ (fun b cs => b.contributions s = .ok cs) blocks css ∧ sys = .ofContributions n css.flatten := by
  rw [assemble, Outcome.bind_eq_ok]
  simp only [Outcome.mapM_eq_ok, Outcome.pure_eq_ok]
  exact exists_congr fun css => and_congr_right fun _ => eq_comm

/-- An assembled system is the sum of what the jobs contribute. -/
theorem assemble_eq_ok_iff {blocks : List (Block ℝ)} {jobss : List (List Job)} {n : Nat} {sys : System ℝ}
    (does : List.Forall₂ Does blocks jobss) (fed : ∀ j ∈ jobss.flatten, j.Fed s) :
    assemble blocks n s = .ok sys ↔
      ∃ cs, List.Forall₂ (Job.Contributes s) jobss.flatten cs ∧ sys = .ofContributions n cs := by
  rw [assemble_eq_ok_iff_contributions]
  simp only [contributions_of_does does fed]
  constructor
  · rintro ⟨css, matched, rfl⟩
    exact ⟨css.flatten, Outcome.matched_flatten.mpr ⟨css, matched, rfl⟩, rfl⟩
  · rintro ⟨_, matched, rfl⟩
    obtain ⟨css, each, rfl⟩ := Outcome.matched_flatten.mp matched
    exact ⟨css, each, rfl⟩

end Block

end Galerkin

/-! ### From tasks to blocks -/

namespace Galerkin

variable {rules : Calculus Quantity} {s : Setting} {backend : String} {c : Block.Context ℝ}

/-- What a task comes to. -/
def Task.Becomes (rules : Calculus Quantity) (s : Setting) (c : Block.Context ℝ) (t : Task) (j : Job) : Prop :=
  ∃ form there, t.form = some form ∧ t.place = some there ∧
    Kernel.ofForm rules s "" there.2.isSome form = .ok j.kernel ∧ c.Holds there j.part

theorem Task.becomes_unique : Relator.RightUnique (Task.Becomes rules s c) := by
  rintro t ⟨k, p⟩ ⟨k', p'⟩ ⟨form, there, formed, placed, made, holds⟩ ⟨form', there', formed', placed', made', holds'⟩
  cases formed.symm.trans formed'
  cases placed.symm.trans placed'
  cases made.symm.trans made'
  cases holds.unique holds'
  rfl

namespace Block

/-- What the blocks of a discretized domain are made in. -/
structure Context.Fits (s : Setting) (c : Context ℝ) : Prop where
  even : c.space.Even
  width : c.dofs.width = s.internal.width
  elements : c.space.controlPoints.size = c.space.mesh.elements.size
  dims : c.space.mesh.dim = c.space.element.dim

/-- A block on some places, each on the side that its form is for, does the jobs of the form there. -/
theorem Made.does (fits : c.Fits s) {places : List (Option (Nat × Option Nat))} {b : Block ℝ} {parts : List Part}
    (made : Made c places b parts) (some : parts ≠ []) {form : Expr} {name : String} {boundary : Bool}
    (kernel : Kernel.ofForm rules s name boundary form = .ok b.kernel)
    (sides : ∀ there, Option.some there ∈ places → there.2.isSome = boundary)
    (normals : boundary = true → b.tab.hasNormals = true) :
    ∃ jobs, b.Does jobs ∧ List.Forall₂ (Task.Becomes rules s c) (places.map (⟨Option.some form, ·⟩)) jobs := by
  have held : ∀ p ∈ parts, ∃ there, c.Holds there p := fun p member => by
    obtain ⟨_, -, there, -, holds⟩ := Outcome.exists_of_matched made.located member
    exact ⟨there, holds⟩
  have same : (parts.map fun p => (⟨b.kernel.nameless, p⟩ : Job)).map (·.part) = parts := by
    rw [List.map_map]
    exact List.map_id parts
  refine ⟨parts.map (⟨b.kernel.nameless, ·⟩), ⟨by simpa using some, ?_, ?_, ?_⟩, ?_⟩
  · intro j member
    obtain ⟨_, -, rfl⟩ := List.mem_map.mp member
    rfl
  · rw [same]
    refine ⟨made.points, made.dofs, made.data, fun p member => ?_, fun p member => ?_⟩
    · obtain ⟨there, holds⟩ := held p member
      rw [made.count]
      exact fits.even p.points (Array.mem_of_getElem? holds.points)
    · obtain ⟨there, holds⟩ := held p member
      have lengths := congrArg List.length holds.dofs
      rw [DofMap.length_elementDofs, List.length_map, fits.width, ← (Kernel.widths_ofForm kernel).1] at lengths
      exact lengths.symm
  · intro used
    cases boundary with
    | false => exact absurd used (by rw [Kernel.usesNormal_ofForm kernel]; decide)
    | true => exact normals rfl
  · refine List.forall₂_map_left_iff.mpr (List.forall₂_map_right_iff.mpr ?_)
    have each := (List.forall₂_and_left _ _).mpr ⟨fun _ member => member, made.located⟩
    refine each.imp fun place p own => ?_
    obtain ⟨there, rfl, holds⟩ := own.2
    refine ⟨form, there, rfl, rfl, ?_, holds⟩
    rw [sides there own.1]
    exact Kernel.ofForm_rename kernel ""

theorem sides_inside {w : WorkPiece} {count : Nat} {there : Nat × Option Nat}
    (member : some there ∈ w.insidePlaces count) : there.2.isSome = false := by
  obtain ⟨e, -, same⟩ := List.mem_map.mp member
  obtain ⟨i, -, rfl⟩ := Option.map_eq_some_iff.mp same
  rfl

theorem sides_region {w : WorkPiece} {mesh : Mesh ℝ} {r : Region} {there : Nat × Option Nat}
    (member : some there ∈ w.regionPlaces mesh r) : there.2.isSome = true := by
  obtain ⟨f, -, same⟩ := List.mem_map.mp member
  obtain ⟨o, -, rfl⟩ := Option.map_eq_some_iff.mp same
  rfl

/-- The tasks on the regions of a work piece. -/
def regionTasks (mesh : Mesh ℝ) (w : WorkPiece) (regions : List Region) : List Task :=
  (regions.filter (·.form.isSome)).flatMap fun r => (w.regionPlaces mesh r).map (⟨r.form, ·⟩)

theorem regionPlaces_congr {mesh : Mesh ℝ} {w v : WorkPiece} (elements : v.elements = w.elements) {r r' : Region}
    (facets : r'.facets = r.facets) : v.regionPlaces mesh r' = w.regionPlaces mesh r := by
  simp only [WorkPiece.regionPlaces, WorkPiece.owner?_eq_head?, WorkPiece.owners, elements, facets]

theorem compiledRegion_eq_ok {w : WorkPiece} {r r' : Region} {form : Expr} (formed : r.form = some form) :
    Domain.compiledRegion rules s backend w r = .ok r' ↔
      ∃ k, CompiledKernel.compile rules s (w.regionLabel r) true backend form = .ok k ∧ { r with kernel := some k } = r' := by
  rw [Domain.compiledRegion]
  obtain ⟨_, _, _, _⟩ := r
  cases formed
  rw [Outcome.bind_eq_ok]
  simp only [Outcome.pure_eq_ok]

theorem regions_does (fits : c.Fits s) {w v : WorkPiece} (elements : v.elements = w.elements)
    {regions compiled : List Region}
    (matched : List.Forall₂ (fun r r' => Domain.compiledRegion rules s backend w r = .ok r') regions compiled)
    {blocks : List (Block ℝ)} (done : (compiled.filter (·.form.isSome)).mapM (ofRegion c v) = .ok blocks) :
    ∃ jobss, List.Forall₂ Does blocks jobss ∧
      List.Forall₂ (Task.Becomes rules s c) (regionTasks c.space.mesh w regions) jobss.flatten := by
  induction matched generalizing blocks with
  | nil =>
      cases done
      exact ⟨[], .nil, .nil⟩
  | @cons r r' regions compiled own _ ih =>
      cases formed : r.form with
      | none =>
          have same : r' = r := by
            rw [Domain.compiledRegion, formed] at own
            exact (Except.ok.inj own).symm
          rw [same, List.filter_cons_of_neg (by simp [formed])] at done
          rw [regionTasks, List.filter_cons_of_neg (by simp [formed])]
          exact ih done
      | some form =>
          obtain ⟨k, compiled, rfl⟩ := (compiledRegion_eq_ok formed).mp own
          rw [List.filter_cons_of_pos (by simp [formed])] at done
          rw [regionTasks, List.filter_cons_of_pos (by simp [formed]), List.flatMap_cons]
          cases Outcome.mapM_eq_ok.mp done with
          | @cons _ b _ blocks first later =>
            obtain ⟨jobss, does, becomes⟩ := ih (Outcome.mapM_eq_ok.mpr later)
            obtain ⟨_, parts, stored, kernel, some, normals, made⟩ := ofRegion_made first
            cases stored
            rw [regionPlaces_congr elements rfl] at made
            have named := (CompiledKernel.compile_eq_ok.mp compiled).1
            rw [← kernel] at named
            obtain ⟨jobs, own, become⟩ := made.does fits some named (fun _ => sides_region) fun _ => normals
            refine ⟨jobs :: jobss, .cons own does, ?_⟩
            rw [List.flatten_cons, formed]
            exact List.rel_append become becomes

/-- The blocks of a compiled work piece do the jobs of its tasks. -/
theorem allOfPiece_does (fits : c.Fits s) {w v : WorkPiece} (piece : Domain.compiledPiece rules s backend w = .ok v)
    {blocks : List (Block ℝ)} (done : allOfPiece c v = .ok blocks) :
    ∃ jobss, List.Forall₂ Does blocks jobss ∧
      List.Forall₂ (Task.Becomes rules s c) (w.tasks c.space.mesh) jobss.flatten := by
  obtain ⟨form, k, rs, formed, compiled, mapped, rfl⟩ := Domain.compiledPiece_eq_ok.mp piece
  obtain ⟨b, first, done⟩ := Outcome.bind_eq_ok.mp done
  obtain ⟨others, later, done⟩ := Outcome.bind_eq_ok.mp done
  cases done
  obtain ⟨_, parts, stored, kernel, some, -, made⟩ := ofPiece_made first
  cases stored
  have named := (CompiledKernel.compile_eq_ok.mp compiled).1
  rw [← kernel] at named
  obtain ⟨jobs, own, become⟩ := made.does fits some named (fun _ => sides_inside) fun impossible => nomatch impossible
  obtain ⟨jobss, does, becomes⟩ := regions_does (w := w) fits rfl (Outcome.mapM_eq_ok.mp mapped) later
  refine ⟨jobs :: jobss, .cons own does, ?_⟩
  rw [List.flatten_cons]
  refine List.rel_append ?_ becomes
  rw [formed, ← fits.elements]
  exact become

/-! ### From jobs to blocks -/

theorem located_of_becomes {places : List (Option (Nat × Option Nat))} {form : Option Expr} {jobs : List Job}
    (become : List.Forall₂ (Task.Becomes rules s c) (places.map (⟨form, ·⟩)) jobs) :
    List.Forall₂ c.HoldsAt places (jobs.map (·.part)) := by
  refine List.forall₂_map_right_iff.mpr ((List.forall₂_map_left_iff.mp become).imp fun place j own => ?_)
  obtain ⟨_, there, -, placed, -, holds⟩ := own
  exact ⟨there, placed, holds⟩

variable {b : Backend}

theorem ne_nil_of_matched {places : List (Option (Nat × Option Nat))} {parts : List Part}
    (located : List.Forall₂ c.HoldsAt places parts) (some : places ≠ []) : parts ≠ [] := by
  rintro rfl
  exact some (List.forall₂_nil_right_iff.mp located)

/-- A form with a task that comes to a job can be compiled, under any name. -/
theorem compile_isOk (known : Backend.ofName backend = .ok b) {form : Expr} {places : List (Option (Nat × Option Nat))}
    (some : places ≠ []) {jobs : List Job}
    (become : List.Forall₂ (Task.Becomes rules s c) (places.map (⟨Option.some form, ·⟩)) jobs) {boundary : Bool}
    (sides : ∀ there, Option.some there ∈ places → there.2.isSome = boundary) (name : String) :
    ∃ k, CompiledKernel.compile rules s name boundary backend form = .ok k := by
  obtain ⟨place, member⟩ := List.exists_mem_of_ne_nil places some
  obtain ⟨j, -, _, there, formed, placed, made, -⟩ :=
    Outcome.exists_of_matched_left (List.forall₂_map_left_iff.mp become) member
  cases formed
  dsimp only at placed
  rw [sides there (placed ▸ member)] at made
  exact ⟨⟨{ j.kernel with name }, b⟩, CompiledKernel.compile_eq_ok.mpr ⟨Kernel.ofForm_rename made name, known⟩⟩

theorem regions_isOk (known : Backend.ofName backend = .ok b) {w v : WorkPiece} (elements : v.elements = w.elements)
    {regions : List Region} (filled : ∀ r ∈ regions, r.form.isSome = true → r.facets ≠ []) {jobs : List Job}
    (become : List.Forall₂ (Task.Becomes rules s c) (regionTasks c.space.mesh w regions) jobs) :
    ∃ compiled, regions.mapM (Domain.compiledRegion rules s backend w) = .ok compiled ∧
      ∃ blocks, (compiled.filter (·.form.isSome)).mapM (ofRegion c v) = .ok blocks := by
  induction regions generalizing jobs with
  | nil => exact ⟨[], rfl, [], rfl⟩
  | cons r regions ih =>
      rw [List.forall_mem_cons] at filled
      cases formed : r.form with
      | none =>
          rw [regionTasks, List.filter_cons_of_neg (by simp [formed])] at become
          obtain ⟨compiled, mapped, blocks, done⟩ := ih filled.2 become
          have unchanged : Domain.compiledRegion rules s backend w r = .ok r := by
            rw [Domain.compiledRegion, formed]
            rfl
          refine ⟨r :: compiled, Outcome.mapM_eq_ok.mpr (.cons unchanged (Outcome.mapM_eq_ok.mp mapped)), blocks, ?_⟩
          rw [List.filter_cons_of_neg (by simp [formed])]
          exact done
      | some form =>
          rw [regionTasks, List.filter_cons_of_pos (by simp [formed]), List.flatMap_cons, formed] at become
          obtain ⟨own, others, first, rest, -⟩ := Outcome.matched_append.mp become
          obtain ⟨compiled, mapped, blocks, done⟩ := ih filled.2 rest
          have some : w.regionPlaces c.space.mesh r ≠ [] := by
            rw [WorkPiece.regionPlaces, ne_eq, List.map_eq_nil_iff]
            exact filled.1 (by rw [formed]; rfl)
          obtain ⟨k, made⟩ := compile_isOk known some first (fun _ => sides_region) (w.regionLabel r)
          have places : v.regionPlaces c.space.mesh { r with kernel := Option.some k } =
              w.regionPlaces c.space.mesh r := regionPlaces_congr elements rfl
          have located := located_of_becomes first
          have parts : own.map (·.part) ≠ [] := ne_nil_of_matched located some
          rw [← places] at located
          obtain ⟨block, built⟩ := ofRegion_isOk (r := { r with kernel := Option.some k }) rfl parts located
          refine ⟨{ r with kernel := Option.some k } :: compiled, ?_, block :: blocks, ?_⟩
          · exact Outcome.mapM_eq_ok.mpr (.cons ((compiledRegion_eq_ok formed).mpr ⟨k, made, rfl⟩)
              (Outcome.mapM_eq_ok.mp mapped))
          · rw [List.filter_cons_of_pos (by simp [formed])]
            exact Outcome.mapM_eq_ok.mpr (.cons built (Outcome.mapM_eq_ok.mp done))

/-- A work piece with elements, and with facets wherever a region has a form, has blocks when its tasks come to jobs. -/
theorem allOfPiece_isOk (fits : c.Fits s) (known : Backend.ofName backend = .ok b) {w : WorkPiece}
    (elements : w.elements ≠ []) (filled : ∀ r ∈ w.regions, r.form.isSome = true → r.facets ≠ []) {jobs : List Job}
    (become : List.Forall₂ (Task.Becomes rules s c) (w.tasks c.space.mesh) jobs) :
    ∃ v blocks, Domain.compiledPiece rules s backend w = .ok v ∧ allOfPiece c v = .ok blocks := by
  obtain ⟨own, others, first, rest, -⟩ := Outcome.matched_append.mp become
  have some : w.insidePlaces c.space.mesh.elements.size ≠ [] := by
    rw [WorkPiece.insidePlaces, ne_eq, List.map_eq_nil_iff]
    exact elements
  obtain ⟨form, formed⟩ : ∃ form, w.form = Option.some form := by
    obtain ⟨place, member⟩ := List.exists_mem_of_ne_nil _ some
    obtain ⟨j, -, form, there, formed, -⟩ := Outcome.exists_of_matched_left (List.forall₂_map_left_iff.mp first) member
    exact ⟨form, formed⟩
  rw [formed] at first
  obtain ⟨k, made⟩ := compile_isOk known some first (fun _ => sides_inside) w.name
  have located := located_of_becomes first
  have parts : own.map (·.part) ≠ [] := ne_nil_of_matched located some
  rw [← fits.elements] at located
  obtain ⟨compiled, mapped, blocks, done⟩ :=
    regions_isOk (v := { w with kernel := Option.some k }) known rfl filled rest
  obtain ⟨block, built⟩ := ofPiece_isOk (w := { w with kernel := Option.some k, regions := compiled }) fits.dims rfl parts
    located
  exact ⟨_, block :: blocks, Domain.compiledPiece_eq_ok.mpr ⟨form, k, compiled, formed, made, mapped, rfl⟩,
    Outcome.bind_eq_ok.mpr ⟨block, built, Outcome.bind_eq_ok.mpr ⟨blocks, done, rfl⟩⟩⟩

end Block

end Galerkin
