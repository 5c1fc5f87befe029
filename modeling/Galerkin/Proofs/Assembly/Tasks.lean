import Mathlib
import Galerkin.Proofs.Assembly.Blocks
import Galerkin.Proofs.Assembly.Numbering
import Galerkin.Proofs.Kernel.Naming
import Galerkin.Proofs.Tabulation

/-!
A block evaluates each of its elements or facets as if it were alone: what an entity contributes depends on its own
control points, numbers and tabulated basis.

What a domain has to assemble, entity by entity, and what its blocks hold for that. An element has its own place; a
facet has its place in the element that owns it.
-/

namespace Galerkin

open Linear

/-- What a block holds of one of its elements or facets. -/
structure Part where
  points : List Nat
  dofs : List Nat
  data : List (PointData ℝ)

namespace Part

/-- The values of one vector at the unknowns of an entity. -/
noncomputable def gather (p : Part) (width : Nat) (x : Vec ℝ) : NodalValues ℝ :=
  ⟨1, p.points.length, width, (p.dofs.map fun i => x.toArray.getD i 0).toArray⟩

noncomputable def gatherPrescribed (p : Part) (width : Nat) (prescribed : Array (List ℝ)) : NodalValues ℝ :=
  ⟨1, p.points.length, width, (p.points.flatMap fun q => prescribed.getD q []).toArray⟩

noncomputable def inputs (p : Part) (k : Kernel) (s : AssemblyState ℝ) (params : List ℝ) : Kernel.Inputs ℝ :=
  ⟨p.gather k.width s.x, p.gather k.width s.rate, p.gatherPrescribed k.externalWidth s.prescribed, params⟩

/-- The system of one entity. -/
noncomputable def system (p : Part) (k : Kernel) (s : AssemblyState ℝ) : Except Failure (ElementSystem ℝ) := do
  let params ← k.paramValues (.named s.parameters)
  k.elementSystem (p.inputs k s params) s.rateWeight p.points.length 0 p.data

end Part

namespace Block

/-- A block holds some parts, one for each entity. -/
structure Holds (b : Block ℝ) (parts : List Part) : Prop where
  points : b.points = parts.map (·.points)
  dofs : b.dofs = parts.map (·.dofs)
  data : b.tab.entities = parts.map (·.data)
  even : ∀ p ∈ parts, p.points.length = b.tab.basisCount
  full : ∀ p ∈ parts, p.dofs.length = p.points.length * b.kernel.width

variable {b : Block ℝ} {parts : List Part} {e : Nat} {p : Part}

variable (holds : b.Holds parts) (here : parts[e]? = some p)

include holds here

theorem agree_gather (x : Vec ℝ) : Kernel.Agree (b.gather x) e (p.gather b.kernel.width x) 0 := by
  have length : ∀ q ∈ parts, (q.dofs.map fun i => x.toArray.getD i 0).length = b.tab.basisCount * b.kernel.width := by
    intro q member
    rw [List.length_map, holds.full q member, holds.even q member]
  have rows : b.dofs.flatMap (fun row => row.map fun i => x.toArray.getD i 0) =
      parts.flatMap fun q => q.dofs.map fun i => x.toArray.getD i 0 := by
    rw [holds.dofs, List.flatMap_map]
  have agree := Kernel.agree_flatMap length here
  rw [Part.gather, holds.even p (List.mem_of_getElem? here), gather, rows, holds.dofs, List.length_map]
  exact agree

theorem agree_gatherPrescribed {prescribed : Array (List ℝ)}
    (wide : ∀ q ∈ parts, ∀ i ∈ q.points, (prescribed.getD i []).length = b.kernel.externalWidth) :
    Kernel.Agree (b.gatherPrescribed prescribed) e (p.gatherPrescribed b.kernel.externalWidth prescribed) 0 := by
  have length : ∀ q ∈ parts, (q.points.flatMap fun i => prescribed.getD i []).length =
      b.tab.basisCount * b.kernel.externalWidth := by
    intro q member
    rw [List.length_flatMap, List.map_congr_left (wide q member), List.map_const', List.sum_replicate,
      smul_eq_mul, holds.even q member]
  have rows : b.points.flatMap (fun row => row.flatMap fun i => prescribed.getD i []) =
      parts.flatMap fun q => q.points.flatMap fun i => prescribed.getD i [] := by
    rw [holds.points, List.flatMap_map]
  have agree := Kernel.agree_flatMap length here
  rw [Part.gatherPrescribed, holds.even p (List.mem_of_getElem? here), gatherPrescribed, rows, holds.points,
    List.length_map]
  exact agree

omit holds here

/-- A block contributes what its parts do by themselves. -/
theorem contributions_eq_ok_iff {s : AssemblyState ℝ} {cs : List (Contribution ℝ)} (holds : b.Holds parts)
    (some : parts ≠ []) (normals : b.kernel.usesNormal = true → b.tab.hasNormals = true)
    (wide : ∀ p ∈ parts, ∀ i ∈ p.points, (s.prescribed.getD i []).length = b.kernel.externalWidth) :
    b.contributions s = .ok cs ↔ ∃ systems,
      List.Forall₂ (fun p sys => p.system b.kernel s = .ok sys) parts systems ∧
        cs = List.zipWith (fun p sys => ⟨p.dofs, sys⟩) parts systems := by
  have count : b.tab.entities.length = parts.length := by rw [holds.data, List.length_map]
  have each (values : List ℝ) (systems : List (ElementSystem ℝ)) :
      List.Forall₂ (fun t sys => b.kernel.elementSystem ⟨b.gather s.x, b.gather s.rate,
        b.gatherPrescribed s.prescribed, values⟩ s.rateWeight b.tab.basisCount t.2 t.1 = .ok sys)
        b.tab.entities.zipIdx systems ↔
      List.Forall₂ (fun p sys => b.kernel.elementSystem (p.inputs b.kernel s values) s.rateWeight p.points.length 0
        p.data = .ok sys) parts systems := by
    rw [holds.data, List.zipIdx_map, List.forall₂_map_left_iff]
    refine Outcome.matched_zipIdx fun e p here sys => ?_
    have same := Kernel.elementSystem_congr b.kernel
      ⟨b.gather s.x, b.gather s.rate, b.gatherPrescribed s.prescribed, values⟩ (p.inputs b.kernel s values)
      (agree_gather holds here s.x) (agree_gather holds here s.rate) (agree_gatherPrescribed holds here wide) rfl
      s.rateWeight b.tab.basisCount p.data
    change b.kernel.elementSystem _ _ _ e p.data = _ ↔ _
    rw [same, holds.even p (List.mem_of_getElem? here)]
  have rows (systems : List (ElementSystem ℝ)) : List.zipWith Contribution.mk b.dofs systems =
      List.zipWith (fun p sys => ⟨p.dofs, sys⟩) parts systems := by
    rw [holds.dofs, List.zipWith_map_left]
  unfold contributions
  rw [Outcome.bind_eq_ok]
  simp only [Kernel.evaluate_eq_ok, Option.getD_some, rows, Outcome.pure_eq_ok]
  constructor
  · rintro ⟨systems, ⟨-, -, -, values, valued, matched⟩, rfl⟩
    refine ⟨systems, ((each values systems).mp matched).imp fun p sys done => ?_, rfl⟩
    exact Outcome.bind_eq_ok.mpr ⟨values, valued, done⟩
  · rintro ⟨systems, matched, rfl⟩
    obtain ⟨p, member⟩ := List.exists_mem_of_ne_nil parts some
    obtain ⟨_, -, done⟩ := Outcome.exists_of_matched_left matched member
    obtain ⟨values, valued, -⟩ := Outcome.bind_eq_ok.mp done
    refine ⟨systems, ⟨?_, ?_, normals, values, valued, (each values systems).mpr (matched.imp fun p sys own => ?_)⟩, rfl⟩
    · rw [NodalValues.shape, gather, count, holds.dofs, List.length_map]
    · rw [NodalValues.shape, gatherPrescribed, count, holds.points, List.length_map]
    · obtain ⟨_, again, own⟩ := Outcome.bind_eq_ok.mp own
      cases valued.symm.trans again
      exact own

end Block

end Galerkin

/-! ### Tasks -/

namespace Galerkin

/-- A form inside an element or, when a facet of the element is named, on this facet. What is not there has no place. -/
structure Task where
  form : Option Expr
  place : Option (Nat × Option Nat)

namespace WorkPiece

variable {α : Type}

/-- The element of a work piece that owns a facet, with the number of the facet there. -/
def owner? (mesh : Mesh α) (w : WorkPiece) (facet : Int) : Option (Nat × Nat) :=
  (Block.ownerOf mesh w ⟨w.name, none⟩ facet).toOption

/-- The places of the elements of a work piece. -/
def insidePlaces (count : Nat) (w : WorkPiece) : List (Option (Nat × Option Nat)) :=
  w.elements.map fun e => (position? count e).map (·, none)

/-- The places of the facets of a region. -/
def regionPlaces (mesh : Mesh α) (w : WorkPiece) (r : Region) : List (Option (Nat × Option Nat)) :=
  r.facets.map fun f => (w.owner? mesh f).map fun o => (o.1, some o.2)

/-- What there is to assemble on a work piece: its elements, and the facets of the regions with a form. -/
def tasks (mesh : Mesh α) (w : WorkPiece) : List Task :=
  (w.insidePlaces mesh.elements.size).map (⟨w.form, ·⟩) ++
    (w.regions.filter (·.form.isSome)).flatMap fun r => (w.regionPlaces mesh r).map (⟨r.form, ·⟩)

end WorkPiece

def Domain.tasks {α : Type} (d : Domain α) : List Task := d.pieces.flatMap (·.tasks d.mesh)

namespace Block

/-- Where the block acts matters to failures only. -/
theorem ownerOf_eq_ok {α : Type} {mesh : Mesh α} {w : WorkPiece} {place : Place} {facet : Int} {o : Nat × Nat} :
    ownerOf mesh w place facet = .ok o ↔ w.owner? mesh facet = some o := by
  unfold WorkPiece.owner? ownerOf
  split
  · simp [Except.toOption, throw, throwThe, MonadExceptOf.throw]
  · split <;> simp [Except.toOption, throw, throwThe, MonadExceptOf.throw, pure, Except.pure]

theorem mapM_id_map_some (ys : List Nat) : (ys.map some).mapM id = some ys := by
  induction ys with
  | nil => rfl
  | cons y ys ih =>
      rw [List.map_cons, List.mapM_cons, ih]
      rfl

theorem numbers_eq_ok_iff {m : DofMap} {place : Place} {entity : Int} {points row : List Nat} :
    numbers m place entity points = .ok row ↔ m.elementDofs points = row.map some := by
  have all : (m.elementDofs points).mapM id = some row ↔ m.elementDofs points = row.map some := by
    exact ⟨mapM_id_eq_some, fun same => same ▸ mapM_id_map_some row⟩
  rw [← all]
  unfold numbers
  split
  · next found => simp [found]
  · next missing => simp [missing]

theorem numberRows_eq_ok_iff {m : DofMap} {place : Place} {entities : List Int} {rows dofs : List (List Nat)}
    (full : entities.length = rows.length) (some : rows ≠ []) :
    numberRows m place entities rows = .ok dofs ↔
      List.Forall₂ (fun row numbers => m.elementDofs row = numbers.map Option.some) rows dofs := by
  unfold numberRows
  rw [if_neg (by simpa using some), Outcome.mapM_eq_ok]
  simp only [numbers_eq_ok_iff]
  have second : (entities.zip rows).map Prod.snd = rows := List.map_snd_zip (by omega)
  have matched := List.forall₂_map_left_iff (f := Prod.snd) (l := entities.zip rows) (u := dofs)
    (R := fun row numbers => m.elementDofs row = numbers.map Option.some)
  rw [second] at matched
  exact matched.symm

variable {c : Context ℝ}

/-- The tabulated basis of an element with given control points, or of a facet of it. -/
noncomputable def Context.dataOf (c : Context ℝ) (facet : Option Nat) (points : List Nat) :
    Except Failure (List (PointData ℝ)) :=
  let net := points.map fun p => c.space.positions.getD p []
  let rule := fun (cell : Cell) => Quadrature.ofCell c.lines cell c.space.quadratureOrder
  match facet with
  | none => Tabulation.volumeData c.space.element c.space.mesh.dim (rule c.space.mesh.cell) net
  | some l => Tabulation.facetData c.space.element c.space.mesh.dim (rule c.space.mesh.cell.facetCell) l net

/-- What a block holds of the element or facet at a place. -/
structure Context.Holds (c : Context ℝ) (place : Nat × Option Nat) (p : Part) : Prop where
  points : c.space.controlPoints[place.1]? = some p.points
  dofs : c.dofs.elementDofs p.points = p.dofs.map some
  data : c.dataOf place.2 p.points = .ok p.data

theorem Context.Holds.unique {place : Nat × Option Nat} {p q : Part} (first : c.Holds place p)
    (second : c.Holds place q) : p = q := by
  obtain ⟨points, dofs, data⟩ := p
  obtain ⟨points', dofs', data'⟩ := q
  cases Option.some.inj (first.points.symm.trans second.points)
  cases List.map_injective_iff.mpr (Option.some_injective Nat) (first.dofs.symm.trans second.dofs)
  cases Except.ok.inj (first.data.symm.trans second.data)
  rfl

/-! ### Blocks of work pieces and regions -/

/-- Is something held at a place that there is? -/
def Context.HoldsAt (c : Context ℝ) (place : Option (Nat × Option Nat)) (p : Part) : Prop :=
  ∃ there, place = some there ∧ c.Holds there p

/-- A block whose parts are those of some places. -/
structure Made (c : Context ℝ) (places : List (Option (Nat × Option Nat))) (b : Block ℝ) (parts : List Part) : Prop where
  located : List.Forall₂ c.HoldsAt places parts
  points : b.points = parts.map (·.points)
  dofs : b.dofs = parts.map (·.dofs)
  data : b.tab.entities = parts.map (·.data)
  count : b.tab.basisCount = c.space.element.size

theorem elementPoints_eq_ok {space : ElementSpace ℝ} {e : Int} {row : List Nat} :
    space.elementPoints e = .ok row ↔
      ∃ i, position? space.controlPoints.size e = some i ∧ space.controlPoints[i]? = some row := by
  unfold ElementSpace.elementPoints
  rw [← Option.bind_eq_some_iff]
  split
  · next points found => simp [found]
  · next missing => simp [missing]

theorem position?_ofNat {size n : Nat} (inside : n < size) : position? size (Int.ofNat n) = some n := by
  simp [position?, inside]

theorem position?_ofNat_eq_some {size n i : Nat} (position : position? size (Int.ofNat n) = some i) : i = n := by
  unfold position? at position
  split at position
  · split at position
    · cases position
      rfl
    · cases position
  · next negative => exact absurd (Int.natCast_nonneg n) negative

/-- Rows of control points, numbers and data of some places are those of parts. -/
theorem exists_parts {places : List (Option (Nat × Option Nat))} {rows dofs : List (List Nat)}
    {entities : List (List (PointData ℝ))}
    (points : List.Forall₂ (fun place row => ∃ there, place = some there ∧ c.space.controlPoints[there.1]? = some row)
      places rows)
    (numbers : List.Forall₂ (fun row numbers => c.dofs.elementDofs row = numbers.map some) rows dofs)
    (data : List.Forall₂ (fun t d => ∀ there, t.1 = some there → c.dataOf there.2 t.2 = .ok d)
      (places.zip rows) entities) :
    ∃ parts, List.Forall₂ c.HoldsAt places parts ∧ rows = parts.map (·.points) ∧ dofs = parts.map (·.dofs) ∧
      entities = parts.map (·.data) := by
  induction points generalizing dofs entities with
  | nil =>
      cases numbers
      cases data
      exact ⟨[], .nil, rfl, rfl, rfl⟩
  | @cons place row places rows first _ ih =>
      cases numbers with
      | @cons _ own _ dofs second others =>
      cases data with
      | @cons _ d _ entities third rest =>
      obtain ⟨parts, located, same, numbered, tabulated⟩ := ih others rest
      obtain ⟨there, rfl, found⟩ := first
      have holds : c.Holds there ⟨row, own, d⟩ := ⟨found, second, third there rfl⟩
      refine ⟨⟨row, own, d⟩ :: parts, .cons ⟨there, rfl, holds⟩ located, ?_, ?_, ?_⟩
      · rw [List.map_cons, same]
      · rw [List.map_cons, numbered]
      · rw [List.map_cons, tabulated]

/-- The block inside a work piece. -/
theorem ofPiece_made {w : WorkPiece} {b : Block ℝ} (done : ofPiece c w = .ok b) :
    ∃ k parts, w.kernel = some k ∧ b.kernel = k.kernel ∧ parts ≠ [] ∧ b.tab.hasNormals = false ∧
      Made c (w.insidePlaces c.space.controlPoints.size) b parts := by
  unfold ofPiece at done
  split at done
  · next k compiled =>
      obtain ⟨rows, found, done⟩ := Outcome.bind_eq_ok.mp done
      obtain ⟨dofs, numbers, done⟩ := Outcome.bind_eq_ok.mp done
      obtain ⟨tab, tabulated, done⟩ := Outcome.bind_eq_ok.mp done
      cases done
      obtain ⟨dim, size, entities, matched, rfl⟩ := Tabulation.onVolumes_eq_ok.mp tabulated
      have read := Outcome.mapM_eq_ok.mp found
      have some : rows ≠ [] := by
        intro empty
        simp [numberRows, empty] at numbers
      have numbered := (numberRows_eq_ok_iff read.length_eq some).mp numbers
      have located : List.Forall₂ (fun place row => ∃ there, place = Option.some there ∧
          c.space.controlPoints[there.1]? = Option.some row) (w.insidePlaces c.space.controlPoints.size) rows := by
        refine List.forall₂_map_left_iff.mpr (read.imp fun e row own => ?_)
        obtain ⟨i, position, here⟩ := elementPoints_eq_ok.mp own
        exact ⟨(i, none), by rw [position]; rfl, here⟩
      have zipped : ((w.insidePlaces c.space.controlPoints.size).zip rows).map Prod.snd = rows :=
        List.map_snd_zip located.length_eq.ge
      have data : List.Forall₂ (fun t d => ∀ there, t.1 = Option.some there → c.dataOf there.2 t.2 = .ok d)
          ((w.insidePlaces c.space.controlPoints.size).zip rows) entities := by
        have all := List.forall₂_map_left_iff.mp matched
        rw [← zipped] at all
        have each := (List.forall₂_and_left _ _).mpr ⟨fun _ member => member, List.forall₂_map_left_iff.mp all⟩
        refine each.imp fun t d own there place => ?_
        obtain ⟨e, -, inside⟩ := List.mem_map.mp (List.of_mem_zip own.1).1
        rw [place] at inside
        obtain ⟨i, -, rfl⟩ := Option.map_eq_some_iff.mp inside
        exact own.2
      obtain ⟨parts, held, points, dofs, data⟩ := exists_parts located numbered data
      refine ⟨k, parts, compiled, rfl, ?_, rfl, held, points, dofs, data, rfl⟩
      rintro rfl
      exact some points
  · cases done

/-- The block on a region. -/
theorem ofRegion_made {w : WorkPiece} {r : Region} {b : Block ℝ} (done : ofRegion c w r = .ok b) :
    ∃ k parts, r.kernel = some k ∧ b.kernel = k.kernel ∧ parts ≠ [] ∧ b.tab.hasNormals = true ∧
      Made c (w.regionPlaces c.space.mesh r) b parts := by
  unfold ofRegion at done
  split at done
  · next k compiled =>
      obtain ⟨owners, owned, done⟩ := Outcome.bind_eq_ok.mp done
      obtain ⟨rows, found, done⟩ := Outcome.bind_eq_ok.mp done
      obtain ⟨dofs, numbers, done⟩ := Outcome.bind_eq_ok.mp done
      obtain ⟨tab, tabulated, done⟩ := Outcome.bind_eq_ok.mp done
      cases done
      have read := List.forall₂_map_left_iff.mp (Outcome.mapM_eq_ok.mp found)
      have owned := Outcome.mapM_eq_ok.mp owned
      have places : w.regionPlaces c.space.mesh r = owners.map fun o => some (o.1, some o.2) := by
        refine (Outcome.map_eq_of_matched (owned.imp fun f o own => ?_)).symm
        rw [ownerOf_eq_ok.mp own]
        rfl
      have full : (owners.map fun o => Int.ofNat o.2).length = (c.space.netsOf rows).nets.length := by
        rw [List.length_map, ElementSpace.netsOf, List.length_map, read.length_eq]
      obtain ⟨entities, matched, rfl⟩ := (Tabulation.onFacets_eq_ok full rfl).mp tabulated
      have some : rows ≠ [] := by
        intro empty
        simp [numberRows, empty] at numbers
      have numbered := (numberRows_eq_ok_iff (owned.length_eq.trans read.length_eq) some).mp numbers
      have located : List.Forall₂ (fun place row => ∃ there, place = Option.some there ∧
          c.space.controlPoints[there.1]? = Option.some row) (w.regionPlaces c.space.mesh r) rows := by
        rw [places]
        refine List.forall₂_map_left_iff.mpr (read.imp fun o row own => ?_)
        obtain ⟨i, position, here⟩ := elementPoints_eq_ok.mp own
        cases position?_ofNat_eq_some position
        exact ⟨(o.1, Option.some o.2), rfl, here⟩
      have data : List.Forall₂ (fun t d => ∀ there, t.1 = Option.some there → c.dataOf there.2 t.2 = .ok d)
          ((w.regionPlaces c.space.mesh r).zip rows) entities := by
        have pairs : (c.space.netsOf rows).nets.zip (owners.map fun o => Int.ofNat o.2) =
            (owners.zip rows).map fun t => (t.2.map fun p => c.space.positions.getD p [], Int.ofNat t.1.2) := by
          rw [ElementSpace.netsOf, List.zip_map, ← List.zip_swap owners rows, List.map_map]
          rfl
        rw [pairs] at matched
        rw [places, List.zip_map_left]
        refine List.forall₂_map_left_iff.mpr ((List.forall₂_map_left_iff.mp matched).imp fun t d own there place => ?_)
        cases place
        exact own
      obtain ⟨parts, held, points, dofs, data⟩ := exists_parts located numbered data
      refine ⟨k, parts, compiled, rfl, ?_, rfl, held, points, dofs, data, rfl⟩
      rintro rfl
      exact some points
  · cases done

theorem numberRows_isOk {places : List (Option (Nat × Option Nat))} {parts : List Part}
    (located : List.Forall₂ c.HoldsAt places parts) (some : parts ≠ []) (place : Place) {entities : List Int}
    (full : entities.length = places.length) :
    numberRows c.dofs place entities (parts.map (·.points)) = .ok (parts.map (·.dofs)) := by
  have matched : List.Forall₂ (fun p q : Part => c.dofs.elementDofs p.points = q.dofs.map Option.some) parts parts := by
    refine List.forall₂_same.mpr fun p member => ?_
    obtain ⟨_, -, there, -, holds⟩ := Outcome.exists_of_matched located member
    exact holds.dofs
  refine (numberRows_eq_ok_iff ?_ ?_).mpr ?_
  · rw [full, located.length_eq, List.length_map]
  · simpa using some
  · exact List.forall₂_map_left_iff.mpr (List.forall₂_map_right_iff.mpr matched)

/-- There is a block inside a work piece that is compiled and has elements, with everything in its places. -/
theorem ofPiece_isOk (dims : c.space.mesh.dim = c.space.element.dim) {w : WorkPiece} {k : CompiledKernel}
    (compiled : w.kernel = some k) {parts : List Part} (some : parts ≠ [])
    (located : List.Forall₂ c.HoldsAt (w.insidePlaces c.space.controlPoints.size) parts) :
    ∃ b, ofPiece c w = .ok b := by
  have inside : List.Forall₂ (fun e p => ∃ i, position? c.space.controlPoints.size e = Option.some i ∧
      c.Holds (i, none) p) w.elements parts := by
    refine (List.forall₂_map_left_iff.mp located).imp fun e p held => ?_
    obtain ⟨there, place, holds⟩ := held
    obtain ⟨i, position, rfl⟩ := Option.map_eq_some_iff.mp place
    exact ⟨i, position, holds⟩
  have rows : w.elements.mapM c.space.elementPoints = .ok (parts.map (·.points)) := by
    refine Outcome.mapM_eq_ok.mpr (List.forall₂_map_right_iff.mpr (inside.imp fun e p held => ?_))
    obtain ⟨i, position, holds⟩ := held
    exact elementPoints_eq_ok.mpr ⟨i, position, holds.points⟩
  have data : List.Forall₂ (fun net data => Tabulation.volumeData c.space.element c.space.mesh.dim
      (Quadrature.ofCell c.lines c.space.mesh.cell c.space.quadratureOrder) net = .ok data)
      (c.space.netsOf (parts.map (·.points))).nets (parts.map (·.data)) := by
    rw [ElementSpace.netsOf, List.map_map]
    refine List.forall₂_map_left_iff.mpr (List.forall₂_map_right_iff.mpr (List.forall₂_same.mpr fun p member => ?_))
    obtain ⟨e, -, i, -, holds⟩ := Outcome.exists_of_matched inside member
    exact holds.data
  have full : w.elements.length = (w.insidePlaces c.space.controlPoints.size).length := (List.length_map _).symm
  have numbers := numberRows_isOk located some ⟨w.name, none⟩ full
  have tabulated : Tabulation.onVolumes c.space.element (c.space.netsOf (parts.map (·.points)))
      (Quadrature.ofCell c.lines c.space.mesh.cell c.space.quadratureOrder) (Option.some w.elements) = .ok _ :=
    Tabulation.onVolumes_eq_ok.mpr ⟨dims, rfl, _, data, rfl⟩
  unfold ofPiece
  rw [compiled]
  exact ⟨_, Outcome.bind_eq_ok.mpr ⟨_, rows, Outcome.bind_eq_ok.mpr ⟨_, numbers,
    Outcome.bind_eq_ok.mpr ⟨_, tabulated, rfl⟩⟩⟩⟩

theorem zipped_data {owners : List (Nat × Nat)} {parts : List Part}
    (held : List.Forall₂ (fun o p => c.Holds (o.1, some o.2) p) owners parts) :
    List.Forall₂ (fun (t : List (List ℝ) × Int) data => Tabulation.facetData c.space.element c.space.mesh.dim
        (Quadrature.ofCell c.lines c.space.mesh.cell.facetCell c.space.quadratureOrder) t.2 t.1 = .ok data)
      ((parts.map ((fun row => row.map fun p => c.space.positions.getD p []) ∘ (·.points))).zip
        (owners.map fun o => Int.ofNat o.2))
      (parts.map (·.data)) := by
  induction held with
  | nil => exact .nil
  | cons holds _ ih => exact .cons holds.data ih

/-- There is a block on a region that is compiled and has facets, with everything in its places. -/
theorem ofRegion_isOk {w : WorkPiece} {r : Region} {k : CompiledKernel} (compiled : r.kernel = some k)
    {parts : List Part} (some : parts ≠ [])
    (located : List.Forall₂ c.HoldsAt (w.regionPlaces c.space.mesh r) parts) :
    ∃ b, ofRegion c w r = .ok b := by
  have owned : List.Forall₂ (fun f p => ∃ o, ownerOf c.space.mesh w ⟨w.name, Option.some r.name⟩ f = .ok o ∧
      c.Holds (o.1, Option.some o.2) p) r.facets parts := by
    refine (List.forall₂_map_left_iff.mp located).imp fun f p held => ?_
    obtain ⟨there, place, holds⟩ := held
    obtain ⟨o, owner, rfl⟩ := Option.map_eq_some_iff.mp place
    exact ⟨o, ownerOf_eq_ok.mpr owner, holds⟩
  obtain ⟨owners, first, held⟩ := Outcome.matched_comp.mpr owned
  have rows : (owners.map fun o => Int.ofNat o.1).mapM c.space.elementPoints = .ok (parts.map (·.points)) := by
    refine Outcome.mapM_eq_ok.mpr (List.forall₂_map_left_iff.mpr (List.forall₂_map_right_iff.mpr ?_))
    refine held.imp fun o p holds => elementPoints_eq_ok.mpr ⟨o.1, ?_, holds.points⟩
    exact position?_ofNat (Array.getElem?_eq_some_iff.mp holds.points).1
  have data : List.Forall₂ (fun (t : List (List ℝ) × Int) data => Tabulation.facetData c.space.element
      c.space.mesh.dim (Quadrature.ofCell c.lines c.space.mesh.cell.facetCell c.space.quadratureOrder) t.2 t.1 =
        .ok data)
      ((c.space.netsOf (parts.map (·.points))).nets.zip (owners.map fun o => Int.ofNat o.2))
      (parts.map (·.data)) := by
    rw [ElementSpace.netsOf, List.map_map]
    exact zipped_data held
  have count : r.facets.length = (w.regionPlaces c.space.mesh r).length := (List.length_map _).symm
  have numbers := numberRows_isOk located some ⟨w.name, Option.some r.name⟩ count
  have full : (owners.map fun o => Int.ofNat o.2).length = (c.space.netsOf (parts.map (·.points))).nets.length := by
    rw [ElementSpace.netsOf, List.length_map, List.length_map, List.length_map, held.length_eq]
  have tabulated : Tabulation.onFacets c.space.element (c.space.netsOf (parts.map (·.points)))
      (owners.map fun o => Int.ofNat o.2) (Quadrature.ofCell c.lines c.space.mesh.cell.facetCell c.space.quadratureOrder)
      (Option.some (owners.map fun o => Int.ofNat o.1)) = .ok _ :=
    (Tabulation.onFacets_eq_ok full rfl).mpr ⟨_, data, rfl⟩
  unfold ofRegion
  rw [compiled]
  exact ⟨_, Outcome.bind_eq_ok.mpr ⟨_, Outcome.mapM_eq_ok.mpr first, Outcome.bind_eq_ok.mpr ⟨_, rows,
    Outcome.bind_eq_ok.mpr ⟨_, numbers, Outcome.bind_eq_ok.mpr ⟨_, tabulated, rfl⟩⟩⟩⟩⟩

end Block

end Galerkin
