import Mathlib
import Galerkin.ElementSpace
import Galerkin.Proofs.Exact
import Galerkin.Proofs.Outcome

/-!
Where the nodes of the elements lie. At first and second order every node is the mean of the corners of its face, so
that its place in a mesh depends on these corners only.
-/

namespace Galerkin

namespace Element

def cornerNodes (cell : Cell) : List (List Rat) := cell.corners.map fun corner => corner.map Int.cast

/-- The weights of a cell's corners that give the mean of some of them. -/
def meanWeights (cell : Cell) (entity : List Nat) : List Rat :=
  (List.range cell.cornerCount).map fun c => if entity.contains c then mkRat 1 entity.length else 0

/-- Corners in ascending order with the weights that give their mean. -/
structure Mean (cell : Cell) (entity : List Nat) (weights : List Rat) : Prop where
  corners : entity = (List.range cell.cornerCount).filter entity.contains
  weights : weights = meanWeights cell entity

instance (cell : Cell) (entity : List Nat) (weights : List Rat) : Decidable (Mean cell entity weights) :=
  decidable_of_iff (entity = (List.range cell.cornerCount).filter entity.contains ∧ weights = meanWeights cell entity)
    ⟨fun both => ⟨both.1, both.2⟩, fun m => ⟨m.1, m.2⟩⟩

/-- The nodes of all elements. -/
def latticeNodes (cell : Cell) : List (List Rat) := Lattice.lagrangePoints cell 1 ++ Lattice.lagrangePoints cell 2

theorem arranged_perm (cell : Cell) (nodes : List (List Rat)) : ((arranged cell nodes).map (·.2)).Perm nodes := by
  refine ((List.mergeSort_perm _ _).map _).trans (List.Perm.of_eq ?_)
  rw [List.map_map]
  exact List.map_id _

theorem arranged_corners (cell : Cell) :
    (arranged cell (Lattice.lagrangePoints cell 1)).map (·.2) = cornerNodes cell := by
  cases cell <;> cbv

theorem mean_latticeNodes (cell : Cell) :
    ∀ basis ∈ (nodalBasis (cornerNodes cell) (Lattice.lagrangeExponents cell 1)).toOption, ∀ x ∈ latticeNodes cell,
      Mean cell (cell.supporting entityTolerance x) (basis.map (·.eval x)) := by
  cases cell <;> decide +kernel

/-- The linear weights of every node give the mean of the corners of its face. -/
theorem mean_of_lagrange {cell : Cell} {corner : Element} (made : lagrange cell 1 = .ok corner) {x : List Rat}
    (known : x ∈ latticeNodes cell) : Mean cell (cell.supporting entityTolerance x) (corner.values x) := by
  obtain ⟨nodes, placed, made⟩ := Outcome.bind_eq_ok.mp made
  cases placed
  obtain ⟨basis, found, made⟩ := Outcome.bind_eq_ok.mp made
  cases made
  have corners : nodalBasis (cornerNodes cell) (Lattice.lagrangeExponents cell 1) = .ok basis := by
    rw [← arranged_corners]
    exact found
  exact mean_latticeNodes cell basis (by rw [corners]; rfl) x known

/-! ### Kinds of elements -/

/-- What nodes and monomials an element has. -/
inductive Kind where
  | linear | quadratic | serendipity
  deriving DecidableEq

namespace Kind

def points (k : Kind) (cell : Cell) : List (List ℚ) :=
  match k with
  | linear => Lattice.lagrangePoints cell 1
  | quadratic => Lattice.lagrangePoints cell 2
  | serendipity => (Lattice.lagrangePoints cell 2).filter (Lattice.onEdge cell)

def exponents (k : Kind) (cell : Cell) : List (List Nat) :=
  match k with
  | linear => Lattice.lagrangeExponents cell 1
  | quadratic => Lattice.lagrangeExponents cell 2
  | serendipity => (Lattice.lagrangeExponents cell 2).filter fun e => Lattice.superlinearDegree e ≤ 2

/-- Is there such an element for a cell? Serendipity elements are made for cubes. -/
def Fits (k : Kind) (cell : Cell) : Prop := k = serendipity → cell.isSimplex = false

instance (k : Kind) (cell : Cell) : Decidable (k.Fits cell) := inferInstanceAs (Decidable (_ → _))

theorem length_exponents {k : Kind} {cell : Cell} (fits : k.Fits cell) :
    (k.exponents cell).length = (k.points cell).length := by
  cases k
  · cases cell <;> decide +kernel
  · cases cell <;> decide +kernel
  · revert fits
    cases cell <;> decide +kernel

theorem mem_latticeNodes {k : Kind} {cell : Cell} {x : List ℚ} (member : x ∈ k.points cell) : x ∈ latticeNodes cell := by
  cases k
  · exact List.mem_append_left _ member
  · exact List.mem_append_right _ member
  · exact List.mem_append_right _ (List.mem_filter.mp member).1

end Kind

/-- An element of some kind: its nodes in some order, with the faces that they lie inside. -/
structure OfKind (k : Kind) (cell : Cell) (e : Element) : Prop where
  shape : e.cell = cell
  fits : k.Fits cell
  nodes : e.nodes.Perm (k.points cell)
  entities : e.entities = e.nodes.map (cell.supporting entityTolerance)
  basis : nodalBasis e.nodes (k.exponents cell) = .ok e.basis

theorem ofKind_ofLattice {k : Kind} {cell : Cell} {family : Family} {order : Nat} {e : Element} (fits : k.Fits cell)
    (made : ofLattice cell family order (k.points cell) (k.exponents cell) = .ok e) : OfKind k cell e := by
  obtain ⟨basis, found, made⟩ := Outcome.bind_eq_ok.mp made
  cases made
  have perm := List.mergeSort_perm ((k.points cell).map fun x => (cell.supporting entityTolerance x, x)) beforeOrEqual
  refine ⟨rfl, fits, arranged_perm cell (k.points cell), ?_, found⟩
  rw [List.map_map]
  refine List.map_congr_left fun t listed => ?_
  obtain ⟨x, -, rfl⟩ := List.mem_map.mp (perm.mem_iff.mp listed)
  rfl

theorem ofKind_ofCell {cell : Cell} {family : String} {order : Int} {e : Element} (made : ofCell cell family order = .ok e) :
    ∃ k, OfKind k cell e := by
  obtain ⟨_, _, made⟩ := Outcome.bind_eq_ok.mp made
  split at made
  · split at made
    · cases made
    obtain ⟨points, placed, made⟩ := Outcome.bind_eq_ok.mp made
    obtain ⟨exponents, taken, made⟩ := Outcome.bind_eq_ok.mp made
    obtain ⟨_, checked, placed⟩ := Outcome.bind_eq_ok.mp placed
    obtain ⟨_, _, taken⟩ := Outcome.bind_eq_ok.mp taken
    cases placed
    cases taken
    refine ⟨.serendipity, ofKind_ofLattice (fun _ => ?_) made⟩
    unfold Lattice.checkSerendipity at checked
    split at checked
    · cases checked
    · next cube => exact Bool.eq_false_of_not_eq_true fun simplex => cube (by simp [simplex])
  · split at made
    · cases made
    next within =>
    obtain ⟨points, placed, made⟩ := Outcome.bind_eq_ok.mp made
    have orders : order = 1 ∨ order = 2 := by
      simp only [Bool.or_eq_true, decide_eq_true_eq, not_or, not_lt] at within
      omega
    rcases orders with rfl | rfl
    · cases placed
      exact ⟨.linear, ofKind_ofLattice nofun made⟩
    · cases placed
      exact ⟨.quadratic, ofKind_ofLattice nofun made⟩

end Element

end Galerkin
