import Galerkin.ControlPoints
import Galerkin.ElementSpace
import Galerkin.Unknowns
import Galerkin.WorkPiece

/-!
Domains: a mesh with its work pieces, the parameters of their forms and, once it is discretized, the
element space, the control points and the numbered unknowns. Work on a domain changes it step by
step, and what was done before a failure stays done.
-/

namespace Galerkin

/-- The numbering of the unknowns, and their values. -/
structure Numbered (α : Type) where
  dofs : DofMap
  unknowns : Unknowns α
  deriving Repr

/-- The control points of a domain; their unknowns may not have been numbered. -/
structure Discretization (α : Type) where
  space : ElementSpace α
  points : ControlPoints α
  numbered : Option (Numbered α)
  deriving Repr

structure Domain (α : Type) where
  mesh : Mesh α
  pieces : List WorkPiece
  parameters : List (String × α)
  discretization : Option (Discretization α)
  deriving Repr

namespace Domain

variable {α : Type}

def ofMesh (mesh : Mesh α) : Domain α := ⟨mesh, [], [], none⟩

/-- Work that may fail and that changes a domain as far as it gets. -/
abbrev Work (α β : Type) := ExceptT Failure (StateM (Domain α)) β

/-- What can be looked up in a domain without changing it. -/
def ask {β : Type} (question : Domain α → Except Failure β) : Work α β :=
  ExceptT.mk fun d => (question d, d)

def piece (d : Domain α) (name : String) : Except Failure WorkPiece :=
  match d.pieces.find? (·.name = name) with
  | some w => pure w
  | none => throw .absent

def modifyPiece (d : Domain α) (name : String) (f : WorkPiece → WorkPiece) : Domain α :=
  { d with pieces := d.pieces.map fun w => if w.name = name then f w else w }

/-- What there is once a domain has control points. -/
def discretized (d : Domain α) : Except Failure (Discretization α) :=
  match d.discretization with
  | some x => pure x
  | none => throw .noSuchPart

/-- Sets a parameter of all forms. -/
def setParameter (d : Domain α) (name : String) (value : α) : Domain α :=
  { d with parameters := (name, value) :: d.parameters.filter (·.1 ≠ name) }

/-- Adds a work piece over some elements, or over all; without a name it is numbered. -/
def addPiece (name : Option String) (elements : Option (List Int)) : Work α WorkPiece := do
  let d ← get
  if d.discretization.isSome then throw (.misuse .workPieceTooLate)
  let name := (FormError.nonempty name).getD s!"workpiece{d.pieces.length}"
  if d.pieces.any (·.name = name) then throw (.invalid (.duplicateWorkPiece name))
  let all := (List.range d.mesh.elements.size).map Int.ofNat
  let w := WorkPiece.make name (elements.getD all)
  set { d with pieces := d.pieces ++ [w] }
  pure w

/-- Lets a work piece consist of other elements. -/
def setElements (name : String) (elements : List Int) : Work α WorkPiece := do
  let w ← ask (·.piece name)
  let w := { w with elements }
  modify fun d => d.modifyPiece name fun _ => w
  pure w

def addBoundary (name region : String) (facets : List Int) : Work α Unit := do
  let w ← ask (·.piece name)
  let w ← (w.addRegion region facets : Except Failure WorkPiece)
  modify fun d => d.modifyPiece name fun _ => w

def assignForm (name : String) (form : Expr) : Work α Unit :=
  modify fun d => d.modifyPiece name (·.assign form)

def assignBoundaryForm (name region : String) (form : Expr) : Work α Unit :=
  modify fun d => d.modifyPiece name (·.assignBoundary region form)

end Domain

end Galerkin
