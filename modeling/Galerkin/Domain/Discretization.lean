import Galerkin.Domain.Basic

/-!
Discretization and compilation of a domain: the fields of all forms become layouts, the mesh gets
control points, those of the work pieces get unknowns, and every form gets a kernel.
-/

namespace Galerkin.Domain

variable {α : Type}

/-- Adds a field to those found so far, which must not have another one of its name. -/
def addField (found : List Field) (f : Field) : Except Failure (List Field) :=
  match found.find? (·.name = f.name) with
  | none => pure (found ++ [f])
  | some old =>
    if old = f then pure found else throw (.invalid (.fieldConflict f.name old.text f.text))

/-- All fields that occur in forms. -/
def fields (d : Domain α) : Except Failure (List Field) :=
  ((d.pieces.flatMap (·.forms)).flatMap (·.fields)).foldlM addField []

/-- The layouts of the unknown and of the external fields. -/
def layouts (d : Domain α) : Except Failure (Layout × Layout) := do
  let found ← d.fields
  let internal := found.filter (!·.external)
  if internal.isEmpty then throw (.invalid .noUnknowns)
  pure (← Layout.ofFields internal d.mesh.dim, ← Layout.ofFields (found.filter (·.external)) d.mesh.dim)

def modifyDiscretization (f : Discretization α → Discretization α) (d : Domain α) : Domain α :=
  { d with discretization := d.discretization.map f }

/-- The control points of the elements of a work piece. -/
def pointsOf (space : ElementSpace α) (w : WorkPiece) : Except Failure (List (List Nat)) :=
  w.elements.mapM space.elementPoints

def occupyPiece (space : ElementSpace α) (w : WorkPiece) : Work α Unit := do
  let rows ← (pointsOf space w : Except Failure (List (List Nat)))
  modify (modifyDiscretization fun x => { x with points := x.points.occupy rows.flatten })

def numberUnknowns [Arithmetic α] (x : Discretization α) : Discretization α :=
  let dofs := DofMap.ofOccupied x.points.internal.width x.points.occupied.toList
  { x with numbered := some ⟨dofs, .zeros dofs.count⟩ }

/-- Gives control points to the mesh and numbers to the unknowns of the work pieces. -/
def discretize [Arithmetic α] (family : String) (order : Number) (quadratureOrder : Option Int) :
    Work α Unit := do
  let d ← get
  if d.discretization.isSome then throw (.misuse .alreadyDiscretized)
  if d.pieces.isEmpty then throw (.invalid .noWorkPieces)
  let (internal, external) ← (d.layouts : Except Failure (Layout × Layout))
  let order ← (Element.wholeOrder d.mesh.cell family order : Except Failure Int)
  let space ← (ElementSpace.make d.mesh family order quadratureOrder : Except Failure (ElementSpace α))
  let points := ControlPoints.make d.mesh.dim space.positions internal external
  set { d with discretization := some ⟨space, points, none⟩ }
  d.pieces.forM (occupyPiece space)
  modify (modifyDiscretization numberUnknowns)

def setting (x : Discretization α) : Setting :=
  ⟨x.space.mesh.dim, x.points.internal, x.points.external⟩

def compileRegion (rules : Calculus Quantity) (s : Setting) (backend : String) (w : WorkPiece)
    (r : Region) : Work α Unit := do
  if let some form := r.form then
    let k ← (CompiledKernel.compile rules s (w.regionLabel r) true backend form :
      Except Failure CompiledKernel)
    modify fun d => d.modifyPiece w.name fun w =>
      w.modifyRegion r.name fun r => { r with kernel := some k }

def compilePiece (rules : Calculus Quantity) (s : Setting) (backend : String) (w : WorkPiece) :
    Work α Unit := do
  match w.form with
  | none => throw (.invalid (.noDomainForm w.name))
  | some form =>
    let k ← (CompiledKernel.compile rules s w.name false backend form :
      Except Failure CompiledKernel)
    modify fun d => d.modifyPiece w.name fun w => { w with kernel := some k }
    w.regions.forM (compileRegion rules s backend w)

/-- Gives a kernel to every form. -/
def compile (rules : Calculus Quantity) (backend : String) : Work α Unit := do
  let d ← get
  match d.discretization with
  | none => throw (.misuse .compileTooEarly)
  | some x => d.pieces.forM (compilePiece rules (setting x) backend)

def kernels (d : Domain α) : List Kernel := (d.pieces.flatMap (·.kernels)).map (·.kernel)

/-- The control points on the facets of a region that belong to elements of its work piece, in ascending order. -/
def regionPoints (d : Domain α) (name region : String) : Except Failure (List Nat) := do
  let w ← d.piece name
  let some r := w.region? region | throw .absent
  let found ← r.facets.mapM fun i => do
    let owners := (← d.mesh.facet i).owners.filter fun o => w.elements.contains (Int.ofNat o.1)
    let points ← owners.mapM fun (e, l) => do (← d.discretized).space.facetPoints e l
    pure points.flatten
  pure ((found.flatten.mergeSort (· ≤ ·)).eraseDups)

end Galerkin.Domain
