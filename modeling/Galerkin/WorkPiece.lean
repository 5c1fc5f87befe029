import Galerkin.Kernel.Basic

/-!
Work pieces: parts of a mesh with a weak form of their own, and with regions of their boundary that
carry further weak forms.
-/

namespace Galerkin

/-- Some facets, with the weak form that acts on them and its kernel, as far as there are any. -/
structure Region where
  name : String
  facets : List Int
  form : Option Expr
  kernel : Option CompiledKernel
  deriving Repr

/-- Some elements, with the weak form that acts inside them and its kernel, as far as there are any. -/
structure WorkPiece where
  name : String
  elements : List Int
  form : Option Expr
  kernel : Option CompiledKernel
  regions : List Region
  deriving Repr

namespace WorkPiece

def make (name : String) (elements : List Int) : WorkPiece := ⟨name, elements, none, none, []⟩

def text (w : WorkPiece) : String :=
  s!"WorkPiece({Text.quote w.name}, n_elements={w.elements.length}, " ++
    s!"regions={Text.quotedList (w.regions.map (·.name))})"

def region? (w : WorkPiece) (name : String) : Option Region := w.regions.find? (·.name = name)

/-- Changes the region with a name. -/
def modifyRegion (w : WorkPiece) (name : String) (f : Region → Region) : WorkPiece :=
  { w with regions := w.regions.map fun r => if r.name = name then f r else r }

def addRegion (w : WorkPiece) (name : String) (facets : List Int) : Except Failure WorkPiece :=
  match w.region? name with
  | some _ => throw (.invalid (.duplicateRegion w.name name))
  | none => pure { w with regions := w.regions ++ [⟨name, facets, none, none⟩] }

/-- A new form needs a new kernel. -/
def assign (w : WorkPiece) (form : Expr) : WorkPiece := { w with form := some form, kernel := none }

def requireRegion (w : WorkPiece) (name : String) : Except Failure Region :=
  match w.region? name with
  | some r => pure r
  | none => throw (.missing (.region w.name name))

def assignBoundary (w : WorkPiece) (region : String) (form : Expr) : WorkPiece :=
  w.modifyRegion region fun r => { r with form := some form, kernel := none }

/-- The name of a region's form. -/
def regionLabel (w : WorkPiece) (r : Region) : String := w.name ++ "/" ++ r.name

/-- All forms: first that of the inside, then those of the regions. -/
def forms (w : WorkPiece) : List Expr := w.form.toList ++ w.regions.filterMap (·.form)

/-- The kernels of all forms that have one, with the names of their forms. -/
def kernels (w : WorkPiece) : List CompiledKernel := w.kernel.toList ++ w.regions.filterMap (·.kernel)

end WorkPiece

end Galerkin
