import Galerkin.Field
import Galerkin.Indexing

/-!
Layouts: the order in which the components of several fields are stored side by side. Fields come
by name; the components of one field come row by row.
-/

namespace Galerkin

/-- Fields in order of their names, which are distinct when the layout comes from `ofFields`. -/
structure Layout where
  dim : Nat
  fields : List Field
  deriving DecidableEq, Repr, Inhabited

namespace Layout

def byName (a b : Field) : Bool := !(b.name < a.name)

def ofFields (fields : List Field) (dim : Nat) : Except Failure Layout :=
  let sorted := fields.mergeSort byName
  let names := sorted.map (·.name)
  if names.eraseDups.length = names.length then pure ⟨dim, sorted⟩
  else throw (.invalid (.duplicateFields names))

def empty (dim : Nat) : Layout := ⟨dim, []⟩

def names (l : Layout) : List String := l.fields.map (·.name)

def contains (l : Layout) (name : String) : Bool := l.names.contains name

/-- The number of components of all fields together. -/
def width (l : Layout) : Nat := totalSize (l.fields.map (·.components l.dim))

/-- Each field's name, the column where it starts, and its number of columns. -/
def spansFrom (dim : Nat) : Nat → List Field → List (String × Nat × Nat)
  | _, [] => []
  | start, f :: rest =>
    (f.name, start, f.components dim) :: spansFrom dim (start + f.components dim) rest

def spans (l : Layout) : List (String × Nat × Nat) := spansFrom l.dim 0 l.fields

def span? (l : Layout) (name : String) : Option (Nat × Nat) := l.spans.lookup name

def span (l : Layout) (name : String) : Except Failure (Nat × Nat) :=
  match l.span? name with
  | some s => pure s
  | none => throw .absent

/-- The position of a component among those of its own field. -/
def rowMajor (dim : Nat) (comps : List Nat) : Nat := comps.foldl (fun n c => n * dim + c) 0

/-- The column of a component. -/
def flat (l : Layout) (name : String) (comps : List Nat) : Except Failure Nat := do
  pure ((← l.span name).1 + rowMajor l.dim comps)

/-- The column that the rule for components gives for any whole numbers. -/
def flatAt (l : Layout) (name : String) (comps : List Int) : Except Failure Int := do
  let (start, _) ← l.span name
  pure ((start : Int) + comps.foldl (fun (n c : Int) => n * l.dim + c) 0)

def text (l : Layout) : String :=
  let entry := fun (s : String × Nat × Nat) => s!"{Text.quote s.1}: ({s.2.1}, {s.2.2})"
  "FieldLayout(\x7b" ++ Text.joined ", " (l.spans.map entry) ++ "\x7d)"

end Layout

end Galerkin
