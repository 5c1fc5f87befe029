import Galerkin.Layout

/-!
The scalars that a form can see at a quadrature point. Their order is the order of kernel slots:
unknowns, external fields, parameters, components of the facet normal.
-/

namespace Galerkin

inductive Quantity where
  /-- A component of an unknown field, its rate, or a spatial derivative of either. -/
  | unknown (field : String) (comps : List Nat) (timeOrder : Nat) (axis : Option Nat)
  | external (field : String) (comps : List Nat) (axis : Option Nat)
  | param (name : String)
  | normal (comp : Nat)
  deriving DecidableEq, Ord, Repr, Inhabited

namespace Quantity

def componentName (field : String) (comps : List Nat) (axis : Option Nat) : String :=
  comps.foldl (fun name c => s!"{name}_{c}") field ++
    match axis with
    | some a => s!"_x{a}"
    | none => ""

/-- The natural name, which different quantities may share. -/
def name : Quantity → String
  | unknown field comps timeOrder axis =>
    componentName field comps axis ++ if timeOrder = 0 then "" else "_t"
  | external field comps axis => componentName field comps axis
  | param name => name
  | normal comp => s!"n_{comp}"

def isUnknown : Quantity → Bool
  | unknown _ _ _ _ => true
  | _ => false

def isNormal : Quantity → Bool
  | normal _ => true
  | _ => false

def paramName? : Quantity → Option String
  | param name => some name
  | _ => none

/-- A component of a field in a setting with these layouts; time derivatives of external fields count as values. -/
def ofField (internal external : Layout) (f : Field) (comps : List Nat) (axis : Option Nat)
    (timeOrder : Nat) : Except Failure Quantity :=
  if f.external then
    if external.contains f.name then pure (.external f.name comps axis)
    else throw (.missing (.externalField f.name))
  else if internal.contains f.name then pure (.unknown f.name comps timeOrder axis)
  else throw (.missing (.internalField f.name))

end Quantity

end Galerkin
