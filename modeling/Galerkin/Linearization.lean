import Galerkin.WeakForm
import Galerkin.SymbolTable
import Galerkin.Formula.Calculus
import Galerkin.Formula.Text

/-!
Residual and tangent densities. For a form that is a sum of pairs `a * b` the residual of an unknown
`u` is the sum of the products of the derivative of `a` by `u` with `b`, and the tangent of `u` by `v` is
the derivative of that residual by `v`. Entries that vanish identically are left out.
-/

namespace Galerkin

structure Linearization where
  name : String
  table : SymbolTable
  /-- Densities by unknown. -/
  residual : List (Nat × Formula Quantity)
  /-- Derivatives of densities, by unknown and by the unknown of the derivative. -/
  tangent : List ((Nat × Nat) × Formula Quantity)

namespace Linearization

/-- A formula and its derivatives by the unknowns. -/
abbrev Gradient := List (Nat × Formula Quantity)

/-- The derivatives that do not vanish, by position of the unknown. -/
def gradient (rules : Calculus Quantity) (unknowns : List Quantity) (e : Formula Quantity) : Gradient :=
  (unknowns.mapIdx fun k q => (k, rules.derivative q e)).filter (!·.2.isZero)

/-- Adds to the entry of an unknown. -/
def accumulate (rules : Calculus Quantity) (k : Nat) (term : Formula Quantity) : Gradient → Gradient
  | [] => [(k, term)]
  | (l, total) :: rest =>
    if l = k then (l, rules.add total term) :: rest else (l, total) :: accumulate rules k term rest

/-- Adds the share of one pair to the residual densities. A pair with a side that vanishes has none; a test side must depend on some unknown. -/
def addPair (rules : Calculus Quantity) (name : String) (table : SymbolTable) (unknowns : List Quantity)
    (totals : Gradient) (pair : Formula Quantity × Formula Quantity) : Except Failure Gradient :=
  let (a, b) := pair
  if a.isZero || b.isZero then pure totals
  else
    match gradient rules unknowns a with
    | [] => throw (.malformed ⟨.independent (a.text table.nameOf), some name, none⟩)
    | slopes => pure (slopes.foldl (fun totals s => accumulate rules s.1 (rules.mul s.2 b) totals) totals)

def tangentRow (rules : Calculus Quantity) (unknowns : List Quantity) (entry : Nat × Formula Quantity) :
    List ((Nat × Nat) × Formula Quantity) :=
  (gradient rules unknowns entry.2).map fun g => ((entry.1, g.1), g.2)

/-- The densities of a form in a setting, by a calculus. Only a boundary form may use the facet normal. -/
def ofForm (rules : Calculus Quantity) (s : Setting) (name : String) (boundary : Bool) (e : Expr) :
    Except Failure Linearization := do
  let pairs ← WeakForm.expand s name e
  let asked := pairs.flatMap fun p => p.1.atoms ++ p.2.atoms
  let table ← (SymbolTable.empty s.dim s.internal s.external).requestAll asked
  if table.usesNormal && !boundary then
    throw (.malformed ⟨.normalInDomain, some name, none⟩)
  let table := table.freeze
  let unknowns := table.unknowns.map (·.1)
  let normal := pairs.map fun p => (rules.normal p.1, rules.normal p.2)
  let totals ← normal.foldlM (addPair rules name table unknowns) []
  let residual := (totals.map fun t => (t.1, rules.expand t.2)).filter (!·.2.isZero)
  pure ⟨name, table, residual, residual.flatMap (tangentRow rules unknowns)⟩

def unknownCount (l : Linearization) : Nat := l.table.unknowns.length

end Linearization

end Galerkin
