import Galerkin.Arithmetic
import Galerkin.DofMap
import Galerkin.Grid
import Galerkin.Indexing
import Galerkin.Layout
import Galerkin.Linear.Vector

/-!
Control points: positions, values and rates of the unknown fields, prescribed values of the external
ones, and which points are occupied by elements.
-/

namespace Galerkin

structure ControlPoints (α : Type) where
  dim : Nat
  internal : Layout
  external : Layout
  positions : Array (List α)
  values : Array (List α)
  rates : Array (List α)
  prescribed : Array (List α)
  occupied : Array Bool
  deriving Repr

namespace ControlPoints

variable {α : Type}

def make [Zero α] (dim : Nat) (positions : Array (List α)) (internal external : Layout) :
    ControlPoints α :=
  let rows := fun (width : Nat) => positions.map fun _ => List.replicate width 0
  ⟨dim, internal, external, positions, rows internal.width, rows internal.width,
    rows external.width, positions.map fun _ => false⟩

def size (c : ControlPoints α) : Nat := c.positions.size

def occupiedCount (c : ControlPoints α) : Nat := c.occupied.toList.count true

def text (c : ControlPoints α) : String :=
  s!"ControlPoints(n={c.size}, occupied={c.occupiedCount}, " ++
    s!"internal={Text.quotedList c.internal.names}, external={Text.quotedList c.external.names})"

/-- Some columns of stored rows. -/
def cut (start size : Nat) (stored : Array (List α)) : List (List α) :=
  stored.toList.map fun row => (row.drop start).take size

/-- Puts new entries into some columns of a row. -/
def patch (start : Nat) (row new : List α) : List α :=
  row.take start ++ new ++ row.drop (start + new.length)

/-- The positions that numbers counted from either end stand for. -/
def resolve (count : Nat) (ids : List Int) : Except Failure (List Nat) :=
  ids.mapM fun i => match position? count i with
    | some k => pure k
    | none => throw .outOfRange

def occupy (c : ControlPoints α) (ids : List Nat) : ControlPoints α :=
  { c with occupied := ids.foldl (fun flags i => flags.set! i true) c.occupied }

def valuesOf (c : ControlPoints α) (name : String) : Except Failure (List (List α)) := do
  let (start, size) ← c.internal.span name
  pure (cut start size c.values)

def ratesOf (c : ControlPoints α) (name : String) : Except Failure (List (List α)) := do
  let (start, size) ← c.internal.span name
  pure (cut start size c.rates)

def externalSpan (c : ControlPoints α) (name : String) : Except Failure (Nat × Nat) :=
  match c.external.span? name with
  | some s => pure s
  | none => throw (.missing (.notExternal name))

def externalOf (c : ControlPoints α) (name : String) : Except Failure (List (List α)) := do
  let (start, size) ← c.externalSpan name
  pure (cut start size c.prescribed)

/-- Writes new entries into the columns from `start` on of the rows with given numbers. -/
def write (stored : Array (List α)) (start : Nat) (targets : List Nat) (new : List (List α)) :
    Array (List α) :=
  (targets.zip new).foldl (fun stored (i, row) => stored.modify i fun old => patch start old row) stored

/-- Prescribes values of an external field, at all control points or at some. What is given for a
single control point must fit after its number is looked up, and before otherwise. -/
def setExternal (c : ControlPoints α) (name : String) (value : Grid α) (ids : Option (Grid Int)) :
    Except Failure (ControlPoints α) := do
  let (start, size) ← c.externalSpan name
  match ids with
  | none =>
    let new ← value.fill [c.size, size]
    pure { c with prescribed := write c.prescribed start (List.range c.size) (Grid.pieces size c.size new.entries) }
  | some ids =>
    if ids.sides.isEmpty then let _ ← resolve c.size ids.entries
    let new ← value.fill (ids.sides ++ [size])
    let targets ← resolve c.size ids.entries
    let rows := Grid.pieces size targets.length new.entries
    pure { c with prescribed := write c.prescribed start targets rows }

/-- Stores values of an internal field at all control points. -/
def setValues (c : ControlPoints α) (name : String) (new : List (List α)) :
    Except Failure (ControlPoints α) := do
  let (start, _) ← c.internal.span name
  pure { c with values := write c.values start (List.range c.size) new }

def setRates (c : ControlPoints α) (name : String) (new : List (List α)) :
    Except Failure (ControlPoints α) := do
  let (start, _) ← c.internal.span name
  pure { c with rates := write c.rates start (List.range c.size) new }

/-- Values and rates as vectors over the numbered unknowns. -/
def gather (c : ControlPoints α) (m : DofMap) : List α × List α := (m.gather c.values, m.gather c.rates)

/-- Stores vectors over the numbered unknowns as values and rates. -/
def scatter (c : ControlPoints α) (m : DofMap) (x xt : Array α) : ControlPoints α :=
  { c with values := m.scatter x c.values, rates := m.scatter xt c.rates }

end ControlPoints

end Galerkin
