import Galerkin.Indexing
import Galerkin.Layout

/-!
The numbering of unknowns. Occupied control points are numbered in order, and each takes as many
consecutive numbers as there are components; the others have none.
-/

namespace Galerkin

structure DofMap where
  /-- Components per control point. -/
  width : Nat
  /-- The first number of every occupied control point. -/
  starts : Array (Option Nat)
  count : Nat
  deriving Repr

namespace DofMap

/-- The first numbers of some control points when `next` is the next free number. -/
def startsFrom (width next : Nat) : List Bool → List (Option Nat)
  | [] => []
  | true :: rest => some next :: startsFrom width (next + width) rest
  | false :: rest => none :: startsFrom width next rest

def ofOccupied (width : Nat) (occupied : List Bool) : DofMap :=
  ⟨width, (startsFrom width 0 occupied).toArray, occupied.count true * width⟩

/-- The numbers of a control point's components, if it has any. -/
def row (m : DofMap) (point : Nat) : List (Option Nat) :=
  let start := (m.starts[point]?).join
  (List.range m.width).map fun c => start.map (· + c)

def rows (m : DofMap) : List (List (Option Nat)) := (List.range m.starts.size).map m.row

/-- The numbers of an element's unknowns: by control point, then by component. -/
def elementDofs (m : DofMap) (points : List Nat) : List (Option Nat) := points.flatMap m.row

/-- The numbers of some components at all control points. -/
def columns (m : DofMap) (components : List Nat) : List Nat :=
  m.starts.toList.flatMap fun start =>
    match start with
    | some s => components.map (s + ·)
    | none => []

/-- The numbers of the unknowns of some elements, at least one. -/
def table (m : DofMap) (rows : List (List Nat)) : Except Failure (List (List (Option Nat))) :=
  if rows.isEmpty then throw .misshapen else pure (rows.map m.elementDofs)

/-- The numbers of a field at all control points, or those of one of its components, which may be counted from the end. -/
def fieldDofs (m : DofMap) (l : Layout) (name : String) (component : Option Int) :
    Except Failure (List Nat) := do
  let (start, size) ← l.span name
  let all := (List.range size).map (start + ·)
  match component with
  | none => pure (m.columns all)
  | some k => match entry? all k with
    | some column => pure (m.columns [column])
    | none => throw .outOfRange

variable {α : Type}

/-- Stored rows as one vector, in the order of numbers. -/
def gather (m : DofMap) (stored : Array (List α)) : List α :=
  (m.starts.toList.zip stored.toList).flatMap fun (start, values) =>
    match start with
    | some _ => values
    | none => []

/-- Writes a vector into stored rows; rows without numbers keep what they hold. -/
def scatter (m : DofMap) (x : Array α) (stored : Array (List α)) : Array (List α) :=
  ((m.starts.toList.zip stored.toList).map fun (start, values) =>
    match start with
    | some s => values.mapIdx fun c old => x.getD (s + c) old
    | none => values).toArray

end DofMap

/-- A numbering that may not have been made yet, and is made only once. -/
structure Numbering where
  width : Nat
  map? : Option DofMap
  deriving Repr

namespace Numbering

def distribute (h : Numbering) (occupied : List Bool) : Except Failure (DofMap × Numbering) :=
  match h.map? with
  | some _ => throw (.misuse .alreadyDistributed)
  | none =>
    let m := DofMap.ofOccupied h.width occupied
    pure (m, { h with map? := some m })

def map (h : Numbering) : Except Failure DofMap :=
  match h.map? with
  | some m => pure m
  | none => throw (.misuse .notDistributed)

def count (h : Numbering) : Nat := (h.map?.map (·.count)).getD 0

end Numbering

end Galerkin
