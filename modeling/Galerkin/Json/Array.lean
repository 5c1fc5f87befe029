import Galerkin.Grid
import Galerkin.Json.Value

/-!
Arrays of numbers in JSON: their sides, their rows, and arrays that repeat a few given numbers.
-/

namespace Galerkin.Json

mutual

/-- The sides of a nested list of numbers; ragged lists have none. -/
def shape? : Json → Option (List Nat)
  | arr xs => (commonShape? xs).map fun side => xs.length :: side
  | _ => some []

/-- The sides that all entries of a list share. -/
def commonShape? : List Json → Option (List Nat)
  | [] => some []
  | [x] => shape? x
  | x :: xs =>
    match shape? x, commonShape? xs with
    | some s, some t => if s = t then some s else none
    | _, _ => none

end

def shape (j : Json) : Except Failure (List Nat) :=
  match j.shape? with
  | some s => pure s
  | none => throw .misshapen

/-- The rows of a table; a number that stands alone is a row. -/
def rows (j : Json) : List (List Float) :=
  j.items.map fun x => match x with
    | arr xs => xs.map toFloat
    | x => [x.toFloat]

/-- Rows of numbers, where a single row or number may come without its brackets. -/
def rowsOrRow (j : Json) : List (List Float) :=
  match j with
  | arr [] => [[]]
  | arr xs => if xs.all isList then xs.map floats else [xs.map toFloat]
  | x => [[x.toFloat]]

/-- A number that something is compared with. -/
def comparable : Json → Except Failure Number
  | num n => pure n
  | bool b => pure (.bool b)
  | _ => throw .unsupported

/-- All integers of a nested list in order. -/
def flatInts (j : Json) : List Int := j.flatFloats.map fun x => (Number.real x).truncate?.getD 0

/-- The numbers of a nested list with equal rows. -/
def grid (j : Json) : Except Failure (Grid Float) := do pure ⟨← j.shape, j.flatFloats⟩

/-- The whole numbers of a nested list with equal rows. -/
def intGrid (j : Json) : Except Failure (Grid Int) := do pure ⟨← j.shape, j.flatInts⟩

/-- The first `n` numbers of a list repeated without end; nothing stands for zeros. -/
def cycled (n : Nat) (j : Json) : Except Failure (List Float) :=
  match j with
  | arr xs =>
    let values := (xs.map toFloat).toArray
    if values.isEmpty ∧ n ≠ 0 then throw .divisionByZero
    else pure ((List.range n).map fun i => values.getD (i % values.size) 0.0)
  | null => pure (List.replicate n 0.0)
  | _ => throw .unsupported

/-- Numbers repeated without end as a table. -/
def cycledRows (count width : Nat) (j : Json) : Except Failure (List (List Float)) := do
  pure (Grid.pieces width count (← cycled (count * width) j))

end Galerkin.Json
