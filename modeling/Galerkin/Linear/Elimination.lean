import Galerkin.Arithmetic

/-!
Gauss–Jordan elimination with row exchange: the largest entry of a column serves as its pivot. Gives
the inverse of a square matrix and the solution of a linear system, where there is one.
-/

namespace Galerkin.Linear.Elimination

variable {α : Type} [Arithmetic α]

abbrev Row (α : Type) := List α

def entry (k : Nat) (row : Row α) : α := row.getD k 0

/-- Takes the row with the largest entry in column `k` out of some rows. -/
def takeLargest (k : Nat) : List (Row α) → Option (Row α × List (Row α))
  | [] => none
  | row :: rest =>
    match takeLargest k rest with
    | none => some (row, [])
    | some (best, others) =>
      if Arithmetic.abs (entry k row) < Arithmetic.abs (entry k best) then some (best, row :: others)
      else some (row, rest)

def scaled (c : α) (row : Row α) : Row α := row.map (· * c)

/-- Clears column `k` of a row with a pivot row whose entry there is one. -/
def clear (k : Nat) (pivot row : Row α) : Row α :=
  let c := entry k row
  if Arithmetic.isZero c then row else List.zipWith (fun a b => a - c * b) row pivot

/-- Clears one column after the other; `done` holds the rows that have served as pivots. A column without a pivot ends the work. -/
def columns : List Nat → List (Row α) → List (Row α) → Option (List (Row α))
  | [], done, _ => some done
  | k :: ks, done, rest =>
    match takeLargest k rest with
    | none => none
    | some (pivot, others) =>
      let p := entry k pivot
      if Arithmetic.isZero p then none
      else
        let pivot := scaled (1 / p) pivot
        columns ks (done.map (clear k pivot) ++ [pivot]) (others.map (clear k pivot))

def unit (n i : Nat) : Row α := (List.range n).map fun j => if i = j then 1 else 0

def inverse? (rows : List (Row α)) : Option (List (Row α)) :=
  let n := rows.length
  let extended := rows.mapIdx fun i row => row ++ unit n i
  (columns (List.range n) [] extended).map fun done => done.map (·.drop n)

/-- The solution of the system with these rows and right-hand sides. -/
def solve? (rows : List (Row α)) (b : List α) : Option (List α) :=
  let n := rows.length
  let extended := List.zipWith (fun row c => row ++ [c]) rows b
  (columns (List.range n) [] extended).map fun done => done.map (entry n)

end Galerkin.Linear.Elimination
