import Galerkin.Linear.Vector
import Galerkin.Indexing

/-!
Sparse square matrices: in every row the stored entries by ascending column. Entries added at the same
place are summed, and a stored entry may be zero.
-/

namespace Galerkin.Linear

structure SparseMatrix (α : Type) where
  size : Nat
  rows : Array (List (Nat × α))
  deriving Repr

namespace SparseMatrix

variable {α : Type}

def zero (n : Nat) : SparseMatrix α := ⟨n, Array.replicate n []⟩

section Arithmetic

variable [Arithmetic α]

/-- Adds to the entry in a column of a row. -/
def addToRow (column : Nat) (x : α) : List (Nat × α) → List (Nat × α)
  | [] => [(column, x)]
  | (j, y) :: rest =>
    if column < j then (column, x) :: (j, y) :: rest
    else if column = j then (j, y + x) :: rest
    else (j, y) :: addToRow column x rest

def addEntry (m : SparseMatrix α) (i j : Nat) (x : α) : SparseMatrix α :=
  { m with rows := m.rows.modify i (addToRow j x) }

def rowEntry (row : List (Nat × α)) (j : Nat) : α := (row.lookup j).getD 0

def get (m : SparseMatrix α) (i j : Nat) : α := rowEntry (m.rows.getD i []) j

def diagonal (m : SparseMatrix α) : Vec α := (List.range m.size).map fun i => m.get i i

def apply (m : SparseMatrix α) (x : Vec α) : Vec α :=
  let v := x.toArray
  m.rows.toList.map fun row => Arithmetic.sumOf row fun (j, a) => a * v.getD j 0

/-- All entries, row by row. -/
def toDense (m : SparseMatrix α) : List (List α) :=
  m.rows.toList.map fun row => (List.range m.size).map (rowEntry row)

/-- A matrix from all its entries; zeros are not stored. -/
def ofDense (rows : List (List α)) : SparseMatrix α :=
  ⟨rows.length, (rows.map fun row =>
    (row.zipIdx.filter fun a => !Arithmetic.isZero a.1).map fun (a, j) => (j, a)).toArray⟩

end Arithmetic

/-- The number of stored entries. -/
def storedCount (m : SparseMatrix α) : Nat := totalSize (m.rows.toList.map (·.length))

/-- Where the entries of each row begin when rows are stored one after the other, and where the last ends. -/
def offsets (m : SparseMatrix α) : List Nat :=
  m.rows.toList.foldl (fun starts row => starts ++ [starts.getLastD 0 + row.length]) [0]

end SparseMatrix

end Galerkin.Linear
