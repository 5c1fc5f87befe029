import Galerkin.Failure
import Galerkin.Scalar

/-!
Arrays of numbers with any number of sides, their entries kept row by row. Two arrays are aligned at
their last sides, and a side of one fits any other.
-/

namespace Galerkin

structure Grid (α : Type) where
  sides : List Nat
  entries : List α
  deriving DecidableEq, Repr

namespace Grid

variable {α β : Type}

/-- How many entries an array with these sides has. -/
def volume : List Nat → Nat
  | [] => 1
  | n :: sides => n * volume sides

/-- The first `count` pieces of a list, of the same width. -/
def pieces (width : Nat) : Nat → List α → List (List α)
  | 0, _ => []
  | count + 1, xs => xs.take width :: pieces width count (xs.drop width)

def vector (xs : List α) : Grid α := ⟨[xs.length], xs⟩

/-- A table whose rows have `width` entries. -/
def table (width : Nat) (rows : List (List α)) : Grid α := ⟨[rows.length, width], rows.flatten⟩

def map (f : α → β) (g : Grid α) : Grid β := ⟨g.sides, g.entries.map f⟩

/-- The rows of a table, or the entries of what has fewer sides as a single row. -/
def rows (g : Grid α) : List (List α) :=
  match g.sides with
  | count :: width :: sides => pieces (volume (width :: sides)) count g.entries
  | _ => [g.entries]

/-! ### Stretching -/

/-- The sides, written from the last to the first, of two arrays that are combined. -/
def alignedSides : List Nat → List Nat → Option (List Nat)
  | [], ts => some ts
  | ss, [] => some ss
  | s :: ss, t :: ts =>
    let side := if s = 1 then some t else if t = 1 ∨ t = s then some s else none
    side.bind fun n => (alignedSides ss ts).map (n :: ·)

/-- The sides of two arrays that are combined entry by entry. -/
def commonSides (s t : List Nat) : Except Failure (List Nat) :=
  match alignedSides s.reverse t.reverse with
  | some sides => pure sides.reverse
  | none => throw .misshapen

/-- Entries of an array with the second sides, repeated to fill the first ones. -/
def repeated : List (Nat × Nat) → List α → List α
  | [], xs => xs
  | (wanted, own) :: rest, xs =>
    let parts := (pieces (volume (rest.map (·.2))) own xs).map (repeated rest)
    if own = wanted then parts.flatten else (List.replicate wanted parts.flatten).flatten

/-- The array stretched to some sides. -/
def stretch (sides : List Nat) (g : Grid α) : Except Failure (Grid α) := do
  if (← commonSides sides g.sides) ≠ sides then throw .misshapen
  let own := List.replicate (sides.length - g.sides.length) 1 ++ g.sides
  pure ⟨sides, repeated (sides.zip own) g.entries⟩

/-- The array stretched to some sides, for which leading sides of one may be left away. -/
def fill (sides : List Nat) (g : Grid α) : Except Failure (Grid α) :=
  let surplus := g.sides.length - sides.length
  if (g.sides.take surplus).all (· = 1) then stretch sides ⟨g.sides.drop surplus, g.entries⟩
  else throw .misshapen

/-- Two arrays combined entry by entry. -/
def combine {γ : Type} (f : α → β → γ) (g : Grid α) (h : Grid β) : Except Failure (Grid γ) := do
  let sides ← commonSides g.sides h.sides
  pure ⟨sides, List.zipWith f (← stretch sides g).entries (← stretch sides h).entries⟩

/-! ### Choosing -/

/-- The entries of one column of a table, which may be counted from the end. -/
def column (component : Int) (g : Grid α) : Except Failure (Grid α) :=
  match g.sides with
  | count :: width :: sides =>
    let k := if component < 0 then component + width else component
    if 0 ≤ k ∧ k < width then
      let parts := pieces (volume sides) (count * width) g.entries
      pure ⟨count :: sides, ((pieces width count parts).flatMap fun row =>
        (row.drop k.toNat).take 1).flatten⟩
    else throw .outOfRange
  | _ => throw .outOfRange

/-- The parts of an array that a mask over its first sides keeps. -/
def keep (g : Grid α) (mask : Grid Bool) : Except Failure (Grid α) :=
  if mask.sides.isPrefixOf g.sides then
    let rest := g.sides.drop mask.sides.length
    let parts := (mask.entries.zip (pieces (volume rest) mask.entries.length g.entries)).filter (·.1)
    pure ⟨parts.length :: rest, (parts.map (·.2)).flatten⟩
  else throw .outOfRange

end Grid

end Galerkin
