/-!
Sums of sizes, and positions that may be counted from the end: `-1` is the last entry.
-/

namespace Galerkin

def totalSize (sizes : List Nat) : Nat := sizes.foldr (· + ·) 0

@[simp] theorem totalSize_nil : totalSize [] = 0 := rfl

@[simp] theorem totalSize_cons (n : Nat) (sizes : List Nat) :
    totalSize (n :: sizes) = n + totalSize sizes := rfl

/-- The position that `i` stands for among `size` entries, if there is one. -/
def position? (size : Nat) (i : Int) : Option Nat :=
  if 0 ≤ i then if i.toNat < size then some i.toNat else none
  else if -(size : Int) ≤ i then some (i + size).toNat
  else none

theorem lt_of_position? {size k : Nat} {i : Int} (h : position? size i = some k) : k < size := by
  unfold position? at h
  split at h
  · split at h
    · cases h; assumption
    · cases h
  · split at h
    · cases h; omega
    · cases h

/-- The entry at a position that may be counted from the end. -/
def entry? {α : Type} (xs : List α) (i : Int) : Option α := (position? xs.length i).bind (xs[·]?)

end Galerkin
