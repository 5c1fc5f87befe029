import Galerkin.Failure
import Galerkin.Scalar

/-!
Vectors as lists of entries.
-/

namespace Galerkin.Linear

abbrev Vec (α : Type) := List α

namespace Vec

/-- A vector stretched to `width` entries; a single entry fills all. -/
def stretch {α : Type} (width : Nat) : Vec α → Except Failure (Vec α)
  | [x] => pure (List.replicate width x)
  | xs => if xs.length = width then pure xs else throw .misshapen

section Arithmetic

variable {α : Type} [Arithmetic α]

def zeros (n : Nat) : Vec α := List.replicate n 0

def add (x y : Vec α) : Vec α := List.zipWith (· + ·) x y

def sub (x y : Vec α) : Vec α := List.zipWith (· - ·) x y

def scale (c : α) (x : Vec α) : Vec α := x.map (c * ·)

def neg (x : Vec α) : Vec α := x.map (-·)

/-- Entry by entry products and quotients. -/
def mul (x y : Vec α) : Vec α := List.zipWith (· * ·) x y

def div (x y : Vec α) : Vec α := List.zipWith (· / ·) x y

/-- `x` plus the combination of some vectors with the given coefficients. -/
def addCombination (x : Vec α) (coeffs : List α) (vectors : List (Vec α)) : Vec α :=
  (coeffs.zip vectors).foldl (fun x (c, v) => add x (scale c v)) x

def subCombination (x : Vec α) (coeffs : List α) (vectors : List (Vec α)) : Vec α :=
  (coeffs.zip vectors).foldl (fun x (c, v) => sub x (scale c v)) x

/-- The largest entry in size. -/
def maxNorm (x : Vec α) : α := Arithmetic.largest x

end Arithmetic

def norm {α : Type} [Scalar α] (x : Vec α) : α := Scalar.sqrt (Arithmetic.dot x x)

end Vec

end Galerkin.Linear
