import Galerkin.Decimal.Digits
import Galerkin.Grid
import Galerkin.Json.Value

/-!
Arrays of doubles as whole numbers times one common power of ten: enough digits of the largest entry
are kept, and no digits below a lowest power.
-/

namespace Galerkin

/-- A nested array of numbers. -/
inductive Nested where
  | leaf (x : Float)
  | node (items : List Nested)
  deriving Inhabited

namespace Nested

def vector (xs : List Float) : Nested := node (xs.map leaf)

def matrix (rows : List (List Float)) : Nested := node (rows.map vector)

/-- The nested lists of an array with some sides. -/
def ofEntries : List Nat → List Float → Nested
  | [], xs => leaf (xs.headD 0.0)
  | n :: sides, xs => node ((Grid.pieces (Grid.volume sides) n xs).map (ofEntries sides))

def ofGrid (g : Grid Float) : Nested := ofEntries g.sides g.entries

def cube (rows : List (List (List Float))) : Nested := node (rows.map matrix)

mutual

def entries : Nested → List Float
  | leaf x => [x]
  | node items => entriesOf items

def entriesOf : List Nested → List Float
  | [] => []
  | x :: rest => entries x ++ entriesOf rest

end

/-- The largest integer that is not above a finite number. -/
def floor (x : Float) : Int :=
  match Decimal.Binary.ofFloat? x with
  | some b => (b.toRat).floor
  | none => 0

def tenTo (n : Int) : Float := Float.pow 10.0 (Decimal.ratToFloat n)

/-- How an entry is written: a multiple of a power of ten, or the name of what is no number. -/
inductive Mantissa where
  | int (n : Int)
  | name (s : String)
  deriving DecidableEq, Repr

def mantissa (e : Int) (x : Float) : Mantissa :=
  if x.isNaN then .name "nan"
  else if !x.isFinite then .name (if 0.0 < x then "inf" else "-inf")
  else
    let scaled := if e < 0 then x * tenTo (-e) else x / tenTo e
    .int (floor (scaled + 0.5001))

def Mantissa.toJson : Mantissa → Json
  | .int n => .int n
  | .name s => .str s

def Mantissa.isZero : Mantissa → Bool
  | .int n => n == 0
  | .name _ => true

mutual

def mantissas (e : Int) : Nested → Json
  | leaf x => (mantissa e x).toJson
  | node items => .arr (mantissasOf e items)

def mantissasOf (e : Int) : List Nested → List Json
  | [] => []
  | x :: rest => mantissas e x :: mantissasOf e rest

end

/-- The power of ten that leaves `digits` digits to the largest finite entry. -/
def exponent (digits lowest : Int) (xs : List Float) : Int :=
  let big := (xs.filter (·.isFinite)).foldl (fun m x => if m < x.abs then x.abs else m) 0.0
  if big == 0.0 then 0
  else max (floor (Float.log10 (big * 1.000001)) - (digits - 1)) lowest

/-- The exponent and the mantissas; zero everywhere has exponent zero. -/
def scaled (digits lowest : Int) (a : Nested) : Json :=
  let xs := a.entries
  let e := exponent digits lowest xs
  let blank := xs.all fun x => (mantissa e x).isZero
  .obj [("e", .int (if blank then 0 else e)), ("m", mantissas e a)]

end Nested

end Galerkin
