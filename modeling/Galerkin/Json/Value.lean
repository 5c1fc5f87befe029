import Galerkin.Number

/-!
JSON values in which numbers keep their kind: integers of any size stay apart from doubles. An entry
that is absent and one that is null are the same to a reader.
-/

namespace Galerkin

inductive Json where
  | null
  | bool (b : Bool)
  | num (n : Number)
  | str (s : String)
  | arr (items : List Json)
  | obj (fields : List (String × Json))
  deriving Inhabited, Repr

namespace Json

def int (n : Int) : Json := num (.int n)

def nat (n : Nat) : Json := int n

def list {β : Type} (f : β → Json) (xs : List β) : Json := arr (xs.map f)

def strs (xs : List String) : Json := list str xs

def nats (xs : List Nat) : Json := list nat xs

def ints (xs : List Int) : Json := list int xs

def orNull {β : Type} (f : β → Json) (x : Option β) : Json := (x.map f).getD null

/-! ### Reading values -/

/-- The entry of a key, unless it is null. -/
def get? (j : Json) (key : String) : Option Json :=
  match j with
  | obj fields => match fields.lookup key with
    | some null => none
    | found => found
  | _ => none

/-- Is there an entry with this key, be it null? -/
def has (j : Json) (key : String) : Bool :=
  match j with
  | obj fields => (fields.lookup key).isSome
  | _ => false

def get (j : Json) (key : String) : Json := (j.get? key).getD null

def items : Json → List Json
  | arr xs => xs
  | _ => []

def text : Json → String
  | str s => s
  | _ => ""

def nth (j : Json) (k : Nat) : Json := j.items.getD k null

def item? (j : Json) (k : Nat) : Option Json := j.items[k]?

def toInt : Json → Int
  | num n => (n.truncate?).getD 0
  | bool b => if b then 1 else 0
  | _ => 0

def toNat (j : Json) : Nat := j.toInt.toNat

def toFloat : Json → Float
  | num n => n.toFloat
  | bool b => if b then 1.0 else 0.0
  | _ => 0.0

def toBool : Json → Bool
  | bool b => b
  | num n => n.toFloat != 0.0
  | _ => false

/-- A number, given as such or by its text. -/
def toNumber : Json → Number
  | num n => n
  | bool b => .bool b
  | str s => .ofText s
  | _ => .int 0

def isNull : Json → Bool
  | null => true
  | _ => false

/-- A value, unless it is null. -/
def present? : Json → Option Json
  | null => none
  | j => some j

def isList : Json → Bool
  | arr _ => true
  | _ => false

def stringOr (j : Json) (key fallback : String) : String := ((j.get? key).map text).getD fallback

def intOr (j : Json) (key : String) (fallback : Int) : Int := ((j.get? key).map toInt).getD fallback

def floatOr (j : Json) (key : String) (fallback : Float) : Float :=
  ((j.get? key).map toFloat).getD fallback

def flag (j : Json) (key : String) : Bool := (j.get key).toBool

def floats (j : Json) : List Float := j.items.map toFloat

def toInts (j : Json) : List Int := j.items.map toInt

mutual

/-- All numbers of a nested list in order. -/
def flatFloats : Json → List Float
  | arr xs => flatFloatsOf xs
  | j => [j.toFloat]

def flatFloatsOf : List Json → List Float
  | [] => []
  | x :: xs => flatFloats x ++ flatFloatsOf xs

end

/-- What messages call a value of this kind. -/
def kind : Json → String
  | null => "NoneType"
  | bool _ => "bool"
  | num n => n.kind
  | str _ => "str"
  | arr _ => "list"
  | obj _ => "dict"

end Json

end Galerkin
