import Galerkin.Decimal.Style
import Galerkin.Text.CharClass

/-!
Number literals: integers of any size, doubles, and truth values, which count as numbers.
-/

namespace Galerkin

inductive Number where
  | int (n : Int)
  | real (x : Float)
  | bool (b : Bool)
  deriving Repr

namespace Number

def text : Number → String
  | int n => toString n
  | real x => Decimal.literalText x
  | bool b => if b then "True" else "False"

def toFloat : Number → Float
  | int n => Decimal.ratToFloat n
  | real x => x
  | bool b => if b then 1.0 else 0.0

/-- Truncation toward zero; a double without a value has none. -/
def truncate? : Number → Option Int
  | int n => some n
  | real x => (Decimal.Binary.ofFloat? x).map fun b =>
      let r := b.toRat
      Int.tdiv r.num r.den
  | bool b => some (if b then 1 else 0)

def kind : Number → String
  | int _ => "int"
  | real _ => "float"
  | bool _ => "bool"

/-- How many digits a whole number may have to be read or written. -/
def digitLimit : Nat := 4300

/-- Has a whole number more digits than are written? -/
def isTooLong : Number → Bool
  | int n => Nat.pow 10 digitLimit ≤ n.natAbs
  | _ => false

def digitsValue (digits : List Char) : Nat :=
  digits.foldl (fun n c => 10 * n + Text.digitValue c) 0

/-- The parts of a decimal literal: digits before the point, digits behind it, and the exponent. -/
structure Literal where
  whole : List Char
  fraction : Option (List Char)
  exponent : Option Int

/-- The value of a literal: an integer when there is neither a point nor an exponent. -/
def Literal.value (l : Literal) : Number :=
  match l.fraction, l.exponent with
  | none, none => int (digitsValue l.whole)
  | fraction, exponent =>
    let behind := fraction.getD []
    real (Decimal.readDecimal (digitsValue (l.whole ++ behind))
      (exponent.getD 0 - (behind.length : Int)))

def signedDigits : List Char → Int
  | '-' :: digits => -(digitsValue digits : Int)
  | '+' :: digits => digitsValue digits
  | digits => digitsValue digits

/-- Splits the text of a decimal literal at its point and at its exponent mark. -/
def Literal.ofChars (cs : List Char) : Literal :=
  let mark := fun c => c == 'e' || c == 'E'
  let base := cs.takeWhile (!mark ·)
  let exponent := match cs.dropWhile (!mark ·) with
    | [] => none
    | _ :: tail => some (signedDigits tail)
  let fraction := match base.dropWhile (· != '.') with
    | [] => none
    | _ :: tail => some tail
  ⟨base.takeWhile (· != '.'), fraction, exponent⟩

/-- Has a literal of a whole number more digits than are read? -/
def Literal.isTooLong (l : Literal) : Bool :=
  l.fraction.isNone && l.exponent.isNone && digitLimit < l.whole.length

def ofDigits (s : String) : Number := (Literal.ofChars s.toList).value

def negate : Number → Number
  | int n => int (-n)
  | real x => real (-x)
  | bool b => int (if b then -1 else 0)

/-- A number as settings give it: an optional sign and a literal, or the name of a special value. -/
def ofText (s : String) : Number :=
  let unsigned := fun (t : String) =>
    if t == "inf" || t == "Infinity" || t == "infinity" then real (1.0 / 0.0)
    else if t == "nan" || t == "NaN" then real (0.0 / 0.0)
    else ofDigits t
  match s.toList with
  | '-' :: rest => (unsigned (String.ofList rest)).negate
  | _ => unsigned s

end Number

end Galerkin
