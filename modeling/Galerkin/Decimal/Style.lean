import Galerkin.Decimal.Digits

/-!
How a number is written: which exponents are positional, and what an exponent looks like.
-/

namespace Galerkin.Decimal

/-- The layout of digits as text. -/
structure Style where
  /-- Exponents below this one are written with an exponent. -/
  positionalFrom : Int
  /-- Exponents from this one on are written with an exponent. -/
  positionalBelow : Int
  /-- A number without decimals still gets `.0`. -/
  pointZero : Bool
  /-- The least number of exponent digits. -/
  exponentDigits : Nat
  /-- The mark before an exponent. -/
  exponentMark : Char
  deriving DecidableEq, Repr

def exponentText (style : Style) (e : Int) : String :=
  let digits := Nat.toDigits 10 e.natAbs
  String.ofList (style.exponentMark :: (if e < 0 then '-' else '+') ::
    List.replicate (style.exponentDigits - digits.length) '0' ++ digits)

def positional (style : Style) (d : Digits) : String :=
  if d.exponent < 0 then
    "0." ++ String.ofList (List.replicate (d.exponent.natAbs - 1) '0' ++ d.digits)
  else
    let whole := d.exponent.toNat + 1
    let front := d.digits.take whole
    let padded := front ++ List.replicate (whole - front.length) '0'
    let back := d.digits.drop whole
    if back.isEmpty then String.ofList padded ++ (if style.pointZero then ".0" else "")
    else String.ofList padded ++ "." ++ String.ofList back

def withExponent (style : Style) (d : Digits) : String :=
  let mantissa := match d.digits with
    | [] => "0"
    | [c] => String.singleton c
    | c :: rest => String.singleton c ++ "." ++ String.ofList rest
  mantissa ++ exponentText style d.exponent

def Digits.write (style : Style) (d : Digits) : String :=
  if style.positionalFrom ≤ d.exponent && d.exponent < style.positionalBelow then
    positional style d
  else withExponent style d

/-- Literals are positional from `0.0001` to below `10^16` and always show a point. -/
def literalStyle : Style := ⟨-4, 16, true, 2, 'e'⟩

/-- Times in messages have at most six significant digits. -/
def shortStyle : Style := ⟨-4, 6, false, 2, 'e'⟩

/-- Sizes in messages always have an exponent. -/
def scientificStyle : Style := ⟨1, 0, false, 2, 'e'⟩

/-- The text of an infinity or of what is not a number. -/
def specialText (x : Float) : String :=
  if x.isNaN then "nan" else if x < 0.0 then "-inf" else "inf"

def signed (negative : Bool) (s : String) : String := if negative then "-" ++ s else s

/-- A double with the fewest digits that read back. -/
def literalText (x : Float) : String :=
  match Binary.ofFloat? x with
  | none => specialText x
  | some b => signed b.negative (b.shortest.write literalStyle)

def zeroDigits (count : Nat) : Digits := ⟨List.replicate count '0', 0⟩

/-- A double rounded to `count` significant digits, ties to even. -/
def Binary.rounded (b : Binary) (count : Nat) : Digits :=
  if b.mantissa = 0 then zeroDigits count
  else
    let (n, d) := b.scaled
    significant count n (4 * d) .toEven

/-- One digit before the point, three behind it, and an exponent. -/
def scientificText (x : Float) : String :=
  match Binary.ofFloat? x with
  | none => specialText x
  | some b => signed b.negative ((b.rounded 4).write scientificStyle)

/-- Six significant digits without trailing zeros. -/
def shortText (x : Float) : String :=
  match Binary.ofFloat? x with
  | none => specialText x
  | some b =>
    let d := b.rounded 6
    signed b.negative (Digits.write shortStyle ⟨trimZeros d.digits, d.exponent⟩)

/-- Exact quantities are positional from `0.000001` on and as long as no digit is missing before the point;
their exponents have a capital mark and are not padded. -/
def exactStyle : Style := ⟨-6, 17, false, 0, 'E'⟩

/-- An exact quantity, cut at twenty digits and then rounded to seventeen, half away from zero. -/
def exactText (r : Rat) : String :=
  if r = 0 then "0"
  else
    let n := r.num.natAbs
    let e := decimalExponent n r.den
    let (n', d') := shifted n r.den (19 - e)
    signed (r.num < 0) ((ofCount 17 e (roundQuotient (n' / d') 1000 .away)).write exactStyle)

end Galerkin.Decimal
