/-!
Binary floating-point numbers as exact quantities, a double being an integer times a power of two, and
the decimal digits of exact quantities: rounding a quotient to a number of significant digits, and the
fewest digits that read back as the same double.
-/

namespace Galerkin.Decimal

/-- The number `(-1)^negative * mantissa * 2^exponent`; `atPowerOfTwo` says that the doubles below it lie twice as dense. -/
structure Binary where
  negative : Bool
  mantissa : Nat
  exponent : Int
  atPowerOfTwo : Bool
  deriving DecidableEq, Repr

def fractionBits : Nat := Nat.pow 2 52

/-- The exact value of a finite double; infinities and what is not a number have none. -/
def Binary.ofFloat? (x : Float) : Option Binary :=
  let bits := x.toBits.toNat
  let negative := Nat.pow 2 63 ≤ bits
  let field := (bits / fractionBits) % 2048
  let fraction := bits % fractionBits
  if field = 2047 then none
  else if field = 0 then some ⟨negative, fraction, -1074, false⟩
  else some ⟨negative, fraction + fractionBits, (field : Int) - 1075, fraction = 0 && 1 < field⟩

def twoPow (e : Int) : Rat := if 0 ≤ e then (Nat.pow 2 e.toNat : Rat) else mkRat 1 (Nat.pow 2 (-e).toNat)

def Binary.toRat (b : Binary) : Rat :=
  let size := (b.mantissa : Rat) * twoPow b.exponent
  if b.negative then -size else size

/-- The magnitude times `4`, over a power of two: numerator and denominator of `4 * |b|`. -/
def Binary.scaled (b : Binary) : Nat × Nat :=
  if 0 ≤ b.exponent then (4 * b.mantissa * Nat.pow 2 b.exponent.toNat, 1)
  else (4 * b.mantissa, Nat.pow 2 (-b.exponent).toNat)

/-- The double nearest to a fraction of naturals, ties to even, when both sides are moderate; large sides are first cut to 66 bits with the rest kept as a sticky bit. -/
def ratioToFloat (n d : Nat) : Float :=
  if n = 0 then 0.0
  else if n ≤ fractionBits && d ≤ fractionBits then Float.ofNat n / Float.ofNat d
  else
    let shift : Int := 66 - (Nat.log2 n : Int) + (Nat.log2 d : Int)
    let n' := if 0 ≤ shift then n * Nat.pow 2 shift.toNat else n
    let d' := if 0 ≤ shift then d else d * Nat.pow 2 (-shift).toNat
    let q := n' / d'
    let sticky := if n' % d' = 0 then 0 else 1
    Float.scaleB (Float.ofNat (2 * q + sticky)) (-(shift + 1))

def ratToFloat (r : Rat) : Float :=
  let size := ratioToFloat r.num.natAbs r.den
  if r.num < 0 then -size else size

/-- The double nearest to `mantissa * 10^exponent`; sizes beyond every double are infinite or zero. -/
def readDecimal (mantissa : Nat) (exponent : Int) : Float :=
  let magnitude := ((Nat.toDigits 10 mantissa).length : Int) + exponent
  if mantissa = 0 || magnitude < -400 then 0.0
  else if 400 < magnitude then 1.0 / 0.0
  else if 0 ≤ exponent then Float.ofScientific mantissa false exponent.toNat
  else Float.ofScientific mantissa true (-exponent).toNat

/-! ### Digits -/

/-- `digits * 10^(exponent + 1 - length of digits)`: the first digit stands at `10^exponent`. -/
structure Digits where
  digits : List Char
  exponent : Int
  deriving DecidableEq, Repr

def digitCount (n : Nat) : Nat := (Nat.toDigits 10 n).length

/-- The largest `e` with `10^e ≤ n/d`, for positive `n` and `d`. -/
def decimalExponent (n d : Nat) : Int :=
  if d ≤ n then (digitCount (n / d) : Int) - 1
  else
    let e := digitCount (d / n) - 1
    if n * Nat.pow 10 e = d then -(e : Int) else -(e : Int) - 1

/-- `n/d * 10^shift` as a quotient of naturals. -/
def shifted (n d : Nat) (shift : Int) : Nat × Nat :=
  if 0 ≤ shift then (n * Nat.pow 10 shift.toNat, d) else (n, d * Nat.pow 10 (-shift).toNat)

inductive Tie where
  | toEven
  | away
  deriving DecidableEq, Repr

/-- The natural nearest to `n/d`. -/
def roundQuotient (n d : Nat) (tie : Tie) : Nat :=
  let q := n / d
  let twice := 2 * (n % d)
  if twice < d then q
  else if d < twice then q + 1
  else match tie with
    | .toEven => if q % 2 = 0 then q else q + 1
    | .away => q + 1

def ofCount (count : Nat) (exponent : Int) (value : Nat) : Digits :=
  let digits := Nat.toDigits 10 value
  if digits.length ≤ count then ⟨digits, exponent⟩ else ⟨digits.take count, exponent + 1⟩

/-- `n/d` rounded to `count` significant digits. -/
def significant (count : Nat) (n d : Nat) (tie : Tie) : Digits :=
  let e := decimalExponent n d
  let (n', d') := shifted n d ((count : Int) - 1 - e)
  ofCount count e (roundQuotient n' d' tie)

def trimZeros (digits : List Char) : List Char :=
  match (digits.reverse.dropWhile (· == '0')).reverse with
  | [] => ['0']
  | kept => kept

/-- Does `c * 10^shift` lie among the reals that round to the double `b`? All are compared times four. -/
def Binary.holds (b : Binary) (c : Nat) (shift : Int) : Bool :=
  let unit := if 0 ≤ b.exponent then (Nat.pow 2 b.exponent.toNat, 1) else (1, Nat.pow 2 (-b.exponent).toNat)
  let (cn, cd) := shifted (4 * c) 1 shift
  let low := (4 * b.mantissa - (if b.atPowerOfTwo then 1 else 2)) * unit.1
  let high := (4 * b.mantissa + 2) * unit.1
  let value := cn * unit.2
  if b.mantissa % 2 = 0 then low * cd ≤ value && value ≤ high * cd
  else low * cd < value && value < high * cd

/-- On the grid of `count` significant digits, the neighbours of the value that read back; of two the nearer. -/
def Binary.onGrid? (b : Binary) (count : Nat) : Option Digits :=
  let (n, d) := b.scaled
  let e := decimalExponent n (4 * d)
  let shift := e + 1 - (count : Int)
  let (n', d') := shifted n (4 * d) (-shift)
  let below := n' / d'
  let lowHit := b.holds below shift
  let highHit := b.holds (below + 1) shift
  if lowHit && highHit then some (ofCount count e (roundQuotient n' d' .toEven))
  else if lowHit then some (ofCount count e below)
  else if highHit then some (ofCount count e (below + 1))
  else none

/-- The shortest digits that read back as `b`: the first grid that has any. -/
def Binary.shortest (b : Binary) : Digits :=
  if b.mantissa = 0 then ⟨['0'], 0⟩
  else
    let found := (List.range 17).findSome? fun k => b.onGrid? (k + 1)
    let ⟨digits, e⟩ := found.getD (let (n, d) := b.scaled; significant 17 n (4 * d) .toEven)
    ⟨trimZeros digits, e⟩

end Galerkin.Decimal
