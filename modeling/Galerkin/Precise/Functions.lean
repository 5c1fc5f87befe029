import Galerkin.Precise.Dyadic

/-!
Elementary functions of a real number. A fixed-point number with `w` digits is an integer that counts
units of `2^-w`; arguments are reduced until a power series needs few terms. Results carry an error of
some units in the last place, for which callers allow guard digits.
-/

namespace Galerkin.Precise

/-! ### Fixed point -/

/-- The product of two fixed-point numbers. -/
def mulFixed (w : Nat) (x y : Int) : Int := (x * y) >>> w

def divFixed (w : Nat) (x y : Int) : Int := (x <<< w) / y

def sqrtFixed (w : Nat) (x : Int) : Int := Nat.sqrt (x.toNat <<< w)

/-- A number in fixed point. -/
def toFixed (w : Nat) (x : Dyadic) : Int := floor (x * .ofIntWithPrec 1 (-(w : Int)))

def ofFixed (w : Nat) (x : Int) : Dyadic := .ofIntWithPrec x w

/-- Sums the terms of a power series: the next power is the last one times `ratio`, and its share is
`weight` of its number. Ends with the first power that is zero. -/
def series (w : Nat) (ratio : Int) (weight : Int → Nat → Int) : Nat → Nat → Int → Int → Int
  | 0, _, _, total => total
  | fuel + 1, k, power, total =>
    if power = 0 then total
    else series w ratio weight fuel (k + 1) (mulFixed w power ratio) (total + weight power k)

/-- Sums terms each of which is the one before times `ratio`, divided by `divisor` of its number. -/
def factorialSeries (w : Nat) (ratio : Int) (divisor : Nat → Int) : Nat → Nat → Int → Int → Int
  | 0, _, _, total => total
  | fuel + 1, k, term, total =>
    if term = 0 then total
    else factorialSeries w ratio divisor fuel (k + 1) (mulFixed w term ratio / divisor (k + 1))
      (total + term)

/-- The area tangent and the arc tangent of `1 / n`; in the latter signs alternate. -/
def inverseTangent (w n : Nat) (alternating : Bool) : Int :=
  let unit : Int := 1 <<< w
  let rec sum : Nat → Nat → Int → Int → Int
    | 0, _, _, total => total
    | fuel + 1, k, power, total =>
      if power = 0 then total
      else
        let share := power / (2 * k + 1)
        sum fuel (k + 1) (power / (n * n)) (if alternating && k % 2 = 1 then total - share else total + share)
  sum w 0 (unit / n) 0

def piFixed (w : Nat) : Int :=
  let g := w + 16
  (16 * inverseTangent g 5 true - 4 * inverseTangent g 239 true) >>> (16 : Nat)

def log2Fixed (w : Nat) : Int :=
  let g := w + 16
  (18 * inverseTangent g 26 false - 2 * inverseTangent g 4801 false + 8 * inverseTangent g 8749 false) >>> (16 : Nat)

/-- How often arguments are halved before a power series is summed. -/
def halvings : Nat := 12

def squareTimes (w : Nat) : Nat → Int → Int
  | 0, x => x
  | n + 1, x => squareTimes w n (mulFixed w x x)

/-- The exponential of a number below one in size. -/
def expFixed (w : Nat) (x : Int) : Int :=
  let unit : Int := 1 <<< w
  squareTimes w halvings (factorialSeries w (x >>> halvings) (fun k => k) w 0 unit 0)

def rootTimes (w : Nat) : Nat → Int → Int
  | 0, x => x
  | n + 1, x => rootTimes w n (sqrtFixed w x)

/-- The logarithm of a number between a half and two. -/
def logFixed (w : Nat) (x : Int) : Int :=
  let unit : Int := 1 <<< w
  let root := rootTimes w halvings x
  let z := divFixed w (root - unit) (root + unit)
  (series w (mulFixed w z z) (fun power k => power / (2 * k + 1)) w 0 z 0) <<< (halvings + 1)

/-- Sine and cosine of a number below one in size. -/
def sinCosFixed (w : Nat) (x : Int) : Int × Int :=
  let unit : Int := 1 <<< w
  let square := -(mulFixed w x x)
  (factorialSeries w square (fun k => 2 * k * (2 * k + 1)) w 0 x 0,
    factorialSeries w square (fun k => 2 * k * (2 * k - 1)) w 0 unit 0)

def halveAngle (w : Nat) : Nat → Int → Int
  | 0, t => t
  | n + 1, t =>
    let unit : Int := 1 <<< w
    halveAngle w n (divFixed w t (unit + sqrtFixed w (unit + mulFixed w t t)))

/-- The arc tangent of a number below one in size. -/
def arctanFixed (w : Nat) (t : Int) : Int :=
  let t := halveAngle w halvings t
  (series w (-(mulFixed w t t)) (fun power k => power / (2 * k + 1)) w 0 t 0) <<< halvings

/-! ### Real functions -/

/-- Guard digits of all functions. -/
def guard : Nat := 64

def pi (bits : Nat) : Dyadic := round bits (ofFixed (bits + guard) (piFixed (bits + guard)))

/-- Beyond this power of two the exponential is taken to be infinite or zero. -/
def largestExponent : Int := 64

/-- The exponential; infinite for very large arguments. -/
def exp? (bits : Nat) (x : Dyadic) : Option Dyadic :=
  match magnitude? x with
  | none => some (ofInt 1)
  | some m =>
    if largestExponent < m then (if isNegative x then some .zero else none)
    else if m < -(bits : Int) then some (add (4 * bits) (ofInt 1) x)
    else
      let w := bits + guard
      let wide := w + 80
      let steps := floor (divide 96 x (ofFixed wide (log2Fixed wide)))
      let rest := toFixed wide x - steps * log2Fixed wide
      some (round bits (ofFixed w (expFixed w (rest >>> (80 : Nat))) * .ofIntWithPrec 1 (-steps)))

/-- The logarithm of a positive number. -/
def log (bits : Nat) (x : Dyadic) : Dyadic :=
  match magnitude? x with
  | none => .zero
  | some m =>
    let w := bits + guard
    let m := if 0 ≤ m then m else m + 1
    let part := toFixed w (round (2 * w) x * .ofIntWithPrec 1 m)
    round bits (ofFixed w (logFixed w part + m * log2Fixed w))

/-- Sine and cosine. An argument too large to be reduced has neither. -/
def sinCos? (bits : Nat) (x : Dyadic) : Option (Dyadic × Dyadic) :=
  match magnitude? x with
  | none => some (.zero, ofInt 1)
  | some m =>
    if 4096 < m then none
    else if m < -(bits : Int) then some (x, ofInt 1)
    else
      let w := bits + guard
      let wide := w + m.toNat + 8
      let quarter := piFixed wide / 2
      let turns := (2 * toFixed wide x + quarter) / (2 * quarter)
      let (s, c) := sinCosFixed w ((toFixed wide x - turns * quarter) >>> (wide - w))
      let (s, c) := match turns % 4 with
        | 0 => (s, c)
        | 1 => (c, -s)
        | 2 => (-s, -c)
        | _ => (-c, s)
      some (round bits (ofFixed w s), round bits (ofFixed w c))

/-- The angle of the point with coordinates `x` and `y`, between minus and plus half a turn. -/
def angle (bits : Nat) (x y : Dyadic) : Dyadic :=
  let w := bits + guard
  let flat : Int :=
    let ax := abs x
    let ay := abs y
    if ay ≤ ax then
      (if ax = .zero then 0 else arctanFixed w (toFixed w (divide (2 * w) ay ax)))
    else piFixed w / 2 - arctanFixed w (toFixed w (divide (2 * w) ax ay))
  let upper := if isNegative x then piFixed w - flat else flat
  round bits (ofFixed w (if isNegative y then -upper else upper))

/-- Hyperbolic sine and cosine; both may be too large. -/
def sinhCosh? (bits : Nat) (x : Dyadic) : Option (Dyadic × Dyadic) :=
  if below (-(bits : Int) / 2) x then some (x, ofInt 1)
  else do
    let up ← exp? bits x
    let down ← exp? bits (-x)
    let half : Dyadic := .ofIntWithPrec 1 1
    pure (round bits (add (2 * bits) up (-down) * half), round bits (add (2 * bits) up down * half))

def tanh (bits : Nat) (x : Dyadic) : Dyadic :=
  if below (-(bits : Int) / 2) x then x
  else match exp? bits (x + x) with
    | none => ofInt 1
    | some e => divide bits (add (2 * bits) e (ofInt (-1))) (add (2 * bits) e (ofInt 1))

end Galerkin.Precise
