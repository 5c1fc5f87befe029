import Galerkin.Formula.Coeff

/-!
Rational powers of natural numbers. What is rational in a root is taken out of it, and what is left is
written with as small a base as trial division finds: `12^(1/2)` is `2 * 3^(1/2)` and `4^(1/6)` is
`2^(1/3)`.
-/

namespace Galerkin.Root

/-- The largest `r` with at most `digits` binary digits and `r ^ q ≤ n`, where `low` is no larger. -/
def floorWithin (q n : Nat) : Nat → Nat → Nat
  | 0, low => low
  | digits + 1, low =>
    let high := low + Nat.pow 2 digits
    floorWithin q n digits (if Nat.pow high q ≤ n then high else low)

/-- The root of an exact power. -/
def root? (q n : Nat) : Option Nat :=
  if n ≤ 1 then some n
  else if Nat.log2 n < q then none
  else
    let r := floorWithin q n (Nat.log2 n / q + 1) 0
    if Nat.pow r q = n then some r else none

/-- How often `p` divides a number, and what is left. -/
def divideOut (p : Nat) : Nat → Nat → Nat × Nat
  | 0, n => (0, n)
  | fuel + 1, n =>
    if n % p = 0 then
      let (k, rest) := divideOut p fuel (n / p)
      (k + 1, rest)
    else (0, n)

/-- Divides by the `count` numbers from `p` on; what is left after that counts as a factor. -/
def trialFactors : Nat → Nat → Nat → List (Nat × Nat)
  | 0, _, n => if n = 1 then [] else [(n, 1)]
  | count + 1, p, n =>
    if n = 1 then []
    else if n < p * p then [(n, 1)]
    else if n % p = 0 then
      let (k, rest) := divideOut p (Nat.log2 n + 1) n
      (p, k) :: trialFactors count (p + 1) rest
    else trialFactors count (p + 1) n

/-- Divisors beyond this one are not tried. -/
def largestDivisor : Nat := 32768

/-- The first of the `count` numbers from `p` on that divides `n`, or `n` if it is seen to be prime. -/
def firstFactor? : Nat → Nat → Nat → Option Nat
  | 0, _, _ => none
  | count + 1, p, n =>
    if n < p * p then some n
    else if n % p = 0 then some p
    else firstFactor? count (p + 1) n

/-- The representation of a number as a power with the largest exponent from two to `q` that divides `k`. -/
def asPower? (n k : Nat) : Nat → Option (Nat × Nat)
  | 0 | 1 => none
  | q + 2 =>
    match if k % (q + 2) = 0 then root? (q + 2) n else none with
    | some r => some (r, q + 2)
    | none => asPower? n k (q + 1)

/-- Exponents beyond this one are not tried on numbers without small factors. -/
def largestExponent : Nat := 64

/-- The representation of a number as a power with the largest exponent. -/
def perfectPower? (n : Nat) : Option (Nat × Nat) :=
  if n < 4 then none
  else match firstFactor? largestDivisor 2 n with
    | some p =>
      let (k, _) := divideOut p (Nat.log2 n + 1) n
      asPower? n k k
    | none => asPower? n 0 largestExponent

def factorize (n : Nat) : List (Nat × Nat) :=
  match perfectPower? n with
  | some factor => [factor]
  | none => trialFactors largestDivisor 2 n

/-- A natural number to a power between zero and one. -/
abbrev Radical := Nat × Rat

/-- A natural number and radicals, to be multiplied. -/
structure Split where
  whole : Nat
  radicals : List Radical

/-- A power `p ^ (k * e)` of one factor: the whole part, and a radical with a smaller exponent if there is one. -/
def splitFactor (e : Rat) (factor : Nat × Nat) : Nat × Option Radical × Option (Nat × Nat) :=
  let (p, k) := factor
  let n := k * e.num.toNat
  let whole := Nat.pow p (n / e.den)
  let rest := n % e.den
  let g := Nat.gcd rest e.den
  if rest = 0 then (whole, none, none)
  else if g ≠ 1 then (whole, some (p, mkRat (rest / g : Nat) (e.den / g)), none)
  else (whole, none, some (p, rest))

/-- A natural number to a positive power that is no integer; nothing if it is written that way already. -/
def split? (n : Nat) (e : Rat) : Option Split :=
  match root? e.den n with
  | some r => some ⟨Nat.pow r e.num.toNat, []⟩
  | none =>
    let parts := (factorize n).map (splitFactor e)
    let whole := parts.foldl (fun w s => w * s.1) 1
    let reduced := parts.filterMap (·.2.1)
    let joint := parts.filterMap (·.2.2)
    let g := joint.foldl (fun g s => Nat.gcd g s.2) 0
    let base := joint.foldl (fun b s => b * Nat.pow s.1 (s.2 / g)) 1
    if base = n && whole = 1 && reduced.isEmpty then none
    else some ⟨whole, reduced ++ if joint.isEmpty then [] else [(base, mkRat g e.den)]⟩

end Galerkin.Root
