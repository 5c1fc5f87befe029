import Galerkin.Formula.Normal

/-!
Multiplying out. Every pass goes through a formula from the inside: logarithms of products and powers
come apart, then powers of sums, products of sums, powers of products and powers with sums as exponents.
The first three are repeated until nothing changes.
-/

namespace Galerkin.Formula

variable {ν : Type} [DecidableEq ν] [Ord ν] (alg : Algebra ν)

/-- Applies a step to every part of a formula, from the inside. Parts that change are put together anew. -/
def descend (step : Formula ν → Formula ν) : Formula ν → Formula ν
  | const c => const c
  | var q => var q
  | add a b =>
    let es := ofSummands a ++ ofSummands b
    step (if es = summands a ++ summands b then add a b else alg.add es)
  | mul a b =>
    let es := ofFactors a ++ ofFactors b
    step (if es = factors a ++ factors b then mul a b else alg.mul es)
  | pow a b =>
    let a' := descend step a
    let b' := descend step b
    step (if a' = a ∧ b' = b then pow a b else alg.pow a' b')
  | app f x =>
    let x' := descend step x
    step (if x' = x then app f x else alg.app f x')
where
  ofSummands : Formula ν → List (Formula ν)
    | add a b => ofSummands a ++ ofSummands b
    | e => [descend step e]
  ofFactors : Formula ν → List (Formula ν)
    | mul a b => ofFactors a ++ ofFactors b
    | e => [descend step e]

/-! ### Logarithms -/

/-- Is the logarithm of a power with this base and exponent the exponent times the logarithm of the base? -/
def logarithmSplits (b e : Formula ν) : Bool :=
  let t := e.traits
  t.isReal && (b.traits.isPositive ||
    ((alg.add [e, one]).traits.isPositive && (alg.sub e one).traits.isNonpositive))

/-- Splits a logarithm; parts that are logarithms again are split in turn. -/
def splitLogarithm : Nat → Formula ν → Formula ν
  | 0, e => e
  | fuel + 1, e =>
    let again := splitLogarithm fuel
    match e with
    | app .log (const (.exact r)) =>
      if r.den = 1 then
        match Root.perfectPower? r.num.natAbs with
        | some (b, n) => if 0 < r then alg.mul [ofRat n, alg.app .log (ofRat b)] else e
        | none => e
      else alg.sub (alg.app .log (ofRat r.num)) (alg.app .log (ofRat r.den))
    | app .log (mul a b) =>
      let rows := (factors (mul a b)).map fun f => (f, f.traits)
      let outside := rows.filterMap fun (f, t) =>
        if t.isPositive then some (again (alg.app .log f))
        else if t.isNegative then some (alg.app .log (alg.neg f))
        else none
      let inside := rows.filterMap fun (f, t) =>
        if t.isPositive then none else if t.isNegative then some (ofRat (-1)) else some f
      alg.add (outside ++ [alg.app .log (alg.mul (one :: inside))])
    | app .log (pow b x) =>
      if logarithmSplits alg b x then alg.mul [x, again (alg.app .log b)] else alg.app .log (pow b x)
    | app .log (app .exp x) => if x.traits.isReal then x else alg.app .log (app .exp x)
    | e => e

/-! ### Powers of sums -/

/-- The number of ways to choose `k` of `n`. -/
def choose (n k : Nat) : Nat :=
  (List.range k).foldl (fun c i => c * (n - i) / (i + 1)) 1

/-- The terms of the `n`-th power of a sum: coefficients and factors. -/
def multinomial : List (Formula ν) → Nat → List (Nat × List (Formula ν))
  | [], n => if n = 0 then [(1, [])] else []
  | [t], n => [(1, [alg.pow t (ofRat n)])]
  | t :: rest, n =>
    (List.range (n + 1)).flatMap fun (i : Nat) =>
      let head := alg.pow t (ofRat (i : Nat))
      (multinomial rest (n - i)).map fun (c, fs) => (c * choose n i, head :: fs)

def wholePowerOfSum (es : List (Formula ν)) (n : Nat) : List (Formula ν) :=
  (multinomial alg es n).map fun (c, fs) => alg.mul (ofRat c :: fs)

/-- A sum to a power of more than one. -/
def powerOfSum (b : Formula ν) (r : Rat) : Formula ν :=
  let n := r.floor.toNat
  let whole := if n = 1 then summands b else wholePowerOfSum alg (summands b) n
  if r.den = 1 then alg.add whole
  else
    let root := alg.pow b (ofRat (r - n))
    alg.add (whole.map fun e => alg.mul [e, root])

/-- Are all summands nonnegative, or all nonpositive? -/
def haveOneSign (es : List (Formula ν)) : Bool :=
  es.all (fun e => e.traits.isNonnegative) || es.all fun e => e.traits.isNonpositive

/-- May a power with this base and exponent be split at the summands of the exponent? -/
def exponentSplits (b : Formula ν) (es : List (Formula ν)) : Bool :=
  b.traits.isNonzero || haveOneSign es

def splitPowerOfSum (e : Formula ν) : Formula ν :=
  match e with
  | pow (add a b) (const (.exact r)) =>
    if 1 < r then powerOfSum alg (add a b) r
    else if r < -1 then alg.inverse (powerOfSum alg (add a b) (-r))
    else e
  | pow (const c) (add x y) =>
    let es := summands (add x y)
    if exponentSplits (const c) es then
      let (numbers, rest) := es.partition fun x => x.number?.isSome
      if numbers.isEmpty || rest.isEmpty then e
      else alg.mul (numbers.map (alg.pow (const c)) ++ [alg.pow (const c) (sumOf rest)])
    else e
  | e => e

/-! ### Products of sums -/

/-- The parts of a factor above and below the fraction line. -/
def aboveBelow (f : Formula ν) : List (Formula ν) × List (Formula ν) :=
  match f with
  | const (.exact r) =>
    if r.den = 1 then ([f], []) else ((if r.num = 1 then [] else [ofRat r.num]), [ofRat r.den])
  | f =>
    let (_, x) := baseExponent f
    let below := match x with
      | mul _ _ => x.traits.isNegative || (!x.traits.isPositive && (splitTerm x).1.isNegative)
      | x => x.traits.isNegative
    if below then ([], [alg.inverse f]) else ([f], [])

/-- The summands of a product of sums. -/
def productOfSums : List (List (Formula ν)) → List (Formula ν)
  | [] => [one]
  | [es] => es
  | es :: rest =>
    let others := productOfSums rest
    summands (alg.add (es.flatMap fun a => others.map fun b => alg.mul [a, b]))

def distribute : Nat → Formula ν → Formula ν
  | 0, e => e
  | fuel + 1, e =>
    match e with
    | mul a b =>
      let parts := (factors (mul a b)).map (aboveBelow alg)
      let n := alg.mul (one :: parts.flatMap (·.1))
      let d := alg.mul (one :: parts.flatMap (·.2))
      let whole := if d.isProduct then alg.div (distribute fuel n) (distribute fuel d) else alg.div n d
      match whole with
      | mul a b =>
        let (sums, plain) := (factors (mul a b)).partition isSum
        if sums.isEmpty then whole
        else
          let front := alg.mul (one :: plain)
          alg.add ((productOfSums alg (sums.map summands)).map fun t =>
            let product := alg.mul [front, t]
            if product.isProduct && (factors product).any isSum then distribute fuel product else product)
      | whole => whole
    | e => e

/-! ### Powers of products and with sums as exponents -/

def splitPowerOfProduct (e : Formula ν) : Formula ν :=
  match e with
  | pow (mul a b) x => splitBase alg (mul a b) x
  | e => e

def splitExponent (e : Formula ν) : Formula ν :=
  match e with
  | pow b (add x y) =>
    let es := summands (add x y)
    if exponentSplits b es then alg.mul (es.map (alg.pow b)) else e
  | app .exp (add x y) => alg.mul ((summands (add x y)).map (alg.app .exp))
  | e => e

/-! ### All together -/

/-- How deep logarithms and products are taken apart, and how often passes are repeated. -/
def expansionDepth : Nat := 64

def repeated (pass : Formula ν → Formula ν) : Nat → Formula ν → Formula ν
  | 0, e => e
  | n + 1, e =>
    let next := pass e
    if next = e then e else repeated pass n next

/-- Multiplies out everywhere. -/
def expand (e : Formula ν) : Formula ν :=
  let logarithms := descend alg (splitLogarithm alg expansionDepth)
  let sums := descend alg (splitPowerOfSum alg)
  let products := descend alg (distribute alg expansionDepth)
  let once := descend alg (splitExponent alg) (descend alg (splitPowerOfProduct alg)
    (products (sums (logarithms e))))
  repeated (fun e => logarithms (products (sums e))) expansionDepth once

end Galerkin.Formula
