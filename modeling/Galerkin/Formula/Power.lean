import Galerkin.Formula.Product

/-!
Normal powers. Powers of numbers are worked out as far as they are rational, powers with a decimal in
them as decimals. A power of a product is taken apart, and powers of powers join, only where that holds
for the principal value whatever the variables are.
-/

namespace Galerkin.Formula

variable {ν : Type} [DecidableEq ν] [Ord ν] (alg : Algebra ν)

def isInteger (e : Formula ν) : Bool := e.number?.any Coeff.isInteger

/-! ### Powers of numbers -/

/-- Minus one to a rational power: a sign times a power with an exponent below one. -/
def turnPower (e : Rat) : Formula ν :=
  let rest := e - e.floor
  let flipped := e.floor % 2 ≠ 0
  if rest = 0 then ofRat (if flipped then -1 else 1)
  else
    let root := pow (ofRat (-1)) (ofRat rest)
    if flipped then mul (ofRat (-1)) root else root

/-- A natural number to a positive rational power. -/
def naturalPower (n : Nat) (e : Rat) : Formula ν :=
  match Root.split? n e with
  | none => pow (ofRat n) (ofRat e)
  | some s => alg.mul (ofRat s.whole :: s.radicals.map fun r => pow (ofRat r.1) (ofRat r.2))

/-- A positive number to a rational power that is no integer. The denominator of the result is rational. -/
def positivePower (r e : Rat) : Formula ν :=
  let (r, e) := if e < 0 then (r⁻¹, -e) else (r, e)
  if r.den = 1 then naturalPower alg r.num.toNat e
  else
    let whole := e.floor.toNat + 1
    alg.mul [naturalPower alg r.num.toNat e, naturalPower alg r.den (whole - e),
      ofRat (mkRat 1 (Nat.pow r.den whole))]

/-- The decimal nearest to a computed number, in two parts if it is not real. -/
def ofValue (x : Extended) : Formula ν :=
  match Coeff.ofExtended? x with
  | some c => const c
  | none =>
    match x with
    | .finite a b =>
      let im := alg.mul [const (.ofDyadic b), imaginaryUnit]
      if Extended.isNegligible b a then im else alg.add [const (.ofDyadic a), im]
    | .unsigned => const .unsigned
    | _ => const .undefined

/-- A power of finite numbers one of which is a decimal. -/
def decimalPower (c e : Coeff) : Formula ν :=
  let value := ofValue alg (Scalar.pow (.ofReal (c.rounded?.getD .zero)) (.ofReal (e.rounded?.getD .zero)))
  match e with
  | .exact r =>
    if c.isNegative && r.num = 1 && r.den % 2 = 1 then
      alg.mul [turnPower r, alg.pow (const c.neg) (const e)]
    else value
  | _ => value

/-- A number to a power that is a number, neither being undefined. -/
def numberPower (c e : Coeff) : Formula ν :=
  match c, e with
  | .infinite negative, e =>
    if e.isNegative then zero
    else if !negative then const c
    else match e.integer? with
      | some n => const (.infinite (n % 2 ≠ 0))
      | none => alg.mul [alg.pow (ofRat (-1)) (const e), const (.infinite false)]
  | .unsigned, e => const (if e.isNegative then .zero else .unsigned)
  | c, e =>
    if c.isZero then const (if e.isNegative then .unsigned else .zero)
    else match e.integer? with
      | some n =>
        match c.intPower? n with
        | some p => const p
        | none => pow (const c) (const e)
      | none =>
        match c, e with
        | .exact r, .exact s =>
          if r < 0 then alg.mul [turnPower s, if r = -1 then one else positivePower alg (-r) s]
          else positivePower alg r s
        | c, e => decimalPower alg c e

/-- A number to an infinite power, where that has a value. -/
def infinitePower? (b : Formula ν) (negative : Bool) : Option (Formula ν) :=
  if b.number?.any Coeff.isInfinite then
    if negative then some zero
    else if b = const (.infinite false) then some b
    else some (const .undefined)
  else if b.isClosed then
    match b.closedValue with
    | .finite x y =>
      if y = .zero then
        let x := if negative then (if x = .zero then none else some (Extended.quotient (Precise.ofInt 1) x)) else some x
        x.map fun x =>
          if Precise.ofInt 1 < x then const (.infinite false)
          else if x < Precise.ofInt (-1) then const .unsigned
          else if x = Precise.ofInt (-1) then const .undefined
          else zero
      else none
    | _ => none
  else none

/-- A number to a power that is no number. -/
def numberToFormula (c : Coeff) (e : Formula ν) : Formula ν :=
  let t := e.traits
  match c with
  | .infinite false =>
    if t.isPositive then const c else if t.isNegative then zero else pow (const c) e
  | c =>
    if c.isZero then
      if t.isPositive then zero
      else if t.isNegative then const .unsigned
      else if t.real = some false then const .undefined
      else
        let (d, m) := splitTerm e
        if d.isNegative then alg.pow (const .unsigned) m
        else if d.isOne then pow (const c) e
        else alg.pow (const c) m
    else pow (const c) e

/-! ### Powers of sums -/

/-- Real and imaginary part of a complex number that is written as a sum of them. -/
def complexParts? (e : Formula ν) : Option (Rat × Rat) :=
  let coefficient := fun (x : Formula ν) =>
    let (c, m) := splitTerm x
    if m = imaginaryUnit then c.rational? else none
  match e with
  | add (const (.exact a)) b => (coefficient b).map fun b => (a, b)
  | _ => none

/-- A power of a complex number that has a simple form. -/
def complexPower? (a b : Rat) (e : Rat) : Option (Formula ν) :=
  let size := a * a + b * b
  if e = -1 then
    some (alg.mul [ofRat size⁻¹, alg.add [ofRat a, alg.mul [ofRat (-b), imaginaryUnit]]])
  else if e.den = 2 then
    match Root.root? 2 size.num.natAbs, Root.root? 2 size.den with
    | some n, some d =>
      let modulus := mkRat n d
      let root := alg.pow (alg.sqrt (ofRat ((modulus - a) / 2))) (ofRat e.num)
      let side := (modulus + a) / (if b < 0 then -b else b)
      let direction := alg.add [ofRat side, alg.mul [ofRat (if b < 0 then -1 else 1), imaginaryUnit]]
      some (alg.mul [root, alg.pow direction (ofRat e.num)])
    | _, _ => none
  else none

/-- Takes the largest coefficient out of a sum if some coefficient is a decimal. -/
def scaledPower? (b : Formula ν) (e : Coeff) : Option (Formula ν) :=
  let ts := (summands b).map splitTerm
  if !ts.any (·.1.isDecimal) || e.abs.isOne then none
  else
    let big := ts.foldl (fun big t => if t.1.abs.compareSize big = .lt then big else t.1.abs) .zero
    if big.compareSize .one = .eq || !big.isFinite then none
    else
      let scaled := ts.map fun (t : Term ν) =>
        let c := if t.1.abs = big then (if t.1.isNegative then .ofInt (-1) else .one) else t.1.div big
        alg.mul [const c, t.2]
      some (alg.mul [alg.pow (const big) (const e), alg.pow (alg.add scaled) (const e)])

/-- A sum to a power that is a number. -/
def sumPower (b : Formula ν) (e : Coeff) : Formula ν :=
  let simpler :=
    match b.isClosed, e.rational? with
    | true, some r => (complexParts? b).bind fun p => complexPower? alg p.1 p.2 r
    | _, _ => scaledPower? alg b e
  simpler.getD (pow b (const e))

/-! ### Powers of products -/

/-- Adds the sign of an odd number of negative factors to what stays inside. -/
def negativesOut (negative inside : List (Formula ν)) : List (Formula ν) × List (Formula ν) :=
  match negative, inside with
  | [], inside => ([], inside)
  | [n], [] => ([], [n])
  | [n], inside =>
    if n.number?.isSome && n ≠ ofRat (-1) then ([alg.neg n], inside ++ [ofRat (-1)])
    else ([], inside ++ [n])
  | n :: rest, inside =>
    let (front, rest) := if inside.isEmpty && n.number?.isSome then ([n], rest) else ([], n :: rest)
    let sign := if rest.length % 2 = 1 then alg.neg (productOf front) else productOf front
    (rest.map alg.neg, if sign.isOne then inside else inside ++ [sign])

/-- Takes what is not negative out of the base of a power. -/
def splitBase (b e : Formula ν) : Formula ν :=
  let rows := (factors b).map fun f => (f, f.traits)
  let outside := (rows.filter fun r => r.2.isNonnegative).map (·.1)
  let negative := (rows.filter fun r => r.2.isNegative).map (·.1)
  let inside := (rows.filter fun r => !r.2.isNonnegative && !r.2.isNegative).map (·.1)
  let (more, inside) := negativesOut alg negative inside
  let outside := outside ++ more
  let left := if inside.isEmpty then one else alg.mul inside
  let leftPower := if left.isOne then one else if left.isProduct then pow left e else alg.pow left e
  if outside.isEmpty then leftPower
  else alg.mul (leftPower :: outside.map fun f => alg.pow f e)

/-- The square root of a rational, where it is rational. -/
def rationalRoot? (r : Rat) : Option Rat :=
  match Root.root? 2 r.num.natAbs, Root.root? 2 r.den with
  | some n, some d => some (mkRat n d)
  | _, _ => none

/-- A half-integral power of an imaginary number `a`. -/
def imaginaryRoot? (a : Rat) (e : Rat) : Option (Formula ν) :=
  (rationalRoot? ((if a < 0 then -a else a) / 2)).map fun r =>
    alg.mul [alg.pow (ofRat r) (ofRat e.num),
      alg.pow (alg.add [one, alg.mul [ofRat (if a < 0 then -1 else 1), imaginaryUnit]]) (ofRat e.num)]

/-- A product to a power. -/
def powerOfProduct (b e : Formula ν) : Formula ν :=
  match e with
  | const c =>
    if c.isInteger then alg.mul ((factors b).map fun f => alg.pow f e)
    else
      let root :=
        match c.rational?, splitTerm b with
        | some r, (.exact a, m) => if r.den = 2 && m = imaginaryUnit then imaginaryRoot? alg a r else none
        | _, _ => none
      root.getD (splitBase alg b e)
  | _ => pow b e

/-! ### Powers of powers -/

/-- The angle of a number, in half turns. -/
def halfTurns? (b : Formula ν) : Option Dyadic :=
  if b.traits.isNegative then some (Precise.ofInt 1)
  else if b.isClosed then
    match Extended.angle b.closedValue with
    | .finite a _ => some (Extended.quotient a (Precise.pi Extended.bits))
    | _ => none
  else none

/-- The sign by which a half-integral power of `b ^ e` differs from the power with the product of the exponents. -/
def rootSign? (b e : Formula ν) (outer : Rat) : Option Rat :=
  match halfTurns? b, e.isClosed, e.closedValue with
  | some turns, true, .finite x _ =>
    let n := Precise.floor (Extended.half (Extended.plus (Precise.ofInt 1) (-(Extended.times x turns))))
    some (if (n * outer.num) % 2 = 0 then 1 else -1)
  | _, _, _ => none

/-- Is a number known to be less than `n` in size? -/
def isWithin (n : Int) (e : Formula ν) : Bool :=
  e.isClosed && match e.closedValue with
    | .finite x y => y = .zero && Precise.abs x < Precise.ofInt n
    | _ => false

def isRightOfZero (b : Formula ν) : Bool :=
  b.isClosed && match b.closedValue with
    | .finite x _ => !Precise.isNegative x
    | _ => false

/-- A power, also of the base of the exponential function. -/
def raise (b e : Formula ν) : Formula ν := if b = euler then alg.app .exp e else alg.pow b e

/-- The power `(b ^ e) ^ outer` as a power of `b`, where it is one. -/
def joinPowers? (b e outer : Formula ν) : Option (Formula ν) :=
  let joined := fun (b : Formula ν) => raise alg b (alg.mul [e, outer])
  if outer.isInteger then some (joined b)
  else if !e.traits.isReal then none
  else
    let t := b.traits
    let half := outer.number?.any Coeff.isHalf
    if e = ofRat (-1) && half && t.negative.isSome then
      if t.isNegative then
        some (alg.mul [alg.pow (ofRat (-1)) outer, alg.pow (alg.neg b) (alg.neg outer)])
      else some (raise alg b (alg.neg outer))
    else
      let b := if e.number?.any Coeff.isEven && t.isReal then alg.app .abs b else b
      if isWithin 1 e || e.isOne || b.traits.isNonnegative || (isWithin 2 e && isRightOfZero b) then
        some (joined b)
      else if half then
        (rootSign? b e (outer.rational?.getD 0)).map fun s => alg.mul [ofRat s, joined b]
      else none

/-! ### All powers -/

/-- An integer power of a modulus. -/
def powerOfModulus (x : Formula ν) (e : Formula ν) : Formula ν :=
  match e.integer? with
  | some n =>
    if !x.traits.isReal || n = -1 then pow (app .abs x) e
    else if n % 2 = 0 then alg.pow x e
    else alg.mul [alg.pow x (ofRat (n - 1)), app .abs x]
  | none => pow (app .abs x) e

/-- The numerator `n` of an exponent `n / log b`. -/
def overLogarithm? (b e : Formula ν) : Option (Formula ν) :=
  let inverse := pow (app .log b) (ofRat (-1))
  let fs := factors e
  if fs.contains inverse then some (alg.mul (one :: fs.filter (· ≠ inverse))) else none

/-- A power whose exponent is neither zero nor one. -/
def properPower (b e : Formula ν) : Formula ν :=
  match overLogarithm? alg b e with
  | some n => alg.app .exp n
  | none =>
    match b, e with
    | const c, const d => numberPower alg c d
    | const c, e => numberToFormula alg c e
    | add x y, const c => sumPower alg (add x y) c
    | mul x y, e => powerOfProduct alg (mul x y) e
    | pow x y, e =>
      let (base, inner) := baseExponent (pow x y)
      (joinPowers? alg base inner e).getD (pow b e)
    | app .exp x, e => (joinPowers? alg euler x e).getD (pow b e)
    | app .abs x, e => powerOfModulus alg x e
    | app .sign x, const c => if c.isEven && x.traits.isNonzero then one else pow b e
    | b, e => pow b e

/-- The normal power of normal formulas. -/
def normalPower (b e : Formula ν) : Formula ν :=
  match e with
  | const .unsigned => const .undefined
  | e =>
    if e.isZero then one
    else if e.isOne then b
    else if b = const .undefined || e = const .undefined then const .undefined
    else if b.isOne then (if e.number?.any Coeff.isInfinite then const .undefined else one)
    else match e with
      | const (.infinite negative) => (infinitePower? b negative).getD (pow b e)
      | e => properPower alg b e

end Galerkin.Formula
