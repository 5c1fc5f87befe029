import Galerkin.Formula.Root
import Galerkin.Formula.Traits

/-!
Normal sums: one number in front, then terms with distinct monomials in ascending order, each with a
coefficient that is not zero. Summands that an infinity swallows are left out.

Normal products: a number in front, then factors in ascending order. Powers of one base are gathered,
powers of numbers with one exponent too; roots of naturals are brought to coprime bases and roots of
minus one to an angle of less than half a turn. A number times a sum is multiplied out.
-/

namespace Galerkin.Formula

variable {ν : Type} [DecidableEq ν] [Ord ν]

/-! ### Sums -/

/-- The arrangement of formulas in normal sums and products. -/
def compareTo (a b : Formula ν) : Ordering := order Ord.compare a b

abbrev Term (ν : Type) := Coeff × Formula ν

/-- Adds the coefficients of neighbours with the same monomial. -/
def joinTerms : List (Term ν) → List (Term ν)
  | s :: t :: rest =>
    if s.2 = t.2 then joinTerms ((s.1.add t.1, s.2) :: rest) else s :: joinTerms (t :: rest)
  | ts => ts
termination_by ts => ts.length

/-- Terms in order with distinct monomials. -/
def collect (ts : List (Term ν)) : List (Term ν) :=
  joinTerms (ts.mergeSort fun s t => compareTo s.2 t.2 ≠ .gt)

/-- Does a summand vanish beside an infinite number? -/
def isSwallowed (c : Coeff) (t : Traits) : Bool :=
  match c with
  | .infinite negative =>
    (if negative then t.isNonpositive else t.isNonnegative) || (t.isReal && t.isFinite)
  | .unsigned => t.isFinite && t.real.isSome
  | _ => false

/-- The normal sum of normal formulas. -/
def normalSum (es : List (Formula ν)) : Formula ν :=
  let (numbers, rest) := ((es.flatMap summands).map splitTerm).partition fun t => t.2.isOne
  let c := numbers.foldl (fun c t => c.add t.1) .zero
  let ts := collect rest
  if c = .undefined || ts.any (·.1 = .undefined) then const .undefined
  else
    let kept := (ts.filter (!·.1.isZero)).map ofTerm
    let kept := if c.isFinite then kept else kept.filter fun e => !isSwallowed c e.traits
    sumOf (if c.isZero then kept else const c :: kept)

/-! ### Gathering powers -/

/-- The power `base ^ (coeff * part)`; `part` is one where the exponent is a number. -/
structure Factor (ν : Type) where
  base : Formula ν
  part : Formula ν
  coeff : Coeff

namespace Factor

def ofPower (base exponent : Formula ν) : Factor ν :=
  let (c, part) := splitTerm exponent
  ⟨base, part, c⟩

def compare (x y : Factor ν) : Ordering := (compareTo x.base y.base).then (compareTo x.part y.part)

/-- Adds the exponents of neighbours with the same base and the same part. -/
def join : List (Factor ν) → List (Factor ν)
  | x :: y :: rest =>
    if x.base = y.base ∧ x.part = y.part then join ({ x with coeff := x.coeff.add y.coeff } :: rest)
    else x :: join (y :: rest)
  | xs => xs
termination_by xs => xs.length

end Factor

/-- A base and an exponent. -/
abbrev Power (ν : Type) := Formula ν × Formula ν

/-- Powers with distinct bases, or with exponents that cannot be added. -/
def gather (alg : Algebra ν) (ps : List (Power ν)) : List (Power ν) :=
  let fs := ps.map fun p => Factor.ofPower p.1 p.2
  (Factor.join (fs.mergeSort fun x y => x.compare y ≠ .gt)).map fun f =>
    (f.base, if f.coeff.isOne then f.part else alg.mul [const f.coeff, f.part])

/-! ### Roots of naturals -/

namespace Radicals

open Root (Radical)

/-- Adds to the entry of a key. -/
def insertWith {κ β : Type} [DecidableEq κ] (combine : β → β → β) (key : κ) (value : β) :
    List (κ × β) → List (κ × β)
  | [] => [(key, value)]
  | (k, v) :: rest =>
    if k = key then (k, combine v value) :: rest else (k, v) :: insertWith combine key value rest

/-- Takes the whole part out of an exponent: a rational factor and the power that is left. -/
def reduce (b : Nat) (e : Rat) : Nat × List Radical :=
  let whole := Nat.pow b e.floor.toNat
  let rest := e - e.floor
  (whole, if rest = 0 then [] else [(b, rest)])

/-- One base per exponent. -/
def byExponent (rs : List Radical) : List (Rat × Nat) :=
  let sums := rs.foldl (fun sums r => insertWith (· + ·) r.1 r.2 sums) []
  sums.foldl (fun groups r => insertWith (· * ·) r.2 r.1 groups) []

/-- What taking the common divisors with the other bases makes of a base. -/
structure Extraction where
  base : Nat
  whole : Nat
  others : List Radical
  grown : List Radical

def extractFrom (e : Rat) (x : Extraction) (other : Radical) : Extraction :=
  let g := Nat.gcd x.base other.1
  if g = 1 then { x with others := x.others ++ [other] }
  else
    let (whole, left) := reduce g (e + other.2)
    ⟨x.base / g, x.whole * whole, x.others ++ [(other.1 / g, other.2)], x.grown ++ left⟩

/-- Brings radicals to coprime bases: a rational factor and the radicals by exponent. -/
def coprime : Nat → List Radical → Nat → List (Rat × Nat) → Nat × List (Rat × Nat)
  | 0, rs, whole, done => (whole, done ++ rs.map fun r => (r.2, r.1))
  | _, [], whole, done => (whole, done)
  | fuel + 1, (b, e) :: rest, whole, done =>
    if b = 1 then coprime fuel rest whole done
    else
      let x := rest.foldl (extractFrom e) ⟨b, whole, [], []⟩
      let next := x.others ++ x.grown
      if x.base = 1 then coprime fuel next x.whole done
      else match Root.split? x.base e with
        | none => coprime fuel next x.whole (insertWith (· * ·) e x.base done)
        | some s =>
          coprime fuel next (x.whole * s.whole)
            (s.radicals.foldl (fun done r => insertWith (· * ·) r.2 r.1 done) done)

/-- The product of radicals. -/
def normal (rs : List Radical) : Nat × List (Rat × Nat) :=
  match rs with
  | [] => (1, [])
  | rs =>
    let parts := (byExponent rs).map fun g => reduce g.2 g.1
    let whole := parts.foldl (fun w p => w * p.1) 1
    let rest := parts.flatMap (·.2)
    coprime (64 + 8 * rest.length) rest whole []

end Radicals

/-! ### Collecting factors -/

/-- The parts of a product by kind. -/
structure Collected (ν : Type) where
  coeff : Coeff
  /-- The exponent of minus one. -/
  turn : Rat
  radicals : List Root.Radical
  /-- Positive numbers with exponents that are no numbers. -/
  numeric : List (Power ν)
  powers : List (Power ν)

namespace Collected

def empty : Collected ν := ⟨.one, 0, [], [], []⟩

/-- Adds a factor. -/
def insert (p : Collected ν) (e : Formula ν) : Collected ν :=
  match e with
  | const c => { p with coeff := p.coeff.mul c }
  | pow (const (.exact b)) (const (.exact x)) =>
    if x.den = 1 ∨ x < 0 ∨ b.den ≠ 1 then { p with powers := p.powers ++ [(const (.exact b), const (.exact x))] }
    else
      let p := if b < 0 then { p with turn := p.turn + x } else p
      let n := b.num.natAbs
      if n = 1 then p else { p with radicals := p.radicals ++ [(n, x)] }
  | e =>
    let (b, x) := baseExponent e
    match b with
    | const c =>
      if c.isFinite && c.isPositive then { p with numeric := p.numeric ++ [(b, x)] }
      else { p with powers := p.powers ++ [(b, x)] }
    | _ => { p with powers := p.powers ++ [(b, x)] }

end Collected

/-- Is some part of a sum or product an infinity? -/
def hasInfinity (e : Formula ν) : Bool :=
  (summands e ++ factors e).any fun x => x.number?.any Coeff.isInfinite

/-- A power in a product: the formula it comes to, and its base and exponent after that. -/
def settlePower (alg : Algebra ν) (p : Power ν) : Formula ν × Power ν :=
  let (b, e) := p
  if e.isZero then (if hasInfinity b && (isSum b || isProduct b) then const .undefined else one, (b, e))
  else if e.isOne then (b, (b, e))
  else
    let w := alg.pow b e
    if w.isPower && !b.isPower then (w, baseExponent w) else (w, (b, e))

/-- Works out gathered powers. Where that changes bases so that some agree, they are gathered once more. -/
def settlePowers (alg : Algebra ν) (ps : List (Power ν)) : List (Formula ν) :=
  let settled := ps.map (settlePower alg)
  let next := (settled.filter fun s => !s.1.isOne).map (·.2)
  let changed := (ps.zip settled).any fun (p, s) => p.1 ≠ s.2.1
  if changed && (next.map (·.1)).eraseDups.length ≠ next.length then
    (gather alg next).map fun p => (settlePower alg p).1
  else settled.map (·.1)

/-- Numbers with the same exponent are multiplied. -/
def settleNumeric (alg : Algebra ν) (ps : List (Power ν)) : List (Formula ν) :=
  let groups := ps.foldl (fun groups p => Radicals.insertWith (fun x y => alg.mul [x, y]) p.2 p.1 groups) []
  (groups.filter (!·.1.isZero)).map fun g => alg.pow g.2 g.1

/-- The roots of minus one: a sign and what is left, which may join a root with the same exponent. -/
def settleTurn (turn : Rat) (roots : List (Rat × Nat)) : Bool × List (Formula ν) :=
  let rest := turn - turn.floor
  let flipped := turn.floor % 2 ≠ 0
  let positive := roots.map fun r => pow (ofRat r.2) (ofRat r.1)
  if rest = 0 then (flipped, positive)
  else if rest = mkRat 1 2 then (flipped, imaginaryUnit :: positive)
  else if roots.any (·.1 = rest) then
    (flipped, roots.map fun r => pow (ofRat (if r.1 = rest then -r.2 else r.2)) (ofRat r.1))
  else (flipped, pow (ofRat (-1)) (ofRat rest) :: positive)

/-! ### The product -/

/-- Drops factors that do not change an infinite coefficient. -/
def absorb (c : Coeff) (fs : List (Formula ν)) : Coeff × List (Formula ν) :=
  match c with
  | .infinite _ =>
    fs.foldr (fun f (c, kept) =>
      let t := f.traits
      if t.isPositive then (c, kept) else if t.isNegative then (c.neg, kept) else (c, f :: kept)) (c, [])
  | .unsigned => (c, fs.filter fun f => let t := f.traits; !(t.isNonzero && t.real.isSome))
  | _ => (c, fs)

/-- A coefficient before factors; before a lone sum it is multiplied out. -/
def withCoefficient (c : Coeff) (fs : List (Formula ν)) : Formula ν :=
  let (c, fs) := absorb c fs
  if c = .undefined then const c
  else if c.isZero then (if fs.any fun f => f.traits.finite = some false then const .undefined else zero)
  else
    let fs := fs.mergeSort fun x y => compareTo x y ≠ .gt
    match fs with
    | [] => const c
    | [f] =>
      if c.isOne then f
      else if c.isFinite && isSum f then
        normalSum ((summands f).map fun e => let (d, m) := splitTerm e; ofTerm (c.mul d, m))
      else mul (const c) f
    | fs => if c.isOne then productOf fs else mul (const c) (productOf fs)

/-- How often the factors of a product are taken apart again because one of them has become a product. -/
def passes : Nat := 4

def productWithin (alg : Algebra ν) : Nat → List (Formula ν) → Formula ν
  | 0, es => productOf es
  | fuel + 1, es =>
    let p := (es.flatMap factors).foldl Collected.insert .empty
    let settled := settlePowers alg (gather alg p.powers) ++ settleNumeric alg (gather alg p.numeric)
    let (whole, roots) := Radicals.normal p.radicals
    let (flipped, turned) := settleTurn p.turn roots
    let c := p.coeff.mul (.ofInt (if flipped then -whole else whole))
    if settled.any isProduct || settled.any (fun e => (Collected.empty.insert e).turn ≠ 0) ||
      settled.any (fun e => !(Collected.empty.insert e).radicals.isEmpty) then
      productWithin alg fuel (const c :: (settled ++ turned))
    else
      let (numbers, rest) := (settled ++ turned).partition fun e => e.number?.isSome
      withCoefficient ((numbers.filterMap number?).foldl Coeff.mul c) rest

/-- The normal product of normal formulas. -/
def normalProduct (alg : Algebra ν) (es : List (Formula ν)) : Formula ν :=
  match es with
  | [const x, const y] => const (x.mul y)
  | es => if es.any (· = const .undefined) then const .undefined else productWithin alg passes es

end Galerkin.Formula
