import Galerkin.Formula.Coeff
import Galerkin.Number

/-!
Scalar formulas over variables of any type: what index notation expands to, and what residuals and
tangents are made of. `eval` is their one meaning, over any scalars.
-/

namespace Galerkin

/-- Functions inside formulas. The last four cannot be written in a form: `sign`, `impulse` and `realPart`
arise as derivatives of the absolute value, `angle` in logarithms of negative numbers. -/
inductive Elementary where
  | exp | log | sin | cos | tanh | abs | sign | impulse | realPart | angle
  deriving DecidableEq, Repr

namespace Elementary

def rank : Elementary → Nat
  | exp => 0 | log => 1 | sin => 2 | cos => 3 | tanh => 4 | abs => 5 | sign => 6 | impulse => 7
  | realPart => 8 | angle => 9

def name : Elementary → String
  | exp => "exp" | log => "log" | sin => "sin" | cos => "cos" | tanh => "tanh"
  | abs => "Abs" | sign => "sign" | impulse => "DiracDelta" | realPart => "re" | angle => "arg"

/-- The impulse vanishes wherever it has a value. -/
def eval {α : Type} [Scalar α] : Elementary → α → α
  | exp, x => Scalar.exp x
  | log, x => Scalar.log x
  | sin, x => Scalar.sin x
  | cos, x => Scalar.cos x
  | tanh, x => Scalar.tanh x
  | abs, x => Scalar.modulus x
  | sign, x => Scalar.direction x
  | impulse, _ => 0
  | realPart, x => Scalar.realPart x
  | angle, x => Scalar.angle x

end Elementary

inductive Formula (ν : Type) where
  | const (c : Coeff)
  | var (q : ν)
  | add (a b : Formula ν)
  | mul (a b : Formula ν)
  | pow (a b : Formula ν)
  | app (f : Elementary) (x : Formula ν)
  deriving DecidableEq, Repr, Inhabited

namespace Formula

variable {ν : Type}

def zero : Formula ν := const .zero

def one : Formula ν := const .one

def ofRat (r : Rat) : Formula ν := const (.ofRat r)

def half : Formula ν := ofRat (mkRat 1 2)

def inverse (a : Formula ν) : Formula ν := pow a (ofRat (-1))

/-- A number literal: integral doubles of moderate size count as integers. -/
def ofNumber (n : Number) : Formula ν :=
  match n with
  | .int n => ofRat n
  | .bool b => ofRat (if b then 1 else 0)
  | .real x =>
    match Precise.ofFloat? x with
    | some d =>
      let r := d.toRat
      if r.den = 1 && r.num.natAbs < Nat.pow 2 53 then ofRat r else const (.ofDyadic d)
    | none => const (if x.isNaN then .undefined else .infinite (x < 0.0))

/-- The variables, left to right. -/
def atoms : Formula ν → List ν
  | const _ => []
  | var q => [q]
  | add a b | mul a b | pow a b => atoms a ++ atoms b
  | app _ x => atoms x

def map {μ : Type} (f : ν → μ) : Formula ν → Formula μ
  | const c => const c
  | var q => var (f q)
  | add a b => add (map f a) (map f b)
  | mul a b => mul (map f a) (map f b)
  | pow a b => pow (map f a) (map f b)
  | app g x => app g (map f x)

/-- Changes the numbers, also those in exponents. -/
def mapNumbers (f : Coeff → Coeff) : Formula ν → Formula ν
  | const c => const (f c)
  | var q => var q
  | add a b => add (mapNumbers f a) (mapNumbers f b)
  | mul a b => mul (mapNumbers f a) (mapNumbers f b)
  | pow a b => pow (mapNumbers f a) (mapNumbers f b)
  | app g x => app g (mapNumbers f x)

section Eval

variable {α : Type} [Scalar α]

def intPow (x : α) : Int → α
  | .ofNat n => Arithmetic.natPow x n
  | .negSucc n => 1 / Arithmetic.natPow x (n + 1)

/-- The value where the variables have the values `v`. Integer powers are repeated products. -/
def eval (v : ν → α) : Formula ν → α
  | const c => c.eval
  | var q => v q
  | add a b => eval v a + eval v b
  | mul a b => eval v a * eval v b
  | pow a (const c) =>
    match c.integer? with
    | some n => intPow (eval v a) n
    | none => Scalar.pow (eval v a) c.eval
  | pow a b => Scalar.pow (eval v a) (eval v b)
  | app f x => f.eval (eval v x)

end Eval

/-- An order by shape and content, which decides only how normal forms are arranged. -/
def order (compare : ν → ν → Ordering) : Formula ν → Formula ν → Ordering
  | const a, const b => a.compare b
  | const _, _ => .lt
  | _, const _ => .gt
  | var a, var b => compare a b
  | var _, _ => .lt
  | _, var _ => .gt
  | app f x, app g y => (Ord.compare f.rank g.rank).then (order compare x y)
  | app _ _, _ => .lt
  | _, app _ _ => .gt
  | pow a b, pow c d => (order compare a c).then (order compare b d)
  | pow _ _, _ => .lt
  | _, pow _ _ => .gt
  | mul a b, mul c d => (order compare a c).then (order compare b d)
  | mul _ _, _ => .lt
  | _, mul _ _ => .gt
  | add a b, add c d => (order compare a c).then (order compare b d)

theorem eval_map {μ α : Type} [Scalar α] (f : ν → μ) (v : μ → α) (e : Formula ν) :
    (e.map f).eval v = e.eval (fun q => v (f q)) := by
  induction e with
  | const c => rfl
  | var q => rfl
  | add a b iha ihb => simp [map, eval, iha, ihb]
  | mul a b iha ihb => simp [map, eval, iha, ihb]
  | pow a b iha ihb => cases b <;> simp_all [map, eval]
  | app g x ih => simp [map, eval, ih]

end Formula

end Galerkin
