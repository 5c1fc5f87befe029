import Galerkin.Expr.Usage
import Galerkin.Formula.Basic
import Galerkin.Quantity

/-!
Summation over repeated indices. For given values of its free indices an expression becomes a
formula over quantities; inside a product every index that occurs twice and has no value yet is
summed over the axes of space.
-/

namespace Galerkin

/-- What expressions are expanded against: the dimension of space and the fields at hand. -/
structure Setting where
  dim : Nat
  internal : Layout
  external : Layout
  deriving Repr

/-- Values of indices; the first entry of an index counts. -/
abbrev Assignment := List (Index × Nat)

namespace Assignment

def value (env : Assignment) (i : Index) : Except Failure Nat :=
  match env.lookup i with
  | some v => pure v
  | none => throw .absent

def covers (env : Assignment) (i : Index) : Bool := (env.lookup i).isSome

/-- All assignments of values below `dim` to some indices; the last index runs fastest. -/
def all (dim : Nat) : List Index → List Assignment
  | [] => [[]]
  | i :: rest => (List.range dim).flatMap fun v => (all dim rest).map ((i, v) :: ·)

end Assignment

namespace Expansion

open Formula (zero one)

abbrev Scalars := Formula Quantity

/-- The values of `term` summed over all values of some indices; without indices, `term` itself. -/
def summed (dim : Nat) (indices : List Index) (env : Assignment)
    (term : Assignment → Except Failure Scalars) : Except Failure Scalars :=
  match indices with
  | [] => term env
  | _ => (Assignment.all dim indices).foldlM (fun total values => do
      pure (.add total (← term (values ++ env)))) zero

/-- The indices that occur twice and have no value yet. -/
def contracted (env : Assignment) (occurrences : List Index) : List Index :=
  (Usage.twice occurrences).filter (!Assignment.covers env ·)

def access (s : Setting) (env : Assignment) (f : Field) (comps derivs : List Index) (t : Nat) :
    Except Failure Scalars :=
  summed s.dim (contracted env (comps ++ derivs)) env fun env => do
    let components ← comps.mapM (Assignment.value env)
    let axis ← match derivs with
      | [] => pure none
      | i :: _ => some <$> Assignment.value env i
    pure (.var (← Quantity.ofField s.internal s.external f components axis t))

def function (f : Function) (x : Scalars) : Scalars :=
  match f with
  | .sqrt => .pow x Formula.half
  | .exp => .app .exp x
  | .log => .app .log x
  | .sin => .app .sin x
  | .cos => .app .cos x
  | .tanh => .app .tanh x
  | .abs => .app .abs x

/-- Appends a factor to the product collected so far, if there is one. -/
def collect : Option Scalars → Scalars → Scalars
  | none, x => x
  | some product, x => .mul product x

/-- The formula of an expression under an assignment. With a `product` the expression is a factor: its own factors are multiplied onto the product one by one, and the sums over their common indices are left to the enclosing product. -/
def expandOnto (s : Setting) (product : Option Scalars) (env : Assignment) :
    Expr → Except Failure Scalars
  | .const value => pure (collect product (Formula.ofNumber value))
  | .param name => pure (collect product (.var (.param name)))
  | .field f comps derivs t => do pure (collect product (← access s env f comps derivs t))
  | .bare f => do pure (collect product (← access s env f [] [] 0))
  | .normal i => do pure (collect product (.var (.normal (← env.value i))))
  | .delta i j =>
    if i = j && !env.covers i then pure (collect product (Formula.ofRat s.dim))
    else do
      let a ← env.value i
      let b ← env.value j
      pure (collect product (if a = b then one else zero))
  | .sum a b => do
    let x ← expandOnto s none env a
    let y ← expandOnto s none env b
    pure (collect product (.add x y))
  | .prod a b =>
    match product with
    | some p => do
      let p ← expandOnto s (some p) env a
      expandOnto s (some p) env b
    | none => do
      let indices := contracted env (← (Expr.prod a b).occurrences)
      summed s.dim indices env fun env => do
        let p ← expandOnto s (some one) env a
        expandOnto s (some p) env b
  | .quot a b => do
    let x ← expandOnto s none env a
    let y ← expandOnto s none env b
    pure (collect product (.mul x (Formula.inverse y)))
  | .power a b => do
    let x ← expandOnto s none env a
    let y ← expandOnto s none env b
    pure (collect product (.pow x y))
  | .apply f x => do pure (collect product (function f (← expandOnto s none env x)))
  | .pairing _ _ => throw (.form .nestedPairing)

/-- The formula of an expression under an assignment of its free indices. -/
def expand (s : Setting) (env : Assignment) (e : Expr) : Except Failure Scalars :=
  expandOnto s none env e

/-- All components of an expression, keyed by the values of its free indices in their order of appearance. -/
def components (s : Setting) (e : Expr) : Except Failure (List (List Nat × Scalars)) := do
  let free ← e.freeIndices
  (Assignment.all s.dim free).mapM fun env => do
    pure (env.map (·.2), ← expand s env e)

end Expansion

end Galerkin
