import Galerkin.Field

/-!
Expressions in index notation. Leaves are field accesses, Kronecker deltas, numbers, parameters and
components of the facet normal; nothing here knows the dimension of space.
-/

namespace Galerkin

inductive Function where
  | sqrt | exp | log | sin | cos | tanh | abs
  deriving DecidableEq, Repr

namespace Function

def name : Function → String
  | sqrt => "sqrt" | exp => "exp" | log => "log" | sin => "sin"
  | cos => "cos" | tanh => "tanh" | abs => "abs"

def all : List Function := [sqrt, exp, log, sin, cos, tanh, abs]

def ofName? (s : String) : Option Function := all.find? fun f => f.name == s

end Function

inductive Expr where
  | const (value : Number)
  | param (name : String)
  /-- Components, spatial derivatives and the order of the time derivative of a field. -/
  | field (f : Field) (comps derivs : List Index) (timeOrder : Nat)
  /-- A field itself, which stands for its value where the rank is zero. -/
  | bare (f : Field)
  | normal (i : Index)
  | delta (i j : Index)
  | sum (a b : Expr)
  | prod (a b : Expr)
  | quot (a b : Expr)
  | power (a b : Expr)
  | apply (f : Function) (x : Expr)
  /-- The pairing of a test quantity with a trial quantity. -/
  | pairing (a b : Expr)
  deriving Repr, Inhabited

namespace Expr

def neg (a : Expr) : Expr := prod (const (.int (-1))) a

def sub (a b : Expr) : Expr := sum a (neg b)

/-- The indices that a leaf carries itself. -/
def leafIndices : Expr → List Index
  | field _ comps derivs _ => comps ++ derivs
  | normal i => [i]
  | delta i j => [i, j]
  | _ => []

/-- All indices, node before children, left before right. -/
def indices : Expr → List Index
  | sum a b | prod a b | quot a b | power a b | pairing a b => indices a ++ indices b
  | apply _ x => indices x
  | e => leafIndices e

def size : Expr → Nat
  | sum a b | prod a b | quot a b | power a b | pairing a b => size a + size b + 1
  | apply _ x => size x + 1
  | _ => 1

/-- Renames indices; all at once, so that names may trade places. -/
def rename (f : Index → Index) : Expr → Expr
  | field g comps derivs t => field g (comps.map f) (derivs.map f) t
  | normal i => normal (f i)
  | delta i j => delta (f i) (f j)
  | sum a b => sum (rename f a) (rename f b)
  | prod a b => prod (rename f a) (rename f b)
  | quot a b => quot (rename f a) (rename f b)
  | power a b => power (rename f a) (rename f b)
  | apply g x => apply g (rename f x)
  | pairing a b => pairing (rename f a) (rename f b)
  | e => e

def hasPairing : Expr → Bool
  | pairing _ _ => true
  | sum a b | prod a b | quot a b | power a b => hasPairing a || hasPairing b
  | apply _ x => hasPairing x
  | _ => false

def hasNormal : Expr → Bool
  | normal _ => true
  | sum a b | prod a b | quot a b | power a b | pairing a b => hasNormal a || hasNormal b
  | apply _ x => hasNormal x
  | _ => false

/-- The fields in order of first appearance. -/
def fields : Expr → List Field
  | field f _ _ _ | bare f => [f]
  | sum a b | prod a b | quot a b | power a b | pairing a b => fields a ++ fields b
  | apply _ x => fields x
  | _ => []

def numbers : Expr → List Number
  | const n => [n]
  | sum a b | prod a b | quot a b | power a b | pairing a b => numbers a ++ numbers b
  | apply _ x => numbers x
  | _ => []

/-- The factors of nested products, left to right. -/
def factors : Expr → List Expr
  | prod a b => factors a ++ factors b
  | e => [e]

def accessText (f : Field) (comps derivs : List Index) (timeOrder : Nat) : String :=
  let comp := Text.joined "," (Index.names comps)
  let der := Text.joined "," (Index.names derivs ++ List.replicate timeOrder Index.timeName)
  if comp == "" && der == "" then f.name
  else f.name ++ "\x7b" ++ comp ++ (if der == "" then "" else ";" ++ der) ++ "\x7d"

def text : Expr → String
  | const value => value.text
  | param name => s!"Parameter({name})"
  | field f comps derivs t => accessText f comps derivs t
  | bare f => f.text
  | normal i => "n\x7b" ++ i.name ++ "\x7d"
  | delta i j => "δ\x7b" ++ i.name ++ "," ++ j.name ++ "\x7d"
  | sum a b => "(" ++ text a ++ " + " ++ text b ++ ")"
  | prod a b => text a ++ " * " ++ text b
  | quot a b => "(" ++ text a ++ " / " ++ text b ++ ")"
  | power a b => "(" ++ text a ++ " ** " ++ text b ++ ")"
  | apply f x => f.name ++ "(" ++ text x ++ ")"
  | pairing a b => "Bilinear(" ++ text a ++ ", " ++ text b ++ ")"

/-- What a message calls the outermost node. -/
def kind : Expr → String
  | const _ => "Constant"
  | param _ => "ParameterRef"
  | field _ _ _ _ => "FieldAccess"
  | bare _ => "FieldVariable"
  | normal _ => "NormalAccess"
  | delta _ _ => "Delta"
  | sum _ _ => "Sum"
  | prod _ _ => "Prod"
  | quot _ _ => "Quotient"
  | power _ _ => "Power"
  | apply _ _ => "Apply"
  | pairing _ _ => "Bilinear"

@[simp] theorem indices_rename (f : Index → Index) (e : Expr) :
    (e.rename f).indices = e.indices.map f := by
  induction e <;> simp_all [rename, indices, leafIndices]

@[simp] theorem hasPairing_rename (f : Index → Index) (e : Expr) :
    (e.rename f).hasPairing = e.hasPairing := by
  induction e <;> simp_all [rename, hasPairing]

@[simp] theorem factors_rename (f : Index → Index) (e : Expr) :
    (e.rename f).factors = e.factors.map (rename f) := by
  induction e <;> simp_all [rename, factors]

end Expr

end Galerkin
