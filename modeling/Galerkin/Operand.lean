import Galerkin.Definition
import Galerkin.Indexing
import Galerkin.Number.Arithmetic

/-!
What a name may be bound to and what may stand in an expression: expressions, definitions, numbers.
Arithmetic on operands builds expressions; a definition of rank zero acts as its body. Complex
numbers and texts can be computed with, but have no place in an expression.
-/

namespace Galerkin

/-- An index as a caller gives it: a name, a position in a text, or something else of a known kind, with how it is shown. -/
inductive IndexSpec where
  | named (name : String)
  | position (n : Number)
  | other (kind shown : String)
  deriving Repr

namespace IndexSpec

def resolve : IndexSpec → Except Failure Index
  | named name => Index.ofName name
  | position n => throw (.illTyped (.index n.kind))
  | other kind _ => throw (.illTyped (.index kind))

/-- The index of which this is the name, where only a name will do. -/
def asName : IndexSpec → Except Failure Index
  | named name => Index.ofName name
  | position n => throw (.invalid (.indexName n.text))
  | other _ shown => throw (.invalid (.indexName shown))

end IndexSpec

inductive Operand where
  | expr (e : Expr)
  | definition (d : Definition)
  | number (n : Number)
  | complex (z : Complex)
  | text (s : String)
  deriving Repr

namespace Operand

def kind : Operand → String
  | expr e => e.kind
  | definition _ => "TensorDefinition"
  | number n => n.kind
  | complex _ => "complex"
  | text _ => "str"

/-- The expression that an operand stands for. -/
def toExpr : Operand → Drawing Expr
  | expr e => pure e
  | number n => pure (.const n)
  | definition d => d.access []
  | x => throw (.illTyped (.operand x.kind))

inductive BinaryOp where
  | add | sub | mul | div | pow
  deriving DecidableEq, Repr

def BinaryOp.build : BinaryOp → Expr → Expr → Expr
  | add => .sum
  | sub => Expr.sub
  | mul => .prod
  | div => .quot
  | pow => .power

/-- The power of a number, which need not be real. -/
def numberPower (a b : Number) : Except Failure Operand := do
  let double : Except Failure Operand := do
    let x ← a.toDouble
    let y ← b.toDouble
    if Number.hasRealPower x y then pure (number (.real (← Number.powDouble x y)))
    else pure (complex (← Complex.pow (.ofReal x) (.ofReal y)))
  match a.whole?, b.whole? with
  | some x, some (.ofNat n) => pure (number (.int (Number.powWhole x n)))
  | _, _ => double

def BinaryOp.numbers (op : BinaryOp) (a b : Number) : Except Failure Operand :=
  match op with
  | add => number <$> Number.add a b
  | sub => number <$> Number.sub a b
  | mul => number <$> Number.mul a b
  | div => number <$> Number.div a b
  | pow => numberPower a b

def BinaryOp.complexes (op : BinaryOp) (a b : Complex) : Except Failure Complex :=
  match op with
  | add => pure (a.add b)
  | sub => pure (a.sub b)
  | mul => pure (a.mul b)
  | div => a.div b
  | pow => a.pow b

/-- The longest text that a repetition may make. -/
def textLimit : Nat := Nat.pow 10 7

/-- A text repeated as often as a whole number says. -/
def repeated (s : String) (n : Number) : Except Failure Operand :=
  match n.whole? with
  | some count =>
    if textLimit < count.toNat * s.length then throw .overflow
    else pure (text (String.join (List.replicate count.toNat s)))
  | none => throw .unsupported

/-- Does a definition accept this operation next to what is no expression? On its left it divides, on its right it does not, and it has no powers. -/
def BinaryOp.onDefinition (op : BinaryOp) (definitionLeft : Bool) : Bool :=
  match op with
  | .add | .sub | .mul => true
  | .div => definitionLeft
  | .pow => false

def binary (op : BinaryOp) (a b : Operand) : Drawing Operand := do
  let build : Drawing Operand := do
    let x ← a.toExpr
    let y ← b.toExpr
    pure (.expr (op.build x y))
  match a, b with
  | .expr _, _ => build
  | _, .expr _ => build
  | .number x, .number y => Drawing.lift (op.numbers x y)
  | .complex x, .complex y => do pure (.complex (← Drawing.lift (op.complexes x y)))
  | .complex x, .number y => Drawing.lift do pure (.complex (← op.complexes x (← Complex.ofNumber y)))
  | .number x, .complex y => Drawing.lift do pure (.complex (← op.complexes (← Complex.ofNumber x) y))
  | .text s, .text t => if op = .add then pure (.text (s ++ t)) else throw .unsupported
  | .text s, .number n => if op = .mul then Drawing.lift (repeated s n) else throw .unsupported
  | .number n, .text s => if op = .mul then Drawing.lift (repeated s n) else throw .unsupported
  | .definition _, _ => if op.onDefinition true then build else throw .unsupported
  | .number _, .definition _ => if op.onDefinition false then build else throw .unsupported
  | x, .definition d =>
    if op.onDefinition false then do
      let _ ← d.access []
      throw (.illTyped (.operand x.kind))
    else throw .unsupported
  | _, _ => throw .unsupported

def neg : Operand → Drawing Operand
  | expr e => pure (.expr e.neg)
  | definition d => do pure (.expr (← d.access []).neg)
  | number n => pure (.number n.negate)
  | complex z => pure (.complex z.neg)
  | text _ => throw .unsupported

def pos : Operand → Drawing Operand
  | expr e => pure (.expr e)
  | number n => pure (.number n.positive)
  | complex z => pure (.complex z)
  | _ => throw .unsupported

def resolveAll (specs : List IndexSpec) : Drawing (List Index) :=
  Drawing.lift (specs.mapM IndexSpec.resolve)

/-- The character of a text at a position. -/
def character (s : String) (n : Number) : Except Failure Operand :=
  match n.whole? with
  | some k => match entry? s.toList k with
    | some c => pure (text (String.singleton c))
    | none => throw .outOfRange
  | none => throw .unsupported

/-- Fields and definitions applied to indices. -/
def call (x : Operand) (specs : List IndexSpec) : Drawing Operand := do
  match x with
  | .expr (.bare f) => pure (.expr (.field f (← resolveAll specs) [] 0))
  | .definition d => pure (.expr (← d.access (← resolveAll specs)))
  | _ => throw .unsupported

/-- Indexing with brackets, which also picks characters of a text. -/
def item (x : Operand) (specs : List IndexSpec) : Drawing Operand :=
  match x, specs with
  | .text s, [.position n] => Drawing.lift (character s n)
  | x, specs => x.call specs

/-- A spatial derivative of a field access. -/
def derivative (x : Operand) (specs : List IndexSpec) : Drawing Operand := do
  match x with
  | .expr (.bare f) => pure (.expr (.field f [] (← resolveAll specs) 0))
  | .expr (.field f comps derivs t) =>
    pure (.expr (.field f comps (derivs ++ (← resolveAll specs)) t))
  | _ => throw .noSuchPart

def rate (x : Operand) : Drawing Operand :=
  match x with
  | .expr (.bare f) => pure (.expr (.field f [] [] 1))
  | .expr (.field f comps derivs t) => pure (.expr (.field f comps derivs (t + 1)))
  | _ => throw .noSuchPart

def delta (i j : IndexSpec) : Drawing Operand := do
  let i ← Drawing.lift i.resolve
  let j ← Drawing.lift j.resolve
  pure (.expr (.delta i j))

def normal (i : IndexSpec) : Drawing Operand := do
  pure (.expr (.normal (← Drawing.lift i.resolve)))

def apply (name : String) (x : Operand) : Drawing Operand :=
  match Function.ofName? name with
  | none => throw (.form (.unsupportedFunction name))
  | some f => do pure (.expr (.apply f (← x.toExpr)))

def pairing (a b : Operand) : Drawing Operand := do
  let x ← a.toExpr
  let y ← b.toExpr
  pure (.expr (.pairing x y))

def constant : Operand → Drawing Operand
  | number n => pure (.expr (.const n))
  | x => throw (.illTyped (.constant x.kind))

/-- Renames indices by pairs; of two pairs for one index the later counts. -/
def substitute (x : Operand) (pairs : List (IndexSpec × IndexSpec)) : Drawing Operand := do
  match x with
  | .expr e => do
    let resolved ← pairs.mapM fun (i, j) => do
      let i ← Drawing.lift i.asName
      let j ← Drawing.lift j.asName
      pure (i, j)
    pure (.expr (e.rename (Definition.Renaming.apply resolved.reverse)))
  | _ => throw .noSuchPart

end Operand

/-- Names and what they are bound to, in order of first binding. -/
abbrev Namespace := List (String × Operand)

namespace Namespace

def find? (ns : Namespace) (name : String) : Option Operand := ns.lookup name

/-- Binds a name; a bound name keeps its place. -/
def bind (ns : Namespace) (name : String) (value : Operand) : Namespace :=
  if (ns.lookup name).isSome then
    ns.map fun (n, v) => if n == name then (n, value) else (n, v)
  else ns ++ [(name, value)]

end Namespace

end Galerkin
