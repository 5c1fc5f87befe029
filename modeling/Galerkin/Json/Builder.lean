import Galerkin.Expansion
import Galerkin.Json.Array
import Galerkin.Json.Writing
import Galerkin.Reading.Block

/-!
Expressions, namespaces and settings given in JSON. An expression is either text or a nested list: the
name of a way to build it, followed by what it is built from.
-/

namespace Galerkin

namespace Json

mutual

/-- How deep lists are nested. -/
def depth : Json → Nat
  | arr xs => depthOf xs + 1
  | _ => 0

def depthOf : List Json → Nat
  | [] => 0
  | x :: xs => Nat.max (depth x) (depthOf xs)

end

def indexSpec : Json → IndexSpec
  | str s => .named s
  | num n => .position n
  | bool b => .position (.bool b)
  | j => .other j.kind j.literal

def indexSpecs (j : Json) : List IndexSpec := j.items.map indexSpec

/-- A text, or what is no text and has no parts of one. -/
def textOnly : Json → Except Failure String
  | str s => pure s
  | _ => throw .noSuchPart

/-- A number given as such or by its text, which must not be too long. -/
def readNumber (j : Json) : Except Failure Number :=
  match j with
  | str s =>
    let cs := s.toList
    let unsigned := if cs.head? == some '-' then cs.drop 1 else cs
    if (Number.Literal.ofChars unsigned).isTooLong then throw .tooLong else pure j.toNumber
  | j => pure j.toNumber

end Json

/-- A field with a name, a rank and whether it is external; a rank that is left out is zero. -/
def Field.ofJson (name : Json) (rank : Option Json) (external : Json) : Except Failure Field := do
  let name ← name.textOnly
  if !Text.isIdentifier name then throw (.invalid (.fieldName name))
  make name (← (rank.getD (.int 0)).comparable) external.toBool

/-- Several fields of one rank. -/
def Field.listOfJson (spec : Json) (rank : Option Json) (external : Json) :
    Except Failure (List Field) := do
  let spec ← spec.textOnly
  (Index.splitNames spec).mapM fun name => Field.ofJson (.str name) rank external

/-- What is bound to a name. -/
def Namespace.find (ns : Namespace) (name : String) : Except Failure Operand :=
  match ns.find? name with
  | some x => pure x
  | none => throw .absent

def Namespace.field (ns : Namespace) (name : String) : Except Failure Field := do
  match ← ns.find name with
  | .expr (.bare f) => pure f
  | _ => throw .noSuchPart

namespace Operand

def BinaryOp.ofSymbol? : String → Option BinaryOp
  | "+" => some add
  | "-" => some sub
  | "*" => some mul
  | "/" => some div
  | "^" => some pow
  | _ => none

/-- Builds from the parts of a list, to the given depth. Parts are built from left to right. -/
def build (ns : Namespace) : Nat → Json → Drawing Operand
  | 0, _ => throw .unsupported
  | depth + 1, j => do
    let part := fun (k : Nat) => build ns depth (j.nth k)
    let name := (j.nth 1).text
    match (j.nth 0).text with
    | "name" => Drawing.lift (ns.find name)
    | "raw" => pure (.number (← Drawing.lift (j.nth 1).readNumber))
    | "str" => pure (.text name)
    | "bool" => pure (.number (.bool (j.nth 1).toBool))
    | "const" => constant (← part 1)
    | "param" => pure (.expr (.param name))
    | "item" => item (← part 1) (j.nth 2).indexSpecs
    | "call" => call (← part 1) (j.nth 2).indexSpecs
    | "d" => derivative (← part 1) (j.nth 2).indexSpecs
    | "dt" => rate (← part 1)
    | "delta" => delta (j.nth 1).indexSpec (j.nth 2).indexSpec
    | "normal" | "normalcall" => normal (j.nth 1).indexSpec
    | "neg" => neg (← part 1)
    | "pos" => pos (← part 1)
    | "apply" | "fn" => do
      let x ← part 2
      apply name x
    | "B" => do
      let a ← part 1
      let b ← part 2
      pairing a b
    | "sub" => do
      let x ← part 1
      substitute x ((j.nth 2).items.map fun p => ((p.nth 0).indexSpec, (p.nth 1).indexSpec))
    | "parse" => do pure (.expr (← Reading.parse ns name))
    | symbol => do
      let some op := BinaryOp.ofSymbol? symbol | throw .unsupported
      let a ← part 1
      let b ← part 2
      binary op a b

def ofJson (ns : Namespace) (j : Json) : Drawing Operand := build ns j.depth j

end Operand

/-- The definition with a name and some indices whose body is text. -/
def Definition.ofJson (ns : Namespace) (name indices body : Json) : Drawing Definition := do
  let body ← Reading.parse ns body.text
  let indices ← Drawing.lift (indices.items.mapM fun i => i.indexSpec.resolve)
  Drawing.lift (Definition.make name.text indices body)

namespace Namespace

/-- What one entry of a namespace binds its name to. -/
def binding (ns : Namespace) (j : Json) : Drawing Operand := do
  if let some name := j.get? "field" then
    return .expr (.bare (← Drawing.lift (Field.ofJson name (j.get? "rank") (j.get "ext"))))
  if let some n := j.get? "num" then return .number (← Drawing.lift n.readNumber)
  if let some p := j.get? "param" then return .expr (.param p.text)
  if let some e := j.get? "expr" then return .expr (← Reading.parse ns e.text)
  if let some d := j.get? "def" then
    return .definition (← Definition.ofJson ns (d.nth 0) (d.nth 1) (d.nth 2))
  return .text (j.get "str").text

/-- The bindings in order, and then those of a block of definitions. -/
def ofJson (bindings block : Json) : Drawing Namespace := do
  let ns ← bindings.items.foldlM (fun ns entry => do
    pure (Namespace.bind ns (entry.nth 0).text (← binding ns (entry.nth 1)))) []
  match block with
  | .null => pure ns
  | block => Reading.parseBlock ns block.text

end Namespace

/-- Which names of a list of bindings share an expression. -/
def Reading.Sharing.ofJson (bindings : Json) : Reading.Sharing :=
  bindings.items.foldl (fun s entry =>
    let name := (entry.nth 0).text
    match (entry.nth 1).get? "expr", (entry.nth 1).get? "param" with
    | some e, _ => s.bindText name e.text
    | none, some _ => s.bindNew name
    | none, none => s.bindOther name) .empty

/-- The layout of the fields bound to some names. -/
def Layout.ofJson (ns : Namespace) (dim : Nat) (names : Json) : Except Failure Layout := do
  ofFields (← names.items.mapM fun n => ns.field n.text) dim

/-- A dimension with internal and external fields. -/
def Setting.ofJson (ns : Namespace) (j : Json) : Except Failure Setting := do
  let dim := (j.get "dim").toNat
  let internal ← Layout.ofJson ns dim (j.get "internal")
  let external ← Layout.ofJson ns dim (j.get "external")
  pure ⟨dim, internal, external⟩

/-- An expression by its tree or by its text. -/
def Expr.ofJson (ns : Namespace) (j : Json) : Drawing Expr := do
  match j.get? "tree" with
  | some tree => (← Operand.ofJson ns tree).toExpr
  | none => Reading.parse ns (j.get "text").text

end Galerkin
