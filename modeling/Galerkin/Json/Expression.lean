import Galerkin.Json.Value
import Galerkin.Operand
import Galerkin.SymbolTable

/-!
Expressions, definitions and slots as JSON values: an expression is a nested list that starts with
what kind of node it is.
-/

namespace Galerkin

def Expr.toJson : Expr → Json
  | .const value => .strs ["const", value.text]
  | .param name => .strs ["param", name]
  | .field f comps derivs t =>
    .arr [.str "field", .str f.name, .strs (Index.names comps), .strs (Index.names derivs), .nat t]
  | .bare f => .arr [.str "fieldvar", .str f.name, .nat f.rank, .bool f.external]
  | .normal i => .strs ["normal", i.name]
  | .delta i j => .strs ["delta", i.name, j.name]
  | .sum a b => .arr [.str "+", toJson a, toJson b]
  | .prod a b => .arr [.str "*", toJson a, toJson b]
  | .quot a b => .arr [.str "/", toJson a, toJson b]
  | .power a b => .arr [.str "^", toJson a, toJson b]
  | .apply f x => .arr [.str "fn", .str f.name, toJson x]
  | .pairing a b => .arr [.str "B", toJson a, toJson b]

/-- An expression whose numbers can all be written. -/
def Expr.writable (e : Expr) : Except Failure Expr :=
  if e.numbers.any (·.isTooLong) then throw .tooLong else pure e

/-- The tree of an expression and its text. -/
def Expr.entries (e : Expr) : List (String × Json) := [("tree", e.toJson), ("repr", .str e.text)]

def Definition.toJson (d : Definition) : Json :=
  .obj [("indices", .strs (Index.names d.indices)), ("rank", .nat d.rank), ("body", d.body.toJson),
    ("repr", .str d.text)]

def Operand.toJson : Operand → Json
  | .definition d => d.toJson
  | .expr e => .obj e.entries
  | _ => .null

def Slot.toJson (s : Slot) : Json :=
  .arr [.str s.name, .nat s.source.code, .nat s.column, .int ((s.axis.map Int.ofNat).getD (-1)),
    .bool s.isUnknown, .bool s.isRate]

end Galerkin
