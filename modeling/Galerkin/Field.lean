import Galerkin.Index

/-!
Fields: named tensors of rank zero, one or two. External fields are prescribed and carry no unknowns.
-/

namespace Galerkin

structure Field where
  name : String
  rank : Nat
  external : Bool
  deriving DecidableEq, Repr, Inhabited

namespace Field

/-- A field with a rank between zero and two, which is cut to a whole number. -/
def make (name : String) (rank : Number) (external : Bool) : Except Failure Field :=
  let size := rank.toFloat
  if !Text.isIdentifier name then throw (.invalid (.fieldName name))
  else if size < 0.0 || 2.0 < size then throw (.invalid (.rank rank name))
  else pure ⟨name, (rank.truncate?.getD 0).toNat, external⟩

def ofSpec (spec : String) (rank : Number) (external : Bool) : Except Failure (List Field) :=
  (Index.splitNames spec).mapM fun name => make name rank external

def components (f : Field) (dim : Nat) : Nat := Nat.pow dim f.rank

def text (f : Field) : String :=
  "FieldVariable(" ++ (if f.external then "external " else "") ++ f.name ++ s!", rank={f.rank})"

end Field

end Galerkin
