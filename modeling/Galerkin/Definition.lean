import Galerkin.Expr.Usage

/-!
Tensor definitions, such as a strain in terms of a displacement. An access puts actual indices in
place of the declared ones and gives every other index of the body a fresh dummy.
-/

namespace Galerkin

structure Definition where
  name : String
  indices : List Index
  body : Expr
  deriving Repr, Inhabited

namespace Definition

def sortedNames (is : List Index) : List String := Index.sortNames (Index.names (Usage.unique is))

/-- A definition whose declared indices are distinct and are the free indices of its body. -/
def make (name : String) (indices : List Index) (body : Expr) : Except Failure Definition := do
  if (Usage.unique indices).length != indices.length then
    throw (.malformed ⟨.repeatedDeclared, some name, none⟩)
  let free ← body.freeIndices.mapError (Failure.inForm name)
  let apart := Usage.difference indices free
  if apart.isEmpty then pure ⟨name, indices, body⟩
  else throw (.malformed ⟨.sidesDiffer (sortedNames indices) (sortedNames free), some name,
    Index.firstName apart⟩)

def rank (d : Definition) : Nat := d.indices.length

abbrev Renaming := List (Index × Index)

def Renaming.apply (r : Renaming) (i : Index) : Index := (r.lookup i).getD i

/-- Extends a renaming by a fresh dummy for every index it does not cover. -/
def freshen : List Index → Renaming → Drawing Renaming
  | [], r => pure r
  | i :: rest, r =>
    if (r.lookup i).isSome then freshen rest r
    else do
      let dummy ← Index.fresh i.name
      freshen rest (r ++ [(i, dummy)])

def access (d : Definition) (actual : List Index) : Drawing Expr := do
  if actual.length != d.rank then
    throw (.malformed ⟨.indexCount d.rank actual.length, some d.name, none⟩)
  let names ← freshen d.body.indices (d.indices.zip actual)
  pure (d.body.rename names.apply)

def text (d : Definition) : String :=
  d.name ++ "\x7b" ++ Text.joined "," (Index.names d.indices) ++ "\x7d = " ++ d.body.text

end Definition

end Galerkin
