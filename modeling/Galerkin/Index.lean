import Galerkin.Failure

/-!
Tensor indices. An index is its name; names that start with an underscore are dummies, and each
renamed dummy takes the next number of a supply.
-/

namespace Galerkin

structure Index where
  name : String
  deriving DecidableEq, Repr, Inhabited

namespace Index

/-- `t` after a semicolon stands for time, so no index is called so. -/
def timeName : String := "t"

def ofName (name : String) : Except Failure Index :=
  if !Text.isIdentifier name then throw (.invalid (.indexName (Text.quote name)))
  else if name == timeName then throw (.formAt .reservedTime name)
  else pure ⟨name⟩

def isDummy (i : Index) : Bool := i.name.toList.head? == some '_'

/-- The names in a list separated by blanks or commas. -/
def splitNames (spec : String) : List String :=
  let step := fun (acc : List (List Char) × List Char) (c : Char) =>
    if Text.isSpace c || c == ',' then
      (if acc.2.isEmpty then acc else (acc.2.reverse :: acc.1, []))
    else (acc.1, c :: acc.2)
  let (done, last) := spec.toList.foldl step ([], [])
  ((if last.isEmpty then done else last.reverse :: done).reverse).map String.ofList

def ofSpec (spec : String) : Except Failure (List Index) := (splitNames spec).mapM ofName

def names (is : List Index) : List String := is.map (·.name)

def sortNames (ns : List String) : List String := ns.mergeSort fun a b => !(b < a)

/-- The first of some indices in the order of their names. -/
def firstName (is : List Index) : Option String := (sortNames (names is)).head?

/-- The name of a dummy numbered `n` that stands for `base`. -/
def freshName (n : Nat) (base : String) : String :=
  "_" ++ String.ofList (base.toList.dropWhile (· == '_')) ++ toString n

end Index

/-- Work that may fail and that draws fresh numbers; the numbers drawn stay drawn after a failure. -/
abbrev Drawing := ExceptT Failure (StateM Nat)

namespace Drawing

def lift {α : Type} (result : Except Failure α) : Drawing α := ExceptT.mk (pure result)

def fresh : Drawing Nat := ExceptT.mk fun n => (.ok n, n + 1)

/-- Names the form in every malformed-form failure of some work. -/
def inForm {α : Type} (form : String) (work : Drawing α) : Drawing α :=
  ExceptT.mk do
    match ← work.run with
    | .ok a => pure (.ok a)
    | .error e => pure (.error (e.inForm form))

end Drawing

/-- A dummy that stands for `base` and whose number no earlier dummy has. -/
def Index.fresh (base : String) : Drawing Index := do
  let n ← Drawing.fresh
  Drawing.lift (Index.ofName (Index.freshName n base))

end Galerkin
