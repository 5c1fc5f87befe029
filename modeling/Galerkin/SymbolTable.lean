import Galerkin.Quantity

/-!
Symbol tables give every requested quantity one name of its own, and once frozen arrange the
quantities in the order of kernel slots. Different quantities never share a name, whatever fields
and parameters are called.
-/

namespace Galerkin

/-- Where a kernel finds the value of a slot. -/
inductive Source where
  | value | rate | external | param | normal
  deriving DecidableEq, Repr

def Source.code : Source → Nat
  | value => 0 | rate => 1 | external => 2 | param => 3 | normal => 4

/-- One scalar per quadrature point: its name, its source, its column there, and the axis of its derivative. -/
structure Slot where
  name : String
  source : Source
  column : Nat
  axis : Option Nat
  deriving DecidableEq, Repr

namespace Slot

def isRate (s : Slot) : Bool := s.source = .rate

def isUnknown (s : Slot) : Bool := s.source = .value || s.source = .rate

end Slot

/-- The quantities requested so far, each with its name, in order of request. -/
structure SymbolTable where
  dim : Nat
  internal : Layout
  external : Layout
  entries : List (Quantity × String)
  frozen : Bool
  deriving Repr

namespace SymbolTable

def empty (dim : Nat) (internal external : Layout) : SymbolTable := ⟨dim, internal, external, [], false⟩

def names (t : SymbolTable) : List String := t.entries.map (·.2)

/-- `name` with as many primes as it takes to differ from every name in use; `fuel` primes at most. -/
def primed (used : List String) : Nat → String → String
  | 0, name => name
  | fuel + 1, name => if used.contains name then primed used fuel (name ++ "'") else name

/-- What a form asks a table for. -/
inductive Request where
  /-- A component of a field, or its spatial derivative, differentiated in time `timeOrder` times. -/
  | field (f : Field) (comps : List Nat) (axis : Option Nat) (timeOrder : Nat)
  | param (name : String)
  | normal (comp : Nat)
  deriving DecidableEq, Repr

/-- The quantity that a request stands for where fields have these layouts. -/
def Request.quantity (internal external : Layout) : Request → Except Failure Quantity
  | field f comps axis timeOrder => Quantity.ofField internal external f comps axis timeOrder
  | param name => pure (.param name)
  | normal comp => pure (.normal comp)

/-- The name of a quantity; a new quantity gets one that is not in use, unless the table is frozen. -/
def request (t : SymbolTable) (q : Quantity) : Except Failure (String × SymbolTable) :=
  match t.entries.lookup q with
  | some name => pure (name, t)
  | none =>
    if t.frozen then throw (.misuse .frozenTable)
    else
      let name := primed t.names t.entries.length q.name
      pure (name, { t with entries := t.entries ++ [(q, name)] })

def answer (t : SymbolTable) (r : Request) : Except Failure (String × SymbolTable) := do
  t.request (← r.quantity t.internal t.external)

/-- The answers to several requests in turn; a request that fails leaves the table as it is. -/
def serve (t : SymbolTable) : List Request → List (Except Failure String) × SymbolTable
  | [] => ([], t)
  | r :: rest =>
    match t.answer r with
    | .ok (name, next) =>
      let (answers, last) := next.serve rest
      (.ok name :: answers, last)
    | .error e =>
      let (answers, last) := t.serve rest
      (.error e :: answers, last)

def requestAll (t : SymbolTable) : List Quantity → Except Failure SymbolTable
  | [] => pure t
  | q :: rest => do
    let (_, t) ← t.request q
    requestAll t rest

def freeze (t : SymbolTable) : SymbolTable := { t with frozen := true }

def sorted (t : SymbolTable) : List (Quantity × String) :=
  t.entries.mergeSort fun a b => compare a.1 b.1 != .gt

def paramNames (t : SymbolTable) : List String :=
  (t.entries.filterMap (·.1.paramName?)).mergeSort fun a b => !(b < a)

def usesNormal (t : SymbolTable) : Bool := t.entries.any (·.1.isNormal)

def size (t : SymbolTable) : Nat := t.entries.length

/-- The slot of a quantity. -/
def slot (t : SymbolTable) (q : Quantity) (name : String) : Except Failure Slot :=
  match q with
  | .unknown field comps timeOrder axis => do
    let source := if timeOrder = 0 then Source.value else Source.rate
    pure ⟨name, source, ← t.internal.flat field comps, axis⟩
  | .external field comps axis => do
    pure ⟨name, .external, ← t.external.flat field comps, axis⟩
  | .param p => pure ⟨name, .param, t.paramNames.idxOf p, none⟩
  | .normal c => pure ⟨name, .normal, c, none⟩

def slots (t : SymbolTable) : Except Failure (List Slot) :=
  if t.frozen then t.sorted.mapM fun e => t.slot e.1 e.2
  else throw (.misuse .notFrozen)

def symbols (t : SymbolTable) : Except Failure (List (Quantity × String)) :=
  if t.frozen then pure t.sorted else throw (.misuse .notFrozen)

/-- The unknowns in slot order, which are the first slots; none before the table is frozen. -/
def unknowns (t : SymbolTable) : List (Quantity × String) :=
  if t.frozen then t.sorted.filter (·.1.isUnknown) else []

def nameOf (t : SymbolTable) (q : Quantity) : String := (t.entries.lookup q).getD q.name

end SymbolTable

end Galerkin
