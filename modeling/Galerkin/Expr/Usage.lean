import Galerkin.Expr.Basic

/-!
Which indices of an expression are free and which are summed. Inside one product an index used once
is free, an index used twice is summed, and more uses are malformed; sums and pairings agree on
their free indices.
-/

namespace Galerkin

/-- Free indices in order of appearance, and the indices summed somewhere inside. -/
structure Usage where
  free : List Index
  summed : List Index
  deriving DecidableEq, Repr

namespace Usage

def unique (is : List Index) : List Index :=
  is.foldl (fun seen i => if seen.contains i then seen else seen ++ [i]) []

def once (is : List Index) : List Index := (unique is).filter fun i => is.count i == 1

def twice (is : List Index) : List Index := (unique is).filter fun i => is.count i == 2

def common (a b : List Index) : List Index := a.filter b.contains

/-- The indices in exactly one of two lists. -/
def difference (a b : List Index) : List Index :=
  a.filter (!b.contains ·) ++ b.filter (!a.contains ·)

def failAt {α : Type} (reason : FormReason) (index : Option String) : Except Failure α :=
  throw (.malformed ⟨reason, none, index⟩)

def noneOverused (is : List Index) : Except Failure Unit :=
  match (unique is).find? fun i => 2 < is.count i with
  | some i => failAt .overused (some i.name)
  | none => pure ()

def noneIn (reason : FormReason) (clash : List Index) : Except Failure Unit :=
  if clash.isEmpty then pure () else failAt reason (Index.firstName clash)

/-- Closes a product: what its factors leave free is counted. -/
def ofFactors (u : Usage) : Except Failure Usage := do
  noneOverused u.free
  noneIn .overused (common u.summed u.free)
  pure ⟨once u.free, u.summed ++ twice u.free⟩

/-- No index is both free and summed. -/
def checked (u : Usage) : Except Failure Usage := do
  noneIn .freeAndSummed (common u.summed u.free)
  pure u

def ofAccess (f : Field) (comps derivs : List Index) (timeOrder : Nat) : Except Failure Usage := do
  let access := Expr.accessText f comps derivs timeOrder
  if comps.length != f.rank then failAt (.wrongRank f.name f.rank comps.length) none
  match derivs with
  | _ :: second :: _ => failAt (.secondDerivative access) (some second.name)
  | _ => pure ()
  if 1 < timeOrder then failAt (.timeOrder timeOrder access) none
  if 0 < timeOrder && f.external then failAt (.externalRate f.name) none
  noneOverused (comps ++ derivs)
  pure ⟨once (comps ++ derivs), twice (comps ++ derivs)⟩

/-- Two sides agree on their free indices. -/
def agree (reason : List String → List String → FormReason) (a b : List Index) :
    Except Failure Unit :=
  let apart := difference a b
  if apart.isEmpty then pure ()
  else failAt (reason (Index.names a) (Index.names b)) (Index.firstName apart)

end Usage

namespace Expr

open Usage

/-- The usage of a node; a product that is itself a factor (`asFactor`) is left open, so that nested products count as one. -/
def usageIn (asFactor : Bool) : Expr → Except Failure Usage
  | const _ | param _ => pure ⟨[], []⟩
  | field f comps derivs t => do checked (← ofAccess f comps derivs t)
  | bare f => do checked (← ofAccess f [] [] 0)
  | normal i => pure ⟨[i], []⟩
  | delta i j => if i = j then pure ⟨[], [i]⟩ else pure ⟨[i, j], []⟩
  | sum a b => do
    let ua ← usageIn false a
    let ub ← usageIn false b
    agree .sumMismatch ua.free ub.free
    checked ⟨ua.free, ua.summed ++ ub.summed⟩
  | prod a b => do
    let ua ← usageIn true a
    let ub ← usageIn true b
    let u : Usage := ⟨ua.free ++ ub.free, ua.summed ++ ub.summed⟩
    if asFactor then pure u else do checked (← ofFactors u)
  | quot a b => do
    let ua ← usageIn false a
    let ub ← usageIn false b
    match ub.free with
    | i :: _ => failAt .freeInDenominator (some i.name)
    | [] => checked ⟨ua.free, ua.summed ++ ub.summed⟩
  | power a b => do
    let ua ← usageIn false a
    let ub ← usageIn false b
    match ua.free ++ ub.free with
    | i :: _ => failAt .freeInPower (some i.name)
    | [] => pure ⟨[], ua.summed ++ ub.summed⟩
  | apply f x => do
    let u ← usageIn false x
    match u.free with
    | i :: _ => failAt (.freeInFunction f.name) (some i.name)
    | [] => pure ⟨[], u.summed⟩
  | pairing a b => do
    let ua ← usageIn false a
    let ub ← usageIn false b
    agree .pairingMismatch ua.free ub.free
    noneIn .pairedAndSummed (common ua.free (ua.summed ++ ub.summed))
    pure ⟨[], ua.summed ++ ub.summed ++ ua.free⟩

def usage (e : Expr) : Except Failure Usage := usageIn false e

/-- The free indices in order of first appearance; fails on a malformed expression. -/
def freeIndices (e : Expr) : Except Failure (List Index) := do
  pure (← usage e).free

/-- What the factors of a product leave free, repetitions included. -/
def occurrences (e : Expr) : Except Failure (List Index) := do
  pure (← usageIn true e).free

end Expr

end Galerkin
