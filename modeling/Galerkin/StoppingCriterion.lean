import Galerkin.Snapshot

/-!
Detection of a steady state: a run may stop as soon as every watched rate is below its threshold.
-/

namespace Galerkin

/-- A field whose rates are watched, or one component of it. -/
structure RateKey where
  field : String
  component : Option Int
  deriving DecidableEq, Repr

def RateKey.text (k : RateKey) : String :=
  match k.component with
  | none => Text.quote k.field
  | some c => Text.tuple [Text.quote k.field, toString c]

/-- Watched rates with their thresholds, each key once. -/
structure StoppingCriterion where
  thresholds : List (RateKey × Number)
  deriving Repr

namespace StoppingCriterion

/-- Sets the entry of a key, which stays where it is if there is one already. -/
def assign {β : Type} (key : RateKey) (value : β) : List (RateKey × β) → List (RateKey × β)
  | [] => [(key, value)]
  | (k, v) :: rest => if k = key then (k, value) :: rest else (k, v) :: assign key value rest

/-- The entries of a list in which later entries replace earlier ones. -/
def assignAll {β : Type} (entries : List (RateKey × β)) : List (RateKey × β) :=
  entries.foldl (fun table (k, v) => assign k v table) []

/-- A criterion with at least one threshold, all of them positive. -/
def make (entries : List (RateKey × Number)) : Except Failure StoppingCriterion := do
  let thresholds := assignAll entries
  if thresholds.isEmpty then throw (.invalid .noThresholds)
  match thresholds.find? fun e => e.2.toFloat ≤ 0.0 with
  | some (key, value) => throw (.invalid (.threshold key.text value))
  | none => pure ⟨thresholds⟩

def text (c : StoppingCriterion) : String :=
  let entries := c.thresholds.map fun (key, value) => key.text ++ ": " ++ value.text
  "RateStoppingCriterion(\x7b" ++ Text.joined ", " entries ++ "\x7d)"

/-- Is the first of some rates that is not below its threshold missing, present, or is there none? -/
def belowAll (maxima : List (RateKey × Float)) : List (RateKey × Number) → Except Failure Bool
  | [] => pure true
  | (key, threshold) :: rest =>
    match maxima.lookup key with
    | none => throw .absent
    | some m => if m < threshold.toFloat then belowAll maxima rest else pure false

/-- Are all rates below their thresholds? -/
def check (c : StoppingCriterion) (maxima : List (RateKey × Float)) : Except Failure Bool :=
  belowAll maxima c.thresholds

/-- The largest rates of a snapshot by key. -/
def maxima (c : StoppingCriterion) (s : Snapshot Float) : Except Failure (List (RateKey × Float)) :=
  c.thresholds.mapM fun (key, _) => do pure (key, ← s.largestRate key.field key.component)

/-- Does a snapshot show a steady state? -/
def holds (c : StoppingCriterion) (s : Snapshot Float) : Except Failure Bool := do
  c.check (← c.maxima s)

end StoppingCriterion

end Galerkin
