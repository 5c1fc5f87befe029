import Galerkin.Expansion

/-!
Weak forms are sums of pairings of a test quantity with a trial quantity, each with a scalar
coefficient. A form is split into its terms by distributing coefficients over inner sums, and the
coefficient of a term moves onto the trial side.
-/

namespace Galerkin

structure Pairing where
  test : Expr
  trial : Expr
  deriving Repr

namespace Pairing

def toExpr (p : Pairing) : Expr := .pairing p.test p.trial

def text (p : Pairing) : String := p.toExpr.text

end Pairing

namespace WeakForm

/-- A factor of a product; one that is a sum of pairings comes with the terms of that sum. -/
structure SplitFactor where
  whole : Expr
  terms : Option (List Expr)

def SplitFactor.plain (e : Expr) : SplitFactor := ⟨e, none⟩

/-- The first factor that can be split: the factors before it, its terms, the factors behind it. -/
def firstSplit : List SplitFactor → Option (List SplitFactor × List Expr × List SplitFactor)
  | [] => none
  | f :: rest =>
    match f.terms with
    | some terms => some ([], terms, rest)
    | none => (firstSplit rest).map fun (before, terms, behind) => (f :: before, terms, behind)

def splittable (fs : List SplitFactor) : Nat := fs.countP (·.terms.isSome)

theorem splittable_append (a b : List SplitFactor) :
    splittable (a ++ b) = splittable a + splittable b := List.countP_append

theorem splittable_reverse (a : List SplitFactor) : splittable a.reverse = splittable a :=
  List.countP_reverse

theorem splittable_plain (es : List Expr) : splittable (es.map SplitFactor.plain) = 0 := by
  induction es with
  | nil => rfl
  | cons e es ih => simp [splittable, SplitFactor.plain]

theorem splittable_of_firstSplit {fs before behind : List SplitFactor} {terms : List Expr}
    (h : firstSplit fs = some (before, terms, behind)) :
    splittable fs = splittable (before ++ behind) + 1 := by
  induction fs generalizing before with
  | nil => simp [firstSplit] at h
  | cons f rest ih =>
    cases ht : f.terms with
    | some ts =>
      simp only [firstSplit, ht, Option.some.injEq, Prod.mk.injEq] at h
      obtain ⟨rfl, rfl, rfl⟩ := h
      simp [splittable, ht]
    | none =>
      simp only [firstSplit, ht, Option.map_eq_some_iff] at h
      obtain ⟨⟨b, t, a⟩, hrest, heq⟩ := h
      simp only [Prod.mk.injEq] at heq
      obtain ⟨rfl, rfl, rfl⟩ := heq
      have := ih hrest
      simp_all [splittable]

/-- Multiplies out the sums of pairings in a product. The other factors go in front of each term, the last one outermost. -/
def distribute (whole : Expr) (fs : List SplitFactor) : List Expr :=
  match h : firstSplit fs with
  | none => [whole]
  | some (before, terms, behind) =>
    let others := before ++ behind
    terms.flatMap fun term =>
      distribute (others.foldl (fun product f => .prod f.whole product) term)
        (others.reverse ++ term.factors.map .plain)
termination_by splittable fs
decreasing_by
  have := splittable_of_firstSplit h
  rw [splittable_append, splittable_reverse, splittable_plain]
  omega

/-- The factors of an expression, ready for splitting, and its additive terms. -/
def analyse : Expr → List SplitFactor × List Expr
  | .sum a b =>
    let terms := (analyse a).2 ++ (analyse b).2
    let whole := Expr.sum a b
    ([⟨whole, if whole.hasPairing then some terms else none⟩], terms)
  | .prod a b =>
    let fs := (analyse a).1 ++ (analyse b).1
    (fs, distribute (.prod a b) fs)
  | .quot a b =>
    let whole := Expr.quot a b
    let terms := match a with
      | .sum _ _ => if a.hasPairing then (analyse a).2.map (Expr.quot · b) else [whole]
      | _ => [whole]
    ([.plain whole], terms)
  | e => ([.plain e], [e])

/-- The additive terms of a weak form. -/
def splitTerms (e : Expr) : List Expr := (analyse e).2

def isPairing? : Expr → Option Pairing
  | .pairing a b => some ⟨a, b⟩
  | _ => none

/-- The product of some coefficients, if there are any. -/
def productOf? : List Expr → Option Expr
  | [] => none
  | e :: rest => some (rest.foldl .prod e)

def joinScale : Option Expr → Expr → Expr
  | none, e => e
  | some scale, e => .prod scale e

/-- The coefficient of a term and its pairing. -/
def extract : Expr → Except Failure (Option Expr × Pairing)
  | .pairing a b => pure (none, ⟨a, b⟩)
  | .prod a b =>
    let fs := (Expr.prod a b).factors
    match fs.filterMap isPairing? with
    | [p] =>
      let rest := fs.filter fun f => (isPairing? f).isNone
      if rest.any (·.hasPairing) then throw (.form .pairingInCoefficient)
      else pure (productOf? rest, p)
    | _ => throw (.form .pairingCount)
  | .quot a b => do
    let (scale, p) ← extract a
    if b.hasPairing then throw (.form .pairingInDenominator)
    pure (some (joinScale scale (.quot (.const (.int 1)) b)), p)
  | e =>
    if e.hasPairing then throw (.form (.pairingInside e.kind))
    else throw (.form .notAPairing)

/-- The pairing of one term with its coefficient on the trial side. -/
def pairingOf (term : Expr) : Except Failure Pairing := do
  let (scale, p) ← extract term
  match scale with
  | none => pure p
  | some scale => do
    match (← scale.freeIndices) with
    | i :: _ => throw (.formAt .indexedCoefficient i.name)
    | [] => pure ⟨p.test, .prod scale p.trial⟩

def pairingsOf (e : Expr) : Except Failure (List Pairing) := do
  match (← e.freeIndices) with
  | i :: _ => throw (.formAt .formHasFree i.name)
  | [] => (splitTerms e).mapM pairingOf

/-- The pairings of a weak form; a failure names the form. -/
def pairings (name : String) (e : Expr) : Except Failure (List Pairing) :=
  (pairingsOf e).mapError (Failure.inForm name)

open Expansion (Scalars)

/-- The component pairs of a pairing, one for each value of the free indices of its test side. -/
def componentPairs (s : Setting) (p : Pairing) : Except Failure (List (Scalars × Scalars)) := do
  let free ← p.test.freeIndices
  (Assignment.all s.dim free).mapM fun env => do
    let a ← Expansion.expand s env p.test
    let b ← Expansion.expand s env p.trial
    pure (a, b)

/-- All component pairs of a weak form. -/
def expand (s : Setting) (name : String) (e : Expr) : Except Failure (List (Scalars × Scalars)) := do
  let terms ← pairings name e
  let parts ← terms.mapM fun p => (componentPairs s p).mapError (Failure.inForm name)
  pure parts.flatten

end WeakForm

end Galerkin
