import Galerkin.Formula.Traits
import Galerkin.Linearization

/-!
Kernels: the densities of one form as formulas over numbered slots, together with what it takes to
fill the slots. Two kernels are equal exactly when they compute the same thing in the same way.
-/

namespace Galerkin

structure Kernel where
  name : String
  dim : Nat
  /-- Internal and external components per control point. -/
  width : Nat
  externalWidth : Nat
  slots : List Slot
  unknownCount : Nat
  /-- The common parts of all densities, numbered behind the slots. -/
  temporaries : List (Formula Nat)
  /-- Densities by unknown, in ascending order. -/
  residual : List (Nat × Formula Nat)
  /-- Derivatives of densities by unknown and unknown of the derivative, in ascending order. -/
  tangent : List ((Nat × Nat) × Formula Nat)
  paramNames : List String
  usesNormal : Bool
  boundary : Bool
  deriving DecidableEq, Repr

namespace Kernel

def residualOrder (a b : Nat × Formula Quantity) : Bool := a.1 ≤ b.1

def tangentOrder (a b : (Nat × Nat) × Formula Quantity) : Bool :=
  a.1.1 < b.1.1 || (a.1.1 = b.1.1 && a.1.2 ≤ b.1.2)

/-- The kernel of a linearized form: quantities become the numbers of their slots. All densities must be
computable. -/
def ofLinearization (l : Linearization) (boundary : Bool)
    (share : Nat → List (Formula Nat) → Sharing := fun _ => .apart) : Except Failure Kernel := do
  let densities := l.residual.map (·.2) ++ l.tangent.map (·.2)
  if densities.any (!·.isWritable) then throw .notComputable
  let symbols := l.table.sorted.map (·.1)
  let slot := fun (q : Quantity) => symbols.idxOf q
  let residual := l.residual.mergeSort residualOrder
  let tangent := l.tangent.mergeSort tangentOrder
  let shared := share symbols.length ((residual.map (·.2) ++ tangent.map (·.2)).map (·.map slot))
  pure {
    name := l.name
    dim := l.table.dim
    width := l.table.internal.width
    externalWidth := l.table.external.width
    slots := ← l.table.slots
    unknownCount := l.unknownCount
    temporaries := shared.common
    residual := (residual.map (·.1)).zip (shared.formulas.take residual.length)
    tangent := (tangent.map (·.1)).zip (shared.formulas.drop residual.length)
    paramNames := l.table.paramNames
    usesNormal := l.table.usesNormal
    boundary := boundary }

/-- The kernel of a weak form in a setting. -/
def ofForm (rules : Calculus Quantity) (s : Setting) (name : String) (boundary : Bool) (e : Expr) :
    Except Failure Kernel := do
  ofLinearization (← Linearization.ofForm rules s name boundary e) boundary rules.share

end Kernel

/-- How the elements of a batch are visited; both ways compute the same numbers. -/
inductive Backend where
  | sequential | parallel
  deriving DecidableEq, Repr, Inhabited

namespace Backend

def name : Backend → String
  | sequential => "sequential"
  | parallel => "parallel"

def ofName (s : String) : Except Failure Backend :=
  match [sequential, parallel].find? fun b => b.name == s with
  | some b => pure b
  | none => throw (.invalid (.kernelBackend s))

/-- What tells the kernels of one backend from those of another. -/
def signature (b : Backend) : String := s!"numba-{b.name}-njit"

end Backend

/-- A kernel that is ready to run. -/
structure CompiledKernel where
  kernel : Kernel
  backend : Backend
  deriving DecidableEq, Repr

namespace CompiledKernel

def text (k : CompiledKernel) : String :=
  s!"LocalKernel({Text.quote k.kernel.name}, backend={Text.quote k.backend.name})"

/-- The kernel of a weak form, for a backend given by name. -/
def compile (rules : Calculus Quantity) (s : Setting) (name : String) (boundary : Bool) (backend : String)
    (e : Expr) : Except Failure CompiledKernel := do
  let kernel ← Kernel.ofForm rules s name boundary e
  pure ⟨kernel, ← Backend.ofName backend⟩

end CompiledKernel

end Galerkin
