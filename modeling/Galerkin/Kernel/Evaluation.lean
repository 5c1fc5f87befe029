import Galerkin.Kernel.Basic
import Galerkin.Tabulation

/-!
Element residuals and tangents. At every quadrature point the slots are interpolated, the temporaries
and densities computed, and each density is spread over the control points with the basis function, or
the derivative of one, that its unknown is interpolated with.
-/

namespace Galerkin

/-- Component values at the control points of several elements. -/
structure NodalValues (α : Type) where
  elements : Nat
  points : Nat
  width : Nat
  /-- All values, row by row. -/
  data : Array α
  deriving Repr

namespace NodalValues

variable {α : Type}

def shape (v : NodalValues α) : List Nat := [v.elements, v.points, v.width]

def ofFn (elements points width : Nat) (f : Nat → α) : NodalValues α :=
  ⟨elements, points, width, ((List.range (elements * points * width)).map f).toArray⟩

def zeros [Zero α] (elements points width : Nat) : NodalValues α := ofFn elements points width fun _ => 0

def get (v : NodalValues α) (e a c : Nat) : Except Failure α :=
  if e < v.elements ∧ a < v.points ∧ c < v.width then
    match v.data[(e * v.points + a) * v.width + c]? with
    | some x => pure x
    | none => throw .outOfRange
  else throw .outOfRange

end NodalValues

/-- An array of any shape that is given for values at control points. -/
structure GivenArray (α : Type) where
  shape : List Nat
  /-- All values, row by row. -/
  data : Array α
  deriving Repr

/-- The values at control points, if the array has the shape that they have. -/
def GivenArray.nodal {α : Type} (v : GivenArray α) (name : String) (elements points width : Nat) :
    Except Failure (NodalValues α) :=
  if v.shape = [elements, points, width] then pure ⟨elements, points, width, v.data⟩
  else throw (.invalid (.stateShape name v.shape [elements, points, width]))

/-- Values of parameters: by name, or in the order of the kernel's parameters. -/
inductive Parameters (α : Type) where
  | named (values : List (String × α))
  | listed (values : List α)
  deriving Repr

/-- The residual and the tangent of one element, row by row. -/
structure ElementSystem (α : Type) where
  residual : List α
  tangent : List (List α)
  deriving Repr

namespace Kernel

variable {α : Type} [Scalar α]

open Arithmetic

/-- The values of the kernel's parameters in its order. -/
def paramValues (k : Kernel) : Parameters α → Except Failure (List α)
  | .named values =>
    let absent := k.paramNames.filter fun p => (values.lookup p).isNone
    if absent.isEmpty then pure (k.paramNames.filterMap fun p => values.lookup p)
    else throw (.missing (.parameters k.name absent))
  | .listed values =>
    if values.length = k.paramNames.length then pure values
    else throw (.invalid (.parameterCount k.paramNames.length values.length))

/-- The basis functions of a point, or their derivatives along an axis. -/
def basisRow (p : PointData α) : Option Nat → Except Failure (List α)
  | none => pure p.basis
  | some axis => p.gradients.mapM fun g =>
    match g[axis]? with
    | some d => pure d
    | none => throw .outOfRange

/-- What the elements of a batch are evaluated with. -/
structure Inputs (α : Type) where
  state : NodalValues α
  rate : NodalValues α
  external : NodalValues α
  params : List α

/-- The values of one component interpolated at a point of element `e`. -/
def interpolated (values : NodalValues α) (e column : Nat) (row : List α) : Except Failure α := do
  let terms ← row.zipIdx.mapM fun (w, a) => do pure (w * (← values.get e a column))
  pure (total terms)

def slotValue (inputs : Inputs α) (e : Nat) (p : PointData α) (s : Slot) : Except Failure α :=
  match s.source with
  | .param => match inputs.params[s.column]? with
    | some v => pure v
    | none => throw .outOfRange
  | .normal => match p.normal[s.column]? with
    | some v => pure v
    | none => throw .outOfRange
  | .value => do interpolated inputs.state e s.column (← basisRow p s.axis)
  | .rate => do interpolated inputs.rate e s.column (← basisRow p s.axis)
  | .external => do interpolated inputs.external e s.column (← basisRow p s.axis)

/-- What the points of an element work on. The densities of a point stay until the next point
writes them again. -/
structure Workspace (α : Type) where
  /-- Densities by unknown. -/
  densities : Array α
  /-- Derivatives of densities, row by row. -/
  slopes : Array α
  /-- The sums of the points so far. -/
  residual : Array α
  /-- The sums of the points so far, row by row. -/
  tangent : Array α

namespace Workspace

def zero (unknowns size : Nat) : Workspace α :=
  ⟨.replicate unknowns 0, .replicate (unknowns * unknowns) 0, .replicate size 0,
    .replicate (size * size) 0⟩

end Workspace

/-- Slot values followed by the values of the temporaries. -/
def withTemporaries (k : Kernel) (slots : Array α) : Array α :=
  k.temporaries.foldl (fun values t => values.push (t.eval fun i => values.getD i 0)) slots

/-- Writes the densities of a point. Entries that vanish identically are never written. -/
def assign (k : Kernel) (values : Array α) (w : Workspace α) : Workspace α :=
  let value := fun (i : Nat) => values.getD i 0
  { w with
    densities := k.residual.foldl (fun g (i, e) => g.setIfInBounds i (e.eval value)) w.densities
    slopes := k.tangent.foldl (fun h ((i, j), e) =>
      h.setIfInBounds (i * k.unknownCount + j) (e.eval value)) w.slopes }

/-- Adds multiples of `x` to every entry of a sum that a row of basis functions reaches. -/
def spread (start stride : Nat) (row : List α) (x : α) (sum : Array α) : Array α :=
  row.zipIdx.foldl (fun sum (w, a) => sum.modify (a * stride + start) (· + x * w)) sum

/-- The component that a slot reads. -/
def column (k : Kernel) (i : Nat) : Nat := (k.slots[i]?.map (·.column)).getD 0

def isRate (k : Kernel) (i : Nat) : Bool := (k.slots[i]?.map (·.isRate)).getD false

/-- Adds the densities of a point, each with the basis that its unknown is interpolated with. -/
def addDensities (k : Kernel) (rows : Array (List α)) (weight : α) (densities sum : Array α) :
    Array α :=
  (List.range k.unknownCount).foldl (fun sum i =>
    let g := weight * densities.getD i 0
    if isZero g then sum else spread (k.column i) k.width (rows.getD i []) g sum) sum

/-- Adds the derivatives of the densities; `rateWeight` is the derivative of rates by values. -/
def addSlopes (k : Kernel) (rows : Array (List α)) (weight rateWeight : α) (size : Nat)
    (slopes sum : Array α) : Array α :=
  (List.range k.unknownCount).foldl (fun sum i =>
    (List.range k.unknownCount).foldl (fun sum j =>
      let h := slopes.getD (i * k.unknownCount + j) 0
      if isZero h then sum
      else
        let h := weight * (if k.isRate j then h * rateWeight else h)
        (rows.getD i []).zipIdx.foldl (fun sum (w, a) =>
          spread ((a * k.width + k.column i) * size + k.column j) k.width (rows.getD j []) (h * w) sum)
          sum) sum) sum

/-- Adds what one point contributes to the residual and the tangent of element `e`. -/
def addPoint (k : Kernel) (inputs : Inputs α) (rateWeight : α) (size e : Nat) (w : Workspace α)
    (p : PointData α) : Except Failure (Workspace α) := do
  let values ← k.slots.toArray.mapM (slotValue inputs e p)
  let rows ← k.slots.toArray.mapM fun s => basisRow p s.axis
  let w := k.assign (k.withTemporaries values) w
  pure { w with
    residual := k.addDensities rows p.weight w.densities w.residual
    tangent := k.addSlopes rows p.weight rateWeight size w.slopes w.tangent }

/-- The system of one element. Local unknowns come by control point, then by component. -/
def elementSystem (k : Kernel) (inputs : Inputs α) (rateWeight : α) (basisCount e : Nat)
    (points : List (PointData α)) : Except Failure (ElementSystem α) := do
  let size := basisCount * k.width
  let w ← points.foldlM (k.addPoint inputs rateWeight size e) (.zero k.unknownCount size)
  pure ⟨w.residual.toList,
    (List.range size).map fun i => (w.tangent.extract (i * size) ((i + 1) * size)).toList⟩

def checkShape (name : String) (v : NodalValues α) (expected : List Nat) : Except Failure Unit :=
  if v.shape = expected then pure ()
  else throw (.invalid (.stateShape name v.shape expected))

/-- The systems of all elements of a tabulation. Rates and external values that are not given are zero. -/
def evaluate (k : Kernel) (tab : Tabulation α) (state : NodalValues α)
    (rate external : Option (NodalValues α)) (params : Parameters α) (rateWeight : α) :
    Except Failure (List (ElementSystem α)) := do
  let count := tab.entities.length
  checkShape "x_loc" state [count, tab.basisCount, k.width]
  let external := external.getD (.zeros count tab.basisCount k.externalWidth)
  checkShape "ext_loc" external [count, tab.basisCount, k.externalWidth]
  if k.usesNormal && !tab.hasNormals then throw (.invalid (.needsNormals k.name))
  let values ← k.paramValues params
  let rate := rate.getD (.zeros count tab.basisCount k.width)
  let inputs : Inputs α := ⟨state, rate, external, values⟩
  tab.entities.zipIdx.mapM fun (points, e) =>
    k.elementSystem inputs rateWeight tab.basisCount e points

/-- The systems of all elements for arrays as they are given. The shape of rates is not looked at. -/
def call (k : Kernel) (tab : Tabulation α) (state : GivenArray α) (rate : Option (NodalValues α))
    (external : Option (GivenArray α)) (params : Parameters α) (rateWeight : α) :
    Except Failure (List (ElementSystem α)) := do
  let count := tab.entities.length
  let state ← state.nodal "x_loc" count tab.basisCount k.width
  let external ← external.mapM fun v => v.nodal "ext_loc" count tab.basisCount k.externalWidth
  k.evaluate tab state rate external params rateWeight

end Kernel

end Galerkin
