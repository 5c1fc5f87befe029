import Galerkin.Number
import Galerkin.Text.Quoted

/-!
Everything that can go wrong, by cause, and the wording of each cause. `FormError` covers weak forms
that break the rules of indices; `Failure` adds wrong values, missing entries, misuse, and the
numerical failures that a time step may recover from.
-/

namespace Galerkin

open Text (quote quotedList tuple)

/-- Why a weak form, or a piece of its text, is malformed. -/
inductive FormReason where
  | reservedTime
  | unsupportedFunction (name : String)
  | repeatedDeclared
  | sidesDiffer (left right : List String)
  | indexCount (expected got : Nat)
  | freeAndSummed
  | wrongRank (field : String) (rank got : Nat)
  | secondDerivative (access : String)
  | timeOrder (order : Nat) (access : String)
  | externalRate (field : String)
  | overused
  | sumMismatch (left right : List String)
  | freeInDenominator
  | freeInPower
  | freeInFunction (name : String)
  | pairingMismatch (left right : List String)
  | pairedAndSummed
  | nestedPairing
  | pairingCount
  | pairingInCoefficient
  | pairingInDenominator
  | pairingInside (node : String)
  | notAPairing
  | formHasFree
  | indexedCoefficient
  | normalInDomain
  | independent (quantity : String)
  | unexpectedCharacter (c : Char) (column : Nat)
  | expected (wanted got : String) (column : Nat)
  | unexpected (got : String) (column : Nat)
  | severalSemicolons
  | expectedIndex (got : String)
  | misplacedTime
  | pairingArity
  | functionArity (name : String)
  | unknownFunction (name : String) (column : Nat)
  | deltaArity
  | normalArity
  | unknownName (name : String) (column : Nat)
  | differentiatedDefinition (name : String)
  | unsupportedBinding (name kind : String)
  | trailing (got : String) (column : Nat)
  | notADefinition (line : Nat)
  /-- Wording that comes from a caller. -/
  | stated (text : String)
  deriving DecidableEq, Repr

namespace FormReason

def text : FormReason → String
  | reservedTime => "'t' is reserved for time derivatives"
  | unsupportedFunction name => s!"Unsupported function '{name}'"
  | repeatedDeclared => "repeated index on the left-hand side"
  | sidesDiffer left right =>
    s!"free indices differ between left ({quotedList left}) and right ({quotedList right}) sides"
  | indexCount count got => s!"expects {count} indices, got {got}"
  | freeAndSummed => "index is both free and summed in the same term"
  | wrongRank field rank got =>
    s!"field '{field}' has rank {rank} but is accessed with {got} component indices"
  | secondDerivative access => s!"only first spatial derivatives are supported, got '{access}'"
  | timeOrder order access => s!"time derivative of order {order} in '{access}'"
  | externalRate field => s!"external field '{field}' has no time derivative"
  | overused => "index appears three or more times in one term"
  | sumMismatch left right =>
    s!"terms of a sum have different free indices ({quotedList left} vs {quotedList right})"
  | freeInDenominator => "free index in a denominator"
  | freeInPower => "free index in a power"
  | freeInFunction name => s!"free index inside {name}()"
  | pairingMismatch left right =>
    s!"Bilinear pairs unmatched free indices ({quotedList left} vs {quotedList right})"
  | pairedAndSummed => "index is both paired and summed inside a Bilinear"
  | nestedPairing => "Bilinear may only appear as a top-level weak-form term"
  | pairingCount => "each weak-form term needs exactly one Bilinear factor"
  | pairingInCoefficient => "Bilinear nested inside a coefficient"
  | pairingInDenominator => "Bilinear in a denominator"
  | pairingInside node => s!"Bilinear nested inside {node}"
  | notAPairing => "weak form terms must be (scaled) Bilinear pairings"
  | formHasFree => "weak form has free indices"
  | indexedCoefficient => "Bilinear scaled by an indexed coefficient"
  | normalInDomain => "facet normal used in a domain form"
  | independent quantity => s!"test quantity '{quantity}' does not depend on any unknown field"
  | unexpectedCharacter c column =>
    s!"unexpected character {quote (String.singleton c)} at column {column}"
  | expected wanted got column =>
    s!"expected {quote wanted} but found {quote got} at column {column}"
  | unexpected got column => s!"unexpected {quote got} at column {column}"
  | severalSemicolons => "more than one ';' in an index list"
  | expectedIndex got => s!"expected an index name, found {quote got}"
  | misplacedTime => "'t' is only valid after ';'"
  | pairingArity => "Bilinear takes exactly two arguments"
  | functionArity name => s!"{name}() takes exactly one argument"
  | unknownFunction name column => s!"unknown function '{name}' at column {column}"
  | deltaArity => "δ takes exactly two indices"
  | normalArity => "the facet normal takes exactly one index"
  | unknownName name column => s!"unknown name '{name}' at column {column}"
  | differentiatedDefinition name => s!"cannot differentiate definition '{name}'"
  | unsupportedBinding name kind => s!"name '{name}' is bound to unsupported {kind}"
  | trailing got column => s!"trailing input {quote got} at column {column}"
  | notADefinition line => s!"line {line}: expected 'name\x7bindices\x7d = expression'"
  | stated text => text

end FormReason

/-- A malformed form: the reason, the form it was found in, and the index at fault. -/
structure FormError where
  reason : FormReason
  form : Option String
  index : Option String
  deriving DecidableEq, Repr

namespace FormError

def nonempty : Option String → Option String
  | some "" => none
  | s => s

/-- The form and the index in brackets, as far as they are known. -/
def place (e : FormError) : String :=
  match nonempty e.form, nonempty e.index with
  | none, none => ""
  | some form, none => s!"[form '{form}'] "
  | none, some index => s!"[index '{index}'] "
  | some form, some index => s!"[form '{form}', index '{index}'] "

def message (e : FormError) : String := e.place ++ e.reason.text

/-- What follows the first closing bracket and blank. -/
def afterBracket? : List Char → Option (List Char)
  | ']' :: ' ' :: rest => some rest
  | _ :: rest => afterBracket? rest
  | [] => none

/-- A message without its bracketed place; one that opens a bracket and never closes it has no such part. -/
def unplaced? (message : String) : Option String :=
  match message.toList with
  | '[' :: rest => (afterBracket? ('[' :: rest)).map String.ofList
  | _ => some message

/-- The reason under a new place: wording from a caller is cut out of the old message. -/
def restated? (e : FormError) : Option FormReason :=
  match e.reason with
  | .stated _ => (unplaced? e.message).map .stated
  | reason => some reason

/-- The same error, naming `form` unless it names one already. -/
def inForm? (e : FormError) (form : String) : Option FormError :=
  match e.form with
  | some _ => some e
  | none => e.restated?.map fun reason => ⟨reason, some form, e.index⟩

def inForm (e : FormError) (form : String) : FormError :=
  (e.inForm? form).getD { e with form := some form }

end FormError

/-- A value that an operation does not accept. -/
inductive Invalid where
  /-- What is given for the name of an index, as it is shown. -/
  | indexName (shown : String)
  | fieldName (name : String)
  | rank (rank : Number) (field : String)
  | duplicateFields (names : List String)
  | gaussPoints (n : Number)
  | elementOrder (order : Number)
  | latticeOrder
  | serendipityShape (shape : String)
  | serendipityOrder
  | connectivityShape (cell : String) (corners : Nat) (shape : List Nat)
  | vertexDimension (cell : String) (dim got : Nat)
  | danglingVertex
  | nonManifold (corners : List Int) (owners : Nat)
  | rectangleShape (shape : String)
  | maskShape (got expected : List Nat)
  | controlPointShape (shape : List Nat) (element : String)
  | kernelBackend (name : String)
  | parameterCount (expected got : Nat)
  | stateShape (name : String) (got expected : List Nat)
  | needsNormals (form : String)
  | restartLength
  | preconditioner (name : String)
  | solverBackend (name : String)
  | theta (value : Number)
  | noThresholds
  | threshold (key : String) (value : Number)
  | timeStep (value : Number)
  | duplicateWorkPiece (name : String)
  | duplicateRegion (piece region : String)
  | fieldConflict (field old new : String)
  | noUnknowns
  | noWorkPieces
  | noDomainForm (piece : String)
  | displacementField
  | displacementShape (field : String) (got expected : List Nat)
  deriving Repr

def shapeText (shape : List Nat) : String := tuple (shape.map toString)

def Invalid.message : Invalid → String
  | .indexName shown => s!"Index name must be an identifier, got {shown}"
  | .fieldName name => s!"Field name must be an identifier, got {quote name}"
  | .rank value field => s!"Unsupported tensor rank {value.text} for field '{field}'"
  | .duplicateFields names => s!"Duplicate field names in layout: {quotedList names}"
  | .gaussPoints n => n.text
  | .elementOrder order => s!"Element order {order.text} is not supported (1 or 2)"
  | .latticeOrder => "Polynomial order n must be >= 1."
  | .serendipityShape shape =>
    s!"Serendipity elements are defined on quad/hex cells, not '{shape}'"
  | .serendipityOrder => "Only second-order serendipity elements are available"
  | .connectivityShape cell corners shape =>
    s!"'{cell}' connectivity must have shape (n_elements, {corners}), got {shapeText shape}"
  | .vertexDimension cell dim got => s!"'{cell}' mesh needs {dim}-D vertices, got {got}-D"
  | .danglingVertex => "connectivity references a vertex that does not exist"
  | .nonManifold corners owners =>
    s!"non-manifold mesh: facet {tuple (corners.map toString)} is shared by {owners} elements"
  | .rectangleShape shape => s!"structured_rectangle supports 'quad' and 'tri', got '{shape}'"
  | .maskShape got expected =>
    s!"predicate returned shape {shapeText got}, expected {shapeText expected}"
  | .controlPointShape shape element =>
    s!"Control points of shape {shapeText shape} do not match {element}"
  | .kernelBackend name =>
    s!"Unknown kernel backend '{name}'; choose from ('sequential', 'parallel')"
  | .parameterCount expected got => s!"Expected {expected} parameters, got {got}"
  | .stateShape name got expected =>
    s!"{name} has shape {shapeText got}, expected {shapeText expected}"
  | .needsNormals form => s!"Form '{form}' needs facet normals"
  | .restartLength => "restart length s must be >= 1"
  | .preconditioner name => s!"Unknown preconditioner '{name}'"
  | .solverBackend name => s!"Unknown linear solver backend '{name}'"
  | .theta value => s!"theta must lie in (0, 1], got {value.text}"
  | .noThresholds => "RateStoppingCriterion needs at least one threshold"
  | .threshold key value => s!"threshold for {key} must be positive, got {value.text}"
  | .timeStep value => s!"time step must be positive, got {value.text}"
  | .duplicateWorkPiece name => s!"Duplicate work-piece name '{name}'"
  | .duplicateRegion piece name => s!"Work-piece '{piece}' already has a region '{name}'"
  | .fieldConflict field old new =>
    s!"Field '{field}' is declared twice with different rank/kind ({old} vs {new})"
  | .noUnknowns => "No internal (solved-for) field appears in any weak form"
  | .noWorkPieces => "Add at least one work-piece before discretize()"
  | .noDomainForm piece => s!"Work-piece '{piece}' has no domain weak form"
  | .displacementField => "DISPLACE needs a field name"
  | .displacementShape field got expected =>
    s!"field '{field}' with shape {shapeText got} cannot displace positions of shape {shapeText expected}"

/-- An entry that is not there. -/
inductive Missing where
  | shape (name : String)
  | family (name : String)
  | quadrature (shape : String)
  | internalField (name : String)
  | externalField (name : String)
  | notExternal (name : String)
  | parameters (form : String) (names : List String)
  | region (piece region : String)
  deriving DecidableEq, Repr

def Missing.message : Missing → String
  | .shape name =>
    s!"Unknown element shape '{name}'; expected one of ['hex', 'line', 'quad', 'tet', 'tri']"
  | .family name =>
    s!"Unknown element family '{name}'; expected one of ('lagrange', 'serendipity')"
  | .quadrature name => name
  | .internalField name => s!"Field '{name}' is not in the internal layout"
  | .externalField name => s!"External field '{name}' is not in the external layout"
  | .notExternal name => s!"'{name}' is not an external field"
  | .parameters form names => s!"Form '{form}' needs parameter(s) {quotedList names}"
  | .region piece name => s!"Work-piece '{piece}' has no boundary region '{name}'"

/-- A thing of the wrong kind. -/
inductive IllTyped where
  | index (kind : String)
  | operand (kind : String)
  | constant (kind : String)
  | form (kind : String)
  | jacobi
  deriving DecidableEq, Repr

def IllTyped.message : IllTyped → String
  | .index kind => s!"Expected an Index or index name, got {kind}"
  | .operand kind => s!"Cannot use {kind} in a weak-form expression"
  | .constant kind => s!"Constant expects a real number, got {kind}"
  | .form kind => s!"A weak form must be an Expression or a string, got {kind}"
  | .jacobi => "Jacobi preconditioning needs an explicit matrix"

/-- An operation at the wrong time. -/
inductive Misuse where
  | frozenTable
  | notFrozen
  | alreadyDistributed
  | notDistributed
  | workPieceTooLate
  | alreadyDiscretized
  | notDiscretized
  | compileTooEarly
  | pieceNotCompiled (piece : String)
  | regionNotCompiled (piece region : String)
  deriving DecidableEq, Repr

def Misuse.message : Misuse → String
  | .frozenTable => "SymbolTable is frozen; cannot add new symbols"
  | .notFrozen => "SymbolTable.freeze() has not been called"
  | .alreadyDistributed => "DOFs are already distributed; renumbering is not allowed"
  | .notDistributed => "DofHandler.distribute() has not been called"
  | .workPieceTooLate => "Cannot add work-pieces after discretize()"
  | .alreadyDiscretized => "Domain is already discretized"
  | .notDiscretized => "Domain must be discretized before assembly"
  | .compileTooEarly => "discretize() must be called before compile()"
  | .pieceNotCompiled piece => s!"Work-piece '{piece}' has not been compiled"
  | .regionNotCompiled piece region => s!"Region '{piece}/{region}' has not been compiled"

/-- Why an element or facet cannot be assembled. -/
inductive AssemblyReason where
  | jacobian
  | noSuchFacet
  | noOwner
  | withoutDofs (controlPoints : List Int)
  deriving DecidableEq, Repr

structure AssemblyError where
  reason : AssemblyReason
  body : Option String
  region : Option String
  entity : Int
  deriving DecidableEq, Repr

namespace AssemblyError

def owner (e : AssemblyError) : String :=
  match e.region with
  | none => e.body.getD ""
  | some region => e.body.getD "" ++ "/" ++ region

def message (e : AssemblyError) : String :=
  match e.reason with
  | .jacobian => s!"non-positive Jacobian determinant in element {e.entity}"
  | .noSuchFacet => s!"facet {e.entity} does not exist"
  | .noOwner =>
    s!"facet {e.entity} of region '{e.owner}' has no owner element in the work-piece"
  | .withoutDofs points =>
    let kind := if e.region.isNone then "element" else "facet"
    s!"{kind} {e.entity} of '{e.owner}' references control point(s) " ++
      s!"{Text.bracketed (points.map toString)} without DOFs"

end AssemblyError

/-- Why a Newton iteration was given up. -/
inductive NewtonFailure where
  | nonFinite (iteration : Nat)
  /-- The limit is reached; the last residual is known if a system was assembled. -/
  | limit (iterations : Int) (residual : Option Float) (time : Float)
  deriving Repr

def NewtonFailure.message : NewtonFailure → String
  | .nonFinite iteration => s!"non-finite residual at Newton iteration {iteration}"
  | .limit iterations residual time =>
    let size := (residual.map Decimal.scientificText).getD "inf"
    s!"Newton did not converge in {iterations} iterations " ++
      s!"(|R|_inf = {size}) at t = {Decimal.shortText time}"

inductive Failure where
  | malformed (error : FormError)
  | invalid (why : Invalid)
  | missing (what : Missing)
  | illTyped (what : IllTyped)
  | misuse (what : Misuse)
  | assembly (error : AssemblyError)
  | linearSolver
  | newton (why : NewtonFailure) (iterations : Nat)
  /-- A position outside a table. -/
  | outOfRange
  /-- A key that a table does not hold. -/
  | absent
  /-- Tables whose shapes do not fit. -/
  | misshapen
  /-- An operation that is not defined for its operands. -/
  | unsupported
  /-- A part that a thing does not have. -/
  | noSuchPart
  /-- A matrix that is not square or has no inverse. -/
  | noInverse
  /-- A name that none of the choices has. -/
  | noSuchChoice
  | divisionByZero
  /-- A density without a value that could be computed. -/
  | notComputable
  /-- A result too large for a double. -/
  | overflow
  /-- A whole number with too many digits to be read or written. -/
  | tooLong
  /-- A system that is wanted before any has been assembled. -/
  | notAssembled
  deriving Repr

namespace Failure

/-- The wording; failures of plain look-ups have none. -/
def message? : Failure → Option String
  | malformed e => some e.message
  | invalid why => some why.message
  | missing what => some what.message
  | illTyped what => some what.message
  | misuse what => some what.message
  | assembly e => some e.message
  | newton why _ => some why.message
  | _ => none

/-- A failure that names `form` if it is a malformed form that names none. -/
def inForm (form : String) : Failure → Failure
  | malformed e => malformed (e.inForm form)
  | other => other

def form (reason : FormReason) : Failure := malformed ⟨reason, none, none⟩

def formAt (reason : FormReason) (index : String) : Failure := malformed ⟨reason, none, some index⟩

/-- May a time step that failed in this way be tried again with a smaller step? -/
def recoverable : Failure → Bool
  | linearSolver => true
  | newton _ _ => true
  | _ => false

end Failure

end Galerkin
