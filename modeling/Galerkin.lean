import Galerkin.Json.Builder
import Galerkin.Json.Expression
import Galerkin.Json.Mesh
import Galerkin.Json.Reading
import Galerkin.Json.Report
import Galerkin.Json.Settings
import Galerkin.Json.Writing
import Galerkin.Kernel.Cache
import Galerkin.Simulation
import Galerkin.Proofs.Expansion.Hygiene
import Galerkin.Proofs.WeakForm.Folding
import Galerkin.Proofs.Formula.Textbook
import Galerkin.Proofs.TimeStepping.March
import Galerkin.Proofs.Definition
import Galerkin.Proofs.ConsistentTangent
import Galerkin.Proofs.Linear.Solver
import Galerkin.Proofs.Assembly.Batches
import Galerkin.Proofs.Reading.Failures
import Galerkin.Proofs.Reading.Lossless
import Galerkin.Proofs.Assembly.Jobs
import Galerkin.Proofs.Assembly.Renumbering
import Galerkin.Proofs.Domain.Preparation
import Galerkin.Proofs.Domain.Rearrangement
import Galerkin.Proofs.Domain.Independence
import Galerkin.Proofs.Domain.Regrouping
import Galerkin.Proofs.DofMap.Bijection
import Galerkin.Proofs.Domain.Entities
import Galerkin.Proofs.Element.Reproduction
import Galerkin.Proofs.ElementSpace.Conformity
import Galerkin.Proofs.Kernel.Bounds
import Galerkin.Proofs.Kernel.Caching
import Galerkin.Proofs.Mesh.Boxes
import Galerkin.Proofs.Quadrature
import Galerkin.Proofs.TimeStepping.Restart
import Galerkin.Proofs.TimeStepping.Affine
import Galerkin.Proofs.TimeStepping.Acceptance
import Galerkin.Proofs.Domain.Conservation
import Galerkin.Proofs.Domain.Energy
import Galerkin.Proofs.Definition.Dummies
import Galerkin.Proofs.Linear.Recurrence
import Galerkin.Proofs.WeakForm.Acceptance
import Galerkin.Proofs.WeakForm.Scaling
import Galerkin.Proofs.Tabulation.Affine
import Galerkin.Proofs.SymbolTable.Slots
import Galerkin.Proofs.ControlPoints
import Galerkin.Proofs.Linearization.Additive
import Galerkin.Proofs.Kernel.Refusals
import Galerkin.Proofs.MalformedForms
import Galerkin.Proofs.Batches
import Galerkin.Proofs.Domain.Normals
import Galerkin.Proofs.Domain.Stranding
import Galerkin.Proofs.Expr.Shape
import Galerkin.Proofs.Lattice
import Galerkin.Proofs.WeakForm.Choices
