import OdeSystem.Simulation.Trajectory
import OdeSystem.Proofs.Helper.Stack
import OdeSystem.Proofs.Reading
import OdeSystem.Proofs.Helper.Cycle
import OdeSystem.Proofs.Helper.Solution
import OdeSystem.Proofs.Model.Order
import OdeSystem.Proofs.Notation.Canonical
import OdeSystem.Proofs.Notation.Product
import OdeSystem.Proofs.Orientation
import OdeSystem.Proofs.Vector.Alias
import OdeSystem.Proofs.Vector.Spelling
import OdeSystem.Proofs.Vector.Location
import OdeSystem.Proofs.Vector.Shape
import OdeSystem.Proofs.Vector.Component
import OdeSystem.Proofs.Vector.Expander
import OdeSystem.Proofs.Model.Alias
import OdeSystem.Proofs.Integrator
import OdeSystem.Proofs.Naming
import OdeSystem.Proofs.Notation.Name
import OdeSystem.Proofs.Model.Shadowing
import OdeSystem.Proofs.Helper.Locality
import OdeSystem.Proofs.Formula.Lookup
import OdeSystem.Proofs.Model.Closed
import OdeSystem.Proofs.Text.Respaced
import OdeSystem.Proofs.Notation.Blind
import OdeSystem.Proofs.Notation.Layout
import OdeSystem.Proofs.Vector.Layout
import OdeSystem.Proofs.Model.Layout
import OdeSystem.Proofs.Model.Redeclaration
import OdeSystem.Proofs.Model.Query
import OdeSystem.Proofs.Simulation.Session
import OdeSystem.Proofs.Simulation.Replay
import OdeSystem.Proofs.Simulation.Synchrony
import OdeSystem.Proofs.Simulation.Progress
import OdeSystem.Proofs.Vector.Unit
import OdeSystem.Proofs.Derivative
import OdeSystem.Proofs.Definition
import OdeSystem.Proofs.Notation.Joined
import OdeSystem.Proofs.Notation.Juxtaposition
import OdeSystem.Proofs.Notation.Boundary
import OdeSystem.Proofs.Notation.Nested
import OdeSystem.Proofs.Simulation.StateVector
import OdeSystem.Proofs.Context
import OdeSystem.Proofs.Notation.Separation
import OdeSystem.Proofs.Notation.Dialect
import OdeSystem.Proofs.Notation.Arity
import OdeSystem.Proofs.Helper.Moments
import OdeSystem.Proofs.Helper.Work
import OdeSystem.Proofs.Notation.Maximal
import OdeSystem.Proofs.Scan.Expander
