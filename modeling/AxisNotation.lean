import AxisNotation.Backend.Rehearsal
import AxisNotation.Document.Pattern
import AxisNotation.Document.Plan
import AxisNotation.Engine
import AxisNotation.Resolution.Walk
import AxisNotation.Scalar.Half
import AxisNotation.Step.Journal
import AxisNotation.Tensor.Buffer
import AxisNotation.Tensor.Operations
import AxisNotation.Proofs.Scanning
import AxisNotation.Proofs.Grammar
import AxisNotation.Proofs.Display
import AxisNotation.Proofs.Segmentation
import AxisNotation.Proofs.Offset
import AxisNotation.Proofs.Tensor
import AxisNotation.Proofs.Reduction
import AxisNotation.Proofs.Words
import AxisNotation.Proofs.Loop
import AxisNotation.Proofs.Scatter
import AxisNotation.Proofs.Layout
import AxisNotation.Proofs.Validity
import AxisNotation.Proofs.Rules
import AxisNotation.Proofs.Placement
import AxisNotation.Proofs.Resolution.Facing
import AxisNotation.Proofs.Resolution.Binding
import AxisNotation.Proofs.Resolution.Matching
import AxisNotation.Proofs.Resolution.Exact
import AxisNotation.Proofs.Resolution.Walk
import AxisNotation.Proofs.Resolution.Failure
import AxisNotation.Proofs.Resolution.Magnitude
import AxisNotation.Proofs.Resolution.Overflow
import AxisNotation.Proofs.Resolution.Refusal
import AxisNotation.Proofs.Resolution.Constraints
import AxisNotation.Proofs.Draft
import AxisNotation.Proofs.Planning
import AxisNotation.Proofs.Safety
import AxisNotation.Proofs.Cache
import AxisNotation.Proofs.Engine
import AxisNotation.Proofs.Rearrange
import AxisNotation.Proofs.Repeat
import AxisNotation.Proofs.Reduce
import AxisNotation.Proofs.Operation
import AxisNotation.Proofs.Session
import AxisNotation.Proofs.Spans
import AxisNotation.Proofs.Sizing
import AxisNotation.Proofs.Agreement
import AxisNotation.Proofs.Contract
import AxisNotation.Proofs.Buffer
import AxisNotation.Proofs.Memory
import AxisNotation.Proofs.Odometer
import AxisNotation.Proofs.Permutation
import AxisNotation.Proofs.AxisReduction
import AxisNotation.Proofs.Exactness
import AxisNotation.Proofs.Execution
import AxisNotation.Proofs.Composition
import AxisNotation.Proofs.Restoration
import AxisNotation.Proofs.Relabelling
import AxisNotation.Proofs.Spelling
import AxisNotation.Proofs.Ellipsis
import AxisNotation.Proofs.Shortcut
import AxisNotation.Proofs.Resemblance
import AxisNotation.Proofs.Renaming.Terms
import AxisNotation.Proofs.Renaming.Solver
import AxisNotation.Proofs.Renaming.Plans
import AxisNotation.Proofs.Nesting
import AxisNotation.Proofs.NormalForm
import AxisNotation.Proofs.Journal
import AxisNotation.Proofs.ForeignSizes
