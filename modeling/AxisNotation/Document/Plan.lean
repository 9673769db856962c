import AxisNotation.Config
import AxisNotation.Document
import AxisNotation.Plan
import AxisNotation.Shortcut

/-!
# Plans as documents

The stored forms of steps, reductions, shortcuts, resolutions, plans and configurations.
-/

namespace AxisNotation

open Document

/-- The stored form of a step. -/
def Step.toDocument : Step → Document
  | identity => .text "Identity"
  | transpose => .text "Transpose"
  | permute axes => .ofCase "Permute" (.ofNats axes)
  | reshape shape => .ofCase "Reshape" (.ofNats shape)

/-- The step with the given stored form. -/
def Step.ofDocument? (d : Document) : Option Step := do
  match ← d.case? with
  | ("Identity", .null) => some .identity
  | ("Transpose", .null) => some .transpose
  | ("Permute", axes) => axes.nats?.map .permute
  | ("Reshape", shape) => shape.nats?.map .reshape
  | _ => none

/-- The stored form of a list of steps. -/
def Step.listToDocument (steps : List Step) : Document :=
  .list (steps.map Step.toDocument)

/-- The list of steps with the given stored form. -/
def Step.listOfDocument? (d : Document) : Option (List Step) := do
  (← d.list?).mapM Step.ofDocument?

/-- The stored form of a reduction. -/
def Reduction.toDocument : Reduction → Document
  | sum => .text "Sum"
  | mean => .text "Mean"
  | max => .text "Max"
  | min => .text "Min"
  | prod => .text "Prod"

/-- The reduction with the given stored form. -/
def Reduction.ofDocument? : Document → Option Reduction :=
  choice? [("Sum", sum), ("Mean", mean), ("Max", max), ("Min", min), ("Prod", prod)]

/-- The stored form of a shortcut. -/
def Shortcut.toDocument : Shortcut → Document
  | identity => .text "Identity"
  | transpose => .text "Transpose"
  | permute axes => .ofCase "Permute" (.record [("axes", .ofNats axes)])

/-- The shortcut with the given stored form. -/
def Shortcut.ofDocument? (d : Document) : Option Shortcut := do
  match ← d.case? with
  | ("Identity", .null) => some .identity
  | ("Transpose", .null) => some .transpose
  | ("Permute", .record parts) => (part? parts "axes" nats?).map .permute
  | _ => none

/-- The stored form of the sizes of axes, in the order of their names. -/
def Sizes.toDocument (sizes : Sizes) : Document :=
  .record (sizes.toList.map fun (name, size) => (name, .ofNat size))

/-- The sizes with the given stored form. -/
def Sizes.ofDocument? (d : Document) : Option Sizes := do
  let fields ← (← d.record?).mapM fun (name, size) => size.nat?.map (name, ·)
  return .ofList fields

/-- The stored form of a resolution. -/
def Resolution.toDocument (r : Resolution) : Document :=
  .record [("axis_dimensions", Sizes.toDocument r.sizes),
    ("ellipsis_dimensions", .ofNats r.covered), ("output_shape", .ofNats r.outputShape)]

/-- The resolution with the given stored form. -/
def Resolution.ofDocument? (d : Document) : Option Resolution := do
  let parts ← d.parts? ["axis_dimensions", "ellipsis_dimensions", "output_shape"]
  return {
    sizes := ← part? parts "axis_dimensions" Sizes.ofDocument?
    covered := ← part? parts "ellipsis_dimensions" nats?
    outputShape := ← part? parts "output_shape" nats? }

namespace Plan

/-- The stored form of the plan of a rearrangement. -/
def Rearrange.toDocument (p : Rearrange) : Document :=
  .record [("resolved", p.resolution.toDocument), ("operations", Step.listToDocument p.steps)]

/-- The plan of a rearrangement with the given stored form. -/
def Rearrange.ofDocument? (d : Document) : Option Rearrange := do
  let parts ← d.parts? ["resolved", "operations"]
  return {
    resolution := ← part? parts "resolved" Resolution.ofDocument?
    steps := ← part? parts "operations" Step.listOfDocument? }

/-- The stored form of the plan of a reduction. -/
def Reduce.toDocument (p : Reduce) : Document :=
  .record [("resolved", p.resolution.toDocument), ("before", Step.listToDocument p.before),
    ("axes", .ofNats p.axes), ("op", p.reduction.toDocument), ("keep_dims", .bool p.keep),
    ("after", Step.listToDocument p.after), ("output_shape", .ofNats p.outputShape)]

/-- The plan of a reduction with the given stored form. -/
def Reduce.ofDocument? (d : Document) : Option Reduce := do
  let parts ←
    d.parts? ["resolved", "before", "axes", "op", "keep_dims", "after", "output_shape"]
  return {
    resolution := ← part? parts "resolved" Resolution.ofDocument?
    before := ← part? parts "before" Step.listOfDocument?
    axes := ← part? parts "axes" nats?
    reduction := ← part? parts "op" Reduction.ofDocument?
    keep := ← part? parts "keep_dims" bool?
    after := ← part? parts "after" Step.listOfDocument?
    outputShape := ← part? parts "output_shape" nats? }

/-- The stored form of the plan of a repetition. -/
def Repeat.toDocument (p : Repeat) : Document :=
  .record [("resolved", p.resolution.toDocument), ("before", Step.listToDocument p.before),
    ("expand", .ofOption .ofNats p.expanded), ("after", Step.listToDocument p.after)]

/-- The plan of a repetition with the given stored form, in which the shape to expand to may be
missing. -/
def Repeat.ofDocument? (d : Document) : Option Repeat := do
  let parts ← d.parts? ["resolved", "before", "expand", "after"]
  return {
    resolution := ← part? parts "resolved" Resolution.ofDocument?
    before := ← part? parts "before" Step.listOfDocument?
    expanded := ← ((parts.lookup "expand").getD .null).option? nats?
    after := ← part? parts "after" Step.listOfDocument? }

end Plan

/-- The stored form of a configuration. -/
def Config.toDocument (c : Config) : Document :=
  .record [("use_cache", .bool c.useCache), ("cache_capacity", .ofNat c.capacity),
    ("strict_sizes", .bool c.strict)]

/-- The configuration with the given stored form. A missing part is as in the standard one. -/
def Config.ofDocument? (d : Document) : Option Config := do
  let parts ← d.parts? ["use_cache", "cache_capacity", "strict_sizes"]
  return {
    useCache := ← partOr? parts "use_cache" Config.standard.useCache bool?
    capacity := ← partOr? parts "cache_capacity" Config.standard.capacity nat?
    strict := ← partOr? parts "strict_sizes" Config.standard.strict bool? }

end AxisNotation
