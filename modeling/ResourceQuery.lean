import ResourceQuery.Main
import ResourceQuery.Proofs.Calendar.Defaults
import ResourceQuery.Proofs.Calendar.Fronts
import ResourceQuery.Proofs.Calendar.PartialIso
import ResourceQuery.Proofs.Calendar.SuppliedFields
import ResourceQuery.Proofs.CommandLine.Answers
import ResourceQuery.Proofs.Compilation.Acceptance
import ResourceQuery.Proofs.Compilation.Carrying
import ResourceQuery.Proofs.Compilation.Containment
import ResourceQuery.Proofs.Compilation.Lifting
import ResourceQuery.Proofs.Compilation.NormalForms
import ResourceQuery.Proofs.Compilation.Reordering
import ResourceQuery.Proofs.Compilation.Sorting
import ResourceQuery.Proofs.Compilation.Stages
import ResourceQuery.Proofs.Compilation.Unambiguity
import ResourceQuery.Proofs.DocumentQuery.Pipelines
import ResourceQuery.Proofs.Literal.Inference
import ResourceQuery.Proofs.Node.Collapsing
import ResourceQuery.Proofs.Query.Blanks
import ResourceQuery.Proofs.Query.Canonical
import ResourceQuery.Proofs.Query.Composition
import ResourceQuery.Proofs.Query.DepthLimit
import ResourceQuery.Proofs.Query.Embedding
import ResourceQuery.Proofs.Query.ErrorPlaces
import ResourceQuery.Proofs.Query.Reparsing
import ResourceQuery.Proofs.Query.Shorthands
import ResourceQuery.Proofs.Query.Triviality
import ResourceQuery.Proofs.Rendering.RoundTrip
import ResourceQuery.Proofs.Session.Retention
import ResourceQuery.Proofs.Session.Transparency
import ResourceQuery.Proofs.Surface.Extents
import ResourceQuery.Proofs.Text.SinglePass
