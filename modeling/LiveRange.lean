import LiveRange.Instr.Listing
import LiveRange.Frame
import LiveRange.Graph.Dump
import LiveRange.Graph.Keyed
import LiveRange.Liveness.Dump
import LiveRange.Liveness.Solve
import LiveRange.Interference.Build
import LiveRange.Interference.Dump
import LiveRange.Proofs.Dataflow.LeastSolution
import LiveRange.Proofs.Liveness.Exact
import LiveRange.Proofs.Interference.Edges
import LiveRange.Proofs.Interference.Sharing
import LiveRange.Proofs.Graph.Index
import LiveRange.Proofs.Flow.Shape
import LiveRange.Proofs.Graph.Lineage
import LiveRange.Proofs.Graph.Removal
import LiveRange.Proofs.Interference.Belonging
import LiveRange.Proofs.Interference.HandOver
import LiveRange.Proofs.Dataflow.Fixpoint
import LiveRange.Proofs.Dataflow.Stopping
import LiveRange.Proofs.Dataflow.Forward
import LiveRange.Proofs.Dataflow.Revisits
import LiveRange.Proofs.Flow.Faults
import LiveRange.Proofs.Graph.Refusal
import LiveRange.Proofs.Graph.Queries
import LiveRange.Proofs.Interference.Census
import LiveRange.Proofs.Interference.Scanning
import LiveRange.Proofs.Flow.Closing
import LiveRange.Proofs.Liveness.ReturnSink
import LiveRange.Proofs.Liveness.StepBounds
import LiveRange.Proofs.Instr.Substitution
import LiveRange.Proofs.Dataflow.Turns
import LiveRange.Proofs.Liveness.PlainSets
import LiveRange.Proofs.Dataflow.InPlace
