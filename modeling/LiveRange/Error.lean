import LiveRange.Name
import LiveRange.Graph.NodeId

/-! # Why an analysis has no answer

`AnalysisError` lists the reasons, and `AnalysisError.message` words them. -/

namespace LiveRange

inductive AnalysisError where
  /-- The instruction at `position` jumps to a label that the body does not define. -/
  | undefinedLabel (label : Label) (position : Nat)
  /-- Two instructions define one label. -/
  | duplicateLabel (label : Label) (first second : Nat)
  /-- The handle names no node of the graph that was asked. -/
  | nodeNotFound (node : NodeId)
  /-- The temporary is mentioned nowhere and is no machine register. -/
  | tempNotFound (temp : Temp)
deriving DecidableEq

def AnalysisError.message : AnalysisError → String
  | .undefinedLabel label position =>
    "instruction " ++ toString position ++ " jumps to `" ++ label.name ++
      "`, which is not defined in this body"
  | .duplicateLabel label first second =>
    "label `" ++ label.name ++ "` is defined at instruction " ++ toString first ++
      " and again at " ++ toString second
  | .nodeNotFound node => "node " ++ node.text ++ " does not belong to this graph"
  | .tempNotFound temp =>
    "temporary `" ++ temp.name ++ "` has no node in the interference graph"

end LiveRange
