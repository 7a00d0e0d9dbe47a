import LiveRange.Flow.Basic
import LiveRange.Instr.Template

/-! # Flow graphs as text

A dump has one line for each node: its position, the temporaries it writes, an arrow (`<=`
for a move), the temporaries it reads, the positions control may go to, and from column
50 the text of the instruction. -/

namespace LiveRange.FlowGraph

def textColumn : Nat := 50

/-- A text filled up with blanks to the column at which the last part of a line starts; a
text that is too long gets one blank. -/
def pad (s : String) : String :=
  s ++ String.ofList (List.replicate (max 1 (textColumn - s.length)) ' ')

def spaced (names : List String) : String := String.join (names.map (· ++ " "))

/-- A node's line without its last part. -/
def describe (id : NodeId) (node : Node Instr) : String :=
  pad <| id.text ++ ": " ++ spaced (node.payload.defs.map Temp.name) ++
    (if node.payload.isMove then "<= " else "<- ") ++
    spaced (node.payload.uses.map Temp.name) ++ "; goto " ++ spaced (node.succs.map NodeId.text)

def dump (flow : FlowGraph) : String :=
  String.join <| flow.graph.entries.map fun (id, node) =>
    describe id node ++ node.payload.text ++ "\n"

end LiveRange.FlowGraph
