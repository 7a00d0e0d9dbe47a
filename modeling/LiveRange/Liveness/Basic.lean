import LiveRange.Dataflow.Solver
import LiveRange.Error
import LiveRange.Numbering

/-! # Liveness tables

A temporary is live at a point if its value there may still be read.  A `Liveness` holds,
for each node of one flow graph, the temporaries live before and after the node.

* `Liveness.liveIn`, `Liveness.liveOut` — the two sets of a node;
* `Liveness.isLiveOut` — whether one temporary is live after a node;
* `Liveness.liveOutTemps` — the temporaries live after a node by first mention in the body;
* `Liveness.agrees` — whether two tables have the same nodes and the same sets.

A handle that is no node of the flow graph the table was made for has no answer. -/

namespace LiveRange

/-- The live temporaries around one node, as numbers. -/
structure LiveRow where
  node : NodeId
  liveIn : BitSet
  liveOut : BitSet
deriving DecidableEq

/-- The live temporaries around each node of one flow graph. -/
structure Liveness where
  /-- The temporaries the flow graph mentions. -/
  numbering : Numbering
  /-- One row for each node, in the order of the instructions. -/
  rows : List LiveRow
  solver : Dataflow.Solver
  steps : Nat
deriving DecidableEq

namespace Liveness

def row? (live : Liveness) (node : NodeId) : Option LiveRow :=
  live.rows.find? fun row => row.node = node

def row (live : Liveness) (node : NodeId) : Except AnalysisError LiveRow :=
  match live.row? node with
  | some row => .ok row
  | none => .error (.nodeNotFound node)

def tempSet (live : Liveness) (s : BitSet) : TempSet := .ofList (live.numbering.decode s)

/-- The temporaries live immediately before a node. -/
def liveIn (live : Liveness) (node : NodeId) : Except AnalysisError TempSet :=
  (fun row => live.tempSet row.liveIn) <$> live.row node

/-- The temporaries live immediately after a node. -/
def liveOut (live : Liveness) (node : NodeId) : Except AnalysisError TempSet :=
  (fun row => live.tempSet row.liveOut) <$> live.row node

/-- The temporaries live immediately after a node, by first mention in the body. -/
def liveOutTemps (live : Liveness) (node : NodeId) : Except AnalysisError (List Temp) :=
  (fun row => live.numbering.decode row.liveOut) <$> live.row node

/-- Whether a temporary is live immediately after a node. -/
def isLiveOut (live : Liveness) (node : NodeId) (t : Temp) : Except AnalysisError Bool :=
  (fun row => live.numbering.holds row.liveOut t) <$> live.row node

def contents (live : Liveness) : List (NodeId × TempSet × TempSet) :=
  live.rows.map fun row => (row.node, live.tempSet row.liveIn, live.tempSet row.liveOut)

/-- Whether two tables have the same nodes with the same sets.  How the sets were computed
does not matter. -/
def agrees (a b : Liveness) : Bool := a.contents = b.contents

end Liveness

end LiveRange
