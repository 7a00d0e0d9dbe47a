import LiveRange.Dataflow.RoundRobin

/-! # Solving by a worklist

`Problem.worklist` keeps a queue of nodes that are due for a visit.  At first all nodes
are due, from the last to the first.  A visit that changes a value of its node makes the
node's predecessors due, at the end of the queue, unless they are due already.  The run
ends when no node is due; its steps are the visits.

* `Problem.predecessors` — the predecessors of every node;
* `Worklist` — the queue, with a flag for each node that says whether it is in the queue;
* `Problem.step` — one visit to the first node of the queue. -/

namespace LiveRange.Dataflow

universe u

variable {n : Nat} {α : Type u}

/-- A solver's progress and the nodes that are due for a visit. -/
structure Worklist (n : Nat) (α : Type u) where
  progress : Progress n α
  /-- The nodes that are due, the first one next. -/
  queue : List (Fin n)
  /-- Whether each node is due. -/
  queued : Vector Bool n

namespace Worklist

/-- The worklist on which all nodes are due, from the last to the first. -/
def start (seed : Tables n α) : Worklist n α :=
  ⟨⟨seed, #[]⟩, backward n, .replicate n true⟩

def enqueue (w : Worklist n α) (i : Fin n) : Worklist n α :=
  if w.queued.get i then w
  else { w with queue := w.queue ++ [i], queued := w.queued.set i true i.isLt }

end Worklist

namespace Problem

/-- The edges of a problem, by increasing source. -/
def edges (p : Problem n α) : List (Fin n × Nat) :=
  (List.finRange n).flatMap fun i => (p.succs i).map (i, ·)

/-- The predecessors of every node, in increasing order, once for each edge.  The first
edge that leads to no node is reported. -/
def predecessors (p : Problem n α) : Except OutOfRange (Vector (List (Fin n)) n) :=
  p.edges.foldlM (fun preds (i, s) =>
    if h : s < n then .ok (preds.set s (preds[s] ++ [i])) else .error ⟨s, n⟩) (.replicate n [])

variable [DecidableEq α]

/-- Visits the node `i`, which was taken from the queue and left `rest` there.  If the
visit changes a value, the node's predecessors become due. -/
def step (p : Problem n α) (preds : Vector (List (Fin n)) n) (w : Worklist n α) (i : Fin n)
    (rest : List (Fin n)) : Except OutOfRange (Worklist n α) := do
  let (progress, changed) ← p.visit w.progress i
  let w : Worklist n α := ⟨progress, rest, w.queued.set i false i.isLt⟩
  return if changed then (preds.get i).foldl Worklist.enqueue w else w

/-- Visits nodes until none is due, with at most `fuel` visits. -/
def drain (p : Problem n α) (preds : Vector (List (Fin n)) n) (fuel : Nat) (w : Worklist n α) :
    Run n α :=
  match w.queue, fuel with
  | [], _ => w.progress.stop w.progress.visits.size .settled
  | _ :: _, 0 => w.progress.stop w.progress.visits.size .outOfFuel
  | i :: rest, fuel + 1 =>
    match p.step preds w i rest with
    | .ok w => p.drain preds fuel w
    | .error e => w.progress.stop w.progress.visits.size (.outOfRange e)

def worklist (p : Problem n α) (fuel : Nat) (seed : Tables n α) : Run n α :=
  match p.predecessors with
  | .ok preds => p.drain preds fuel (.start seed)
  | .error e => Progress.stop ⟨seed, #[]⟩ 0 (.outOfRange e)

end Problem

end LiveRange.Dataflow
