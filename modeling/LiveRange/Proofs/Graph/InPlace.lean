import LiveRange.Proofs.Edit
import LiveRange.Proofs.Graph.Index
import LiveRange.Proofs.Graph.Removal

/-! # Changing a graph in place

The operations on graphs make new graphs, so one that is refused leaves nothing behind.  A program
that works in place has no such luck: it looks at its handles one after the other and changes lists
meanwhile, and what it has changed when it breaks off stays changed (`Edit`).

Here are the changes to edges and nodes as such programs.  Removing an edge strikes it from the list
of the source before the target is looked at, and removing a node is a loop over its edges.  On a
graph whose stores mirror each other they do what the operations do all the same, and where they
are refused nothing is left half done (`Graph.attempt_perform`, `KeyedGraph.attempt_perform`): no
list names a handle that is refused.

The programs are told which handles the graph knows.  They need not be right about all handles, but
only about those they look at. -/

namespace LiveRange

variable {E α : Type}

theorem Kind.outcome_eq_orKeep {G A R : Type} (K : Kind G A R E) (g : G) (action : A) :
    K.outcome g action = Edit.orKeep (K.act g action) g := by
  unfold outcome Edit.orKeep
  cases K.act g action <;> rfl

/-! ## Graphs -/

namespace Graph

open Edit

variable {P : Type} {known : NodeId → Bool} {g g' : Graph P} {edges : List (NodeId × NodeId)}
  {a b id : NodeId}

/-- A change to the edges or nodes that are there. -/
inductive Mutation where
  | addEdge (a b : NodeId)
  | removeEdge (a b : NodeId)
  | removeNode (id : NodeId)

/-- The handles of a change, in the order in which they are looked at. -/
def Mutation.handles : Mutation → List NodeId
  | .addEdge a b => [b, a]
  | .removeEdge a b => [a, b]
  | .removeNode id => [id]

def Mutation.action : Mutation → Action P
  | .addEdge a b => .addEdge a b
  | .removeEdge a b => .removeEdge a b
  | .removeNode id => .removeNode id

theorem Mutation.mem_handles_action {m : Mutation} :
    id ∈ (m.action : Action P).handles ↔ id ∈ m.handles := by
  cases m <;> simp [Mutation.action, Mutation.handles, Action.handles, or_comm]

/-- The node in the slot of a known handle.  A handle that is not known is refused unseen. -/
def look (known : NodeId → Bool) (id : NodeId) : Edit (Graph P) Misuse (Node P) := do
  let g ← get
  if known id then
    match g.slots[id.index]?.bind Slot.node? with
    | some node => return node
    | none => throw (.removed id)
  else throw (.foreign id)

/-- Changes the node at a position, whichever graph made it. -/
def modifyAt (g : Graph P) (i : Nat) (f : Node P → Node P) : Graph P :=
  { g with slots := g.slots.modify i fun slot => { slot with node? := slot.node?.map f } }

def alter (known : NodeId → Bool) (id : NodeId) (f : Node P → Node P) :
    Edit (Graph P) Misuse Unit := do
  let _ ← look known id
  let g ← get
  set (g.modifyAt id.index f)

def insertEdge (known : NodeId → Bool) (a b : NodeId) : Edit (Graph P) Misuse Unit := do
  let _ ← look known b
  let source ← look known a
  if b ∈ source.succs then return
  else
    alter known a fun node => { node with succs := node.succs ++ [b] }
    alter known b fun node => { node with preds := node.preds ++ [a] }

def dropEdge (known : NodeId → Bool) (a b : NodeId) : Edit (Graph P) Misuse Unit := do
  alter known a fun node => { node with succs := node.succs.filter (· ≠ b) }
  alter known b fun node => { node with preds := node.preds.filter (· ≠ a) }

def dropNode (known : NodeId → Bool) (id : NodeId) : Edit (Graph P) Misuse P := do
  let node ← look known id
  node.preds.forM fun a => dropEdge known a id
  let node ← look known id
  node.succs.forM fun b => dropEdge known id b
  let node ← look known id
  let g ← get
  set (g.vacate id)
  return node.payload

/-- A change made in place. -/
def perform (known : NodeId → Bool) : Mutation → Edit (Graph P) Misuse (Answer P)
  | .addEdge a b => do insertEdge known a b; return .done
  | .removeEdge a b => do dropEdge known a b; return .done
  | .removeNode id => return .payload (← dropNode known id)

/-! ### Edges -/

theorem attempt_look (h_known : known id = g.knows id) :
    (look known id).attempt g = (g.node id, g) := by
  rw [look, attempt_bind_of_ok (attempt_get g), h_known]
  cases h_knows : g.knows id with
  | false =>
    -- every live node is known, so this handle has none
    have h_dead : g.contains id = false := by
      rw [Bool.eq_false_iff]
      intro h_live
      rw [knows_iff.mpr (mem_issued_of_contains h_live)] at h_knows
      cases h_knows
    rw [node_eq_error h_dead, h_knows]
    rfl
  | true =>
    rw [if_pos rfl, ← node?_of_mem_issued (knows_iff.mp h_knows), Graph.node]
    cases g.node? id with
    | none => rw [h_knows]; rfl
    | some node => rfl

theorem attempt_look_bind (h_known : known id = g.knows id)
    (next : Node P → Edit (Graph P) Misuse α) :
    (look known id >>= next).attempt g =
      match g.node id with
      | .ok node => (next node).attempt g
      | .error misuse => (.error misuse, g) := by
  rw [attempt_bind, attempt_look h_known]
  cases g.node id <;> rfl

/-- The slot of a handle that was given out has the tag of the handle. -/
theorem modifyAt_of_mem_issued (h : id ∈ g.issued) (f : Node P → Node P) :
    g.modifyAt id.index f = g.modify id f := by
  obtain ⟨slot, h_slot, h_tag⟩ := mem_issued.mp h
  refine congrArg (Graph.mk g.tag) (Array.ext_getElem? fun i => ?_)
  rw [Array.getElem?_modify, Array.getElem?_modify]
  split
  · rename_i h_index
    rw [← h_index, h_slot, Option.map_some, Option.map_some, if_pos h_tag]
  · rfl

theorem attempt_alter_of_node? (h_known : known id = g.knows id) {node : Node P}
    (h : g.node? id = some node) (f : Node P → Node P) :
    (alter known id f).attempt g = (.ok ⟨⟩, g.modify id f) := by
  rw [alter, attempt_look_bind h_known, node_eq_ok.mpr h,
    ← modifyAt_of_mem_issued (mem_issued_of_contains (contains_iff.mpr ⟨node, h⟩))]
  rfl

theorem attempt_alter_of_error (h_known : known id = g.knows id) {misuse : Misuse}
    (h : g.node id = .error misuse) (f : Node P → Node P) :
    (alter known id f).attempt g = (.error misuse, g) := by
  rw [alter, attempt_look_bind h_known, h]

theorem knows_modify (g : Graph P) (a id : NodeId) (f : Node P → Node P) :
    (g.modify a f).knows id = g.knows id := by
  rw [Bool.eq_iff_iff, knows_iff, knows_iff, issued_modify]

theorem exists_node?_modify {node : Node P} (h : g.node? b = some node) (a : NodeId)
    (f : Node P → Node P) : ∃ node', (g.modify a f).node? b = some node' := by
  rw [node?_modify, h]
  exact ⟨_, rfl⟩

theorem attempt_insertEdge (ha : known a = g.knows a) (hb : known b = g.knows b) :
    (insertEdge known a b).attempt g = orKeep ((PUnit.unit, ·) <$> g.addEdge a b) g := by
  rw [insertEdge, attempt_look_bind hb, addEdge]
  cases h_b : g.node b with
  | error misuse => rfl
  | ok target =>
    simp only [attempt_look_bind ha]
    cases h_a : g.node a with
    | error misuse => rfl
    | ok source =>
      have h_source := node_eq_ok.mp h_a
      have h_target := node_eq_ok.mp h_b
      show _ = (Except.ok PUnit.unit, g.link a b)
      simp only [link, h_source, h_target]
      -- the second list is changed in a graph that has the new edge at one end only
      by_cases h_mem : b ∈ source.succs
      · simp only [h_mem, ↓reduceIte]
        rfl
      · simp only [h_mem, ↓reduceIte]
        obtain ⟨_, h_still⟩ := exists_node?_modify h_target a _
        rw [attempt_bind_of_ok (attempt_alter_of_node? ha h_source _)]
        exact attempt_alter_of_node? (hb.trans (knows_modify g a b _).symm) h_still _

/-- Changing a node into itself changes nothing. -/
theorem modify_eq_self {f : Node P → Node P} (h : ∀ node, g.node? id = some node → f node = node) :
    g.modify id f = g := by
  refine congrArg (Graph.mk g.tag) (Array.ext_getElem? fun i => ?_)
  rw [Array.getElem?_modify]
  split
  · rename_i h_index
    subst h_index
    cases h_slot : g.slots[id.index]? with
    | none => rfl
    | some slot =>
      by_cases h_tag : slot.tag = id.tag
      · have h_same : slot.node?.map f = slot.node? := by
          cases h_node : slot.node? with
          | none => rfl
          | some node => exact congrArg some (h node (by simp [node?, h_slot, h_tag, h_node]))
        rw [Option.map_some, if_pos h_tag, h_same]
      · rw [Option.map_some, if_neg h_tag]
  · rfl

theorem attempt_dropEdge_of_live {source target : Node P} (ha : known a = g.knows a)
    (hb : known b = g.knows b) (h_source : g.node? a = some source)
    (h_target : g.node? b = some target) :
    (dropEdge known a b).attempt g = (.ok ⟨⟩, g.unlink a b) := by
  rw [dropEdge, attempt_bind_of_ok (attempt_alter_of_node? ha h_source _)]
  obtain ⟨_, h_still⟩ := exists_node?_modify h_target a _
  exact attempt_alter_of_node? (hb.trans (knows_modify g a b _).symm) h_still _

theorem attempt_dropEdge (h : g.HasEdges edges) (ha : known a = g.knows a)
    (hb : known b = g.knows b) :
    (dropEdge known a b).attempt g = orKeep ((PUnit.unit, ·) <$> g.removeEdge a b) g := by
  rw [removeEdge]
  cases h_a : g.node a with
  | error misuse =>
    rw [dropEdge, attempt_bind_of_error (attempt_alter_of_error ha h_a _)]
    rfl
  | ok source =>
    have h_source := node_eq_ok.mp h_a
    cases h_b : g.node b with
    | ok target => exact attempt_dropEdge_of_live ha hb h_source (node_eq_ok.mp h_b)
    | error misuse =>
      -- the list of the source has been filtered, but no edge leads to a handle without a node
      have h_absent : b ∉ source.succs := by
        intro h_mem
        obtain ⟨target, h_target⟩ := contains_iff.mp (h.live _ ((h.mem_succs h_source).mp h_mem)).2
        rw [node_eq_ok.mpr h_target] at h_b
        cases h_b
      rw [dropEdge, attempt_bind_of_ok (attempt_alter_of_node? ha h_source _), modify_eq_self]
      · exact attempt_alter_of_error hb h_b _
      · intro node h_node
        cases h_source.symm.trans h_node
        have h_succs : source.succs.filter (· ≠ b) = source.succs :=
          List.filter_eq_self.mpr fun x hx => decide_eq_true (ne_of_mem_of_not_mem hx h_absent)
        rw [h_succs]

/-! ### Nodes -/

/-- The live nodes of a graph are known. -/
def Tells (known : NodeId → Bool) (g : Graph P) : Prop :=
  ∀ id, g.contains id = true → known id = g.knows id

theorem Tells.unlink (h : Tells known g) (a b : NodeId) : Tells known (g.unlink a b) := by
  intro id h_live
  rw [contains_congr (labels_unlink g a b)] at h_live
  rw [h id h_live, Bool.eq_iff_iff, knows_iff, knows_iff, issued_unlink]

theorem Tells.attempt_look (h : Tells known g) {node : Node P} (h_node : g.node id = .ok node) :
    (look known id).attempt g = (.ok node, g) := by
  have h_live := contains_iff.mpr ⟨node, node_eq_ok.mp h_node⟩
  rw [Graph.attempt_look (h id h_live), h_node]

/-- Edges that can be removed one after the other can be removed in place. -/
theorem Tells.attempt_forM (h : Tells known g) (edge : NodeId → NodeId × NodeId) {ids : List NodeId}
    (h_loop : ids.foldlM (fun g x => g.removeEdge (edge x).1 (edge x).2) g = .ok g') :
    (ids.forM fun x => dropEdge known (edge x).1 (edge x).2).attempt g = (.ok ⟨⟩, g') ∧
      Tells known g' := by
  induction ids generalizing g with
  | nil =>
    cases h_loop
    exact ⟨rfl, h⟩
  | cons x rest ih =>
    rw [List.foldlM_cons] at h_loop
    obtain ⟨g₁, h_first, h_loop⟩ := bind_eq_ok.mp h_loop
    obtain ⟨source, h_source, h_first⟩ := bind_eq_ok.mp h_first
    obtain ⟨target, h_target, h_first⟩ := bind_eq_ok.mp h_first
    cases h_first
    obtain ⟨h_rest, h_tells⟩ := ih (h.unlink (edge x).1 (edge x).2) h_loop
    have h_source := node_eq_ok.mp h_source
    have h_target := node_eq_ok.mp h_target
    have h_edge := attempt_dropEdge_of_live (h _ (contains_iff.mpr ⟨source, h_source⟩))
      (h _ (contains_iff.mpr ⟨target, h_target⟩)) h_source h_target
    refine ⟨?_, h_tells⟩
    rw [List.forM_eq_forM, List.forM_cons, attempt_bind_of_ok h_edge]
    exact h_rest

theorem attempt_dropNode (h : g.HasEdges edges) (h_tells : Tells known g)
    (h_id : known id = g.knows id) :
    (dropNode known id).attempt g = orKeep (g.removeNode id) g := by
  rw [dropNode]
  cases h_removed : g.removeNode id with
  | error misuse =>
    rcases bind_eq_error.mp h_removed with h_node | ⟨_, _, h_done⟩
    · rw [attempt_look_bind h_id, h_node]
      rfl
    · cases h_done
  | ok result =>
    -- the loops of the program are those by which a node is removed edge by edge
    rw [← h.removeEdgewise_eq] at h_removed
    obtain ⟨node, h_node, h_removed⟩ := bind_eq_ok.mp h_removed
    obtain ⟨g₁, h_loop₁, h_removed⟩ := bind_eq_ok.mp h_removed
    obtain ⟨node₁, h_node₁, h_removed⟩ := bind_eq_ok.mp h_removed
    obtain ⟨g₂, h_loop₂, h_removed⟩ := bind_eq_ok.mp h_removed
    obtain ⟨node₂, h_node₂, h_removed⟩ := bind_eq_ok.mp h_removed
    cases h_removed
    obtain ⟨h_drop₁, h_tells₁⟩ := h_tells.attempt_forM (·, id) h_loop₁
    obtain ⟨h_drop₂, h_tells₂⟩ := h_tells₁.attempt_forM (id, ·) h_loop₂
    rw [attempt_bind_of_ok (h_tells.attempt_look h_node), attempt_bind_of_ok h_drop₁,
      attempt_bind_of_ok (h_tells₁.attempt_look h_node₁), attempt_bind_of_ok h_drop₂,
      attempt_bind_of_ok (h_tells₂.attempt_look h_node₂)]
    rfl

/-- Made in place, a change does what it does in one step.  If it is refused, the graph is left as
it was. -/
theorem attempt_perform (h : g.HasEdges edges) (h_tells : Tells known g) (m : Mutation)
    (h_handles : ∀ id ∈ m.handles, known id = g.knows id) :
    (perform known m).attempt g = kind.outcome g m.action := by
  rw [kind.outcome_eq_orKeep]
  cases m with
  | addEdge a b =>
    simp only [Mutation.handles, List.forall_mem_cons] at h_handles
    rw [perform, attempt_return (attempt_insertEdge h_handles.2.1 h_handles.1)]
    simp only [kind, Mutation.action, act]
    cases g.addEdge a b <;> rfl
  | removeEdge a b =>
    simp only [Mutation.handles, List.forall_mem_cons] at h_handles
    rw [perform, attempt_return (attempt_dropEdge h h_handles.1 h_handles.2.1)]
    simp only [kind, Mutation.action, act]
    cases g.removeEdge a b <;> rfl
  | removeNode id =>
    simp only [Mutation.handles, List.forall_mem_cons] at h_handles
    rw [perform, attempt_return (attempt_dropNode h h_tells h_handles.1)]
    rfl

end Graph

/-! ## Keyed graphs -/

namespace KeyedGraph

open Edit
open LiveRange.Graph (Mutation Tells)

variable {κ : Type} [Ord κ] {known : NodeId → Bool} {g : KeyedGraph κ}
  {edges : List (NodeId × NodeId)}

def keyedAction : Mutation → Action κ
  | .addEdge a b => .addEdge a b
  | .removeEdge a b => .removeEdge a b
  | .removeNode id => .removeNode id

/-- A change to the graph inside a keyed one. -/
def inGraph (edit : Edit (Graph κ) Misuse α) : Edit (KeyedGraph κ) (Refusal κ) α :=
  ExceptT.mk fun g => pure ((edit.attempt g.graph).1.mapError .misuse,
    ⟨(edit.attempt g.graph).2, g.index⟩)

def perform (known : NodeId → Bool) :
    Mutation → Edit (KeyedGraph κ) (Refusal κ) (Graph.Answer κ)
  | .addEdge a b => do inGraph (Graph.insertEdge known a b); return .done
  | .removeEdge a b => do inGraph (Graph.dropEdge known a b); return .done
  | .removeNode id => do
    let key ← inGraph (Graph.dropNode known id)
    let g ← get
    set (⟨g.graph, g.index.erase key⟩ : KeyedGraph κ)
    return .payload key

theorem attempt_inGraph (edit : Edit (Graph κ) Misuse α) (g : KeyedGraph κ) :
    (inGraph edit).attempt g = ((edit.attempt g.graph).1.mapError .misuse,
      ⟨(edit.attempt g.graph).2, g.index⟩) := rfl

/-- The index after an answer: a key whose node was removed is struck out. -/
def reindex (index : Std.TreeMap κ NodeId compare) : Graph.Answer κ → Std.TreeMap κ NodeId compare
  | .payload key => index.erase key
  | _ => index

/-- A change to a keyed graph is one to the graph inside. -/
theorem act_keyedAction (g : KeyedGraph κ) (m : Mutation) :
    g.act (keyedAction m) = ((g.graph.act m.action).map fun result =>
      (result.1, ⟨result.2, reindex g.index result.1⟩)).mapError .misuse := by
  cases m with
  | addEdge a b =>
    simp only [act, keyedAction, addEdge, Graph.act, Mutation.action]
    cases g.graph.addEdge a b <;> rfl
  | removeEdge a b =>
    simp only [act, keyedAction, removeEdge, Graph.act, Mutation.action]
    cases g.graph.removeEdge a b <;> rfl
  | removeNode id =>
    simp only [act, keyedAction, removeNode, Graph.act, Mutation.action]
    cases g.graph.removeNode id <;> rfl

/-- A change to live nodes is not refused. -/
theorem exists_act_of_live {m : Mutation} (h : ∀ id ∈ m.handles, id ∈ g.graph.nodes) :
    ∃ answer g', g.act (keyedAction m) = .ok (answer, g') ∧
      Graph.Suits g.graph.labels m.action answer := by
  obtain ⟨answer, g', h_act, h_suits⟩ := Graph.exists_act_of_live fun id h_id =>
    Graph.mem_nodes.mp (h id (Graph.Mutation.mem_handles_action.mp h_id))
  refine ⟨answer, ⟨g', reindex g.index answer⟩, ?_, h_suits⟩
  rw [act_keyedAction, h_act]
  rfl

theorem attempt_perform (h : g.graph.HasEdges edges) (h_tells : Tells known g.graph) (m : Mutation)
    (h_handles : ∀ id ∈ m.handles, known id = g.graph.knows id) :
    (perform known m).attempt g = kind.outcome g (keyedAction m) := by
  rw [kind.outcome_eq_orKeep]
  simp only [kind, act_keyedAction]
  cases m with
  | addEdge a b =>
    simp only [Mutation.handles, List.forall_mem_cons] at h_handles
    rw [perform, attempt_bind, attempt_inGraph,
      Graph.attempt_insertEdge h_handles.2.1 h_handles.1]
    simp only [Graph.act, Mutation.action]
    cases g.graph.addEdge a b <;> rfl
  | removeEdge a b =>
    simp only [Mutation.handles, List.forall_mem_cons] at h_handles
    rw [perform, attempt_bind, attempt_inGraph,
      Graph.attempt_dropEdge h h_handles.1 h_handles.2.1]
    simp only [Graph.act, Mutation.action]
    cases g.graph.removeEdge a b <;> rfl
  | removeNode id =>
    simp only [Mutation.handles, List.forall_mem_cons] at h_handles
    rw [perform, attempt_bind, attempt_inGraph, Graph.attempt_dropNode h h_tells h_handles.1]
    simp only [Graph.act, Mutation.action]
    cases g.graph.removeNode id <;> rfl

end KeyedGraph

end LiveRange
