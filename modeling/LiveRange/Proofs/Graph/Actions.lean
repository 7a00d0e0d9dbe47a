import LiveRange.Proofs.Graph.Edges
import LiveRange.Proofs.Graph.Family

/-! # What can be done to a graph

`Graph.kind` makes graphs the members of a family: they start out empty or as copies, and an
`Action` adds or removes a node or an edge.  `Graph.Effect` lists all that can come of an
action.  It is refused exactly if one of its handles names no live node, and otherwise it
makes a node, links or unlinks two nodes, or leaves out a node.  A new node is answered with its
handle, a removed one with its payload (`Graph.Suits`). -/

namespace LiveRange.Graph

variable {P : Type}

inductive Action (P : Type) where
  | newNode (payload : P)
  | addEdge (a b : NodeId)
  | removeEdge (a b : NodeId)
  | removeNode (id : NodeId)

inductive Answer (P : Type) where
  | node (id : NodeId)
  | payload (payload : P)
  | done

/-- The handles of which an action takes it that they name live nodes. -/
def Action.handles : Action P → List NodeId
  | .newNode _ => []
  | .addEdge a b => [a, b]
  | .removeEdge a b => [a, b]
  | .removeNode id => [id]

def act (g : Graph P) : Action P → Except Misuse (Answer P × Graph P)
  | .newNode payload => .ok (.node (g.newNode payload).1, (g.newNode payload).2)
  | .addEdge a b => (Answer.done, ·) <$> g.addEdge a b
  | .removeEdge a b => (Answer.done, ·) <$> g.removeEdge a b
  | .removeNode id => (fun (payload, g') => (.payload payload, g')) <$> g.removeNode id

def kind : Kind (Graph P) (Action P) (Answer P) Misuse := ⟨empty, clone, act⟩

/-- How an action is answered that is not refused, given the live nodes with their payloads.  The
handle of a new node names none of them. -/
inductive Suits (labels : List (NodeId × P)) : Action P → Answer P → Prop where
  | newNode {payload : P} {id : NodeId} (h : id ∉ labels.map Prod.fst) :
    Suits labels (.newNode payload) (.node id)
  | addEdge {a b : NodeId} : Suits labels (.addEdge a b) .done
  | removeEdge {a b : NodeId} : Suits labels (.removeEdge a b) .done
  | removeNode {id : NodeId} {payload : P} (h : (id, payload) ∈ labels) :
    Suits labels (.removeNode id) (.payload payload)

inductive Effect (g : Graph P) : Action P → Except Misuse (Answer P) → Graph P → Prop where
  | newNode (payload : P) :
    Effect g (.newNode payload) (.ok (.node (g.newNode payload).1)) (g.newNode payload).2
  | addEdge {a b : NodeId} (ha : g.contains a = true) (hb : g.contains b = true) :
    Effect g (.addEdge a b) (.ok .done) (g.link a b)
  | removeEdge {a b : NodeId} (ha : g.contains a = true) (hb : g.contains b = true) :
    Effect g (.removeEdge a b) (.ok .done) (g.unlink a b)
  | removeNode {id : NodeId} {node : Node P} (h : g.node? id = some node) :
    Effect g (.removeNode id) (.ok (.payload node.payload)) (g.without id)
  | refused {action : Action P} {misuse : Misuse} {id : NodeId} (h_mem : id ∈ action.handles)
    (h : g.contains id = false) : Effect g action (.error misuse) g

variable {g : Graph P} {a b : NodeId}

theorem addEdge_of_live (ha : g.contains a = true) (hb : g.contains b = true) :
    g.addEdge a b = .ok (g.link a b) := by
  obtain ⟨source, h_source⟩ := contains_iff.mp ha
  obtain ⟨target, h_target⟩ := contains_iff.mp hb
  rw [addEdge, node_eq_ok.mpr h_target, node_eq_ok.mpr h_source]
  rfl

theorem removeEdge_of_live (ha : g.contains a = true) (hb : g.contains b = true) :
    g.removeEdge a b = .ok (g.unlink a b) := by
  obtain ⟨source, h_source⟩ := contains_iff.mp ha
  obtain ⟨target, h_target⟩ := contains_iff.mp hb
  rw [removeEdge, node_eq_ok.mpr h_target, node_eq_ok.mpr h_source]
  rfl

namespace Effect

variable {action : Action P} {answer : Answer P} {g' : Graph P}

theorem act_eq (h : Effect g action (.ok answer) g') : g.act action = .ok (answer, g') := by
  cases h with
  | newNode payload => rfl
  | addEdge ha hb =>
    rw [act, addEdge_of_live ha hb]
    rfl
  | removeEdge ha hb =>
    rw [act, removeEdge_of_live ha hb]
    rfl
  | removeNode h_node =>
    rw [act, removeNode_of_node? h_node]
    rfl

theorem outcome_eq (h : Effect g action (.ok answer) g') :
    kind.outcome g action = (.ok answer, g') :=
  Kind.outcome_of_ok (K := kind) h.act_eq

theorem suits (h : Effect g action (.ok answer) g') : Suits g.labels action answer := by
  cases h with
  | newNode payload =>
    refine .newNode fun h_mem => ?_
    rw [labels_map_fst, mem_nodes, contains, node?_newNode_fresh] at h_mem
    cases h_mem
  | addEdge => exact .addEdge
  | removeEdge => exact .removeEdge
  | removeNode h_node => exact .removeNode (mem_labels.mpr ⟨_, h_node, rfl⟩)

end Effect

theorem effect_outcome (g : Graph P) (action : Action P) :
    Effect g action (kind.outcome g action).1 (kind.outcome g action).2 := by
  have h_ok : ∀ {answer g'}, Effect g action (.ok answer) g' →
      Effect g action (kind.outcome g action).1 (kind.outcome g action).2 := by
    intro answer g' h
    rw [h.outcome_eq]
    exact h
  have h_error : ∀ {misuse id}, g.act action = .error misuse → id ∈ action.handles →
      g.contains id = false → Effect g action (kind.outcome g action).1 (kind.outcome g action).2 := by
    intro misuse id h h_mem h_dead
    rw [Kind.outcome_of_error (K := kind) h]
    exact .refused h_mem h_dead
  cases action with
  | newNode payload => exact h_ok (.newNode payload)
  -- the handles are looked at one after the other, and the first that names no node is refused
  | addEdge a b =>
    cases hb : g.contains b with
    | false => exact h_error (by rw [act, addEdge, node_eq_error hb]; rfl) (by simp [Action.handles]) hb
    | true =>
      cases ha : g.contains a with
      | false =>
        obtain ⟨target, h_target⟩ := contains_iff.mp hb
        exact h_error (by rw [act, addEdge, node_eq_ok.mpr h_target, node_eq_error ha]; rfl)
          (by simp [Action.handles]) ha
      | true => exact h_ok (.addEdge ha hb)
  | removeEdge a b =>
    cases ha : g.contains a with
    | false => exact h_error (by rw [act, removeEdge, node_eq_error ha]; rfl) (by simp [Action.handles]) ha
    | true =>
      cases hb : g.contains b with
      | false =>
        obtain ⟨source, h_source⟩ := contains_iff.mp ha
        exact h_error (by rw [act, removeEdge, node_eq_ok.mpr h_source, node_eq_error hb]; rfl)
          (by simp [Action.handles]) hb
      | true => exact h_ok (.removeEdge ha hb)
  | removeNode id =>
    cases h_live : g.contains id with
    | false =>
      exact h_error (by rw [act, removeNode, node_eq_error h_live]; rfl) (by simp [Action.handles]) h_live
    | true =>
      obtain ⟨node, h_node⟩ := contains_iff.mp h_live
      exact h_ok (.removeNode h_node)

theorem effect_of_act {action : Action P} {answer : Answer P} {g' : Graph P}
    (h : g.act action = .ok (answer, g')) : Effect g action (.ok answer) g' := by
  have h_effect := effect_outcome g action
  rw [Kind.outcome_of_ok (K := kind) h] at h_effect
  exact h_effect

/-- An action is not refused if all its handles name live nodes. -/
theorem exists_act_of_live {action : Action P} (h : ∀ id ∈ action.handles, g.contains id = true) :
    ∃ answer g', g.act action = .ok (answer, g') ∧ Suits g.labels action answer := by
  cases h_act : g.act action with
  | ok result => exact ⟨result.1, result.2, rfl, (effect_of_act h_act).suits⟩
  | error misuse =>
    have h_effect := effect_outcome g action
    rw [Kind.outcome_of_error (K := kind) h_act] at h_effect
    cases h_effect with
    | refused h_mem h_dead => simp [h _ h_mem] at h_dead

end LiveRange.Graph
