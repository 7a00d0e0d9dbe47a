import Mathlib.Data.List.Induction
import LiveRange.Proofs.Graph.Keyed
import LiveRange.Proofs.Graph.Lineage
import LiveRange.Proofs.Graph.Ownership

/-! # Keys find their nodes, whatever happens

`KeyedGraph.kind` makes keyed graphs the members of a family.  Whatever is asked of them, be it
refused or not, the index of each leads from every key to the live node that carries it, and
nowhere else (`run_keyed`).

The index is kept by every action and by copying (`Effect.indexed`).  A handle that was given out
keeps its key until an action removes its node (`Effect.get?_eq_some`).  That a new node gets a
handle which nobody was given before is known of plain graphs, and the graphs in a family of
keyed ones are those of a family of plain ones (`exists_run_graphs`). -/

namespace LiveRange.KeyedGraph

variable {κ : Type}

inductive Action (κ : Type) where
  | newNode (key : κ)
  | nodeFor (key : κ)
  | addEdge (a b : NodeId)
  | removeEdge (a b : NodeId)
  | removeNode (id : NodeId)

inductive Refusal (κ : Type) where
  | duplicate (e : DuplicateKey κ)
  | misuse (e : Misuse)

variable [Ord κ]

def act (g : KeyedGraph κ) : Action κ → Except (Refusal κ) (Graph.Answer κ × KeyedGraph κ)
  | .newNode key => (g.newNode key |>.map fun (id, g') => (.node id, g')).mapError .duplicate
  | .nodeFor key => .ok (.node (g.nodeFor key).1, (g.nodeFor key).2)
  | .addEdge a b => (g.addEdge a b |>.map (.done, ·)).mapError .misuse
  | .removeEdge a b => (g.removeEdge a b |>.map (.done, ·)).mapError .misuse
  | .removeNode id => (g.removeNode id |>.map fun (key, g') => (.payload key, g')).mapError .misuse

def kind : Kind (KeyedGraph κ) (Action κ) (Graph.Answer κ) (Refusal κ) := ⟨empty, clone, act⟩

/-- All that can come of an action on a keyed graph. -/
inductive Effect (g : KeyedGraph κ) :
    Action κ → Except (Refusal κ) (Graph.Answer κ) → KeyedGraph κ → Prop where
  | found {key : κ} {id : NodeId} (h : g.lookup key = some id) :
    Effect g (.nodeFor key) (.ok (.node id)) g
  | pushed {action : Action κ} {key : κ} (h : g.lookup key = none) :
    Effect g action (.ok (.node (g.push key).1)) (g.push key).2
  | linked {a b : NodeId} (ha : g.graph.contains a = true) (hb : g.graph.contains b = true) :
    Effect g (.addEdge a b) (.ok .done) ⟨g.graph.link a b, g.index⟩
  | unlinked {a b : NodeId} (ha : g.graph.contains a = true) (hb : g.graph.contains b = true) :
    Effect g (.removeEdge a b) (.ok .done) ⟨g.graph.unlink a b, g.index⟩
  | removed {id : NodeId} {node : Node κ} (h : g.graph.node? id = some node) :
    Effect g (.removeNode id) (.ok (.payload node.payload))
      ⟨g.graph.without id, g.index.erase node.payload⟩
  | refused {action : Action κ} {refusal : Refusal κ} : Effect g action (.error refusal) g

theorem effect_outcome (g : KeyedGraph κ) (action : Action κ) :
    Effect g action (kind.outcome g action).1 (kind.outcome g action).2 := by
  have h_ok : ∀ {answer g'}, g.act action = .ok (answer, g') → Effect g action (.ok answer) g' →
      Effect g action (kind.outcome g action).1 (kind.outcome g action).2 := by
    intro answer g' h h_effect
    rw [Kind.outcome_of_ok (K := kind) h]
    exact h_effect
  have h_error : ∀ {refusal}, g.act action = .error refusal →
      Effect g action (kind.outcome g action).1 (kind.outcome g action).2 := by
    intro refusal h
    rw [Kind.outcome_of_error (K := kind) h]
    exact .refused
  cases action with
  | newNode key =>
    cases h_key : g.lookup key with
    | some id => exact h_error (by rw [act, newNode, h_key]; rfl)
    | none => exact h_ok (by rw [act, newNode, h_key]; rfl) (.pushed h_key)
  | nodeFor key =>
    cases h_key : g.lookup key with
    | some id => exact h_ok (by rw [act, nodeFor_of_lookup h_key]) (.found h_key)
    | none => exact h_ok (by rw [act, nodeFor_of_none h_key]) (.pushed h_key)
  | addEdge a b =>
    cases h_graph : g.graph.addEdge a b with
    | error misuse => exact h_error (by rw [act, addEdge, h_graph]; rfl)
    | ok graph =>
      have h_act : g.graph.act (.addEdge a b) = .ok (.done, graph) := by
        rw [Graph.act, h_graph]
        rfl
      cases Graph.effect_of_act h_act with
      | addEdge ha hb => exact h_ok (by rw [act, addEdge, h_graph]; rfl) (.linked ha hb)
  | removeEdge a b =>
    cases h_graph : g.graph.removeEdge a b with
    | error misuse => exact h_error (by rw [act, removeEdge, h_graph]; rfl)
    | ok graph =>
      have h_act : g.graph.act (.removeEdge a b) = .ok (.done, graph) := by
        rw [Graph.act, h_graph]
        rfl
      cases Graph.effect_of_act h_act with
      | removeEdge ha hb => exact h_ok (by rw [act, removeEdge, h_graph]; rfl) (.unlinked ha hb)
  | removeNode id =>
    cases h_graph : g.graph.removeNode id with
    | error misuse => exact h_error (by rw [act, removeNode, h_graph]; rfl)
    | ok result =>
      obtain ⟨key, graph⟩ := result
      have h_act : g.graph.act (.removeNode id) = .ok (.payload key, graph) := by
        rw [Graph.act, h_graph]
        rfl
      cases Graph.effect_of_act h_act with
      | removeNode h_node => exact h_ok (by rw [act, removeNode, h_graph]; rfl) (.removed h_node)

variable {g g' : KeyedGraph κ} {action : Action κ} {answer : Except (Refusal κ) (Graph.Answer κ)}

/-! ## The index -/

theorem Effect.indexed [Std.TransOrd κ] [Std.LawfulEqOrd κ] (h : Effect g action answer g')
    (h_indexed : g.Indexed) : g'.Indexed := by
  cases h with
  | found | refused => exact h_indexed
  | pushed h_none => exact h_indexed.push h_none
  | linked => exact h_indexed.of_labels (Graph.labels_link _ _ _)
  | unlinked => exact h_indexed.of_labels (Graph.labels_unlink _ _ _)
  | removed h_node => exact h_indexed.erase h_node

theorem Indexed.clone (h : g.Indexed) (tag : GraphTag) : (g.clone tag).Indexed :=
  ⟨h.lookup_iff⟩

theorem Indexed.lookup_eq_some (h : g.Indexed) {key : κ} {id : NodeId} :
    g.lookup key = some id ↔ g.graph.get? id = some key := by
  rw [h.lookup_iff, Graph.mem_labels, Graph.get?, Option.map_eq_some_iff]

theorem run_indexed [Std.TransOrd κ] [Std.LawfulEqOrd κ] (requests : List (Request (Action κ))) :
    ∀ (i : Nat) (g : KeyedGraph κ), (kind.run requests).members[i]? = some g → g.Indexed :=
  Kind.run_line (Q := fun _ g => g.Indexed) indexed_empty (fun _ _ tag h => h.clone tag)
    (fun _ g _ action h => (effect_outcome g action).indexed h) requests

/-! ## Handles that were given out -/

section

variable {id : NodeId}

theorem Effect.mem_issued_iff (h : Effect g action answer g') (h_indexed : g.Indexed) :
    id ∈ g'.graph.issued ↔ answer = .ok (.node id) ∨ id ∈ g.graph.issued := by
  cases h with
  | @found _ found h_key =>
    refine ⟨.inr, fun h_id => ?_⟩
    rcases h_id with h_here | h_old
    · cases h_here
      exact Graph.mem_issued_of_contains (h_indexed.contains h_key)
    · exact h_old
  | refused => simp
  | pushed => simp [push, Graph.issued_newNode, or_comm, eq_comm]
  | linked => simp [Graph.issued_link]
  | unlinked => simp [Graph.issued_unlink]
  | removed => simp [Graph.issued_without]

theorem Effect.mem_issued (h : Effect g action answer g') (h_id : id ∈ g.graph.issued) :
    id ∈ g'.graph.issued := by
  cases h with
  | found | refused => exact h_id
  | pushed =>
    rw [push, Graph.issued_newNode]
    exact List.mem_append_left _ h_id
  | linked => rwa [Graph.issued_link]
  | unlinked => rwa [Graph.issued_unlink]
  | removed => rwa [Graph.issued_without]

/-- A handle that was given out before names what it named, unless the action removed the node. -/
theorem Effect.get?_eq_some (h : Effect g action answer g') (h_id : id ∈ g.graph.issued) {key : κ} :
    g'.graph.get? id = some key ↔
      g.graph.get? id = some key ∧ ¬ (action = .removeNode id ∧ ∃ k, answer = .ok (.payload k)) := by
  rw [Graph.get?_eq_some, Graph.get?_eq_some]
  cases h with
  | found | refused => simp
  | @pushed _ new =>
    have h_old : id ≠ ⟨g.graph.tag, g.graph.slots.size⟩ := by
      rintro rfl
      exact Nat.lt_irrefl _ (Graph.index_lt_of_mem_issued h_id)
    rw [push, Graph.labels_newNode]
    simp [h_old]
  | linked => simp [Graph.labels_link]
  | unlinked => simp [Graph.labels_unlink]
  | removed h_node =>
    rw [Graph.labels_without (Graph.contains_iff.mpr ⟨_, h_node⟩), List.mem_filter]
    simp [eq_comm (a := id)]

end

/-! ## The graphs of a keyed family -/

/-- An action on a keyed graph changes nothing, and then answers with no node but one that was
there, or it is an action on the graph. -/
theorem Effect.graph_eq (h : Effect g action answer g') :
    (g'.graph = g.graph ∧ ∀ id, answer = .ok (.node id) → ∃ key, g.lookup key = some id) ∨
      ∃ plain plainAnswer, Graph.kind.outcome g.graph plain = (plainAnswer, g'.graph) ∧
        ∀ id, answer = .ok (.node id) → ∃ key, plain = .newNode key ∧ plainAnswer = .ok (.node id) := by
  cases h with
  | @found key _ h_key =>
    refine .inl ⟨rfl, fun id h_id => ?_⟩
    cases h_id
    exact ⟨key, h_key⟩
  | refused => exact .inl ⟨rfl, nofun⟩
  | @pushed _ key _ =>
    refine .inr ⟨.newNode key, .ok (.node (g.push key).1), rfl, fun id h_id => ?_⟩
    cases h_id
    exact ⟨key, rfl, rfl⟩
  | linked ha hb => exact .inr ⟨_, _, (Graph.Effect.addEdge ha hb).outcome_eq, nofun⟩
  | unlinked ha hb => exact .inr ⟨_, _, (Graph.Effect.removeEdge ha hb).outcome_eq, nofun⟩
  | removed h_node => exact .inr ⟨_, _, (Graph.Effect.removeNode h_node).outcome_eq, nofun⟩

/-- What an action on a keyed graph asks of the graph.  A key that has a node needs no other. -/
def plain (g : KeyedGraph κ) : Action κ → Option (Graph.Action κ)
  | .newNode key | .nodeFor key => if (g.lookup key).isSome then none else some (.newNode key)
  | .addEdge a b => some (.addEdge a b)
  | .removeEdge a b => some (.removeEdge a b)
  | .removeNode id => some (.removeNode id)

def held : Graph.Held (KeyedGraph κ) (Action κ) κ := ⟨graph, plain⟩

/-- An action does to the graph what it asks of it. -/
theorem graph_act {given : Graph.Answer κ} (h : g.act action = .ok (given, g')) :
    match g.plain action with
    | none => g'.graph = g.graph
    | some asked => ∃ answer, g.graph.act asked = .ok (answer, g'.graph) := by
  cases action with
  | newNode key =>
    cases h_key : g.lookup key with
    | some id =>
      rw [act, newNode, h_key] at h
      cases h
    | none =>
      rw [act, newNode, h_key] at h
      cases h
      rw [plain, h_key]
      exact ⟨_, rfl⟩
  | nodeFor key =>
    cases h_key : g.lookup key with
    | some id =>
      rw [act, nodeFor_of_lookup h_key] at h
      cases h
      rw [plain, h_key]
      rfl
    | none =>
      rw [act, nodeFor_of_none h_key] at h
      cases h
      rw [plain, h_key]
      exact ⟨_, rfl⟩
  | addEdge a b =>
    obtain ⟨_, h_edge, h_result⟩ := map_eq_ok.mp (mapError_eq_ok.mp h)
    obtain ⟨graph, h_graph, rfl⟩ := map_eq_ok.mp h_edge
    cases h_result
    exact ⟨.done, map_eq_ok.mpr ⟨graph, h_graph, rfl⟩⟩
  | removeEdge a b =>
    obtain ⟨_, h_edge, h_result⟩ := map_eq_ok.mp (mapError_eq_ok.mp h)
    obtain ⟨graph, h_graph, rfl⟩ := map_eq_ok.mp h_edge
    cases h_result
    exact ⟨.done, map_eq_ok.mpr ⟨graph, h_graph, rfl⟩⟩
  | removeNode id =>
    obtain ⟨_, h_node, h_result⟩ := map_eq_ok.mp (mapError_eq_ok.mp h)
    obtain ⟨removed, h_graph, rfl⟩ := map_eq_ok.mp h_node
    cases h_result
    exact ⟨.payload removed.1, map_eq_ok.mpr ⟨removed, h_graph, rfl⟩⟩

theorem holds : Graph.Holds (kind : Kind (KeyedGraph κ) _ _ _) held where
  copy _ _ := rfl
  idle h_act h_plain := by
    have h_graph := graph_act h_act
    rwa [show plain _ _ = none from h_plain] at h_graph
  act h_act asked h_plain := by
    have h_graph := graph_act h_act
    rwa [show plain _ _ = some asked from h_plain] at h_graph

/-- The graphs in a family of keyed ones are the members of a family of plain ones, and only
handles that were given out there were given out here. -/
structure Reflects (F : Family (KeyedGraph κ) (Action κ) (Graph.Answer κ) (Refusal κ))
    (F' : Family (Graph κ) (Graph.Action κ) (Graph.Answer κ) Misuse) : Prop where
  supply : F'.supply = F.supply
  members : F'.members = F.members.map KeyedGraph.graph
  answered : ∀ {member : Nat} {action : Action κ} {id : NodeId},
    .acted member action (.ok (.node id)) ∈ F.past → id ∈ Graph.handles F'.past

namespace Reflects

variable {F : Family (KeyedGraph κ) (Action κ) (Graph.Answer κ) (Refusal κ)}
  {F' : Family (Graph κ) (Graph.Action κ) (Graph.Answer κ) Misuse}

theorem getElem? (h : Reflects F F') {i : Nat} (h_g : F.members[i]? = some g) :
    F'.members[i]? = some g.graph := by
  rw [h.members, List.getElem?_map, h_g]
  rfl

theorem enter (h : Reflects F F') {member : GraphTag → KeyedGraph κ} {member' : GraphTag → Graph κ}
    (h_member : ∀ tag, member' tag = (member tag).graph)
    {event : Event (Action κ) (Graph.Answer κ) (Refusal κ)}
    {event' : Event (Graph.Action κ) (Graph.Answer κ) Misuse}
    (h_event : ∀ k action answer, event ≠ .acted k action answer) :
    Reflects (F.enter member event) (F'.enter member' event') := by
  refine ⟨?_, ?_, fun {k action id} h_past => ?_⟩
  · rw [Family.enter, Family.enter, h.supply]
  · rw [Family.enter, Family.enter, h.supply, h.members, h_member, List.map_append]
    rfl
  · rcases List.mem_cons.mp h_past with h_now | h_before
    · exact absurd h_now.symm (h_event _ _ _)
    · exact List.mem_append_right _ (h.answered h_before)

theorem update (h : Reflects F F') {member : Nat}
    {outcome : Except (Refusal κ) (Graph.Answer κ) × KeyedGraph κ}
    {plain : Graph.Action κ} {outcome' : Except Misuse (Graph.Answer κ) × Graph κ}
    (h_graph : outcome'.2 = outcome.2.graph) (h_answer : ∀ id, outcome.1 = .ok (.node id) →
      ∃ key, plain = .newNode key ∧ outcome'.1 = .ok (.node id)) :
    Reflects (F.update member action outcome) (F'.update member plain outcome') := by
  refine ⟨h.supply, ?_, fun {k action id} h_past => ?_⟩
  · rw [Family.update, Family.update, h.members, List.map_set, h_graph]
  · rcases List.mem_cons.mp h_past with h_now | h_before
    · obtain ⟨rfl, rfl, h_node⟩ := Event.acted.inj h_now
      obtain ⟨key, rfl, h_given⟩ := h_answer id h_node.symm
      refine List.mem_append_left _ ?_
      rw [h_given]
      exact List.mem_singleton.mpr rfl
    · exact List.mem_append_right _ (h.answered h_before)

/-- An action that changes no graph need not be reflected. -/
theorem keep (h : Reflects F F') {member : Nat} (h_g : F.members[member]? = some g)
    {outcome : Except (Refusal κ) (Graph.Answer κ) × KeyedGraph κ}
    (h_graph : outcome.2.graph = g.graph)
    (h_answer : ∀ id, outcome.1 = .ok (.node id) → id ∈ Graph.handles F'.past) :
    Reflects (F.update member action outcome) F' := by
  refine ⟨h.supply, ?_, fun {k action id} h_past => ?_⟩
  · obtain ⟨h_lt, h_same⟩ := List.getElem?_eq_some_iff.mp (h.getElem? h_g)
    rw [Family.update, List.map_set, h_graph, ← h.members, ← h_same, List.set_getElem_self]
  · rcases List.mem_cons.mp h_past with h_now | h_before
    · obtain ⟨rfl, rfl, h_node⟩ := Event.acted.inj h_now
      exact h_answer id h_node.symm
    · exact h.answered h_before

end Reflects

theorem exists_run_graphs [Std.TransOrd κ] [Std.LawfulEqOrd κ] (requests : List (Request (Action κ))) :
    ∃ plain, Reflects (kind.run requests) (Graph.kind.run plain) := by
  induction requests using List.reverseRecOn with
  | nil => exact ⟨[], rfl, rfl, fun h => absurd h List.not_mem_nil⟩
  | append_singleton requests request ih =>
    obtain ⟨plain, h⟩ := ih
    rw [Kind.run_concat]
    cases request with
    | make =>
      refine ⟨plain ++ [.make], ?_⟩
      rw [Kind.run_concat]
      exact h.enter (fun _ => rfl) fun _ _ _ h_event => by cases h_event
    | copy source =>
      cases h_source : (kind.run requests).members[source]? with
      | none =>
        refine ⟨plain, ?_⟩
        simpa only [Kind.step, h_source] using h
      | some g =>
        refine ⟨plain ++ [.copy source], ?_⟩
        rw [Kind.run_concat, Kind.step_copy h_source, Kind.step_copy (h.getElem? h_source)]
        exact h.enter (fun _ => rfl) fun _ _ _ h_event => by cases h_event
    | act member action =>
      cases h_member : (kind.run requests).members[member]? with
      | none =>
        refine ⟨plain, ?_⟩
        simpa only [Kind.step, h_member] using h
      | some g =>
        rw [Kind.step_act h_member]
        -- what leaves the graph alone has nothing to reflect, all else is one action on the graph
        rcases (effect_outcome g action).graph_eq with ⟨h_graph, h_old⟩ | ⟨a, answer, h_outcome, h_new⟩
        · refine ⟨plain, h.keep h_member h_graph fun id h_id => ?_⟩
          obtain ⟨key, h_key⟩ := h_old id h_id
          exact Graph.mem_handles_of_contains plain (h.getElem? h_member)
            ((run_indexed requests member g h_member).contains h_key)
        · refine ⟨plain ++ [.act member a], ?_⟩
          rw [Kind.run_concat, Kind.step_act (h.getElem? h_member), h_outcome]
          exact h.update rfl h_new

/-! ## Keys and their nodes -/

/-- What the index of a member says, and what comes of asking for a node. -/
structure Keyed (F : Family (KeyedGraph κ) (Action κ) (Graph.Answer κ) (Refusal κ)) (i : Nat)
    (g : KeyedGraph κ) : Prop where
  lookup_iff : ∀ key id, g.lookup key = some id ↔ g.graph.get? id = some key
  unique : ∀ key id id', g.graph.get? id = some key → g.graph.get? id' = some key → id = id'
  nodeFor_old : ∀ key id, g.graph.get? id = some key → g.nodeFor key = (id, g)
  /-- A key without a node gets a node without edges, whose handle nobody was given before. -/
  nodeFor_new : ∀ key, (∀ id, g.graph.get? id ≠ some key) →
    (∀ member action, .acted member action (.ok (.node (g.nodeFor key).1)) ∉ F.past) ∧
      (g.nodeFor key).2.graph.get? (g.nodeFor key).1 = some key ∧
      (g.nodeFor key).2.graph.adj (g.nodeFor key).1 = .ok []
  newNode_old : ∀ key id, g.graph.get? id = some key →
    g.newNode key = .error ⟨key⟩ ∧ (kind.step F (.act i (.newNode key))).members = F.members
  newNode_new : ∀ key, (∀ id, g.graph.get? id ≠ some key) → g.newNode key = .ok (g.nodeFor key)
  clone_contains : ∀ tag key id, (g.clone tag).lookup key = some id →
    (g.clone tag).graph.contains id = true

theorem lookup_eq_none (h : g.Indexed) {key : κ} (h_new : ∀ id, g.graph.get? id ≠ some key) :
    g.lookup key = none :=
  Option.eq_none_iff_forall_ne_some.mpr fun id h_id => h_new id (h.lookup_eq_some.mp h_id)

theorem node?_push (g : KeyedGraph κ) (key : κ) :
    (g.push key).2.graph.node? (g.push key).1 = some (.isolated key) :=
  Graph.node?_newNode_eq_some.mpr (.inr ⟨rfl, rfl⟩)

theorem run_keyed [Std.TransOrd κ] [Std.LawfulEqOrd κ] (requests : List (Request (Action κ)))
    (i : Nat) (g : KeyedGraph κ) (h_g : (kind.run requests).members[i]? = some g) :
    Keyed (kind.run requests) i g := by
  have h_indexed := run_indexed requests i g h_g
  obtain ⟨plain, h_reflects⟩ := exists_run_graphs requests
  refine
    { lookup_iff := fun _ _ => h_indexed.lookup_eq_some
      unique := fun key id id' h h' => ?_
      nodeFor_old := fun key id h => nodeFor_of_lookup (h_indexed.lookup_eq_some.mpr h)
      nodeFor_new := fun key h_new => ?_
      newNode_old := fun key id h => ?_
      newNode_new := fun key h_new => ?_
      clone_contains := fun tag key id h => (h_indexed.clone tag).contains h }
  · rw [← h_indexed.lookup_eq_some] at h h'
    exact Option.some.inj (h.symm.trans h')
  · rw [nodeFor_of_none (lookup_eq_none h_indexed h_new)]
    refine ⟨fun member action h_past => ?_, ?_, ?_⟩
    · exact (Graph.run_apart plain).next_notMem (h_reflects.getElem? h_g) (h_reflects.answered h_past)
    · rw [Graph.get?, node?_push]
      rfl
    · rw [Graph.adj, Graph.node_eq_ok.mpr (node?_push g key)]
      rfl
  · have h_error : g.newNode key = .error ⟨key⟩ := by
      rw [newNode, h_indexed.lookup_eq_some.mpr h]
    have h_act : kind.act g (.newNode key) = .error (.duplicate ⟨key⟩) := by
      change g.act (.newNode key) = _
      rw [act, h_error]
      rfl
    obtain ⟨h_lt, h_same⟩ := List.getElem?_eq_some_iff.mp h_g
    refine ⟨h_error, ?_⟩
    rw [Kind.step_act h_g, Kind.outcome_of_error h_act, Family.update, ← h_same,
      List.set_getElem_self]
  · have h_none := lookup_eq_none h_indexed h_new
    rw [newNode, h_none, nodeFor_of_none h_none]

/-- A graph and its copy: the copy drops a key and takes it up again, and the graph is asked for
the key a second time. -/
def reuse : List (Request (Action Nat)) :=
  [.make, .act 0 (.newNode 7), .act 0 (.nodeFor 5), .act 0 (.addEdge ⟨⟨0⟩, 0⟩ ⟨⟨0⟩, 1⟩), .copy 0,
    .act 1 (.removeNode ⟨⟨0⟩, 0⟩), .act 1 (.nodeFor 7), .act 0 (.newNode 7)]

theorem run_keyed_reuse :
    ∃ g, (kind.run reuse).members[1]? = some g ∧ g.lookup 7 = some ⟨⟨1⟩, 2⟩ ∧
      Keyed (kind.run reuse) 1 g :=
  ⟨(kind.run reuse).members.get ⟨1, by decide⟩, rfl, rfl, run_keyed reuse 1 _ rfl⟩

end LiveRange.KeyedGraph
