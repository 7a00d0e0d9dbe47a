import LiveRange.Proofs.Graph.Drawing
import LiveRange.Proofs.Graph.InPlace

/-! # Which handles are refused

A change to a graph looks at its handles one after the other.  It is refused exactly if one of them
names no live node, it reports the first such handle, and it leaves everything as it was
(`Graph.Guards`).  What it says of the handle depends on whether that ever named a node of the graph:
one that was given out along the graph's line of copies (`Named`) was removed since, any other
belongs elsewhere.

This holds of plain and keyed graphs alike, whatever happened to them and to those they were copied
from.  Made in place, with the spans of the lineage to tell its handles, a change does the same
(`Graph.mutations_guarded`).  A lineage does not know how many nodes there are, so it takes every
later position for one of the graph's own.  That does no harm, for there is no handle with such a
position (`Genuine`). -/

namespace LiveRange

variable {G A E P : Type}

/-! ## Handles that were given out -/

/-- A handle was given out along a line: some action on it answered with the handle. -/
def Named (steps : List (Nat × A × Except E (Graph.Answer P))) (id : NodeId) : Prop :=
  ∃ member action, (member, action, .ok (.node id)) ∈ steps

/-- If a handle has the tag of a graph, then some action answered with it.  There is no other way to
come by such a handle. -/
def Genuine (past : List (Event A (Graph.Answer P) E)) (g : Graph P) (id : NodeId) : Prop :=
  id.tag = g.tag → ∃ member action, .acted member action (.ok (.node id)) ∈ past

theorem named_cons {steps : List (Nat × A × Except E (Graph.Answer P))} {member : Nat} {action : A}
    {answer : Except E (Graph.Answer P)} {id : NodeId} :
    Named ((member, action, answer) :: steps) id ↔ answer = .ok (.node id) ∨ Named steps id := by
  constructor
  · rintro ⟨k, action', h_mem⟩
    rcases List.mem_cons.mp h_mem with h_now | h_before
    · cases h_now
      exact .inl rfl
    · exact .inr ⟨k, action', h_before⟩
  · rintro (rfl | ⟨k, action', h_before⟩)
    · exact ⟨member, action, List.mem_cons_self⟩
    · exact ⟨k, action', List.mem_cons_of_mem _ h_before⟩

/-- What is known of a graph from what happened to it and to the others. -/
structure Reached (past : List (Event A (Graph.Answer P) E))
    (steps : List (Nat × A × Except E (Graph.Answer P))) (g : Graph P) : Prop where
  edges : ∃ edges, g.HasEdges edges
  knows_iff : ∀ id, g.knows id = true ↔ Named steps id
  own : ∀ id, Genuine past g id → id.tag = g.tag → id ∈ g.issued

theorem Graph.run_reached (requests : List (Request (Graph.Action P))) {i : Nat} {g : Graph P}
    (h_g : (Graph.kind.run requests).members[i]? = some g) :
    Reached (Graph.kind.run requests).past (line (Graph.kind.run requests).past i) g where
  edges := run_hasEdges requests h_g
  knows_iff := by
    simp only [Graph.knows_iff]
    refine Kind.run_line (Q := fun steps g => ∀ id, id ∈ g.issued ↔ Named steps id) ?_ ?_ ?_
      requests i g h_g
    · exact fun _ _ => iff_of_false nofun nofun
    · exact fun _ _ _ h => h
    · intro steps g member action h id
      rw [named_cons, (effect_outcome g action).mem_issued_iff, h]
  own id h_genuine h_tag := by
    obtain ⟨member, action, h_past⟩ := h_genuine h_tag
    exact (run_apart requests).mem_issued h_g (mem_handles_of_acted requests h_past) h_tag

section

variable {κ : Type} [Ord κ]

theorem KeyedGraph.run_reached [Std.TransOrd κ] [Std.LawfulEqOrd κ]
    (requests : List (Request (KeyedGraph.Action κ))) {i : Nat} {g : KeyedGraph κ}
    (h_g : (KeyedGraph.kind.run requests).members[i]? = some g) :
    Reached (KeyedGraph.kind.run requests).past (line (KeyedGraph.kind.run requests).past i)
      g.graph := by
  obtain ⟨plain, h_reflects⟩ := exists_run_graphs requests
  have h_plain := h_reflects.getElem? h_g
  refine ⟨Graph.run_hasEdges plain h_plain, ?_, fun id h_genuine h_tag => ?_⟩
  · -- an answer may name a node that was there, which the index has found among the live ones
    simp only [Graph.knows_iff]
    refine (Kind.run_line (Q := fun steps (g : KeyedGraph κ) =>
      g.Indexed ∧ ∀ id, id ∈ g.graph.issued ↔ Named steps id) ?_ ?_ ?_ requests i g h_g).2
    · exact fun tag => ⟨indexed_empty tag, fun _ => iff_of_false nofun nofun⟩
    · exact fun _ _ tag h => ⟨h.1.clone tag, h.2⟩
    · intro steps g member action ⟨h_indexed, h_issued⟩
      have h_effect := effect_outcome g action
      refine ⟨h_effect.indexed h_indexed, fun id => ?_⟩
      rw [named_cons, h_effect.mem_issued_iff h_indexed, h_issued]
  · obtain ⟨member, action, h_past⟩ := h_genuine h_tag
    exact (Graph.run_apart plain).mem_issued h_plain (h_reflects.answered h_past) h_tag

end

namespace Graph

/-! ## Refusals -/

/-- How a change to a member treats its handles: `nodes` are the live ones, and `named` tells which
ever named a node. -/
structure Guards (nodes : List NodeId) (named : NodeId → Prop) (wrap : Misuse → E) (m : Mutation)
    (g : G) (outcome : Except E (Answer P) × G) : Prop where
  refused_iff : (∃ e, outcome.1 = .error e) ↔ ∃ id ∈ m.handles, id ∉ nodes
  reported : ∀ id, m.handles.find? (· ∉ nodes) = some id →
    ∃ misuse, outcome = (.error (wrap misuse), g) ∧
      (named id → misuse = .removed id ∧
        misuse.message = "node " ++ id.text ++ " has been removed from this graph") ∧
      (¬ named id → misuse = .foreign id ∧
        misuse.message = "node " ++ id.text ++ " belongs to a different graph")

section

variable {g : Graph P} {id : NodeId}

theorem node_of_notMem (h : id ∉ g.nodes) :
    g.node id = .error (if g.knows id then .removed id else .foreign id) :=
  node_eq_error (Bool.eq_false_iff.mpr (mt mem_nodes.mpr h))

/-- Of two handles that are looked at one after the other, the first without a node is reported. -/
theorem bind_node_of_find? {β : Type} {a b : NodeId} (h : [a, b].find? (· ∉ g.nodes) = some id)
    (next : Node P → Node P → Except Misuse β) :
    (g.node a >>= fun source => g.node b >>= next source) =
      .error (if g.knows id then .removed id else .foreign id) := by
  by_cases ha : a ∈ g.nodes
  · obtain ⟨source, h_source⟩ := contains_iff.mp (mem_nodes.mp ha)
    rw [List.find?_cons_of_neg (by simpa using ha), List.find?_singleton] at h
    by_cases hb : b ∈ g.nodes
    · simp [hb] at h
    · obtain rfl : b = id := by simpa [hb] using h
      rw [node_eq_ok.mpr h_source, node_of_notMem hb]
      rfl
  · rw [List.find?_cons_of_pos (by simpa using ha), Option.some.injEq] at h
    rw [← h, node_of_notMem ha]
    rfl

theorem act_of_find? {m : Mutation} (h : m.handles.find? (· ∉ g.nodes) = some id) :
    g.act m.action = .error (if g.knows id then .removed id else .foreign id) := by
  cases m with
  | addEdge a b => exact map_eq_error _ (bind_node_of_find? h _)
  | removeEdge a b => exact map_eq_error _ (bind_node_of_find? h _)
  | removeNode a =>
    rw [Mutation.handles, List.find?_singleton] at h
    by_cases ha : a ∈ g.nodes
    · simp [ha] at h
    · obtain rfl : a = id := by simpa [ha] using h
      exact map_eq_error _ (bind_eq_error.mpr (.inl (node_of_notMem ha)))

/-- Members whose changes are those of a graph guard the nodes of that graph. -/
theorem Guards.of_act {K : Kind G A (Answer P) E} {member : G} {action : A}
    {m : Mutation} {f : Answer P × Graph P → Answer P × G} {wrap : Misuse → E}
    {named : NodeId → Prop}
    (h_act : K.act member action = ((g.act m.action).map f).mapError wrap)
    (h_named : ∀ id, g.knows id = true ↔ named id) :
    Guards g.nodes named wrap m member (K.outcome member action) := by
  have h_refused : ∀ id, m.handles.find? (· ∉ g.nodes) = some id → K.outcome member action =
      (.error (wrap (if g.knows id then .removed id else .foreign id)), member) := by
    intro id h_first
    rw [act_of_find? h_first] at h_act
    exact Kind.outcome_of_error h_act
  refine ⟨⟨fun h_error => ?_, fun h_dead => ?_⟩, fun id h_first => ?_⟩
  · -- were all handles live, the change would have gone through
    by_contra h_live
    obtain ⟨e, h_error⟩ := h_error
    have h_all : ∀ id ∈ m.handles, g.contains id = true := fun id h_id => by
      by_contra h_dead
      exact h_live ⟨id, h_id, mt mem_nodes.mp h_dead⟩
    obtain ⟨answer, g', h_ok, -⟩ :=
      exists_act_of_live fun id h_id => h_all id (Mutation.mem_handles_action.mp h_id)
    rw [h_ok] at h_act
    rw [Kind.outcome_of_ok h_act] at h_error
    cases h_error
  · obtain ⟨id, h_id, h_dead⟩ := h_dead
    have h_some : (m.handles.find? (· ∉ g.nodes)).isSome = true :=
      List.find?_isSome.mpr ⟨id, h_id, decide_eq_true h_dead⟩
    obtain ⟨first, h_first⟩ := Option.isSome_iff_exists.mp h_some
    exact ⟨_, congrArg Prod.fst (h_refused first h_first)⟩
  · refine ⟨_, h_refused id h_first, fun h => ?_, fun h => ?_⟩
    · rw [if_pos ((h_named id).mpr h)]
      exact ⟨rfl, rfl⟩
    · rw [if_neg (mt (h_named id).mp h)]
      exact ⟨rfl, rfl⟩

end

/-! ## Whatever happened -/

theorem Covers.tells {g : Graph P} {l : Lineage} (h : Covers l g) : Tells l.owns g := fun id h_live => by
  have h_mem := mem_issued_of_contains h_live
  rw [(h.owns_iff.mpr h_mem).1, knows_iff.mpr h_mem]

/-- Every member of a family guards its nodes, and has a lineage with which changes can be made in
place. -/
def Guarded (K : Kind G A (Answer P) E) (held : Held G A P) (action : Mutation → A)
    (wrap : Misuse → E) (perform : (NodeId → Bool) → Mutation → Edit G E (Answer P)) : Prop :=
  ∀ requests i g, (K.run requests).members[i]? = some g →
    ∃ l, ((Traced.kind K held .start).run requests).members[i]? = some ⟨g, l⟩ ∧
      ∀ m, Guards (held.graph g).nodes (Named (line (K.run requests).past i)) wrap m g
          (K.outcome g (action m)) ∧
        ((∀ id ∈ m.handles, Genuine (K.run requests).past (held.graph g) id) →
          (perform l.owns m).attempt g = K.outcome g (action m))

/-- Members that hold graphs are guarded if their changes are those of the graphs, and if they make
them in place as they make them in one step. -/
theorem guarded_of_reached {K : Kind G A (Answer P) E} {held : Held G A P} {action : Mutation → A}
    {wrap : Misuse → E} {perform : (NodeId → Bool) → Mutation → Edit G E (Answer P)}
    {f : G → Answer P × Graph P → Answer P × G} (h_holds : Holds K held)
    (h_make : ∀ tag, held.graph (K.make tag) = Graph.empty tag)
    (h_act : ∀ g m, K.act g (action m) = (((held.graph g).act m.action).map (f g)).mapError wrap)
    (h_attempt : ∀ {g known edges}, (held.graph g).HasEdges edges → Tells known (held.graph g) →
      ∀ m, (∀ id ∈ m.handles, known id = (held.graph g).knows id) →
        (perform known m).attempt g = K.outcome g (action m))
    (h_reached : ∀ requests {i g}, (K.run requests).members[i]? = some g →
      Reached (K.run requests).past (line (K.run requests).past i) (held.graph g)) :
    Guarded K held action wrap perform := by
  intro requests i g h_g
  have h := h_reached requests h_g
  obtain ⟨edges, h_edges⟩ := h.edges
  obtain ⟨l, h_l, h_covers⟩ := Traced.exists_covers h_holds h_make h_g
  refine ⟨l, h_l, fun m => ⟨Guards.of_act (h_act g m) h.knows_iff, fun h_genuine => ?_⟩⟩
  -- the lineage may be wrong about a handle that was never given out, but there is none here
  exact h_attempt h_edges h_covers.tells m fun id h_id =>
    h_covers.owns_eq_knows (h.own id (h_genuine id h_id))

variable {κ : Type} [Ord κ] [Std.TransOrd κ] [Std.LawfulEqOrd κ]

/-- Changes to plain and keyed graphs are refused exactly at handles without a live node, say of the
first such handle whether it ever named a node, and leave no trace. -/
theorem mutations_guarded :
    Guarded (Graph.kind : Kind (Graph P) _ _ _) held Mutation.action id perform ∧
      Guarded (KeyedGraph.kind : Kind (KeyedGraph κ) _ _ _) KeyedGraph.held KeyedGraph.keyedAction
        .misuse KeyedGraph.perform := by
  constructor
  · refine guarded_of_reached (f := fun _ => id) kind_holds (fun _ => rfl) (fun g m => ?_)
      attempt_perform run_reached
    show g.act m.action = ((g.act m.action).map id).mapError id
    cases g.act m.action <;> rfl
  · exact guarded_of_reached KeyedGraph.holds (fun _ => rfl) KeyedGraph.act_keyedAction
      KeyedGraph.attempt_perform KeyedGraph.run_reached

/-- The copy has removed a node that its source still has.  It says so when it is asked for the edge
to that node. -/
theorem mutations_guarded_reuse :
    ∃ g misuse, (KeyedGraph.kind.run KeyedGraph.reuse).members[1]? = some g ∧
      KeyedGraph.kind.outcome g (.removeEdge ⟨⟨0⟩, 1⟩ ⟨⟨0⟩, 0⟩) = (.error (.misuse misuse), g) ∧
      misuse.message = "node 0 has been removed from this graph" := by
  obtain ⟨l, -, h_guards⟩ := (mutations_guarded (P := Nat) (κ := Nat)).2 KeyedGraph.reuse 1 _ rfl
  obtain ⟨misuse, h_outcome, h_named, -⟩ :=
    (h_guards (.removeEdge ⟨⟨0⟩, 1⟩ ⟨⟨0⟩, 0⟩)).1.reported ⟨⟨0⟩, 0⟩ rfl
  -- the line of the copy goes back over two actions of its own to those of its source
  exact ⟨_, misuse, rfl, h_outcome, (h_named ⟨0, .newNode 7, List.mem_of_getElem? (i := 4) rfl⟩).2⟩

end Graph

end LiveRange
