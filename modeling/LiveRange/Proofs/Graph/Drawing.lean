import LiveRange.Proofs.Graph.Lineage
import LiveRange.Proofs.Graph.Removal

/-! # Graphs and their drawings

A `Drawing` is a graph on paper: a list of nodes, and one list of edges without duplicates.
`drawings` draws what happens to a family of graphs.  A node is put at the end of the list
under the handle it was given, an edge is put at the end unless it is there, an edge or a node
is struck out, the latter with every edge that touches it, and a copied graph gets a copy of
the drawing.

Whatever happens, each graph answers as its drawing does, with its lineage beside its slots
(`run_shows`). -/

namespace LiveRange.Graph

variable {P : Type}

structure Drawing (P : Type) where
  labels : List (NodeId × P) := []
  edges : List (NodeId × NodeId) := []

namespace Drawing

def nodes (d : Drawing P) : List NodeId := d.labels.map Prod.fst

def targets (d : Drawing P) (a : NodeId) : List NodeId :=
  (d.edges.filter (·.1 = a)).map Prod.snd

def sources (d : Drawing P) (b : NodeId) : List NodeId :=
  (d.edges.filter (·.2 = b)).map Prod.fst

/-- The drawing after an action.  Of the answer only the handle of a new node is used; an
action that names a node which is not drawn changes nothing. -/
def after (d : Drawing P) (action : Action P) (answer : Except Misuse (Answer P)) : Drawing P :=
  if ∀ id ∈ action.handles, id ∈ d.nodes then
    match action, answer with
    | .newNode payload, .ok (.node id) => { d with labels := d.labels ++ [(id, payload)] }
    | .newNode _, _ => d
    | .addEdge a b, _ => { d with edges := draw d.edges (a, b) }
    | .removeEdge a b, _ => { d with edges := d.edges.filter (· ≠ (a, b)) }
    | .removeNode id, _ =>
      ⟨d.labels.filter (·.1 ≠ id), d.edges.filter fun e => e.1 ≠ id ∧ e.2 ≠ id⟩
  else d

end Drawing

/-- The drawings of the members of a family. -/
def drawings : List (Event (Action P) (Answer P) Misuse) → List (Drawing P)
  | [] => []
  | .made _ :: past => drawings past ++ [{}]
  | .copied source _ :: past => drawings past ++ (drawings past)[source]?.toList
  | .acted member action answer :: past => (drawings past).modify member (·.after action answer)

/-! ## What drawings stand for -/

/-- A drawing shows the live nodes of a graph, and the edges that the graph stores. -/
structure Draws (g : Graph P) (d : Drawing P) : Prop where
  labels : g.labels = d.labels
  edges : g.HasEdges d.edges

namespace Draws

variable {g : Graph P} {d : Drawing P}

theorem nodes_eq (h : g.Draws d) : g.nodes = d.nodes := by
  rw [← labels_map_fst, h.labels, Drawing.nodes]

theorem contains_iff (h : g.Draws d) {id : NodeId} : g.contains id = true ↔ id ∈ d.nodes := by
  rw [← mem_nodes, h.nodes_eq]

theorem empty (tag : GraphTag) : (Graph.empty tag : Graph P).Draws {} :=
  ⟨rfl, hasEdges_empty tag⟩

theorem clone (h : g.Draws d) (tag : GraphTag) : (g.clone tag).Draws d :=
  ⟨h.labels, h.edges.nodup, h.edges.live, h.edges.succs, h.edges.preds⟩

theorem outcome (h : g.Draws d) (action : Action P) :
    (kind.outcome g action).2.Draws (d.after action (kind.outcome g action).1) := by
  have h_effect := effect_outcome g action
  generalize kind.outcome g action = outcome at h_effect ⊢
  obtain ⟨answer, g'⟩ := outcome
  simp only [Drawing.after, ← h.contains_iff]
  cases h_effect with
  | newNode payload =>
    have h_labels := labels_newNode g payload
    rw [h.labels] at h_labels
    exact ⟨h_labels, h.edges.newNode payload⟩
  | addEdge ha hb =>
    rw [if_pos (by simp [Action.handles, ha, hb])]
    exact ⟨(labels_link g _ _).trans h.labels, h.edges.link ha hb⟩
  | removeEdge ha hb =>
    rw [if_pos (by simp [Action.handles, ha, hb])]
    exact ⟨(labels_unlink g _ _).trans h.labels, h.edges.unlink _ _⟩
  | removeNode h_node =>
    have h_live := Graph.contains_iff.mpr ⟨_, h_node⟩
    rw [if_pos (by simp [Action.handles, h_live])]
    have h_labels := labels_without h_live
    rw [h.labels] at h_labels
    exact ⟨h_labels, h.edges.without h_live⟩
  | refused h_mem h_dead =>
    rw [if_neg fun h_all => by simp [h_all _ h_mem] at h_dead]
    exact h

end Draws

theorem forall₂_set_modify {α β : Type} {R : α → β → Prop} {xs : List α} {ys : List β}
    (h : List.Forall₂ R xs ys) {i : Nat} {x x' : α} {f : β → β} (h_x : xs[i]? = some x)
    (h_f : ∀ y, R x y → R x' (f y)) : List.Forall₂ R (xs.set i x') (ys.modify i f) := by
  induction h generalizing i with
  | nil => cases h_x
  | cons h_head h_tail ih =>
    cases i with
    | zero =>
      cases h_x
      exact .cons (h_f _ h_head) h_tail
    | succ i => exact .cons h_head (ih h_x)

theorem run_draws (requests : List (Request (Action P))) :
    List.Forall₂ Draws (kind.run requests).members (drawings (kind.run requests).past) := by
  refine Kind.run_induction (I := fun F => List.Forall₂ Draws F.members (drawings F.past))
    .nil ?_ ?_ ?_ requests
  · intro F ih
    exact List.rel_append ih (.cons (.empty _) .nil)
  · intro F source g h_source ih
    obtain ⟨h_lt, h_g⟩ := List.getElem?_eq_some_iff.mp h_source
    have h_lt' := ih.length_eq ▸ h_lt
    have h_draws := ih.get h_lt h_lt'
    rw [List.get_eq_getElem, h_g] at h_draws
    simp only [Family.enter, drawings, List.getElem?_eq_getElem h_lt']
    exact List.rel_append ih (.cons (h_draws.clone _) .nil)
  · intro F member g action h_member ih
    exact forall₂_set_modify ih h_member fun d h_draws => h_draws.outcome action

/-- The stores of every graph that comes about mirror each other. -/
theorem run_hasEdges (requests : List (Request (Action P))) {i : Nat} {g : Graph P}
    (h_g : (kind.run requests).members[i]? = some g) : ∃ edges, g.HasEdges edges := by
  obtain ⟨h_lt, rfl⟩ := List.getElem?_eq_some_iff.mp h_g
  have h_draws := run_draws requests
  exact ⟨_, (h_draws.get h_lt (h_draws.length_eq ▸ h_lt)).edges⟩

/-! ## Answers -/

/-- A graph answers as its drawing does. -/
structure Shows (g : Graph P) (l : Lineage) (d : Drawing P) : Prop where
  agrees : l.Agrees g
  nodes : g.nodes = d.nodes
  get? : ∀ id payload, g.get? id = some payload ↔ (id, payload) ∈ d.labels
  size : g.size = d.nodes.length
  /-- So many nodes are counted as they come and go. -/
  live : l.live = d.nodes.length
  nodup : d.edges.Nodup
  edgeCount : g.edgeCount = d.edges.length
  /-- An action whose handles name live nodes is not refused: a new node is answered with a handle
  that names no other one, a removed node with its payload. -/
  accepts : ∀ action : Action P, (∀ id ∈ action.handles, id ∈ d.nodes) →
    ∃ answer g', g.act action = .ok (answer, g') ∧ Suits d.labels action answer
  /-- To remove a node is to remove its edges one after the other, and then its slot. -/
  removal : ∀ id, g.removeNode id = g.removeEdgewise id
  successors : ∀ a ∈ d.nodes, g.successors a = .ok (d.targets a)
  predecessors : ∀ b ∈ d.nodes, g.predecessors b = .ok (d.sources b)
  adj : ∀ a ∈ d.nodes, g.adj a = .ok (d.targets a ++ d.sources a)
  outDegree : ∀ a ∈ d.nodes, g.outDegree a = .ok (d.targets a).length
  inDegree : ∀ b ∈ d.nodes, g.inDegree b = .ok (d.sources b).length
  degree : ∀ a ∈ d.nodes, g.degree a = .ok (d.targets a ++ d.sources a).length
  goesTo : ∀ a ∈ d.nodes, ∀ b ∈ d.nodes, g.goesTo a b = .ok (decide ((a, b) ∈ d.edges))
  comesFrom : ∀ a ∈ d.nodes, ∀ b ∈ d.nodes, g.comesFrom b a = .ok (decide ((a, b) ∈ d.edges))
  isAdjacent : ∀ a ∈ d.nodes, ∀ b ∈ d.nodes,
    g.isAdjacent a b = .ok (decide ((a, b) ∈ d.edges ∨ (b, a) ∈ d.edges)) ∧
      g.isAdjacent a b = g.isAdjacent b a
  /-- No list of a live node names a node that was removed. -/
  adj_live : ∀ a ids, g.adj a = .ok ids → ∀ b ∈ ids, b ∈ g.nodes

namespace Draws

variable {g : Graph P} {d : Drawing P} {a b : NodeId}

theorem exists_node (h : g.Draws d) (ha : a ∈ d.nodes) :
    ∃ payload, g.node a = .ok ⟨payload, d.targets a, d.sources a⟩ := by
  obtain ⟨node, h_node⟩ := Graph.contains_iff.mp (h.contains_iff.mpr ha)
  refine ⟨node.payload, node_eq_ok.mpr ?_⟩
  rw [h_node, Drawing.targets, Drawing.sources, ← h.edges.succs h_node, ← h.edges.preds h_node]

theorem accepts (h : g.Draws d) (action : Action P) (h_live : ∀ id ∈ action.handles, id ∈ d.nodes) :
    ∃ answer g', g.act action = .ok (answer, g') ∧ Suits d.labels action answer := by
  rw [← h.labels]
  exact exists_act_of_live fun id h_id => h.contains_iff.mpr (h_live id h_id)

theorem size_eq (h : g.Draws d) : g.size = d.nodes.length := by
  rw [← h.nodes_eq, Graph.nodes, List.length_map, Graph.size]

theorem isAdjacent_eq (h : g.Draws d) (ha : a ∈ d.nodes) :
    g.isAdjacent a b = .ok (decide ((a, b) ∈ d.edges ∨ (b, a) ∈ d.edges)) := by
  obtain ⟨payload, h_node⟩ := h.exists_node ha
  rw [Graph.isAdjacent, h_node]
  simp [Drawing.targets, Drawing.sources]

theorem shows (h : g.Draws d) {l : Lineage} (h_covers : Covers l g) : g.Shows l d where
  agrees := h_covers.agrees
  nodes := h.nodes_eq
  get? id payload := by
    rw [← h.labels, mem_labels, Graph.get?, Option.map_eq_some_iff]
  size := h.size_eq
  live := h_covers.live_eq.trans h.size_eq
  nodup := h.edges.nodup
  edgeCount := h.edges.edgeCount_eq
  accepts := h.accepts
  removal id := (h.edges.removeEdgewise_eq id).symm
  successors a ha := by
    obtain ⟨payload, h_node⟩ := h.exists_node ha
    rw [Graph.successors, h_node]
    rfl
  predecessors b hb := by
    obtain ⟨payload, h_node⟩ := h.exists_node hb
    rw [Graph.predecessors, h_node]
    rfl
  adj a ha := by
    obtain ⟨payload, h_node⟩ := h.exists_node ha
    rw [Graph.adj, h_node]
    rfl
  outDegree a ha := by
    obtain ⟨payload, h_node⟩ := h.exists_node ha
    rw [Graph.outDegree, h_node]
    rfl
  inDegree b hb := by
    obtain ⟨payload, h_node⟩ := h.exists_node hb
    rw [Graph.inDegree, h_node]
    rfl
  degree a ha := by
    obtain ⟨payload, h_node⟩ := h.exists_node ha
    rw [Graph.degree, h_node, List.length_append, Nat.add_comm]
    rfl
  goesTo a ha b _ := by
    obtain ⟨payload, h_node⟩ := h.exists_node ha
    rw [Graph.goesTo, h_node]
    simp [Drawing.targets]
  comesFrom a _ b hb := by
    obtain ⟨payload, h_node⟩ := h.exists_node hb
    rw [Graph.comesFrom, h_node]
    simp [Drawing.sources]
  isAdjacent a ha b hb := by
    refine ⟨h.isAdjacent_eq ha, ?_⟩
    rw [h.isAdjacent_eq ha, h.isAdjacent_eq hb]
    simp only [or_comm]
  adj_live a ids h_ids b hb := by
    obtain ⟨node, h_node, rfl⟩ := map_eq_ok.mp h_ids
    have h_node := node_eq_ok.mp h_node
    rw [mem_nodes]
    rcases List.mem_append.mp hb with h_succ | h_pred
    · exact (h.edges.live _ ((h.edges.mem_succs h_node).mp h_succ)).2
    · exact (h.edges.live _ ((h.edges.mem_preds h_node).mp h_pred)).1

end Draws

/-- Whatever happens to a family of graphs, its members answer as the drawings of that do, with the
lineages that come about beside them. -/
theorem run_shows (requests : List (Request (Action P))) :
    ((Traced.kind kind held .start).run requests).map Traced.member = kind.run requests ∧
      List.Forall₂ (fun t d => t.member.Shows t.lineage d)
        ((Traced.kind kind held .start).run requests).members
        (drawings (kind.run requests).past) := by
  have h_members := Traced.run_members (K := kind (P := P)) held requests
  have h_covers : ∀ t ∈ ((Traced.kind kind held .start).run requests).members,
      Covers t.lineage (t.member : Graph P) := by
    intro t h_mem
    obtain ⟨i, h_t⟩ := List.mem_iff_getElem?.mp h_mem
    exact Traced.covers_of_run kind_holds (fun _ => rfl) h_t
  have h_draws := run_draws requests
  rw [← h_members, Family.map, List.forall₂_map_left_iff] at h_draws
  refine ⟨h_members, ?_⟩
  rw [← h_members]
  -- each member is drawn, and has a lineage that covers it
  have h_both := (List.forall₂_and_left _ _).mpr ⟨h_covers, h_draws⟩
  exact h_both.imp fun t d h => h.2.shows h.1

end LiveRange.Graph
