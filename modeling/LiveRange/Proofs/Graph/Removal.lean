import LiveRange.Proofs.Graph.Actions

/-! # Removing a node edge by edge

`Graph.removeNode` strikes a node out of all lists at once.  A node can also be removed in steps:
first the edges that enter it, one after the other, then those that still leave it, and last its
slot (`Graph.removeEdgewise`).  An edge from the node to itself is gone after the first steps, and
is not asked for again in the second.

On every graph whose stores mirror each other the two are the same (`HasEdges.removeEdgewise_eq`). -/

namespace LiveRange.Graph

variable {P : Type} {g : Graph P} {edges : List (NodeId × NodeId)} {id : NodeId}

/-- The graph with the slot of a handle emptied.  What other nodes store stays as it is. -/
def vacate (g : Graph P) (id : NodeId) : Graph P :=
  { g with slots := g.slots.modify id.index fun slot => { slot with node? := none } }

def removeEdgewise (g : Graph P) (id : NodeId) : Except Misuse (P × Graph P) := do
  let node ← g.node id
  let g ← node.preds.foldlM (fun g a => g.removeEdge a id) g
  let node ← g.node id
  let g ← node.succs.foldlM (fun g b => g.removeEdge id b) g
  let node ← g.node id
  return (node.payload, g.vacate id)

/-! ## Removing edges one by one -/

def unlinkAll (g : Graph P) (struck : List (NodeId × NodeId)) : Graph P :=
  struck.foldl (fun g e => g.unlink e.1 e.2) g

theorem labels_unlinkAll (struck : List (NodeId × NodeId)) (g : Graph P) :
    (g.unlinkAll struck).labels = g.labels := by
  unfold unlinkAll
  induction struck generalizing g with
  | nil => rfl
  | cons e rest ih => rw [List.foldl_cons, ih, labels_unlink]

theorem HasEdges.unlinkAll (h : g.HasEdges edges) (struck : List (NodeId × NodeId)) :
    (g.unlinkAll struck).HasEdges (edges.filter (· ∉ struck)) := by
  induction struck generalizing g edges with
  | nil => simpa [Graph.unlinkAll] using h
  | cons e rest ih =>
    obtain ⟨a, b⟩ := e
    have h_rest := ih (h.unlink a b)
    rw [List.filter_filter] at h_rest
    simpa [Graph.unlinkAll, not_or, Bool.and_comm] using h_rest

theorem foldlM_removeEdge {struck : List (NodeId × NodeId)}
    (h_live : ∀ e ∈ struck, g.contains e.1 = true ∧ g.contains e.2 = true) :
    struck.foldlM (fun g e => g.removeEdge e.1 e.2) g = .ok (g.unlinkAll struck) := by
  induction struck generalizing g with
  | nil => rfl
  | cons e rest ih =>
    rw [List.forall_mem_cons] at h_live
    rw [List.foldlM_cons, removeEdge_of_live h_live.1.1 h_live.1.2]
    refine ih fun e' he' => ?_
    simp only [contains_congr (labels_unlink g e.1 e.2)]
    exact h_live.2 e' he'

/-- Leaving out a node undoes what was changed in it, and what was changed in others as far as it
is about the node. -/
theorem without_modify (g : Graph P) {a : NodeId} {f : Node P → Node P}
    (h : a = id ∨ ∀ node, (f node).without id = node.without id) :
    (g.modify a f).without id = g.without id := by
  refine congrArg (Graph.mk g.tag) (Array.ext_getElem? fun i => ?_)
  simp only [modify, Array.getElem?_mapIdx, Array.getElem?_modify]
  cases h_slot : g.slots[i]? with
  | none => simp
  | some slot =>
    by_cases h_here : a.index = i ∧ slot.tag = a.tag
    · obtain ⟨h_index, h_tag⟩ := h_here
      rcases h with rfl | h
      · simp [h_index, h_tag]
      · simp [h_index, h_tag, Function.comp_def, h]
    · by_cases h_index : a.index = i
      · have h_tag : ¬ slot.tag = a.tag := fun h_tag => h_here ⟨h_index, h_tag⟩
        simp [h_index, h_tag]
      · simp [h_index]

theorem without_unlink (g : Graph P) {a b : NodeId} (h : a = id ∨ b = id) :
    (g.unlink a b).without id = g.without id := by
  rw [unlink, without_modify, without_modify]
  · refine h.imp_right fun h_b node => ?_
    subst h_b
    simp [Node.without]
  · refine h.symm.imp_right fun h_a node => ?_
    subst h_a
    simp [Node.without]

theorem without_unlinkAll {struck : List (NodeId × NodeId)}
    (h : ∀ e ∈ struck, e.1 = id ∨ e.2 = id) (g : Graph P) :
    (g.unlinkAll struck).without id = g.without id := by
  unfold unlinkAll
  induction struck generalizing g with
  | nil => rfl
  | cons e rest ih =>
    rw [List.forall_mem_cons] at h
    rw [List.foldl_cons, ih h.2, without_unlink g h.1]

/-! ## Removing a node -/

theorem without_eq_self {node : Node P} (h_succs : id ∉ node.succs) (h_preds : id ∉ node.preds) :
    node.without id = node := by
  have h_filter : ∀ {ids : List NodeId}, id ∉ ids → ids.filter (· ≠ id) = ids := fun h =>
    List.filter_eq_self.mpr fun _ hx => decide_eq_true (ne_of_mem_of_not_mem hx h)
  rw [Node.without, h_filter h_succs, h_filter h_preds]

theorem HasEdges.vacate_eq (h : g.HasEdges edges) (h_bare : ∀ e ∈ edges, e.1 ≠ id ∧ e.2 ≠ id) :
    g.vacate id = g.without id := by
  refine congrArg (Graph.mk g.tag) (Array.ext_getElem? fun i => ?_)
  rw [Array.getElem?_mapIdx, Array.getElem?_modify]
  by_cases h_i : i = id.index
  · simp [h_i]
  · rw [if_neg (Ne.symm h_i)]
    cases h_slot : g.slots[i]? with
    | none => rfl
    | some slot =>
      have h_same : slot.node?.map (·.without id) = slot.node? := by
        cases h_node : slot.node? with
        | none => rfl
        | some node =>
          have h_found : g.node? ⟨slot.tag, i⟩ = some node := by simp [node?, h_slot, h_node]
          have h_succs : id ∉ node.succs := fun h_mem =>
            (h_bare _ ((h.mem_succs h_found).mp h_mem)).2 rfl
          have h_preds : id ∉ node.preds := fun h_mem =>
            (h_bare _ ((h.mem_preds h_found).mp h_mem)).1 rfl
          exact congrArg some (without_eq_self h_succs h_preds)
      simp [h_i, h_same]

/-- Removing all edges of one kind at a node, one after the other. -/
theorem HasEdges.strike (h : g.HasEdges edges) (ids : List NodeId) (edge : NodeId → NodeId × NodeId)
    (p : NodeId × NodeId → Prop) [DecidablePred p]
    (h_struck : ∀ e, e ∈ ids.map edge ↔ e ∈ edges ∧ p e) (h_end : ∀ e, p e → e.1 = id ∨ e.2 = id) :
    ∃ g', ids.foldlM (fun g x => g.removeEdge (edge x).1 (edge x).2) g = .ok g' ∧
      g'.labels = g.labels ∧ g'.HasEdges (edges.filter (¬ p ·)) ∧ g'.without id = g.without id := by
  refine ⟨g.unlinkAll (ids.map edge), ?_, labels_unlinkAll _ _, ?_,
    without_unlinkAll (fun e he => h_end e ((h_struck e).mp he).2) g⟩
  · rw [← foldlM_removeEdge fun e he => h.live e ((h_struck e).mp he).1, List.foldlM_map]
  · have h_left : ∀ e ∈ edges, decide (e ∉ ids.map edge) = decide (¬ p e) := fun e he =>
      decide_eq_decide.mpr ((h_struck e).trans (and_iff_right he)).not
    rw [← List.filter_congr h_left]
    exact h.unlinkAll _

theorem HasEdges.mem_entering (h : g.HasEdges edges) {node : Node P} (h_node : g.node? id = some node)
    (e : NodeId × NodeId) : e ∈ node.preds.map (·, id) ↔ e ∈ edges ∧ e.2 = id := by
  simp only [List.mem_map, h.mem_preds h_node]
  constructor
  · rintro ⟨a, h_mem, rfl⟩
    exact ⟨h_mem, rfl⟩
  · rintro ⟨h_mem, rfl⟩
    exact ⟨e.1, h_mem, rfl⟩

theorem HasEdges.mem_leaving (h : g.HasEdges edges) {node : Node P} (h_node : g.node? id = some node)
    (e : NodeId × NodeId) : e ∈ node.succs.map (id, ·) ↔ e ∈ edges ∧ e.1 = id := by
  simp only [List.mem_map, h.mem_succs h_node]
  constructor
  · rintro ⟨b, h_mem, rfl⟩
    exact ⟨h_mem, rfl⟩
  · rintro ⟨h_mem, rfl⟩
    exact ⟨e.2, h_mem, rfl⟩

theorem HasEdges.removeEdgewise_eq (h : g.HasEdges edges) (id : NodeId) :
    g.removeEdgewise id = g.removeNode id := by
  cases h_live : g.contains id with
  | false =>
    rw [removeEdgewise, removeNode, node_eq_error h_live]
    rfl
  | true =>
    obtain ⟨node, h_node⟩ := contains_iff.mp h_live
    have h_label := mem_labels.mpr ⟨node, h_node, rfl⟩
    obtain ⟨g₁, h_loop₁, h_labels₁, h_edges₁, h_without₁⟩ :=
      h.strike node.preds (·, id) (·.2 = id) (h.mem_entering h_node) fun _ => .inr
    obtain ⟨node₁, h_node₁, _⟩ := mem_labels.mp (h_labels₁ ▸ h_label)
    obtain ⟨g₂, h_loop₂, h_labels₂, h_edges₂, h_without₂⟩ :=
      h_edges₁.strike node₁.succs (id, ·) (·.1 = id) (h_edges₁.mem_leaving h_node₁) fun _ => .inl
    obtain ⟨node₂, h_node₂, h_payload⟩ := mem_labels.mp (h_labels₂ ▸ h_labels₁ ▸ h_label)
    have h_bare : g₂.vacate id = g₂.without id := h_edges₂.vacate_eq fun e he => by
      simp only [List.mem_filter, decide_eq_true_eq] at he
      exact ⟨he.2, he.1.2⟩
    have h_steps : g.removeEdgewise id = .ok (node₂.payload, g₂.vacate id) := by
      simp only [removeEdgewise, node_eq_ok.mpr h_node, h_loop₁, node_eq_ok.mpr h_node₁, h_loop₂,
        node_eq_ok.mpr h_node₂, bind, Except.bind, pure, Except.pure]
    rw [h_steps, removeNode_of_node? h_node, h_bare, h_without₂, h_without₁, h_payload]

end LiveRange.Graph
