import Mathlib.Data.List.Nodup
import LiveRange.Graph.Keyed
import LiveRange.Proofs.Fallible

/-! # What the operations on graphs do to their nodes

Two views of a graph, and what the operations do to them:

* `Graph.node?` — the live node a handle names;
* `Graph.entries` — the live nodes with their handles, in the order of creation.  A handle
  stands there at most once, with the node it names (`mem_entries`, `nodup_nodes`).

`Graph.labels` is the second view without the edges; no operation on edges changes it. -/

namespace LiveRange.Graph

variable {P : Type}

/-- The handles of the live nodes with their payloads, in the order of creation. -/
def labels (g : Graph P) : List (NodeId × P) := g.entries.map fun e => (e.1, e.2.payload)

/-! ## The two views -/

theorem mem_entries {g : Graph P} {id : NodeId} {node : Node P} :
    (id, node) ∈ g.entries ↔ g.node? id = some node := by
  unfold entries node?
  simp only [List.mem_filterMap, Prod.exists, List.mem_zipIdx_iff_getElem?, Array.getElem?_toList,
    Option.map_eq_some_iff, Prod.mk.injEq, Option.bind_eq_some_iff]
  constructor
  · intro h_entry
    obtain ⟨slot, i, h_slot, _, h_node, rfl, rfl⟩ := h_entry
    exact ⟨slot, h_slot, by rw [if_pos rfl]; exact h_node⟩
  · intro h_found
    obtain ⟨slot, h_slot, h_node⟩ := h_found
    split at h_node
    · rename_i h_tag
      exact ⟨slot, id.index, h_slot, node, h_node, by rw [h_tag], rfl⟩
    · cases h_node

theorem contains_iff {g : Graph P} {id : NodeId} :
    g.contains id = true ↔ ∃ node, g.node? id = some node :=
  Option.isSome_iff_exists

theorem node_eq_ok {g : Graph P} {id : NodeId} {node : Node P} :
    g.node id = .ok node ↔ g.node? id = some node := by
  unfold Graph.node
  cases g.node? id <;> simp

theorem node_eq_error {g : Graph P} {id : NodeId} (h : g.contains id = false) :
    g.node id = .error (if g.knows id then .removed id else .foreign id) := by
  have h_none : g.node? id = none := Option.isNone_iff_eq_none.mp (by simpa [contains] using h)
  simp only [Graph.node, h_none]

theorem mem_nodes {g : Graph P} {id : NodeId} : id ∈ g.nodes ↔ g.contains id = true := by
  simp only [nodes, List.mem_map, Prod.exists, exists_and_right, exists_eq_right, mem_entries,
    contains_iff]

theorem mem_nodes_of_node? {g : Graph P} {id : NodeId} {node : Node P} (h : g.node? id = some node) :
    id ∈ g.nodes :=
  mem_nodes.mpr (contains_iff.mpr ⟨node, h⟩)

theorem pairwise_nodes (g : Graph P) : g.nodes.Pairwise fun a b => a.index < b.index := by
  have h_slots : g.slots.toList.zipIdx.Pairwise fun a b => a.2 < b.2 := by
    rw [← List.pairwise_map, List.zipIdx_map_snd]
    exact List.pairwise_lt_range'
  rw [nodes, List.pairwise_map, entries]
  -- leaving out empty slots keeps the order of the others
  refine h_slots.filterMap _ ?_
  intro ⟨slot, i⟩ ⟨slot', j⟩ hij e he e' he'
  simp only [Option.map_eq_some_iff] at he he'
  obtain ⟨_, _, rfl⟩ := he
  obtain ⟨_, _, rfl⟩ := he'
  exact hij

theorem nodup_nodes (g : Graph P) : g.nodes.Nodup :=
  (pairwise_nodes g).imp fun h_lt => ne_of_apply_ne NodeId.index (Nat.ne_of_lt h_lt)

theorem labels_map_fst (g : Graph P) : g.labels.map Prod.fst = g.nodes := by
  simp [labels, nodes, Function.comp_def]

theorem mem_labels {g : Graph P} {id : NodeId} {payload : P} :
    (id, payload) ∈ g.labels ↔ ∃ node, g.node? id = some node ∧ node.payload = payload := by
  simp only [labels, List.mem_map, Prod.exists, Prod.mk.injEq, mem_entries]
  constructor
  · intro h_label
    obtain ⟨_, node, h_node, rfl, h_payload⟩ := h_label
    exact ⟨node, h_node, h_payload⟩
  · intro h_found
    obtain ⟨node, h_node, h_payload⟩ := h_found
    exact ⟨id, node, h_node, rfl, h_payload⟩

theorem get?_eq_some {g : Graph P} {id : NodeId} {payload : P} :
    g.get? id = some payload ↔ (id, payload) ∈ g.labels := by
  rw [mem_labels, get?, Option.map_eq_some_iff]

/-! ## Making nodes -/

@[simp] theorem entries_empty (tag : GraphTag) : (empty tag : Graph P).entries = [] := rfl

theorem entries_newNode (g : Graph P) (payload : P) :
    (g.newNode payload).2.entries =
      g.entries ++ [(⟨g.tag, g.slots.size⟩, .isolated payload)] := by
  simp [entries, newNode, List.zipIdx_append]

theorem labels_newNode (g : Graph P) (payload : P) :
    (g.newNode payload).2.labels = g.labels ++ [(⟨g.tag, g.slots.size⟩, payload)] := by
  simp [labels, entries_newNode, Node.isolated]

theorem node?_newNode_of_some {g : Graph P} {id : NodeId} {node : Node P} (payload : P)
    (h : g.node? id = some node) : (g.newNode payload).2.node? id = some node := by
  rw [← mem_entries, entries_newNode]
  exact List.mem_append_left _ (mem_entries.mpr h)

theorem index_lt_size {g : Graph P} {id : NodeId} {node : Node P} (h : g.node? id = some node) :
    id.index < g.slots.size := by
  obtain ⟨slot, h_slot, _⟩ := Option.bind_eq_some_iff.mp h
  exact (Array.getElem?_eq_some_iff.mp h_slot).1

theorem node?_newNode_fresh (g : Graph P) (payload : P) : g.node? (g.newNode payload).1 = none := by
  refine Option.eq_none_iff_forall_ne_some.mpr fun node h => ?_
  exact Nat.lt_irrefl _ (index_lt_size h)

theorem node?_newNode_eq_some {g : Graph P} {payload : P} {id : NodeId} {node : Node P} :
    (g.newNode payload).2.node? id = some node ↔
      g.node? id = some node ∨ id = (g.newNode payload).1 ∧ node = .isolated payload := by
  rw [← mem_entries, entries_newNode, List.mem_append, mem_entries]
  simp [newNode]

/-! ## Changing nodes -/

theorem node?_modify (g : Graph P) (id x : NodeId) (f : Node P → Node P) :
    (g.modify id f).node? x = (g.node? x).map fun node => if x = id then f node else node := by
  unfold node? modify
  simp only [Array.getElem?_modify]
  -- a slot is changed when its position and its tag are those of the handle
  by_cases h_index : id.index = x.index
  · have h_id : x = id ↔ x.tag = id.tag := by
      cases x; cases id
      simp_all
    cases g.slots[x.index]? with
    | none => simp [h_index]
    | some slot =>
      by_cases h_own : slot.tag = x.tag
      · by_cases h_tag : x.tag = id.tag
        · simp [h_index, h_own, h_tag, h_id]
        · simp [h_index, h_own, h_tag, h_id]
      · by_cases h_tag : slot.tag = id.tag
        · simp [h_index, h_tag, h_tag ▸ h_own]
        · simp [h_index, h_own, h_tag]
  · have h_id : x ≠ id := fun h => h_index (h ▸ rfl)
    simp [h_index, h_id]

theorem zipIdx_toList_modify {α : Type} (xs : Array α) (i : Nat) (f : α → α) :
    (xs.modify i f).toList.zipIdx =
      xs.toList.zipIdx.map fun e => (if e.2 = i then f e.1 else e.1, e.2) := by
  apply List.ext_getElem?
  intro j
  simp only [List.getElem?_map, List.getElem?_zipIdx, Array.getElem?_toList, Array.getElem?_modify,
    Nat.zero_add, Option.map_map, eq_comm (a := i)]
  by_cases h : j = i
  · simp [h, Function.comp_def]
  · simp [h, Function.comp_def]

theorem entries_modify (g : Graph P) (id : NodeId) (f : Node P → Node P) :
    (g.modify id f).entries = g.entries.map fun e => (e.1, if e.1 = id then f e.2 else e.2) := by
  unfold entries modify
  rw [zipIdx_toList_modify, List.filterMap_map, List.map_filterMap]
  refine List.filterMap_congr fun e _ => ?_
  obtain ⟨slot, i⟩ := e
  by_cases h_id : (⟨slot.tag, i⟩ : NodeId) = id
  · subst h_id
    simp [Function.comp_def]
  · have h_other : i = id.index → ¬ slot.tag = id.tag := by
      intro h_index h_tag
      subst h_index
      exact h_id (by rw [h_tag])
    by_cases h_index : i = id.index
    · simp [h_id, h_other h_index, Function.comp_def]
    · simp [h_id, h_index, Function.comp_def]

theorem labels_modify (g : Graph P) (id : NodeId) {f : Node P → Node P}
    (h : ∀ node, (f node).payload = node.payload) : (g.modify id f).labels = g.labels := by
  simp only [labels, entries_modify, List.map_map]
  refine List.map_congr_left fun e _ => ?_
  by_cases h_id : e.1 = id
  · simp [h_id, h]
  · simp [h_id]

/-! ## Removing nodes -/

/-- What is left of a graph when a node is removed with its edges. -/
def without (g : Graph P) (id : NodeId) : Graph P :=
  { g with slots := g.slots.mapIdx fun i slot =>
      { slot with node? := if i = id.index then none else slot.node?.map (·.without id) } }

theorem removeNode_of_node? {g : Graph P} {id : NodeId} {node : Node P}
    (h : g.node? id = some node) : g.removeNode id = .ok (node.payload, g.without id) := by
  rw [removeNode, node_eq_ok.mpr h]
  rfl

/-- A live node stands in a slot with the tag of its handle. -/
theorem exists_slot {g : Graph P} {id : NodeId} (h : g.contains id = true) :
    ∃ slot, g.slots[id.index]? = some slot ∧ slot.tag = id.tag := by
  obtain ⟨node, h_node⟩ := contains_iff.mp h
  obtain ⟨slot, h_slot, h_own⟩ := Option.bind_eq_some_iff.mp h_node
  refine ⟨slot, h_slot, ?_⟩
  split at h_own
  · assumption
  · cases h_own

theorem node?_without {g : Graph P} {id : NodeId} (h : g.contains id = true) (x : NodeId) :
    (g.without id).node? x = if x = id then none else (g.node? x).map (·.without id) := by
  obtain ⟨slot, h_slot, h_tag⟩ := exists_slot h
  simp only [node?, without, Array.getElem?_mapIdx]
  by_cases h_index : x.index = id.index
  · -- the slot at this position is the one of `id`, whatever tag `x` has
    rw [h_index, h_slot]
    by_cases h_id : x = id
    · simp [h_id]
    · have h_foreign : slot.tag ≠ x.tag := by
        intro h_same
        cases x; cases id
        simp_all
      simp [h_id, h_foreign]
  · have h_id : x ≠ id := fun h_id => h_index (h_id ▸ rfl)
    rw [if_neg h_id]
    cases g.slots[x.index]? with
    | none => rfl
    | some other => by_cases h_own : other.tag = x.tag <;> simp [h_index, h_own]

theorem zipIdx_toList_mapIdx {α : Type} (xs : Array α) (f : Nat → α → α) :
    (xs.mapIdx f).toList.zipIdx = xs.toList.zipIdx.map fun e => (f e.2 e.1, e.2) := by
  apply List.ext_getElem?
  intro j
  simp [Function.comp_def]

theorem entries_without {g : Graph P} {id : NodeId} (h : g.contains id = true) :
    (g.without id).entries =
      (g.entries.filter fun e => e.1 ≠ id).map fun e => (e.1, e.2.without id) := by
  obtain ⟨slot, h_slot, h_tag⟩ := exists_slot h
  unfold entries without
  rw [zipIdx_toList_mapIdx, List.filterMap_map, List.filter_filterMap, List.map_filterMap]
  refine List.filterMap_congr fun e he => ?_
  obtain ⟨other, i⟩ := e
  by_cases h_index : i = id.index
  · -- this is the slot of `id`
    have h_id : (⟨other.tag, i⟩ : NodeId) = id := by
      rw [List.mem_zipIdx_iff_getElem?, Array.getElem?_toList, h_index, h_slot] at he
      cases he
      rw [h_tag, h_index]
    subst h_id
    cases h_node : other.node? <;> simp [h_node, Option.filter_some]
  · have h_id : (⟨other.tag, i⟩ : NodeId) ≠ id := fun h_id => h_index (h_id ▸ rfl)
    cases h_node : other.node? <;> simp [h_node, h_index, h_id, Option.filter_some]

theorem labels_without {g : Graph P} {id : NodeId} (h : g.contains id = true) :
    (g.without id).labels = g.labels.filter fun e => e.1 ≠ id := by
  simp only [labels, entries_without h, List.map_map, List.filter_map]
  rfl

end LiveRange.Graph
