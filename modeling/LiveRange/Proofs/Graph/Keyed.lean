import LiveRange.Proofs.Graph.Edges

/-! # Keys and their nodes

`KeyedGraph.Indexed` says that the index of a keyed graph is the inverse of its payloads: it
leads from a key to a node exactly if that node is live and carries the key.  So two keys
with one node are equal, and a key that has a node keeps it when nodes for other keys or
edges are added.

`KeyedGraph.setApart` adds the edges between the nodes of pairs of keys, in both directions.
It is what building an interference graph comes down to. -/

namespace LiveRange.KeyedGraph

variable {κ : Type} [Ord κ] {g : KeyedGraph κ} {key k : κ} {id : NodeId}

/-- The index leads from each key to the node that carries it, and nowhere else. -/
structure Indexed (g : KeyedGraph κ) : Prop where
  lookup_iff : ∀ {key : κ} {id : NodeId}, g.lookup key = some id ↔ (id, key) ∈ g.graph.labels

namespace Indexed

theorem exists_node (h : g.Indexed) (h_key : g.lookup key = some id) :
    ∃ node, g.graph.node? id = some node ∧ node.payload = key :=
  Graph.mem_labels.mp (h.lookup_iff.mp h_key)

theorem contains (h : g.Indexed) (h_key : g.lookup key = some id) : g.graph.contains id = true := by
  obtain ⟨node, h_node, _⟩ := h.exists_node h_key
  exact Graph.contains_iff.mpr ⟨node, h_node⟩

theorem key_eq (h : g.Indexed) (h_key : g.lookup key = some id) (h_other : g.lookup k = some id) :
    key = k := by
  obtain ⟨node, h_node, rfl⟩ := h.exists_node h_key
  obtain ⟨node', h_node', rfl⟩ := h.exists_node h_other
  rw [h_node, Option.some.injEq] at h_node'
  rw [h_node']

end Indexed

theorem Indexed.of_labels (h : g.Indexed) {graph : Graph κ} (h_labels : graph.labels = g.graph.labels) :
    (⟨graph, g.index⟩ : KeyedGraph κ).Indexed := by
  constructor
  intro key id
  rw [h_labels]
  exact h.lookup_iff

/-! ## Making and removing nodes -/

theorem nodeFor_of_lookup (h : g.lookup key = some id) : g.nodeFor key = (id, g) := by
  simp only [nodeFor, h]

theorem nodeFor_of_none (h : g.lookup key = none) : g.nodeFor key = g.push key := by
  simp only [nodeFor, h]

theorem hasEdges_nodeFor {edges : List (NodeId × NodeId)} (h : g.graph.HasEdges edges) (key : κ) :
    (g.nodeFor key).2.graph.HasEdges edges := by
  cases h_key : g.lookup key with
  | none =>
    rw [nodeFor_of_none h_key]
    exact h.newNode key
  | some id =>
    rw [nodeFor_of_lookup h_key]
    exact h

theorem hasEdges_nodesFor {edges : List (NodeId × NodeId)} (h : g.graph.HasEdges edges)
    (keys : List κ) : (g.nodesFor keys).2.graph.HasEdges edges := by
  induction keys generalizing g with
  | nil => exact h
  | cons key rest ih => exact ih (hasEdges_nodeFor h key)

theorem indexed_empty [Std.TransOrd κ] (tag : GraphTag) : (empty tag : KeyedGraph κ).Indexed := by
  constructor
  intro key id
  simp [lookup, empty, Graph.labels]

section Making

variable [Std.TransOrd κ] [Std.LawfulEqOrd κ]

theorem lookup_push_self (g : KeyedGraph κ) (key : κ) :
    (g.push key).2.lookup key = some (g.push key).1 := by
  simp [lookup, push]

theorem lookup_push_of_ne (g : KeyedGraph κ) (h : key ≠ k) :
    (g.push key).2.lookup k = g.lookup k := by
  have h_order : compare key k ≠ .eq := mt Std.LawfulEqOrd.eq_of_compare h
  simp only [lookup, push, Std.TreeMap.getElem?_insert, h_order, ↓reduceIte]

theorem Indexed.push (h : g.Indexed) (h_none : g.lookup key = none) : (g.push key).2.Indexed := by
  constructor
  intro k id
  have h_labels : (g.push key).2.graph.labels = g.graph.labels ++ [((g.push key).1, key)] :=
    Graph.labels_newNode g.graph key
  rw [h_labels, List.mem_append, ← h.lookup_iff, List.mem_singleton, Prod.mk.injEq]
  -- the key had no node before, and every other key is where it was
  by_cases hk : key = k
  · subst hk
    rw [lookup_push_self, h_none, Option.some.injEq]
    simp [eq_comm]
  · rw [lookup_push_of_ne g hk]
    simp [Ne.symm hk]

theorem Indexed.nodeFor (h : g.Indexed) (key : κ) : (g.nodeFor key).2.Indexed := by
  cases h_key : g.lookup key with
  | none =>
    rw [nodeFor_of_none h_key]
    exact h.push h_key
  | some id =>
    rw [nodeFor_of_lookup h_key]
    exact h

theorem lookup_nodeFor_self (g : KeyedGraph κ) (key : κ) :
    (g.nodeFor key).2.lookup key = some (g.nodeFor key).1 := by
  cases h_key : g.lookup key with
  | none => rw [nodeFor_of_none h_key, lookup_push_self]
  | some id => rw [nodeFor_of_lookup h_key, h_key]

theorem lookup_nodeFor_of_some (h : g.lookup k = some id) (key : κ) :
    (g.nodeFor key).2.lookup k = some id := by
  cases h_key : g.lookup key with
  | none =>
    have h_ne : key ≠ k := by
      intro h_eq
      subst h_eq
      rw [h] at h_key
      cases h_key
    rw [nodeFor_of_none h_key, lookup_push_of_ne g h_ne, h]
  | some id' => rw [nodeFor_of_lookup h_key, h]

theorem Indexed.nodesFor (h : g.Indexed) (keys : List κ) : (g.nodesFor keys).2.Indexed := by
  induction keys generalizing g with
  | nil => exact h
  | cons key rest ih => exact ih (h.nodeFor key)

theorem lookup_nodesFor_of_some (h : g.lookup k = some id) (keys : List κ) :
    (g.nodesFor keys).2.lookup k = some id := by
  induction keys generalizing g with
  | nil => exact h
  | cons key rest ih => exact ih (lookup_nodeFor_of_some h key)

theorem lookup_nodesFor_of_mem {keys : List κ} (h : k ∈ keys) :
    ∃ id, (g.nodesFor keys).2.lookup k = some id := by
  induction keys generalizing g with
  | nil => cases h
  | cons key rest ih =>
    rcases List.mem_cons.mp h with rfl | h_rest
    · exact ⟨_, lookup_nodesFor_of_some (lookup_nodeFor_self g k) rest⟩
    · exact ih h_rest

theorem lookup_erase_self (graph : Graph κ) (index : Std.TreeMap κ NodeId compare) (key : κ) :
    (⟨graph, index.erase key⟩ : KeyedGraph κ).lookup key = none := by
  simp [lookup]

theorem lookup_erase_of_ne (graph : Graph κ) (index : Std.TreeMap κ NodeId compare) (h : key ≠ k) :
    (⟨graph, index.erase key⟩ : KeyedGraph κ).lookup k = index[k]? := by
  have h_order : compare key k ≠ .eq := mt Std.LawfulEqOrd.eq_of_compare h
  simp only [lookup, Std.TreeMap.getElem?_erase, h_order, ↓reduceIte]

theorem Indexed.erase (h : g.Indexed) {node : Node κ} (h_node : g.graph.node? id = some node) :
    (⟨g.graph.without id, g.index.erase node.payload⟩ : KeyedGraph κ).Indexed := by
  constructor
  intro k x
  have h_key : g.lookup node.payload = some id :=
    h.lookup_iff.mpr (Graph.mem_labels.mpr ⟨node, h_node, rfl⟩)
  rw [Graph.labels_without (Graph.contains_iff.mpr ⟨node, h_node⟩), List.mem_filter, ← h.lookup_iff,
    decide_eq_true_iff]
  -- the removed node was the only one with this key, and had no other key
  by_cases hk : node.payload = k
  · subst hk
    rw [lookup_erase_self, h_key, Option.some.injEq]
    exact ⟨nofun, fun h_both => absurd h_both.1.symm h_both.2⟩
  · rw [lookup_erase_of_ne _ _ hk]
    refine ⟨fun h_found => ⟨h_found, ?_⟩, fun h_both => h_both.1⟩
    intro h_id
    subst h_id
    exact hk (h.key_eq h_key h_found)

end Making

/-! ## Nodes for a list of keys -/

section Lists

/-- The nodes of a graph carry some keys in order and take all slots, each at the handle that holds
the position of its key.  The graph makes the next one under the same tag. -/
structure Lists (g : KeyedGraph κ) (tag : GraphTag) (keys : List κ) : Prop where
  indexed : g.Indexed
  labels : g.graph.labels = keys.zipIdx.map fun e => (⟨tag, e.2⟩, e.1)
  tag_eq : g.graph.tag = tag
  size_eq : g.graph.slots.size = keys.length

variable {tag : GraphTag} {keys : List κ}

theorem Lists.mem_of_lookup (h : g.Lists tag keys) (h_key : g.lookup key = some id) :
    key ∈ keys := by
  rw [h.indexed.lookup_iff, h.labels, List.mem_map] at h_key
  obtain ⟨⟨key', i⟩, h_mem, h_eq⟩ := h_key
  cases h_eq
  exact List.mem_of_getElem? (List.mem_zipIdx_iff_getElem?.mp h_mem)

theorem Lists.lookup_of_mem [DecidableEq κ] (h : g.Lists tag keys) (h_key : key ∈ keys) :
    g.lookup key = some ⟨tag, keys.idxOf key⟩ := by
  rw [h.indexed.lookup_iff, h.labels, List.mem_map]
  exact ⟨(key, keys.idxOf key), List.mem_zipIdx_iff_getElem?.mpr (List.getElem?_idxOf h_key), rfl⟩

variable [Std.TransOrd κ] [Std.LawfulEqOrd κ] [DecidableEq κ]

/-- A key that is requested stands in the list from then on, at its end if it is new. -/
theorem Lists.nodeFor (h : g.Lists tag keys.eraseDups) (key : κ) :
    (g.nodeFor key).2.Lists tag (keys ++ [key]).eraseDups := by
  rw [eraseDups_concat]
  cases h_key : g.lookup key with
  | some id =>
    rw [nodeFor_of_lookup h_key, if_pos (List.mem_eraseDups.mp (h.mem_of_lookup h_key))]
    exact h
  | none =>
    have h_new : key ∉ keys := by
      intro h_mem
      rw [h.lookup_of_mem (List.mem_eraseDups.mpr h_mem)] at h_key
      cases h_key
    have h_indexed := h.indexed.push h_key
    rw [nodeFor_of_none h_key, if_neg h_new]
    refine ⟨h_indexed, ?_, h.tag_eq, ?_⟩
    · simp [push, Graph.labels_newNode, h.labels, h.tag_eq, h.size_eq, List.zipIdx_append]
    · simp [push, Graph.newNode, h.size_eq]

theorem Lists.nodesFor (h : g.Lists tag keys.eraseDups) (more : List κ) :
    (g.nodesFor more).2.Lists tag (keys ++ more).eraseDups := by
  induction more generalizing g keys with
  | nil => rwa [List.append_nil]
  | cons key rest ih =>
    rw [List.append_cons]
    exact ih (h.nodeFor key)

omit [DecidableEq κ] in
/-- The answers are the nodes to which the index leads afterwards. -/
theorem nodesFor_eq_map {f : κ → NodeId}
    (h : ∀ key ∈ keys, (g.nodesFor keys).2.lookup key = some (f key)) :
    (g.nodesFor keys).1 = keys.map f := by
  induction keys generalizing g with
  | nil => rfl
  | cons key rest ih =>
    rw [List.forall_mem_cons] at h
    have h_first := lookup_nodesFor_of_some (lookup_nodeFor_self g key) rest
    show (g.nodeFor key).1 :: ((g.nodeFor key).2.nodesFor rest).1 = f key :: rest.map f
    rw [ih (g := (g.nodeFor key).2) h.2, Option.some.inj (h_first.symm.trans h.1)]

end Lists

/-! ## Setting keys apart -/

/-- The edges between the nodes of two keys. -/
def bothWays (g : KeyedGraph κ) (pair : κ × κ) : List (NodeId × NodeId) :=
  match g.lookup pair.1, g.lookup pair.2 with
  | some a, some b => [(a, b), (b, a)]
  | _, _ => []

/-- Adds the edges between the nodes of some pairs of keys. -/
def setApart (g : KeyedGraph κ) (pairs : List (κ × κ)) : KeyedGraph κ :=
  { g with graph := g.graph.linkAll (pairs.flatMap g.bothWays) }

@[simp] theorem lookup_setApart (g : KeyedGraph κ) (pairs : List (κ × κ)) (key : κ) :
    (g.setApart pairs).lookup key = g.lookup key := rfl

theorem setApart_nil (g : KeyedGraph κ) : g.setApart [] = g := rfl

theorem setApart_append (g : KeyedGraph κ) (pairs more : List (κ × κ)) :
    g.setApart (pairs ++ more) = (g.setApart pairs).setApart more := by
  rw [setApart, List.flatMap_append, Graph.linkAll_append]
  rfl

theorem mem_bothWays {x y : NodeId} {pair : κ × κ} :
    (x, y) ∈ g.bothWays pair ↔
      (g.lookup pair.1 = some x ∧ g.lookup pair.2 = some y) ∨
        (g.lookup pair.1 = some y ∧ g.lookup pair.2 = some x) := by
  unfold bothWays
  cases g.lookup pair.1 <;> cases g.lookup pair.2 <;> simp [eq_comm, and_comm]

theorem Indexed.setApart (h : g.Indexed) (pairs : List (κ × κ)) : (g.setApart pairs).Indexed := by
  constructor
  intro key id
  rw [lookup_setApart, KeyedGraph.setApart, Graph.labels_linkAll]
  exact h.lookup_iff

theorem Lists.setApart {tag : GraphTag} {keys : List κ} (h : g.Lists tag keys)
    (pairs : List (κ × κ)) : (g.setApart pairs).Lists tag keys where
  indexed := h.indexed.setApart pairs
  labels := (Graph.labels_linkAll _ _).trans h.labels
  tag_eq := (Graph.tag_linkAll _ _).trans h.tag_eq
  size_eq := (Graph.size_linkAll _ _).trans h.size_eq

theorem Indexed.hasEdges_setApart (h : g.Indexed) {edges : List (NodeId × NodeId)}
    (h_edges : g.graph.HasEdges edges) (pairs : List (κ × κ)) :
    (g.setApart pairs).graph.HasEdges ((pairs.flatMap g.bothWays).foldl draw edges) := by
  refine h_edges.linkAll ?_
  intro ⟨x, y⟩ he
  obtain ⟨pair, _, h_pair⟩ := List.mem_flatMap.mp he
  rcases mem_bothWays.mp h_pair with ⟨hx, hy⟩ | ⟨hy, hx⟩
  · exact ⟨h.contains hx, h.contains hy⟩
  · exact ⟨h.contains hx, h.contains hy⟩

/-- The index and the edges of a keyed graph are in order. -/
structure Sound (g : KeyedGraph κ) : Prop where
  indexed : g.Indexed
  edges : ∃ edges, g.graph.HasEdges edges

theorem Sound.nodeFor [Std.TransOrd κ] [Std.LawfulEqOrd κ] (h : g.Sound) (key : κ) :
    (g.nodeFor key).2.Sound :=
  ⟨h.indexed.nodeFor key, h.edges.imp fun _ h_edges => hasEdges_nodeFor h_edges key⟩

theorem Sound.setApart (h : g.Sound) (pairs : List (κ × κ)) : (g.setApart pairs).Sound := by
  obtain ⟨edges, h_edges⟩ := h.edges
  exact ⟨h.indexed.setApart pairs, _, h.indexed.hasEdges_setApart h_edges pairs⟩

end LiveRange.KeyedGraph
