import Mathlib.Data.List.Perm.Basic
import LiveRange.Proofs.Graph.Entries
import LiveRange.Proofs.Repeats

/-! # A graph as one list of edges

A graph stores every edge at both of its ends.  `Graph.HasEdges` says that these stores
mirror one duplicate-free list of edges: the successors of a node are the targets of its
edges, and the predecessors the sources, both in the order of the list.

Adding an edge between live nodes adds it at the end of the list, unless it is there
(`HasEdges.link`), so after any number of additions the list holds exactly what was added
(`HasEdges.linkAll`, `mem_foldl_draw`).  Removing an edge takes it out of the list, and removing
a node takes out every edge with an end there (`HasEdges.unlink`, `HasEdges.without`). -/

namespace LiveRange

/-- An edge list with one more edge at its end, unless the edge is there. -/
def draw (edges : List (NodeId × NodeId)) (e : NodeId × NodeId) : List (NodeId × NodeId) :=
  if e ∈ edges then edges else edges ++ [e]

theorem mem_draw {edges : List (NodeId × NodeId)} {e x : NodeId × NodeId} :
    x ∈ draw edges e ↔ x ∈ edges ∨ x = e := by
  unfold draw
  split
  · rename_i h_mem
    exact ⟨.inl, fun h => h.elim id fun h_eq => h_eq ▸ h_mem⟩
  · simp

theorem nodup_draw {edges : List (NodeId × NodeId)} (h : edges.Nodup) (e : NodeId × NodeId) :
    (draw edges e).Nodup := by
  unfold draw
  split
  · exact h
  · rename_i h_mem
    exact List.nodup_append.mpr ⟨h, List.nodup_singleton e, by
      rintro a ha b hb rfl
      exact h_mem (List.mem_singleton.mp hb ▸ ha)⟩

theorem mem_foldl_draw {drawn edges : List (NodeId × NodeId)} {x : NodeId × NodeId} :
    x ∈ drawn.foldl draw edges ↔ x ∈ edges ∨ x ∈ drawn := by
  induction drawn generalizing edges with
  | nil => simp
  | cons e rest ih => rw [List.foldl_cons, ih, mem_draw, List.mem_cons, or_assoc]

theorem foldl_draw_nil (edges : List (NodeId × NodeId)) : edges.foldl draw [] = edges.eraseDups := by
  induction edges using List.reverseRecOn with
  | nil => rfl
  | append_singleton edges e ih =>
    rw [List.foldl_append, ih, eraseDups_concat]
    simp only [List.foldl_cons, List.foldl_nil, draw, List.mem_eraseDups]

namespace Graph

variable {P : Type} {g : Graph P} {edges : List (NodeId × NodeId)}

/-- The successors and predecessors stored in a graph are the ends of the edges of a
duplicate-free list, in the order of the list. -/
structure HasEdges (g : Graph P) (edges : List (NodeId × NodeId)) : Prop where
  nodup : edges.Nodup
  live : ∀ e ∈ edges, g.contains e.1 = true ∧ g.contains e.2 = true
  succs : ∀ {id : NodeId} {node : Node P}, g.node? id = some node →
    node.succs = (edges.filter (·.1 = id)).map Prod.snd
  preds : ∀ {id : NodeId} {node : Node P}, g.node? id = some node →
    node.preds = (edges.filter (·.2 = id)).map Prod.fst

namespace HasEdges

theorem mem_succs (h : g.HasEdges edges) {a b : NodeId} {node : Node P}
    (h_node : g.node? a = some node) : b ∈ node.succs ↔ (a, b) ∈ edges := by
  simp [h.succs h_node]

theorem mem_preds (h : g.HasEdges edges) {a b : NodeId} {node : Node P}
    (h_node : g.node? b = some node) : a ∈ node.preds ↔ (a, b) ∈ edges := by
  simp [h.preds h_node]

theorem goesTo_eq_true (h : g.HasEdges edges) {a b : NodeId} :
    g.goesTo a b = .ok true ↔ (a, b) ∈ edges := by
  rw [goesTo, map_eq_ok]
  constructor
  · intro h_goes
    obtain ⟨node, h_node, h_mem⟩ := h_goes
    exact (h.mem_succs (node_eq_ok.mp h_node)).mp (of_decide_eq_true h_mem)
  · intro h_edge
    obtain ⟨node, h_node⟩ := contains_iff.mp (h.live _ h_edge).1
    exact ⟨node, node_eq_ok.mpr h_node, decide_eq_true ((h.mem_succs h_node).mpr h_edge)⟩

theorem nodup_succs (h : g.HasEdges edges) {id : NodeId} {node : Node P}
    (h_node : g.node? id = some node) : node.succs.Nodup := by
  rw [h.succs h_node]
  refine (h.nodup.filter _).map_on ?_
  intro ⟨a, b⟩ he ⟨a', b'⟩ he' h_eq
  simp only [List.mem_filter, decide_eq_true_eq] at he he'
  rw [Prod.mk.injEq]
  exact ⟨he.2.trans he'.2.symm, h_eq⟩

theorem nodup_preds (h : g.HasEdges edges) {id : NodeId} {node : Node P}
    (h_node : g.node? id = some node) : node.preds.Nodup := by
  rw [h.preds h_node]
  refine (h.nodup.filter _).map_on ?_
  intro ⟨a, b⟩ he ⟨a', b'⟩ he' h_eq
  simp only [List.mem_filter, decide_eq_true_eq] at he he'
  rw [Prod.mk.injEq]
  exact ⟨h_eq, he.2.trans he'.2.symm⟩

end HasEdges

/-! ## Making nodes -/

theorem hasEdges_empty (tag : GraphTag) : (empty tag : Graph P).HasEdges [] where
  nodup := List.nodup_nil
  live _ he := absurd he List.not_mem_nil
  succs h_node := absurd (mem_entries.mpr h_node) List.not_mem_nil
  preds h_node := absurd (mem_entries.mpr h_node) List.not_mem_nil

theorem contains_newNode_of_contains {id : NodeId} (payload : P) (h : g.contains id = true) :
    (g.newNode payload).2.contains id = true := by
  obtain ⟨node, h_node⟩ := contains_iff.mp h
  exact contains_iff.mpr ⟨node, node?_newNode_of_some payload h_node⟩

theorem HasEdges.newNode (h : g.HasEdges edges) (payload : P) :
    (g.newNode payload).2.HasEdges edges := by
  -- the ends of edges are live, so the new handle is none of them
  have h_old : ∀ id, g.contains id = true → id ≠ (g.newNode payload).1 := by
    intro id h_live h_id
    subst h_id
    obtain ⟨node, h_node⟩ := contains_iff.mp h_live
    rw [node?_newNode_fresh] at h_node
    cases h_node
  refine ⟨h.nodup, fun e he => ?_, fun {id node} h_node => ?_, fun {id node} h_node => ?_⟩
  · exact (h.live e he).imp (contains_newNode_of_contains payload)
      (contains_newNode_of_contains payload)
  · rcases node?_newNode_eq_some.mp h_node with h_node | ⟨rfl, rfl⟩
    · exact h.succs h_node
    · refine (List.map_eq_nil_iff.mpr (List.filter_eq_nil_iff.mpr fun e he h_id => ?_)).symm
      exact h_old e.1 (h.live e he).1 (of_decide_eq_true h_id)
  · rcases node?_newNode_eq_some.mp h_node with h_node | ⟨rfl, rfl⟩
    · exact h.preds h_node
    · refine (List.map_eq_nil_iff.mpr (List.filter_eq_nil_iff.mpr fun e he h_id => ?_)).symm
      exact h_old e.2 (h.live e he).2 (of_decide_eq_true h_id)

/-! ## Adding edges -/

theorem labels_link (g : Graph P) (a b : NodeId) : (g.link a b).labels = g.labels := by
  unfold link
  split
  · split
    · rfl
    · refine (labels_modify _ b ?_).trans (labels_modify g a ?_)
      · exact fun _ => rfl
      · exact fun _ => rfl
  · rfl

theorem labels_linkAll (drawn : List (NodeId × NodeId)) (g : Graph P) :
    (g.linkAll drawn).labels = g.labels := by
  unfold linkAll
  induction drawn generalizing g with
  | nil => rfl
  | cons e rest ih => rw [List.foldl_cons, ih, labels_link]

theorem tag_link (g : Graph P) (a b : NodeId) : (g.link a b).tag = g.tag := by
  unfold link
  split
  · split <;> rfl
  · rfl

theorem tag_linkAll (drawn : List (NodeId × NodeId)) (g : Graph P) :
    (g.linkAll drawn).tag = g.tag := by
  unfold linkAll
  induction drawn generalizing g with
  | nil => rfl
  | cons e rest ih => rw [List.foldl_cons, ih, tag_link]

theorem size_link (g : Graph P) (a b : NodeId) : (g.link a b).slots.size = g.slots.size := by
  unfold link
  split
  · split
    · rfl
    · simp [modify]
  · rfl

theorem size_linkAll (drawn : List (NodeId × NodeId)) (g : Graph P) :
    (g.linkAll drawn).slots.size = g.slots.size := by
  unfold linkAll
  induction drawn generalizing g with
  | nil => rfl
  | cons e rest ih => rw [List.foldl_cons, ih, size_link]

theorem contains_congr {g' : Graph P} (h : g.labels = g'.labels) (id : NodeId) :
    g.contains id = g'.contains id := by
  rw [Bool.eq_iff_iff, ← mem_nodes, ← mem_nodes, ← labels_map_fst, ← labels_map_fst, h]

theorem HasEdges.link_of_mem (h : g.HasEdges edges) {a b : NodeId} (h_mem : (a, b) ∈ edges) :
    g.link a b = g := by
  obtain ⟨source, h_source⟩ := contains_iff.mp (h.live _ h_mem).1
  obtain ⟨target, h_target⟩ := contains_iff.mp (h.live _ h_mem).2
  simp [Graph.link, h_source, h_target, (h.mem_succs h_source).mpr h_mem]

theorem HasEdges.node?_link (h : g.HasEdges edges) {a b : NodeId} (ha : g.contains a = true)
    (hb : g.contains b = true) (h_new : (a, b) ∉ edges) (x : NodeId) :
    (g.link a b).node? x = (g.node? x).map fun node =>
      ⟨node.payload, if x = a then node.succs ++ [b] else node.succs,
        if x = b then node.preds ++ [a] else node.preds⟩ := by
  obtain ⟨source, h_source⟩ := contains_iff.mp ha
  obtain ⟨target, h_target⟩ := contains_iff.mp hb
  have h_absent : b ∉ source.succs := fun h_mem => h_new ((h.mem_succs h_source).mp h_mem)
  simp only [Graph.link, h_source, h_target, h_absent, ↓reduceIte, node?_modify, Option.map_map,
    Function.comp_def]
  congr 1
  funext node
  split_ifs <;> rfl

theorem HasEdges.link (h : g.HasEdges edges) {a b : NodeId} (ha : g.contains a = true)
    (hb : g.contains b = true) : (g.link a b).HasEdges (draw edges (a, b)) := by
  by_cases h_mem : (a, b) ∈ edges
  · rw [h.link_of_mem h_mem, draw, if_pos h_mem]
    exact h
  · -- both stores grow at the end, like the list
    refine ⟨nodup_draw h.nodup _, fun e he => ?_, fun {id node} h_node => ?_,
      fun {id node} h_node => ?_⟩
    · simp only [contains_congr (labels_link g a b)]
      rcases mem_draw.mp he with he | rfl
      · exact h.live e he
      · exact ⟨ha, hb⟩
    · rw [h.node?_link ha hb h_mem, Option.map_eq_some_iff] at h_node
      obtain ⟨old, h_old, rfl⟩ := h_node
      rw [draw, if_neg h_mem, List.filter_append, List.map_append, ← h.succs h_old]
      by_cases h_id : id = a
      · simp [h_id]
      · simp [h_id, Ne.symm h_id]
    · rw [h.node?_link ha hb h_mem, Option.map_eq_some_iff] at h_node
      obtain ⟨old, h_old, rfl⟩ := h_node
      rw [draw, if_neg h_mem, List.filter_append, List.map_append, ← h.preds h_old]
      by_cases h_id : id = b
      · simp [h_id]
      · simp [h_id, Ne.symm h_id]

/-- Adding edges between live nodes one after the other draws them. -/
theorem HasEdges.linkAll (h : g.HasEdges edges) {drawn : List (NodeId × NodeId)}
    (h_live : ∀ e ∈ drawn, g.contains e.1 = true ∧ g.contains e.2 = true) :
    (g.linkAll drawn).HasEdges (drawn.foldl draw edges) := by
  induction drawn generalizing g edges with
  | nil => exact h
  | cons e rest ih =>
    obtain ⟨ha, hb⟩ := h_live e List.mem_cons_self
    refine ih (h.link ha hb) fun e' he' => ?_
    simp only [contains_congr (labels_link g e.1 e.2)]
    exact h_live e' (List.mem_cons_of_mem e he')

theorem link_of_absent {a b : NodeId} (h : ¬ (g.contains a = true ∧ g.contains b = true)) :
    g.link a b = g := by
  unfold link
  split
  · rename_i h_source h_target
    exact absurd ⟨contains_iff.mpr ⟨_, h_source⟩, contains_iff.mpr ⟨_, h_target⟩⟩ h
  · rfl

/-- Edges that are added both ways mirror a list again, and adding them once more changes nothing. -/
theorem HasEdges.link_both (h : g.HasEdges edges) (a b : NodeId) :
    (∃ edges', ((g.link a b).link b a).HasEdges edges') ∧
      (((g.link a b).link b a).link a b).link b a = (g.link a b).link b a := by
  by_cases h_live : g.contains a = true ∧ g.contains b = true
  · obtain ⟨ha, hb⟩ := h_live
    have h_first := h.link ha hb
    rw [contains_congr (labels_link g a b).symm] at ha hb
    have h_both := h_first.link hb ha
    refine ⟨⟨_, h_both⟩, ?_⟩
    rw [h_both.link_of_mem (mem_draw.mpr (.inl (mem_draw.mpr (.inr rfl)))),
      h_both.link_of_mem (mem_draw.mpr (.inr rfl))]
  · rw [link_of_absent h_live, link_of_absent fun h_swap => h_live h_swap.symm, link_of_absent h_live,
      link_of_absent fun h_swap => h_live h_swap.symm]
    exact ⟨⟨edges, h⟩, rfl⟩

theorem linkAll_append (g : Graph P) (drawn drawn' : List (NodeId × NodeId)) :
    g.linkAll (drawn ++ drawn') = (g.linkAll drawn).linkAll drawn' :=
  List.foldl_append

/-! ## Removing edges and nodes -/

/-- What is left of a graph when the edge from `a` to `b` is removed. -/
def unlink (g : Graph P) (a b : NodeId) : Graph P :=
  (g.modify a fun node => { node with succs := node.succs.filter (· ≠ b) }).modify b
    fun node => { node with preds := node.preds.filter (· ≠ a) }

theorem labels_unlink (g : Graph P) (a b : NodeId) : (g.unlink a b).labels = g.labels := by
  refine (labels_modify _ b ?_).trans (labels_modify g a ?_)
  · exact fun _ => rfl
  · exact fun _ => rfl

theorem node?_unlink (g : Graph P) (a b x : NodeId) :
    (g.unlink a b).node? x = (g.node? x).map fun node =>
      ⟨node.payload, if x = a then node.succs.filter (· ≠ b) else node.succs,
        if x = b then node.preds.filter (· ≠ a) else node.preds⟩ := by
  simp only [unlink, node?_modify, Option.map_map, Function.comp_def]
  congr 1
  funext node
  split_ifs <;> rfl

theorem HasEdges.unlink (h : g.HasEdges edges) (a b : NodeId) :
    (g.unlink a b).HasEdges (edges.filter (· ≠ (a, b))) := by
  refine ⟨h.nodup.filter _, fun e he => ?_, fun {id node} h_node => ?_, fun {id node} h_node => ?_⟩
  · simp only [contains_congr (labels_unlink g a b)]
    exact h.live e (List.mem_of_mem_filter he)
  · rw [node?_unlink, Option.map_eq_some_iff] at h_node
    obtain ⟨old, h_old, rfl⟩ := h_node
    simp only [h.succs h_old, List.filter_filter]
    by_cases h_id : id = a
    · subst h_id
      rw [if_pos rfl, List.filter_map, List.filter_filter]
      congr 1
      refine List.filter_congr fun e _ => ?_
      by_cases h_source : e.1 = id <;> simp [h_source, Prod.ext_iff]
    · rw [if_neg h_id]
      congr 1
      refine List.filter_congr fun e _ => ?_
      by_cases h_source : e.1 = id <;> simp [h_source, h_id, Prod.ext_iff]
  · rw [node?_unlink, Option.map_eq_some_iff] at h_node
    obtain ⟨old, h_old, rfl⟩ := h_node
    simp only [h.preds h_old, List.filter_filter]
    by_cases h_id : id = b
    · subst h_id
      rw [if_pos rfl, List.filter_map, List.filter_filter]
      congr 1
      refine List.filter_congr fun e _ => ?_
      by_cases h_target : e.2 = id <;> simp [h_target, Prod.ext_iff]
    · rw [if_neg h_id]
      congr 1
      refine List.filter_congr fun e _ => ?_
      by_cases h_target : e.2 = id <;> simp [h_target, h_id, Prod.ext_iff]

theorem contains_without {id x : NodeId} (h : g.contains id = true) :
    (g.without id).contains x = true ↔ g.contains x = true ∧ x ≠ id := by
  rw [contains, node?_without h]
  by_cases h_id : x = id <;> simp [h_id, contains]

theorem HasEdges.without (h : g.HasEdges edges) {id : NodeId} (h_live : g.contains id = true) :
    (g.without id).HasEdges (edges.filter fun e => e.1 ≠ id ∧ e.2 ≠ id) := by
  refine ⟨h.nodup.filter _, fun e he => ?_, fun {x node} h_node => ?_, fun {x node} h_node => ?_⟩
  · obtain ⟨h_mem, h_ends⟩ := List.mem_filter.mp he
    obtain ⟨h_source, h_target⟩ := of_decide_eq_true h_ends
    obtain ⟨ha, hb⟩ := h.live e h_mem
    exact ⟨(contains_without h_live).mpr ⟨ha, h_source⟩, (contains_without h_live).mpr ⟨hb, h_target⟩⟩
  · rw [node?_without h_live] at h_node
    split at h_node
    · cases h_node
    · rename_i h_other
      obtain ⟨old, h_old, rfl⟩ := Option.map_eq_some_iff.mp h_node
      simp only [Node.without, h.succs h_old, List.filter_map, List.filter_filter]
      congr 1
      refine List.filter_congr fun e _ => ?_
      by_cases h_source : e.1 = x <;> simp [h_source, h_other]
  · rw [node?_without h_live] at h_node
    split at h_node
    · cases h_node
    · rename_i h_other
      obtain ⟨old, h_old, rfl⟩ := Option.map_eq_some_iff.mp h_node
      simp only [Node.without, h.preds h_old, List.filter_map, List.filter_filter]
      congr 1
      refine List.filter_congr fun e _ => ?_
      by_cases h_target : e.2 = x <;> simp [h_target, h_other]

/-! ## Counting edges -/

theorem HasEdges.edgeCount_eq (h : g.HasEdges edges) : g.edgeCount = edges.length := by
  -- counting goes by source, and so over the same edges in another order
  have h_perm : (g.entries.flatMap fun e => e.2.succs.map (e.1, ·)).Perm edges := by
    rw [List.perm_ext_iff_of_nodup ?_ h.nodup]
    · intro ⟨a, b⟩
      simp only [List.mem_flatMap, List.mem_map, Prod.mk.injEq, Prod.exists, mem_entries]
      constructor
      · intro h_counted
        obtain ⟨_, node, h_node, _, h_succ, rfl, rfl⟩ := h_counted
        exact (h.mem_succs h_node).mp h_succ
      · intro h_mem
        obtain ⟨node, h_node⟩ := contains_iff.mp (h.live _ h_mem).1
        exact ⟨a, node, h_node, b, (h.mem_succs h_node).mpr h_mem, rfl, rfl⟩
    · rw [List.nodup_flatMap]
      constructor
      · intro ⟨id, node⟩ h_entry
        exact (h.nodup_succs (mem_entries.mp h_entry)).map fun _ _ h_eq => (Prod.mk.inj h_eq).2
      · have h_ids : g.entries.Pairwise fun e f => e.1 ≠ f.1 := List.pairwise_map.mp (nodup_nodes g)
        refine h_ids.imp fun {e f} h_ne x hx hx' => h_ne ?_
        simp only [List.mem_map] at hx hx'
        obtain ⟨_, _, rfl⟩ := hx
        obtain ⟨_, _, h_eq⟩ := hx'
        exact (Prod.mk.inj h_eq).1.symm
  rw [← h_perm.length_eq, edgeCount, List.length_flatMap, List.length_flatMap]
  simp only [List.length_map]

end Graph

end LiveRange
