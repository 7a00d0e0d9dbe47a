import Mathlib.Data.Sym.Card
import Mathlib.Data.Set.Card
import LiveRange.Proofs.Interference.Blueprint
import LiveRange.Proofs.Liveness.Exact

/-! # Which temporaries interfere

`FlowGraph.Conflict` says which temporaries must not share a register, in terms of paths
alone.  `InterferenceGraph.Draws` says that the edges of an interference graph are those of a
relation; from it follow the answers to `interferes` and `neighbors` and the number of edges.
The graph that is built from a body draws the conflicts of its flow graph
(`LaidOut.interferenceGraph_draws`). -/

namespace LiveRange

/-! ## Conflicts -/

namespace FlowGraph

/-- A node sets `x` apart from `y`: it writes `x` while `y` is live after it, and does not
copy `y` into `x`. -/
structure SetsApart (flow : FlowGraph) (n : NodeId) (x y : Temp) : Prop where
  writes : flow.Writes x n
  live : flow.LiveAfter y n
  noCopy : ¬ ∃ template, flow.instr n = .ok (.move template x y)

/-- Two different temporaries are set apart by some node, in one order or the other. -/
def Conflict (flow : FlowGraph) (a b : Temp) : Prop :=
  a ≠ b ∧ ∃ n ∈ flow.nodes, flow.SetsApart n a b ∨ flow.SetsApart n b a

theorem setsApart_iff {flow : FlowGraph} {n : NodeId} {node : Node Instr} {x y : Temp}
    (h_node : flow.graph.node? n = some node) :
    flow.SetsApart n x y ↔
      x ∈ node.payload.defs ∧ flow.LiveAfter y n ∧ ¬ node.payload.copies x y = true := by
  have h_instr : flow.instr n = .ok node.payload := instr_eq_ok.mpr ⟨node, h_node, rfl⟩
  have h_copy : (∃ template, flow.instr n = .ok (.move template x y)) ↔
      node.payload.copies x y = true := by
    rw [Instr.copies_iff, h_instr]
    simp only [Except.ok.injEq]
  rw [← writes_iff h_node, ← h_copy]
  exact ⟨fun h => ⟨h.writes, h.live, h.noCopy⟩, fun h => ⟨h.1, h.2.1, h.2.2⟩⟩

theorem conflict_comm {flow : FlowGraph} {a b : Temp} : flow.Conflict a b ↔ flow.Conflict b a := by
  simp only [Conflict, ne_comm (a := a), or_comm]

end FlowGraph

/-! ## Graphs that draw a relation -/

namespace InterferenceGraph

variable {ig : InterferenceGraph} {R : Temp → Temp → Prop} {a b : Temp} {x y : NodeId}

/-- The edges of an interference graph lead between the nodes of related temporaries. -/
structure Draws (ig : InterferenceGraph) (R : Temp → Temp → Prop) : Prop where
  indexed : ig.graph.Indexed
  edges : ∃ edges, ig.graph.graph.HasEdges edges ∧ ∀ {x y : NodeId}, (x, y) ∈ edges ↔
    ∃ a b, R a b ∧ ig.graph.lookup a = some x ∧ ig.graph.lookup b = some y

theorem node_eq_ok : ig.node a = .ok x ↔ ig.graph.lookup a = some x := by
  unfold InterferenceGraph.node
  cases ig.graph.lookup a <;> simp

theorem entry_eq_ok {node : Node Temp} :
    ig.entry x = .ok node ↔ ig.graph.graph.node? x = some node := by
  unfold entry
  cases ig.graph.graph.node? x <;> simp

theorem interferes_eq_ok {r : Bool} :
    ig.interferes a b = .ok r ↔ ∃ x y node, ig.graph.lookup a = some x ∧ ig.graph.lookup b = some y ∧
      ig.graph.graph.node? x = some node ∧ r = decide (y ∈ node.succs) := by
  simp only [interferes, bind_eq_ok, node_eq_ok, neighbors, map_eq_ok, entry_eq_ok]
  constructor
  · intro h_answer
    obtain ⟨x, hx, y, hy, _, ⟨node, h_node, rfl⟩, h_answer⟩ := h_answer
    exact ⟨x, y, node, hx, hy, h_node, (Except.ok.inj h_answer).symm⟩
  · intro h_answer
    obtain ⟨x, y, node, hx, hy, h_node, rfl⟩ := h_answer
    exact ⟨x, hx, y, hy, _, ⟨node, h_node, rfl⟩, rfl⟩

namespace Draws

theorem interferes_eq (h : ig.Draws R) (ha : ig.node a = .ok x) (hb : ig.node b = .ok y) :
    ∃ r, ig.interferes a b = .ok r ∧ (r = true ↔ R a b) := by
  rw [node_eq_ok] at ha hb
  obtain ⟨edges, h_edges, h_mem⟩ := h.edges
  obtain ⟨node, h_node, _⟩ := h.indexed.exists_node ha
  refine ⟨_, interferes_eq_ok.mpr ⟨x, y, node, ha, hb, h_node, rfl⟩, ?_⟩
  rw [decide_eq_true_eq, h_edges.mem_succs h_node, h_mem]
  constructor
  · intro h_edge
    obtain ⟨a', b', h_rel, ha', hb'⟩ := h_edge
    rwa [h.indexed.key_eq ha ha', h.indexed.key_eq hb hb']
  · exact fun h_rel => ⟨a, b, h_rel, ha, hb⟩

theorem interferes_iff (h : ig.Draws R) :
    ig.interferes a b = .ok true ↔
      R a b ∧ (∃ x, ig.graph.lookup a = some x) ∧ ∃ y, ig.graph.lookup b = some y := by
  constructor
  · intro h_true
    obtain ⟨x, y, _, ha, hb, _⟩ := interferes_eq_ok.mp h_true
    obtain ⟨r, h_answer, h_iff⟩ := h.interferes_eq (node_eq_ok.mpr ha) (node_eq_ok.mpr hb)
    rw [h_true, Except.ok.injEq] at h_answer
    exact ⟨h_iff.mp h_answer.symm, ⟨x, ha⟩, y, hb⟩
  · intro h_both
    obtain ⟨h_rel, ⟨x, ha⟩, y, hb⟩ := h_both
    obtain ⟨r, h_answer, h_iff⟩ := h.interferes_eq (node_eq_ok.mpr ha) (node_eq_ok.mpr hb)
    rw [h_answer, h_iff.mpr h_rel]

/-- A symmetric relation makes the neighbors of a node both its successors and its
predecessors. -/
theorem neighbors_eq (h : ig.Draws R) (h_symm : ∀ {a b}, R a b → R b a)
    (hx : x ∈ ig.graph.graph.nodes) :
    ∃ succs preds, ig.neighbors x = .ok succs ∧ ig.graph.graph.successors x = .ok succs ∧
      ig.graph.graph.predecessors x = .ok preds ∧ succs.Nodup ∧ preds.Perm succs := by
  obtain ⟨edges, h_edges, h_mem⟩ := h.edges
  obtain ⟨node, h_node⟩ := Graph.contains_iff.mp (Graph.mem_nodes.mp hx)
  have h_graph : ig.graph.graph.node x = .ok node := by
    rw [Graph.node, h_node]
  -- the edges that enter the node lead back where the edges that leave it lead
  have h_back : ∀ y, y ∈ node.preds ↔ y ∈ node.succs := by
    intro y
    rw [h_edges.mem_preds h_node, h_edges.mem_succs h_node, h_mem, h_mem]
    constructor
    · intro h_in
      obtain ⟨a, b, h_rel, ha, hb⟩ := h_in
      exact ⟨b, a, h_symm h_rel, hb, ha⟩
    · intro h_out
      obtain ⟨a, b, h_rel, ha, hb⟩ := h_out
      exact ⟨b, a, h_symm h_rel, hb, ha⟩
  exact ⟨_, _, map_eq_ok.mpr ⟨node, entry_eq_ok.mpr h_node, rfl⟩, map_eq_ok.mpr ⟨node, h_graph, rfl⟩,
    map_eq_ok.mpr ⟨node, h_graph, rfl⟩, h_edges.nodup_succs h_node,
    (List.perm_ext_iff_of_nodup (h_edges.nodup_preds h_node) (h_edges.nodup_succs h_node)).mpr h_back⟩

end Draws

/-! ## Counting -/

/-- A set of pairs that holds each pair in both orders, and no pair of equals, has twice as
many members as there are unordered pairs. -/
theorem card_eq_two_mul_card_image {s : Finset (NodeId × NodeId)}
    (h_symm : ∀ {x y}, (x, y) ∈ s → (y, x) ∈ s) (h_irrefl : ∀ {x y}, (x, y) ∈ s → x ≠ y) :
    s.card = 2 * (s.image fun e => s(e.1, e.2)).card := by
  rw [Finset.card_eq_sum_card_image (fun e => s(e.1, e.2)) s, Finset.sum_const_nat (m := 2), mul_comm]
  intro p hp
  obtain ⟨⟨x, y⟩, h_mem, rfl⟩ := Finset.mem_image.mp hp
  -- an unordered pair comes from its two orders
  have h_fiber : (s.filter fun e => s(e.1, e.2) = s(x, y)) = {(x, y), (y, x)} := by
    ext ⟨u, v⟩
    simp only [Finset.mem_filter, Sym2.eq_iff, Finset.mem_insert, Finset.mem_singleton, Prod.mk.injEq]
    refine ⟨And.right, fun h => ⟨?_, h⟩⟩
    rcases h with ⟨rfl, rfl⟩ | ⟨rfl, rfl⟩
    · exact h_mem
    · exact h_symm h_mem
  have h_ne : (x, y) ≠ (y, x) := fun h => h_irrefl h_mem (Prod.mk.inj h).1
  rw [h_fiber, Finset.card_pair h_ne]

/-- The pairs of different temporaries that interfere, in no order. -/
def interferingPairs (ig : InterferenceGraph) : Set (Sym2 Temp) :=
  {p | ∃ a b, p = s(a, b) ∧ ig.interferes a b = .ok true}

def nodeOf (ig : InterferenceGraph) (t : Temp) : NodeId := (ig.graph.lookup t).getD default

theorem nodeOf_eq (h : ig.graph.lookup a = some x) : ig.nodeOf a = x := by
  simp [nodeOf, h]

namespace Draws

/-- The edges, in no order, are the interfering pairs. -/
theorem image_nodeOf (h : ig.Draws R) {edges : List (NodeId × NodeId)}
    (h_mem : ∀ {x y : NodeId}, (x, y) ∈ edges ↔
      ∃ a b, R a b ∧ ig.graph.lookup a = some x ∧ ig.graph.lookup b = some y) :
    Sym2.map ig.nodeOf '' ig.interferingPairs =
      (edges.toFinset.image fun e => s(e.1, e.2) : Set (Sym2 NodeId)) := by
  ext p
  simp only [Finset.coe_image, Set.mem_image, Finset.mem_coe, List.mem_toFinset, Prod.exists]
  constructor
  · intro h_pair
    obtain ⟨_, ⟨a, b, rfl, h_true⟩, rfl⟩ := h_pair
    obtain ⟨h_rel, ⟨x, ha⟩, y, hb⟩ := h.interferes_iff.mp h_true
    exact ⟨x, y, h_mem.mpr ⟨a, b, h_rel, ha, hb⟩, by rw [Sym2.map_mk, nodeOf_eq ha, nodeOf_eq hb]⟩
  · intro h_pair
    obtain ⟨x, y, h_edge, rfl⟩ := h_pair
    obtain ⟨a, b, h_rel, ha, hb⟩ := h_mem.mp h_edge
    refine ⟨s(a, b), ⟨a, b, rfl, h.interferes_iff.mpr ⟨h_rel, ⟨x, ha⟩, y, hb⟩⟩, ?_⟩
    rw [Sym2.map_mk, nodeOf_eq ha, nodeOf_eq hb]

theorem injOn_nodeOf (h : ig.Draws R) : Set.InjOn (Sym2.map ig.nodeOf) ig.interferingPairs := by
  have h_key : ∀ {t u x y}, ig.graph.lookup t = some x → ig.graph.lookup u = some y →
      ig.nodeOf t = ig.nodeOf u → t = u := by
    intro t u x y ht hu h_same
    rw [nodeOf_eq ht, nodeOf_eq hu] at h_same
    exact h.indexed.key_eq ht (h_same ▸ hu)
  rintro _ ⟨a, b, rfl, h_true⟩ _ ⟨c, d, rfl, h_true'⟩ h_eq
  obtain ⟨_, ⟨_, ha⟩, _, hb⟩ := h.interferes_iff.mp h_true
  obtain ⟨_, ⟨_, hc⟩, _, hd⟩ := h.interferes_iff.mp h_true'
  rw [Sym2.map_mk, Sym2.map_mk, Sym2.eq_iff] at h_eq
  rw [Sym2.eq_iff]
  rcases h_eq with ⟨h_first, h_second⟩ | ⟨h_first, h_second⟩
  · exact .inl ⟨h_key ha hc h_first, h_key hb hd h_second⟩
  · exact .inr ⟨h_key ha hd h_first, h_key hb hc h_second⟩

/-- Every pair that interferes has an edge each way. -/
theorem edgeCount_eq (h : ig.Draws R) (h_symm : ∀ {a b}, R a b → R b a)
    (h_irrefl : ∀ {a b}, R a b → a ≠ b) :
    (ig.graph.graph.edgeCount : ℕ∞) = 2 * ig.interferingPairs.encard := by
  obtain ⟨edges, h_edges, h_mem⟩ := h.edges
  have h_card : edges.toFinset.card = 2 * (edges.toFinset.image fun e => s(e.1, e.2)).card := by
    refine card_eq_two_mul_card_image (fun {x y} he => ?_) (fun {x y} he => ?_)
    · obtain ⟨a, b, h_rel, ha, hb⟩ := h_mem.mp (List.mem_toFinset.mp he)
      exact List.mem_toFinset.mpr (h_mem.mpr ⟨b, a, h_symm h_rel, hb, ha⟩)
    · obtain ⟨a, b, h_rel, ha, hb⟩ := h_mem.mp (List.mem_toFinset.mp he)
      intro h_loop
      subst h_loop
      exact h_irrefl h_rel (h.indexed.key_eq ha hb)
  calc (ig.graph.graph.edgeCount : ℕ∞)
      = (edges.toFinset.card : ℕ∞) := by
        rw [h_edges.edgeCount_eq, List.toFinset_card_of_nodup h_edges.nodup]
    _ = 2 * ((edges.toFinset.image fun e => s(e.1, e.2)).card : ℕ∞) := by
        rw [h_card]
        push_cast
        rfl
    _ = 2 * ig.interferingPairs.encard := by
        rw [← h.injOn_nodeOf.encard_image, h.image_nodeOf h_mem, ← Set.encard_coe_eq_coe_finsetCard]

end Draws

/-! ## The graph of a body -/

/-- A graph that is drawn from a blueprint draws the pairs of the blueprint, both ways. -/
theorem Realizes.draws {plan : Blueprint} {tag : GraphTag} (h : ig.Realizes plan tag) :
    ig.Draws fun a b => (a, b) ∈ plan.pairs ∨ (b, a) ∈ plan.pairs := by
  refine ⟨h.lists.indexed, _, h.edges, fun {x y} => ?_⟩
  rw [List.mem_map]
  constructor
  · intro h_edge
    obtain ⟨⟨a, b⟩, h_arc, h_ends⟩ := h_edge
    cases h_ends
    obtain ⟨ha, hb⟩ := h.closed.arcs _ h_arc
    exact ⟨a, b, Blueprint.mem_arcs.mp h_arc, h.lists.lookup_of_mem ha, h.lists.lookup_of_mem hb⟩
  · intro h_pair
    obtain ⟨a, b, h_pair, hx, hy⟩ := h_pair
    have h_arc := Blueprint.mem_arcs.mpr h_pair
    obtain ⟨ha, hb⟩ := h.closed.arcs _ h_arc
    rw [h.lists.lookup_of_mem ha, Option.some.injEq] at hx
    rw [h.lists.lookup_of_mem hb, Option.some.injEq] at hy
    exact ⟨(a, b), h_arc, Prod.ext hx hy⟩

end InterferenceGraph

namespace FlowGraph

variable {flow : FlowGraph} {tag : GraphTag} {body : List Instr}

theorem LaidOut.mem_mentions_of_conflict (h : flow.LaidOut tag body) {a b : Temp}
    (h_conflict : flow.Conflict a b) : a ∈ mentions body ∧ b ∈ mentions body := by
  have h_apart : ∀ {n x y}, flow.SetsApart n x y → x ∈ mentions body ∧ y ∈ mentions body := by
    intro n x y h_sets
    obtain ⟨node, h_node, hx⟩ := writes_iff_exists.mp h_sets.writes
    exact ⟨h.mem_mentions h_node (List.mem_append_left _ hx),
      h.mem_mentions_of_liveAfter h_sets.live⟩
  obtain ⟨_, n, _, h_ab | h_ba⟩ := h_conflict
  · exact h_apart h_ab
  · exact (h_apart h_ba).symm

/-- The conflicts of all instructions are the pairs that nodes set apart. -/
theorem mem_conflicts_zip {solver : Dataflow.Solver} {liveOuts : List (List Temp)}
    (h : flow.LaidOut tag body)
    (h_outs : flow.nodes.mapM (Liveness.compute flow solver).liveOutTemps = .ok liveOuts) {a b : Temp} :
    (a, b) ∈ (flow.body.zip liveOuts).flatMap (fun e => e.1.conflicts e.2) ↔
      a ≠ b ∧ ∃ n ∈ flow.nodes, flow.SetsApart n a b := by
  -- every instruction stands next to the temporaries live after its node
  have h_rows := List.forall₂_map_left_iff.mp (forall₂_of_mapM_eq_ok h_outs)
  obtain ⟨h_sound, h_complete⟩ := mem_zip_of_forall₂ h_rows fun e => e.2.payload
  rw [List.mem_flatMap]
  constructor
  · intro h_listed
    obtain ⟨⟨instr, ts⟩, h_zip, h_pair⟩ := h_listed
    obtain ⟨⟨n, node⟩, h_entry, rfl, h_ts⟩ := h_sound _ h_zip
    have hn : n ∈ flow.nodes := List.mem_map_of_mem h_entry
    obtain ⟨h_def, h_mem, h_ne, h_copy⟩ := Instr.mem_conflicts.mp h_pair
    exact ⟨h_ne.symm, n, hn, (setsApart_iff (Graph.mem_entries.mp h_entry)).mpr
      ⟨h_def, (Liveness.mem_liveOutTemps h hn h_ts).mp h_mem, h_copy⟩⟩
  · intro h_apart
    obtain ⟨h_ne, n, hn, h_apart⟩ := h_apart
    obtain ⟨⟨n, node⟩, h_entry, rfl⟩ := List.mem_map.mp hn
    obtain ⟨h_def, h_mem, h_copy⟩ := (setsApart_iff (Graph.mem_entries.mp h_entry)).mp h_apart
    obtain ⟨ts, h_ts, h_zip⟩ := h_complete _ h_entry
    exact ⟨_, h_zip, Instr.mem_conflicts.mpr
      ⟨h_def, (Liveness.mem_liveOutTemps h hn h_ts).mpr h_mem, h_ne.symm, h_copy⟩⟩

/-- A table knows what is live after every node, and the body mentions all of it. -/
theorem LaidOut.exists_liveOuts (h : flow.LaidOut tag body) (solver : Dataflow.Solver) :
    ∃ liveOuts, flow.nodes.mapM (Liveness.compute flow solver).liveOutTemps = .ok liveOuts ∧
      ∀ ts ∈ liveOuts, ∀ t ∈ ts, t ∈ mentions flow.body := by
  obtain ⟨liveOuts, h_outs⟩ := exists_mapM_eq_ok fun n hn =>
    (Liveness.liveOutTemps_compute h solver hn).imp fun _ => And.left
  refine ⟨liveOuts, h_outs, fun ts h_ts t ht => ?_⟩
  obtain ⟨k, hk, rfl⟩ := List.mem_iff_getElem.mp h_ts
  have h_rows := forall₂_of_mapM_eq_ok h_outs
  have h_row := h_rows.get (h_rows.length_eq ▸ hk) hk
  rw [h.body_eq]
  exact h.mem_mentions_of_liveAfter
    ((Liveness.mem_liveOutTemps h (List.getElem_mem _) h_row).mp ht)

/-- A flow graph has an interference graph, which draws its conflicts and has nodes for the
registers and for all temporaries the body mentions. -/
theorem LaidOut.interferenceGraph_draws (h : flow.LaidOut tag body) (igTag : GraphTag)
    (registers : List Temp) (config : Config) :
    ∃ ig, flow.interferenceGraph igTag registers config = .ok ig ∧ ig.Draws flow.Conflict ∧
      ∀ t ∈ registers ++ mentions body, ∃ x, ig.graph.lookup t = some x := by
  obtain ⟨liveOuts, h_outs, h_mentioned⟩ := h.exists_liveOuts config.solver
  obtain ⟨ig, h_ig, h_realizes⟩ :=
    InterferenceGraph.build_realizes h_outs h_mentioned registers config.spillCost igTag
  have h_same : flow.Conflict = fun a b =>
      (a, b) ∈ (flow.body.zip liveOuts).flatMap (fun e => e.1.conflicts e.2) ∨
        (b, a) ∈ (flow.body.zip liveOuts).flatMap (fun e => e.1.conflicts e.2) := by
    funext a b
    rw [mem_conflicts_zip h h_outs, mem_conflicts_zip h h_outs, ne_comm (a := b), ← and_or_left,
      ← exists_or]
    simp only [← and_or_left, Conflict]
  refine ⟨ig, h_ig, h_same ▸ h_realizes.draws, fun t ht => ⟨_, h_realizes.lists.lookup_of_mem ?_⟩⟩
  rw [← h.body_eq] at ht
  exact Blueprint.mem_temps.mpr (List.mem_append.mp ht)

/-- For every body that has a flow graph there is an interference graph.  It has nodes for the
registers and the temporaries of the body, and two temporaries that have nodes interfere
exactly if they are in conflict.  So interference is symmetric and irreflexive, the neighbors
of a node are both its successors and its predecessors, and there are twice as many edges as
pairs that interfere. -/
theorem interferenceGraph_exact (h_build : build tag body = .ok flow) (igTag : GraphTag)
    (registers : List Temp) (config : Config) :
    ∃ ig, flow.interferenceGraph igTag registers config = .ok ig ∧
      (∀ t ∈ registers ++ mentions body, ∃ x, ig.node t = .ok x) ∧
      (∀ a b x y, ig.node a = .ok x → ig.node b = .ok y →
        ∃ r, ig.interferes a b = .ok r ∧ ig.interferes b a = .ok r ∧ (r = true ↔ flow.Conflict a b)) ∧
      (∀ a x, ig.node a = .ok x → ig.interferes a a = .ok false) ∧
      (∀ x ∈ ig.graph.graph.nodes, ∃ succs preds, ig.neighbors x = .ok succs ∧
        ig.graph.graph.successors x = .ok succs ∧ ig.graph.graph.predecessors x = .ok preds ∧
          succs.Nodup ∧ preds.Perm succs) ∧
      (ig.graph.graph.edgeCount : ℕ∞) = 2 * ig.interferingPairs.encard := by
  obtain ⟨ig, h_ig, h_draws, h_known⟩ :=
    (build_laidOut h_build).interferenceGraph_draws igTag registers config
  refine ⟨ig, h_ig, fun t ht => ?_, fun a b x y ha hb => ?_, fun a x ha => ?_, fun x hx => ?_, ?_⟩
  · exact (h_known t ht).imp fun _ => InterferenceGraph.node_eq_ok.mpr
  · obtain ⟨r, h_answer, h_iff⟩ := h_draws.interferes_eq ha hb
    obtain ⟨r', h_answer', h_iff'⟩ := h_draws.interferes_eq hb ha
    have h_same : r' = r := by
      rw [Bool.eq_iff_iff, h_iff, h_iff', conflict_comm]
    exact ⟨r, h_answer, h_same ▸ h_answer', h_iff⟩
  · obtain ⟨r, h_answer, h_iff⟩ := h_draws.interferes_eq ha ha
    have h_false : r = false := by
      rw [← Bool.not_eq_true, h_iff]
      exact fun h => h.1 rfl
    rw [h_answer, h_false]
  · exact h_draws.neighbors_eq conflict_comm.mp hx
  · exact h_draws.edgeCount_eq conflict_comm.mp fun h => h.1

/-- A copy that is changed while the original is still to be read. -/
def changedCopy : List Instr :=
  [.move "mov" ⟨"y"⟩ ⟨"x"⟩, .op "inc" [⟨"y"⟩] [⟨"y"⟩], .op "cmp" [] [⟨"x"⟩, ⟨"y"⟩]]

theorem interferenceGraph_exact_changedCopy :
    ∃ flow, build ⟨0⟩ changedCopy = .ok flow ∧
      ∃ ig, flow.interferenceGraph ⟨1⟩ [] default = .ok ig ∧
        (∀ t ∈ [] ++ mentions changedCopy, ∃ x, ig.node t = .ok x) ∧
        (∀ a b x y, ig.node a = .ok x → ig.node b = .ok y →
          ∃ r, ig.interferes a b = .ok r ∧ ig.interferes b a = .ok r ∧ (r = true ↔ flow.Conflict a b)) ∧
        (∀ a x, ig.node a = .ok x → ig.interferes a a = .ok false) ∧
        (∀ x ∈ ig.graph.graph.nodes, ∃ succs preds, ig.neighbors x = .ok succs ∧
          ig.graph.graph.successors x = .ok succs ∧ ig.graph.graph.predecessors x = .ok preds ∧
            succs.Nodup ∧ preds.Perm succs) ∧
        (ig.graph.graph.edgeCount : ℕ∞) = 2 * ig.interferingPairs.encard := by
  obtain ⟨flow, h_build⟩ : ∃ flow, build ⟨0⟩ changedCopy = .ok flow := ⟨_, rfl⟩
  exact ⟨flow, h_build, interferenceGraph_exact h_build ⟨1⟩ [] default⟩

end FlowGraph

end LiveRange
