import Mathlib.Data.Prod.Basic
import LiveRange.Proofs.Flow.Layout

/-! # The shape of a flow graph

The flow graph of a body is known from the body alone, order included: the successors of the
node at a position are the nodes at the positions that may come next (`nextOf`), each at its
first mention, and its predecessors are the nodes that it may come after, by increasing position
(`FlowGraph.build_shaped`).

Building adds the arcs of a body one by one.  What is left after repeats are passed over is one
row of targets for each position, and such a list of rows is easily read by source and by target
(`targets_rows`, `sources_rows`). -/

namespace LiveRange

/-! ## Rows -/

section

variable {α β : Type} {xs : List α} {row : α → List β}

theorem targets_rows [DecidableEq α] (row : α → List β) (h_nodup : xs.Nodup) {x : α} (hx : x ∈ xs) :
    ((xs.flatMap fun a => (row a).map (a, ·)).filter (·.1 = x)).map Prod.snd = row x := by
  have h_row : ∀ a, (((row a).map (a, ·)).filter (·.1 = x)).map Prod.snd =
      if a = x then row a else [] := by
    intro a
    by_cases h_a : a = x <;> simp [List.filter_map, Function.comp_def, h_a]
  rw [List.filter_flatMap, List.map_flatMap, List.flatMap_congr fun a _ => h_row a]
  -- the rows before and after that of x have no edge from x
  obtain ⟨before, after, rfl⟩ := List.append_of_mem hx
  have h_other : ∀ a ∈ before ++ after, (if a = x then row a else []) = [] := by
    intro a ha
    rw [if_neg]
    rintro rfl
    exact (List.nodup_cons.mp (List.nodup_middle.mp h_nodup)).1 ha
  rw [List.forall_mem_append] at h_other
  rw [List.flatMap_append, List.flatMap_cons, List.flatMap_eq_nil_iff.mpr h_other.1,
    List.flatMap_eq_nil_iff.mpr h_other.2, if_pos rfl, List.nil_append, List.append_nil]

theorem sources_rows [DecidableEq β] (xs : List α) (h_nodup : ∀ a, (row a).Nodup) (y : β) :
    ((xs.flatMap fun a => (row a).map (a, ·)).filter (·.2 = y)).map Prod.fst =
      xs.filter (y ∈ row ·) := by
  have h_row : ∀ a, (((row a).map (a, ·)).filter (·.2 = y)).map Prod.fst =
      (Option.guard (y ∈ row ·) a).toList := by
    intro a
    by_cases h_a : y ∈ row a
    · simp [List.filter_map, Function.comp_def, List.filter_eq, h_a,
        List.count_eq_one_of_mem (h_nodup a) h_a]
    · simp [List.filter_map, Function.comp_def, List.filter_eq, h_a, List.count_eq_zero_of_not_mem h_a]
  rw [List.filter_flatMap, List.map_flatMap, List.flatMap_congr fun a _ => h_row a,
    ← List.filterMap_eq_flatMap_toList, List.filterMap_eq_filter]

end

variable {tag : GraphTag} {body : List Instr}

theorem eraseDups_arcs (body : List Instr) : (arcs body).eraseDups =
    (List.range body.length).flatMap fun i => (nextOf body i).eraseDups.map (i, ·) := by
  rw [arcs, eraseDups_flatMap]
  · exact List.flatMap_congr fun i _ => eraseDups_map (Prod.mk_right_injective i) _
  · refine List.nodup_range.imp fun {i j} h_ne e he he' => h_ne ?_
    obtain ⟨_, _, rfl⟩ := List.mem_map.mp he
    obtain ⟨_, _, h_eq⟩ := List.mem_map.mp he'
    exact (Prod.mk.inj h_eq).1.symm

namespace FlowGraph

variable {flow : FlowGraph}

theorem hasEdges_rows (h : build tag body = .ok flow) :
    flow.graph.HasEdges (((List.range body.length).flatMap fun i =>
      (nextOf body i).eraseDups.map (i, ·)).map (Prod.map (NodeId.mk tag) (NodeId.mk tag))) := by
  have h_inj : (NodeId.mk tag).Injective := fun _ _ h_eq => (NodeId.mk.inj h_eq).2
  have h_edges := hasEdges_of_build h
  rwa [foldl_draw_nil, eraseDups_map (h_inj.prodMap h_inj), eraseDups_arcs] at h_edges

/-! ## The graph -/

theorem successors_eq (h : build tag body = .ok flow) {i : Nat} (hi : i < body.length) :
    flow.successors ⟨tag, i⟩ = .ok ((nextOf body i).eraseDups.map (⟨tag, ·⟩)) := by
  obtain ⟨node, h_node, _⟩ := (build_laidOut h).exists_node (List.getElem?_eq_getElem hi)
  refine map_eq_ok.mpr ⟨node, node_eq_ok.mpr h_node, ?_⟩
  rw [(hasEdges_rows h).succs h_node, List.filter_map, List.map_map,
    ← targets_rows (fun i => (nextOf body i).eraseDups) List.nodup_range (List.mem_range.mpr hi),
    List.map_map]
  simp [Function.comp_def]

theorem predecessors_eq (h : build tag body = .ok flow) {j : Nat} (hj : j < body.length) :
    flow.predecessors ⟨tag, j⟩ =
      .ok (((List.range body.length).filter (j ∈ nextOf body ·)).map (⟨tag, ·⟩)) := by
  obtain ⟨node, h_node, _⟩ := (build_laidOut h).exists_node (List.getElem?_eq_getElem hj)
  refine map_eq_ok.mpr ⟨node, node_eq_ok.mpr h_node, ?_⟩
  have h_sources := sources_rows (List.range body.length)
    (fun i => nodup_eraseDups (nextOf body i)) j
  simp only [List.mem_eraseDups] at h_sources
  rw [(hasEdges_rows h).preds h_node, List.filter_map, List.map_map, ← h_sources, List.map_map]
  simp [Function.comp_def]

theorem goesTo_eq_true (h : build tag body = .ok flow) {a b : NodeId} :
    flow.graph.goesTo a b = .ok true ↔
      ∃ i j, a = ⟨tag, i⟩ ∧ b = ⟨tag, j⟩ ∧ j ∈ nextOf body i := by
  rw [(hasEdges_of_build h).goesTo_eq_true, mem_foldl_draw, List.mem_map]
  constructor
  · intro h_edge
    obtain h_none | ⟨⟨i, j⟩, h_arc, h_ends⟩ := h_edge
    · cases h_none
    · cases h_ends
      exact ⟨i, j, rfl, rfl, mem_arcs.mp h_arc⟩
  · intro h_arc
    obtain ⟨i, j, rfl, rfl, h_next⟩ := h_arc
    exact .inr ⟨(i, j), mem_arcs.mpr h_next, rfl⟩

/-- What a flow graph says of the body it was built from. -/
structure Shaped (flow : FlowGraph) (tag : GraphTag) (body : List Instr) : Prop where
  nodes : flow.nodes = (List.range body.length).map (⟨tag, ·⟩)
  instr : ∀ i instr, body[i]? = some instr → flow.instr ⟨tag, i⟩ = .ok instr
  places : ∀ instr ∈ body, ∀ label ∈ instr.targets, ∃ p, placesOf body label = [p]
  successors : ∀ i < body.length,
    flow.successors ⟨tag, i⟩ = .ok ((nextOf body i).eraseDups.map (⟨tag, ·⟩))
  predecessors : ∀ j < body.length, flow.predecessors ⟨tag, j⟩ =
    .ok (((List.range body.length).filter (j ∈ nextOf body ·)).map (⟨tag, ·⟩))
  goesTo : ∀ a b, flow.graph.goesTo a b = .ok true ↔
    ∃ i j, a = ⟨tag, i⟩ ∧ b = ⟨tag, j⟩ ∧ j ∈ nextOf body i
  irreflexive : ∀ a, flow.graph.goesTo a a ≠ .ok true
  edgeCount : flow.graph.edgeCount =
    ((List.range body.length).flatMap fun i => (nextOf body i).eraseDups).length

theorem build_shaped (h : build tag body = .ok flow) : flow.Shaped tag body where
  nodes := (build_laidOut h).nodes_eq
  instr i instr h_instr := instr_eq_ok.mpr ((build_laidOut h).exists_node h_instr)
  places instr h_instr label h_target := by
    obtain ⟨labels, h_labels, h⟩ := bind_eq_ok.mp h
    obtain ⟨edges, h_edges, _⟩ := bind_eq_ok.mp h
    exact exists_place_of_flowEdges h_labels h_edges h_instr h_target
  successors _ hi := successors_eq h hi
  predecessors _ hj := predecessors_eq h hj
  goesTo _ _ := goesTo_eq_true h
  irreflexive a h_self := by
    obtain ⟨i, j, rfl, h_same, h_next⟩ := (goesTo_eq_true h).mp h_self
    cases h_same
    exact notMem_nextOf_self h_next
  edgeCount := by
    rw [(hasEdges_rows h).edgeCount_eq, List.length_map, List.length_flatMap, List.length_flatMap]
    simp only [List.length_map]

/-- A loop out of which a branch leads to its next instruction, twice to the end and back to the
top. -/
def manyWays : List Instr :=
  [.place ⟨"top"⟩, .branch "jmp" [⟨"x"⟩] [⟨"end"⟩, ⟨"next"⟩, ⟨"end"⟩, ⟨"top"⟩], .place ⟨"next"⟩,
    .jump "goto" [] [⟨"top"⟩], .place ⟨"end"⟩]

def manyWaysFlow : FlowGraph := (build ⟨0⟩ manyWays).toOption.getD ⟨.empty ⟨0⟩⟩

theorem build_shaped_manyWays : build ⟨0⟩ manyWays = .ok manyWaysFlow ∧
    (nextOf manyWays 1).eraseDups = [2, 4, 0] ∧ manyWaysFlow.Shaped ⟨0⟩ manyWays :=
  ⟨rfl, rfl, build_shaped rfl⟩

end FlowGraph

end LiveRange
