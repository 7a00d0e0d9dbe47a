import LiveRange.Interference.Build
import LiveRange.Proofs.Fallible
import LiveRange.Proofs.Graph.Keyed

/-! # What building an interference graph adds

`Instr.conflicts` lists the pairs of temporaries that an instruction sets apart, and building
the graph comes down to setting apart the pairs of all instructions, one after the other
(`InterferenceGraph.build_eq`).  Two things in the code have to be seen through for that:

* a node is requested for every temporary that comes up, but all of them have one by then;
* an operation goes back over earlier moves, but the pairs it sets apart there are pairs it
  sets apart anyway (`separateMoves_separate`). -/

namespace LiveRange

/-! ## The pairs of an instruction -/

namespace Instr

def copies : Instr → Temp → Temp → Bool
  | .move _ dst src, d, s => dst = d ∧ src = s
  | _, _, _ => false

/-- The pairs an instruction sets apart, given the temporaries live after it: each temporary
it defines and each other one that is live, except for the two ends of a move. -/
def conflicts (instr : Instr) (liveOut : List Temp) : List (Temp × Temp) :=
  instr.defs.flatMap fun d => (liveOut.filter fun t => t ≠ d ∧ ¬ instr.copies d t).map (d, ·)

variable {instr : Instr} {d s : Temp}

theorem copies_iff : instr.copies d s = true ↔ ∃ template, instr = .move template d s := by
  cases instr <;> simp [copies]

theorem mem_conflicts {liveOut : List Temp} :
    (d, s) ∈ instr.conflicts liveOut ↔
      d ∈ instr.defs ∧ s ∈ liveOut ∧ s ≠ d ∧ ¬ instr.copies d s = true := by
  simp only [conflicts, List.mem_flatMap, List.mem_map, List.mem_filter, decide_eq_true_eq,
    Prod.mk.injEq]
  constructor
  · intro h_pair
    obtain ⟨_, h_def, _, ⟨h_live, h_apart⟩, rfl, rfl⟩ := h_pair
    exact ⟨h_def, h_live, h_apart⟩
  · intro h_pair
    obtain ⟨h_def, h_live, h_apart⟩ := h_pair
    exact ⟨d, h_def, s, ⟨h_live, h_apart⟩, rfl, rfl⟩

end Instr

namespace InterferenceGraph

variable {ig : InterferenceGraph} {nodeOf : Temp → Option NodeId} {x y : Temp} {a b : NodeId}

/-! ## Recording conflicts and moves -/

/-- Sets the temporaries of some pairs apart, in both directions, and puts moves on record. -/
def record (ig : InterferenceGraph) (pairs : List (Temp × Temp)) (moves : List Move) :
    InterferenceGraph :=
  { ig with graph := ig.graph.setApart pairs, moves := ig.moves ++ moves }

theorem record_nil (ig : InterferenceGraph) : ig.record [] [] = ig := by
  simp [record, KeyedGraph.setApart_nil]

theorem record_append (ig : InterferenceGraph) (pairs more : List (Temp × Temp))
    (moves further : List Move) :
    ig.record (pairs ++ more) (moves ++ further) = (ig.record pairs moves).record more further := by
  simp only [record, KeyedGraph.setApart_append, List.append_assoc]

/-- The graph is in order, and its index leads where `nodeOf` says. -/
structure Ready (ig : InterferenceGraph) (nodeOf : Temp → Option NodeId) : Prop where
  sound : ig.graph.Sound
  lookup : ∀ t, ig.graph.lookup t = nodeOf t

theorem Ready.record (h : ig.Ready nodeOf) (pairs : List (Temp × Temp)) (moves : List Move) :
    (ig.record pairs moves).Ready nodeOf :=
  ⟨h.sound.setApart pairs, h.lookup⟩

/-- Steps that each record something record all of it. -/
theorem foldl_eq_record {α : Type} {step : InterferenceGraph → α → InterferenceGraph}
    {pairs : α → List (Temp × Temp)} {moves : α → List Move} {xs : List α}
    (h_step : ∀ ig : InterferenceGraph, ig.Ready nodeOf → ∀ z ∈ xs,
      step ig z = ig.record (pairs z) (moves z)) (h : ig.Ready nodeOf) :
    xs.foldl step ig = ig.record (xs.flatMap pairs) (xs.flatMap moves) := by
  induction xs generalizing ig with
  | nil => exact (record_nil ig).symm
  | cons z rest ih =>
    rw [List.foldl_cons, h_step ig h z List.mem_cons_self,
      ih (fun ig' h' w hw => h_step ig' h' w (List.mem_cons_of_mem z hw)) (h.record _ _),
      List.flatMap_cons, List.flatMap_cons, record_append]

theorem foldl_eq_record_pairs {α : Type} {step : InterferenceGraph → α → InterferenceGraph}
    {pairs : α → List (Temp × Temp)} {xs : List α}
    (h_step : ∀ ig : InterferenceGraph, ig.Ready nodeOf → ∀ z ∈ xs, step ig z = ig.record (pairs z) [])
    (h : ig.Ready nodeOf) : xs.foldl step ig = ig.record (xs.flatMap pairs) [] := by
  rw [foldl_eq_record h_step h, List.flatMap_eq_nil_iff.mpr fun _ _ => rfl]

theorem nodeFor_of_lookup (h : ig.graph.lookup x = some a) : ig.nodeFor x = (a, ig) := by
  simp only [nodeFor, KeyedGraph.nodeFor_of_lookup h]

theorem separate_eq (h : ig.Ready nodeOf) (h_ne : x ≠ y) (hx : nodeOf x = some a)
    (hy : nodeOf y = some b) : ig.separate a b = ig.record [(x, y)] [] := by
  rw [← h.lookup] at hx hy
  have h_nodes : a ≠ b := by
    intro h_same
    subst h_same
    exact h_ne (h.sound.indexed.key_eq hx hy)
  have h_pair : [(x, y)].flatMap ig.graph.bothWays = [(a, b), (b, a)] := by
    simp [KeyedGraph.bothWays, hx, hy]
  rw [separate, if_neg h_nodes, record, KeyedGraph.setApart, h_pair, List.append_nil]
  rfl

theorem sound_separate (h : ig.graph.Sound) (a b : NodeId) : (ig.separate a b).graph.Sound := by
  unfold separate
  split
  · exact h
  · obtain ⟨_, h_edges⟩ := h.edges
    refine ⟨h.indexed.of_labels ?_, (h_edges.link_both a b).1⟩
    exact (Graph.labels_link _ b a).trans (Graph.labels_link _ a b)

theorem separate_again (h : ig.graph.Sound) (a b : NodeId) :
    (ig.separate a b).separate a b = ig.separate a b := by
  unfold separate
  split
  · rfl
  · obtain ⟨_, h_edges⟩ := h.edges
    simp only [KeyedGraph.link, (h_edges.link_both a b).2]

/-- Going back over earlier moves first changes nothing: the ends of such a move are the two
nodes that are set apart right after. -/
theorem separateMoves_separate (h : ig.graph.Sound) (a b : NodeId) :
    (ig.separateMoves a b).separate a b = ig.separate a b := by
  -- however many such moves there are, each sets the same two nodes apart
  have h_fold : ∀ (moves : List Move) (ig : InterferenceGraph), ig.graph.Sound →
      (∀ m ∈ moves, m.dst = a ∧ m.src = b) →
      (moves.foldl (fun ig m => ig.separate m.dst m.src) ig).separate a b = ig.separate a b := by
    intro moves
    induction moves with
    | nil => exact fun _ _ _ => rfl
    | cons m rest ih =>
      intro ig h h_ends
      rw [List.forall_mem_cons] at h_ends
      rw [List.foldl_cons, h_ends.1.1, h_ends.1.2, ih _ (sound_separate h a b) h_ends.2,
        separate_again h]
  refine h_fold _ ig h fun m hm => ?_
  simpa using (List.mem_filter.mp hm).2

/-! ## One instruction -/

/-- The moves an instruction adds to those on record: itself, if it is one. -/
def movesOf (nodeOf : Temp → Option NodeId) : Instr → List Move
  | .move _ dst src =>
    match nodeOf dst, nodeOf src with
    | some d, some s => [⟨d, s⟩]
    | _, _ => []
  | _ => []

theorem addDef_eq (h : ig.Ready nodeOf) (hx : nodeOf x = some a) {liveOut : List Temp}
    (h_live : ∀ t ∈ liveOut, ∃ id, nodeOf t = some id) :
    ig.addDef liveOut x = ig.record ((liveOut.filter (· ≠ x)).map (x, ·)) [] := by
  simp only [addDef, nodeFor_of_lookup ((h.lookup x).trans hx)]
  rw [List.map_eq_flatMap]
  refine foldl_eq_record_pairs (fun ig h t ht => ?_) h
  obtain ⟨h_mem, h_ne⟩ := List.mem_filter.mp ht
  obtain ⟨o, ho⟩ := h_live t h_mem
  simp only [nodeFor_of_lookup ((h.lookup t).trans ho), separateMoves_separate h.sound]
  exact separate_eq h (of_decide_eq_true h_ne).symm hx ho

theorem addMove_eq (h : ig.Ready nodeOf) (hx : nodeOf x = some a) (hy : nodeOf y = some b)
    {liveOut : List Temp} (h_live : ∀ t ∈ liveOut, ∃ id, nodeOf t = some id) :
    ig.addMove x y liveOut =
      ig.record ((liveOut.filter fun t => t ≠ x ∧ t ≠ y).map (x, ·)) [⟨a, b⟩] := by
  have h_fold : (liveOut.filter fun t => t ≠ x ∧ t ≠ y).foldl (fun ig t =>
      (ig.nodeFor t).2.separate a (ig.nodeFor t).1) ig =
        ig.record ((liveOut.filter fun t => t ≠ x ∧ t ≠ y).map (x, ·)) [] := by
    rw [List.map_eq_flatMap]
    refine foldl_eq_record_pairs (fun ig h t ht => ?_) h
    obtain ⟨h_mem, h_ne⟩ := List.mem_filter.mp ht
    obtain ⟨o, ho⟩ := h_live t h_mem
    simp only [nodeFor_of_lookup ((h.lookup t).trans ho)]
    exact separate_eq h (of_decide_eq_true h_ne).1.symm hx ho
  simp only [addMove, nodeFor_of_lookup ((h.lookup x).trans hx),
    nodeFor_of_lookup ((h.lookup y).trans hy)]
  rw [h_fold]
  simp only [record, List.append_nil]

/-- An instruction sets its conflicts apart, and goes on record if it is a move. -/
theorem addInstr_eq (h : ig.Ready nodeOf) {instr : Instr} {liveOut : List Temp}
    (h_named : ∀ t ∈ instr.mentions, ∃ id, nodeOf t = some id)
    (h_live : ∀ t ∈ liveOut, ∃ id, nodeOf t = some id) :
    ig.addInstr instr liveOut = ig.record (instr.conflicts liveOut) (movesOf nodeOf instr) := by
  cases instr with
  | move template dst src =>
    obtain ⟨d, hd⟩ := h_named dst (by simp [Instr.mentions, Instr.defs])
    obtain ⟨s, hs⟩ := h_named src (by simp [Instr.mentions, Instr.uses])
    have h_pairs : (Instr.move template dst src).conflicts liveOut =
        (liveOut.filter fun t => t ≠ dst ∧ t ≠ src).map (dst, ·) := by
      simp [Instr.conflicts, Instr.defs, Instr.copies, ne_comm (b := src)]
    rw [h_pairs, addInstr, addMove_eq h hd hs h_live]
    simp only [movesOf, hd, hs]
  | oper template dst src jump =>
    have h_pairs : (Instr.oper template dst src jump).conflicts liveOut =
        dst.flatMap fun d => (liveOut.filter (· ≠ d)).map (d, ·) := by
      simp [Instr.conflicts, Instr.defs, Instr.copies]
    -- an operation copies nothing, so no pair is left out
    rw [h_pairs, addInstr]
    · refine foldl_eq_record_pairs (fun ig h d hd => ?_) h
      obtain ⟨id, h_id⟩ := h_named d (List.mem_append_left _ hd)
      exact addDef_eq h h_id h_live
    · intro _ _ _ h_move
      cases h_move
  | label text name => exact (record_nil ig).symm

/-! ## All instructions -/

theorem foldl_addInstr (h : ig.Ready nodeOf) {steps : List (Instr × List Temp)}
    (h_known : ∀ e ∈ steps, ∀ t ∈ e.1.mentions ++ e.2, ∃ id, nodeOf t = some id) :
    steps.foldl (fun ig (instr, liveOut) => ig.addInstr instr liveOut) ig =
      ig.record (steps.flatMap fun e => e.1.conflicts e.2)
        (steps.flatMap fun e => movesOf nodeOf e.1) :=
  foldl_eq_record (fun _ h e he => addInstr_eq h
    (fun t ht => h_known e he t (List.mem_append_left _ ht))
    (fun t ht => h_known e he t (List.mem_append_right _ ht))) h

theorem ofTemps_ready (tag : GraphTag) (registers mentions : List Temp) (model : SpillCost) :
    (ofTemps tag registers mentions model).graph.Indexed ∧
      (ofTemps tag registers mentions model).graph.graph.HasEdges [] ∧
      ∀ t ∈ registers ++ mentions,
        ∃ id, (ofTemps tag registers mentions model).graph.lookup t = some id := by
  refine ⟨((KeyedGraph.indexed_empty tag).nodesFor registers).nodesFor mentions,
    KeyedGraph.hasEdges_nodesFor (KeyedGraph.hasEdges_nodesFor (Graph.hasEdges_empty tag) _) _,
    fun t ht => ?_⟩
  rcases List.mem_append.mp ht with h_register | h_mention
  · obtain ⟨id, h_id⟩ := KeyedGraph.lookup_nodesFor_of_mem h_register
    exact ⟨id, KeyedGraph.lookup_nodesFor_of_some h_id mentions⟩
  · exact KeyedGraph.lookup_nodesFor_of_mem h_mention

/-- Building the graph of a flow graph, from a table that knows its nodes and holds no
temporary the flow graph does not mention, sets the conflicts of all instructions apart. -/
theorem build_eq {tag : GraphTag} {flow : FlowGraph} {live : Liveness} {liveOuts : List (List Temp)}
    (h_outs : flow.nodes.mapM live.liveOutTemps = .ok liveOuts)
    (h_live : ∀ ts ∈ liveOuts, ∀ t ∈ ts, t ∈ mentions flow.body) (registers : List Temp)
    (model : SpillCost) :
    build tag flow live registers model = .ok
      ((ofTemps tag registers (mentions flow.body) model).record
        ((flow.body.zip liveOuts).flatMap fun e => e.1.conflicts e.2)
        ((flow.body.zip liveOuts).flatMap fun e =>
          movesOf (ofTemps tag registers (mentions flow.body) model).graph.lookup e.1)) := by
  obtain ⟨h_indexed, h_edges, h_known⟩ := ofTemps_ready tag registers (mentions flow.body) model
  have h_ready : (ofTemps tag registers (mentions flow.body) model).Ready
      (ofTemps tag registers (mentions flow.body) model).graph.lookup :=
    ⟨⟨h_indexed, _, h_edges⟩, fun _ => rfl⟩
  rw [build, h_outs]
  refine congrArg Except.ok (foldl_addInstr h_ready ?_)
  intro ⟨instr, liveOut⟩ he t ht
  obtain ⟨h_instr, h_out⟩ := List.of_mem_zip he
  refine h_known t (List.mem_append_right _ ?_)
  rcases List.mem_append.mp ht with h_named | h_live_t
  · exact List.mem_flatMap.mpr ⟨instr, h_instr, h_named⟩
  · exact h_live liveOut h_out t h_live_t

end InterferenceGraph

end LiveRange
