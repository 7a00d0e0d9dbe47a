import LiveRange.Proofs.Graph.Refusal

/-! # Which handles are looked at

A question to a graph has a subject, the node in which the answer is found.  A question about two
nodes looks only at the first: whether there is an edge is a matter of the lists of that node, and
the other handle is searched for in them.  So the subject alone is heeded (`Graph.Heeds`):

* a question is refused exactly if its subject names no live node, and the refusal tells whether the
  subject ever named one;
* if only the other handle names no live node, the answer is that there is no edge, for no list
  names such a handle.

This holds of plain and keyed graphs alike, whatever happened to them.  Asked step by step, with the
spans of the lineage to tell the handles of a graph, a question has the same answer and leaves the
graph as it was (`Graph.queries_heed_subject`). -/

namespace LiveRange.Graph

open Edit

variable {G A E P : Type}

/-! ## Questions -/

/-- A question about one node, or about the edges between two. -/
inductive Query where
  | payload (id : NodeId)
  | successors (id : NodeId)
  | predecessors (id : NodeId)
  | adj (id : NodeId)
  | inDegree (id : NodeId)
  | outDegree (id : NodeId)
  | degree (id : NodeId)
  | goesTo (a b : NodeId)
  | comesFrom (a b : NodeId)
  | isAdjacent (a b : NodeId)

inductive Reply (P : Type) where
  | payload (payload : P)
  | nodes (ids : List NodeId)
  | count (n : Nat)
  | flag (b : Bool)

def Query.handles : Query → List NodeId
  | .payload id | .successors id | .predecessors id | .adj id => [id]
  | .inDegree id | .outDegree id | .degree id => [id]
  | .goesTo a b | .comesFrom a b | .isAdjacent a b => [a, b]

/-- The node in which the answer is found. -/
def Query.subject : Query → NodeId
  | .payload id | .successors id | .predecessors id | .adj id => id
  | .inDegree id | .outDegree id | .degree id => id
  | .goesTo a _ | .comesFrom a _ | .isAdjacent a _ => a

/-- What a graph answers. -/
def ask (g : Graph P) : Query → Except Misuse (Reply P)
  | .payload id => .payload <$> g.payload id
  | .successors id => .nodes <$> g.successors id
  | .predecessors id => .nodes <$> g.predecessors id
  | .adj id => .nodes <$> g.adj id
  | .inDegree id => .count <$> g.inDegree id
  | .outDegree id => .count <$> g.outDegree id
  | .degree id => .count <$> g.degree id
  | .goesTo a b => .flag <$> g.goesTo a b
  | .comesFrom a b => .flag <$> g.comesFrom a b
  | .isAdjacent a b => .flag <$> g.isAdjacent a b

/-- A question asked step by step.  A degree is the sum of two counts, and whether two nodes are
adjacent is asked in one direction, and in the other only if there is no edge in that one. -/
def consult (known : NodeId → Bool) : Query → Edit (Graph P) Misuse (Reply P)
  | .payload id => return .payload (← look known id).payload
  | .successors id => return .nodes (← look known id).succs
  | .predecessors id => return .nodes (← look known id).preds
  | .adj id => do
    let node ← look known id
    return .nodes (node.succs ++ node.preds)
  | .inDegree id => return .count (← look known id).preds.length
  | .outDegree id => return .count (← look known id).succs.length
  | .degree id => do
    let entering := (← look known id).preds.length
    let leaving := (← look known id).succs.length
    return .count (entering + leaving)
  | .goesTo a b => return .flag (decide (b ∈ (← look known a).succs))
  | .comesFrom a b => return .flag (decide (b ∈ (← look known a).preds))
  | .isAdjacent a b => do
    if b ∈ (← look known a).succs then return .flag true
    else return .flag (decide (b ∈ (← look known a).preds))

/-- What the subject of a question tells. -/
def Query.read (node : Node P) : Query → Reply P
  | .payload _ => .payload node.payload
  | .successors _ => .nodes node.succs
  | .predecessors _ => .nodes node.preds
  | .adj _ => .nodes (node.succs ++ node.preds)
  | .inDegree _ => .count node.preds.length
  | .outDegree _ => .count node.succs.length
  | .degree _ => .count (node.preds.length + node.succs.length)
  | .goesTo _ b => .flag (decide (b ∈ node.succs))
  | .comesFrom _ b => .flag (decide (b ∈ node.preds))
  | .isAdjacent _ b => .flag (decide (b ∈ node.succs) || decide (b ∈ node.preds))

variable {g : Graph P} {q : Query}

/-- Every question looks its subject up and reads the answer off what it finds. -/
theorem ask_eq (g : Graph P) (q : Query) : g.ask q = (q.read ·) <$> g.node q.subject := by
  cases q with
  | payload | successors | predecessors | adj | inDegree | outDegree | degree =>
    rename_i id
    show _ <$> _ <$> g.node id = _ <$> g.node id
    cases g.node id <;> rfl
  | goesTo a | comesFrom a | isAdjacent a =>
    show _ <$> _ <$> g.node a = _ <$> g.node a
    cases g.node a <;> rfl

theorem attempt_consult {known : NodeId → Bool} (h_known : known q.subject = g.knows q.subject) :
    (consult known q).attempt g = (g.ask q, g) := by
  have h_look := attempt_look h_known
  rw [ask_eq]
  cases h_node : g.node q.subject with
  | error misuse =>
    -- whatever is asked, the subject is looked up first
    rw [h_node] at h_look
    cases q <;> exact attempt_bind_of_error h_look _
  | ok node =>
    rw [h_node] at h_look
    change _ = (Except.ok (q.read node), g)
    cases q with
    | degree id =>
      replace h_look : (look known id).attempt g = (.ok node, g) := h_look
      rw [consult, attempt_bind_of_ok h_look, attempt_bind_of_ok h_look]
      rfl
    | isAdjacent a b =>
      replace h_look : (look known a).attempt g = (.ok node, g) := h_look
      rw [consult, attempt_bind_of_ok h_look]
      by_cases h_mem : b ∈ node.succs
      · rw [if_pos h_mem, Query.read, decide_eq_true h_mem, Bool.true_or]
        rfl
      · rw [if_neg h_mem, attempt_bind_of_ok h_look, Query.read, decide_eq_false h_mem,
          Bool.false_or]
        rfl
    | _ => exact attempt_bind_of_ok h_look _

/-! ## The subject is heeded -/

/-- How a graph treats the handles of a question; `named` tells which ever named a node. -/
structure Heeds (g : Graph P) (named : NodeId → Prop) (q : Query) : Prop where
  refused_iff : (∃ misuse, g.ask q = .error misuse) ↔ q.subject ∉ g.nodes
  reported : q.subject ∉ g.nodes →
    (named q.subject → g.ask q = .error (.removed q.subject)) ∧
      (¬ named q.subject → g.ask q = .error (.foreign q.subject))
  /-- Another handle without a node goes unnoticed. -/
  unnoticed : q.subject ∈ g.nodes → ∀ id ∈ q.handles, id ∉ g.nodes → g.ask q = .ok (.flag false)

theorem Query.read_of_absent {node : Node P} {id : NodeId} (h_id : id ∈ q.handles)
    (h_other : id ≠ q.subject) (h_succs : id ∉ node.succs) (h_preds : id ∉ node.preds) : q.read node = .flag false := by
  cases q with
  | payload | successors | predecessors | adj | inDegree | outDegree | degree =>
    exact absurd (List.mem_singleton.mp h_id) h_other
  | goesTo a b | comesFrom a b | isAdjacent a b =>
    obtain rfl : id = b := by
      rcases List.mem_cons.mp h_id with h_first | h_second
      · exact absurd h_first h_other
      · exact List.mem_singleton.mp h_second
    simp [Query.read, h_succs, h_preds]

theorem Heeds.of_hasEdges {edges : List (NodeId × NodeId)} {named : NodeId → Prop}
    (h : g.HasEdges edges) (h_named : ∀ id, g.knows id = true ↔ named id) (q : Query) :
    Heeds g named q := by
  have h_ask := ask_eq g q
  by_cases h_subject : q.subject ∈ g.nodes
  · obtain ⟨node, h_node⟩ := contains_iff.mp (mem_nodes.mp h_subject)
    rw [node_eq_ok.mpr h_node] at h_ask
    refine ⟨⟨fun h_refused => ?_, fun h_dead => absurd h_subject h_dead⟩,
      fun h_dead => absurd h_subject h_dead, fun _ id h_id h_dead => ?_⟩
    · obtain ⟨misuse, h_refused⟩ := h_refused
      rw [h_ask] at h_refused
      cases h_refused
    · -- both ends of an edge are live
      have h_succs : id ∉ node.succs := fun h_mem =>
        h_dead (mem_nodes.mpr (h.live _ ((h.mem_succs h_node).mp h_mem)).2)
      have h_preds : id ∉ node.preds := fun h_mem =>
        h_dead (mem_nodes.mpr (h.live _ ((h.mem_preds h_node).mp h_mem)).1)
      have h_other : id ≠ q.subject := fun h_same => h_dead (h_same ▸ h_subject)
      rw [h_ask]
      exact congrArg Except.ok (Query.read_of_absent h_id h_other h_succs h_preds)
  · rw [node_of_notMem h_subject] at h_ask
    refine ⟨⟨fun _ => h_subject, fun _ => ⟨_, h_ask⟩⟩, fun _ => ⟨fun h_some => ?_, fun h_none => ?_⟩,
      fun h_live => absurd h_live h_subject⟩
    · rw [h_ask, if_pos ((h_named _).mpr h_some)]
      rfl
    · rw [h_ask, if_neg (mt (h_named _).mp h_none)]
      rfl

/-! ## Whatever happened -/

/-- The graphs in every family heed the subjects of questions, and have lineages with which they
may be asked step by step. -/
def Consulted (K : Kind G A (Answer P) E) (held : Held G A P) : Prop :=
  ∀ requests i g, (K.run requests).members[i]? = some g →
    ∃ l, ((Traced.kind K held .start).run requests).members[i]? = some ⟨g, l⟩ ∧
      ∀ q, Heeds (held.graph g) (Named (line (K.run requests).past i)) q ∧
        (Genuine (K.run requests).past (held.graph g) q.subject →
          (consult l.owns q).attempt (held.graph g) = ((held.graph g).ask q, held.graph g))

theorem consulted_of_reached {K : Kind G A (Answer P) E} {held : Held G A P}
    (h_holds : Holds K held) (h_make : ∀ tag, held.graph (K.make tag) = Graph.empty tag)
    (h_reached : ∀ requests {i g}, (K.run requests).members[i]? = some g →
      Reached (K.run requests).past (line (K.run requests).past i) (held.graph g)) :
    Consulted K held := by
  intro requests i g h_g
  have h := h_reached requests h_g
  obtain ⟨edges, h_edges⟩ := h.edges
  obtain ⟨l, h_l, h_covers⟩ := Traced.exists_covers h_holds h_make h_g
  refine ⟨l, h_l, fun q => ⟨.of_hasEdges h_edges h.knows_iff q, fun h_genuine => ?_⟩⟩
  exact attempt_consult (h_covers.owns_eq_knows (h.own _ h_genuine))

variable {κ : Type} [Ord κ] [Std.TransOrd κ] [Std.LawfulEqOrd κ]

/-- Plain and keyed graphs refuse a question exactly at a subject without a live node, and say
whether it ever named one.  At any other handle without a live node they answer that there is no
edge. -/
theorem queries_heed_subject :
    Consulted (Graph.kind : Kind (Graph P) _ _ _) held ∧
      Consulted (KeyedGraph.kind : Kind (KeyedGraph κ) _ _ _) KeyedGraph.held :=
  ⟨consulted_of_reached kind_holds (fun _ => rfl) run_reached,
    consulted_of_reached KeyedGraph.holds (fun _ => rfl) KeyedGraph.run_reached⟩

/-- The copy has removed a node that its source still has.  The removed node is refused as a
subject, but as the other end of an edge it goes unnoticed. -/
theorem queries_heed_subject_reuse :
    ∃ g, (KeyedGraph.kind.run KeyedGraph.reuse).members[1]? = some g ∧ ⟨⟨0⟩, 0⟩ ∉ g.graph.nodes ∧
      g.graph.ask (.goesTo ⟨⟨0⟩, 0⟩ ⟨⟨0⟩, 1⟩) = .error (.removed ⟨⟨0⟩, 0⟩) ∧
      g.graph.ask (.goesTo ⟨⟨0⟩, 1⟩ ⟨⟨0⟩, 0⟩) = .ok (.flag false) ∧
      g.graph.ask (.comesFrom ⟨⟨0⟩, 1⟩ ⟨⟨0⟩, 0⟩) = .ok (.flag false) ∧
      g.graph.ask (.isAdjacent ⟨⟨0⟩, 1⟩ ⟨⟨0⟩, 0⟩) = .ok (.flag false) := by
  obtain ⟨g, h_g, h_dead, h_live⟩ : ∃ g, (KeyedGraph.kind.run KeyedGraph.reuse).members[1]? = some g ∧
      ⟨⟨0⟩, 0⟩ ∉ g.graph.nodes ∧ ⟨⟨0⟩, 1⟩ ∈ g.graph.nodes := ⟨_, rfl, by decide, by decide⟩
  obtain ⟨l, -, h_heeds⟩ :=
    (queries_heed_subject (P := Nat) (κ := Nat)).2 KeyedGraph.reuse 1 g h_g
  have h_other : ∀ q : Query, q.subject = ⟨⟨0⟩, 1⟩ → ⟨⟨0⟩, 0⟩ ∈ q.handles →
      g.graph.ask q = .ok (.flag false) := fun q h_subject h_id =>
    (h_heeds q).1.unnoticed (h_subject ▸ h_live) _ h_id h_dead
  refine ⟨g, h_g, h_dead, ?_, h_other _ rfl (by decide), h_other _ rfl (by decide),
    h_other _ rfl (by decide)⟩
  exact ((h_heeds (.goesTo ⟨⟨0⟩, 0⟩ ⟨⟨0⟩, 1⟩)).1.reported h_dead).1
    ⟨0, .newNode 7, List.mem_of_getElem? (i := 4) rfl⟩

end LiveRange.Graph
