import LiveRange.Proofs.Graph.InPlace
import LiveRange.Proofs.Interference.Renaming

/-! # Interference graphs that are copied and handed over

Whoever allocates registers takes an interference graph apart: it hands over its keyed graph and
its moves, and from then on nodes and edges of that graph come and go.  A `Holding` is either of
the two, and holdings are the members of a family that starts with one interference graph.  A copy
of the keyed graph alone is a copy of the whole that is handed over.

Each member has the moves of the first one.  A node that the first one has is also a node of a
member, with its temporary, until that node is removed along the line of the member
(`Holding.Kept`).  So a move keeps its two ends, and it makes no difference whether a member tells
its nodes by their tags or by its lineage (`FlowGraph.interferenceGraph_kept`). -/

namespace LiveRange

/-! ## Holdings -/

/-- An interference graph, or what is left of one that was handed over. -/
inductive Holding where
  | whole (ig : InterferenceGraph)
  | parts (graph : KeyedGraph Temp) (moves : List Move)

namespace Holding

def graph : Holding → KeyedGraph Temp
  | whole ig => ig.graph
  | parts graph _ => graph

def moves : Holding → List Move
  | whole ig => ig.moves
  | parts _ moves => moves

inductive Action where
  | handOver
  /-- Changes the keyed graph, once it is handed over. -/
  | graph (action : KeyedGraph.Action Temp)

inductive Refusal where
  | handedOver
  | notHandedOver
  | graph (refusal : KeyedGraph.Refusal Temp)

def copy : Holding → GraphTag → Holding
  | whole ig, tag => whole (ig.clone tag)
  | parts graph moves, tag => parts (graph.clone tag) moves

def act : Holding → Action → Except Refusal (Graph.Answer Temp × Holding)
  | whole ig, .handOver => .ok (.done, parts ig.graph ig.moves)
  | whole _, .graph _ => .error .notHandedOver
  | parts _ _, .handOver => .error .handedOver
  | parts graph moves, .graph action =>
    (graph.act action |>.map fun (answer, graph) => (answer, parts graph moves)).mapError .graph

/-- Members are made as further copies of the interference graph. -/
def kind (ig : InterferenceGraph) : Kind Holding Action (Graph.Answer Temp) Refusal :=
  ⟨fun tag => whole (ig.clone tag), copy, act⟩

/-- A copy of the keyed graph alone is a copy of the whole that is handed over. -/
theorem act_copy_handOver (ig : InterferenceGraph) (tag : GraphTag) :
    ((whole ig).copy tag).act .handOver = .ok (.done, parts (ig.graph.clone tag) ig.moves) := rfl

/-- What a sequence of requests leaves of an interference graph. -/
def run (ig : InterferenceGraph) (supply : TagSupply) (requests : List (Request Action)) :
    Family Holding Action (Graph.Answer Temp) Refusal :=
  (kind ig).runFrom ⟨supply, [whole ig], []⟩ requests

theorem outcome_parts (ig : InterferenceGraph) (graph : KeyedGraph Temp) (moves : List Move)
    (action : KeyedGraph.Action Temp) : (kind ig).outcome (parts graph moves) (.graph action) =
      ((KeyedGraph.kind.outcome graph action).1.mapError .graph,
        parts (KeyedGraph.kind.outcome graph action).2 moves) := by
  cases h_act : graph.act action with
  | ok result =>
    rw [Kind.outcome_of_ok (K := KeyedGraph.kind) h_act]
    refine Kind.outcome_of_ok ?_
    change (graph.act action |>.map _).mapError _ = _
    rw [h_act]
    rfl
  | error refusal =>
    rw [Kind.outcome_of_error (K := KeyedGraph.kind) h_act]
    refine Kind.outcome_of_error ?_
    change (graph.act action |>.map _).mapError _ = _
    rw [h_act]
    rfl

/-- Once a member is handed over, a change to live nodes is not refused. -/
theorem exists_outcome_of_live (ig : InterferenceGraph) {graph : KeyedGraph Temp} (moves : List Move)
    {m : Graph.Mutation} (h : ∀ a ∈ m.handles, a ∈ graph.graph.nodes) :
    ∃ answer graph', graph.act (KeyedGraph.keyedAction m) = .ok (answer, graph') ∧
      Graph.Suits graph.graph.labels m.action answer ∧
      (kind ig).outcome (parts graph moves) (.graph (KeyedGraph.keyedAction m)) =
        (.ok answer, parts graph' moves) := by
  obtain ⟨answer, graph', h_act, h_suits⟩ := KeyedGraph.exists_act_of_live h
  refine ⟨answer, graph', h_act, h_suits, ?_⟩
  rw [outcome_parts, Kind.outcome_of_ok (K := KeyedGraph.kind) h_act]
  rfl

/-! ## Holdings with lineages -/

/-- What an action on a member asks of its graph. -/
def plain : Holding → Action → Option (Graph.Action Temp)
  | parts graph _, .graph action => graph.plain action
  | _, _ => none

def held : Graph.Held Holding Action Temp := ⟨(·.graph.graph), plain⟩

/-- An action that is not refused hands over a member, or it is one on a keyed graph. -/
theorem act_eq_ok {member member' : Holding} {action : Action} {answer : Graph.Answer Temp}
    (h : member.act action = .ok (answer, member')) :
    (∃ ig, member = whole ig ∧ action = .handOver ∧ member' = parts ig.graph ig.moves) ∨
      ∃ graph graph' moves change, member = parts graph moves ∧ action = .graph change ∧
        graph.act change = .ok (answer, graph') ∧ member' = parts graph' moves := by
  cases member with
  | whole ig =>
    cases action with
    | handOver =>
      cases h
      exact .inl ⟨ig, rfl, rfl, rfl⟩
    | graph change => cases h
  | parts graph moves =>
    cases action with
    | handOver => cases h
    | graph change =>
      obtain ⟨result, h_change, h_result⟩ := map_eq_ok.mp (mapError_eq_ok.mp h)
      cases h_result
      exact .inr ⟨graph, _, moves, change, rfl, rfl, h_change, rfl⟩

theorem kind_holds (ig : InterferenceGraph) : Graph.Holds (kind ig) held where
  copy member _ := by cases member <;> rfl
  idle h_act h_plain := by
    rcases act_eq_ok h_act with ⟨_, rfl, rfl, rfl⟩ | ⟨graph, _, _, _, rfl, rfl, h_change, rfl⟩
    · rfl
    · exact KeyedGraph.holds.idle h_change h_plain
  act h_act _ h_plain := by
    rcases act_eq_ok h_act with ⟨_, rfl, rfl, rfl⟩ | ⟨graph, _, _, _, rfl, rfl, h_change, rfl⟩
    · cases h_plain
    · exact KeyedGraph.holds.act h_change h_plain

/-- The lineage of a graph that was not copied and has lost no node. -/
def source (ig : InterferenceGraph) : Graph.Lineage :=
  ⟨ig.graph.graph.tag, 0, [], ig.graph.graph.slots.size⟩

/-- A run with the lineages of all graphs. -/
def runTraced (ig : InterferenceGraph) (supply : TagSupply) (requests : List (Request Action)) :
    Family (Graph.Traced Holding) Action (Graph.Answer Temp) Refusal :=
  (Graph.Traced.kind (kind ig) held ((source ig).copy ig.graph.graph.slots.size)).runFrom
    ⟨supply, [⟨whole ig, source ig⟩], []⟩ requests

variable {ig : InterferenceGraph}

/-- If the first lineage is right, every member has a lineage that agrees with its graph. -/
theorem exists_agrees (h : Graph.Covers (source ig) ig.graph.graph) {supply : TagSupply}
    (h_supply : ig.graph.graph.tag.serial < supply.next) {requests : List (Request Action)}
    {i : Nat} {member : Holding} (h_member : (run ig supply requests).members[i]? = some member) :
    ∃ l, (runTraced ig supply requests).members[i]? = some ⟨member, l⟩ ∧
      l.Agrees member.graph.graph := by
  have h_start : Graph.Traced.Covered held.graph
      (⟨supply, [⟨whole ig, source ig⟩], []⟩ :
        Family (Graph.Traced Holding) Action (Graph.Answer Temp) Refusal) := by
    intro i t h_first
    cases List.mem_singleton.mp (List.mem_of_getElem? h_first)
    exact ⟨h_supply, h⟩
  obtain ⟨l, h_l⟩ := Graph.Traced.exists_getElem?_runFrom (K := kind ig) held
    ((source ig).copy ig.graph.graph.slots.size) (F := ⟨supply, [⟨whole ig, source ig⟩], []⟩) h_member
  have h_covers := Graph.Traced.covers_of_runFrom (kind_holds ig) h_start
    (fun tag h_tag => ⟨rfl, h.copy (h_supply.trans_le h_tag)⟩) h_l
  exact ⟨l, h_l, h_covers.agrees⟩

/-! ## What is kept -/

variable {member : Holding} {a : NodeId}
  {l : List (Nat × Action × Except Refusal (Graph.Answer Temp))}

/-- The node of a handle was removed along a line. -/
def Removed (l : List (Nat × Action × Except Refusal (Graph.Answer Temp))) (a : NodeId) : Prop :=
  ∃ k t, (k, .graph (.removeNode a), .ok (.payload t)) ∈ l

/-- One more step removes the node of a handle if it is that removal and is not refused. -/
theorem removed_cons {k : Nat} {action : Action} {answer : Except Refusal (Graph.Answer Temp)} :
    Removed ((k, action, answer) :: l) a ↔
      (action = .graph (.removeNode a) ∧ ∃ t, answer = .ok (.payload t)) ∨ Removed l a := by
  simp only [Removed, List.mem_cons, Prod.mk.injEq]
  constructor
  · rintro ⟨k', t, ⟨_, rfl, rfl⟩ | h_before⟩
    · exact .inl ⟨rfl, t, rfl⟩
    · exact .inr ⟨k', t, h_before⟩
  · rintro (⟨rfl, t, rfl⟩ | ⟨k', t, h_before⟩)
    · exact ⟨k, t, .inl ⟨rfl, rfl, rfl⟩⟩
    · exact ⟨k', t, .inr h_before⟩

/-- The node of a handle has its temporary for as long as it is not removed along a line. -/
def Carries (member : Holding) (l : List (Nat × Action × Except Refusal (Graph.Answer Temp)))
    (a : NodeId) (t : Temp) : Prop :=
  member.graph.graph.get? a = some t ↔ ¬ Removed l a

/-- What a member has of the interference graph with which the family started. -/
structure Kept (ig : InterferenceGraph)
    (l : List (Nat × Action × Except Refusal (Graph.Answer Temp))) (member : Holding) : Prop where
  moves : member.moves = ig.moves
  whole : ∀ {ig'}, member = whole ig' → ∃ tag, ig' = ig.clone tag
  issued : ∀ {a}, a ∈ ig.graph.graph.issued → a ∈ member.graph.graph.issued
  carries : ∀ {a t}, ig.graph.graph.get? a = some t → member.Carries l a t

namespace Kept

theorem clone (ig : InterferenceGraph) (tag : GraphTag) : Kept ig [] (.whole (ig.clone tag)) where
  moves := rfl
  whole h := ⟨tag, (Holding.whole.inj h).symm⟩
  issued h := h
  carries h := iff_of_true h fun ⟨_, _, h_mem⟩ => List.not_mem_nil h_mem

theorem copy (h : Kept ig l member) (tag : GraphTag) : Kept ig l (member.copy tag) := by
  cases member with
  | whole ig' =>
    refine ⟨h.moves, fun {ig''} h_eq => ?_, h.issued, h.carries⟩
    obtain ⟨_, rfl⟩ := h.whole rfl
    exact ⟨tag, (Holding.whole.inj h_eq).symm⟩
  | parts graph moves => exact ⟨h.moves, nofun, h.issued, h.carries⟩

/-- A step that changes no graph changes nothing but, at most, what the member is. -/
theorem idle (h : Kept ig l member) (member' : Holding) (h_graph : member'.graph = member.graph)
    (h_moves : member'.moves = member.moves)
    (h_whole : ∀ {ig'}, member' = .whole ig' → member = .whole ig') {k : Nat} {action : Action}
    {answer : Except Refusal (Graph.Answer Temp)}
    (h_answer : ∀ a t, action = .graph (.removeNode a) → answer ≠ .ok (.payload t)) :
    Kept ig ((k, action, answer) :: l) member' := by
  refine ⟨h_moves.trans h.moves, fun h_eq => h.whole (h_whole h_eq), fun h_a => ?_,
    fun {a t} h_a => ?_⟩
  · rw [h_graph]
    exact h.issued h_a
  · have h_same : Removed ((k, action, answer) :: l) a ↔ Removed l a :=
      removed_cons.trans (or_iff_right fun ⟨h_action, t, h_ok⟩ => h_answer a t h_action h_ok)
    rw [Carries, h_graph, h_same]
    exact h.carries h_a

theorem outcome (h : Kept ig l member) (k : Nat) (action : Action) :
    Kept ig ((k, action, ((kind ig).outcome member action).1) :: l)
      ((kind ig).outcome member action).2 := by
  cases member with
  | whole ig' =>
    cases action with
    | handOver => exact h.idle (.parts ig'.graph ig'.moves) rfl rfl nofun fun _ _ => nofun
    | graph action => exact h.idle (.whole ig') rfl rfl id fun _ _ _ => nofun
  | parts graph moves =>
    cases action with
    | handOver => exact h.idle (.parts graph moves) rfl rfl id fun _ _ => nofun
    | graph action =>
      rw [outcome_parts]
      have h_effect := KeyedGraph.effect_outcome graph action
      generalize KeyedGraph.kind.outcome graph action = outcome at h_effect ⊢
      obtain ⟨answer, graph'⟩ := outcome
      refine ⟨h.moves, nofun, fun h_a => h_effect.mem_issued (h.issued h_a), fun {a t} h_a => ?_⟩
      have h_here : graph.graph.get? a = some t ↔ ¬ Removed l a := h.carries h_a
      show graph'.graph.get? a = some t ↔ _
      rw [h_effect.get?_eq_some (h.issued (Graph.mem_issued_of_get? h_a)), h_here, removed_cons,
        not_or, and_comm, Action.graph.injEq]
      simp only [mapError_eq_ok]

theorem run (ig : InterferenceGraph) (supply : TagSupply) (requests : List (Request Action)) :
    ∀ i member, (Holding.run ig supply requests).members[i]? = some member →
      Kept ig (line (Holding.run ig supply requests).past i) member := by
  refine Kind.runFrom_line (K := kind ig) (Q := Kept ig) (fun i member h_member => ?_)
    (clone ig) (fun _ _ tag h => h.copy tag) (fun _ _ k action h => h.outcome k action) requests
  cases List.mem_singleton.mp (List.mem_of_getElem? h_member)
  exact clone ig ig.graph.graph.tag

end Kept

end Holding

/-! ## The moves of a body -/

/-- The answers of one interference graph are those of another one, whatever is asked. -/
structure InterferenceGraph.AnswersLike (ig' ig : InterferenceGraph) : Prop where
  node : ∀ t, ig'.node t = ig.node t
  temp : ∀ a, ig'.temp a = ig.temp a
  interferes : ∀ a b, ig'.interferes a b = ig.interferes a b
  neighbors : ∀ a, ig'.neighbors a = ig.neighbors a
  isPrecolored : ∀ a, ig'.isPrecolored a = ig.isPrecolored a
  occurrences : ∀ a, ig'.occurrences a = ig.occurrences a
  spillCost : ∀ a, ig'.spillCost a = ig.spillCost a

theorem InterferenceGraph.clone_answersLike (ig : InterferenceGraph) (tag : GraphTag) :
    (ig.clone tag).AnswersLike ig :=
  ⟨fun _ => rfl, fun _ => rfl, fun _ _ => rfl, fun _ => rfl, fun _ => rfl, fun _ => rfl,
    fun _ => rfl⟩

/-- All nodes of a graph that is drawn from a blueprint are its own, and none was removed. -/
theorem InterferenceGraph.Realizes.covers {ig : InterferenceGraph} {plan : Blueprint}
    {tag : GraphTag} (h : ig.Realizes plan tag) : Graph.Covers (Holding.source ig) ig.graph.graph := by
  have h_live : ig.graph.graph.slots.size = ig.graph.graph.size := by
    rw [Graph.size_eq_length_labels, h.lists.labels, List.length_map, List.length_zipIdx,
      h.lists.size_eq]
  refine ⟨rfl, Nat.zero_le _, fun a h_a _ => ?_, nofun, nofun, nofun, h_live⟩
  have h_lt := Graph.index_lt_of_mem_issued h_a
  rw [h.lists.size_eq] at h_lt
  have h_index : (plan.node tag plan.temps[a.index]).index = a.index :=
    (nodup_eraseDups _).idxOf_getElem _ h_lt
  have h_issued := Graph.mem_issued_of_get? (h.get?_eq (List.getElem_mem h_lt))
  rw [h.lists.tag_eq, Graph.eq_of_mem_issued h_a h_issued h_index.symm]
  rfl

/-- What a member of a family has and does that starts with an interference graph whose moves have
the given ends. -/
structure Holding.Intact (member : Holding) (ig : InterferenceGraph) (ends : List (Temp × Temp))
    (supply : TagSupply) (requests : List (Request Holding.Action)) (i : Nat) : Prop where
  /-- Each end of a move has its node until that is removed along the line of the member. -/
  moves : List.Forall₂ (fun m temps =>
      member.Carries (line (run ig supply requests).past i) m.dst temps.1 ∧
        member.Carries (line (run ig supply requests).past i) m.src temps.2)
    member.moves ends
  answers : ∀ copy, member = whole copy → copy.AnswersLike ig
  handOver : ∀ copy, member = whole copy →
    (kind ig).outcome member .handOver = (.ok .done, parts copy.graph copy.moves)
  /-- After that, a change to live nodes is not refused. -/
  change : ∀ graph moves, member = parts graph moves → ∀ m : Graph.Mutation,
    (∀ a ∈ m.handles, a ∈ graph.graph.nodes) →
      ∃ answer graph', graph.act (KeyedGraph.keyedAction m) = .ok (answer, graph') ∧
        Graph.Suits graph.graph.labels m.action answer ∧
        (kind ig).outcome member (.graph (KeyedGraph.keyedAction m)) =
          (.ok answer, parts graph' moves)
  /-- What is done to other members leaves this one as it is. -/
  apart : ∀ later, (∀ action, .act i action ∉ later) →
    (run ig supply (requests ++ later)).members[i]? = some member

namespace FlowGraph

variable {flow : FlowGraph} {tag : GraphTag} {body : List Instr}

/-- The moves of an interference graph keep their ends.  For every body that has a flow graph,
start with its interference graph, copy it and copies of it, hand some of them over, and change
the graphs that were handed over, in any order.  Then each member of that family has one move for
each move instruction of the body, and the nodes of its ends carry the destination and the source
of the instruction for as long as they are not removed along the line of the member.  A copy that
was not handed over answers as the first one did, and can be handed over.  After that no change to
live nodes is refused, and no member is changed by what is done to another one.

To tell the nodes of a member the tags in their slots are not needed: if no tag is handed out again,
the lineage that the member gets by copying tells them as well. -/
theorem interferenceGraph_kept (h_build : build tag body = .ok flow) (igTag : GraphTag)
    (registers : List Temp) (config : Config) :
    ∃ ig, flow.interferenceGraph igTag registers config = .ok ig ∧
      ∀ (supply : TagSupply) (requests : List (Request Holding.Action)) (i : Nat) (member : Holding),
        (Holding.run ig supply requests).members[i]? = some member →
        member.Intact ig (body.filterMap Instr.ends?) supply requests i ∧
        (igTag.serial < supply.next →
          ∃ l, (Holding.runTraced ig supply requests).members[i]? = some ⟨member, l⟩ ∧
            l.Agrees member.graph.graph) := by
  have h := build_laidOut h_build
  obtain ⟨plan, h_moves, h_blueprint⟩ := h.exists_blueprint registers config.spillCost
  obtain ⟨ig, h_ig, h_realizes⟩ := h_blueprint (Liveness.isTableOf_compute h config.solver) igTag
  refine ⟨ig, h_ig, fun supply requests i member h_member => ⟨?_, fun h_supply => ?_⟩⟩
  · have h_kept := Holding.Kept.run ig supply requests i member h_member
    refine ⟨?_, fun copy h_copy => ?_, fun copy h_copy => ?_, fun graph moves h_parts m h_live => ?_,
      fun later h_other => ?_⟩
    · rw [h_kept.moves, h_realizes.moves, ← h_moves, List.forall₂_map_left_iff, List.forall₂_same]
      intro ends h_ends
      obtain ⟨h_dst, h_src⟩ := h_realizes.closed.moves ends h_ends
      exact ⟨h_kept.carries (h_realizes.get?_eq h_dst), h_kept.carries (h_realizes.get?_eq h_src)⟩
    · obtain ⟨tag', rfl⟩ := h_kept.whole h_copy
      exact ig.clone_answersLike tag'
    · subst h_copy
      rfl
    · subst h_parts
      exact Holding.exists_outcome_of_live ig moves h_live
    · rw [Holding.run, Kind.runFrom_append]
      exact Kind.runFrom_other h_member h_other
  · exact Holding.exists_agrees h_realizes.covers (h_realizes.lists.tag_eq.symm ▸ h_supply) h_member

/-- A copy is handed over, and then loses the node of `y`, the first one. -/
def takeApart : List (Request Holding.Action) :=
  [.copy 0, .act 1 .handOver, .act 1 (.graph (.removeNode ⟨⟨1⟩, 0⟩))]

theorem interferenceGraph_kept_copyLoop :
    build ⟨0⟩ Liveness.copyLoop = .ok Liveness.copyLoopFlow ∧
      ∃ ig, Liveness.copyLoopFlow.interferenceGraph ⟨1⟩ [] default = .ok ig ∧
        ∀ (i : Nat) (member : Holding), (Holding.run ig ⟨2⟩ takeApart).members[i]? = some member →
          member.Intact ig [(⟨"y"⟩, ⟨"x"⟩)] ⟨2⟩ takeApart i ∧
          ∃ l, (Holding.runTraced ig ⟨2⟩ takeApart).members[i]? = some ⟨member, l⟩ ∧
            l.Agrees member.graph.graph := by
  obtain ⟨ig, h_ig, h_kept⟩ :=
    interferenceGraph_kept Liveness.build_copyLoop ⟨1⟩ [] default
  refine ⟨Liveness.build_copyLoop, ig, h_ig, fun i member h_member => ?_⟩
  obtain ⟨h_intact, h_traced⟩ := h_kept ⟨2⟩ takeApart i member h_member
  exact ⟨h_intact, h_traced (by decide)⟩

end FlowGraph

end LiveRange
