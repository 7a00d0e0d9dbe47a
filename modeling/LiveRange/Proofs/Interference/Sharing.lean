import Mathlib.Logic.Function.Basic
import LiveRange.Proofs.Interference.Edges

/-! # Sharing registers is safe

A body can be executed over any kind of registers once every temporary has a place among
them; over the temporaries themselves when each is its own place.  What operations compute and
where they pass control is left open:

* `FlowGraph.Meaning` — the results of every operation, and the choice among the successors
  of a node, as functions of the values that are read;
* `Meaning.step`, `Meaning.run` — one instruction, and some number of them;
* `Agree` — two moments at one node, where the place of every temporary that is live before
  the node holds the value of the temporary.

The main statement is that agreement is kept for ever, provided temporaries that interfere
have different places.  What carries it through a move is that its two ends hold one value
afterwards, so that they may lie in one place. -/

namespace LiveRange

variable {flow : FlowGraph} {tag : GraphTag} {body : List Instr} {R V : Type}

/-! ## Execution -/

/-- What the instructions of a flow graph compute and where they pass control. -/
structure FlowGraph.Meaning (flow : FlowGraph) (V : Type) where
  /-- The value an operation writes to the destination at a position, from the values it
  reads. -/
  result : NodeId → List V → Nat → V
  /-- The node that executes next, from the values that are read; without one the run ends. -/
  next : NodeId → List V → Option NodeId
  next_edge : ∀ {a values b}, next a values = some b → flow.Edge a b

/-- A node that is about to execute, and what the registers hold. -/
structure Moment (R V : Type) where
  node : NodeId
  store : R → V

/-- Two moments at one node, where the place of every temporary that is live before the node
holds what the temporary holds. -/
structure Agree (live : Liveness) (place : Temp → R) (s : Moment Temp V) (s' : Moment R V) :
    Prop where
  node : s'.node = s.node
  store : ∃ ts, live.liveIn s.node = .ok ts ∧ ∀ t ∈ ts, s'.store (place t) = s.store t

variable {place : Temp → R} {s : Moment Temp V} {s' : Moment R V} {t : Temp}

theorem Agree.store_eq {solver : Dataflow.Solver} (h_agree : Agree (.compute flow solver) place s s')
    (h : flow.LaidOut tag body) (hs : s.node ∈ flow.nodes) (h_live : flow.LiveBefore t s.node) :
    s'.store (place t) = s.store t := by
  obtain ⟨ts, h_ts, h_store⟩ := h_agree.store
  exact h_store t ((Liveness.mem_liveIn h hs h_ts).mpr h_live)

section Execution

variable [DecidableEq R]

/-- Writes to the places of some temporaries, one after the other, the values at their
positions. -/
def write (place : Temp → R) (values : Nat → V) : List Temp → (R → V) → R → V
  | [], store => store
  | t :: ts, store =>
    write place (fun i => values (i + 1)) ts (Function.update store (place t) (values 0))

/-- What the registers hold after an instruction: an operation writes its results, a move
copies, and a label does nothing. -/
def Instr.execute (place : Temp → R) (result : Nat → V) (store : R → V) : Instr → R → V
  | .oper _ dst _ _ => write place result dst store
  | .move _ dst src => Function.update store (place dst) (store (place src))
  | .label _ _ => store

namespace FlowGraph.Meaning

def step (meaning : flow.Meaning V) (place : Temp → R) (s : Moment R V) : Option (Moment R V) :=
  (flow.graph.node? s.node).bind fun node =>
    let values := node.payload.uses.map fun t => s.store (place t)
    (meaning.next s.node values).map fun next =>
      ⟨next, node.payload.execute place (meaning.result s.node values) s.store⟩

def run (meaning : flow.Meaning V) (place : Temp → R) (s : Moment R V) : Nat → Option (Moment R V)
  | 0 => some s
  | k + 1 => (meaning.run place s k).bind (meaning.step place)

end FlowGraph.Meaning

/-! ## One instruction -/

variable {store : Temp → V} {store' : R → V}

/-- Writing to places keeps agreement on a temporary that shares its place with no other one
that is written, and brings it about if the temporary is itself written. -/
theorem write_agrees {values : Nat → V} {ts : List Temp}
    (h_apart : ∀ d ∈ ts, d ≠ t → place d ≠ place t) (h_old : t ∉ ts → store' (place t) = store t) :
    write place values ts store' (place t) = write id values ts store t := by
  induction ts generalizing values store store' with
  | nil => exact h_old List.not_mem_nil
  | cons d rest ih =>
    rw [List.forall_mem_cons] at h_apart
    refine ih h_apart.2 fun h_rest => ?_
    -- a write to another temporary goes to another place
    by_cases h_same : d = t
    · subst h_same
      rw [Function.update_self, id, Function.update_self]
    · have h_out : t ∉ d :: rest := List.not_mem_cons_of_ne_of_not_mem (Ne.symm h_same) h_rest
      rw [Function.update_of_ne (h_apart.1 h_same).symm, id, Function.update_of_ne (Ne.symm h_same)]
      exact h_old h_out

/-- Agreement on what is live before a node becomes, when the node executes, agreement on what
is live after it. -/
theorem execute_agrees {n : NodeId} {node : Node Instr} {result : Nat → V}
    (h_node : flow.graph.node? n = some node) (h_place : ∀ x y, flow.Conflict x y → place x ≠ place y)
    (h_before : ∀ t, flow.LiveBefore t n → store' (place t) = store t) (h_live : flow.LiveAfter t n) :
    node.payload.execute place result store' (place t) = node.payload.execute id result store t := by
  have h_apart : ∀ d ∈ node.payload.defs, d ≠ t → ¬ node.payload.copies d t = true →
      place d ≠ place t := by
    intro d h_def h_ne h_copy
    have h_sets := (FlowGraph.setsApart_iff h_node).mpr ⟨h_def, h_live, h_copy⟩
    exact h_place d t ⟨h_ne, n, Graph.mem_nodes_of_node? h_node, .inl h_sets⟩
  have h_kept : t ∉ node.payload.defs → store' (place t) = store t := fun h_def =>
    h_before t (.inr ⟨h_live, fun h_writes => h_def ((FlowGraph.writes_iff h_node).mp h_writes)⟩)
  cases h_instr : node.payload with
  | oper template dst src jump =>
    rw [h_instr] at h_apart h_kept
    exact write_agrees (fun d h_def h_ne => h_apart d h_def h_ne (by simp [Instr.copies])) h_kept
  | move template dst src =>
    rw [h_instr] at h_apart h_kept
    have h_src : store' (place src) = store src := by
      refine h_before src (.inl ((FlowGraph.reads_iff h_node).mpr ?_))
      simp [h_instr, Instr.uses]
    simp only [Instr.execute, id]
    by_cases h_dst : t = dst
    · rw [h_dst, Function.update_self, Function.update_self, h_src]
    · rw [Function.update_of_ne h_dst]
      by_cases h_share : place t = place dst
      · -- only the source of the move may share the place of its destination
        have h_copied : t = src := by
          by_contra h_ne
          refine h_apart dst (by simp [Instr.defs]) (Ne.symm h_dst) ?_ h_share.symm
          simp [Instr.copies, Ne.symm h_ne]
        rw [h_share, Function.update_self, h_copied, h_src]
      · rw [Function.update_of_ne h_share]
        exact h_kept (by simp [Instr.defs, h_dst])
  | label text name =>
    rw [h_instr] at h_kept
    exact h_kept (by simp [Instr.defs])

/-! ## Runs -/

/-- One step keeps agreement: either both moments step to the same node, or both runs end. -/
theorem step_agree (h : flow.LaidOut tag body) {solver : Dataflow.Solver}
    (h_place : ∀ x y, flow.Conflict x y → place x ≠ place y) (meaning : flow.Meaning V)
    (h_agree : Agree (.compute flow solver) place s s') :
    Option.Rel (Agree (.compute flow solver) place) (meaning.step id s) (meaning.step place s') := by
  unfold FlowGraph.Meaning.step
  rw [h_agree.node]
  cases h_node : flow.graph.node? s.node with
  | none => exact .none
  | some node =>
    have h_before : ∀ t, flow.LiveBefore t s.node → s'.store (place t) = s.store t :=
      fun _ => h_agree.store_eq h (Graph.mem_nodes_of_node? h_node)
    have h_values : (node.payload.uses.map fun t => s'.store (place t)) =
        node.payload.uses.map fun t => s.store (id t) :=
      List.map_congr_left fun t ht => h_before t (.inl ((FlowGraph.reads_iff h_node).mpr ht))
    -- the same values are read, so the same results are written and control takes the same way
    simp only [Option.bind_some, h_values]
    cases h_next : meaning.next s.node (node.payload.uses.map fun t => s.store (id t)) with
    | none => exact .none
    | some b =>
      have h_edge := meaning.next_edge h_next
      obtain ⟨node', h_node'⟩ := h.exists_node_of_edge h_edge
      obtain ⟨ts, h_ts, h_mem⟩ :=
        Liveness.liveIn_compute h solver (Graph.mem_nodes_of_node? h_node')
      refine .some ⟨rfl, ts, h_ts, fun t ht => ?_⟩
      -- what is live before the next node is live after this one
      have h_live : flow.LiveAfter t s.node :=
        FlowGraph.liveAfter_iff.mpr ⟨b, h_edge, (h_mem t).mp ht⟩
      exact execute_agrees h_node h_place h_before h_live

theorem run_agree (h : flow.LaidOut tag body) {solver : Dataflow.Solver}
    (h_place : ∀ x y, flow.Conflict x y → place x ≠ place y) (meaning : flow.Meaning V)
    (h_agree : Agree (.compute flow solver) place s s') (k : Nat) :
    Option.Rel (Agree (.compute flow solver) place) (meaning.run id s k) (meaning.run place s' k) := by
  induction k with
  | zero => exact .some h_agree
  | succ k ih =>
    show Option.Rel _ ((meaning.run id s k).bind _) ((meaning.run place s' k).bind _)
    generalize meaning.run id s k = reached at ih
    generalize meaning.run place s' k = reached' at ih
    cases ih with
    | none => exact .none
    | some h_reached => exact step_agree h h_place meaning h_reached

end Execution

/-! ## Checking places -/

namespace InterferenceGraph

/-- The two ends of every edge have different places. -/
def Allows (ig : InterferenceGraph) (place : Temp → R) : Prop :=
  ∀ e ∈ ig.graph.graph.entries, ∀ e' ∈ ig.graph.graph.entries,
    e'.1 ∈ e.2.succs → place e.2.payload ≠ place e'.2.payload

instance [DecidableEq R] (ig : InterferenceGraph) (place : Temp → R) : Decidable (ig.Allows place) :=
  inferInstanceAs (Decidable (∀ e ∈ ig.graph.graph.entries, ∀ e' ∈ ig.graph.graph.entries,
    e'.1 ∈ e.2.succs → place e.2.payload ≠ place e'.2.payload))

theorem Allows.place_ne {ig : InterferenceGraph} (h : ig.Allows place) (h_indexed : ig.graph.Indexed)
    {a b : Temp} (h_true : ig.interferes a b = .ok true) : place a ≠ place b := by
  obtain ⟨x, y, node, ha, hb, h_node, h_succ⟩ := interferes_eq_ok.mp h_true
  obtain ⟨node', h_node', rfl⟩ := h_indexed.exists_node ha
  obtain ⟨other, h_other, rfl⟩ := h_indexed.exists_node hb
  rw [h_node, Option.some.injEq] at h_node'
  subst h_node'
  exact h _ (Graph.mem_entries.mpr h_node) _ (Graph.mem_entries.mpr h_other)
    (of_decide_eq_true h_succ.symm)

end InterferenceGraph

/-! ## Safety -/

/-- For every body that has a flow graph there is an interference graph that makes sharing
safe.  Give every temporary a place, two that interfere different ones, and execute the body
once over the temporaries and once over the places.  If both agree at some node on what is live
before it, then after any number of steps both are at one node, where they agree on what is
live before that, or both have ended. -/
theorem FlowGraph.sharing_safe (h_build : build tag body = .ok flow)
    (igTag : GraphTag) (registers : List Temp) (config : Config) :
    ∃ ig, flow.interferenceGraph igTag registers config = .ok ig ∧
      ∀ {R V : Type} [DecidableEq R] (place : Temp → R),
        (∀ a b, ig.interferes a b = .ok true → place a ≠ place b) →
        ∀ (meaning : flow.Meaning V) (s : Moment Temp V) (s' : Moment R V),
          Agree (.compute flow config.solver) place s s' →
          ∀ k, Option.Rel (Agree (.compute flow config.solver) place) (meaning.run id s k)
            (meaning.run place s' k) := by
  have h := build_laidOut h_build
  obtain ⟨ig, h_ig, h_draws, h_known⟩ := h.interferenceGraph_draws igTag registers config
  refine ⟨ig, h_ig, fun place h_place meaning s s' h_agree k => run_agree h ?_ meaning h_agree k⟩
  intro x y h_conflict
  obtain ⟨hx, hy⟩ := h.mem_mentions_of_conflict h_conflict
  exact h_place x y (h_draws.interferes_iff.mpr ⟨h_conflict,
    h_known x (List.mem_append_right _ hx), h_known y (List.mem_append_right _ hy)⟩)

/-- One register for `x` and its copy `y`, and another one for `n`. -/
def twoRegisters (t : Temp) : Bool := t = ⟨"n"⟩

/-- Every operation writes the sum of what it reads, and the loop goes on for ever. -/
def copyLoopMeaning : Liveness.copyLoopFlow.Meaning Nat where
  result _ values _ := values.sum
  next a _ := (Liveness.copyLoopFlow.successors a).toOption.bind List.head?
  next_edge {a _ b} h := by
    obtain ⟨succs, h_succs, h_head⟩ := Option.bind_eq_some_iff.mp h
    refine ⟨succs, ?_, List.mem_of_head? h_head⟩
    cases h_edges : Liveness.copyLoopFlow.successors a with
    | error e => simp [h_edges, Except.toOption] at h_succs
    | ok succs' => simpa [h_edges, Except.toOption] using h_succs

/-- The registers start out with what `x` and `n` hold, and not with what `y` holds. -/
theorem sharing_safe_copyLoop :
    FlowGraph.build ⟨0⟩ Liveness.copyLoop = .ok Liveness.copyLoopFlow ∧
      ∃ ig, Liveness.copyLoopFlow.interferenceGraph ⟨1⟩ [] default = .ok ig ∧
        (∀ a b, ig.interferes a b = .ok true → twoRegisters a ≠ twoRegisters b) ∧
        ∃ (s : Moment Temp Nat) (s' : Moment Bool Nat),
          Agree (.compute Liveness.copyLoopFlow .worklist) twoRegisters s s' ∧
            ∀ k, Option.Rel (Agree (.compute Liveness.copyLoopFlow .worklist) twoRegisters)
              (copyLoopMeaning.run id s k) (copyLoopMeaning.run twoRegisters s' k) := by
  obtain ⟨ig, h_ig, h_safe⟩ := FlowGraph.sharing_safe Liveness.build_copyLoop ⟨1⟩ [] default
  obtain ⟨ig', h_ig', h_draws, _⟩ :=
    (FlowGraph.build_laidOut Liveness.build_copyLoop).interferenceGraph_draws ⟨1⟩ [] default
  have h_allows : ((Liveness.copyLoopFlow.interferenceGraph ⟨1⟩ [] default).toOption.any fun ig =>
      decide (ig.Allows twoRegisters)) = true := by decide +kernel
  have h_place : ∀ a b, ig.interferes a b = .ok true → twoRegisters a ≠ twoRegisters b := by
    rw [h_ig, Except.ok.injEq] at h_ig'
    rw [h_ig] at h_allows
    exact fun a b => (of_decide_eq_true h_allows).place_ne (h_ig' ▸ h_draws.indexed)
  let s : Moment Temp Nat := ⟨⟨⟨0⟩, 0⟩, fun t => if t = ⟨"n"⟩ then 9 else if t = ⟨"x"⟩ then 1 else 0⟩
  let s' : Moment Bool Nat := ⟨⟨⟨0⟩, 0⟩, fun r => if r then 9 else 1⟩
  have h_agree : Agree (.compute Liveness.copyLoopFlow .worklist) twoRegisters s s' := by
    have h_live : ((Liveness.compute Liveness.copyLoopFlow .worklist).liveIn s.node).toOption.any
        (fun ts => decide (ts.toList = [⟨"n"⟩, ⟨"x"⟩])) = true := by decide +kernel
    obtain ⟨ts, h_ts, _⟩ := Liveness.liveIn_compute
      (FlowGraph.build_laidOut Liveness.build_copyLoop) .worklist
      (show s.node ∈ Liveness.copyLoopFlow.nodes by decide +kernel)
    rw [h_ts] at h_live
    refine ⟨rfl, ts, h_ts, fun t ht => ?_⟩
    rw [← Std.ExtTreeSet.mem_toList, of_decide_eq_true h_live] at ht
    simp only [List.mem_cons, List.not_mem_nil, or_false] at ht
    rcases ht with rfl | rfl
    · rfl
    · rfl
  exact ⟨Liveness.build_copyLoop, ig, h_ig, h_place, s, s', h_agree,
    h_safe twoRegisters h_place copyLoopMeaning s s' h_agree⟩

end LiveRange
