import LiveRange.Proofs.Liveness.Restart

/-! # Flow graphs and tables of a session

In a `Session` flow graphs are built and copied, and tables are computed on them, afresh or from
the sets of any table that is there.  Which build a flow graph descends from is its origin; two
of them with one origin are copies of one another, or of a common flow graph.

What holds at any time (`Coherent`):

* flow graphs with one origin have the same nodes, and others have no node in common;
* every table holds what computing it afresh gives, however it came about.

So a table that is taken up knows all nodes or none of them, and both are harmless
(`Session.run_restarts`). -/

namespace LiveRange

/-- A flow graph, and the number of the flow graph that was built and of which it is a copy, or
a copy of a copy, or which it is itself. -/
structure Session.Entry where
  flow : FlowGraph
  origin : Nat

/-- A table, and the number of the flow graph on which it was made. -/
structure Session.Table where
  live : Liveness
  flow : Nat

structure Session where
  supply : TagSupply := {}
  /-- The flow graphs in the order of their making. -/
  flows : List Session.Entry := []
  /-- The tables in the order of their making. -/
  tables : List Session.Table := []

/-- What may be asked in a session.  Flow graphs and tables go by their numbers; a request that
names none does nothing. -/
inductive Session.Request where
  | build (body : List Instr)
  | clone (source : Nat)
  | compute (flow : Nat) (solver : Dataflow.Solver)
  | solveFrom (flow table : Nat) (solver : Dataflow.Solver)
  /-- A graph of another kind is made, which takes a tag. -/
  | elsewhere

namespace Session

/-! ## Runs -/

def addFlow (S : Session) (entry : Entry) : Session :=
  { S with supply := S.supply.fresh.2, flows := S.flows ++ [entry] }

def addTable (S : Session) (table : Table) : Session := { S with tables := S.tables ++ [table] }

/-- The tag that would have gone to a flow graph or another graph goes unused. -/
def skipTag (S : Session) : Session := { S with supply := S.supply.fresh.2 }

def step (S : Session) : Request → Session
  | .build body =>
    match FlowGraph.build S.supply.fresh.1 body with
    | .ok flow => S.addFlow ⟨flow, S.flows.length⟩
    | .error _ => S.skipTag
  | .clone source =>
    match S.flows[source]? with
    | some e => S.addFlow ⟨e.flow.clone S.supply.fresh.1, e.origin⟩
    | none => S
  | .compute flow solver =>
    match S.flows[flow]? with
    | some e => S.addTable ⟨.compute e.flow solver, flow⟩
    | none => S
  | .solveFrom flow table solver =>
    match S.flows[flow]?, S.tables[table]? with
    | some e, some t => S.addTable ⟨.solveFrom e.flow t.live solver, flow⟩
    | _, _ => S
  | .elsewhere => S.skipTag

def run (requests : List Request) : Session := requests.foldl step {}

/-- The origin of the flow graph on which a table was made. -/
def origin? (S : Session) (t : Table) : Option Nat := S.flows[t.flow]?.map Entry.origin

/-! ## What holds at any time -/

variable {S : Session} {e e' : Entry} {t t' : Table} {a : NodeId} {tag : GraphTag}
  {body : List Instr} {solver : Dataflow.Solver}

/-- Flow graphs with one origin have the same nodes, and others have no node in common. -/
structure Kin (e e' : Entry) : Prop where
  slots_eq : e.origin = e'.origin → e'.flow.graph.slots = e.flow.graph.slots
  disjoint : e.origin ≠ e'.origin → ∀ a ∈ e.flow.nodes, a ∉ e'.flow.nodes

theorem Kin.symm (h : Kin e e') : Kin e' e :=
  ⟨fun h_origin => (h.slots_eq h_origin.symm).symm,
    fun h_origin a ha ha' => h.disjoint (Ne.symm h_origin) a ha' ha⟩

theorem Kin.refl (e : Entry) : Kin e e := ⟨fun _ => rfl, fun h => absurd rfl h⟩

structure Coherent (S : Session) : Prop where
  laidOut : ∀ e ∈ S.flows, ∃ tag body, tag.serial < S.supply.next ∧ e.flow.LaidOut tag body
  origin_lt : ∀ e ∈ S.flows, e.origin < S.flows.length
  kin : ∀ e ∈ S.flows, ∀ e' ∈ S.flows, Kin e e'
  made : ∀ t ∈ S.tables, ∃ e, S.flows[t.flow]? = some e ∧ t.live.IsTableOf e.flow

namespace Coherent

/-- A table of a flow graph is a table of its copies. -/
theorem isTableOf (h : S.Coherent) (h_e : e ∈ S.flows) (h_t : t ∈ S.tables)
    (h_origin : S.origin? t = some e.origin) : t.live.IsTableOf e.flow := by
  obtain ⟨e', h_e', h_table⟩ := h.made t h_t
  rw [origin?, h_e', Option.map_some, Option.some.injEq] at h_origin
  exact h_table.congr ((h.kin e' (List.mem_of_getElem? h_e') e h_e).slots_eq h_origin)

/-- A table knows none of the nodes of an unrelated flow graph. -/
theorem row?_eq_none (h : S.Coherent) (h_e : e ∈ S.flows) (h_t : t ∈ S.tables)
    (h_origin : S.origin? t ≠ some e.origin) (ha : a ∈ e.flow.nodes) : t.live.row? a = none := by
  obtain ⟨e', h_e', h_table⟩ := h.made t h_t
  obtain ⟨tag, body, _, h_laid⟩ := h.laidOut e' (List.mem_of_getElem? h_e')
  rw [origin?, h_e', Option.map_some, ne_eq, Option.some.injEq] at h_origin
  refine h_table.row?_eq_none h_laid fun ha' => ?_
  exact (h.kin e' (List.mem_of_getElem? h_e') e h_e).disjoint h_origin a ha' ha

/-- Whatever table is taken up, the solver settles on the solution. -/
theorem run_seeds (h : S.Coherent) (h_e : e ∈ S.flows) (h_t : t ∈ S.tables)
    (solver : Dataflow.Solver) :
    (Liveness.run e.flow solver (Liveness.seeds e.flow t.live)).status = .settled ∧
      (Liveness.run e.flow solver (Liveness.seeds e.flow t.live)).tables = e.flow.solution := by
  obtain ⟨tag, body, _, h_laid⟩ := h.laidOut e h_e
  by_cases h_origin : S.origin? t = some e.origin
  · rw [(h.isTableOf h_e h_t h_origin).run_seeds h_laid solver]
    exact ⟨rfl, rfl⟩
  · rw [Liveness.seeds_of_unknown fun a ha => h.row?_eq_none h_e h_t h_origin ha]
    exact Liveness.run_eq h_laid solver

theorem isTableOf_solveFrom (h : S.Coherent) (h_e : e ∈ S.flows) (h_t : t ∈ S.tables)
    (solver : Dataflow.Solver) : (Liveness.solveFrom e.flow t.live solver).IsTableOf e.flow := by
  obtain ⟨tag, body, _, h_laid⟩ := h.laidOut e h_e
  rw [Liveness.solveFrom_eq]
  exact Liveness.isTableOf_solve h_laid (h.run_seeds h_e h_t solver).2

/-! ## Every request keeps it -/

theorem skipTag (h : S.Coherent) : S.skipTag.Coherent := by
  refine ⟨fun e h_e => ?_, h.origin_lt, h.kin, h.made⟩
  obtain ⟨tag, body, h_lt, h_laid⟩ := h.laidOut e h_e
  exact ⟨tag, body, Nat.lt_succ_of_lt h_lt, h_laid⟩

theorem addTable (h : S.Coherent) (h_t : S.flows[t.flow]? = some e)
    (h_table : t.live.IsTableOf e.flow) : (S.addTable t).Coherent := by
  refine ⟨h.laidOut, h.origin_lt, h.kin, fun t' h_t' => ?_⟩
  rcases List.mem_append.mp h_t' with h_old | h_new
  · exact h.made t' h_old
  · cases List.mem_singleton.mp h_new
    exact ⟨e, h_t, h_table⟩

theorem addFlow (h : S.Coherent) (h_laid : e.flow.LaidOut tag body)
    (h_tag : tag.serial ≤ S.supply.next) (h_origin : e.origin ≤ S.flows.length)
    (h_kin : ∀ e' ∈ S.flows, Kin e' e) : (S.addFlow e).Coherent := by
  refine ⟨fun e' h_e' => ?_, fun e' h_e' => ?_, fun e₁ h_e₁ e₂ h_e₂ => ?_, fun t h_t => ?_⟩
  · rcases List.mem_append.mp h_e' with h_old | h_new
    · obtain ⟨tag', body', h_lt, h_laid'⟩ := h.laidOut e' h_old
      exact ⟨tag', body', Nat.lt_succ_of_lt h_lt, h_laid'⟩
    · cases List.mem_singleton.mp h_new
      exact ⟨tag, body, Nat.lt_succ_of_le h_tag, h_laid⟩
  · rw [Session.addFlow, List.length_append, List.length_singleton]
    rcases List.mem_append.mp h_e' with h_old | h_new
    · exact Nat.lt_succ_of_lt (h.origin_lt e' h_old)
    · cases List.mem_singleton.mp h_new
      exact Nat.lt_succ_of_le h_origin
  · rcases List.mem_append.mp h_e₁ with h_old₁ | h_new₁
    · rcases List.mem_append.mp h_e₂ with h_old₂ | h_new₂
      · exact h.kin e₁ h_old₁ e₂ h_old₂
      · cases List.mem_singleton.mp h_new₂
        exact h_kin e₁ h_old₁
    · cases List.mem_singleton.mp h_new₁
      rcases List.mem_append.mp h_e₂ with h_old₂ | h_new₂
      · exact (h_kin e₂ h_old₂).symm
      · cases List.mem_singleton.mp h_new₂
        exact .refl e
  · obtain ⟨e', h_e', h_table⟩ := h.made t h_t
    have h_lt := (List.getElem?_eq_some_iff.mp h_e').1
    exact ⟨e', (List.getElem?_append_left h_lt).trans h_e', h_table⟩

/-- A flow graph that is built has nodes of its own, under a tag of its own. -/
theorem build (h : S.Coherent) {flow : FlowGraph}
    (h_build : FlowGraph.build S.supply.fresh.1 body = .ok flow) :
    (S.addFlow ⟨flow, S.flows.length⟩).Coherent := by
  have h_laid := FlowGraph.build_laidOut h_build
  refine h.addFlow h_laid (Nat.le_refl _) (Nat.le_refl _) fun e h_e => ⟨fun h_origin => ?_, ?_⟩
  · exact absurd h_origin (Nat.ne_of_lt (h.origin_lt e h_e))
  · intro _ a ha ha'
    obtain ⟨tag, body, h_lt, h_old⟩ := h.laidOut e h_e
    have h_tag := (h_old.tag_eq ha).symm.trans (h_laid.tag_eq ha')
    rw [h_tag] at h_lt
    exact Nat.lt_irrefl _ h_lt

theorem clone (h : S.Coherent) (h_e : e ∈ S.flows) :
    (S.addFlow ⟨e.flow.clone S.supply.fresh.1, e.origin⟩).Coherent := by
  obtain ⟨tag, body, h_lt, h_laid⟩ := h.laidOut e h_e
  have h_nodes : (e.flow.clone S.supply.fresh.1).nodes = e.flow.nodes := FlowGraph.nodes_congr rfl
  refine h.addFlow (h_laid.congr rfl) (Nat.le_of_lt h_lt) (Nat.le_of_lt (h.origin_lt e h_e))
    fun e' h_e' => ⟨(h.kin e' h_e' e h_e).slots_eq, fun h_origin a ha => ?_⟩
  exact h_nodes ▸ (h.kin e' h_e' e h_e).disjoint h_origin a ha

theorem step (h : S.Coherent) (request : Request) : (S.step request).Coherent := by
  cases request with
  | build body =>
    simp only [Session.step]
    split
    · rename_i h_build
      exact h.build h_build
    · exact h.skipTag
  | clone source =>
    simp only [Session.step]
    split
    · rename_i h_e
      exact h.clone (List.mem_of_getElem? h_e)
    · exact h
  | compute flow solver =>
    simp only [Session.step]
    split
    · rename_i e h_e
      obtain ⟨tag, body, _, h_laid⟩ := h.laidOut e (List.mem_of_getElem? h_e)
      exact h.addTable h_e (Liveness.isTableOf_compute h_laid solver)
    · exact h
  | solveFrom flow table solver =>
    simp only [Session.step]
    split
    · rename_i h_e h_t
      exact h.addTable h_e
        (h.isTableOf_solveFrom (List.mem_of_getElem? h_e) (List.mem_of_getElem? h_t) solver)
    · exact h
  | elsewhere => exact h.skipTag

end Coherent

theorem run_coherent (requests : List Request) : (run requests).Coherent :=
  List.foldlRecOn requests step ⟨nofun, nofun, nofun, nofun⟩ fun _ h request _ => h.step request

/-! ## Taking up tables -/

/-- In every session any flow graph may be solved from the sets of any table.  The solver settles,
and what it finds is what computing liveness afresh by either solver gives.  From a table of a
flow graph with the same origin it does no more than confirm: it visits every node once, in one
pass.  So tables of flow graphs with one origin agree. -/
theorem run_restarts (requests : List Request) :
    (∀ e ∈ (run requests).flows, ∀ t ∈ (run requests).tables, ∀ solver,
      (Liveness.run e.flow solver (Liveness.seeds e.flow t.live)).status = .settled ∧
        (∀ afresh a,
          (Liveness.solveFrom e.flow t.live solver).liveIn a =
              (Liveness.compute e.flow afresh).liveIn a ∧
            (Liveness.solveFrom e.flow t.live solver).liveOut a =
              (Liveness.compute e.flow afresh).liveOut a) ∧
        ((run requests).origin? t = some e.origin →
          (Liveness.run e.flow solver (Liveness.seeds e.flow t.live)).visits =
              Dataflow.backward e.flow.size ∧
            (Liveness.solveFrom e.flow t.live solver).steps = solver.stepsToConfirm e.flow.size)) ∧
      ∀ t ∈ (run requests).tables, ∀ t' ∈ (run requests).tables,
        (run requests).origin? t = (run requests).origin? t' → t.live.agrees t'.live = true := by
  have h := run_coherent requests
  generalize run requests = S at h
  refine ⟨fun e h_e t h_t solver => ⟨(h.run_seeds h_e h_t solver).1, fun afresh a => ?_,
    fun h_origin => ?_⟩, fun t h_t t' h_t' h_origin => ?_⟩
  · obtain ⟨tag, body, _, h_laid⟩ := h.laidOut e h_e
    rw [(Liveness.isTableOf_compute h_laid afresh).eq_solved (h.isTableOf_solveFrom h_e h_t solver)]
    exact ⟨rfl, rfl⟩
  · obtain ⟨tag, body, _, h_laid⟩ := h.laidOut e h_e
    have h_run := (h.isTableOf h_e h_t h_origin).run_seeds h_laid solver
    exact ⟨congrArg Dataflow.Run.visits h_run, congrArg Dataflow.Run.steps h_run⟩
  · obtain ⟨e, h_e, h_table⟩ := h.made t h_t
    rw [origin?, h_e, Option.map_some] at h_origin
    rw [h_table.eq_solved (h.isTableOf (List.mem_of_getElem? h_e) h_t' h_origin.symm)]
    exact decide_eq_true rfl

/-- On a copy a table is confirmed by a visit to each of the four nodes, or by one pass.  An
unrelated flow graph of the same body is solved from the beginning. -/
example : (run [.build Liveness.copyLoop, .clone 0, .build Liveness.copyLoop, .compute 0 .roundRobin,
    .solveFrom 1 0 .worklist, .solveFrom 1 1 .roundRobin, .solveFrom 2 0 .worklist]).tables.map
      (fun t => t.live.steps) = [3, 4, 1, 6] := by decide +kernel

end Session

end LiveRange
