import LiveRange.Proofs.Dataflow.Lockstep
import LiveRange.Proofs.Liveness.Sessions
import LiveRange.Proofs.Liveness.Survey

/-! # Liveness over plain sets

Liveness is solved over sets of numbers.  The same equations may be stated over sets of temporaries,
without a numbering (`FlowGraph.plainEquations`), and the same seeds as well: a table is taken up with
what it answers for a node, as far as the flow graph mentions it (`FlowGraph.plainSeeds`).

A set of numbers stands for a set of temporaries when it holds the numbers of its members and no
others (`Numbering.Stands`).  As no temporary is numbered twice, each stands for one set at most and
the other way round, and the operations on both kinds go along with it.  So a solver goes over the two
problems in lockstep, from empty sets as well as from the sets of a table (`FlowGraph.Decodes`). -/

namespace LiveRange

/-! ## Sets of numbers for sets of temporaries -/

namespace Numbering

variable {numbering : Numbering} {s s' : BitSet} {ts ts' : TempSet} {t : Temp}

/-- The numbers of a set are those of the temporaries of another. -/
structure Stands (numbering : Numbering) (s : BitSet) (ts : TempSet) : Prop where
  numbered : ∀ i ∈ s, i < numbering.size
  mem_iff : ∀ t, t ∈ ts ↔ numbering.holds s t = true

theorem Stands.subset (h_nodup : numbering.temps.Nodup) (h : numbering.Stands s ts)
    (h' : numbering.Stands s' ts) : ∀ i ∈ s, i ∈ s' := by
  intro i h_mem
  have h_number := number?_of_getElem? h_nodup (List.getElem?_eq_getElem (h.numbered i h_mem))
  obtain ⟨j, h_number', h_mem'⟩ :=
    holds_iff.mp ((h'.mem_iff _).mp ((h.mem_iff _).mpr (holds_iff.mpr ⟨i, h_number, h_mem⟩)))
  rw [h_number, Option.some.injEq] at h_number'
  exact h_number' ▸ h_mem'

theorem biUnique_stands (h_nodup : numbering.temps.Nodup) : Relator.BiUnique numbering.Stands := by
  constructor
  · intro s ts s' h h'
    exact BitSet.eq_of_mem_iff fun i => ⟨h.subset h_nodup h' i, h'.subset h_nodup h i⟩
  · intro s ts ts' h h'
    exact Std.ExtTreeSet.ext_mem fun t => (h.mem_iff t).trans (h'.mem_iff t).symm

theorem stands_empty : numbering.Stands ∅ ∅ where
  numbered i hi := absurd hi (BitSet.notMem_empty i)
  mem_iff t := by simp [holds_empty]

theorem Stands.union (h : numbering.Stands s ts) (h' : numbering.Stands s' ts') :
    numbering.Stands (s ∪ s') (ts ∪ ts') where
  numbered i hi := (BitSet.mem_union.mp hi).elim (h.numbered i) (h'.numbered i)
  mem_iff t := by rw [Std.ExtTreeSet.mem_union_iff, h.mem_iff, h'.mem_iff, holds_union]

theorem Stands.sdiff (h : numbering.Stands s ts) (h' : numbering.Stands s' ts') :
    numbering.Stands (s \ s') (ts \ ts') where
  numbered i hi := h.numbered i (BitSet.mem_sdiff.mp hi).1
  mem_iff t := by rw [Std.ExtTreeSet.mem_diff_iff, h.mem_iff, h'.mem_iff, holds_sdiff]

theorem stands_encode {listed : List Temp} (h : ∀ t, t ∈ ts ↔ t ∈ listed ∧ t ∈ numbering.temps) :
    numbering.Stands (numbering.encode listed) ts where
  numbered i hi := by
    obtain ⟨t, _, h_number⟩ := mem_encode.mp hi
    exact lt_size_of_number? h_number
  mem_iff t := by rw [h, holds_encode_iff]

theorem Stands.ofList_decode (h_nodup : numbering.temps.Nodup) (h : numbering.Stands s ts) :
    Std.ExtTreeSet.ofList (numbering.decode s) = ts := by
  refine Std.ExtTreeSet.ext_mem fun t => ?_
  rw [Std.ExtTreeSet.mem_ofList, List.contains_iff_mem, mem_decode h_nodup, h.mem_iff]

end Numbering

/-! ## The equations and the seeds -/

open Dataflow (Solver Problem Run Tables)

namespace FlowGraph

variable {flow : FlowGraph} {tag : GraphTag} {body : List Instr} {listed : List Temp}

/-- The liveness equations over sets of temporaries.  A successor is known by its place among the
nodes. -/
def plainEquations (flow : FlowGraph) : Problem flow.size TempSet :=
  .genKill (fun i => (flow.table.get i).2.succs.map flow.nodes.idxOf)
    (fun i => .ofList (flow.table.get i).2.payload.uses)
    (fun i => .ofList (flow.table.get i).2.payload.defs)

/-- The temporaries of an answer that the flow graph mentions.  Where there is no answer there are
none. -/
def mentioned (flow : FlowGraph) (answer : Except AnalysisError TempSet) : TempSet :=
  match answer with
  | .ok ts => ts.filter (· ∈ mentions flow.body)
  | .error _ => ∅

/-- What a table answers for the nodes of a flow graph, as far as the flow graph mentions it. -/
def plainSeeds (flow : FlowGraph) (live : Liveness) : Tables flow.size TempSet :=
  ⟨flow.table.map fun (id, _) => flow.mentioned (live.liveIn id),
    flow.table.map fun (id, _) => flow.mentioned (live.liveOut id)⟩

theorem mem_mentioned {ts : TempSet} {t : Temp} :
    t ∈ flow.mentioned (.ok ts) ↔ t ∈ ts ∧ t ∈ mentions flow.body := by
  simp only [mentioned, Std.ExtTreeSet.mem_filter, Std.ExtTreeSet.get_eq, decide_eq_true_eq,
    exists_prop]

theorem stands_encode_listed (h : ∀ t ∈ listed, t ∈ flow.numbering.temps) :
    flow.numbering.Stands (flow.numbering.encode listed) (.ofList listed) := by
  refine Numbering.stands_encode fun t => ?_
  rw [Std.ExtTreeSet.mem_ofList, List.contains_iff_mem]
  exact (and_iff_left_of_imp (h t)).symm

/-- Whatever a table holds for a node is taken up as the set it stands for. -/
theorem stands_renumber (flow : FlowGraph) (live : Liveness) (set : LiveRow → BitSet) (a : NodeId) :
    flow.numbering.Stands (live.renumber flow.numbering set a)
      (flow.mentioned ((fun row => live.tempSet (set row)) <$> live.row a)) := by
  rw [Liveness.renumber, Liveness.row]
  cases live.row? a with
  | none => exact Numbering.stands_empty
  | some row =>
    refine Numbering.stands_encode fun t => ?_
    have h_listed : t ∈ live.tempSet (set row) ↔ t ∈ live.numbering.decode (set row) := by
      rw [Liveness.tempSet, Std.ExtTreeSet.mem_ofList, List.contains_iff_mem]
    rw [numbering, Numbering.mem_ofMentions, ← h_listed]
    exact mem_mentioned

theorem plainSeeds_ins_get (flow : FlowGraph) (live : Liveness) (i : Fin flow.size) :
    (flow.plainSeeds live).ins.get i = flow.mentioned (live.liveIn (flow.table.get i).1) :=
  Vector.getElem_map _ i.isLt

theorem plainSeeds_outs_get (flow : FlowGraph) (live : Liveness) (i : Fin flow.size) :
    (flow.plainSeeds live).outs.get i = flow.mentioned (live.liveOut (flow.table.get i).1) :=
  Vector.getElem_map _ i.isLt

theorem mirrors_seeds (flow : FlowGraph) (live : Liveness) :
    (Liveness.seeds flow live).Mirrors flow.numbering.Stands (flow.plainSeeds live) := by
  intro i
  rw [Liveness.seeds_ins_get, Liveness.seeds_outs_get, plainSeeds_ins_get, plainSeeds_outs_get]
  exact ⟨flow.stands_renumber live _ _, flow.stands_renumber live _ _⟩

theorem LaidOut.equations_mirrors (h : flow.LaidOut tag body) :
    flow.equations.Mirrors flow.numbering.Stands flow.plainEquations := by
  have h_numbered := fun i => h.numbered i
  simp only [Instr.mentions, List.mem_append, or_imp, forall_and] at h_numbered
  rw [equations_eq]
  exact ⟨funext fun i => (h.places_eq i).symm, Numbering.stands_empty,
    fun h_value h_value' => h_value.union h_value', fun i _ _ h_value =>
      (stands_encode_listed (h_numbered.2 i)).union
        (h_value.sdiff (stands_encode_listed (h_numbered.1 i)))⟩

/-! ## Runs -/

/-- A table shows a run over sets of temporaries: it answers for every node with the sets of the run
and has counted as many steps. -/
structure Shows (flow : FlowGraph) (live : Liveness) (run : Run flow.size TempSet) : Prop where
  liveIn : ∀ i, live.liveIn (flow.table.get i).1 = .ok (run.tables.ins.get i)
  liveOut : ∀ i, live.liveOut (flow.table.get i).1 = .ok (run.tables.outs.get i)
  isLiveOut : ∀ i t,
    live.isLiveOut (flow.table.get i).1 t = .ok (decide (t ∈ run.tables.outs.get i))
  steps : live.steps = run.steps

/-- What a solver makes of sets of numbers is what it makes of the plain sets they stand for: after
whatever visits, at whatever length of a run, and in the table that is made of it. -/
structure Decodes (flow : FlowGraph) (solver : Solver) (seed : Tables flow.size BitSet)
    (plain : Tables flow.size TempSet) (live : Liveness) : Prop where
  visits : ∀ nodes : List (Fin flow.size), (nodes.foldl flow.equations.refresh seed).Mirrors
    flow.numbering.Stands (nodes.foldl flow.plainEquations.refresh plain)
  runs : ∀ fuel, (flow.equations.solve solver fuel seed).Mirrors flow.numbering.Stands
    (flow.plainEquations.solve solver fuel plain)
  shows : flow.Shows live (flow.plainEquations.solve solver
    (Liveness.budget flow.size flow.numbering.size) plain)

theorem LaidOut.shows (h : flow.LaidOut tag body) {solver : Solver} {seed : Tables flow.size BitSet}
    {run : Run flow.size TempSet}
    (h_run : (Liveness.run flow solver seed).Mirrors flow.numbering.Stands run) :
    flow.Shows (Liveness.solve flow solver seed) run := by
  have h_nodup := Numbering.nodup_ofMentions (mentions flow.body)
  have h_row := fun i => Liveness.row_solve h solver seed i
  simp only [← (h.table_get _).1] at h_row
  refine ⟨fun i => map_eq_ok.mpr ⟨_, h_row i, ?_⟩, fun i => map_eq_ok.mpr ⟨_, h_row i, ?_⟩,
    fun i t => map_eq_ok.mpr ⟨_, h_row i, ?_⟩, h_run.steps⟩
  · exact (h_run.tables i).1.ofList_decode h_nodup
  · exact (h_run.tables i).2.ofList_decode h_nodup
  · rw [Bool.eq_iff_iff, decide_eq_true_iff]
    exact ((h_run.tables i).2.mem_iff t).symm

theorem LaidOut.decodes (h : flow.LaidOut tag body) {seed : Tables flow.size BitSet}
    {plain : Tables flow.size TempSet} (h_seed : seed.Mirrors flow.numbering.Stands plain)
    (solver : Solver) : flow.Decodes solver seed plain (Liveness.solve flow solver seed) := by
  have h_runs := fun fuel => h.equations_mirrors.solve
    (Numbering.biUnique_stands (Numbering.nodup_ofMentions _)) h.inRange h_seed solver fuel
  refine ⟨fun nodes => ?_, h_runs, h.shows (h_runs _)⟩
  exact List.foldl_rel h_seed fun i _ _ _ h_rows => h.equations_mirrors.refresh h_rows i

end FlowGraph

namespace Session

/-- In every session, for any flow graph and solver: the liveness equations over sets of numbers are
those that one survey of the nodes makes, and the temporaries it mentions go one to one with the
numbers, in the order of their first mention.  From empty sets, and from the sets of any table that
is there, the solver settles.  From these, and from the sets of any table whatever, it does with the
sets of numbers what it does with the plain sets of temporaries they stand for: it makes the same
visits, holds numbers of those temporaries only, and shows the same sets after the same steps. -/
theorem run_decoded (requests : List Request) :
    ∀ e ∈ (run requests).flows,
      e.flow.equations = e.flow.surveyEquations ∧
        (survey e.flow.body).numbering = e.flow.numbering ∧
        (∃ number : {t // t ∈ mentions e.flow.body} ≃ Fin e.flow.numbering.size,
          (∀ t : {t // t ∈ mentions e.flow.body}, e.flow.numbering.number? t = some (number t : Nat)) ∧
            ∀ t u, number t < number u ↔
              (mentions e.flow.body).idxOf t.1 < (mentions e.flow.body).idxOf u.1) ∧
        ∀ solver,
          (Liveness.run e.flow solver (.const _ ∅)).status = .settled ∧
            e.flow.Decodes solver (.const _ ∅) (.const _ ∅) (.compute e.flow solver) ∧
            (∀ t ∈ (run requests).tables,
              (Liveness.run e.flow solver (Liveness.seeds e.flow t.live)).status = .settled) ∧
            ∀ seed : Liveness, e.flow.Decodes solver (Liveness.seeds e.flow seed)
              (e.flow.plainSeeds seed) (.solveFrom e.flow seed solver) := by
  intro e h_e
  have h := run_coherent requests
  obtain ⟨tag, body, _, h_laid⟩ := h.laidOut e h_e
  refine ⟨h_laid.equations_eq_survey, by rw [survey_eq]; rfl, Numbering.exists_equiv_ofMentions _,
    fun solver => ⟨(Liveness.run_eq h_laid solver).1, ?_,
      fun t h_t => (h.run_seeds h_e h_t solver).1, fun seed => ?_⟩⟩
  · exact h_laid.decodes (Tables.mirrors_const Numbering.stands_empty) solver
  · exact h_laid.decodes (e.flow.mirrors_seeds seed) solver

theorem run_decoded_copyLoop :
    (run [.build Liveness.copyLoop, .compute 0 .roundRobin]).flows = [⟨Liveness.copyLoopFlow, 0⟩] ∧
      (run [.build Liveness.copyLoop, .compute 0 .roundRobin]).tables =
        [⟨.compute Liveness.copyLoopFlow .roundRobin, 0⟩] ∧
      (Liveness.run Liveness.copyLoopFlow .worklist (Liveness.seeds Liveness.copyLoopFlow
        (.compute Liveness.copyLoopFlow .roundRobin))).status = .settled ∧
      Liveness.copyLoopFlow.Decodes .worklist
        (Liveness.seeds Liveness.copyLoopFlow (.compute Liveness.copyLoopFlow .roundRobin))
        (Liveness.copyLoopFlow.plainSeeds (.compute Liveness.copyLoopFlow .roundRobin))
        (.solveFrom Liveness.copyLoopFlow (.compute Liveness.copyLoopFlow .roundRobin) .worklist) := by
  have h_flows : (run [.build Liveness.copyLoop, .compute 0 .roundRobin]).flows =
      [⟨Liveness.copyLoopFlow, 0⟩] := rfl
  have h_tables : (run [.build Liveness.copyLoop, .compute 0 .roundRobin]).tables =
      [⟨.compute Liveness.copyLoopFlow .roundRobin, 0⟩] := rfl
  have h_decoded := (run_decoded [.build Liveness.copyLoop, .compute 0 .roundRobin]
    ⟨Liveness.copyLoopFlow, 0⟩ (h_flows ▸ List.mem_singleton_self _)).2.2.2 .worklist
  exact ⟨h_flows, h_tables,
    h_decoded.2.2.1 ⟨.compute Liveness.copyLoopFlow .roundRobin, 0⟩
      (h_tables ▸ List.mem_singleton_self _), h_decoded.2.2.2 _⟩

end Session

end LiveRange
