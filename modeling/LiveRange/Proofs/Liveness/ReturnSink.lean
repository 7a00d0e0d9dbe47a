import Mathlib.Logic.Relation
import LiveRange.Proofs.Flow.Closing
import LiveRange.Proofs.Liveness.Exact

/-! # What the return sink keeps alive

The sink at the end of a closed body reads the registers whose values must survive to the end of the
procedure.  Putting it there makes each of them live where its value may still reach the sink, and
changes nothing else (`Frame.close_exact`): a register becomes live after an instruction exactly if
control may pass from there to the last instruction and over it, and nothing on the way writes the
register.

`FlowGraph.Reaches` is such a way.  Since nothing is entered from the sink, a way in the closed body
that ends before the sink is a way in the body itself (`FlowGraph.reaches_close`). -/

namespace LiveRange

namespace FlowGraph

variable {flow flow' : FlowGraph} {t : Temp} {a b c : NodeId}

/-! ## Ways that keep a value -/

/-- `b` may execute right after `a`, and does not write `t`. -/
def Spares (flow : FlowGraph) (t : Temp) (a b : NodeId) : Prop := flow.Edge a b ∧ ¬ flow.Writes t b

/-- Control may pass from `a` to `b`, in any number of steps, and no node on the way after `a` writes
`t`. -/
abbrev Reaches (flow : FlowGraph) (t : Temp) : NodeId → NodeId → Prop :=
  Relation.ReflTransGen (flow.Spares t)

/-- A temporary is live where its value may reach a node right before a read. -/
theorem liveAfter_iff_reaches : flow.LiveAfter t a ↔
    ∃ b c, flow.Reaches t a b ∧ flow.Edge b c ∧ flow.Reads t c := by
  constructor
  · intro h_live
    obtain ⟨between, last, h_path⟩ := h_live
    induction between generalizing a with
    | nil =>
      obtain ⟨h_edge, h_reads⟩ := readPath_nil.mp h_path
      exact ⟨a, last, .refl, h_edge, h_reads⟩
    | cons c between ih =>
      obtain ⟨h_edge, h_silent, h_path⟩ := readPath_cons.mp h_path
      obtain ⟨b, last, h_reaches, h_read⟩ := ih h_path
      exact ⟨b, last, h_reaches.head ⟨h_edge, h_silent⟩, h_read⟩
  · intro h_way
    obtain ⟨b, c, h_reaches, h_edge, h_reads⟩ := h_way
    induction h_reaches using Relation.ReflTransGen.head_induction_on with
    | refl => exact ⟨[], c, readPath_nil.mpr ⟨h_edge, h_reads⟩⟩
    | head h_step _ ih =>
      obtain ⟨between, last, h_path⟩ := ih
      exact ⟨_ :: between, last, readPath_cons.mpr ⟨h_step.1, h_step.2, h_path⟩⟩

/-! ## By position -/

section Position

variable {tag : GraphTag} {body : List Instr} {i : Nat}

theorem edge_of_build (h : build tag body = .ok flow) :
    flow.Edge a b ↔ ∃ i j, a = ⟨tag, i⟩ ∧ b = ⟨tag, j⟩ ∧ j ∈ nextOf body i := by
  rw [← goesTo_eq_true h, edge_iff_exists, Graph.goesTo, map_eq_ok]
  simp only [Graph.node_eq_ok, decide_eq_true_eq]

theorem LaidOut.reads_at (h : flow.LaidOut tag body) :
    flow.Reads t ⟨tag, i⟩ ↔ ∃ instr, body[i]? = some instr ∧ t ∈ instr.uses :=
  reads_iff_exists.trans (h.exists_node_iff (t ∈ ·.uses))

theorem LaidOut.writes_at (h : flow.LaidOut tag body) :
    flow.Writes t ⟨tag, i⟩ ↔ ∃ instr, body[i]? = some instr ∧ t ∈ instr.defs :=
  writes_iff_exists.trans (h.exists_node_iff (t ∈ ·.defs))

end Position

/-! ## The closed body -/

section Close

variable {frame : Frame} {tag tag' : GraphTag} {body : List Instr} {i j : Nat}

theorem reads_close (h : build tag body = .ok flow) (h' : build tag' (frame.close body) = .ok flow')
    (hi : i < body.length) : flow'.Reads t ⟨tag', i⟩ ↔ flow.Reads t ⟨tag, i⟩ := by
  rw [(build_laidOut h').reads_at, (build_laidOut h).reads_at, frame.getElem?_close hi]

theorem writes_close (h : build tag body = .ok flow) (h' : build tag' (frame.close body) = .ok flow')
    (hi : i < body.length) : flow'.Writes t ⟨tag', i⟩ ↔ flow.Writes t ⟨tag, i⟩ := by
  rw [(build_laidOut h').writes_at, (build_laidOut h).writes_at, frame.getElem?_close hi]

theorem reads_sink (h' : build tag' (frame.close body) = .ok flow') :
    flow'.Reads t ⟨tag', body.length⟩ ↔ t ∈ frame.returnSink := by
  rw [(build_laidOut h').reads_at, frame.getElem?_close_length]
  simp only [Option.some.injEq, exists_eq_left']
  rfl

/-- Up to the sink the same ways lead through the closed body as through the body itself. -/
theorem reaches_close (h : build tag body = .ok flow)
    (h' : build tag' (frame.close body) = .ok flow') (hj : j < body.length) :
    flow'.Reaches t ⟨tag', i⟩ ⟨tag', j⟩ ↔ flow.Reaches t ⟨tag, i⟩ ⟨tag, j⟩ := by
  constructor
  · intro h_reaches
    generalize h_end : (⟨tag', j⟩ : NodeId) = b at h_reaches
    induction h_reaches generalizing j with
    | refl =>
      cases h_end
      exact .refl
    | tail _ h_step ih =>
      -- what is entered is not the sink, and it is entered from an instruction of the body
      subst h_end
      obtain ⟨h_edge, h_spared⟩ := h_step
      obtain ⟨m, k, rfl, h_last, h_next⟩ := (edge_of_build h').mp h_edge
      cases h_last
      have h_old := (mem_nextOf_close.mp h_next).resolve_right fun h => Nat.ne_of_lt hj h.2.2
      refine (ih (lt_of_mem_nextOf h_old).1 rfl).tail ⟨?_, ?_⟩
      · exact (edge_of_build h).mpr ⟨m, j, rfl, rfl, h_old⟩
      · exact mt (writes_close h h' hj).mpr h_spared
  · intro h_reaches
    have h_step : ∀ a b, flow.Spares t a b → flow'.Spares t ⟨tag', a.index⟩ ⟨tag', b.index⟩ := by
      rintro a b ⟨h_edge, h_spared⟩
      obtain ⟨m, k, rfl, rfl, h_next⟩ := (edge_of_build h).mp h_edge
      exact ⟨(edge_of_build h').mpr ⟨m, k, rfl, rfl, mem_nextOf_close.mpr (.inl h_next)⟩,
        mt (writes_close h h' (lt_of_mem_nextOf h_next).2).mp h_spared⟩
    exact h_reaches.lift _ h_step

/-- With the sink there is one more read, for registers whose values reach the end of the body. -/
theorem liveAfter_close (h : build tag body = .ok flow)
    (h' : build tag' (frame.close body) = .ok flow') :
    flow'.LiveAfter t ⟨tag', i⟩ ↔ flow.LiveAfter t ⟨tag, i⟩ ∨
      t ∈ frame.returnSink ∧ runsOff body = true ∧
        flow.Reaches t ⟨tag, i⟩ ⟨tag, body.length - 1⟩ := by
  rw [liveAfter_iff_reaches, liveAfter_iff_reaches]
  constructor
  · rintro ⟨b, c, h_reaches, h_edge, h_reads⟩
    obtain ⟨m, k, rfl, rfl, h_next⟩ := (edge_of_build h').mp h_edge
    rcases mem_nextOf_close.mp h_next with h_old | ⟨h_last, h_off, rfl⟩
    · -- what is read next belongs to the body
      obtain ⟨hm, hk⟩ := lt_of_mem_nextOf h_old
      exact .inl ⟨_, _, (reaches_close h h' hm).mp h_reaches,
        (edge_of_build h).mpr ⟨m, k, rfl, rfl, h_old⟩, (reads_close h h' hk).mp h_reads⟩
    · -- the sink reads it, and only the last instruction leads there
      obtain rfl : m = body.length - 1 := by omega
      refine .inr ⟨(reads_sink h').mp h_reads, h_off, ?_⟩
      exact (reaches_close h h' (by omega)).mp h_reaches
  · rintro (⟨b, c, h_reaches, h_edge, h_reads⟩ | ⟨h_mem, h_off, h_reaches⟩)
    · obtain ⟨m, k, rfl, rfl, h_next⟩ := (edge_of_build h).mp h_edge
      obtain ⟨hm, hk⟩ := lt_of_mem_nextOf h_next
      exact ⟨_, _, (reaches_close h h' hm).mpr h_reaches,
        (edge_of_build h').mpr ⟨m, k, rfl, rfl, mem_nextOf_close.mpr (.inl h_next)⟩,
        (reads_close h h' hk).mpr h_reads⟩
    · have h_some := length_pos_of_runsOff h_off
      have h_last : body.length - 1 + 1 = body.length := Nat.sub_add_cancel h_some
      exact ⟨_, _, (reaches_close h h' (by omega)).mpr h_reaches,
        (edge_of_build h').mpr ⟨_, _, rfl, rfl, mem_nextOf_close.mpr (.inr ⟨h_last, h_off, rfl⟩)⟩,
        (reads_sink h').mpr h_mem⟩

/-- Before the sink exactly the registers that it reads are live. -/
theorem liveBefore_sink (h' : build tag' (frame.close body) = .ok flow') :
    flow'.LiveBefore t ⟨tag', body.length⟩ ↔ t ∈ frame.returnSink := by
  rw [LiveBefore, reads_sink h', or_iff_left]
  rintro ⟨h_live, _⟩
  -- to be live after the sink, it would have to be read later
  obtain ⟨c, h_edge, _⟩ := liveAfter_iff.mp h_live
  obtain ⟨i, j, h_sink, _, h_next⟩ := (edge_of_build h').mp h_edge
  cases h_sink
  rw [nextOf_sink] at h_next
  cases h_next

end Close

end FlowGraph

/-! ## Both tables -/

namespace Frame

variable {flow flow' : FlowGraph} {tag tag' : GraphTag} {frame : Frame} {body : List Instr}

theorem liveIn_sink (h' : FlowGraph.build tag' (frame.close body) = .ok flow')
    (solver : Dataflow.Solver) :
    (Liveness.compute flow' solver).liveIn ⟨tag', body.length⟩ = .ok (.ofList frame.returnSink) := by
  have h_laid := FlowGraph.build_laidOut h'
  have h_node := h_laid.mem_nodes (frame.length_lt_close body)
  obtain ⟨ts, h_ts, h_mem⟩ := Liveness.liveIn_compute h_laid solver h_node
  rw [h_ts, Except.ok.injEq]
  refine Std.ExtTreeSet.ext_mem fun t => ?_
  rw [h_mem, FlowGraph.liveBefore_sink h', Std.ExtTreeSet.mem_ofList, List.contains_iff_mem]

theorem liveOut_close (h : FlowGraph.build tag body = .ok flow)
    (h' : FlowGraph.build tag' (frame.close body) = .ok flow') (solver solver' : Dataflow.Solver)
    {i : Nat} (hi : i < body.length) :
    ∃ outs outs', (Liveness.compute flow solver).liveOut ⟨tag, i⟩ = .ok outs ∧
      (Liveness.compute flow' solver').liveOut ⟨tag', i⟩ = .ok outs' ∧
      ∀ r, r ∈ outs' ↔ r ∈ outs ∨ r ∈ frame.returnSink ∧ runsOff body = true ∧
        flow.Reaches r ⟨tag, i⟩ ⟨tag, body.length - 1⟩ := by
  have h_laid := FlowGraph.build_laidOut h
  have h_laid' := FlowGraph.build_laidOut h'
  obtain ⟨outs, h_outs, h_mem⟩ := Liveness.liveOut_compute h_laid solver (h_laid.mem_nodes hi)
  obtain ⟨outs', h_outs', h_mem'⟩ :=
    Liveness.liveOut_compute h_laid' solver' (h_laid'.mem_nodes (frame.lt_length_close hi))
  refine ⟨outs, outs', h_outs, h_outs', fun r => ?_⟩
  rw [h_mem', h_mem, FlowGraph.liveAfter_close h h']

/-- The sink at the end of a body extends liveness by the registers that reach the end, and by no more.

* A closed body has a flow graph exactly if the body has one, and otherwise the same fault.
* The flow graph gains the sink, and an edge to it from the last instruction if there is one and it
  falls through.
* Exactly the registers that the sink reads are live before it.
* After an instruction is live what was live there, and each of these registers whose value may reach
  the last instruction from there without being written, if the last instruction falls through. -/
theorem close_exact (frame : Frame) (body : List Instr) (tag tag' : GraphTag) :
    ((∃ flow', FlowGraph.build tag' (frame.close body) = .ok flow') ↔
      ∃ flow, FlowGraph.build tag body = .ok flow) ∧
    (∀ e, FlowGraph.build tag' (frame.close body) = .error e ↔
      FlowGraph.build tag body = .error e) ∧
    ∀ flow flow', FlowGraph.build tag body = .ok flow →
      FlowGraph.build tag' (frame.close body) = .ok flow' →
        flow.Sunk tag flow' tag' frame body ∧ ∀ solver solver',
          (Liveness.compute flow' solver').liveIn ⟨tag', body.length⟩ =
              .ok (.ofList frame.returnSink) ∧
            ∀ i < body.length, ∃ outs outs',
              (Liveness.compute flow solver).liveOut ⟨tag, i⟩ = .ok outs ∧
                (Liveness.compute flow' solver').liveOut ⟨tag', i⟩ = .ok outs' ∧
                ∀ r, r ∈ outs' ↔ r ∈ outs ∨ r ∈ frame.returnSink ∧ runsOff body = true ∧
                  flow.Reaches r ⟨tag, i⟩ ⟨tag, body.length - 1⟩ := by
  refine ⟨FlowGraph.exists_build_close frame tag tag' body,
    fun e => FlowGraph.build_close_eq_error frame tag tag', fun flow flow' h h' => ?_⟩
  exact ⟨FlowGraph.build_close_sunk h h', fun solver solver' =>
    ⟨liveIn_sink h' solver', fun i hi => liveOut_close h h' solver solver' hi⟩⟩

theorem close_exact_copyLoop : ∃ flow',
    FlowGraph.build ⟨1⟩ (x86.close Liveness.copyLoop) = .ok flow' ∧
      Liveness.copyLoopFlow.Sunk ⟨0⟩ flow' ⟨1⟩ x86 Liveness.copyLoop ∧ ∀ solver solver',
        (Liveness.compute flow' solver').liveIn ⟨⟨1⟩, 4⟩ = .ok (.ofList x86.returnSink) ∧
          ∀ i < 4, ∃ outs outs',
            (Liveness.compute Liveness.copyLoopFlow solver).liveOut ⟨⟨0⟩, i⟩ = .ok outs ∧
              (Liveness.compute flow' solver').liveOut ⟨⟨1⟩, i⟩ = .ok outs' ∧
              ∀ r, r ∈ outs' ↔ r ∈ outs ∨ r ∈ x86.returnSink ∧ runsOff Liveness.copyLoop = true ∧
                Liveness.copyLoopFlow.Reaches r ⟨⟨0⟩, i⟩ ⟨⟨0⟩, 3⟩ := by
  obtain ⟨h_ok, _, h_closed⟩ := close_exact x86 Liveness.copyLoop ⟨0⟩ ⟨1⟩
  obtain ⟨flow', h'⟩ := h_ok.mpr ⟨_, Liveness.build_copyLoop⟩
  exact ⟨flow', h', h_closed _ flow' Liveness.build_copyLoop h'⟩

end Frame

end LiveRange
