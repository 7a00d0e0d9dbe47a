import LiveRange.Frame
import LiveRange.Proofs.Flow.Shape

/-! # The flow graph of a closed body

`Frame.close` puts the sink at the end of a body: an operation that defines no label and does not
jump.  So the body with the sink has the faults of the body without it (`FlowGraph.build_close_eq_error`),
and where the one has a flow graph so has the other.

The sink takes up what used to run off the end.  If there is a last instruction and it falls through,
it has the sink for its first successor, and nothing else about the edges changes
(`FlowGraph.build_close_sunk`). -/

namespace LiveRange

/-- Whether control may run off the end of a body: there is a last instruction, and it falls through. -/
def runsOff (body : List Instr) : Bool := body.getLast?.any Instr.fallsThrough

variable {frame : Frame} {body : List Instr} {labels : LabelTable} {e : AnalysisError} {i j : Nat}

theorem runsOff_eq {instr : Instr} (h_instr : body[i]? = some instr) (h_last : i + 1 = body.length) :
    runsOff body = instr.fallsThrough := by
  have h_index : body.length - 1 = i := by omega
  rw [runsOff, List.getLast?_eq_getElem?, h_index, h_instr, Option.any_some]

theorem length_pos_of_runsOff (h : runsOff body = true) : 0 < body.length := by
  rw [List.length_pos_iff]
  rintro rfl
  cases h

namespace Frame

theorem length_close (frame : Frame) (body : List Instr) :
    (frame.close body).length = body.length + 1 := by
  rw [close, List.length_append, List.length_singleton]

theorem length_lt_close (frame : Frame) (body : List Instr) :
    body.length < (frame.close body).length :=
  frame.length_close body ▸ Nat.lt_succ_self _

theorem lt_length_close (frame : Frame) (hi : i < body.length) : i < (frame.close body).length :=
  Nat.lt_trans hi (frame.length_lt_close body)

theorem getElem?_close (frame : Frame) (hi : i < body.length) :
    (frame.close body)[i]? = body[i]? :=
  List.getElem?_append_left hi

theorem getElem?_close_length (frame : Frame) (body : List Instr) :
    (frame.close body)[body.length]? = some frame.sink :=
  List.getElem?_concat_length

end Frame

/-! ## Where control may go -/

theorem placesOf_close (frame : Frame) (body : List Instr) (label : Label) :
    placesOf (frame.close body) label = placesOf body label := by
  rw [Frame.close, placesOf_concat, if_neg (nofun : frame.sink.definedLabel? ≠ some label),
    List.append_nil]

/-- The last instruction may pass control on to the sink; what else may come next stays. -/
theorem nextOf_close (frame : Frame) (hi : i < body.length) :
    nextOf (frame.close body) i =
      (if i + 1 = body.length ∧ runsOff body = true then [body.length] else []) ++ nextOf body i := by
  obtain ⟨instr, h_instr⟩ : ∃ instr, body[i]? = some instr := ⟨_, List.getElem?_eq_getElem hi⟩
  have h_places : instr.targets.flatMap (placesOf (frame.close body)) =
      instr.targets.flatMap (placesOf body) :=
    List.flatMap_congr fun label _ => placesOf_close frame body label
  simp only [nextOf, frame.getElem?_close hi, h_instr, h_places, frame.length_close]
  by_cases h_last : i + 1 = body.length
  · rw [runsOff_eq h_instr h_last]
    cases instr.fallsThrough <;> simp [h_last]
  · have h_more : i + 1 < body.length := by omega
    cases instr.fallsThrough <;> simp [h_last, h_more, hi]

theorem nextOf_sink (frame : Frame) (body : List Instr) :
    nextOf (frame.close body) body.length = [] := by
  simp only [nextOf, frame.getElem?_close_length, frame.length_close]
  simp [Frame.sink, Instr.op, Instr.targets]

theorem mem_nextOf_close {frame : Frame} : j ∈ nextOf (frame.close body) i ↔
    j ∈ nextOf body i ∨ i + 1 = body.length ∧ runsOff body = true ∧ j = body.length := by
  by_cases hi : i < body.length
  · rw [nextOf_close frame hi, List.mem_append, or_comm]
    refine or_congr_right ?_
    rw [← and_assoc]
    split <;> simp [*]
  · -- nothing comes after the sink, nor after a position past it
    have h_old : j ∉ nextOf body i := fun h => hi (lt_of_mem_nextOf h).1
    have h_new : j ∉ nextOf (frame.close body) i := by
      intro h
      have h_lt := (lt_of_mem_nextOf h).1
      rw [frame.length_close] at h_lt
      obtain rfl : i = body.length := by omega
      rw [nextOf_sink] at h
      cases h
    simp only [h_old, h_new, false_or, false_iff]
    omega

/-! ## Faults -/

theorem labelTable_close (frame : Frame) (body : List Instr) :
    labelTable (frame.close body) = labelTable body := by
  rw [Frame.close, labelTable_concat]
  exact bind_pure _

theorem nextPositions_eq_error {instr : Instr} {size : Nat} :
    instr.nextPositions labels size i = .error e ↔
      instr.targets.mapM (labels.resolve i) = .error e := by
  rw [Instr.nextPositions, bind_pure_comp, map_eq_error_iff]

/-- The search for edges fails as the search for the places of all jump targets does. -/
theorem flowEdges_eq_error :
    flowEdges labels body = .error e ↔
      body.zipIdx.mapM (fun p => p.1.targets.mapM (labels.resolve p.2)) = .error e := by
  have h_rows : flowEdges labels body = .error e ↔
      body.zipIdx.mapM (fun p => (·.map (p.2, ·)) <$> p.1.nextPositions labels body.length p.2) =
        .error e := by
    rw [flowEdges, bind_pure_comp, map_eq_error_iff]
  rw [h_rows]
  exact mapM_eq_error_congr fun p _ e => map_eq_error_iff.trans nextPositions_eq_error

theorem flowEdges_close_eq_error (frame : Frame) :
    flowEdges labels (frame.close body) = .error e ↔ flowEdges labels body = .error e := by
  rw [flowEdges_eq_error, flowEdges_eq_error, Frame.close, List.zipIdx_append, List.mapM_append,
    bind_eq_error]
  -- the sink has no jump targets to look for
  exact ⟨fun h => h.elim id nofun, .inl⟩

namespace FlowGraph

variable {flow flow' : FlowGraph} {tag tag' : GraphTag}

theorem build_eq_error :
    build tag body = .error e ↔ labelTable body = .error e ∨
      ∃ labels, labelTable body = .ok labels ∧ flowEdges labels body = .error e := by
  rw [build, bind_eq_error]
  refine or_congr_right (exists_congr fun labels => and_congr_right fun _ => ?_)
  rw [bind_pure_comp, map_eq_error_iff]

/-- A body with the sink has the faults of the body without it. -/
theorem build_close_eq_error (frame : Frame) (tag tag' : GraphTag) :
    build tag' (frame.close body) = .error e ↔ build tag body = .error e := by
  rw [build_eq_error, build_eq_error, labelTable_close]
  exact or_congr_right
    (exists_congr fun labels => and_congr_right fun _ => flowEdges_close_eq_error frame)

theorem exists_build_close (frame : Frame) (tag tag' : GraphTag) (body : List Instr) :
    (∃ flow', build tag' (frame.close body) = .ok flow') ↔ ∃ flow, build tag body = .ok flow := by
  rw [exists_eq_ok_iff, exists_eq_ok_iff]
  exact forall_congr' fun e => not_congr (build_close_eq_error frame tag tag')

/-! ## Edges -/

theorem eraseDups_nextOf_close (frame : Frame) (hi : i < body.length) :
    (nextOf (frame.close body) i).eraseDups =
      (if i + 1 = body.length ∧ runsOff body = true then [body.length] else []) ++
        (nextOf body i).eraseDups := by
  rw [nextOf_close frame hi]
  split
  · -- what came next before lies in the body, and the sink does not
    have h_new : ∀ j ∈ nextOf body i, (!j == body.length) = true := fun j hj => by
      have h_lt := (lt_of_mem_nextOf hj).2
      simp [Nat.ne_of_lt h_lt]
    rw [List.singleton_append, List.eraseDups_cons, List.filter_eq_self.mpr h_new]
    rfl
  · rfl

/-- Nothing is entered from the sink. -/
theorem filter_range_close (frame : Frame) (body : List Instr) (j : Nat) :
    (List.range (frame.close body).length).filter (j ∈ nextOf (frame.close body) ·) =
      (List.range body.length).filter (j ∈ nextOf (frame.close body) ·) := by
  rw [frame.length_close, List.range_succ, List.filter_append]
  simp [nextOf_sink]

theorem filter_nextOf_close (frame : Frame) (hj : j < body.length) :
    (List.range (frame.close body).length).filter (j ∈ nextOf (frame.close body) ·) =
      (List.range body.length).filter (j ∈ nextOf body ·) := by
  rw [filter_range_close]
  refine List.filter_congr fun i _ => decide_eq_decide.mpr ?_
  rw [mem_nextOf_close, or_iff_left]
  exact fun h => Nat.ne_of_lt hj h.2.2

/-- The sink is entered from the last instruction, if that falls through. -/
theorem filter_nextOf_sink (frame : Frame) (body : List Instr) :
    (List.range (frame.close body).length).filter (body.length ∈ nextOf (frame.close body) ·) =
      if runsOff body = true then [body.length - 1] else [] := by
  have h_each : ∀ i ∈ List.range body.length, decide (body.length ∈ nextOf (frame.close body) i) =
      decide (i + 1 = body.length ∧ runsOff body = true) := by
    intro i _
    have h_old : body.length ∉ nextOf body i := fun h => Nat.lt_irrefl _ (lt_of_mem_nextOf h).2
    simp only [mem_nextOf_close, h_old, false_or, and_true]
  rw [filter_range_close, List.filter_congr h_each]
  by_cases h_off : runsOff body = true
  · obtain ⟨m, hm⟩ : ∃ m, body.length = m + 1 := Nat.exists_eq_add_one.mpr (length_pos_of_runsOff h_off)
    have h_earlier : (List.range m).filter (· = m) = [] :=
      List.filter_eq_nil_iff.mpr fun i hi h_eq =>
        Nat.ne_of_lt (List.mem_range.mp hi) (of_decide_eq_true h_eq)
    simp [h_off, hm, List.range_succ, List.filter_append, h_earlier]
  · simp [h_off]

/-- What becomes of a flow graph when the sink is put at the end of the body: a node for the sink, and
an edge to it from the last instruction if there is one and it falls through. -/
structure Sunk (flow : FlowGraph) (tag : GraphTag) (flow' : FlowGraph) (tag' : GraphTag)
    (frame : Frame) (body : List Instr) : Prop where
  instrs : flow.body = body ∧ flow'.body = body ++ [frame.sink]
  nodes : flow.nodes = (List.range body.length).map (⟨tag, ·⟩) ∧
    flow'.nodes = (List.range (body.length + 1)).map (⟨tag', ·⟩)
  successors : ∀ i < body.length, ∃ next : List Nat,
    flow.successors ⟨tag, i⟩ = .ok (next.map (⟨tag, ·⟩)) ∧
      flow'.successors ⟨tag', i⟩ = .ok (((if i + 1 = body.length ∧ runsOff body = true
        then [body.length] else []) ++ next).map (⟨tag', ·⟩))
  predecessors : ∀ j < body.length, ∃ prev : List Nat,
    flow.predecessors ⟨tag, j⟩ = .ok (prev.map (⟨tag, ·⟩)) ∧
      flow'.predecessors ⟨tag', j⟩ = .ok (prev.map (⟨tag', ·⟩))
  sinkSuccessors : flow'.successors ⟨tag', body.length⟩ = .ok []
  sinkPredecessors : flow'.predecessors ⟨tag', body.length⟩ =
    .ok (if runsOff body = true then [⟨tag', body.length - 1⟩] else [])

theorem build_close_sunk (h : build tag body = .ok flow)
    (h' : build tag' (frame.close body) = .ok flow') : flow.Sunk tag flow' tag' frame body where
  instrs := ⟨(build_laidOut h).body_eq, (build_laidOut h').body_eq⟩
  nodes := ⟨(build_laidOut h).nodes_eq, frame.length_close body ▸ (build_laidOut h').nodes_eq⟩
  successors i hi := by
    refine ⟨_, successors_eq h hi, ?_⟩
    rw [successors_eq h' (frame.lt_length_close hi), eraseDups_nextOf_close frame hi]
  predecessors j hj := by
    refine ⟨_, predecessors_eq h hj, ?_⟩
    rw [predecessors_eq h' (frame.lt_length_close hj), filter_nextOf_close frame hj]
  sinkSuccessors := by
    rw [successors_eq h' (frame.length_lt_close body), nextOf_sink]
    rfl
  sinkPredecessors := by
    rw [predecessors_eq h' (frame.length_lt_close body), filter_nextOf_sink]
    split <;> rfl

end FlowGraph

end LiveRange
