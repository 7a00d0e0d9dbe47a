import LiveRange.Proofs.Liveness.Paths

/-! # Numbers given on the way

The numbering of a body and the sets of its instructions may be made together, in one survey over the
body that carries the numbering along: a temporary is given the next number where it is mentioned
first, and keeps it (`Numbering.intern`).  The survey ends with the numbering of all mentions, and its
sets are those that this numbering gives (`survey_eq`).

So the liveness equations may be read off a flow graph in one survey, with a successor known by its
place among the nodes (`LaidOut.equations_eq_survey`). -/

namespace LiveRange

namespace Numbering

variable {listed more ts : List Temp} {t : Temp} {numbering : Numbering}

/-- The number of a temporary, which is given the next one if it has none. -/
def intern (numbering : Numbering) (t : Temp) : Nat × Numbering :=
  match numbering.number? t with
  | some i => (i, numbering)
  | none => (numbering.size, ⟨numbering.temps ++ [t]⟩)

/-- The set of some temporaries, numbered one after another. -/
def internAll (numbering : Numbering) (ts : List Temp) : BitSet × Numbering :=
  ts.foldl (fun (s, numbering) t =>
    let (i, numbering) := numbering.intern t
    (s.insert i, numbering)) (∅, numbering)

theorem encode_concat {i : Nat} (h : numbering.number? t = some i) :
    numbering.encode (ts ++ [t]) = (numbering.encode ts).insert i := by
  simp [encode, List.filterMap_append, List.foldl_append, h]

/-- A temporary keeps its number whatever is mentioned later. -/
theorem number?_ofMentions_append (h : t ∈ listed) :
    (ofMentions (listed ++ more)).number? t = (ofMentions listed).number? t := by
  obtain ⟨i, h_number⟩ := exists_number? (mem_ofMentions.mpr h)
  rw [h_number]
  refine number?_of_getElem? (nodup_ofMentions _) ?_
  have h_temps : (ofMentions (listed ++ more)).temps =
      (ofMentions listed).temps ++ (more.removeAll listed).eraseDups := List.eraseDups_append
  rw [h_temps, List.getElem?_append_left (lt_size_of_number? h_number)]
  exact getElem?_of_number? h_number

theorem encode_ofMentions_append (h : ∀ t ∈ ts, t ∈ listed) :
    (ofMentions (listed ++ more)).encode ts = (ofMentions listed).encode ts := by
  rw [encode, encode, List.filterMap_congr fun t ht => number?_ofMentions_append (h t ht)]

theorem intern_ofMentions (listed : List Temp) (t : Temp) :
    ∃ i, (ofMentions listed).intern t = (i, ofMentions (listed ++ [t])) ∧
      (ofMentions (listed ++ [t])).number? t = some i := by
  by_cases h_mem : t ∈ listed
  · obtain ⟨i, h_number⟩ := exists_number? (mem_ofMentions.mpr h_mem)
    have h_same : ofMentions (listed ++ [t]) = ofMentions listed :=
      congrArg mk ((eraseDups_concat listed t).trans (if_pos h_mem))
    exact ⟨i, by simp only [intern, h_number, h_same], h_same ▸ h_number⟩
  · have h_number : (ofMentions listed).number? t = none :=
      List.idxOf?_eq_none_iff.mpr (mt mem_ofMentions.mp h_mem)
    have h_new : ofMentions (listed ++ [t]) = ⟨(ofMentions listed).temps ++ [t]⟩ :=
      congrArg mk ((eraseDups_concat listed t).trans (if_neg h_mem))
    refine ⟨(ofMentions listed).size, by simp only [intern, h_number, h_new], ?_⟩
    refine number?_of_getElem? (nodup_ofMentions _) ?_
    rw [h_new]
    exact List.getElem?_concat_length

theorem internAll_ofMentions (listed ts : List Temp) :
    (ofMentions listed).internAll ts =
      ((ofMentions (listed ++ ts)).encode ts, ofMentions (listed ++ ts)) := by
  induction ts using List.reverseRecOn with
  | nil => rw [List.append_nil]; rfl
  | append_singleton ts t ih =>
    obtain ⟨i, h_intern, h_number⟩ := intern_ofMentions (listed ++ ts) t
    rw [internAll] at ih
    rw [internAll, List.foldl_append, ih, List.foldl_cons, List.foldl_nil, ← List.append_assoc,
      encode_concat h_number,
      encode_ofMentions_append fun t ht => List.mem_append_right listed ht]
    simp only [h_intern]

end Numbering

/-! ## The survey -/

/-- A survey under way: the temporaries met so far, and the sets of the instructions gone over. -/
structure Survey where
  numbering : Numbering := ⟨[]⟩
  defs : List BitSet := []
  uses : List BitSet := []

/-- What an instruction writes is numbered before what it reads. -/
def Survey.step (survey : Survey) (instr : Instr) : Survey :=
  let (defs, numbering) := survey.numbering.internAll instr.defs
  let (uses, numbering) := numbering.internAll instr.uses
  ⟨numbering, survey.defs ++ [defs], survey.uses ++ [uses]⟩

def survey (body : List Instr) : Survey := body.foldl Survey.step {}

/-- The sets of a body in the numbering of all it mentions. -/
def surveyed (body : List Instr) : Survey :=
  let numbering := Numbering.ofMentions (mentions body)
  ⟨numbering, body.map fun instr => numbering.encode instr.defs,
    body.map fun instr => numbering.encode instr.uses⟩

theorem surveyed_step (body : List Instr) (instr : Instr) :
    (surveyed body).step instr = surveyed (body ++ [instr]) := by
  have h_mentions : mentions (body ++ [instr]) = mentions body ++ (instr.defs ++ instr.uses) := by
    simp [mentions, Instr.mentions]
  have h_old : ∀ temps : Instr → List Temp, (∀ i, ∀ t ∈ temps i, t ∈ i.mentions) →
      body.map (fun i => (Numbering.ofMentions (mentions body ++ (instr.defs ++ instr.uses))).encode
        (temps i)) = body.map fun i => (Numbering.ofMentions (mentions body)).encode (temps i) :=
    fun temps h_temps => List.map_congr_left fun i hi => Numbering.encode_ofMentions_append fun t ht =>
      List.mem_flatMap.mpr ⟨i, hi, h_temps i t ht⟩
  have h_defs : (Numbering.ofMentions (mentions body ++ (instr.defs ++ instr.uses))).encode instr.defs =
      (Numbering.ofMentions (mentions body ++ instr.defs)).encode instr.defs := by
    rw [← List.append_assoc]
    exact Numbering.encode_ofMentions_append fun t ht => List.mem_append_right _ ht
  simp only [surveyed, Survey.step, Numbering.internAll_ofMentions, h_mentions, List.map_append,
    List.map_singleton, List.append_assoc, h_defs,
    h_old Instr.defs fun _ _ => List.mem_append_left _,
    h_old Instr.uses fun _ _ => List.mem_append_right _]

theorem survey_eq (body : List Instr) : survey body = surveyed body := by
  induction body using List.reverseRecOn with
  | nil => rfl
  | append_singleton body instr ih =>
    rw [survey] at ih
    rw [survey, List.foldl_append, ih, List.foldl_cons, List.foldl_nil, surveyed_step]

/-! ## The equations -/

namespace FlowGraph

/-- The liveness equations as one survey over the nodes makes them. -/
def surveyEquations (flow : FlowGraph) : Dataflow.Problem flow.size BitSet :=
  let survey := survey flow.body
  .genKill (fun i => (flow.table.get i).2.succs.map flow.nodes.idxOf)
    (fun i => survey.uses.getD i ∅) (fun i => survey.defs.getD i ∅)

namespace LaidOut

variable {flow : FlowGraph} {tag : GraphTag} {body : List Instr}

/-- The handle of a node holds its place. -/
theorem idxOf_nodes (h : flow.LaidOut tag body) (i : Fin flow.size) :
    flow.nodes.idxOf ⟨tag, i⟩ = i := by
  have h_lt : (i : Nat) < flow.nodes.length := by
    rw [h.nodes_eq, List.length_map, List.length_range, ← h.size_eq]
    exact i.isLt
  have h_at : flow.nodes[(i : Nat)] = ⟨tag, i⟩ := by
    simp only [h.nodes_eq, List.getElem_map, List.getElem_range]
  rw [← h_at]
  exact (Graph.nodup_nodes _).idxOf_getElem _ h_lt

theorem places_eq (h : flow.LaidOut tag body) (i : Fin flow.size) :
    (flow.table.get i).2.succs.map flow.nodes.idxOf = (flow.table.get i).2.succs.map NodeId.index := by
  refine List.map_congr_left fun b hb => ?_
  obtain ⟨s, rfl, _⟩ := h.edge_iff_succs.mp ((edge_iff (h.node?_eq i)).mpr hb)
  exact h.idxOf_nodes s

theorem equations_eq_survey (h : flow.LaidOut tag body) : flow.equations = flow.surveyEquations := by
  have h_survey : ∀ (temps : Instr → List Temp) (i : Fin flow.size),
      (flow.body.map fun instr => flow.numbering.encode (temps instr)).getD i ∅ =
        flow.numbering.encode (temps (flow.table.get i).2.payload) := by
    intro temps i
    have h_payload : flow.body[(i : Nat)]? = some (flow.table.get i).2.payload :=
      h.body_eq ▸ (h.payload_eq (h.node?_eq i)).2
    rw [List.getD_eq_getElem?_getD, List.getElem?_map, h_payload]
    rfl
  rw [equations_eq, surveyEquations, survey_eq]
  simp only [h.places_eq, surveyed]
  exact congrArg₂ (Dataflow.Problem.genKill _) (funext fun i => (h_survey Instr.uses i).symm)
    (funext fun i => (h_survey Instr.defs i).symm)

end LaidOut

end FlowGraph

end LiveRange
