import LiveRange.Proofs.Graph.Actions

/-! # Handles along a line of copies

A graph knows the handles that were given out on its line of copies: by itself, and before it
was copied, by the graph it was copied from.  `Graph.issued` lists them in the order of the
slots.  `Follows` says that they are the handles given out along a line, and that the live
nodes are the ones among them that were not taken back along that line.  So it is for every
member of a family (`run_follows`). -/

namespace LiveRange.Graph

variable {P : Type} {g g' : Graph P} {action : Action P} {answer : Except Misuse (Answer P)}

/-! ## Handles of one graph -/

/-- The handle that belongs to each slot of a graph. -/
def issued (g : Graph P) : List NodeId := g.slots.toList.zipIdx.map fun (slot, i) => ⟨slot.tag, i⟩

theorem mem_issued {id : NodeId} :
    id ∈ g.issued ↔ ∃ slot, g.slots[id.index]? = some slot ∧ slot.tag = id.tag := by
  simp only [issued, List.mem_map, Prod.exists, List.mem_zipIdx_iff_getElem?, Array.getElem?_toList]
  constructor
  · rintro ⟨slot, i, h_slot, rfl⟩
    exact ⟨slot, h_slot, rfl⟩
  · rintro ⟨slot, h_slot, h_tag⟩
    exact ⟨slot, id.index, h_slot, congrArg (NodeId.mk · id.index) h_tag⟩

theorem knows_iff {id : NodeId} : g.knows id = true ↔ id ∈ g.issued := by
  rw [mem_issued, knows, Option.any_eq_true]
  simp only [decide_eq_true_eq]

theorem node?_of_mem_issued {id : NodeId} (h : id ∈ g.issued) :
    g.node? id = g.slots[id.index]?.bind Slot.node? := by
  obtain ⟨slot, h_slot, h_tag⟩ := mem_issued.mp h
  rw [node?, h_slot, Option.bind_some, Option.bind_some, if_pos h_tag]

theorem index_lt_of_mem_issued {id : NodeId} (h : id ∈ g.issued) : id.index < g.slots.size := by
  obtain ⟨slot, h_slot, _⟩ := mem_issued.mp h
  exact (Array.getElem?_eq_some_iff.mp h_slot).1

theorem length_issued (g : Graph P) : g.issued.length = g.slots.size := by
  simp [issued]

theorem issued_newNode (g : Graph P) (payload : P) :
    (g.newNode payload).2.issued = g.issued ++ [(g.newNode payload).1] := by
  simp [issued, newNode, List.zipIdx_append]

theorem issued_modify (g : Graph P) (id : NodeId) (f : Node P → Node P) :
    (g.modify id f).issued = g.issued := by
  unfold issued modify
  rw [zipIdx_toList_modify, List.map_map]
  refine List.map_congr_left fun e _ => ?_
  simp only [Function.comp_apply]
  split_ifs <;> rfl

theorem issued_link (g : Graph P) (a b : NodeId) : (g.link a b).issued = g.issued := by
  unfold link
  split
  · split
    · rfl
    · rw [issued_modify, issued_modify]
  · rfl

theorem issued_unlink (g : Graph P) (a b : NodeId) : (g.unlink a b).issued = g.issued := by
  rw [unlink, issued_modify, issued_modify]

theorem issued_without (g : Graph P) (id : NodeId) : (g.without id).issued = g.issued := by
  unfold issued without
  rw [zipIdx_toList_mapIdx, List.map_map]
  rfl

theorem mem_issued_of_contains {id : NodeId} (h : g.contains id = true) : id ∈ g.issued :=
  mem_issued.mpr (exists_slot h)

theorem mem_issued_of_get? {id : NodeId} {payload : P} (h : g.get? id = some payload) :
    id ∈ g.issued := by
  obtain ⟨node, h_node, _⟩ := Option.map_eq_some_iff.mp h
  exact mem_issued_of_contains (contains_iff.mpr ⟨node, h_node⟩)

/-- The new node of an action, with its payload. -/
def given : Action P → Except Misuse (Answer P) → List (NodeId × P)
  | .newNode payload, .ok (.node id) => [(id, payload)]
  | _, _ => []

/-- The handle of the node that an action removed. -/
def taken : Action P → Except Misuse (Answer P) → List NodeId
  | .removeNode id, .ok _ => [id]
  | _, _ => []

namespace Effect

theorem tag_eq (h : Effect g action answer g') : g'.tag = g.tag := by
  cases h with
  | addEdge => exact tag_link g _ _
  | _ => rfl

theorem issued_eq (h : Effect g action answer g') :
    g'.issued = g.issued ++ (given action answer).map Prod.fst := by
  cases h with
  | newNode payload => exact issued_newNode g payload
  | addEdge => simp [given, issued_link]
  | removeEdge => simp [given, issued_unlink]
  | removeNode => simp [given, issued_without]
  | refused => simp [given]

theorem mem_issued_iff (h : Effect g action answer g') {id : NodeId} :
    id ∈ g'.issued ↔ answer = .ok (.node id) ∨ id ∈ g.issued := by
  rw [h.issued_eq, List.mem_append, or_comm]
  cases h with
  | newNode payload => simp [given, eq_comm]
  | _ => simp [given]

theorem labels_eq (h : Effect g action answer g') :
    g'.labels = (g.labels ++ given action answer).filter fun e => e.1 ∉ taken action answer := by
  cases h with
  | newNode payload =>
    rw [labels_newNode]
    simp [given, taken, Graph.newNode]
  | addEdge => simp [given, taken, labels_link]
  | removeEdge => simp [given, taken, labels_unlink]
  | removeNode h_node => simp [given, taken, labels_without (contains_iff.mpr ⟨_, h_node⟩)]
  | refused => simp [given, taken]

theorem eq_of_mem_given (h : Effect g action answer g') :
    ∀ e ∈ given action answer, e.1 = ⟨g.tag, g.slots.size⟩ := by
  cases h with
  | newNode payload => simp [given, Graph.newNode]
  | _ => simp [given]

theorem contains_of_mem_taken (h : Effect g action answer g') :
    ∀ id ∈ taken action answer, g.contains id = true := by
  cases h with
  | removeNode h_node => simpa [taken] using contains_iff.mpr ⟨_, h_node⟩
  | _ => simp [taken]

end Effect

/-! ## Handles along a line -/

/-- The nodes made along a line, with their payloads, the earliest first. -/
def handedOut (steps : List (Nat × Action P × Except Misuse (Answer P))) : List (NodeId × P) :=
  steps.reverse.flatMap fun step => given step.2.1 step.2.2

def takenBack (steps : List (Nat × Action P × Except Misuse (Answer P))) : List NodeId :=
  steps.flatMap fun step => taken step.2.1 step.2.2

variable {steps : List (Nat × Action P × Except Misuse (Answer P))}

theorem handedOut_cons (member : Nat) :
    handedOut ((member, action, answer) :: steps) = handedOut steps ++ given action answer := by
  simp [handedOut]

theorem takenBack_cons (member : Nat) :
    takenBack ((member, action, answer) :: steps) = taken action answer ++ takenBack steps := rfl

theorem mem_handedOut {id : NodeId} {payload : P} :
    (id, payload) ∈ handedOut steps ↔ ∃ member, (member, .newNode payload, .ok (.node id)) ∈ steps := by
  simp only [handedOut, List.mem_flatMap, List.mem_reverse, Prod.exists]
  constructor
  · intro h
    obtain ⟨member, action, answer, h_mem, h_given⟩ := h
    unfold given at h_given
    split at h_given
    · cases List.mem_singleton.mp h_given
      exact ⟨member, h_mem⟩
    · cases h_given
  · intro h
    obtain ⟨member, h_mem⟩ := h
    exact ⟨member, _, _, h_mem, List.mem_singleton.mpr rfl⟩

theorem mem_takenBack {id : NodeId} :
    id ∈ takenBack steps ↔ ∃ member answer, (member, .removeNode id, .ok answer) ∈ steps := by
  simp only [takenBack, List.mem_flatMap, Prod.exists]
  constructor
  · intro h
    obtain ⟨member, action, answer, h_mem, h_taken⟩ := h
    unfold taken at h_taken
    split at h_taken
    · cases List.mem_singleton.mp h_taken
      exact ⟨member, _, h_mem⟩
    · cases h_taken
  · intro h
    obtain ⟨member, answer, h_mem⟩ := h
    exact ⟨member, _, _, h_mem, List.mem_singleton.mpr rfl⟩

/-- The handles of a graph, and which of its nodes are live, are what a line tells. -/
structure Follows (steps : List (Nat × Action P × Except Misuse (Answer P))) (g : Graph P) :
    Prop where
  issued : g.issued = (handedOut steps).map Prod.fst
  labels : g.labels = (handedOut steps).filter fun e => e.1 ∉ takenBack steps
  known : ∀ id ∈ takenBack steps, id ∈ g.issued

namespace Follows

theorem mem_labels_iff (h : Follows steps g) {id : NodeId} {payload : P} :
    (id, payload) ∈ g.labels ↔
      (∃ member, (member, .newNode payload, .ok (.node id)) ∈ steps) ∧
        ∀ member answer, (member, .removeNode id, .ok answer) ∉ steps := by
  rw [h.labels, List.mem_filter, mem_handedOut, decide_eq_true_iff, mem_takenBack]
  simp only [not_exists]

theorem contains_iff (h : Follows steps g) {id : NodeId} :
    g.contains id = true ↔
      (∃ member payload, (member, .newNode payload, .ok (.node id)) ∈ steps) ∧
        ∀ member answer, (member, .removeNode id, .ok answer) ∉ steps := by
  rw [← mem_nodes, ← labels_map_fst, List.mem_map]
  simp only [Prod.exists, exists_and_right, exists_eq_right, h.mem_labels_iff]
  rw [exists_comm]

theorem nodes_eq (h : Follows steps g) :
    g.nodes = ((handedOut steps).map Prod.fst).filter (· ∉ takenBack steps) := by
  rw [← labels_map_fst, h.labels, List.filter_map]
  rfl

theorem outcome (h : Follows steps g) (member : Nat) (action : Action P) :
    Follows ((member, action, (kind.outcome g action).1) :: steps) (kind.outcome g action).2 := by
  have h_effect := effect_outcome g action
  generalize kind.outcome g action = outcome at h_effect ⊢
  obtain ⟨answer, g'⟩ := outcome
  refine ⟨?_, ?_, fun id h_id => ?_⟩
  · rw [h_effect.issued_eq, h.issued, handedOut_cons, List.map_append]
  · -- a new handle was not known before, so it was not taken back before
    have h_new : ∀ e ∈ given action answer, e.1 ∉ takenBack steps := by
      intro e he h_back
      have h_lt := index_lt_of_mem_issued (h.known _ h_back)
      rw [h_effect.eq_of_mem_given e he] at h_lt
      exact Nat.lt_irrefl _ h_lt
    have h_given : (given action answer).filter (fun e => e.1 ∉ takenBack steps) =
        given action answer :=
      List.filter_eq_self.mpr fun e he => decide_eq_true (h_new e he)
    rw [h_effect.labels_eq, h.labels, handedOut_cons, takenBack_cons, ← h_given, ← List.filter_append,
      h_given, List.filter_filter]
    simp [not_or]
  · rw [takenBack_cons, List.mem_append] at h_id
    rw [h_effect.issued_eq, List.mem_append]
    rcases h_id with h_now | h_before
    · exact .inl (mem_issued_of_contains (h_effect.contains_of_mem_taken id h_now))
    · exact .inl (h.known id h_before)

end Follows

theorem run_follows (requests : List (Request (Action P))) :
    ∀ i g, (kind.run requests).members[i]? = some g → Follows (line (kind.run requests).past i) g := by
  refine Kind.run_line (Q := Follows) (fun _ => ?_) (fun _ _ _ h => ?_) (fun _ _ _ _ h => ?_) requests
  · exact ⟨rfl, rfl, nofun⟩
  · exact ⟨h.issued, h.labels, h.known⟩
  · exact h.outcome _ _

end LiveRange.Graph
