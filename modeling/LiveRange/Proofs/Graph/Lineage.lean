import LiveRange.Proofs.Graph.Handles

/-! # Handles by spans of positions, and the number of live nodes

A graph has a tag in each slot, but it need not: the graphs on a line of copies made their nodes
one after the other, each at positions from where it was copied up to where it was copied itself.
So it is enough to keep one span of positions for each of them.  Nor need the live nodes be counted
over and over: it is enough to count up with every new node and down with every removal, and to let
a copy count on from where its source stands.  A `Lineage` keeps the spans and this count.

`Traced` members of a family have lineages beside the slots of their graphs.  Whatever happens, the
spans tell the same handles apart as the tags in the slots do: together they cover the positions of
the nodes that were there at the last copying, each with the tag of its maker, and all later
positions are the graph's own.  And the count is that of the live nodes (`Covers`).  So a lineage
`Agrees` with its graph.  This holds of any kind of members that hold graphs
(`Traced.covers_of_runFrom`), and of graphs themselves. -/

namespace LiveRange.Graph

/-- The positions from `start` to before `stop`, where the graph with this tag made nodes. -/
structure Span where
  tag : GraphTag
  start : Nat
  stop : Nat

def Span.has (s : Span) (i : Nat) : Bool := s.start ≤ i && i < s.stop

variable {P : Type}

/-- How many nodes are live after an action that was not refused. -/
def Action.recount (live : Nat) : Action P → Nat
  | .newNode _ => live + 1
  -- a node that can be removed was counted, so this never goes below zero
  | .removeNode _ => live - 1
  | .addEdge _ _ | .removeEdge _ _ => live

/-- The tag of a graph, the position of the first node of its own, the spans of the graphs it goes
back to, the earliest first, and how many nodes are live. -/
structure Lineage where
  tag : GraphTag
  first : Nat := 0
  inherited : List Span := []
  live : Nat := 0

namespace Lineage

/-- The lineage of a graph that is made afresh. -/
def start (tag : GraphTag) : Lineage := { tag }

/-- The lineage of a copy of a graph that has `size` slots. -/
def copy (l : Lineage) (size : Nat) (tag : GraphTag) : Lineage :=
  ⟨tag, size, l.inherited ++ [⟨l.tag, l.first, size⟩], l.live⟩

/-- The lineage of a graph after an action that was not refused. -/
def after (l : Lineage) (action : Action P) : Lineage := { l with live := action.recount l.live }

def owns (l : Lineage) (id : NodeId) : Bool :=
  if id.tag = l.tag then l.first ≤ id.index
  else l.inherited.any fun s => s.tag = id.tag && s.has id.index

/-- The handle for a position. -/
def handle (l : Lineage) (i : Nat) : NodeId :=
  if l.first ≤ i then ⟨l.tag, i⟩
  else ⟨((l.inherited.find? (·.has i)).map Span.tag).getD l.tag, i⟩

end Lineage

section

variable {g : Graph P} {l : Lineage} {id id' : NodeId}

/-! ## Counting live nodes -/

theorem size_eq_length_labels (g : Graph P) : g.size = g.labels.length := (List.length_map _).symm

theorem size_congr {g' : Graph P} (h : g'.labels = g.labels) : g'.size = g.size := by
  rw [size_eq_length_labels, h, ← size_eq_length_labels]

theorem size_newNode (g : Graph P) (payload : P) : (g.newNode payload).2.size = g.size + 1 := by
  rw [size_eq_length_labels, labels_newNode, List.length_append, ← size_eq_length_labels]
  rfl

theorem size_without (h : g.contains id = true) : (g.without id).size = g.size - 1 := by
  -- a handle is listed once, so striking it out everywhere takes one away
  have h_nodes : (g.without id).nodes = g.nodes.erase id := by
    rw [(nodup_nodes g).erase_eq_filter, ← labels_map_fst, labels_without h, ← labels_map_fst,
      List.filter_map]
    simp only [ne_eq, decide_not]
    rfl
  have h_length := congrArg List.length h_nodes
  rw [List.length_erase_of_mem (mem_nodes.mpr h), nodes, nodes, List.length_map, List.length_map]
    at h_length
  exact h_length

theorem Effect.size_eq {action : Action P} {answer : Answer P} {g' : Graph P}
    (h : Effect g action (.ok answer) g') : g'.size = action.recount g.size := by
  cases h with
  | newNode payload => exact size_newNode g payload
  | addEdge => exact size_congr (labels_link g _ _)
  | removeEdge => exact size_congr (labels_unlink g _ _)
  | removeNode h_node => exact size_without (contains_iff.mpr ⟨_, h_node⟩)

/-! ## Spans that cover the slots -/

theorem eq_of_mem_issued (h : id ∈ g.issued) (h' : id' ∈ g.issued) (h_index : id.index = id'.index) :
    id = id' := by
  obtain ⟨slot, h_slot, h_tag⟩ := mem_issued.mp h
  obtain ⟨slot', h_slot', h_tag'⟩ := mem_issued.mp h'
  rw [h_index, h_slot', Option.some.injEq] at h_slot
  subst h_slot
  cases id; cases id'
  exact congr (congrArg NodeId.mk (h_tag.symm.trans h_tag')) h_index

theorem exists_mem_issued {i : Nat} (h : i < g.slots.size) : ∃ tag, ⟨tag, i⟩ ∈ g.issued :=
  ⟨_, mem_issued.mpr ⟨g.slots[i], Array.getElem?_eq_getElem h, rfl⟩⟩

/-- The spans of a lineage hold the handles of a graph up to the first of its own, and its live nodes
are counted. -/
structure Covers (l : Lineage) (g : Graph P) : Prop where
  tag_eq : l.tag = g.tag
  first_le : l.first ≤ g.slots.size
  own : ∀ id ∈ g.issued, l.first ≤ id.index → id.tag = g.tag
  covered : ∀ i < l.first, ∃ s ∈ l.inherited, s.has i = true
  sound : ∀ s ∈ l.inherited, ∀ i, s.has i = true → i < l.first ∧ ⟨s.tag, i⟩ ∈ g.issued
  older : ∀ s ∈ l.inherited, s.tag.serial < g.tag.serial
  live_eq : l.live = g.size

namespace Covers

theorem empty (tag : GraphTag) : Covers (.start tag) (Graph.empty tag : Graph P) :=
  ⟨rfl, Nat.le_refl 0, nofun, nofun, nofun, nofun, rfl⟩

theorem copy (h : Covers l g) {tag : GraphTag} (h_tag : g.tag.serial < tag.serial) :
    Covers (l.copy g.slots.size tag) (g.clone tag) where
  tag_eq := rfl
  first_le := Nat.le_refl _
  own id h_id h_first := absurd (index_lt_of_mem_issued h_id) (Nat.not_lt.mpr h_first)
  covered i hi := by
    by_cases h_first : i < l.first
    · obtain ⟨s, h_s, h_has⟩ := h.covered i h_first
      exact ⟨s, List.mem_append_left _ h_s, h_has⟩
    · refine ⟨⟨l.tag, l.first, g.slots.size⟩, List.mem_append_right _ List.mem_cons_self, ?_⟩
      simpa [Span.has] using ⟨Nat.not_lt.mp h_first, hi⟩
  sound s h_s i h_has := by
    rcases List.mem_append.mp h_s with h_old | h_new
    · obtain ⟨h_lt, h_mem⟩ := h.sound s h_old i h_has
      exact ⟨Nat.lt_of_lt_of_le h_lt h.first_le, h_mem⟩
    · -- the last span holds what was the graph's own so far
      cases List.mem_singleton.mp h_new
      have h_both : l.first ≤ i ∧ i < g.slots.size := by simpa [Span.has] using h_has
      obtain ⟨made, h_mem⟩ := exists_mem_issued h_both.2
      have h_own : made = g.tag := h.own _ h_mem h_both.1
      rw [h_own, ← h.tag_eq] at h_mem
      exact ⟨h_both.2, h_mem⟩
  older s h_s := by
    rcases List.mem_append.mp h_s with h_old | h_new
    · exact Nat.lt_trans (h.older s h_old) h_tag
    · cases List.mem_singleton.mp h_new
      rw [h.tag_eq]
      exact h_tag
  live_eq := h.live_eq

theorem after (h : Covers l g) {action : Action P} {answer : Answer P} {g' : Graph P}
    (h_effect : Effect g action (.ok answer) g') : Covers (l.after action) g' := by
  refine ⟨h.tag_eq.trans h_effect.tag_eq.symm, ?_, fun id h_id h_first => ?_, h.covered,
    fun s h_s i h_has => ?_, fun s h_s => ?_, ?_⟩
  · refine Nat.le_trans h.first_le ?_
    rw [← length_issued, ← length_issued, h_effect.issued_eq, List.length_append]
    exact Nat.le_add_right _ _
  · rw [h_effect.tag_eq]
    rw [h_effect.issued_eq, List.mem_append] at h_id
    rcases h_id with h_old | h_new
    · exact h.own id h_old h_first
    · obtain ⟨e, he, rfl⟩ := List.mem_map.mp h_new
      rw [h_effect.eq_of_mem_given e he]
  · rw [h_effect.issued_eq]
    exact (h.sound s h_s i h_has).imp_right (List.mem_append_left _)
  · rw [h_effect.tag_eq]
    exact h.older s h_s
  · rw [h_effect.size_eq, ← h.live_eq]
    rfl

/-- A span that holds the position of a handle has its tag. -/
theorem tag_of_has (h : Covers l g) (h_id : id ∈ g.issued) {s : Span} (h_s : s ∈ l.inherited)
    (h_has : s.has id.index = true) : s.tag = id.tag :=
  congrArg NodeId.tag (eq_of_mem_issued (h.sound s h_s _ h_has).2 h_id rfl)

theorem owns_iff (h : Covers l g) : l.owns id = true ∧ id.index < g.slots.size ↔ id ∈ g.issued := by
  constructor
  · rintro ⟨h_owns, h_lt⟩
    unfold Lineage.owns at h_owns
    split at h_owns
    · rename_i h_tag
      obtain ⟨made, h_mem⟩ := exists_mem_issued h_lt
      have h_own : made = g.tag := h.own _ h_mem (of_decide_eq_true h_owns)
      rw [h_own, ← h.tag_eq, ← h_tag] at h_mem
      exact h_mem
    · obtain ⟨s, h_s, h_here⟩ := List.any_eq_true.mp h_owns
      rw [Bool.and_eq_true, decide_eq_true_eq] at h_here
      have h_mem := (h.sound s h_s _ h_here.2).2
      rw [h_here.1] at h_mem
      exact h_mem
  · intro h_mem
    refine ⟨?_, index_lt_of_mem_issued h_mem⟩
    by_cases h_first : l.first ≤ id.index
    · have h_tag := h.own id h_mem h_first
      rw [← h.tag_eq] at h_tag
      simp [Lineage.owns, h_tag, h_first]
    · obtain ⟨s, h_s, h_has⟩ := h.covered _ (Nat.not_le.mp h_first)
      have h_tag := h.tag_of_has h_mem h_s h_has
      -- the maker is older than the graph, so this is not a handle of its own
      have h_other : ¬ id.tag = l.tag := by
        intro h_own
        have h_older := h.older s h_s
        rw [h_tag, h_own, h.tag_eq] at h_older
        exact Nat.lt_irrefl _ h_older
      rw [Lineage.owns, if_neg h_other]
      exact List.any_eq_true.mpr ⟨s, h_s, by simp [h_tag, h_has]⟩

/-- A lineage is right about all handles but those under the tag of the graph that were never given
out. -/
theorem owns_eq_knows (h : Covers l g) (h_own : id.tag = g.tag → id ∈ g.issued) :
    l.owns id = g.knows id := by
  rw [Bool.eq_iff_iff, knows_iff]
  refine ⟨fun h_owns => ?_, fun h_mem => (h.owns_iff.mpr h_mem).1⟩
  by_cases h_tag : id.tag = g.tag
  · exact h_own h_tag
  · rw [Lineage.owns, h.tag_eq, if_neg h_tag] at h_owns
    obtain ⟨s, h_s, h_here⟩ := List.any_eq_true.mp h_owns
    rw [Bool.and_eq_true, decide_eq_true_eq] at h_here
    have h_mem := (h.sound s h_s _ h_here.2).2
    rw [h_here.1] at h_mem
    exact h_mem

theorem handle_eq (h : Covers l g) (h_mem : id ∈ g.issued) : l.handle id.index = id := by
  unfold Lineage.handle
  split
  · rename_i h_first
    rw [h.tag_eq, ← h.own id h_mem h_first]
  · rename_i h_first
    obtain ⟨s, h_s, h_has⟩ := h.covered _ (Nat.not_le.mp h_first)
    cases h_find : l.inherited.find? (·.has id.index) with
    | none => exact absurd h_has (List.find?_eq_none.mp h_find s h_s)
    | some found =>
      have h_found := List.find?_some (p := fun s : Span => s.has id.index) h_find
      have h_tag := h.tag_of_has h_mem (List.mem_of_find?_eq_some h_find) h_found
      simp [h_tag]

end Covers

/-! ## What a lineage tells of a graph -/

/-- Whether a handle names a live node, told from the lineage. -/
def Lineage.contains (l : Lineage) (g : Graph P) (id : NodeId) : Bool :=
  l.owns id && (g.slots[id.index]?.bind Slot.node?).isSome

/-- The live nodes of a graph, with the handles that the lineage has for their positions. -/
def Lineage.nodes (l : Lineage) (g : Graph P) : List NodeId :=
  g.slots.toList.zipIdx.filterMap fun (slot, i) => slot.node?.map fun _ => l.handle i

/-- A lineage tells of a graph what the slots tell. -/
structure Lineage.Agrees (l : Lineage) (g : Graph P) : Prop where
  contains_eq : ∀ id, l.contains g id = g.contains id
  nodes_eq : l.nodes g = g.nodes
  live_eq : l.live = g.size
  live_eq_zero : l.live = 0 ↔ g.isEmpty = true

theorem Covers.contains_eq (h : Covers l g) (id : NodeId) : l.contains g id = g.contains id := by
  by_cases h_mem : id ∈ g.issued
  · obtain ⟨slot, h_slot, h_tag⟩ := mem_issued.mp h_mem
    simp [Lineage.contains, (h.owns_iff.mpr h_mem).1, Graph.contains, node?, h_slot, h_tag]
  · have h_here : l.contains g id = false := by
      by_contra h_true
      rw [Bool.not_eq_false, Lineage.contains, Bool.and_eq_true, Option.isSome_iff_exists] at h_true
      obtain ⟨h_owns, node, h_node⟩ := h_true
      obtain ⟨slot, h_slot, _⟩ := Option.bind_eq_some_iff.mp h_node
      exact h_mem (h.owns_iff.mp ⟨h_owns, (Array.getElem?_eq_some_iff.mp h_slot).1⟩)
    have h_there : g.contains id = false := by
      by_contra h_true
      exact h_mem (mem_issued_of_contains (Bool.not_eq_false _ ▸ h_true))
    rw [h_here, h_there]

theorem Covers.nodes_eq (h : Covers l g) : l.nodes g = g.nodes := by
  rw [Lineage.nodes, Graph.nodes, entries, List.map_filterMap]
  refine List.filterMap_congr fun e he => ?_
  obtain ⟨slot, i⟩ := e
  rw [List.mem_zipIdx_iff_getElem?, Array.getElem?_toList] at he
  have h_mem : ⟨slot.tag, i⟩ ∈ g.issued := mem_issued.mpr ⟨slot, he, rfl⟩
  have h_handle : l.handle i = ⟨slot.tag, i⟩ := h.handle_eq h_mem
  simp only [Option.map_map, h_handle]
  rfl

theorem Covers.agrees (h : Covers l g) : l.Agrees g where
  contains_eq := h.contains_eq
  nodes_eq := h.nodes_eq
  live_eq := h.live_eq
  live_eq_zero := by rw [h.live_eq, size, isEmpty, List.length_eq_zero_iff, List.isEmpty_iff]

end

/-! ## Runs with lineages -/

/-- How members hold graphs: the graph of a member, and what an action on the member asks of that
graph, if anything. -/
structure Held (G A P : Type) where
  graph : G → Graph P
  plain : G → A → Option (Action P)

def held : Held (Graph P) (Action P) P := ⟨fun g => g, fun _ action => some action⟩

variable {G A R E : Type} {K : Kind G A R E} {held : Held G A P} {root : GraphTag → Lineage}

/-- To copy a member is to copy its graph, and an action on a member does what it asks of the graph,
and nothing else to it. -/
structure Holds (K : Kind G A R E) (held : Held G A P) : Prop where
  copy : ∀ g tag, held.graph (K.copy g tag) = (held.graph g).clone tag
  idle : ∀ {g g' action answer}, K.act g action = .ok (answer, g') → held.plain g action = none →
    held.graph g' = held.graph g
  act : ∀ {g g' action answer}, K.act g action = .ok (answer, g') →
    ∀ {plain}, held.plain g action = some plain →
      ∃ answer', (held.graph g).act plain = .ok (answer', held.graph g')

theorem kind_holds : Holds (Graph.kind : Kind (Graph P) _ _ _) Graph.held where
  copy _ _ := rfl
  idle _ h_plain := by cases h_plain
  act h_act _ h_plain := by
    cases h_plain
    exact ⟨_, h_act⟩

/-- A member of a family, with the lineage of its graph. -/
structure Traced (G : Type) where
  member : G
  lineage : Lineage

namespace Traced

/-- Members with lineages, which start from those that members have when they are made. -/
def kind (K : Kind G A R E) (held : Held G A P) (root : GraphTag → Lineage) :
    Kind (Traced G) A R E where
  make tag := ⟨K.make tag, root tag⟩
  copy t tag := ⟨K.copy t.member tag, t.lineage.copy (held.graph t.member).slots.size tag⟩
  act t action := (K.act t.member action).map fun (answer, g) =>
    (answer, ⟨g, (held.plain t.member action).elim t.lineage t.lineage.after⟩)

theorem outcome_of_ok {t : Traced G} {action : A} {answer : R} {g : G}
    (h : K.act t.member action = .ok (answer, g)) : (kind K held root).outcome t action =
      (.ok answer, ⟨g, (held.plain t.member action).elim t.lineage t.lineage.after⟩) := by
  refine Kind.outcome_of_ok ?_
  change (K.act t.member action).map _ = _
  rw [h]
  rfl

theorem outcome_of_error {t : Traced G} {action : A} {e : E}
    (h : K.act t.member action = .error e) : (kind K held root).outcome t action = (.error e, t) := by
  refine Kind.outcome_of_error ?_
  change (K.act t.member action).map _ = _
  rw [h]
  rfl

theorem runFrom_members (held : Held G A P) (root : GraphTag → Lineage)
    (F : Family (Traced G) A R E) (requests : List (Request A)) :
    ((kind K held root).runFrom F requests).map member = K.runFrom (F.map member) requests := by
  refine Kind.runFrom_map (fun _ => rfl) (fun _ _ => rfl) (fun t action => ?_) F requests
  cases h_act : K.act t.member action with
  | ok result =>
    rw [Kind.outcome_of_ok h_act, outcome_of_ok h_act]
    rfl
  | error e =>
    rw [Kind.outcome_of_error h_act, outcome_of_error h_act]
    rfl

theorem run_members (held : Held G A P) (requests : List (Request A)) :
    ((kind K held .start).run requests).map member = K.run requests :=
  runFrom_members held .start {} requests

theorem exists_getElem?_runFrom (held : Held G A P) (root : GraphTag → Lineage)
    {F : Family (Traced G) A R E} {requests : List (Request A)} {i : Nat} {g : G}
    (h_g : (K.runFrom (F.map member) requests).members[i]? = some g) :
    ∃ l, ((kind K held root).runFrom F requests).members[i]? = some ⟨g, l⟩ := by
  rw [← runFrom_members held root, Family.map, List.getElem?_map] at h_g
  obtain ⟨t, h_t, rfl⟩ := Option.map_eq_some_iff.mp h_g
  exact ⟨t.lineage, h_t⟩

/-- The lineages of all members are right, and no member has the tag that comes next. -/
def Covered (graph : G → Graph P) (F : Family (Traced G) A R E) : Prop :=
  ∀ (i : Nat) (t : Traced G), F.members[i]? = some t →
    (graph t.member).tag.serial < F.supply.next ∧ Covers t.lineage (graph t.member)

theorem Covered.enter {graph : G → Graph P} {F : Family (Traced G) A R E} (h : Covered graph F)
    {member : GraphTag → Traced G}
    (h_tag : (graph (member F.supply.fresh.1).member).tag = F.supply.fresh.1)
    (h_covers : Covers (member F.supply.fresh.1).lineage (graph (member F.supply.fresh.1).member))
    (event : Event A R E) : Covered graph (F.enter member event) := by
  intro i t h_t
  rcases Family.getElem?_enter.mp h_t with ⟨_, h_old⟩ | ⟨_, rfl⟩
  · exact (h i t h_old).imp_left Nat.lt_succ_of_lt
  · refine ⟨?_, h_covers⟩
    rw [h_tag]
    exact Nat.lt_succ_self _

theorem Covered.outcome (h : Holds K held) {t t' : Traced G}
    (h_covers : Covers t.lineage (held.graph t.member)) {action : A}
    (h_t' : ((kind K held root).outcome t action).2 = t') :
    (held.graph t'.member).tag = (held.graph t.member).tag ∧
      Covers t'.lineage (held.graph t'.member) := by
  subst h_t'
  cases h_act : K.act t.member action with
  | error e =>
    rw [outcome_of_error h_act]
    exact ⟨rfl, h_covers⟩
  | ok result =>
    obtain ⟨answer, g⟩ := result
    rw [outcome_of_ok h_act]
    cases h_plain : held.plain t.member action with
    | none =>
      -- the graph stays as it was, and so does its lineage
      show (held.graph g).tag = _ ∧ Covers t.lineage (held.graph g)
      rw [h.idle h_act h_plain]
      exact ⟨rfl, h_covers⟩
    | some plain =>
      obtain ⟨answer', h_graph⟩ := h.act h_act h_plain
      have h_effect := effect_of_act h_graph
      exact ⟨h_effect.tag_eq, h_covers.after h_effect⟩

/-- Members that are made have to have the right lineages under all tags that come next. -/
theorem covers_of_runFrom (h : Holds K held) {F₀ : Family (Traced G) A R E}
    (start : Covered held.graph F₀)
    (make : ∀ tag : GraphTag, F₀.supply.next ≤ tag.serial →
      (held.graph (K.make tag)).tag = tag ∧ Covers (root tag) (held.graph (K.make tag)))
    {requests : List (Request A)} {i : Nat} {t : Traced G}
    (h_t : ((kind K held root).runFrom F₀ requests).members[i]? = some t) :
    Covers t.lineage (held.graph t.member) := by
  have h_run := Kind.runFrom_induction (K := kind K held root)
    (I := fun F => F₀.supply.next ≤ F.supply.next ∧ Covered held.graph F)
    ⟨Nat.le_refl _, start⟩ ?_ ?_ ?_ requests
  · exact (h_run.2 i t h_t).2
  · intro F ⟨h_le, ih⟩
    obtain ⟨h_tag, h_covers⟩ := make F.supply.fresh.1 h_le
    exact ⟨Nat.le_succ_of_le h_le, ih.enter h_tag h_covers _⟩
  · intro F source t h_source ⟨h_le, ih⟩
    obtain ⟨h_lt, h_covers⟩ := ih source t h_source
    have h_copy : held.graph (K.copy t.member F.supply.fresh.1) = _ :=
      h.copy t.member F.supply.fresh.1
    refine ⟨Nat.le_succ_of_le h_le, ih.enter ?_ ?_ _⟩
    · exact congrArg Graph.tag h_copy
    · exact h_copy ▸ h_covers.copy h_lt
  · intro F member t action h_member ⟨h_le, ih⟩
    refine ⟨h_le, fun i t' h_t' => ?_⟩
    rcases (Family.getElem?_update h_member).mp h_t' with ⟨_, h_new⟩ | ⟨_, h_old⟩
    · obtain ⟨h_lt, h_covers⟩ := ih member t h_member
      obtain ⟨h_tag, h_after⟩ := Covered.outcome h h_covers h_new.symm
      exact ⟨h_tag ▸ h_lt, h_after⟩
    · exact ih i t' h_old

/-- The lineages of members that start out empty are right. -/
theorem covers_of_run (h : Holds K held) (make : ∀ tag, held.graph (K.make tag) = Graph.empty tag)
    {requests : List (Request A)} {i : Nat} {t : Traced G}
    (h_t : ((kind K held .start).run requests).members[i]? = some t) :
    Covers t.lineage (held.graph t.member) := by
  refine covers_of_runFrom h ?_ (fun tag _ => ?_) h_t
  · exact nofun
  · rw [make]
    exact ⟨rfl, .empty tag⟩

theorem exists_covers (h : Holds K held) (make : ∀ tag, held.graph (K.make tag) = Graph.empty tag)
    {requests : List (Request A)} {i : Nat} {g : G} (h_g : (K.run requests).members[i]? = some g) :
    ∃ l, ((kind K held .start).run requests).members[i]? = some ⟨g, l⟩ ∧
      Covers l (held.graph g) := by
  obtain ⟨l, h_l⟩ := exists_getElem?_runFrom held .start (F := {}) h_g
  exact ⟨l, h_l, covers_of_run h make h_l⟩

end Traced

end LiveRange.Graph
