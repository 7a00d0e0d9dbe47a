import LiveRange.Proofs.Graph.Lineage

/-! # Whose handle is whose

The graphs of one family have different tags, and give out handles only under their own.  So no
handle is given out twice (`Apart`), and copies tell their own nodes from those of others by the
spans of their lineages (`run_owns`). -/

namespace LiveRange

theorem NodeId.compare_eq_lt_iff {a b : NodeId} :
    compare a b = .lt ↔ a.tag.serial < b.tag.serial ∨ a.tag = b.tag ∧ a.index < b.index := by
  have h_tag : compare a.tag b.tag = .eq ↔ a.tag = b.tag :=
    ⟨Std.LawfulEqOrd.eq_of_compare, fun h => h ▸ Std.ReflCmp.compare_self⟩
  have h_unfold : compare a b = (compare a.tag b.tag).then (compare a.index b.index) := rfl
  rw [h_unfold, Ordering.then_eq_lt, h_tag, Nat.compare_eq_lt]
  exact or_congr_left Nat.compare_eq_lt

namespace Graph

variable {P : Type} {g : Graph P}

/-! ## Handles of a family -/

/-- Every handle given out in a family, the latest first. -/
def handles (past : List (Event (Action P) (Answer P) Misuse)) : List NodeId :=
  past.flatMap fun event =>
    match event with
    | .acted _ action answer => (given action answer).map Prod.fst
    | _ => []

theorem mem_handles {past : List (Event (Action P) (Answer P) Misuse)} {id : NodeId} :
    id ∈ handles past ↔
      ∃ member payload, .acted member (.newNode payload) (.ok (.node id)) ∈ past := by
  rw [handles, List.mem_flatMap]
  constructor
  · intro h
    obtain ⟨event, h_mem, h_given⟩ := h
    cases event with
    | acted member action answer =>
      simp only [given] at h_given
      split at h_given
      · cases List.mem_singleton.mp h_given
        exact ⟨member, _, h_mem⟩
      · cases h_given
    | _ => cases h_given
  · intro h
    obtain ⟨member, payload, h_mem⟩ := h
    exact ⟨_, h_mem, List.mem_singleton.mpr rfl⟩

/-- Handles rise along the slots of a graph, up to those under its own tag. -/
structure Rising (g : Graph P) : Prop where
  tag_le : ∀ id ∈ g.issued, id.tag.serial ≤ g.tag.serial
  issued : g.issued.Pairwise fun a b => compare a b = .lt

theorem Rising.outcome (h : g.Rising) (action : Action P) : (kind.outcome g action).2.Rising := by
  have h_effect := effect_outcome g action
  generalize kind.outcome g action = outcome at h_effect ⊢
  obtain ⟨answer, g'⟩ := outcome
  have h_new : ∀ id ∈ (given action answer).map Prod.fst, id = ⟨g.tag, g.slots.size⟩ := by
    intro id h_id
    obtain ⟨e, he, rfl⟩ := List.mem_map.mp h_id
    exact h_effect.eq_of_mem_given e he
  refine ⟨fun id h_id => ?_, ?_⟩
  · rw [h_effect.tag_eq]
    rw [h_effect.issued_eq, List.mem_append] at h_id
    rcases h_id with h_old | h_given
    · exact h.tag_le id h_old
    · obtain rfl := h_new id h_given
      exact Nat.le_refl _
  · rw [h_effect.issued_eq, List.pairwise_append]
    refine ⟨h.issued, ?_, fun a ha b hb => ?_⟩
    · unfold given
      split <;> simp
    · -- a new handle has the last tag, and comes after all others under that tag
      rw [h_new b hb, NodeId.compare_eq_lt_iff]
      rcases Nat.lt_or_eq_of_le (h.tag_le a ha) with h_lt | h_eq
      · exact .inl h_lt
      · exact .inr ⟨congrArg GraphTag.mk h_eq, index_lt_of_mem_issued ha⟩

variable {F : Family (Graph P) (Action P) (Answer P) Misuse}

/-- The members of a family have different tags, and each has given out its own handles. -/
structure Apart (F : Family (Graph P) (Action P) (Answer P) Misuse) : Prop where
  supply : ∀ {i : Nat} {g : Graph P}, F.members[i]? = some g → g.tag.serial < F.supply.next
  tag_inj : ∀ {i j : Nat} {g g' : Graph P}, F.members[i]? = some g → F.members[j]? = some g' →
    g.tag = g'.tag → i = j
  rising : ∀ {i : Nat} {g : Graph P}, F.members[i]? = some g → g.Rising
  maker : ∀ {member : Nat} {payload : P} {id : NodeId},
    .acted member (.newNode payload) (.ok (.node id)) ∈ F.past →
      ∃ g, F.members[member]? = some g ∧ id.tag = g.tag ∧ id ∈ g.issued
  nodup : (handles F.past).Nodup

namespace Apart

/-- A handle with the tag of a member was given out by that member. -/
theorem mem_issued (h : Apart F) {i : Nat} (h_g : F.members[i]? = some g) {id : NodeId}
    (h_id : id ∈ handles F.past) (h_tag : id.tag = g.tag) : id ∈ g.issued := by
  obtain ⟨member, payload, h_past⟩ := mem_handles.mp h_id
  obtain ⟨g', h_g', h_made, h_issued⟩ := h.maker h_past
  have h_same := h.tag_inj h_g h_g' (h_tag.symm.trans h_made)
  subst h_same
  rw [h_g, Option.some.injEq] at h_g'
  subst h_g'
  exact h_issued

/-- The handle that a member gives out next was not given out before. -/
theorem next_notMem (h : Apart F) {i : Nat} (h_g : F.members[i]? = some g) :
    ⟨g.tag, g.slots.size⟩ ∉ handles F.past := fun h_mem =>
  Nat.lt_irrefl _ (index_lt_of_mem_issued (h.mem_issued h_g h_mem rfl))

theorem enter (h : Apart F) {member : GraphTag → Graph P} {event : Event (Action P) (Answer P) Misuse}
    (h_tag : (member F.supply.fresh.1).tag = F.supply.fresh.1)
    (h_rising : (member F.supply.fresh.1).Rising) (h_event : ∀ k action answer,
      event ≠ .acted k action answer) : Apart (F.enter member event) := by
  have h_old : ∀ {i : Nat} {g : Graph P}, F.members[i]? = some g → g.tag ≠ F.supply.fresh.1 := by
    intro i g h_g h_eq
    have h_lt := h.supply h_g
    rw [h_eq] at h_lt
    exact Nat.lt_irrefl _ h_lt
  refine ⟨fun {i g} h_g => ?_, fun {i j g g'} h_g h_g' h_eq => ?_, fun {i g} h_g => ?_,
    fun {k payload id} h_past => ?_, ?_⟩
  · rcases Family.getElem?_enter.mp h_g with ⟨_, h_g⟩ | ⟨_, rfl⟩
    · exact Nat.lt_succ_of_lt (h.supply h_g)
    · rw [h_tag]
      exact Nat.lt_succ_self _
  · rcases Family.getElem?_enter.mp h_g with ⟨_, h_g⟩ | ⟨rfl, rfl⟩
    · rcases Family.getElem?_enter.mp h_g' with ⟨_, h_g'⟩ | ⟨rfl, rfl⟩
      · exact h.tag_inj h_g h_g' h_eq
      · exact absurd (h_eq.trans h_tag) (h_old h_g)
    · rcases Family.getElem?_enter.mp h_g' with ⟨_, h_g'⟩ | ⟨rfl, rfl⟩
      · exact absurd (h_eq.symm.trans h_tag) (h_old h_g')
      · rfl
  · rcases Family.getElem?_enter.mp h_g with ⟨_, h_g⟩ | ⟨_, rfl⟩
    · exact h.rising h_g
    · exact h_rising
  · rcases List.mem_cons.mp h_past with h_now | h_before
    · exact absurd h_now.symm (h_event _ _ _)
    · obtain ⟨g, h_g, h_made⟩ := h.maker h_before
      exact ⟨g, Family.getElem?_enter.mpr (.inl ⟨(List.getElem?_eq_some_iff.mp h_g).1, h_g⟩), h_made⟩
  · have h_handles : handles (F.enter member event).past = handles F.past := by
      cases event with
      | acted k action answer => exact absurd rfl (h_event k action answer)
      | _ => rfl
    rw [h_handles]
    exact h.nodup

theorem update (h : Apart F) {member : Nat} (h_member : F.members[member]? = some g)
    (action : Action P) : Apart (F.update member action (kind.outcome g action)) := by
  have h_rising := (h.rising h_member).outcome action
  have h_effect := effect_outcome g action
  generalize kind.outcome g action = outcome at h_effect h_rising ⊢
  obtain ⟨answer, g'⟩ := outcome
  -- the tags are those from before
  have h_tags : ∀ {i : Nat} {g₁ : Graph P},
      (F.update member action (answer, g')).members[i]? = some g₁ →
        ∃ g₀, F.members[i]? = some g₀ ∧ g₁.tag = g₀.tag := by
    intro i g₁ h_g
    rcases (Family.getElem?_update h_member).mp h_g with ⟨rfl, rfl⟩ | ⟨_, h_g⟩
    · exact ⟨g, h_member, h_effect.tag_eq⟩
    · exact ⟨g₁, h_g, rfl⟩
  refine ⟨fun {i g₁} h_g => ?_, fun {i j g₁ g₂} h_g h_g' h_eq => ?_, fun {i g₁} h_g => ?_,
    fun {k payload id} h_past => ?_, ?_⟩
  · obtain ⟨g₀, h_g₀, h_tag⟩ := h_tags h_g
    rw [h_tag]
    exact h.supply h_g₀
  · obtain ⟨g₀, h_g₀, h_tag⟩ := h_tags h_g
    obtain ⟨g₀', h_g₀', h_tag'⟩ := h_tags h_g'
    exact h.tag_inj h_g₀ h_g₀' (h_tag.symm.trans (h_eq.trans h_tag'))
  · rcases (Family.getElem?_update h_member).mp h_g with ⟨rfl, rfl⟩ | ⟨_, h_g⟩
    · exact h_rising
    · exact h.rising h_g
  · rcases List.mem_cons.mp h_past with h_now | h_before
    · cases h_now
      refine ⟨g', (Family.getElem?_update h_member).mpr (.inl ⟨rfl, rfl⟩), ?_, ?_⟩
      · have h_id := h_effect.eq_of_mem_given (id, payload) (List.mem_singleton.mpr rfl)
        rw [h_effect.tag_eq]
        exact congrArg NodeId.tag h_id
      · rw [h_effect.issued_eq]
        exact List.mem_append_right _ (List.mem_singleton.mpr rfl)
    · obtain ⟨g₁, h_g₁, h_tag, h_issued⟩ := h.maker h_before
      by_cases h_k : k = member
      · subst h_k
        rw [h_member, Option.some.injEq] at h_g₁
        subst h_g₁
        refine ⟨g', (Family.getElem?_update h_member).mpr (.inl ⟨rfl, rfl⟩), ?_, ?_⟩
        · rw [h_effect.tag_eq, h_tag]
        · rw [h_effect.issued_eq]
          exact List.mem_append_left _ h_issued
      · exact ⟨g₁, (Family.getElem?_update h_member).mpr (.inr ⟨h_k, h_g₁⟩), h_tag, h_issued⟩
  · show ((given action answer).map Prod.fst ++ handles F.past).Nodup
    rw [List.nodup_append]
    refine ⟨?_, h.nodup, fun a ha b hb => ?_⟩
    · unfold given
      split <;> simp
    · obtain ⟨e, he, rfl⟩ := List.mem_map.mp ha
      rw [h_effect.eq_of_mem_given e he]
      exact fun h_eq => h.next_notMem h_member (h_eq ▸ hb)

end Apart

theorem run_apart (requests : List (Request (Action P))) : Apart (kind.run requests) := by
  refine Kind.run_induction (I := Apart) ?_ (fun F h => ?_) (fun F source g h_source h => ?_)
    (fun F member g action h_member h => h.update h_member action) requests
  · exact ⟨nofun, nofun, nofun, nofun, List.nodup_nil⟩
  · exact h.enter rfl ⟨nofun, List.Pairwise.nil⟩ nofun
  · refine h.enter rfl ⟨fun id h_id => ?_, (h.rising h_source).issued⟩ nofun
    exact Nat.le_of_lt (Nat.lt_of_le_of_lt ((h.rising h_source).tag_le id h_id) (h.supply h_source))

theorem mem_handles_of_contains (requests : List (Request (Action P))) {i : Nat}
    (h_g : (kind.run requests).members[i]? = some g) {id : NodeId} (h_live : g.contains id = true) :
    id ∈ handles (kind.run requests).past := by
  obtain ⟨⟨member, payload, h_made⟩, _⟩ := (run_follows requests i g h_g).contains_iff.mp h_live
  exact mem_handles.mpr ⟨member, payload, acted_of_mem_line h_made⟩

/-- Only making a node answers with a handle. -/
theorem mem_handles_of_acted (requests : List (Request (Action P))) {member : Nat}
    {action : Action P} {id : NodeId}
    (h : .acted member action (.ok (.node id)) ∈ (kind.run requests).past) :
    id ∈ handles (kind.run requests).past := by
  obtain ⟨g, h_answer⟩ := Kind.exists_outcome_of_acted requests h
  have h_effect := effect_outcome g action
  rw [← h_answer] at h_effect
  cases h_effect with
  | newNode payload => exact mem_handles.mpr ⟨member, payload, h⟩

/-- Making a node always does. -/
theorem exists_node_of_acted (requests : List (Request (Action P))) {member : Nat} {payload : P}
    {answer : Except Misuse (Answer P)}
    (h : .acted member (.newNode payload) answer ∈ (kind.run requests).past) :
    ∃ id, answer = .ok (.node id) := by
  obtain ⟨g, rfl⟩ := Kind.exists_outcome_of_acted requests h
  exact ⟨_, rfl⟩

/-! ## Ownership -/

/-- What the line of a member tells about its handles, which the member tells by its lineage. -/
structure Owns (F : Family (Graph P) (Action P) (Answer P) Misuse) (i : Nat) (g : Graph P)
    (l : Lineage) : Prop where
  agrees : l.Agrees g
  contains_iff : ∀ id, l.contains g id = true ↔
    (∃ member payload, (member, .newNode payload, .ok (.node id)) ∈ line F.past i) ∧
      ∀ member answer, (member, .removeNode id, .ok answer) ∉ line F.past i
  nodes_eq : l.nodes g =
    ((handedOut (line F.past i)).map Prod.fst).filter (· ∉ takenBack (line F.past i))
  nodes_rise : (l.nodes g).Pairwise fun a b => compare a b = .lt
  tag_eq : ∀ {member payload id}, (member, .newNode payload, .ok (.node id)) ∈ line F.past i →
    ∃ maker, F.members[member]? = some maker ∧ id.tag = maker.tag
  payload_eq : ∀ {member payload id}, (member, .newNode payload, .ok (.node id)) ∈ line F.past i →
    l.contains g id = true → g.payload id = .ok payload

/-- Whoever asks a member of a family for a node is given a handle, and no handle is given out
twice.  A handle names a live node of a member exactly if it was given out along the line of that
member and was not taken back along that line.  The members list those handles in the order in
which they were given out, which is their order, and each has the tag of the member that gave it
out and the payload it was asked for.  All this the members tell by the spans of their lineages, and
by the tags in their slots alike. -/
theorem run_owns (requests : List (Request (Action P))) :
    (∀ member payload answer, .acted member (.newNode payload) answer ∈ (kind.run requests).past →
      ∃ id, answer = .ok (.node id)) ∧
    (handles (kind.run requests).past).Nodup ∧
    ∀ i g, (kind.run requests).members[i]? = some g →
      ∃ l, ((Traced.kind kind held .start).run requests).members[i]? = some ⟨g, l⟩ ∧
        Owns (kind.run requests) i g l := by
  refine ⟨fun _ _ _ h_past => exists_node_of_acted requests h_past, (run_apart requests).nodup,
    fun i g h_g => ?_⟩
  obtain ⟨l, h_l, h_covers⟩ := Traced.exists_covers kind_holds (fun _ => rfl) h_g
  have h_agrees : l.Agrees g := h_covers.agrees
  have h_follows := run_follows requests i g h_g
  refine ⟨l, h_l, h_agrees, fun id => ?_, ?_, ?_, fun {member payload id} h_made => ?_,
    fun {member payload id} h_made h_live => ?_⟩
  · rw [h_agrees.contains_eq]
    exact h_follows.contains_iff
  · rw [h_agrees.nodes_eq]
    exact h_follows.nodes_eq
  · rw [h_agrees.nodes_eq, h_follows.nodes_eq, ← h_follows.issued]
    exact ((run_apart requests).rising h_g).issued.filter _
  · obtain ⟨maker, h_maker, h_tag, _⟩ := (run_apart requests).maker (acted_of_mem_line h_made)
    exact ⟨maker, h_maker, h_tag⟩
  · rw [h_agrees.contains_eq] at h_live
    have h_label := h_follows.mem_labels_iff.mpr ⟨⟨member, h_made⟩, (h_follows.contains_iff.mp h_live).2⟩
    obtain ⟨node, h_node, rfl⟩ := mem_labels.mp h_label
    rw [Graph.payload, node_eq_ok.mpr h_node]
    rfl

end Graph

end LiveRange
