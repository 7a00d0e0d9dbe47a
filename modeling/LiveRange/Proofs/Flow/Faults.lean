import LiveRange.Proofs.Flow.Positions

/-! # Faults of a body

A body has two kinds of fault: an instruction may define a label that one before it defines
(`RepeatsAt`), and it may jump to a label that none defines (`DanglesAt`).  A body with a fault has
no flow graph.  What is reported instead is the first repeated definition, and the first jump to
nowhere only where no definition is repeated; a body without a fault has a flow graph
(`FlowGraph.build_faults`). -/

namespace LiveRange

/-- The instruction at position `j` defines a label that one before it defines. -/
def RepeatsAt (body : List Instr) (j : Nat) : Prop :=
  ∃ label, j ∈ placesOf body label ∧ ∃ i ∈ placesOf body label, i < j

/-- The instruction at position `i` jumps to a label that no instruction defines. -/
def DanglesAt (body : List Instr) (i : Nat) : Prop :=
  ∃ instr, body[i]? = some instr ∧ ∃ label ∈ instr.targets, placesOf body label = []

/-- The instruction at position `second` is the first that repeats a definition.  It defines
`label`, as does the one at position `first` and none other before it. -/
structure FirstRepeat (body : List Instr) (label : Label) (first second : Nat) : Prop where
  again : second ∈ placesOf body label
  earlier : ∀ i, i ∈ placesOf body label ∧ i < second ↔ i = first
  least : ∀ j < second, ¬ RepeatsAt body j

/-- The instruction at `position` is the first that jumps to nowhere, and `label` is the first of
its targets that is not defined. -/
structure FirstDangling (body : List Instr) (label : Label) (position : Nat) : Prop where
  undefined : placesOf body label = []
  target : ∃ instr before after, body[position]? = some instr ∧
    instr.targets = before ++ label :: after ∧ ∀ other ∈ before, placesOf body other ≠ []
  least : ∀ i < position, ¬ DanglesAt body i

variable {body : List Instr} {label : Label} {labels : LabelTable} {e : AnalysisError} {i j : Nat}

theorem FirstRepeat.repeatsAt {first second : Nat} (h : FirstRepeat body label first second) :
    RepeatsAt body second :=
  ⟨label, h.again, first, (h.earlier first).mpr rfl⟩

theorem FirstDangling.danglesAt (h : FirstDangling body label i) : DanglesAt body i := by
  obtain ⟨instr, before, after, h_instr, h_targets, _⟩ := h.target
  have h_mem : label ∈ instr.targets := h_targets ▸ List.mem_append_right _ List.mem_cons_self
  exact ⟨instr, h_instr, label, h_mem, h.undefined⟩

/-! ## Repeated definitions -/

theorem mem_placesOf_concat {instr : Instr} (hj : j < body.length) :
    j ∈ placesOf (body ++ [instr]) label ↔ j ∈ placesOf body label := by
  rw [mem_placesOf, mem_placesOf, List.getElem?_append_left hj]

theorem repeatsAt_concat {instr : Instr} (hj : j < body.length) :
    RepeatsAt (body ++ [instr]) j ↔ RepeatsAt body j := by
  refine exists_congr fun label => and_congr (mem_placesOf_concat hj) (exists_congr fun i => ?_)
  exact and_congr_left fun h_lt => mem_placesOf_concat (Nat.lt_trans h_lt hj)

theorem not_repeatsAt_of_labelTable (h : labelTable body = .ok labels) : ¬ RepeatsAt body j := by
  rintro ⟨label, hj, i, hi, h_lt⟩
  rw [← toList_labelTable h, Option.mem_toList] at hi hj
  cases hi.symm.trans hj
  exact Nat.lt_irrefl _ h_lt

theorem FirstRepeat.concat {first second : Nat} (h : FirstRepeat body label first second)
    (instr : Instr) : FirstRepeat (body ++ [instr]) label first second := by
  have h_second := lt_of_mem_placesOf h.again
  refine ⟨(mem_placesOf_concat h_second).mpr h.again, fun i => ?_, fun j hj => ?_⟩
  · rw [← h.earlier i]
    exact and_congr_left fun h_lt => mem_placesOf_concat (Nat.lt_trans h_lt h_second)
  · rw [repeatsAt_concat (Nat.lt_trans hj h_second)]
    exact h.least j hj

/-- The table of labels breaks off at the first instruction that repeats a definition. -/
theorem exists_firstRepeat (h : labelTable body = .error e) : ∃ label first second,
    FirstRepeat body label first second ∧ e = .duplicateLabel label first second := by
  induction body using List.reverseRecOn with
  | nil => cases h
  | append_singleton body instr ih =>
    rw [labelTable_concat] at h
    rcases bind_eq_error.mp h with h_before | ⟨table, h_table, h⟩
    · obtain ⟨label, first, second, h_first, h_error⟩ := ih h_before
      exact ⟨label, first, second, h_first.concat instr, h_error⟩
    · split at h
      · cases h
      · rename_i label h_label
        split at h
        · -- the table has the label, and it leads to the only place before this one
          rename_i first h_known
          cases h
          have h_places := toList_labelTable h_table label
          have h_first : ∀ i, i ∈ placesOf body label ↔ i = first := fun i => by
            rw [← h_places, h_known]
            exact List.mem_singleton
          refine ⟨label, first, body.length, ⟨?_, fun i => ?_, fun j hj => ?_⟩, rfl⟩
          · rw [placesOf_concat, if_pos h_label]
            exact List.mem_append_right _ List.mem_cons_self
          · constructor
            · intro ⟨hi, h_lt⟩
              exact (h_first i).mp ((mem_placesOf_concat h_lt).mp hi)
            · intro h_eq
              have hi := (h_first i).mpr h_eq
              have h_lt := lt_of_mem_placesOf hi
              exact ⟨(mem_placesOf_concat h_lt).mpr hi, h_lt⟩
          · rw [repeatsAt_concat hj]
            exact not_repeatsAt_of_labelTable h_table
        · cases h

/-! ## Jumps to nowhere -/

theorem placesOf_of_resolve_error (h_labels : labelTable body = .ok labels)
    (h : labels.resolve i label = .error e) :
    placesOf body label = [] ∧ e = .undefinedLabel label i := by
  rw [← toList_labelTable h_labels]
  unfold LabelTable.resolve at h
  split at h
  · cases h
  · rename_i h_label
    cases h
    rw [h_label]
    exact ⟨rfl, rfl⟩

theorem not_danglesAt_of_nextPositions (h_labels : labelTable body = .ok labels) {instr : Instr}
    (h_instr : body[i]? = some instr) {next : List Nat}
    (h : instr.nextPositions labels body.length i = .ok next) : ¬ DanglesAt body i := by
  rintro ⟨instr', h_instr', label, h_target, h_nowhere⟩
  cases h_instr.symm.trans h_instr'
  obtain ⟨places, h_places, _⟩ := bind_eq_ok.mp h
  obtain ⟨p, h_place⟩ := exists_of_mapM_eq_ok h_places h_target
  rw [placesOf_of_resolve h_labels h_place] at h_nowhere
  cases h_nowhere

theorem zipIdx_eq_append {α : Type*} {xs : List α} {before after : List (α × Nat)} {x : α}
    (h : xs.zipIdx = before ++ (x, i) :: after) :
    xs[i]? = some x ∧ ∀ j < i, ∀ y, xs[j]? = some y → (y, j) ∈ before := by
  have h_at : xs.zipIdx[before.length]? = some (x, i) := by
    rw [h, List.getElem?_append_right (Nat.le_refl _), Nat.sub_self]
    rfl
  obtain ⟨y, h_y, h_eq⟩ := Option.map_eq_some_iff.mp (List.getElem?_zipIdx.symm.trans h_at)
  rw [Nat.zero_add, Prod.mk.injEq] at h_eq
  obtain ⟨rfl, rfl⟩ := h_eq
  refine ⟨h_y, fun j hj z h_z => ?_⟩
  have h_row : xs.zipIdx[j]? = some (z, j) := by
    rw [List.getElem?_zipIdx, h_z, Nat.zero_add]
    rfl
  rw [h, List.getElem?_append_left hj] at h_row
  exact List.mem_of_getElem? h_row

/-- The search for edges breaks off at the first instruction that jumps to nowhere. -/
theorem exists_firstDangling (h_labels : labelTable body = .ok labels)
    (h : flowEdges labels body = .error e) :
    ∃ label position, FirstDangling body label position ∧ e = .undefinedLabel label position := by
  rcases bind_eq_error.mp h with h_rows | ⟨_, _, h_done⟩
  · obtain ⟨before, ⟨instr, position⟩, after, h_split, h_before, h_row⟩ :=
      exists_of_mapM_eq_error h_rows
    obtain ⟨h_instr, h_earlier⟩ := zipIdx_eq_append h_split
    rcases bind_eq_error.mp (map_eq_error_iff.mp h_row) with h_places | ⟨_, _, h_done⟩
    · obtain ⟨fine, label, rest, h_targets, h_fine, h_label⟩ := exists_of_mapM_eq_error h_places
      obtain ⟨h_nowhere, h_error⟩ := placesOf_of_resolve_error h_labels h_label
      refine ⟨label, position, ⟨h_nowhere, ⟨instr, fine, rest, h_instr, h_targets, ?_⟩, ?_⟩, h_error⟩
      · intro other h_other
        obtain ⟨p, h_place⟩ := h_fine other h_other
        rw [placesOf_of_resolve h_labels h_place]
        exact List.cons_ne_nil p []
      · -- the edges of all instructions before this one were found
        intro i hi h_dangles
        obtain ⟨instr', h_instr', _⟩ := id h_dangles
        obtain ⟨row, h_row⟩ := h_before _ (h_earlier i hi instr' h_instr')
        obtain ⟨next, h_next, _⟩ := map_eq_ok.mp h_row
        exact not_danglesAt_of_nextPositions h_labels h_instr' h_next h_dangles
    · cases h_done
  · cases h_done

theorem not_danglesAt_of_flowEdges (h_labels : labelTable body = .ok labels)
    {edges : List (Nat × Nat)} (h : flowEdges labels body = .ok edges) : ¬ DanglesAt body i := by
  rintro ⟨instr, h_instr, label, h_target, h_nowhere⟩
  obtain ⟨p, h_place⟩ :=
    exists_place_of_flowEdges h_labels h (List.mem_of_getElem? h_instr) h_target
  rw [h_place] at h_nowhere
  cases h_nowhere

/-! ## Building -/

namespace FlowGraph

/-- How the making of a flow graph ends: at the first repeated definition, else at the first jump to
nowhere, else with a flow graph. -/
theorem build_cases (tag : GraphTag) (body : List Instr) :
    (∃ label first second, FirstRepeat body label first second ∧
        build tag body = .error (.duplicateLabel label first second)) ∨
      (∀ j, ¬ RepeatsAt body j) ∧
        ((∃ label position, FirstDangling body label position ∧
            build tag body = .error (.undefinedLabel label position)) ∨
          (∀ i, ¬ DanglesAt body i) ∧ ∃ flow, build tag body = .ok flow) := by
  cases h_labels : labelTable body with
  | error e =>
    obtain ⟨label, first, second, h_first, rfl⟩ := exists_firstRepeat h_labels
    exact .inl ⟨label, first, second, h_first, bind_eq_error.mpr (.inl h_labels)⟩
  | ok labels =>
    refine .inr ⟨fun j => not_repeatsAt_of_labelTable h_labels, ?_⟩
    cases h_edges : flowEdges labels body with
    | error e =>
      obtain ⟨label, position, h_first, rfl⟩ := exists_firstDangling h_labels h_edges
      refine .inl ⟨label, position, h_first, bind_eq_error.mpr (.inr ⟨labels, h_labels, ?_⟩)⟩
      exact bind_eq_error.mpr (.inl h_edges)
    | ok edges =>
      refine .inr ⟨fun i => not_danglesAt_of_flowEdges h_labels h_edges, ?_⟩
      simp only [build, h_labels, h_edges, bind, Except.bind]
      exact ⟨_, rfl⟩

/-- A body that repeats a definition is refused with the first repeated one, whatever its jumps.
Any other body that jumps to a label nowhere defined is refused with the first such jump, and the
first such label among its targets.  Every body without these faults has a flow graph. -/
theorem build_faults (tag : GraphTag) (body : List Instr) :
    ((∃ j, RepeatsAt body j) → ∃ label first second, FirstRepeat body label first second ∧
        build tag body = .error (.duplicateLabel label first second)) ∧
      ((¬ ∃ j, RepeatsAt body j) → (∃ i, DanglesAt body i) →
        ∃ label position, FirstDangling body label position ∧
          build tag body = .error (.undefinedLabel label position)) ∧
      ((¬ ∃ j, RepeatsAt body j) → (¬ ∃ i, DanglesAt body i) → ∃ flow, build tag body = .ok flow) := by
  rcases build_cases tag body with ⟨label, first, second, h_first, h_error⟩ |
    ⟨h_once, ⟨label, position, h_first, h_error⟩ | ⟨h_defined, h_flow⟩⟩
  · have h_repeat : ∃ j, RepeatsAt body j := ⟨second, h_first.repeatsAt⟩
    exact ⟨fun _ => ⟨label, first, second, h_first, h_error⟩, fun h => absurd h_repeat h,
      fun h => absurd h_repeat h⟩
  · have h_dangle : ∃ i, DanglesAt body i := ⟨position, h_first.danglesAt⟩
    exact ⟨fun ⟨j, h⟩ => absurd h (h_once j), fun _ _ => ⟨label, position, h_first, h_error⟩,
      fun _ h => absurd h_dangle h⟩
  · exact ⟨fun ⟨j, h⟩ => absurd h (h_once j), fun _ ⟨i, h⟩ => absurd h (h_defined i),
      fun _ _ => h_flow⟩

/-- A jump to two labels that are nowhere defined, before two labels that are each defined twice. -/
def manyFaults : List Instr :=
  [.place ⟨"a"⟩, .jump "goto" [] [⟨"a"⟩, ⟨"c"⟩, ⟨"d"⟩], .place ⟨"b"⟩, .place ⟨"b"⟩, .place ⟨"a"⟩]

theorem build_faults_manyFaults :
    DanglesAt manyFaults 1 ∧ RepeatsAt manyFaults 4 ∧
      ∃ label first second, FirstRepeat manyFaults label first second ∧
        build ⟨0⟩ manyFaults = .error (.duplicateLabel label first second) := by
  have h_dangles : DanglesAt manyFaults 1 :=
    ⟨_, rfl, ⟨"c"⟩, List.mem_cons_of_mem _ List.mem_cons_self, by decide⟩
  have h_repeats : RepeatsAt manyFaults 4 := ⟨⟨"a"⟩, by decide, 0, by decide, by decide⟩
  exact ⟨h_dangles, h_repeats, (build_faults ⟨0⟩ manyFaults).1 ⟨4, h_repeats⟩⟩

example : build ⟨0⟩ [.jump "goto" [] [⟨"c"⟩], .place ⟨"b"⟩, .place ⟨"b"⟩] =
    .error (.duplicateLabel ⟨"b"⟩ 1 2) := rfl

end FlowGraph

end LiveRange
