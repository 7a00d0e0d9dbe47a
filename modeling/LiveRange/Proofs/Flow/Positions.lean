import Mathlib.Data.List.Induction
import LiveRange.Flow.Basic
import LiveRange.Proofs.Fallible

/-! # Where control may go in a body

Which positions follow which in a body is plain from the body alone: `nextOf` reads it off the
instructions that fall through and the places their labels stand for, with no table and no
faults.  Where the label table and the edges of a body are found, they are these
(`toList_labelTable`, `flowEdges_eq`). -/

namespace LiveRange

/-- The positions of the instructions that stand for a label. -/
def placesOf (body : List Instr) (label : Label) : List Nat :=
  (List.range body.length).filter fun p => body[p]?.bind Instr.definedLabel? = some label

/-- The positions that may execute right after a position, once for each reason. -/
def nextOf (body : List Instr) (i : Nat) : List Nat :=
  match body[i]? with
  | none => []
  | some instr =>
    (if instr.fallsThrough && i + 1 < body.length then [i + 1] else []) ++
      instr.targets.flatMap (placesOf body)

/-- All pairs of positions of which the second may execute right after the first. -/
def arcs (body : List Instr) : List (Nat × Nat) :=
  (List.range body.length).flatMap fun i => (nextOf body i).map (i, ·)

variable {body : List Instr} {label : Label} {i j : Nat}

theorem mem_placesOf :
    j ∈ placesOf body label ↔ ∃ instr, body[j]? = some instr ∧ instr.definedLabel? = some label := by
  simp only [placesOf, List.mem_filter, List.mem_range, decide_eq_true_eq, Option.bind_eq_some_iff]
  constructor
  · exact And.right
  · intro h
    obtain ⟨instr, h_instr, h_label⟩ := h
    exact ⟨(List.getElem?_eq_some_iff.mp h_instr).1, instr, h_instr, h_label⟩

theorem lt_of_mem_placesOf (h : j ∈ placesOf body label) : j < body.length := by
  obtain ⟨_, h_at, _⟩ := mem_placesOf.mp h
  exact (List.getElem?_eq_some_iff.mp h_at).1

theorem mem_nextOf : j ∈ nextOf body i ↔ ∃ instr, body[i]? = some instr ∧
    (instr.fallsThrough = true ∧ i + 1 < body.length ∧ j = i + 1 ∨
      ∃ label ∈ instr.targets, j ∈ placesOf body label) := by
  unfold nextOf
  cases h_instr : body[i]? with
  | none => simp
  | some instr =>
    simp only [List.mem_append, List.mem_flatMap, Option.some.injEq, exists_eq_left']
    refine or_congr_left ?_
    split
    · rename_i h_more
      simp only [Bool.and_eq_true, decide_eq_true_eq] at h_more
      simp [h_more]
    · rename_i h_last
      simp only [Bool.and_eq_true, decide_eq_true_eq] at h_last
      exact ⟨fun h => absurd h List.not_mem_nil, fun h => absurd ⟨h.1, h.2.1⟩ h_last⟩

theorem lt_of_mem_nextOf (h : j ∈ nextOf body i) : i < body.length ∧ j < body.length := by
  obtain ⟨instr, h_instr, h_next⟩ := mem_nextOf.mp h
  refine ⟨(List.getElem?_eq_some_iff.mp h_instr).1, ?_⟩
  rcases h_next with ⟨_, h_more, rfl⟩ | ⟨label, _, h_place⟩
  · exact h_more
  · exact lt_of_mem_placesOf h_place

/-- A jump leads to a label, and labels do not jump. -/
theorem notMem_nextOf_self : i ∉ nextOf body i := by
  intro h
  obtain ⟨instr, h_instr, h_next⟩ := mem_nextOf.mp h
  rcases h_next with ⟨_, _, h_self⟩ | ⟨label, h_target, h_place⟩
  · omega
  · obtain ⟨_, h_same, h_label⟩ := mem_placesOf.mp h_place
    cases h_instr.symm.trans h_same
    cases instr with
    | oper | move => cases h_label
    | label => cases h_target

theorem mem_arcs : (i, j) ∈ arcs body ↔ j ∈ nextOf body i := by
  simp only [arcs, List.mem_flatMap, List.mem_range, List.mem_map, Prod.mk.injEq]
  constructor
  · intro h
    obtain ⟨_, _, _, h_next, rfl, rfl⟩ := h
    exact h_next
  · intro h
    exact ⟨i, (lt_of_mem_nextOf h).1, j, h, rfl, rfl⟩

/-! ## The label table -/

theorem labelTable_concat (body : List Instr) (instr : Instr) :
    labelTable (body ++ [instr]) = labelTable body >>= fun table =>
      match instr.definedLabel? with
      | none => .ok table
      | some label =>
        match table[label]? with
        | some first => .error (.duplicateLabel label first body.length)
        | none => .ok (table.insert label body.length) := by
  rw [labelTable, List.zipIdx_append, List.foldlM_append, Nat.zero_add]
  exact bind_congr fun table => bind_pure _

theorem placesOf_concat (body : List Instr) (instr : Instr) (label : Label) :
    placesOf (body ++ [instr]) label =
      placesOf body label ++ if instr.definedLabel? = some label then [body.length] else [] := by
  have h_old : ∀ p ∈ List.range body.length, (body ++ [instr])[p]? = body[p]? :=
    fun p hp => List.getElem?_append_left (List.mem_range.mp hp)
  rw [placesOf, List.length_append, List.length_singleton, List.range_succ, List.filter_append]
  congr 1
  · refine List.filter_congr fun p hp => ?_
    rw [h_old p hp]
  · rw [List.filter_singleton, List.getElem?_concat_length]
    simp

/-- The table knows every place of a label, and a label has no second place. -/
theorem toList_labelTable {labels : LabelTable} (h : labelTable body = .ok labels) (label : Label) :
    labels[label]?.toList = placesOf body label := by
  induction body using List.reverseRecOn generalizing labels with
  | nil =>
    cases h
    simp [placesOf]
  | append_singleton body instr ih =>
    rw [labelTable_concat] at h
    obtain ⟨table, h_table, h⟩ := bind_eq_ok.mp h
    rw [placesOf_concat, ← ih h_table]
    split at h
    · rename_i h_none
      cases h
      simp [h_none]
    · rename_i name h_name
      split at h
      · cases h
      · rename_i h_fresh
        cases h
        rw [Std.TreeMap.getElem?_insert, h_name]
        split
        · rename_i h_eq
          cases Std.LawfulEqOrd.eq_of_compare h_eq
          rw [h_fresh, if_pos rfl]
          rfl
        · rename_i h_ne
          have h_other : ¬ some name = some label := by
            rintro ⟨⟩
            exact h_ne Std.ReflOrd.compare_self
          rw [if_neg h_other, List.append_nil]

theorem placesOf_of_resolve {labels : LabelTable} (h_labels : labelTable body = .ok labels)
    (h : labels.resolve i label = .ok j) : placesOf body label = [j] := by
  rw [← toList_labelTable h_labels]
  unfold LabelTable.resolve at h
  split at h
  · rename_i h_label
    cases h
    rw [h_label]
    rfl
  · cases h

/-! ## The edges of a body -/

theorem nextPositions_eq {labels : LabelTable} (h_labels : labelTable body = .ok labels)
    {instr : Instr} (h_instr : body[i]? = some instr) {next : List Nat}
    (h : instr.nextPositions labels body.length i = .ok next) : next = nextOf body i := by
  obtain ⟨places, h_places, h_next⟩ := bind_eq_ok.mp h
  cases h_next
  have h_targets : instr.targets.flatMap (placesOf body) = places.flatMap ([·]) :=
    flatMap_of_mapM_eq_ok h_places fun _ _ _ h_place => placesOf_of_resolve h_labels h_place
  simp only [nextOf, h_instr, h_targets, List.flatMap_singleton']

theorem flowEdges_eq {labels : LabelTable} (h_labels : labelTable body = .ok labels)
    {edges : List (Nat × Nat)} (h : flowEdges labels body = .ok edges) : edges = arcs body := by
  obtain ⟨rows, h_rows, h_flat⟩ := bind_eq_ok.mp h
  cases h_flat
  have h_arcs : arcs body = body.zipIdx.flatMap fun e => (nextOf body e.2).map (e.2, ·) := by
    rw [arcs, List.range_eq_range', ← List.zipIdx_map_snd 0 body, List.flatMap_map]
  rw [h_arcs, ← List.flatMap_id]
  refine (flatMap_of_mapM_eq_ok h_rows fun e h_mem row h_row => ?_).symm
  obtain ⟨next, h_next, rfl⟩ := map_eq_ok.mp h_row
  rw [nextPositions_eq h_labels (List.mem_zipIdx_iff_getElem?.mp h_mem) h_next]
  rfl

/-- Where the edges of a body are found, every jump target has its place. -/
theorem exists_place_of_flowEdges {labels : LabelTable} (h_labels : labelTable body = .ok labels)
    {edges : List (Nat × Nat)} (h : flowEdges labels body = .ok edges) {instr : Instr}
    (h_instr : instr ∈ body) (h_target : label ∈ instr.targets) : ∃ p, placesOf body label = [p] := by
  obtain ⟨i, h_at⟩ := List.mem_iff_getElem?.mp h_instr
  obtain ⟨rows, h_rows, _⟩ := bind_eq_ok.mp h
  have h_mem : (instr, i) ∈ body.zipIdx := List.mem_zipIdx_iff_getElem?.mpr h_at
  obtain ⟨row, h_row⟩ := exists_of_mapM_eq_ok h_rows h_mem
  obtain ⟨next, h_next, _⟩ := map_eq_ok.mp h_row
  obtain ⟨places, h_places, _⟩ := bind_eq_ok.mp h_next
  obtain ⟨p, h_place⟩ := exists_of_mapM_eq_ok h_places h_target
  exact ⟨p, placesOf_of_resolve h_labels h_place⟩

end LiveRange
