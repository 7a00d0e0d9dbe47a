import Mathlib.Data.List.Induction
import Mathlib.Data.List.Nodup

/-! # Lists without repeats

`List.eraseDups` keeps the first of equal members and the order of those it keeps.  So it can be
told from the end of a list what becomes of it (`eraseDups_concat`): a last member stays if it is
new.  With that come numberings by first mention, and edges that are added at most once. -/

namespace LiveRange

variable {α β : Type} [BEq β] [LawfulBEq β] {xs : List α} {x : α}

theorem eraseDups_concat [BEq α] [LawfulBEq α] (xs : List α) (x : α) :
    (xs ++ [x]).eraseDups = if x ∈ xs then xs.eraseDups else xs.eraseDups ++ [x] := by
  rw [List.eraseDups_append]
  by_cases h_mem : x ∈ xs <;> simp [List.removeAll, List.eraseDups_cons, h_mem]

theorem nodup_eraseDups [BEq α] [LawfulBEq α] (xs : List α) : xs.eraseDups.Nodup := by
  induction xs using List.reverseRecOn with
  | nil => exact List.nodup_nil
  | append_singleton xs x ih =>
    rw [eraseDups_concat]
    split
    · exact ih
    · rename_i h_new
      refine List.nodup_append.mpr ⟨ih, List.nodup_singleton x, fun a ha b hb h_eq => h_new ?_⟩
      rw [List.mem_eraseDups] at ha
      rwa [← List.mem_singleton.mp hb, ← h_eq]

/-- Distinct members are kept in the order in which they come first. -/
theorem pairwise_idxOf_eraseDups [BEq α] [LawfulBEq α] (xs : List α) :
    xs.eraseDups.Pairwise fun a b => xs.idxOf a < xs.idxOf b := by
  induction xs using List.reverseRecOn with
  | nil => exact List.Pairwise.nil
  | append_singleton xs x ih =>
    have h_old : ∀ a ∈ xs.eraseDups, (xs ++ [x]).idxOf a = xs.idxOf a := fun a ha => by
      rw [List.idxOf_append, if_pos (List.mem_eraseDups.mp ha)]
    have h_before : xs.eraseDups.Pairwise fun a b => (xs ++ [x]).idxOf a < (xs ++ [x]).idxOf b :=
      ih.imp_of_mem fun ha hb h_lt => by rwa [h_old _ ha, h_old _ hb]
    rw [eraseDups_concat]
    split
    · exact h_before
    · rename_i h_new
      refine List.pairwise_append.mpr ⟨h_before, List.pairwise_singleton _ _, fun a ha b hb => ?_⟩
      rw [List.mem_singleton.mp hb, h_old a ha, List.idxOf_append, if_neg h_new]
      exact Nat.lt_add_left _ (List.idxOf_lt_length_of_mem (List.mem_eraseDups.mp ha))

theorem eraseDups_filter [BEq α] [LawfulBEq α] (p : α → Bool) (xs : List α) :
    (xs.filter p).eraseDups = xs.eraseDups.filter p := by
  induction xs using List.reverseRecOn with
  | nil => rfl
  | append_singleton xs x ih =>
    rw [eraseDups_concat, List.filter_append]
    by_cases h_keep : p x = true
    · rw [List.filter_cons_of_pos h_keep, List.filter_nil, eraseDups_concat, ih]
      simp only [List.mem_filter, h_keep, and_true]
      split
      · rfl
      · rw [List.filter_append, List.filter_cons_of_pos h_keep, List.filter_nil]
    · rw [List.filter_cons_of_neg h_keep, List.filter_nil, List.append_nil, ih]
      split
      · rfl
      · rw [List.filter_append, List.filter_cons_of_neg h_keep, List.filter_nil, List.append_nil]

theorem eraseDups_map_on [BEq α] [LawfulBEq α] {f : α → β}
    (h_inj : ∀ x ∈ xs, ∀ y ∈ xs, f x = f y → x = y) :
    (xs.map f).eraseDups = xs.eraseDups.map f := by
  induction xs using List.reverseRecOn with
  | nil => rfl
  | append_singleton xs x ih =>
    have h_mem : f x ∈ xs.map f ↔ x ∈ xs := by
      refine ⟨fun h_image => ?_, List.mem_map_of_mem⟩
      obtain ⟨y, hy, h_eq⟩ := List.mem_map.mp h_image
      have h_same := h_inj y (List.mem_append_left _ hy) x List.mem_concat_self h_eq
      exact h_same ▸ hy
    have h_rest : (xs.map f).eraseDups = xs.eraseDups.map f := ih fun y hy z hz =>
      h_inj y (List.mem_append_left _ hy) z (List.mem_append_left _ hz)
    simp only [List.map_append, List.map_singleton, eraseDups_concat, h_rest, h_mem]
    split
    · rfl
    · rw [List.map_append, List.map_singleton]

theorem eraseDups_map [BEq α] [LawfulBEq α] {f : α → β} (h_inj : f.Injective) (xs : List α) :
    (xs.map f).eraseDups = xs.eraseDups.map f :=
  eraseDups_map_on fun _ _ _ _ h_eq => h_inj h_eq

theorem eraseDups_flatMap {f : α → List β} (h : xs.Pairwise fun a b => (f a).Disjoint (f b)) :
    (xs.flatMap f).eraseDups = xs.flatMap fun a => (f a).eraseDups := by
  induction xs with
  | nil => rfl
  | cons x rest ih =>
    obtain ⟨h_head, h_rest⟩ := List.pairwise_cons.mp h
    have h_apart : (rest.flatMap f).removeAll (f x) = rest.flatMap f := by
      refine List.filter_eq_self.mpr fun b hb => ?_
      obtain ⟨a, ha, h_mem⟩ := List.mem_flatMap.mp hb
      simpa using fun h_here => h_head a ha h_here h_mem
    rw [List.flatMap_cons, List.eraseDups_append, h_apart, ih h_rest, List.flatMap_cons]

end LiveRange
