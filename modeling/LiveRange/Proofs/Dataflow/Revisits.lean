import LiveRange.Proofs.Dataflow.Climbing

/-! # Why the worklist comes back to a node

A run of the worklist is followed visit by visit (`Problem.course`).  A run with less fuel is cut off
earlier and is the same up to there, so the run with fuel `k` shows what the tables are when the visit
at position `k` is made (`worklist_course`).

On tables that climb, a node that has been visited is due again only after a value of a node that it
reads has risen (`Problem.Raised`), be it the value before that node or the value after it
(`warranted_course`).  A node reads the values before its successors only, and stays at rest as long as
these are what they were at its last visit (`holds_course`).  So a rise of the value after a successor
is no reason to come back: in `shielded` it is the only one (`worklist_shielded`). -/

namespace LiveRange.Dataflow.Problem

universe u

variable {n : Nat} {α : Type u} {p : Problem n α}

/-! ## Values that rise -/

section Rises

variable [PartialOrder α]

/-- From the first tables to the second, a value of a node that this node reads has risen. -/
def Raised (p : Problem n α) (t u : Tables n α) (i : Fin n) : Prop :=
  ∃ s : Fin n, (s : Nat) ∈ p.succs i ∧ (t.ins.get s < u.ins.get s ∨ t.outs.get s < u.outs.get s)

theorem Raised.mono {t t' u u' : Tables n α} {i : Fin n} (h : p.Raised t u i) (h_before : t' ≤ t)
    (h_after : u ≤ u') : p.Raised t' u' i := by
  obtain ⟨s, h_succ, h_rise⟩ := h
  refine ⟨s, h_succ, h_rise.imp ?_ ?_⟩
  · exact fun h_lt => ((h_before s).1.trans_lt h_lt).trans_le (h_after s).1
  · exact fun h_lt => ((h_before s).2.trans_lt h_lt).trans_le (h_after s).2

/-- A visit that changes something raises a value for whoever reads the visited node. -/
theorem Climbs.raised_refresh {t : Tables n α} (h : p.Climbs t) {i j : Fin n} (h_holds : ¬ p.Holds t i)
    (h_succ : (i : Nat) ∈ p.succs j) : p.Raised t (p.refresh t i) j := by
  refine ⟨i, h_succ, ?_⟩
  obtain ⟨h_ins, h_outs⟩ := h.le_refresh i i
  rcases h_ins.lt_or_eq with h_lt | h_ins
  · exact .inl h_lt
  rcases h_outs.lt_or_eq with h_lt | h_outs
  · exact .inr h_lt
  · rw [refresh_ins_self] at h_ins
    rw [refresh_outs_self] at h_outs
    exact absurd ⟨h_outs, by rw [h_outs]; exact h_ins⟩ h_holds

end Rises

variable [DecidableEq α] {preds : Vector (List (Fin n)) n} {seed : Tables n α}

/-! ## The course of a run -/

/-- The worklist after a visit to the first node that is due, if one is. -/
def next (p : Problem n α) (preds : Vector (List (Fin n)) n) (w : Worklist n α) : Worklist n α :=
  match w.queue with
  | [] => w
  | i :: rest =>
    match p.step preds w i rest with
    | .ok w' => w'
    | .error _ => w

/-- The worklist after so many visits. -/
def course (p : Problem n α) (preds : Vector (List (Fin n)) n) (seed : Tables n α) (k : Nat) :
    Worklist n α :=
  (p.next preds)^[k] (.start seed)

theorem course_succ (k : Nat) :
    p.course preds seed (k + 1) = p.next preds (p.course preds seed k) :=
  Function.iterate_succ_apply' (p.next preds) k (.start seed)

theorem drain_eq_iterate (fuel : Nat) : ∀ w : Worklist n α,
    (p.drain preds fuel w).tables = ((p.next preds)^[fuel] w).progress.tables ∧
      (p.drain preds fuel w).visits = ((p.next preds)^[fuel] w).progress.visits.toList := by
  induction fuel with
  | zero =>
    intro w
    rw [drain.eq_def]
    cases h_queue : w.queue <;> exact ⟨rfl, rfl⟩
  | succ fuel ih =>
    intro w
    rw [drain.eq_def, Function.iterate_succ_apply]
    cases h_queue : w.queue with
    | nil =>
      have h_next : p.next preds w = w := by simp only [next, h_queue]
      rw [h_next, Function.iterate_fixed h_next]
      exact ⟨rfl, rfl⟩
    | cons i rest =>
      cases h_step : p.step preds w i rest with
      | ok w' =>
        have h_next : p.next preds w = w' := by simp only [next, h_queue, h_step]
        simp only [h_next, h_step]
        exact ih w'
      | error e =>
        have h_next : p.next preds w = w := by simp only [next, h_queue, h_step]
        simp only [h_next, h_step, Function.iterate_fixed h_next]
        exact ⟨rfl, rfl⟩

theorem worklist_course (h_preds : p.predecessors = .ok preds) (fuel : Nat) :
    (p.worklist fuel seed).tables = (p.course preds seed fuel).progress.tables ∧
      (p.worklist fuel seed).visits = (p.course preds seed fuel).progress.visits.toList := by
  simp only [worklist, h_preds]
  exact drain_eq_iterate fuel (.start seed)

section Course

variable (h_range : p.InRange) (h_preds : ∀ i s : Fin n, i ∈ preds.get s ↔ (s : Nat) ∈ p.succs i)

include h_range h_preds

theorem consistent_course (k : Nat) : p.Consistent (p.course preds seed k) := by
  induction k with
  | zero => exact consistent_start seed
  | succ k ih =>
    rw [course_succ]
    cases h_queue : (p.course preds seed k).queue with
    | nil =>
      simp only [next, h_queue]
      exact ih
    | cons i rest =>
      obtain ⟨w', h_step, h', _⟩ := step_consistent h_range h_preds ih h_queue
      simp only [next, h_queue, h_step]
      exact h'

/-- What a visit makes of the worklist, where no node is due and where one is. -/
theorem course_cases (k : Nat) :
    ((p.course preds seed k).queue = [] ∧
        p.course preds seed (k + 1) = p.course preds seed k) ∨
      ∃ i rest, (p.course preds seed k).queue = i :: rest ∧
        p.step preds (p.course preds seed k) i rest = .ok (p.course preds seed (k + 1)) ∧
        (p.course preds seed (k + 1)).progress =
          ⟨p.refresh (p.course preds seed k).progress.tables i,
            (p.course preds seed k).progress.visits.push i⟩ := by
  rw [course_succ]
  cases h_queue : (p.course preds seed k).queue with
  | nil => exact .inl ⟨rfl, by simp only [next, h_queue]⟩
  | cons i rest =>
    obtain ⟨w', h_step, _, h_progress, _⟩ :=
      step_consistent h_range h_preds (consistent_course h_range h_preds k) h_queue
    have h_next : p.next preds (p.course preds seed k) = w' := by simp only [next, h_queue, h_step]
    exact .inr ⟨i, rest, rfl, by rw [h_next]; exact h_step, by rw [h_next]; exact h_progress⟩

theorem course_of_head {k : Nat} {i : Fin n}
    (h_head : (p.course preds seed k).queue.head? = some i) :
    (p.course preds seed (k + 1)).progress = ⟨p.refresh (p.course preds seed k).progress.tables i,
      (p.course preds seed k).progress.visits.push i⟩ := by
  rcases course_cases h_range h_preds k with ⟨h_none, _⟩ | ⟨i', rest, h_queue, _, h_progress⟩
  · rw [h_none] at h_head
    exact absurd h_head (Option.some_ne_none i).symm
  · rw [h_queue, List.head?_cons, Option.some.injEq] at h_head
    rw [h_progress, h_head]

/-- As long as a node is due, there has been a visit at every turn. -/
theorem length_visits_course (k : Nat) (h_due : (p.course preds seed k).queue ≠ []) :
    (p.course preds seed k).progress.visits.toList.length = k := by
  induction k with
  | zero => rfl
  | succ k ih =>
    rcases course_cases h_range h_preds k with ⟨h_none, h_same⟩ | ⟨i, rest, h_queue, _, h_progress⟩
    · rw [h_same] at h_due
      exact absurd h_none h_due
    · rw [h_progress, Array.toList_push, List.length_append, ih (by simp [h_queue])]
      rfl

theorem visits_course {fuel m : Nat}
    (h_le : m ≤ (p.course preds seed fuel).progress.visits.toList.length) :
    (p.course preds seed m).progress.visits.toList =
      (p.course preds seed fuel).progress.visits.toList.take m := by
  induction fuel with
  | zero =>
    obtain rfl : m = 0 := Nat.le_zero.mp h_le
    rfl
  | succ fuel ih =>
    rcases course_cases h_range h_preds fuel with ⟨_, h_same⟩ | ⟨i, rest, h_queue, _, h_progress⟩
    · rw [h_same] at h_le ⊢
      exact ih h_le
    · have h_length : (p.course preds seed fuel).progress.visits.toList.length = fuel :=
        length_visits_course h_range h_preds fuel (by simp [h_queue])
      have h_size : (p.course preds seed (fuel + 1)).progress.visits.toList.length = fuel + 1 := by
        rw [h_progress, Array.toList_push, List.length_append, h_length]
        rfl
      rcases (h_size ▸ h_le).eq_or_lt with rfl | h_lt
      · rw [List.take_of_length_le h_size.le]
      · have h_early : m ≤ (p.course preds seed fuel).progress.visits.toList.length :=
          h_length.symm ▸ Nat.le_of_lt_succ h_lt
        rw [h_progress, Array.toList_push, List.take_append_of_le_length h_early]
        exact ih h_early

/-- The node visited at a position is the one that was due first by then. -/
theorem head_course_of_visits {fuel k : Nat} {i : Fin n}
    (h_visit : (p.course preds seed fuel).progress.visits.toList[k]? = some i) :
    (p.course preds seed k).queue.head? = some i := by
  induction fuel with
  | zero => simp [course, Worklist.start] at h_visit
  | succ fuel ih =>
    rcases course_cases h_range h_preds fuel with ⟨_, h_same⟩ | ⟨i', rest, h_queue, _, h_progress⟩
    · rw [h_same] at h_visit
      exact ih h_visit
    · have h_length : (p.course preds seed fuel).progress.visits.toList.length = fuel :=
        length_visits_course h_range h_preds fuel (by simp [h_queue])
      rw [h_progress, Array.toList_push] at h_visit
      rcases Nat.lt_trichotomy k fuel with h_early | h_last | h_late
      · rw [List.getElem?_append_left (h_length.symm ▸ h_early)] at h_visit
        exact ih h_visit
      · subst h_last
        rw [List.getElem?_append_right h_length.le, h_length, Nat.sub_self] at h_visit
        rw [h_queue]
        exact h_visit
      · rw [List.getElem?_eq_none (by rw [List.length_append, h_length]; exact h_late)] at h_visit
        exact absurd h_visit (Option.some_ne_none i).symm

/-! ## Visits again -/

variable [PartialOrder α]

/-- Every node that is due and has been visited before reads a value that has risen since. -/
def Warranted (p : Problem n α) (preds : Vector (List (Fin n)) n) (seed : Tables n α) (k : Nat) :
    Prop :=
  ∀ j < k, ∀ i, (p.course preds seed j).queue.head? = some i → i ∈ (p.course preds seed k).queue →
    p.Raised (p.course preds seed j).progress.tables (p.course preds seed k).progress.tables i

variable (h_mono : p.IsMonotone) (h_seed : p.Climbs seed)

include h_mono h_seed

theorem climbs_course (k : Nat) : p.Climbs (p.course preds seed k).progress.tables := by
  induction k with
  | zero => exact h_seed
  | succ k ih =>
    rcases course_cases h_range h_preds k with ⟨_, h_same⟩ | ⟨i, _, _, _, h_progress⟩
    · rw [h_same]
      exact ih
    · rw [h_progress]
      exact ih.refresh h_mono i

theorem monotone_course : Monotone fun k => (p.course preds seed k).progress.tables := by
  refine monotone_nat_of_le_succ fun k => ?_
  rcases course_cases h_range h_preds k with ⟨_, h_same⟩ | ⟨i, _, _, _, h_progress⟩
  · rw [h_same]
  · rw [h_progress]
    exact (climbs_course h_range h_preds h_mono h_seed k).le_refresh i

theorem warranted_course (k : Nat) : p.Warranted preds seed k := by
  have h_le := monotone_course h_range h_preds h_mono h_seed
  induction k with
  | zero => exact fun j h_lt => absurd h_lt (Nat.not_lt_zero j)
  | succ k ih =>
    intro j h_lt i h_head h_due
    have h_consistent : p.Consistent (p.course preds seed k) := consistent_course h_range h_preds k
    rcases course_cases h_range h_preds k with ⟨h_none, h_same⟩ | ⟨i', rest, h_queue, h_step, h_progress⟩
    · rw [h_same, h_none] at h_due
      exact absurd h_due List.not_mem_nil
    · rcases (mem_queue_step h_range h_preds h_consistent.toTidy h_queue h_step).mp h_due with
        h_rest | ⟨h_holds, h_succ⟩
      · -- still due from before, so it is not the node that has just been taken off
        have h_new : i ≠ i' := by
          rintro rfl
          exact (List.nodup_cons.mp (h_queue ▸ h_consistent.nodup)).1 h_rest
        have h_earlier : j < k := by
          refine (Nat.le_of_lt_succ h_lt).lt_of_ne ?_
          rintro rfl
          rw [h_queue, List.head?_cons, Option.some.injEq] at h_head
          exact h_new h_head.symm
        have h_due_before : i ∈ (p.course preds seed k).queue :=
          h_queue ▸ List.mem_cons_of_mem i' h_rest
        exact (ih j h_earlier i h_head h_due_before).mono le_rfl (h_le (Nat.le_succ k))
      · have h_raised := (climbs_course h_range h_preds h_mono h_seed k).raised_refresh h_holds h_succ
        rw [h_progress]
        exact h_raised.mono (h_le (Nat.le_of_lt_succ h_lt)) le_rfl

/-- A node that reads what it read at a visit is at rest. -/
theorem holds_course {j k : Nat} (h_lt : j < k) {i : Fin n}
    (h_head : (p.course preds seed j).queue.head? = some i)
    (h_same : ∀ s : Fin n, (s : Nat) ∈ p.succs i →
      (p.course preds seed k).progress.tables.ins.get s =
        (p.course preds seed j).progress.tables.ins.get s) :
    p.Holds (p.course preds seed k).progress.tables i := by
  have h_le := monotone_course h_range h_preds h_mono h_seed
  induction k, h_lt using Nat.le_induction with
  | base =>
    rw [course_of_head h_range h_preds h_head] at h_same ⊢
    exact holds_refresh_of_ins_eq h_same fun h_ne => absurd rfl h_ne
  | succ k h_lt ih =>
    -- values that only rise and end where they began have not moved in between
    have h_between : ∀ s : Fin n, (s : Nat) ∈ p.succs i →
        (p.course preds seed k).progress.tables.ins.get s =
          (p.course preds seed j).progress.tables.ins.get s := fun s hs =>
      le_antisymm ((h_le (Nat.le_succ k) s).1.trans (h_same s hs).le)
        (h_le (Nat.le_of_succ_le h_lt) s).1
    have h_holds := ih h_between
    rcases course_cases h_range h_preds k with ⟨_, h_stop⟩ | ⟨i', rest, _, _, h_progress⟩
    · rw [h_stop]
      exact h_holds
    · rw [h_progress] at h_same ⊢
      exact holds_refresh_of_ins_eq (fun s hs => (h_same s hs).trans (h_between s hs).symm)
        fun _ => h_holds

end Course

theorem worklist_comes_back [PartialOrder α] (h_range : p.InRange) (h_mono : p.IsMonotone)
    (h_bottom : ∀ a, p.bottom ≤ a) {fuel j k : Nat} (h_lt : j < k) {i : Fin n}
    (h_before : (p.worklist fuel (.const n p.bottom)).visits[j]? = some i)
    (h_again : (p.worklist fuel (.const n p.bottom)).visits[k]? = some i) :
    (∀ m ≤ k + 1, (p.worklist m (.const n p.bottom)).visits =
      (p.worklist fuel (.const n p.bottom)).visits.take m) ∧
    ((∃ s : Fin n, (s : Nat) ∈ p.succs i ∧
        (p.worklist j (.const n p.bottom)).tables.ins.get s <
          (p.worklist k (.const n p.bottom)).tables.ins.get s) ∨
      (∃ s : Fin n, (s : Nat) ∈ p.succs i ∧
        (p.worklist j (.const n p.bottom)).tables.outs.get s <
          (p.worklist k (.const n p.bottom)).tables.outs.get s) ∧
      (p.worklist (k + 1) (.const n p.bottom)).tables = (p.worklist k (.const n p.bottom)).tables) := by
  obtain ⟨preds, h_eq, h_preds⟩ := predecessors_eq h_range
  have h_seed : p.Climbs (.const n p.bottom) := climbs_const_bottom h_bottom
  have h_le := monotone_course h_range h_preds h_mono h_seed
  simp only [worklist_course h_eq] at h_before h_again ⊢
  have h_head := head_course_of_visits h_range h_preds h_before
  have h_head_again := head_course_of_visits h_range h_preds h_again
  have h_visits := (List.getElem?_eq_some_iff.mp h_again).1
  refine ⟨fun m hm => visits_course h_range h_preds (hm.trans h_visits), ?_⟩
  by_cases h_ins : ∃ s : Fin n, (s : Nat) ∈ p.succs i ∧
      (p.course preds (.const n p.bottom) j).progress.tables.ins.get s <
        (p.course preds (.const n p.bottom) k).progress.tables.ins.get s
  · exact .inl h_ins
  · -- what has risen is not read, so the node is at rest
    obtain ⟨s, h_succ, h_rise⟩ := warranted_course h_range h_preds h_mono h_seed k j h_lt i h_head
      (List.mem_of_head? h_head_again)
    have h_outs := h_rise.resolve_left fun h_lt => h_ins ⟨s, h_succ, h_lt⟩
    have h_rest : p.Holds (p.course preds (.const n p.bottom) k).progress.tables i := by
      refine holds_course h_range h_preds h_mono h_seed h_lt h_head fun s hs => ?_
      exact ((h_le h_lt.le s).1.eq_of_not_lt fun h_lt => h_ins ⟨s, hs, h_lt⟩).symm
    refine .inr ⟨⟨s, h_succ, h_outs⟩, ?_⟩
    rw [course_of_head h_range h_preds h_head_again]
    exact (refresh_eq_self_iff p _ i).mpr h_rest

/-! ## Problems over sets -/

section Sets

variable {succs : Fin n → List Nat} {β σ : Type} [Membership β σ] [EmptyCollection σ] [Union σ]
  [SDiff σ] [PartialOrder σ] [SetAlgebra β σ] [DecidableEq σ] {gen kill : Fin n → σ}

include β

/-- When the worklist comes back to a node, the set before one of its successors has grown since, or
else the set after one of them has and the visit changes nothing.  What the sets are at a visit is what
the run ends with that has no fuel for it. -/
theorem worklist_revisits (h_range : (genKill succs gen kill).InRange) {fuel j k : Nat} (h_lt : j < k)
    {i : Fin n}
    (h_before : ((genKill succs gen kill).worklist fuel (.const n ∅)).visits[j]? = some i)
    (h_again : ((genKill succs gen kill).worklist fuel (.const n ∅)).visits[k]? = some i) :
    (∀ m ≤ k + 1, ((genKill succs gen kill).worklist m (.const n ∅)).visits =
      ((genKill succs gen kill).worklist fuel (.const n ∅)).visits.take m) ∧
    ((∃ s : Fin n, (s : Nat) ∈ succs i ∧
        ((genKill succs gen kill).worklist j (.const n ∅)).tables.ins.get s <
          ((genKill succs gen kill).worklist k (.const n ∅)).tables.ins.get s) ∨
      (∃ s : Fin n, (s : Nat) ∈ succs i ∧
        ((genKill succs gen kill).worklist j (.const n ∅)).tables.outs.get s <
          ((genKill succs gen kill).worklist k (.const n ∅)).tables.outs.get s) ∧
      ((genKill succs gen kill).worklist (k + 1) (.const n ∅)).tables =
        ((genKill succs gen kill).worklist k (.const n ∅)).tables) :=
  worklist_comes_back h_range isMonotone_genKill SetAlgebra.empty_le h_lt h_before h_again

end Sets

/-- A ring of three nodes, of which the first kills the number that the second generates. -/
def shielded : Problem 3 BitSet :=
  genKill (fun i => [(i.val + 1) % 3]) (fun i => if i.val = 1 then BitSet.insert ∅ 1 else ∅)
    fun i => if i.val = 0 then BitSet.insert ∅ 1 else ∅

theorem worklist_revisits_shielded :
    shielded.InRange ∧ (shielded.worklist 9 (.const 3 ∅)).visits[0]? = some 2 ∧
      (shielded.worklist 9 (.const 3 ∅)).visits[3]? = some 2 ∧
      ((∃ s : Fin 3, (s : Nat) ∈ shielded.succs 2 ∧
          (shielded.worklist 0 (.const 3 ∅)).tables.ins.get s <
            (shielded.worklist 3 (.const 3 ∅)).tables.ins.get s) ∨
        (∃ s : Fin 3, (s : Nat) ∈ shielded.succs 2 ∧
          (shielded.worklist 0 (.const 3 ∅)).tables.outs.get s <
            (shielded.worklist 3 (.const 3 ∅)).tables.outs.get s) ∧
        (shielded.worklist 4 (.const 3 ∅)).tables = (shielded.worklist 3 (.const 3 ∅)).tables) := by
  have h_range : shielded.InRange := by unfold InRange; decide
  have h_before : (shielded.worklist 9 (.const 3 ∅)).visits[0]? = some 2 := by decide
  have h_again : (shielded.worklist 9 (.const 3 ∅)).visits[3]? = some 2 := by decide
  exact ⟨h_range, h_before, h_again, (worklist_revisits h_range (by decide) h_before h_again).2⟩

/-- The last node is visited a second time, and the set before its one successor is what it was: the
first node kills what has come into the set after it. -/
theorem worklist_shielded :
    (shielded.worklist 9 (.const 3 ∅)).visits = [2, 1, 0, 2] ∧
      ∀ s : Fin 3, (s : Nat) ∈ shielded.succs 2 →
        (shielded.worklist 3 (.const 3 ∅)).tables.ins.get s =
          (shielded.worklist 0 (.const 3 ∅)).tables.ins.get s := by
  decide

end LiveRange.Dataflow.Problem
