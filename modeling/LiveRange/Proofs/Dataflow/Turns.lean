import LiveRange.Proofs.Dataflow.Fixpoint
import LiveRange.Proofs.Dataflow.Revisits

/-! # The queue at every turn

A run of the worklist is a sequence of turns.  At each one the first node that is due is taken off the
queue and visited (`Problem.turn?`), until none is due.  Whatever the meet and the transfers do to
values, at the beginning of every turn the queue is `Problem.Orderly`:

* no node stands in it twice, so it is no longer than there are nodes, and the flags name those that
  stand in it;
* a node that does not stand in it has had its turn;
* a node stands in it if a value that it read at its last turn is not what it was then.

For the last part, a node that becomes due stays due until its turn (`exists_turn_of_due`), and while it
is not due no value that it reads is changed (`ins_course_of_not_due`). -/

namespace LiveRange.Dataflow.Problem

universe u

variable {n : Nat} {α : Type u} [DecidableEq α] {p : Problem n α}
  {preds : Vector (List (Fin n)) n} {seed : Tables n α} {i s : Fin n} {j k : Nat}

/-! ## Turns -/

/-- The node that is visited at a turn, if one is due. -/
def turn? (p : Problem n α) (preds : Vector (List (Fin n)) n) (seed : Tables n α) (k : Nat) :
    Option (Fin n) :=
  (p.course preds seed k).queue.head?

/-- Before turn `k` the node had its last turn at `j`. -/
structure LastTurn (p : Problem n α) (preds : Vector (List (Fin n)) n) (seed : Tables n α) (k j : Nat)
    (i : Fin n) : Prop where
  before : j < k
  here : p.turn? preds seed j = some i
  last : ∀ l, j < l → l < k → p.turn? preds seed l ≠ some i

/-- The value before a successor of the node is not what the node read at its last turn. -/
def Outdated (p : Problem n α) (preds : Vector (List (Fin n)) n) (seed : Tables n α) (k : Nat)
    (i : Fin n) : Prop :=
  ∃ j, p.LastTurn preds seed k j i ∧ ∃ s : Fin n, (s : Nat) ∈ p.succs i ∧
    (p.course preds seed k).progress.tables.ins.get s ≠
      (p.course preds seed j).progress.tables.ins.get s

/-- What holds of the queue at the beginning of a turn. -/
structure Orderly (p : Problem n α) (preds : Vector (List (Fin n)) n) (seed : Tables n α) (k : Nat) :
    Prop extends (p.course preds seed k).Tidy where
  length_le : (p.course preds seed k).queue.length ≤ n
  due_or_visited : ∀ i, i ∈ (p.course preds seed k).queue ∨ ∃ j < k, p.turn? preds seed j = some i
  due_of_outdated : ∀ i, p.Outdated preds seed k i → i ∈ (p.course preds seed k).queue

section Course

variable (h_range : p.InRange) (h_preds : ∀ i s : Fin n, i ∈ preds.get s ↔ (s : Nat) ∈ p.succs i)

include h_range h_preds

theorem tidy_course (seed : Tables n α) (k : Nat) : (p.course preds seed k).Tidy :=
  (consistent_course h_range h_preds k).toTidy

theorem drain_start_eq (k fuel : Nat) :
    p.drain preds (k + fuel) (.start seed) = p.drain preds fuel (p.course preds seed k) := by
  induction k generalizing fuel with
  | zero =>
    rw [Nat.zero_add]
    rfl
  | succ k ih =>
    rw [Nat.add_right_comm, Nat.add_assoc, ih (fuel + 1), drain.eq_def]
    rcases course_cases h_range h_preds k with ⟨h_none, h_same⟩ | ⟨i, rest, h_queue, h_step, _⟩
    · rw [h_same, drain.eq_def]
      simp only [h_none]
    · simp only [h_queue, h_step]

theorem visits_course_eq (k : Nat) : (p.course preds seed k).progress.visits.toList =
    (List.range k).filterMap (p.turn? preds seed) := by
  induction k with
  | zero => rfl
  | succ k ih =>
    rw [List.range_succ, List.filterMap_append, ← ih]
    rcases course_cases h_range h_preds k with ⟨h_none, h_same⟩ | ⟨i, rest, h_queue, _, h_progress⟩
    · rw [h_same]
      simp [turn?, h_none]
    · rw [h_progress]
      simp [turn?, h_queue]

/-! ## Nodes that are due -/

theorem due_succ_of_due (h_due : i ∈ (p.course preds seed k).queue) (h_turn : p.turn? preds seed k ≠ some i) :
    i ∈ (p.course preds seed (k + 1)).queue := by
  rcases course_cases h_range h_preds k with ⟨_, h_same⟩ | ⟨i', rest, h_queue, h_step, _⟩
  · rwa [h_same]
  · have h_tidy := tidy_course h_range h_preds seed k
    refine (mem_queue_step h_range h_preds h_tidy h_queue h_step).mpr (.inl ?_)
    rw [h_queue, List.mem_cons] at h_due
    rw [turn?, h_queue, List.head?_cons, ne_eq, Option.some.injEq, eq_comm] at h_turn
    exact h_due.resolve_left h_turn

/-- A node that is due stays due until its turn. -/
theorem exists_turn_of_due (h_le : j ≤ k) (h_due : i ∈ (p.course preds seed j).queue)
    (h_done : i ∉ (p.course preds seed k).queue) : ∃ l, j ≤ l ∧ l < k ∧ p.turn? preds seed l = some i := by
  induction k, h_le using Nat.le_induction with
  | base => exact absurd h_due h_done
  | succ k h_le ih =>
    by_cases h_turn : p.turn? preds seed k = some i
    · exact ⟨k, h_le, Nat.lt_succ_self k, h_turn⟩
    · obtain ⟨l, h_from, h_lt, h_here⟩ := ih fun h_still =>
        h_done (due_succ_of_due h_range h_preds h_still h_turn)
      exact ⟨l, h_from, Nat.lt_succ_of_lt h_lt, h_here⟩

/-- A turn after which a node is not due has changed nothing that the node reads. -/
theorem ins_course_succ (h_done : i ∉ (p.course preds seed (k + 1)).queue) (h_succ : (s : Nat) ∈ p.succs i) :
    (p.course preds seed (k + 1)).progress.tables.ins.get s =
      (p.course preds seed k).progress.tables.ins.get s := by
  rcases course_cases h_range h_preds k with ⟨_, h_same⟩ | ⟨i', rest, h_queue, h_step, h_progress⟩
  · rw [h_same]
  · rw [h_progress]
    by_cases h_visited : s = i'
    · -- the node reads the visited one, so it would be due if the visit had changed a value
      subst h_visited
      have h_tidy := tidy_course h_range h_preds seed k
      have h_holds : p.Holds (p.course preds seed k).progress.tables s := by
        by_contra h_change
        exact h_done ((mem_queue_step h_range h_preds h_tidy h_queue h_step).mpr
          (.inr ⟨h_change, h_succ⟩))
      rw [(refresh_eq_self_iff p _ s).mpr h_holds]
    · exact refresh_ins_of_ne p _ h_visited

theorem ins_course_of_not_due (h_le : j ≤ k)
    (h_idle : ∀ l, j < l → l ≤ k → i ∉ (p.course preds seed l).queue) (h_succ : (s : Nat) ∈ p.succs i) :
    (p.course preds seed k).progress.tables.ins.get s =
      (p.course preds seed j).progress.tables.ins.get s := by
  induction k, h_le using Nat.le_induction with
  | base => rfl
  | succ k h_le ih =>
    rw [ins_course_succ h_range h_preds (h_idle (k + 1) (Nat.lt_succ_of_le h_le) le_rfl) h_succ]
    exact ih fun l h_from h_to => h_idle l h_from (Nat.le_succ_of_le h_to)

theorem due_of_outdated (h : p.Outdated preds seed k i) : i ∈ (p.course preds seed k).queue := by
  obtain ⟨j, h_last, s, h_succ, h_ne⟩ := h
  by_contra h_done
  -- had it become due since its last turn, there would have been another turn
  refine h_ne (ins_course_of_not_due h_range h_preds h_last.before.le (fun l h_from h_to h_due => ?_) h_succ)
  obtain ⟨m, h_after, h_lt, h_turn⟩ := exists_turn_of_due h_range h_preds h_to h_due h_done
  exact h_last.last m (h_from.trans_le h_after) h_lt h_turn

theorem orderly_course (k : Nat) : p.Orderly preds seed k := by
  have h_tidy := tidy_course h_range h_preds seed k
  refine ⟨h_tidy, h_tidy.length_le, fun i => ?_, fun i => due_of_outdated h_range h_preds⟩
  by_cases h_due : i ∈ (p.course preds seed k).queue
  · exact .inl h_due
  · -- every node is due at first
    have h_first : i ∈ (p.course preds seed 0).queue := mem_backward i
    obtain ⟨j, _, h_lt, h_turn⟩ := exists_turn_of_due h_range h_preds (Nat.zero_le k) h_first h_due
    exact .inr ⟨j, h_lt, h_turn⟩

end Course

/-- Where every successor is a node, the queue of the worklist is orderly at the beginning of every
turn.  The run goes on from there with the fuel that is left, and its visits are the turns. -/
theorem worklist_orderly (h_range : p.InRange) (seed : Tables n α) :
    ∃ preds, p.predecessors = .ok preds ∧ ∀ k,
      (∀ fuel, p.worklist (k + fuel) seed = p.drain preds fuel (p.course preds seed k)) ∧
      (p.worklist k seed).visits = (List.range k).filterMap (p.turn? preds seed) ∧
      p.Orderly preds seed k := by
  obtain ⟨preds, h_eq, h_preds⟩ := predecessors_eq h_range
  refine ⟨preds, h_eq, fun k => ⟨fun fuel => ?_, ?_, orderly_course h_range h_preds k⟩⟩
  · simp only [worklist, h_eq]
    exact drain_start_eq h_range h_preds k fuel
  · rw [(worklist_course h_eq k).2, visits_course_eq h_range h_preds]

theorem worklist_orderly_differences :
    differences.InRange ∧ ∃ preds, differences.predecessors = .ok preds ∧ ∀ k,
      (∀ fuel, differences.worklist (k + fuel) (.const 3 9) =
        differences.drain preds fuel (differences.course preds (.const 3 9) k)) ∧
      (differences.worklist k (.const 3 9)).visits =
        (List.range k).filterMap (differences.turn? preds (.const 3 9)) ∧
      differences.Orderly preds (.const 3 9) k := by
  have h_range : differences.InRange := by unfold InRange; decide
  exact ⟨h_range, worklist_orderly h_range (.const 3 9)⟩

end LiveRange.Dataflow.Problem
