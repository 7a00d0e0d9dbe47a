import Mathlib.Algebra.BigOperators.Group.Finset.Sigma
import Mathlib.Algebra.BigOperators.Ring.Finset
import Mathlib.Algebra.Order.BigOperators.Group.Finset
import LiveRange.Proofs.Dataflow.GenKill

/-! # Runs on which values only rise

Tables climb when no value lies above what the equations make of them (`Problem.Climbs`).  Over
monotone equations a visit then raises the values of its node or keeps them, and the tables climb
still.  From `bottom` every run climbs.

What a run of the worklist may cost is settled by how much it has left to raise.  Let `room` count how
often a value can still rise.  After the first visit to a node a change means that the value after
the node has risen, for the value before it follows from that one.  So a node changes at most once more
than its value after has room, and each change makes due the nodes that read it, each at most once
(`Problem.workLeft`, `drain_of_climbs`). -/

namespace LiveRange.Dataflow

universe u

variable {n : Nat} {α : Type u}

/-- Tables in the order of their rows. -/
instance [Preorder α] : Preorder (Tables n α) where
  le t u := ∀ i, t.ins.get i ≤ u.ins.get i ∧ t.outs.get i ≤ u.outs.get i
  le_refl _ _ := ⟨le_rfl, le_rfl⟩
  le_trans _ _ _ h h' i := ⟨(h i).1.trans (h' i).1, (h i).2.trans (h' i).2⟩

namespace Problem

/-! ## Climbing tables -/

section Order

variable [Preorder α] {p : Problem n α} {t : Tables n α}

/-- No value lies above what the equations make of the tables. -/
structure Climbs (p : Problem n α) (t : Tables n α) : Prop where
  ins : ∀ i, t.ins.get i ≤ p.advance t.ins.get i
  outs : ∀ i, t.outs.get i ≤ p.gather t.ins.get i

theorem climbs_const_bottom (h_bottom : ∀ a, p.bottom ≤ a) : p.Climbs (.const n p.bottom) where
  ins i := (Vector.getElem_replicate i.isLt).le.trans (h_bottom _)
  outs i := (Vector.getElem_replicate i.isLt).le.trans (h_bottom _)

theorem Climbs.le_refresh (h : p.Climbs t) (i : Fin n) : t ≤ p.refresh t i := by
  intro j
  by_cases hj : j = i
  · subst hj
    rw [refresh_ins_self, refresh_outs_self]
    exact ⟨h.ins j, h.outs j⟩
  · rw [refresh_ins_of_ne p t hj, refresh_outs_of_ne p t hj]
    exact ⟨le_rfl, le_rfl⟩

theorem Climbs.refresh (h : p.Climbs t) (h_mono : p.IsMonotone) (i : Fin n) :
    p.Climbs (p.refresh t i) := by
  have h_ins : ∀ s, t.ins.get s ≤ (p.refresh t i).ins.get s := fun s => (h.le_refresh i s).1
  constructor
  · intro j
    refine le_trans ?_ (advance_le_advance h_mono h_ins j)
    by_cases hj : j = i
    · subst hj
      rw [refresh_ins_self]
      exact le_rfl
    · rw [refresh_ins_of_ne p t hj]
      exact h.ins j
  · intro j
    refine le_trans ?_ (gather_le_gather h_mono h_ins j)
    by_cases hj : j = i
    · subst hj
      rw [refresh_outs_self]
    · rw [refresh_outs_of_ne p t hj]
      exact h.outs j

theorem refresh_ins_le (h_mono : p.IsMonotone) {high : Fin n → α} (h_falls : ∀ i, p.advance high i ≤ high i)
    (h_le : ∀ i, t.ins.get i ≤ high i) (i : Fin n) : ∀ j, (p.refresh t i).ins.get j ≤ high j := by
  intro j
  by_cases hj : j = i
  · subst hj
    rw [refresh_ins_self]
    exact (advance_le_advance h_mono h_le j).trans (h_falls j)
  · rw [refresh_ins_of_ne p t hj]
    exact h_le j

end Order

/-! ## Edges -/

/-- The nodes that read a node. -/
def readers (p : Problem n α) (i : Fin n) : Finset (Fin n) :=
  Finset.univ.filter fun j => (i : Nat) ∈ p.succs j

@[simp] theorem mem_readers {p : Problem n α} {i j : Fin n} : j ∈ p.readers i ↔ (i : Nat) ∈ p.succs j := by
  simp [readers]

/-- Each edge is counted at the node it leads to. -/
theorem card_edges {p : Problem n α} (h_range : p.InRange) :
    p.edges.toFinset.card = ∑ i, (p.readers i).card := by
  rw [← Finset.card_sigma]
  refine (Finset.card_nbij (fun e => (e.2, (e.1 : Nat))) ?_ ?_ ?_).symm
  · intro e he
    simpa [mem_edges] using he
  · rintro ⟨i, j⟩ _ ⟨i', j'⟩ _ h_eq
    simp only [Prod.mk.injEq, Fin.val_inj] at h_eq
    rw [h_eq.1, h_eq.2]
  · rintro ⟨j, s⟩ he
    have h_succ : s ∈ p.succs j := by simpa [mem_edges] using he
    exact ⟨⟨⟨s, h_range j s h_succ⟩, j⟩, by simpa using h_succ, rfl⟩

theorem card_edges_le {p : Problem n α} (h_range : p.InRange) : p.edges.toFinset.card ≤ n * n := by
  calc p.edges.toFinset.card
      = ∑ i, (p.readers i).card := card_edges h_range
    _ ≤ ∑ _i : Fin n, n := Finset.sum_le_sum fun i _ => card_finset_fin_le _
    _ = n * n := by simp

/-! ## Work that is left -/

section Work

variable {p : Problem n α} {room : α → Nat} {t : Tables n α}

variable [DecidableEq α]

/-- A bound for the number of visits to a node that change one of its values. -/
def changesLeft (p : Problem n α) (room : α → Nat) (t : Tables n α) (i : Fin n) : Nat :=
  room (t.outs.get i) + if t.ins.get i = p.transfer i (t.outs.get i) then 0 else 1

/-- A bound for the number of times that a node is made due. -/
def workLeft (p : Problem n α) (room : α → Nat) (t : Tables n α) : Nat :=
  ∑ i, (p.readers i).card * p.changesLeft room t i

theorem changesLeft_le (p : Problem n α) (room : α → Nat) (t : Tables n α) (i : Fin n) :
    p.changesLeft room t i ≤ room (t.outs.get i) + 1 := by
  unfold changesLeft
  split <;> omega

theorem changesLeft_refresh_of_ne {i j : Fin n} (h : j ≠ i) :
    p.changesLeft room (p.refresh t i) j = p.changesLeft room t j := by
  rw [changesLeft, changesLeft, refresh_ins_of_ne p t h, refresh_outs_of_ne p t h]

/-- A visit that changes a value uses up one of the changes left. -/
theorem changesLeft_refresh_lt [PartialOrder α] (h : p.Climbs t) {i : Fin n} (h_holds : ¬ p.Holds t i)
    (h_room : ∀ a, a < p.gather t.ins.get i → room (p.gather t.ins.get i) < room a) :
    p.changesLeft room (p.refresh t i) i < p.changesLeft room t i := by
  have h_after : p.changesLeft room (p.refresh t i) i = room (p.gather t.ins.get i) := by
    simp [changesLeft]
  rw [h_after, changesLeft]
  rcases (h.outs i).eq_or_lt with h_same | h_lt
  · -- the value after the node stays, so the one before it did not follow from it
    have h_stale : t.ins.get i ≠ p.transfer i (t.outs.get i) := fun h_ins => h_holds ⟨h_same, h_ins⟩
    rw [if_neg h_stale, h_same]
    exact Nat.lt_succ_self _
  · exact Nat.lt_add_right _ (h_room _ h_lt)

theorem workLeft_refresh [PartialOrder α] (h : p.Climbs t) {i : Fin n} (h_holds : ¬ p.Holds t i)
    (h_room : ∀ a, a < p.gather t.ins.get i → room (p.gather t.ins.get i) < room a) :
    p.workLeft room (p.refresh t i) + (p.readers i).card ≤ p.workLeft room t := by
  have h_others : ∀ j ∈ Finset.univ.erase i,
      (p.readers j).card * p.changesLeft room (p.refresh t i) j =
        (p.readers j).card * p.changesLeft room t j := by
    intro j hj
    rw [changesLeft_refresh_of_ne (Finset.ne_of_mem_erase hj)]
  have h_self : (p.readers i).card * p.changesLeft room (p.refresh t i) i + (p.readers i).card ≤
      (p.readers i).card * p.changesLeft room t i := by
    rw [← Nat.mul_succ]
    exact Nat.mul_le_mul_left _ (changesLeft_refresh_lt h h_holds h_room)
  rw [workLeft, workLeft, ← Finset.add_sum_erase _ _ (Finset.mem_univ i),
    ← Finset.add_sum_erase _ _ (Finset.mem_univ i), Finset.sum_congr rfl h_others]
  omega

theorem workLeft_le {c : Nat} (h_range : p.InRange) (h_room : ∀ i, room (t.outs.get i) ≤ c) :
    p.workLeft room t ≤ (c + 1) * p.edges.toFinset.card := by
  rw [card_edges h_range, Finset.mul_sum, workLeft]
  refine Finset.sum_le_sum fun i _ => ?_
  rw [Nat.mul_comm]
  exact Nat.mul_le_mul_right _ ((changesLeft_le p room t i).trans (Nat.succ_le_succ (h_room i)))

/-! ## The worklist -/

variable {preds : Vector (List (Fin n)) n}

theorem length_queue_step (h_range : p.InRange)
    (h_preds : ∀ i s : Fin n, i ∈ preds.get s ↔ (s : Nat) ∈ p.succs i) {w w' : Worklist n α}
    (h : p.Consistent w) {i : Fin n} {rest : List (Fin n)} (h_queue : w.queue = i :: rest)
    (h_step : p.step preds w i rest = .ok w') :
    w'.queue.length ≤ rest.length + (p.readers i).card := by
  obtain ⟨w₁, h_step₁, h₁, _, ⟨added, h_added⟩, _⟩ := step_consistent h_range h_preds h h_queue
  rw [h_step, Except.ok.injEq] at h_step₁
  subst h_step₁
  have h_nodup : (rest ++ added).Nodup := h_added ▸ h₁.nodup
  have h_new : added.toFinset ⊆ p.readers i := by
    intro j hj
    rw [List.mem_toFinset] at hj
    have h_mem : j ∈ w'.queue := h_added ▸ List.mem_append_right rest hj
    rcases (mem_queue_step h_range h_preds h.toTidy h_queue h_step).mp h_mem with h_rest | ⟨_, h_succ⟩
    · exact absurd hj (List.disjoint_of_nodup_append h_nodup h_rest)
    · exact mem_readers.mpr h_succ
  rw [← h_added, List.length_append,
    ← List.toFinset_card_of_nodup (List.Nodup.of_append_right h_nodup)]
  exact Nat.add_le_add_left (Finset.card_le_card h_new) _

theorem drain_of_climbs [PartialOrder α] (h_range : p.InRange) (h_mono : p.IsMonotone)
    (h_preds : ∀ i s : Fin n, i ∈ preds.get s ↔ (s : Nat) ∈ p.succs i) {high : Fin n → α}
    (h_falls : ∀ i, p.advance high i ≤ high i)
    (h_room : ∀ i a b, a < b → b ≤ p.gather high i → room b < room a) :
    ∀ (fuel : Nat) (w : Worklist n α), p.Consistent w → p.Climbs w.progress.tables →
      (∀ i, w.progress.tables.ins.get i ≤ high i) →
      w.queue.length + p.workLeft room w.progress.tables ≤ fuel →
      (p.drain preds fuel w).status = .settled ∧
        (p.drain preds fuel w).steps ≤
          w.progress.visits.size + (w.queue.length + p.workLeft room w.progress.tables) := by
  intro fuel
  induction fuel with
  | zero =>
    intro w h h_climbs h_high h_fuel
    have h_queue : w.queue = [] := List.length_eq_zero_iff.mp (by omega)
    rw [drain.eq_def]
    simp only [h_queue]
    exact ⟨rfl, Nat.le_add_right _ _⟩
  | succ fuel ih =>
    intro w h h_climbs h_high h_fuel
    rw [drain.eq_def]
    cases h_queue : w.queue with
    | nil => exact ⟨rfl, Nat.le_add_right _ _⟩
    | cons i rest =>
      obtain ⟨w', h_step, h', h_progress, _, h_rest⟩ := step_consistent h_range h_preds h h_queue
      have h_tables : w'.progress.tables = p.refresh w.progress.tables i := by rw [h_progress]
      have h_visits : w'.progress.visits.size = w.progress.visits.size + 1 := by
        rw [h_progress, Array.size_push]
      -- what the visit adds to the queue it takes off the work that is left
      have h_left : w'.queue.length + p.workLeft room w'.progress.tables ≤
          rest.length + p.workLeft room w.progress.tables := by
        rw [h_tables]
        by_cases h_holds : p.Holds w.progress.tables i
        · rw [h_rest h_holds, (refresh_eq_self_iff p _ i).mpr h_holds]
        · have h_length := length_queue_step h_range h_preds h h_queue h_step
          have h_work := workLeft_refresh h_climbs h_holds fun a h_lt =>
            h_room i a _ h_lt (gather_le_gather h_mono h_high i)
          omega
      rw [h_queue, List.length_cons] at h_fuel
      obtain ⟨h_status, h_steps⟩ := ih w' h' (h_tables ▸ h_climbs.refresh h_mono i)
        (h_tables ▸ refresh_ins_le h_mono h_falls h_high i) (by omega)
      simp only [h_step, List.length_cons]
      exact ⟨h_status, by omega⟩

/-- From `bottom` the worklist settles within one visit to each node and, for each edge, one visit
more than `bottom` has room. -/
theorem worklist_of_room [PartialOrder α] (h_range : p.InRange) (h_mono : p.IsMonotone)
    (h_bottom : ∀ a, p.bottom ≤ a) {high : Fin n → α} (h_falls : ∀ i, p.advance high i ≤ high i)
    (h_room : ∀ i a b, a < b → b ≤ p.gather high i → room b < room a) {fuel : Nat}
    (h_fuel : n + (room p.bottom + 1) * p.edges.toFinset.card ≤ fuel) :
    (p.worklist fuel (.const n p.bottom)).status = .settled ∧
      (p.worklist fuel (.const n p.bottom)).steps ≤
        n + (room p.bottom + 1) * p.edges.toFinset.card := by
  obtain ⟨preds, h_eq, h_preds⟩ := predecessors_eq h_range
  have h_length : (Worklist.start (Tables.const n p.bottom)).queue.length = n := by
    simp [Worklist.start, backward]
  have h_work : p.workLeft room (.const n p.bottom) ≤ (room p.bottom + 1) * p.edges.toFinset.card :=
    workLeft_le h_range fun i => (congrArg room (Vector.getElem_replicate i.isLt)).le
  have h_high : ∀ i, (Tables.const n p.bottom).ins.get i ≤ high i := fun i =>
    (Vector.getElem_replicate i.isLt).le.trans (h_bottom _)
  obtain ⟨h_status, h_steps⟩ := drain_of_climbs h_range h_mono h_preds h_falls h_room fuel
    (.start (.const n p.bottom)) (consistent_start _) (climbs_const_bottom h_bottom) h_high (by
      rw [h_length]
      exact (Nat.add_le_add_left h_work n).trans h_fuel)
  simp only [worklist, h_eq]
  refine ⟨h_status, h_steps.trans ?_⟩
  rw [h_length]
  exact (Nat.zero_add _).le.trans (Nat.add_le_add_left h_work n)

end Work

end Problem

end LiveRange.Dataflow
