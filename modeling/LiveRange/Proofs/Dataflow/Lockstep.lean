import Mathlib.Logic.Relator
import LiveRange.Proofs.Dataflow.Passes
import LiveRange.Proofs.Dataflow.Queue

/-! # Problems in lockstep

The same values may be represented in two ways, such as sets by lists and by bits.  A problem
`Mirrors` another when they have the same edges, and `bottom`, meet and transfers give values that
stand for one another wherever they are given such values.

If every value stands for one value of the other kind at most, both ways, then a solver cannot tell
the two problems apart: a visit changes a value in the one exactly where it does so in the other.  So
the runs go in lockstep to the same end (`Mirrors.solve`), whatever tables they start from that stand
for one another. -/

namespace LiveRange.Dataflow

universe u v

variable {n : Nat} {α : Type u} {β : Type v} {R : α → β → Prop}

/-! ## What stands for one another -/

/-- Tables of which the values stand for one another row by row. -/
def Tables.Mirrors (R : α → β → Prop) (t : Tables n α) (u : Tables n β) : Prop :=
  ∀ i, R (t.ins.get i) (u.ins.get i) ∧ R (t.outs.get i) (u.outs.get i)

/-- Runs with the same visits and the same end. -/
structure Run.Mirrors (R : α → β → Prop) (r : Run n α) (r' : Run n β) : Prop where
  tables : r.tables.Mirrors R r'.tables
  visits : r.visits = r'.visits
  steps : r.steps = r'.steps
  status : r.status = r'.status

structure Progress.Mirrors (R : α → β → Prop) (x : Progress n α) (y : Progress n β) : Prop where
  tables : x.tables.Mirrors R y.tables
  visits : x.visits = y.visits

structure Worklist.Mirrors (R : α → β → Prop) (w : Worklist n α) (w' : Worklist n β) : Prop where
  progress : w.progress.Mirrors R w'.progress
  queue : w.queue = w'.queue
  queued : w.queued = w'.queued

/-- A problem on the same edges, of which `bottom`, meet and transfers go by what stands for one
another. -/
structure Problem.Mirrors (R : α → β → Prop) (p : Problem n α) (q : Problem n β) : Prop where
  succs : p.succs = q.succs
  bottom : R p.bottom q.bottom
  meet : ∀ {a b c d}, R a b → R c d → R (p.meet a c) (q.meet b d)
  transfer : ∀ i {a b}, R a b → R (p.transfer i a) (q.transfer i b)

theorem Tables.mirrors_const {a : α} {b : β} (h : R a b) :
    (Tables.const n a).Mirrors R (Tables.const n b) := by
  intro i
  have h_row : R ((Vector.replicate n a).get i) ((Vector.replicate n b).get i) := by
    rwa [show (Vector.replicate n a).get i = a from Vector.getElem_replicate i.isLt,
      show (Vector.replicate n b).get i = b from Vector.getElem_replicate i.isLt]
  exact ⟨h_row, h_row⟩

theorem Progress.Mirrors.stop {x : Progress n α} {y : Progress n β} (h : x.Mirrors R y) (steps : Nat)
    (status : Status) : (x.stop steps status).Mirrors R (y.stop steps status) :=
  ⟨h.tables, congrArg Array.toList h.visits, rfl, rfl⟩

theorem Worklist.Mirrors.enqueue {w : Worklist n α} {w' : Worklist n β} (h : w.Mirrors R w') (i : Fin n) :
    (w.enqueue i).Mirrors R (w'.enqueue i) := by
  unfold Worklist.enqueue
  rw [h.queued]
  split
  · exact h
  · exact ⟨h.progress, congrArg (· ++ [i]) h.queue, rfl⟩

namespace Problem.Mirrors

variable {p : Problem n α} {q : Problem n β} {t : Tables n α} {u : Tables n β}

/-! ## Visits -/

theorem inRange (h : p.Mirrors R q) (h_range : p.InRange) : q.InRange := by
  unfold InRange
  rw [← h.succs]
  exact h_range

theorem predecessors_eq (h : p.Mirrors R q) : p.predecessors = q.predecessors := by
  unfold predecessors edges
  rw [h.succs]

theorem gather (h : p.Mirrors R q) {f : Fin n → α} {g : Fin n → β} (h_rows : ∀ s, R (f s) (g s))
    (i : Fin n) : R (p.gather f i) (q.gather g i) := by
  unfold Problem.gather
  rw [h.succs]
  refine List.foldl_rel h.bottom fun s _ a b h_value => ?_
  split
  · exact h.meet h_value (h_rows _)
  · exact h_value

theorem refresh (h : p.Mirrors R q) (h_rows : t.Mirrors R u) (i : Fin n) :
    (p.refresh t i).Mirrors R (q.refresh u i) := by
  have h_gather : R (p.gather t.ins.get i) (q.gather u.ins.get i) := h.gather (fun s => (h_rows s).1) i
  intro j
  by_cases hj : j = i
  · subst hj
    simp only [refresh_ins_self, refresh_outs_self]
    exact ⟨h.transfer j h_gather, h_gather⟩
  · simp only [refresh_ins_of_ne _ _ hj, refresh_outs_of_ne _ _ hj]
    exact h_rows j

/-- To see whether the equations hold is to compare values, which comes to the same in both. -/
theorem holds_iff (h : p.Mirrors R q) (h_unique : Relator.BiUnique R) (h_rows : t.Mirrors R u)
    (i : Fin n) : p.Holds t i ↔ q.Holds u i := by
  have h_outs : t.outs.get i = p.gather t.ins.get i ↔ u.outs.get i = q.gather u.ins.get i :=
    Relator.rel_eq h_unique (h_rows i).2 (h.gather (fun s => (h_rows s).1) i)
  have h_ins : t.ins.get i = p.transfer i (t.outs.get i) ↔ u.ins.get i = q.transfer i (u.outs.get i) :=
    Relator.rel_eq h_unique (h_rows i).1 (h.transfer i (h_rows i).2)
  exact ⟨fun h_holds => ⟨h_outs.mp h_holds.outs, h_ins.mp h_holds.ins⟩,
    fun h_holds => ⟨h_outs.mpr h_holds.outs, h_ins.mpr h_holds.ins⟩⟩

variable [DecidableEq α] [DecidableEq β]

/-! ## Passes -/

theorem makePasses (h : p.Mirrors R q) (h_unique : Relator.BiUnique R) (h_range : p.InRange) (fuel : Nat) :
    ∀ (passes : Nat) (x : Progress n α) (y : Progress n β), x.Mirrors R y →
      (p.makePasses fuel passes x).Mirrors R (q.makePasses fuel passes y) := by
  induction fuel with
  | zero => exact fun passes x y h_progress => h_progress.stop passes .outOfFuel
  | succ fuel ih =>
    intro passes x y h_progress
    have h_solves : p.Solves x.tables ↔ q.Solves y.tables :=
      forall_congr' (h.holds_iff h_unique h_progress.tables)
    by_cases h_done : p.Solves x.tables
    · rw [makePasses_of_solves h_range fuel passes h_done,
        makePasses_of_solves (h.inRange h_range) fuel passes (h_solves.mp h_done), h_progress.visits]
      exact ⟨h_progress.tables, rfl, rfl, rfl⟩
    · rw [makePasses_of_not_solves h_range fuel passes h_done,
        makePasses_of_not_solves (h.inRange h_range) fuel passes (mt h_solves.mpr h_done)]
      refine ih (passes + 1) _ _ ⟨?_, by rw [h_progress.visits]⟩
      exact List.foldl_rel h_progress.tables fun i _ _ _ h_rows => h.refresh h_rows i

/-! ## The worklist -/

theorem step (h : p.Mirrors R q) (h_unique : Relator.BiUnique R) (h_range : p.InRange)
    (preds : Vector (List (Fin n)) n) {w : Worklist n α} {w' : Worklist n β} (h_work : w.Mirrors R w')
    (i : Fin n) (rest : List (Fin n)) :
    ∃ x y, p.step preds w i rest = .ok x ∧ q.step preds w' i rest = .ok y ∧ x.Mirrors R y := by
  refine ⟨_, _, step_eq h_range w i rest, step_eq (h.inRange h_range) w' i rest, ?_⟩
  have h_popped : Worklist.Mirrors R
      ⟨⟨p.refresh w.progress.tables i, w.progress.visits.push i⟩, rest, w.queued.set i false i.isLt⟩
      ⟨⟨q.refresh w'.progress.tables i, w'.progress.visits.push i⟩, rest,
        w'.queued.set i false i.isLt⟩ :=
    ⟨⟨h.refresh h_work.progress.tables i, congrArg (Array.push · i) h_work.progress.visits⟩, rfl,
      congrArg (fun queued => queued.set i false i.isLt) h_work.queued⟩
  simp only [h.holds_iff h_unique h_work.progress.tables i]
  split
  · exact h_popped
  · exact List.foldl_rel h_popped fun j _ _ _ h_more => h_more.enqueue j

theorem drain (h : p.Mirrors R q) (h_unique : Relator.BiUnique R) (h_range : p.InRange)
    (preds : Vector (List (Fin n)) n) (fuel : Nat) :
    ∀ (w : Worklist n α) (w' : Worklist n β), w.Mirrors R w' →
      (p.drain preds fuel w).Mirrors R (q.drain preds fuel w') := by
  induction fuel with
  | zero =>
    intro w w' h_work
    rw [drain.eq_def, drain.eq_def, ← h_work.queue, ← h_work.progress.visits]
    cases w.queue <;> exact h_work.progress.stop _ _
  | succ fuel ih =>
    intro w w' h_work
    rw [drain.eq_def, drain.eq_def, ← h_work.queue, ← h_work.progress.visits]
    cases h_queue : w.queue with
    | nil => exact h_work.progress.stop _ _
    | cons i rest =>
      obtain ⟨x, y, h_step, h_step', h_next⟩ := h.step h_unique h_range preds h_work i rest
      simp only [h_step, h_step']
      exact ih x y h_next

/-! ## The solvers -/

/-- On problems that mirror one another, a solver makes runs that do. -/
theorem solve (h : p.Mirrors R q) (h_unique : Relator.BiUnique R) (h_range : p.InRange)
    (h_seed : t.Mirrors R u) (solver : Solver) (fuel : Nat) :
    (p.solve solver fuel t).Mirrors R (q.solve solver fuel u) := by
  cases solver with
  | roundRobin => exact h.makePasses h_unique h_range fuel 0 ⟨t, #[]⟩ ⟨u, #[]⟩ ⟨h_seed, rfl⟩
  | worklist =>
    obtain ⟨preds, h_preds, _⟩ := Problem.predecessors_eq h_range
    have h_preds' : q.predecessors = .ok preds := h.predecessors_eq ▸ h_preds
    simp only [Problem.solve, worklist, h_preds, h_preds']
    exact h.drain h_unique h_range preds fuel _ _ ⟨⟨h_seed, rfl⟩, rfl, rfl⟩

end Problem.Mirrors

end LiveRange.Dataflow
