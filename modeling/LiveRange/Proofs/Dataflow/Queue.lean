import Mathlib.Data.Fintype.Card
import LiveRange.Proofs.Dataflow.Equations

/-! # The worklist reaches the solution

The worklist is `Consistent` when its flags name the queued nodes, no node is queued twice,
and the equations hold at every node that is not queued.  Every step keeps it so: a visit
that changes a value can only disturb the equations of the node's predecessors, and these
are made due.

Once all nodes that are due at some point have been visited, every row has come one stage
further in a `Problem.Plan`: a row that was not due had nothing to gain.  This takes at
most as many visits as there are nodes. -/

namespace LiveRange.Dataflow

universe u

variable {n : Nat} {α : Type u}

/-! ## The queue -/

namespace Worklist

/-- No node is queued twice, and the flags name the queued nodes. -/
structure Tidy (w : Worklist n α) : Prop where
  nodup : w.queue.Nodup
  queued_iff : ∀ i, w.queued.get i = true ↔ i ∈ w.queue

theorem Tidy.length_le {w : Worklist n α} (h : w.Tidy) : w.queue.length ≤ n := by
  simpa using h.nodup.length_le_card

theorem tidy_start (seed : Tables n α) : (start seed).Tidy where
  nodup := List.nodup_reverse.mpr (List.nodup_finRange n)
  queued_iff i := by
    have h_queued : (start seed).queued.get i = true := by
      show (Vector.replicate n true)[(i : Nat)] = true
      exact Vector.getElem_replicate i.isLt
    have h_mem : i ∈ (start seed).queue := List.mem_reverse.mpr (List.mem_finRange i)
    exact iff_of_true h_queued h_mem

theorem Tidy.pop {w : Worklist n α} (h : w.Tidy) {i : Fin n} {rest : List (Fin n)}
    (h_queue : w.queue = i :: rest) (progress : Progress n α) :
    (⟨progress, rest, w.queued.set i false i.isLt⟩ : Worklist n α).Tidy := by
  have h_nodup : (i :: rest).Nodup := h_queue ▸ h.nodup
  refine ⟨h_nodup.of_cons, fun j => ?_⟩
  rw [get_set_eq]
  by_cases hj : j = i
  · subst hj
    simp [h_nodup.notMem]
  · have h_flag := h.queued_iff j
    rw [h_queue, List.mem_cons] at h_flag
    simpa [hj] using h_flag

theorem enqueue_progress (w : Worklist n α) (i : Fin n) : (w.enqueue i).progress = w.progress := by
  unfold enqueue
  split <;> rfl

theorem Tidy.enqueue_of_mem {w : Worklist n α} (h : w.Tidy) {i : Fin n} (h_mem : i ∈ w.queue) :
    w.enqueue i = w := by
  rw [Worklist.enqueue, if_pos ((h.queued_iff i).mpr h_mem)]

theorem Tidy.enqueue_of_notMem {w : Worklist n α} (h : w.Tidy) {i : Fin n} (h_new : i ∉ w.queue) :
    w.enqueue i = ⟨w.progress, w.queue ++ [i], w.queued.set i true i.isLt⟩ := by
  have h_flag : w.queued.get i ≠ true := fun h_flag => h_new ((h.queued_iff i).mp h_flag)
  rw [Worklist.enqueue, if_neg h_flag]

theorem Tidy.enqueue {w : Worklist n α} (h : w.Tidy) (i : Fin n) : (w.enqueue i).Tidy := by
  by_cases h_mem : i ∈ w.queue
  · rw [h.enqueue_of_mem h_mem]
    exact h
  · rw [h.enqueue_of_notMem h_mem]
    refine ⟨?_, fun j => ?_⟩
    · simp only [List.nodup_append, h.nodup, List.nodup_singleton, true_and, List.mem_singleton]
      rintro a ha b rfl rfl
      exact h_mem ha
    · simp only [get_set_eq, List.mem_append, List.mem_singleton]
      by_cases hj : j = i
      · simp [hj]
      · simp [hj, h.queued_iff j]

theorem Tidy.mem_enqueue {w : Worklist n α} (h : w.Tidy) {i j : Fin n} :
    j ∈ (w.enqueue i).queue ↔ j ∈ w.queue ∨ j = i := by
  by_cases h_mem : i ∈ w.queue
  · rw [h.enqueue_of_mem h_mem]
    exact ⟨.inl, fun h_old => h_old.elim id fun h_eq => h_eq ▸ h_mem⟩
  · rw [h.enqueue_of_notMem h_mem, List.mem_append, List.mem_singleton]

theorem prefix_enqueue (w : Worklist n α) (i : Fin n) : w.queue <+: (w.enqueue i).queue := by
  unfold enqueue
  split
  · exact List.prefix_rfl
  · exact List.prefix_append _ _

/-- Making nodes due one after the other adds them at the end of the queue and nowhere
else. -/
theorem foldl_enqueue {w : Worklist n α} (h : w.Tidy) (nodes : List (Fin n)) :
    (nodes.foldl enqueue w).progress = w.progress ∧ (nodes.foldl enqueue w).Tidy ∧
      w.queue <+: (nodes.foldl enqueue w).queue := by
  induction nodes generalizing w with
  | nil => exact ⟨rfl, h, List.prefix_rfl⟩
  | cons i rest ih =>
    obtain ⟨h_progress, h_tidy, h_front⟩ := ih (h.enqueue i)
    exact ⟨h_progress.trans (enqueue_progress w i), h_tidy, (prefix_enqueue w i).trans h_front⟩

theorem Tidy.mem_foldl_enqueue {w : Worklist n α} (h : w.Tidy) (nodes : List (Fin n)) {j : Fin n} :
    j ∈ (nodes.foldl Worklist.enqueue w).queue ↔ j ∈ w.queue ∨ j ∈ nodes := by
  induction nodes generalizing w with
  | nil => simp
  | cons i rest ih => rw [List.foldl_cons, ih (h.enqueue i), h.mem_enqueue, List.mem_cons, or_assoc]

end Worklist

namespace Problem

variable {p : Problem n α}

/-! ## Predecessors -/

theorem mem_edges (i : Fin n) (s : Nat) : (i, s) ∈ p.edges ↔ s ∈ p.succs i := by
  simp [edges]

/-- Lists the source of an edge under its target, if that is a node. -/
def enter (preds : Vector (List (Fin n)) n) (e : Fin n × Nat) : Vector (List (Fin n)) n :=
  if h : e.2 < n then preds.set e.2 (preds[e.2] ++ [e.1]) else preds

theorem mem_foldl_enter (es : List (Fin n × Nat)) (start : Vector (List (Fin n)) n) (i s : Fin n) :
    i ∈ (es.foldl enter start).get s ↔ i ∈ start.get s ∨ (i, (s : Nat)) ∈ es := by
  induction es generalizing start with
  | nil => simp
  | cons e rest ih =>
    obtain ⟨j, k⟩ := e
    rw [List.foldl_cons, ih, List.mem_cons, Prod.mk.injEq, ← or_assoc]
    refine or_congr_left ?_
    -- an edge adds to the list of its own target only
    unfold enter
    by_cases hk : k < n
    · simp only [hk, ↓reduceDIte]
      rw [get_set_eq start ⟨k, hk⟩]
      by_cases hs : (s : Nat) = k
      · have h_get : start.get s = start[k] := by simp only [← hs]; rfl
        simp [hs, h_get, Fin.ext_iff]
      · simp [hs, Fin.ext_iff]
    · have hs : (s : Nat) ≠ k := by omega
      simp [hk, hs]

theorem predecessors_eq (h_range : p.InRange) :
    ∃ preds, p.predecessors = .ok preds ∧ ∀ i s : Fin n, i ∈ preds.get s ↔ (s : Nat) ∈ p.succs i := by
  refine ⟨p.edges.foldl enter (.replicate n []), foldlM_eq_ok ?_ _, fun i s => ?_⟩
  · intro preds e he
    have h_lt : e.2 < n := h_range e.1 e.2 ((mem_edges e.1 e.2).mp he)
    simp only [enter, h_lt, ↓reduceDIte]
  · have h_start : (Vector.replicate n ([] : List (Fin n))).get s = [] :=
      Vector.getElem_replicate s.isLt
    rw [mem_foldl_enter, h_start, mem_edges]
    simp

/-! ## One step -/

theorem gather_congr {f g : Fin n → α} (i : Fin n)
    (h : ∀ s : Fin n, (s : Nat) ∈ p.succs i → f s = g s) : p.gather f i = p.gather g i := by
  unfold gather
  refine List.foldl_ext _ _ _ fun value s hs => ?_
  by_cases hn : s < n
  · simp only [hn, ↓reduceDIte, h ⟨s, hn⟩ hs]
  · simp only [hn, ↓reduceDIte]

/-- The equations hold after a visit wherever nothing that is read has changed and they held before,
or the node is the visited one. -/
theorem holds_refresh_of_ins_eq {t : Tables n α} {i j : Fin n}
    (h_same : ∀ s : Fin n, (s : Nat) ∈ p.succs j → (p.refresh t i).ins.get s = t.ins.get s)
    (h_holds : j ≠ i → p.Holds t j) : p.Holds (p.refresh t i) j := by
  have h_gather : p.gather (p.refresh t i).ins.get j = p.gather t.ins.get j := gather_congr j h_same
  by_cases hj : j = i
  · subst hj
    exact ⟨by rw [h_gather, refresh_outs_self], by rw [refresh_ins_self, refresh_outs_self]⟩
  · have h_old := h_holds hj
    constructor
    · rw [h_gather, refresh_outs_of_ne p t hj, h_old.outs]
    · rw [refresh_ins_of_ne p t hj, refresh_outs_of_ne p t hj, h_old.ins]

/-- So they do wherever the visited node is not read. -/
theorem holds_refresh {t : Tables n α} {i j : Fin n} (h_far : (i : Nat) ∉ p.succs j)
    (h_holds : j ≠ i → p.Holds t j) : p.Holds (p.refresh t i) j := by
  refine holds_refresh_of_ins_eq (fun s hs => refresh_ins_of_ne p t ?_) h_holds
  intro h_same
  subst h_same
  exact h_far hs

/-- The queue is tidy, and the equations hold at every node that is not queued. -/
structure Consistent (p : Problem n α) (w : Worklist n α) : Prop extends w.Tidy where
  holds : ∀ i, i ∉ w.queue → p.Holds w.progress.tables i

theorem consistent_start (seed : Tables n α) : p.Consistent (.start seed) where
  toTidy := Worklist.tidy_start seed
  holds i hi := absurd (List.mem_reverse.mpr (List.mem_finRange i)) hi

variable [DecidableEq α] {preds : Vector (List (Fin n)) n}

/-- A step refreshes the tables at the visited node, and makes its predecessors due unless its
equations held. -/
theorem step_eq (h_range : p.InRange) (w : Worklist n α) (i : Fin n) (rest : List (Fin n)) :
    p.step preds w i rest = .ok (
      if p.Holds w.progress.tables i then
        ⟨⟨p.refresh w.progress.tables i, w.progress.visits.push i⟩, rest,
          w.queued.set i false i.isLt⟩
      else (preds.get i).foldl Worklist.enqueue
        ⟨⟨p.refresh w.progress.tables i, w.progress.visits.push i⟩, rest,
          w.queued.set i false i.isLt⟩) := by
  simp only [step, visit_eq h_range, bind, Except.bind, pure, Except.pure]
  by_cases h_holds : p.Holds w.progress.tables i
  · simp [h_holds]
  · simp [h_holds]

/-- A step visits the first node of the queue, takes it off, and keeps the worklist
consistent.  It makes nodes due only if the visit changed a value. -/
theorem step_consistent (h_range : p.InRange)
    (h_preds : ∀ i s : Fin n, i ∈ preds.get s ↔ (s : Nat) ∈ p.succs i) {w : Worklist n α}
    (h : p.Consistent w) {i : Fin n} {rest : List (Fin n)} (h_queue : w.queue = i :: rest) :
    ∃ w', p.step preds w i rest = .ok w' ∧ p.Consistent w' ∧
      w'.progress = ⟨p.refresh w.progress.tables i, w.progress.visits.push i⟩ ∧
      rest <+: w'.queue ∧ (p.Holds w.progress.tables i → w'.queue = rest) := by
  have h_popped := h.toTidy.pop h_queue
    ⟨p.refresh w.progress.tables i, w.progress.visits.push i⟩
  have h_old : ∀ j, j ∉ rest → j ≠ i → p.Holds w.progress.tables j := by
    intro j hj hji
    apply h.holds
    rw [h_queue, List.mem_cons]
    exact fun h_mem => h_mem.elim hji hj
  refine ⟨_, step_eq h_range w i rest, ?_⟩
  -- only a visit that changed something disturbs equations elsewhere
  by_cases h_holds : p.Holds w.progress.tables i
  · rw [if_pos h_holds]
    refine ⟨⟨h_popped, fun j hj => ?_⟩, rfl, List.prefix_rfl, fun _ => rfl⟩
    show p.Holds (p.refresh w.progress.tables i) j
    rw [(refresh_eq_self_iff p _ i).mpr h_holds]
    by_cases hji : j = i
    · exact hji ▸ h_holds
    · exact h_old j hj hji
  · rw [if_neg h_holds]
    obtain ⟨h_progress, h_tidy, h_front⟩ := Worklist.foldl_enqueue h_popped (preds.get i)
    refine ⟨⟨h_tidy, fun j hj => ?_⟩, h_progress, h_front, fun h' => absurd h' h_holds⟩
    rw [h_progress]
    -- every node that reads the visited one has been made due
    have h_far : (i : Nat) ∉ p.succs j := fun h_succ =>
      hj ((h_popped.mem_foldl_enqueue _).mpr (.inr ((h_preds j i).mpr h_succ)))
    exact holds_refresh h_far fun hji => h_old j (fun h_rest => hj (h_front.subset h_rest)) hji

/-- After a step those nodes are due that were due before, and those that read the visited node if the
visit changed a value. -/
theorem mem_queue_step (h_range : p.InRange)
    (h_preds : ∀ i s : Fin n, i ∈ preds.get s ↔ (s : Nat) ∈ p.succs i) {w w' : Worklist n α}
    (h : w.Tidy) {i : Fin n} {rest : List (Fin n)} (h_queue : w.queue = i :: rest)
    (h_step : p.step preds w i rest = .ok w') {j : Fin n} :
    j ∈ w'.queue ↔ j ∈ rest ∨ ¬ p.Holds w.progress.tables i ∧ (i : Nat) ∈ p.succs j := by
  rw [step_eq h_range, Except.ok.injEq] at h_step
  rw [← h_step]
  by_cases h_holds : p.Holds w.progress.tables i
  · simp only [h_holds, ↓reduceIte, not_true_eq_false, false_and, or_false]
  · simp only [h_holds, ↓reduceIte, not_false_eq_true, true_and]
    rw [(h.pop h_queue _).mem_foldl_enqueue, h_preds]

/-! ## Many steps -/

/-- Visiting the nodes that are due gives every row the next property.  `due` is the part of
the queue that is still to be visited; what stands behind it was made due meanwhile. -/
theorem drain_of_improves (h_range : p.InRange)
    (h_preds : ∀ i s : Fin n, i ∈ preds.get s ↔ (s : Nat) ∈ p.succs i) {P Q : RowProp n α}
    (h_improves : p.Improves P Q) (due : List (Fin n)) :
    ∀ (later : List (Fin n)) (w : Worklist n α), p.Consistent w → w.queue = due ++ later →
      w.progress.tables.All P → (∀ i, i ∉ due → w.progress.tables.Row Q i) →
      ∃ w', p.Consistent w' ∧ w'.progress.tables.All Q ∧
        w'.progress.visits.size = w.progress.visits.size + due.length ∧
        ∀ fuel, p.drain preds (due.length + fuel) w = p.drain preds fuel w' := by
  induction due with
  | nil =>
    intro later w h _ _ h_rows
    exact ⟨w, h, fun i => h_rows i List.not_mem_nil, rfl, fun fuel => by simp⟩
  | cons i due ih =>
    intro later w h h_queue h_all h_rows
    rw [List.cons_append] at h_queue
    obtain ⟨w₁, h_step, h₁, h_progress, ⟨added, h_added⟩, _⟩ :=
      step_consistent h_range h_preds h h_queue
    -- the visited row gains, and the other rows keep what is known of them
    have h_all₁ : w₁.progress.tables.All P := by
      rw [h_progress]
      exact h_improves.all_refresh h_all i
    have h_rows₁ : ∀ j, j ∉ due → w₁.progress.tables.Row Q j := by
      intro j hj
      rw [h_progress]
      apply h_improves.row_refresh h_all i
      by_cases hji : j = i
      · exact .inl hji
      · exact .inr (h_rows j fun h_mem => (List.mem_cons.mp h_mem).elim hji hj)
    have h_queue₁ : w₁.queue = due ++ (later ++ added) := by
      rw [← h_added, List.append_assoc]
    obtain ⟨w₂, h₂, h_all₂, h_visits, h_drain⟩ := ih (later ++ added) w₁ h₁ h_queue₁ h_all₁ h_rows₁
    refine ⟨w₂, h₂, h_all₂, ?_, fun fuel => ?_⟩
    · rw [h_visits, h_progress, Array.size_push, List.length_cons]
      omega
    · rw [← h_drain fuel, List.length_cons, Nat.add_right_comm, drain.eq_def]
      simp only [h_queue, h_step]

/-- Where the tables solve the problem, what is still due is visited and nothing is made due. -/
theorem drain_of_solves (h_range : p.InRange)
    (h_preds : ∀ i s : Fin n, i ∈ preds.get s ↔ (s : Nat) ∈ p.succs i) (queue : List (Fin n)) :
    ∀ (w : Worklist n α) (fuel : Nat), p.Consistent w → w.queue = queue →
      p.Solves w.progress.tables → queue.length ≤ fuel →
      p.drain preds fuel w = ⟨w.progress.tables, w.progress.visits.toList ++ queue,
        w.progress.visits.size + queue.length, .settled⟩ := by
  -- a visit to a solution changes nothing, so the queue only gets shorter
  induction queue with
  | nil =>
    intro w fuel _ h_queue _ _
    rw [drain.eq_def]
    simp [h_queue, Progress.stop]
  | cons i rest ih =>
    intro w fuel h h_queue h_solves h_fuel
    obtain ⟨fuel, rfl⟩ : ∃ k, fuel = k + 1 := ⟨fuel - 1, by simp at h_fuel; omega⟩
    obtain ⟨w₁, h_step, h₁, h_progress, _, h_rest⟩ := step_consistent h_range h_preds h h_queue
    rw [(refresh_eq_self_iff p _ i).mpr (h_solves i)] at h_progress
    have h_left := ih w₁ fuel h₁ (h_rest (h_solves i)) (h_progress ▸ h_solves)
      (by simpa using h_fuel)
    rw [drain.eq_def]
    simp only [h_queue, h_step, h_left, h_progress, Array.toList_push, Array.size_push,
      List.length_cons, List.append_assoc, List.singleton_append, Nat.add_assoc, Nat.add_comm 1]

/-- A worklist on which nothing is due has all equations hold, for only where they do is a node
not due. -/
theorem drain_settled (h_range : p.InRange)
    (h_preds : ∀ i s : Fin n, i ∈ preds.get s ↔ (s : Nat) ∈ p.succs i) :
    ∀ (fuel : Nat) (w : Worklist n α), p.Consistent w → (p.drain preds fuel w).status = .settled →
      p.Solves (p.drain preds fuel w).tables := by
  intro fuel
  induction fuel with
  | zero =>
    intro w h h_status
    rw [drain.eq_def] at h_status ⊢
    cases h_queue : w.queue with
    | nil => exact fun i => h.holds i (h_queue ▸ List.not_mem_nil)
    | cons i rest => simp [h_queue, Progress.stop] at h_status
  | succ fuel ih =>
    intro w h h_status
    rw [drain.eq_def] at h_status ⊢
    cases h_queue : w.queue with
    | nil => exact fun i => h.holds i (h_queue ▸ List.not_mem_nil)
    | cons i rest =>
      obtain ⟨w', h_step, h', _⟩ := step_consistent h_range h_preds h h_queue
      simp only [h_queue, h_step] at h_status ⊢
      exact ih w' h' h_status

/-- A worklist that starts after some stage of a plan and has a visit to every node for each
stage left, and for one more, settles on the planned solution. -/
theorem drain_of_plan {P : Nat → RowProp n α} {m : Nat} {sol : Tables n α} (h_range : p.InRange)
    (h_preds : ∀ i s : Fin n, i ∈ preds.get s ↔ (s : Nat) ∈ p.succs i) (h_plan : p.Plan P m sol)
    (left : Nat) :
    ∀ (k : Nat) (w : Worklist n α) (fuel : Nat), k + left = m → p.Consistent w →
      w.progress.tables.All (P k) → (left + 1) * n ≤ fuel →
      (p.drain preds fuel w).status = .settled ∧ (p.drain preds fuel w).tables = sol ∧
        (p.drain preds fuel w).steps ≤ w.progress.visits.size + (left + 1) * n := by
  induction left with
  | zero =>
    intro k w fuel hk h h_all h_fuel
    subst hk
    have h_sol : w.progress.tables = sol := h_plan.last _ h_all
    have h_length := h.toTidy.length_le
    rw [drain_of_solves h_range h_preds w.queue w fuel h rfl (h_sol ▸ h_plan.solves) (by omega)]
    exact ⟨rfl, h_sol, by simp only; omega⟩
  | succ left ih =>
    intro k w fuel hk h h_all h_fuel
    -- visit what is due now, each node once; what is not due has nothing to gain
    have h_improves := h_plan.improves k (by omega)
    obtain ⟨w', h', h_all', h_visits, h_drain⟩ :=
      drain_of_improves h_range h_preds h_improves w.queue [] w h (by simp) h_all
        fun i hi => h_improves.row_of_holds h_all (h.holds i hi)
    have h_length := h.toTidy.length_le
    rw [Nat.succ_mul] at h_fuel ⊢
    obtain ⟨h_status, h_tables, h_steps⟩ := ih (k + 1) w' (fuel - w.queue.length) (by omega) h' h_all'
      (by omega)
    rw [← h_drain, Nat.add_sub_cancel' (by omega : w.queue.length ≤ fuel)] at h_status h_tables h_steps
    exact ⟨h_status, h_tables, by omega⟩

/-- A worklist that starts from a solution visits every node once, from the last to the first. -/
theorem worklist_of_solves (h_range : p.InRange) {seed : Tables n α} (h_solves : p.Solves seed)
    {fuel : Nat} (h_fuel : n ≤ fuel) : p.worklist fuel seed = ⟨seed, backward n, n, .settled⟩ := by
  obtain ⟨preds, h_eq, h_preds⟩ := predecessors_eq h_range
  have h_length : (backward n).length = n := by simp [backward]
  simp only [worklist, h_eq]
  rw [drain_of_solves h_range h_preds (backward n) _ fuel (consistent_start seed) rfl h_solves
    (by rwa [h_length])]
  simp [Worklist.start, h_length]

theorem worklist_of_plan {P : Nat → RowProp n α} {m : Nat} {sol seed : Tables n α}
    (h_range : p.InRange) (h_plan : p.Plan P m sol) (h_seed : seed.All (P 0)) {fuel : Nat}
    (h_fuel : (m + 1) * n ≤ fuel) :
    (p.worklist fuel seed).status = .settled ∧ (p.worklist fuel seed).tables = sol ∧
      (p.worklist fuel seed).steps ≤ (m + 1) * n := by
  obtain ⟨preds, h_eq, h_preds⟩ := predecessors_eq h_range
  have h := drain_of_plan h_range h_preds h_plan m 0 (.start seed) fuel (by omega)
    (consistent_start seed) h_seed h_fuel
  simp only [worklist, h_eq]
  simpa [Worklist.start] using h

end Problem

end LiveRange.Dataflow
