import LiveRange.Proofs.Edit
import LiveRange.Proofs.Dataflow.Fixpoint
import LiveRange.Proofs.Dataflow.Strays

/-! # Solving in place

The solvers go by nodes, for which there is a row in every table.  Here they are written as programs
that know nodes by plain numbers: the variables are arrays (`Store`), a value is overwritten only if
it changes, and every index is looked up and may be out of range.

While a solver is at work there is a row for each node in every array (`Field.Holds`), and nothing is
looked up but rows of nodes and of successors.  So such a program does what the solver does
(`Problem.trace_solveInPlace`), and breaks off only at a successor that is no node
(`Problem.solve_strays`). -/

namespace LiveRange.Dataflow

open Edit

variable {n : Nat} {α β : Type}

/-! ## Variables -/

/-- The variables of a solver. -/
structure Store (α : Type) where
  ins : Array α
  outs : Array α
  preds : Array (List Nat) := #[]
  /-- The nodes that are due, the first one next. -/
  queue : List Nat := []
  queued : Array Bool := #[]
  /-- The nodes for which a transfer was computed, in order. -/
  visits : List Nat := []
  steps : Nat := 0

/-- An array among the variables. -/
structure Field (α β : Type) where
  array : Store α → Array β
  update : Store α → Array β → Store α
  update_array : ∀ s, update s (array s) = s

namespace Field

def ins : Field α α := ⟨Store.ins, fun s xs => { s with ins := xs }, fun _ => rfl⟩

def outs : Field α α := ⟨Store.outs, fun s xs => { s with outs := xs }, fun _ => rfl⟩

def preds : Field α (List Nat) := ⟨Store.preds, fun s xs => { s with preds := xs }, fun _ => rfl⟩

def queued : Field α Bool := ⟨Store.queued, fun s xs => { s with queued := xs }, fun _ => rfl⟩

end Field

/-! ## Programs -/

/-- A program on the variables of a solver.  It breaks off at an index that is out of range. -/
abbrev Program (α β : Type) := Edit (Store α) OutOfRange β

/-- What an array holds at an index, which must be in range. -/
def lookup (xs : Array β) (i : Nat) : Program α β :=
  match xs[i]? with
  | some x => return x
  | none => throw ⟨i, xs.size⟩

def Field.read (field : Field α β) (i : Nat) : Program α β := do
  let s ← get
  lookup (field.array s) i

def Field.write (field : Field α β) (i : Nat) (x : β) : Program α PUnit := do
  let s ← get
  let _ ← lookup (field.array s) i
  set (field.update s ((field.array s).setIfInBounds i x))

/-- Writes a value down if it is not there yet, and says whether it has. -/
def Field.replace [DecidableEq β] (field : Field α β) (i : Nat) (x : β) : Program α Bool := do
  let old ← field.read i
  if x = old then return false
  else
    field.write i x
    return true

/-- Makes a node due unless it is due already. -/
def enqueueInPlace (i : Nat) : Program α PUnit := do
  if ← Field.queued.read i then return
  else
    Field.queued.write i true
    modify fun s => { s with queue := s.queue ++ [i] }

namespace Problem

/-- The table of successors. -/
def rows (p : Problem n α) : Array (List Nat) := .ofFn p.succs

/-- The transfer of a node by its number.  It is computed for nodes only. -/
def transferAt (p : Problem n α) (i : Nat) (out : α) : α :=
  if h : i < n then p.transfer ⟨i, h⟩ out else out

/-- Lists each node in the rows of its successors. -/
def listPredecessors (p : Problem n α) : Program α PUnit :=
  (List.range n).forM fun i => do
    let successors ← lookup p.rows i
    successors.forM fun s => do
      let sources ← Field.preds.read s
      Field.preds.write s (sources ++ [i])

variable [DecidableEq α]

def visitInPlace (p : Problem n α) (i : Nat) : Program α Bool := do
  let successors ← lookup p.rows i
  let out ← successors.foldlM (fun value s => do
    let next ← Field.ins.read s
    return p.meet value next) p.bottom
  let outChanged ← Field.outs.replace i out
  let out ← Field.outs.read i
  modify fun s => { s with visits := s.visits ++ [i] }
  let inChanged ← Field.ins.replace i (p.transferAt i out)
  return outChanged || inChanged

/-- Visits nodes in the given order, and says whether a visit has changed anything. -/
def sweepInPlace (p : Problem n α) (nodes : List Nat) (changed : Bool) : Program α Bool :=
  nodes.foldlM (fun changed i => do
    let here ← p.visitInPlace i
    return changed || here) changed

def passesInPlace (p : Problem n α) : (fuel : Nat) → Program α Status
  | 0 => return .outOfFuel
  | fuel + 1 => do
    modify fun s => { s with steps := s.steps + 1 }
    if ← p.sweepInPlace (List.range n).reverse false then p.passesInPlace fuel else return .settled

/-- Visits a node that was taken from the queue, which leaves `rest` there. -/
def turnInPlace (p : Problem n α) (i : Nat) (rest : List Nat) : Program α PUnit := do
  modify fun s => { s with queue := rest }
  Field.queued.write i false
  modify fun s => { s with steps := s.steps + 1 }
  if ← p.visitInPlace i then
    let sources ← Field.preds.read i
    sources.forM enqueueInPlace

def drainInPlace (p : Problem n α) : (fuel : Nat) → Program α Status
  | 0 => do
    let s ← get
    return if s.queue = [] then .settled else .outOfFuel
  | fuel + 1 => do
    let s ← get
    match s.queue with
    | [] => return .settled
    | i :: rest =>
      p.turnInPlace i rest
      p.drainInPlace fuel

def solveInPlace (p : Problem n α) (solver : Solver) (fuel : Nat) : Program α Status :=
  match solver with
  | .roundRobin => p.passesInPlace fuel
  | .worklist => do
    modify fun s => { s with preds := .replicate n [] }
    p.listPredecessors
    modify fun s => { s with queue := (List.range n).reverse, queued := .replicate n true }
    p.drainInPlace fuel

end Problem

/-! ## What a program has done -/

/-- What there is to see of a solver in the end. -/
structure Trace (α : Type) where
  ins : Array α
  outs : Array α
  visits : List Nat
  steps : Nat
  status : Status

def Run.trace (run : Run n α) : Trace α :=
  ⟨run.tables.ins.toArray, run.tables.outs.toArray, run.visits.map Fin.val, run.steps, run.status⟩

/-- What there is to see when a program has come to its end, or has broken off. -/
def traceOf (edit : Program α Status) (s : Store α) : Trace α :=
  let (answer, s) := edit.attempt s
  ⟨s.ins, s.outs, s.visits, s.steps, match answer with
    | .ok status => status
    | .error e => .outOfRange e⟩

/-- The variables before a solver has done anything. -/
def Tables.store (seed : Tables n α) : Store α where
  ins := seed.ins.toArray
  outs := seed.outs.toArray

def Problem.traceInPlace [DecidableEq α] (p : Problem n α) (solver : Solver) (fuel : Nat)
    (seed : Tables n α) : Trace α :=
  traceOf (p.solveInPlace solver fuel) seed.store

theorem traceOf_bind_of_ok {edit : Program α β} {s s' : Store α} {b : β}
    (h : edit.attempt s = (.ok b, s')) (next : β → Program α Status) :
    traceOf (edit >>= next) s = traceOf (next b) s' := by
  rw [traceOf, traceOf, attempt_bind_of_ok h]

theorem traceOf_bind_of_error {edit : Program α β} {s s' : Store α} {e : OutOfRange}
    (h : edit.attempt s = (.error e, s')) (next : β → Program α Status) :
    traceOf (edit >>= next) s = ⟨s'.ins, s'.outs, s'.visits, s'.steps, .outOfRange e⟩ := by
  rw [traceOf, attempt_bind_of_error h]

/-! ## Looking up and writing down -/

theorem attempt_lookup (xs : Array β) (i : Nat) (s : Store α) :
    (lookup xs i).attempt s = (match xs[i]? with
      | some x => .ok x
      | none => .error ⟨i, xs.size⟩, s) := by
  unfold lookup
  cases xs[i]? <;> rfl

namespace Field

variable {field : Field α β} {s : Store α} {i : Nat} {x y : β}

theorem attempt_read (field : Field α β) (i : Nat) (s : Store α) :
    (field.read i).attempt s = (match (field.array s)[i]? with
      | some x => .ok x
      | none => .error ⟨i, (field.array s).size⟩, s) := by
  rw [read, attempt_bind_of_ok (attempt_get s), attempt_lookup]

theorem attempt_write_of_some (h : (field.array s)[i]? = some x) :
    (field.write i y).attempt s = (.ok ⟨⟩, field.update s ((field.array s).setIfInBounds i y)) := by
  have h_lookup : (lookup (field.array s) i).attempt s = (.ok x, s) := by rw [attempt_lookup, h]
  rw [write, attempt_bind_of_ok (attempt_get s), attempt_bind_of_ok h_lookup, attempt_set]

/-- There is a row for each node. -/
def Holds (field : Field α β) (s : Store α) (rows : Vector β n) : Prop := field.array s = rows.toArray

namespace Holds

variable {rows : Vector β n}

theorem getElem? (h : field.Holds s rows) (i : Fin n) :
    (field.array s)[(i : Nat)]? = some (rows.get i) := by
  rw [h, Vector.getElem?_toArray]
  exact Vector.getElem?_eq_getElem i.isLt

theorem attempt_read (h : field.Holds s rows) (i : Fin n) :
    (field.read i).attempt s = (.ok (rows.get i), s) := by
  rw [Field.attempt_read, h.getElem?]

theorem attempt_read_of_not_lt (h : field.Holds s rows) {j : Nat} (hj : ¬ j < n) :
    (field.read j).attempt s = (.error ⟨j, n⟩, s) := by
  have h_size : (field.array s).size = n := by rw [h, Vector.size_toArray]
  rw [Field.attempt_read, Array.getElem?_eq_none (h_size.trans_le (not_lt.mp hj)), h_size]

theorem attempt_write (h : field.Holds s rows) (i : Fin n) (x : β) :
    (field.write i x).attempt s = (.ok ⟨⟩, field.update s (rows.set i x i.isLt).toArray) := by
  have h_set : (field.array s).setIfInBounds i x = (rows.set i x i.isLt).toArray := by
    rw [h, Array.setIfInBounds, dif_pos (by simp), Vector.toArray_set]
  rw [attempt_write_of_some (h.getElem? i), h_set]

/-- A value that is there already need not be written. -/
theorem attempt_replace [DecidableEq β] (h : field.Holds s rows) (i : Fin n) (x : β) :
    (field.replace i x).attempt s =
      (.ok (decide (x ≠ rows.get i)), field.update s (rows.set i x i.isLt).toArray) := by
  rw [replace, attempt_bind_of_ok (h.attempt_read i)]
  by_cases h_same : x = rows.get i
  · have h_old : field.update s (rows.set i x i.isLt).toArray = s := by
      rw [h_same, show rows.set i (rows.get i) i.isLt = rows from Vector.set_getElem_self i.isLt, ← h,
        field.update_array]
    rw [if_pos h_same, h_old, attempt_pure, decide_eq_false (not_not_intro h_same)]
  · rw [if_neg h_same, attempt_bind_of_ok (h.attempt_write i x), attempt_pure, decide_eq_true h_same]

end Holds

end Field

theorem reverse_range (n : Nat) : (List.range n).reverse = (backward n).map Fin.val := by
  rw [backward, List.map_reverse, List.map_coe_finRange_eq_range]

/-! ## Variables and progress -/

/-- The variables, where a solver has come as far as told. -/
def Progress.fill (progress : Progress n α) (s : Store α) : Store α :=
  { s with
    ins := progress.tables.ins.toArray
    outs := progress.tables.outs.toArray
    visits := progress.visits.toList.map Fin.val }

/-- The variables, where predecessors are listed as told. -/
def Store.withPreds (s : Store α) (preds : Vector (List (Fin n)) n) : Store α :=
  { s with preds := (preds.map (List.map Fin.val)).toArray }

namespace Problem

variable {p : Problem n α}

theorem attempt_lookup_rows (i : Fin n) (s : Store α) :
    (lookup p.rows i).attempt s = (.ok (p.succs i), s) := by
  rw [attempt_lookup, rows, Array.getElem?_ofFn, dif_pos i.isLt]

/-! ## Predecessors -/

/-- A node is listed in one row, which must be there. -/
theorem follows_list (s : Store α) (i : Fin n) (j : Nat) (preds : Vector (List (Fin n)) n) :
    Edit.Follows (do
      let sources ← Field.preds.read j
      Field.preds.write j (sources ++ [(i : Nat)])) s.withPreds preds
      (if h : j < n then .ok (preds.set j (preds[j] ++ [i])) else .error ⟨j, n⟩) := by
  have h_preds : Field.preds.Holds (s.withPreds preds) (preds.map (List.map Fin.val)) := rfl
  by_cases hj : j < n
  · have h_row : (preds.map (List.map Fin.val)).get ⟨j, hj⟩ = preds[j].map Fin.val :=
      Vector.getElem_map _ hj
    have h_read := h_preds.attempt_read ⟨j, hj⟩
    have h_write := h_preds.attempt_write ⟨j, hj⟩ ((preds[j] ++ [i]).map Fin.val)
    rw [← Vector.map_set, List.map_append] at h_write
    rw [dif_pos hj, Follows, attempt_bind_of_ok h_read, h_row]
    exact h_write
  · rw [dif_neg hj]
    exact ⟨preds, attempt_bind_of_error (h_preds.attempt_read_of_not_lt hj) _⟩

theorem follows_listPredecessors (s : Store α) :
    p.listPredecessors.Follows s.withPreds (Vector.replicate n ([] : List (Fin n)))
      p.predecessors := by
  rw [listPredecessors, ← List.map_coe_finRange_eq_range, List.forM_eq_forM, List.forM_map,
    ← List.forM_eq_forM, predecessors, edges, foldlM_flatMap]
  refine follows_forM (fun i _ preds => ?_) _
  rw [List.foldlM_map]
  unfold Follows
  simp only [attempt_bind_of_ok (attempt_lookup_rows i _)]
  exact follows_forM (fun j _ preds => follows_list s i j preds) preds

/-! ## Due nodes -/

/-- The variables of a worklist. -/
def store (preds : Vector (List (Fin n)) n) (w : Worklist n α) : Store α where
  ins := w.progress.tables.ins.toArray
  outs := w.progress.tables.outs.toArray
  preds := (preds.map (List.map Fin.val)).toArray
  queue := w.queue.map Fin.val
  queued := w.queued.toArray
  visits := w.progress.visits.toList.map Fin.val
  steps := w.progress.visits.size

theorem holds_queued (preds : Vector (List (Fin n)) n) (w : Worklist n α) :
    Field.queued.Holds (store preds w) w.queued := rfl

theorem attempt_enqueueInPlace (preds : Vector (List (Fin n)) n) (w : Worklist n α) (i : Fin n) :
    (enqueueInPlace (i : Nat)).attempt (store preds w) = (.ok ⟨⟩, store preds (w.enqueue i)) := by
  rw [enqueueInPlace, attempt_bind_of_ok ((holds_queued preds w).attempt_read i), Worklist.enqueue]
  by_cases h_due : w.queued.get i = true
  · rw [if_pos h_due, if_pos h_due]
    rfl
  · rw [if_neg h_due, if_neg h_due, attempt_bind_of_ok ((holds_queued preds w).attempt_write i true),
      attempt_modify]
    simp [store, Field.queued]

theorem attempt_forM_enqueueInPlace (preds : Vector (List (Fin n)) n) (w : Worklist n α)
    (nodes : List (Fin n)) :
    ((nodes.map Fin.val).forM enqueueInPlace).attempt (store preds w) =
      (.ok ⟨⟩, store preds (nodes.foldl Worklist.enqueue w)) := by
  induction nodes generalizing w with
  | nil => rfl
  | cons i rest ih =>
    rw [List.map_cons, List.forM_eq_forM, List.forM_cons, ← List.forM_eq_forM,
      attempt_bind_of_ok (attempt_enqueueInPlace preds w i)]
    exact ih (w.enqueue i)

/-! ## Visits and passes -/

theorem attempt_foldlM_read (progress : Progress n α) (s : Store α) (i : Fin n) :
    ((p.succs i).foldlM (fun value s => do
      let next ← Field.ins.read s
      return p.meet value next) p.bottom).attempt (progress.fill s) =
        (p.read progress.tables.ins i, progress.fill s) := by
  refine attempt_foldlM (fun value j => ?_) _ _
  have h_ins : Field.ins.Holds (progress.fill s) progress.tables.ins := rfl
  by_cases hj : j < n
  · rw [attempt_bind_of_ok (h_ins.attempt_read ⟨j, hj⟩), dif_pos hj]
    rfl
  · rw [attempt_bind_of_error (h_ins.attempt_read_of_not_lt hj), dif_neg hj]

variable [DecidableEq α]

/-- A visit changes the variables as it does the tables. -/
theorem attempt_visitInPlace (progress : Progress n α) (s : Store α) (i : Fin n) :
    (p.visitInPlace i).attempt (progress.fill s) =
      match p.visit progress i with
      | .ok (progress, changed) => (.ok changed, progress.fill s)
      | .error e => (.error e, progress.fill s) := by
  obtain ⟨t, visits⟩ := progress
  have h_read := attempt_foldlM_read (p := p) ⟨t, visits⟩ s i
  rw [visitInPlace, attempt_bind_of_ok (attempt_lookup_rows i _)]
  cases h_out : p.read t.ins i with
  | error e =>
    rw [h_out] at h_read
    rw [attempt_bind_of_error h_read, visit, h_out]
    rfl
  | ok out =>
    rw [h_out] at h_read
    have h_visit : p.visit ⟨t, visits⟩ i = .ok
        (⟨⟨t.ins.set i (p.transfer i out) i.isLt, t.outs.set i out i.isLt⟩, visits.push i⟩,
          decide (out ≠ t.outs.get i ∨ p.transfer i out ≠ t.ins.get i)) := by
      rw [visit, h_out]
      rfl
    let written : Progress n α := ⟨⟨t.ins, t.outs.set i out i.isLt⟩, visits⟩
    let pushed : Progress n α := ⟨written.tables, visits.push i⟩
    have h_outs : Field.outs.Holds (Progress.fill ⟨t, visits⟩ s) t.outs := rfl
    have h_written : Field.outs.Holds (written.fill s) (t.outs.set i out i.isLt) := rfl
    have h_ins : Field.ins.Holds (pushed.fill s) t.ins := rfl
    have h_replaced : (Field.outs.replace i out).attempt (Progress.fill ⟨t, visits⟩ s) =
        (.ok (decide (out ≠ t.outs.get i)), written.fill s) := h_outs.attempt_replace i out
    have h_pushed : (modify fun s : Store α => { s with visits := s.visits ++ [(i : Nat)] } :
        Program α PUnit).attempt (written.fill s) = (.ok ⟨⟩, pushed.fill s) := by
      simp [attempt_modify, Progress.fill, pushed, written]
    have h_transfer : p.transferAt i out = p.transfer i out := dif_pos i.isLt
    rw [attempt_bind_of_ok h_read, attempt_bind_of_ok h_replaced,
      attempt_bind_of_ok (h_written.attempt_read i), attempt_bind_of_ok h_pushed, get_set_eq,
      if_pos rfl, h_transfer, attempt_bind_of_ok (h_ins.attempt_replace i (p.transfer i out)),
      attempt_pure, ← Bool.decide_or, h_visit]
    rfl

theorem attempt_sweepInPlace (nodes : List (Fin n)) (progress : Progress n α) (s : Store α)
    (changed : Bool) :
    (p.sweepInPlace (nodes.map Fin.val) changed).attempt (progress.fill s) =
      match p.sweep nodes progress changed with
      | ⟨progress, changed, none⟩ => (.ok changed, progress.fill s)
      | ⟨progress, _, some e⟩ => (.error e, progress.fill s) := by
  induction nodes generalizing progress changed with
  | nil => rfl
  | cons i rest ih =>
    have h_visit := attempt_visitInPlace (p := p) progress s i
    rw [sweepInPlace, List.map_cons, List.foldlM_cons, attempt_bind, attempt_bind, h_visit, sweep]
    cases p.visit progress i with
    | ok result => exact ih result.1 (changed || result.2)
    | error e => rfl

theorem trace_passesInPlace (fuel : Nat) : ∀ (progress : Progress n α) (s : Store α),
    traceOf (p.passesInPlace fuel) (progress.fill s) =
      (p.makePasses fuel s.steps progress).trace := by
  induction fuel with
  | zero => exact fun _ _ => rfl
  | succ fuel ih =>
    intro progress s
    have h_counted : (modify fun s : Store α => { s with steps := s.steps + 1 } :
        Program α PUnit).attempt (progress.fill s) =
          (.ok ⟨⟩, progress.fill { s with steps := s.steps + 1 }) := rfl
    have h_sweep := attempt_sweepInPlace (p := p) (backward n) progress
      { s with steps := s.steps + 1 } false
    rw [passesInPlace, traceOf_bind_of_ok h_counted, reverse_range, makePasses]
    generalize p.sweep (backward n) progress false = pass at h_sweep ⊢
    obtain ⟨progress, changed, _ | e⟩ := pass
    · rw [traceOf_bind_of_ok h_sweep]
      cases changed with
      | false => rfl
      | true => exact ih progress { s with steps := s.steps + 1 }
    · rw [traceOf_bind_of_error h_sweep]
      rfl

/-! ## The worklist -/

theorem attempt_turnInPlace (h_range : p.InRange) (preds : Vector (List (Fin n)) n)
    (w : Worklist n α) (i : Fin n) (rest : List (Fin n)) :
    ∃ w', p.step preds w i rest = .ok w' ∧
      (p.turnInPlace i (rest.map Fin.val)).attempt (store preds w) = (.ok ⟨⟩, store preds w') := by
  let left : Worklist n α := { w with queue := rest }
  let flagged : Worklist n α := { left with queued := w.queued.set i false i.isLt }
  let counted : Store α := { store preds flagged with steps := w.progress.visits.size + 1 }
  let popped : Worklist n α :=
    { flagged with progress := ⟨p.refresh w.progress.tables i, w.progress.visits.push i⟩ }
  have h_left : (modify fun s : Store α => { s with queue := rest.map Fin.val } :
      Program α PUnit).attempt (store preds w) = (.ok ⟨⟩, store preds left) := rfl
  have h_flagged : (Field.queued.write i false).attempt (store preds left) =
      (.ok ⟨⟩, store preds flagged) := (holds_queued preds left).attempt_write i false
  have h_counted : (modify fun s : Store α => { s with steps := s.steps + 1 } :
      Program α PUnit).attempt (store preds flagged) =
        (.ok ⟨⟩, w.progress.fill counted) := rfl
  have h_visit : (p.visitInPlace i).attempt (w.progress.fill counted) =
      (.ok (!decide (p.Holds w.progress.tables i)), store preds popped) := by
    rw [attempt_visitInPlace, visit_eq h_range]
    simp [Progress.fill, store, counted, popped, flagged, left]
  have h_preds : Field.preds.Holds (store preds popped) (preds.map (List.map Fin.val)) := rfl
  have h_sources : (preds.map (List.map Fin.val)).get i = (preds.get i).map Fin.val :=
    Vector.getElem_map _ i.isLt
  refine ⟨_, step_eq h_range w i rest, ?_⟩
  rw [turnInPlace, attempt_bind_of_ok h_left, attempt_bind_of_ok h_flagged,
    attempt_bind_of_ok h_counted, attempt_bind_of_ok h_visit]
  by_cases h_holds : p.Holds w.progress.tables i
  · simp only [h_holds, decide_true, Bool.not_true, Bool.false_eq_true, ↓reduceIte]
    rfl
  · simp only [h_holds, decide_false, Bool.not_false, ↓reduceIte]
    rw [attempt_bind_of_ok (h_preds.attempt_read i), h_sources]
    exact attempt_forM_enqueueInPlace preds popped (preds.get i)

theorem trace_drainInPlace (h_range : p.InRange) (preds : Vector (List (Fin n)) n) (fuel : Nat) :
    ∀ w : Worklist n α,
      traceOf (p.drainInPlace fuel) (store preds w) = (p.drain preds fuel w).trace := by
  induction fuel with
  | zero =>
    intro w
    have h_nodes : (store preds w).queue = w.queue.map Fin.val := rfl
    rw [drainInPlace, traceOf_bind_of_ok (attempt_get _), drain.eq_def, h_nodes]
    cases w.queue <;> rfl
  | succ fuel ih =>
    intro w
    have h_nodes : (store preds w).queue = w.queue.map Fin.val := rfl
    rw [drainInPlace, traceOf_bind_of_ok (attempt_get _), drain.eq_def]
    cases h_queue : w.queue with
    | nil =>
      simp only [h_nodes, h_queue, List.map_nil]
      rfl
    | cons i rest =>
      obtain ⟨w', h_step, h_turn⟩ := attempt_turnInPlace h_range preds w i rest
      simp only [h_nodes, h_queue, List.map_cons, h_step, traceOf_bind_of_ok h_turn]
      exact ih w'

/-! ## The solvers -/

theorem trace_worklist (fuel : Nat) (seed : Tables n α) :
    p.traceInPlace .worklist fuel seed = (p.worklist fuel seed).trace := by
  have h_none : (modify fun s : Store α => { s with preds := .replicate n [] } :
      Program α PUnit).attempt seed.store =
        (.ok ⟨⟩, seed.store.withPreds (.replicate n ([] : List (Fin n)))) := by
    simp [attempt_modify, Store.withPreds]
  have h_listed := follows_listPredecessors (p := p) seed.store
  rw [traceInPlace, solveInPlace, traceOf_bind_of_ok h_none, worklist]
  unfold Follows at h_listed
  cases h_preds : p.predecessors with
  | error e =>
    simp only [h_preds] at h_listed
    obtain ⟨preds, h_listed⟩ := h_listed
    rw [traceOf_bind_of_error h_listed]
    rfl
  | ok preds =>
    simp only [h_preds] at h_listed
    have h_start : (modify fun s : Store α =>
        { s with queue := (List.range n).reverse, queued := .replicate n true } :
        Program α PUnit).attempt (seed.store.withPreds preds) =
          (.ok ⟨⟩, store preds (.start seed)) := by
      rw [attempt_modify, reverse_range]
      simp [store, Worklist.start, Store.withPreds, Tables.store]
    rw [traceOf_bind_of_ok h_listed, traceOf_bind_of_ok h_start]
    exact trace_drainInPlace (inRange_of_predecessors h_preds) preds fuel (.start seed)

/-- A program that solves a problem in place shows what the solver does. -/
theorem trace_solveInPlace (p : Problem n α) (solver : Solver) (fuel : Nat) (seed : Tables n α) :
    p.traceInPlace solver fuel seed = (p.solve solver fuel seed).trace := by
  cases solver with
  | roundRobin => exact trace_passesInPlace fuel ⟨seed, #[]⟩ seed.store
  | worklist => exact trace_worklist fuel seed

/-- Where every successor is a node, no index is ever out of range, whatever the solver, its fuel and
its seed.  Otherwise both solvers always break off: the worklist before it visits a node, at the first
stray of the first node that has one, and full passes in the first pass, at the first stray of the last
node that has one, when each of the nodes above has been visited once, from the last down. -/
theorem solve_strays (p : Problem n α) :
    (∀ solver fuel seed, p.traceInPlace solver fuel seed = (p.solve solver fuel seed).trace) ∧
      (p.InRange → ∀ solver fuel seed e,
        (p.traceInPlace solver fuel seed).status ≠ .outOfRange e) ∧
      (¬ p.InRange →
        (∃ i s, p.stray? i = some s ∧ (∀ j < i, p.stray? j = none) ∧ ∀ fuel seed,
          p.solve .worklist fuel seed = ⟨seed, [], 0, .outOfRange ⟨s, n⟩⟩) ∧
        ∃ i s, p.stray? i = some s ∧ (∀ j, i < j → p.stray? j = none) ∧ ∀ fuel seed,
          p.solve .roundRobin (fuel + 1) seed =
            ⟨(above i).foldl p.refresh seed, above i, 1, .outOfRange ⟨s, n⟩⟩) := by
  refine ⟨trace_solveInPlace p, fun h_range solver fuel seed e => ?_, fun h_range => ⟨?_, ?_⟩⟩
  · rw [trace_solveInPlace]
    exact solve_in_range h_range solver fuel seed e
  · obtain ⟨i, s, h_stray, h_below⟩ := exists_lowest_stray h_range
    exact ⟨i, s, h_stray, h_below, worklist_of_stray h_stray h_below⟩
  · obtain ⟨i, s, h_stray, h_above⟩ := exists_highest_stray h_range
    exact ⟨i, s, h_stray, h_above, roundRobin_of_stray h_stray h_above⟩

/-- Two of four nodes have successors that are no nodes. -/
def frayed : Problem 4 Int where
  succs i := #v[[1, 7], [9, 8], [3], [0, 3]].get i
  bottom := 0
  meet := max
  transfer i out := min 5 (out + i)

theorem solve_strays_frayed :
    differences.InRange ∧
      (∀ solver fuel seed e,
        (differences.traceInPlace solver fuel seed).status ≠ .outOfRange e) ∧
      ¬ frayed.InRange ∧
      (∀ fuel seed, frayed.solve .worklist fuel seed = ⟨seed, [], 0, .outOfRange ⟨7, 4⟩⟩) ∧
      ∀ fuel seed, frayed.solve .roundRobin (fuel + 1) seed =
        ⟨[3, 2].foldl frayed.refresh seed, [3, 2], 1, .outOfRange ⟨9, 4⟩⟩ := by
  have h_range : differences.InRange := by unfold InRange; decide
  have h_frayed : ¬ frayed.InRange := by unfold InRange; decide
  obtain ⟨⟨i, s, h_stray, h_below, h_worklist⟩, i', s', h_stray', h_above, h_passes⟩ :=
    (solve_strays frayed).2.2 h_frayed
  have h_lowest : frayed.stray? 0 = some 7 := by decide
  have h_highest : frayed.stray? 1 = some 9 ∧ ∀ j, 1 < j → frayed.stray? j = none := by decide
  -- no other node is the first, or the last, that has a stray
  have h_i : i = 0 := by
    by_contra h_ne
    rw [h_below 0 (Fin.pos_iff_ne_zero.mpr h_ne)] at h_lowest
    cases h_lowest
  have h_i' : i' = 1 := by
    rcases lt_trichotomy i' 1 with h_lt | h_eq | h_gt
    · rw [h_above 1 h_lt] at h_highest
      cases h_highest.1
    · exact h_eq
    · rw [h_highest.2 i' h_gt] at h_stray'
      cases h_stray'
  subst h_i h_i'
  cases h_stray.symm.trans h_lowest
  cases h_stray'.symm.trans h_highest.1
  exact ⟨h_range, (solve_strays differences).2.1 h_range, h_frayed, h_worklist, h_passes⟩

end Problem

end LiveRange.Dataflow
