import Mathlib.Data.Nat.Init
import LiveRange.Dataflow.Solver
import LiveRange.Proofs.Fallible

/-! # The equations of a dataflow problem

What it means for tables to solve a problem, and what one visit does to them when every
successor is a node:

* `Problem.InRange` — every successor is a node, so a visit never fails;
* `Problem.gather` — the meet of the values before the successors of a node;
* `Problem.Holds`, `Problem.Solves` — the two equations hold at one node, at every node;
* `Problem.refresh` — the tables after a visit; `Problem.visit_eq` says that a visit computes
  them and reports a change exactly where the equations did not hold.

A solver's progress is measured by what is known of every row.  `Problem.Improves` says
that one such property leads to the next, whatever node is visited, and a `Problem.Plan` is
a chain of them that ends in a solution. -/

namespace LiveRange.Dataflow

universe u

variable {n : Nat} {α : Type u}

namespace Problem

/-! ## The equations -/

def InRange (p : Problem n α) : Prop := ∀ i, ∀ s ∈ p.succs i, s < n

/-- The meet, starting from `bottom`, of the values before the successors of a node.  A
successor that is no node adds nothing. -/
def gather (p : Problem n α) (ins : Fin n → α) (i : Fin n) : α :=
  (p.succs i).foldl (fun value s => if h : s < n then p.meet value (ins ⟨s, h⟩) else value) p.bottom

/-- Both equations hold at a node. -/
structure Holds (p : Problem n α) (t : Tables n α) (i : Fin n) : Prop where
  outs : t.outs.get i = p.gather t.ins.get i
  ins : t.ins.get i = p.transfer i (t.outs.get i)

instance [DecidableEq α] (p : Problem n α) (t : Tables n α) (i : Fin n) : Decidable (p.Holds t i) :=
  decidable_of_iff (t.outs.get i = p.gather t.ins.get i ∧ t.ins.get i = p.transfer i (t.outs.get i))
    ⟨fun h => ⟨h.1, h.2⟩, fun h => ⟨h.outs, h.ins⟩⟩

def Solves (p : Problem n α) (t : Tables n α) : Prop := ∀ i, p.Holds t i

end Problem

theorem Tables.ext_rows {t u : Tables n α} (h_ins : ∀ i, t.ins.get i = u.ins.get i)
    (h_outs : ∀ i, t.outs.get i = u.outs.get i) : t = u := by
  cases t; cases u
  congr 1
  · exact Vector.ext fun i h => h_ins ⟨i, h⟩
  · exact Vector.ext fun i h => h_outs ⟨i, h⟩

theorem get_set_eq (v : Vector α n) (i : Fin n) (a : α) (j : Fin n) :
    (v.set i a i.isLt).get j = if j = i then a else v.get j := by
  show (v.set i a i.isLt)[(j : Nat)] = if j = i then a else v[(j : Nat)]
  simp only [Vector.getElem_set, Fin.ext_iff, eq_comm]

namespace Problem

/-- The values before the nodes tell solutions apart. -/
theorem Solves.eq_of_ins {p : Problem n α} {t u : Tables n α} (h_t : p.Solves t) (h_u : p.Solves u)
    (h : ∀ i, t.ins.get i = u.ins.get i) : t = u := by
  have h_ins : t.ins.get = u.ins.get := funext h
  exact Tables.ext_rows h fun i => by rw [(h_t i).outs, (h_u i).outs, h_ins]

/-! ## A visit -/

/-- The tables after a visit to a node: both of its values are computed anew. -/
def refresh (p : Problem n α) (t : Tables n α) (i : Fin n) : Tables n α :=
  ⟨t.ins.set i (p.transfer i (p.gather t.ins.get i)) i.isLt,
    t.outs.set i (p.gather t.ins.get i) i.isLt⟩

variable (p : Problem n α) (t : Tables n α)

@[simp] theorem refresh_ins_self (i : Fin n) :
    (p.refresh t i).ins.get i = p.transfer i (p.gather t.ins.get i) := by
  simp [refresh, get_set_eq]

@[simp] theorem refresh_outs_self (i : Fin n) :
    (p.refresh t i).outs.get i = p.gather t.ins.get i := by
  simp [refresh, get_set_eq]

theorem refresh_ins_of_ne {i j : Fin n} (h : j ≠ i) :
    (p.refresh t i).ins.get j = t.ins.get j := by
  simp [refresh, get_set_eq, h]

theorem refresh_outs_of_ne {i j : Fin n} (h : j ≠ i) :
    (p.refresh t i).outs.get j = t.outs.get j := by
  simp [refresh, get_set_eq, h]

/-- A visit changes nothing exactly where the equations hold. -/
theorem refresh_eq_self_iff (i : Fin n) : p.refresh t i = t ↔ p.Holds t i := by
  constructor
  · intro h
    have h_outs := refresh_outs_self p t i
    have h_ins := refresh_ins_self p t i
    rw [h] at h_outs h_ins
    exact ⟨h_outs, by rw [h_outs]; exact h_ins⟩
  · intro h
    -- the visited row is computed from equations that hold, and no other row is touched
    apply Tables.ext_rows
    · intro j
      by_cases hj : j = i
      · subst hj
        rw [refresh_ins_self, ← h.outs, ← h.ins]
      · exact refresh_ins_of_ne p t hj
    · intro j
      by_cases hj : j = i
      · subst hj
        rw [refresh_outs_self, ← h.outs]
      · exact refresh_outs_of_ne p t hj

variable {p}

theorem read_of_lt {i : Fin n} (h_lt : ∀ s ∈ p.succs i, s < n) (ins : Vector α n) :
    p.read ins i = .ok (p.gather ins.get i) := by
  unfold read gather
  apply foldlM_eq_ok
  intro value s hs
  have hn : s < n := h_lt s hs
  simp only [hn, ↓reduceDIte]
  rfl

/-- Where every successor of the node is a node, a visit refreshes the tables, and reports a change
when an equation did not hold. -/
theorem visit_of_lt [DecidableEq α] {i : Fin n} (h_lt : ∀ s ∈ p.succs i, s < n)
    (progress : Progress n α) :
    p.visit progress i = .ok (⟨p.refresh progress.tables i, progress.visits.push i⟩,
      !decide (p.Holds progress.tables i)) := by
  -- to compare the fresh values with the old ones is to test both equations
  have h_changed : (p.gather progress.tables.ins.get i ≠ progress.tables.outs.get i ∨
      p.transfer i (p.gather progress.tables.ins.get i) ≠ progress.tables.ins.get i) ↔
      ¬ p.Holds progress.tables i := by
    constructor
    · intro h_diff h_holds
      obtain ⟨h_outs, h_ins⟩ := h_holds
      rw [h_ins, h_outs] at h_diff
      simp at h_diff
    · intro h
      refine Decidable.byContradiction fun h_diff => ?_
      simp only [ne_eq, not_or, Decidable.not_not] at h_diff
      exact h ⟨h_diff.1.symm, by rw [← h_diff.1, h_diff.2]⟩
  simp only [visit, read_of_lt h_lt, bind, Except.bind, pure, Except.pure, h_changed, decide_not]
  rfl

theorem visit_eq [DecidableEq α] (h_range : p.InRange) (progress : Progress n α) (i : Fin n) :
    p.visit progress i = .ok (⟨p.refresh progress.tables i, progress.visits.push i⟩,
      !decide (p.Holds progress.tables i)) :=
  visit_of_lt (h_range i) progress

end Problem

/-! ## Progress -/

/-- What may be asked of the row of a node: of its value before and its value after the
node. -/
abbrev RowProp (n : Nat) (α : Type u) := Fin n → α → α → Prop

def Tables.Row (t : Tables n α) (P : RowProp n α) (i : Fin n) : Prop :=
  P i (t.ins.get i) (t.outs.get i)

def Tables.All (t : Tables n α) (P : RowProp n α) : Prop := ∀ i, t.Row P i

namespace Problem

/-- A visit to any node, made while every row has the property `P`, leaves the visited row
with the property `Q`, which implies `P`. -/
structure Improves (p : Problem n α) (P Q : RowProp n α) : Prop where
  weaken : ∀ i a b, Q i a b → P i a b
  gain : ∀ t : Tables n α, t.All P → ∀ i, (p.refresh t i).Row Q i

namespace Improves

variable {p : Problem n α} {P Q : RowProp n α} {t : Tables n α}

theorem row_refresh (h : p.Improves P Q) (h_all : t.All P) (i : Fin n) {j : Fin n}
    (h_row : j = i ∨ t.Row Q j) : (p.refresh t i).Row Q j := by
  by_cases hj : j = i
  · subst hj
    exact h.gain t h_all j
  · have h_old : t.Row Q j := h_row.resolve_left hj
    unfold Tables.Row at h_old ⊢
    rw [refresh_ins_of_ne p t hj, refresh_outs_of_ne p t hj]
    exact h_old

theorem all_refresh (h : p.Improves P Q) (h_all : t.All P) (i : Fin n) :
    (p.refresh t i).All P := by
  intro j
  by_cases hj : j = i
  · exact h.weaken j _ _ (h.row_refresh h_all i (.inl hj))
  · unfold Tables.Row
    rw [refresh_ins_of_ne p t hj, refresh_outs_of_ne p t hj]
    exact h_all j

/-- Where the equations hold a visit is not needed: it would change nothing. -/
theorem row_of_holds (h : p.Improves P Q) (h_all : t.All P) {i : Fin n} (h_holds : p.Holds t i) :
    t.Row Q i := by
  have h_row := h.gain t h_all i
  rwa [(refresh_eq_self_iff p t i).mpr h_holds] at h_row

end Improves

/-- Properties of rows, each improving the one before it, the last of which only one solution
has. -/
structure Plan (p : Problem n α) (P : Nat → RowProp n α) (m : Nat) (sol : Tables n α) :
    Prop where
  improves : ∀ k < m, p.Improves (P k) (P (k + 1))
  last : ∀ t : Tables n α, t.All (P m) → t = sol
  solves : p.Solves sol

theorem Plan.eq_of_solves {p : Problem n α} {P : Nat → RowProp n α} {m : Nat}
    {sol t : Tables n α} (h : p.Plan P m sol) {k : Nat} (hk : k ≤ m) (h_all : t.All (P k))
    (h_solves : p.Solves t) : t = sol := by
  -- a visit would change nothing, so each stage gives the next one
  induction hk using Nat.decreasingInduction with
  | self => exact h.last t h_all
  | of_succ k hk ih => exact ih fun i => (h.improves k hk).row_of_holds h_all (h_solves i)

end Problem

end LiveRange.Dataflow
