import Mathlib.Data.Finset.SDiff
import Mathlib.Data.Fintype.Card
import LiveRange.Dataflow.Lattice
import LiveRange.Proofs.Dataflow.LeastSolution
import LiveRange.Proofs.Numbering

/-! # Problems over sets

In a `genKill` problem each element lives by itself: whether it is in a set depends on where
it was before, and on no other element.  So the nodes whose sets hold one element grow from
round to round until they grow no more, which they can do at most as often as there are nodes
(`ascend_genKill_rest`).  Both solvers settle within a bound that does not depend on the
elements (`solve_genKill`).

How sets are represented does not matter, as long as they form a `SetAlgebra`. -/

namespace LiveRange

/-! ## Sets -/

/-- Sets that are told apart and ordered by their members, and in which unions and differences
have the members they should. -/
class SetAlgebra (β : outParam Type) (σ : Type) [Membership β σ] [EmptyCollection σ] [Union σ]
    [SDiff σ] [PartialOrder σ] : Prop where
  notMem_empty (e : β) : e ∉ (∅ : σ)
  mem_union {s t : σ} {e : β} : e ∈ s ∪ t ↔ e ∈ s ∨ e ∈ t
  mem_sdiff {s t : σ} {e : β} : e ∈ s \ t ↔ e ∈ s ∧ e ∉ t
  le_iff {s t : σ} : s ≤ t ↔ ∀ e : β, e ∈ s → e ∈ t

instance : SetAlgebra Nat BitSet where
  notMem_empty := BitSet.notMem_empty
  mem_union := BitSet.mem_union
  mem_sdiff := BitSet.mem_sdiff
  le_iff := Iff.rfl

instance {β : Type} [DecidableEq β] : SetAlgebra β (Finset β) where
  notMem_empty := Finset.notMem_empty
  mem_union := Finset.mem_union
  mem_sdiff := Finset.mem_sdiff
  le_iff := Iff.rfl

namespace SetAlgebra

variable {β σ : Type} [Membership β σ] [EmptyCollection σ] [Union σ] [SDiff σ] [PartialOrder σ]
  [SetAlgebra β σ] {s t : σ}

theorem eq_of_mem_iff (h : ∀ e : β, e ∈ s ↔ e ∈ t) : s = t := by
  refine le_antisymm ?_ ?_
  · exact (le_iff (β := β)).mpr fun e => (h e).mp
  · exact (le_iff (β := β)).mpr fun e => (h e).mpr

include β in
theorem empty_le (s : σ) : ∅ ≤ s :=
  (le_iff (β := β)).mpr fun e h => absurd h (notMem_empty e)

end SetAlgebra

namespace Dataflow.Problem

variable {n : Nat} {succs : Fin n → List Nat} {β σ : Type} [Membership β σ] [EmptyCollection σ]
  [Union σ] [SDiff σ] [PartialOrder σ] [SetAlgebra β σ] {gen kill : Fin n → σ}

include β

/-! ## One round -/

theorem mem_gather_genKill {ins : Fin n → σ} {i : Fin n} {e : β} :
    e ∈ (genKill succs gen kill).gather ins i ↔ ∃ s : Fin n, (s : Nat) ∈ succs i ∧ e ∈ ins s := by
  have h_fold : ∀ (nexts : List Nat) (acc : σ),
      e ∈ nexts.foldl (fun value s => if h : s < n then value ∪ ins ⟨s, h⟩ else value) acc ↔
        e ∈ acc ∨ ∃ s : Fin n, (s : Nat) ∈ nexts ∧ e ∈ ins s := by
    intro nexts
    induction nexts with
    | nil => simp
    | cons s rest ih =>
      intro acc
      rw [List.foldl_cons, ih]
      by_cases hs : s < n
      · have h_self : ∀ s' : Fin n, (s' : Nat) = s ↔ s' = ⟨s, hs⟩ := fun s' => by rw [Fin.ext_iff]
        simp only [hs, ↓reduceDIte, SetAlgebra.mem_union, List.mem_cons, h_self, or_and_right,
          exists_or, exists_eq_left, or_assoc]
      · have h_self : ∀ s' : Fin n, (s' : Nat) ≠ s := fun s' h => hs (h ▸ s'.isLt)
        simp only [hs, ↓reduceDIte, List.mem_cons, h_self, false_or]
  refine (h_fold (succs i) ∅).trans ?_
  simp only [SetAlgebra.notMem_empty, false_or]

theorem mem_advance_genKill {ins : Fin n → σ} {i : Fin n} {e : β} :
    e ∈ (genKill succs gen kill).advance ins i ↔
      e ∈ gen i ∨ e ∈ (genKill succs gen kill).gather ins i ∧ e ∉ kill i := by
  show e ∈ gen i ∪ (_ \ kill i) ↔ _
  rw [SetAlgebra.mem_union, SetAlgebra.mem_sdiff]

/-- What a set holds after any number of rounds was generated at some node. -/
theorem exists_gen_of_mem_ascend {k : Nat} {e : β} {i : Fin n}
    (h : e ∈ (genKill succs gen kill).ascend k i) : ∃ j, e ∈ gen j := by
  induction k generalizing i with
  | zero => exact absurd h (SetAlgebra.notMem_empty e)
  | succ k ih =>
    rw [ascend, mem_advance_genKill, mem_gather_genKill] at h
    rcases h with h_gen | ⟨⟨s, _, h_mem⟩, _⟩
    · exact ⟨i, h_gen⟩
    · exact ih h_mem

theorem isMonotone_genKill : (genKill succs gen kill).IsMonotone where
  meet {a b c d} h h' := by
    show a ∪ c ≤ b ∪ d
    simp only [SetAlgebra.le_iff (β := β), SetAlgebra.mem_union] at h h' ⊢
    exact fun e => Or.imp (h e) (h' e)
  transfer i {a b} h := by
    show gen i ∪ (a \ kill i) ≤ gen i ∪ (b \ kill i)
    simp only [SetAlgebra.le_iff (β := β), SetAlgebra.mem_union, SetAlgebra.mem_sdiff] at h ⊢
    exact fun e => Or.imp_right (And.imp_left (h e))

/-! ## Rest -/

open scoped Classical in
/-- The nodes whose sets hold an element after so many rounds. -/
noncomputable def holders (p : Problem n σ) (e : β) (k : Nat) : Finset (Fin n) :=
  Finset.univ.filter fun i => e ∈ p.ascend k i

omit [EmptyCollection σ] [Union σ] [SDiff σ] [PartialOrder σ] [SetAlgebra β σ] in
@[simp] theorem mem_holders {p : Problem n σ} {e : β} {k : Nat} {i : Fin n} :
    i ∈ p.holders e k ↔ e ∈ p.ascend k i := by
  simp [holders]

theorem holders_mono (e : β) : Monotone ((genKill succs gen kill).holders e) := by
  intro k l hkl i hi
  rw [mem_holders] at hi ⊢
  exact SetAlgebra.le_iff.mp (ascend_mono isMonotone_genKill SetAlgebra.empty_le i hkl) e hi

/-- Which nodes hold an element after a round depends only on which held it before. -/
theorem holders_succ_congr {e : β} {k l : Nat}
    (h : (genKill succs gen kill).holders e k = (genKill succs gen kill).holders e l) :
    (genKill succs gen kill).holders e (k + 1) = (genKill succs gen kill).holders e (l + 1) := by
  have h_mem : ∀ s,
      e ∈ (genKill succs gen kill).ascend k s ↔ e ∈ (genKill succs gen kill).ascend l s := by
    intro s
    rw [← mem_holders, ← mem_holders, h]
  ext i
  simp only [mem_holders, ascend, mem_advance_genKill, mem_gather_genKill, h_mem]

/-- The rounds come to rest after at most as many as there are nodes. -/
theorem ascend_genKill_rest :
    (genKill succs gen kill).ascend (n + 1) = (genKill succs gen kill).ascend n := by
  let p := genKill succs gen kill
  funext i
  refine SetAlgebra.eq_of_mem_iff fun e => ?_
  rw [← mem_holders, ← mem_holders]
  -- a growing chain of sets of nodes stands still before it runs out of nodes, and from then on
  suffices h : p.holders e n = p.holders e (n + 1) by rw [← h]
  have h_card : ∀ k l, k ≤ l → (p.holders e k).card = (p.holders e l).card →
      p.holders e k = p.holders e l := fun k l hkl h_eq =>
    Finset.eq_of_subset_of_card_le (holders_mono e hkl) h_eq.ge
  refine h_card n (n + 1) (Nat.le_succ n) ?_
  refine (Nat.stabilises_of_monotone (Finset.card_mono.comp (holders_mono e)) ?_ ?_ (Nat.le_succ n)).symm
  · exact fun k => card_finset_fin_le _
  · intro k h_eq
    exact congrArg Finset.card (holders_succ_congr (h_card k (k + 1) (Nat.le_succ k) h_eq))

theorem ascend_genKill_le (k : Nat) (i : Fin n) :
    (genKill succs gen kill).ascend k i ≤ (genKill succs gen kill).ascend n i := by
  have h_rest : (genKill succs gen kill).advance _ = _ := ascend_genKill_rest
  have h_le := ascend_le_of_solves isMonotone_genKill SetAlgebra.empty_le (tablesOf_solves h_rest) k i
  rwa [tablesOf_ins] at h_le

/-- From empty sets both solvers settle on the sets after as many rounds as there are nodes,
which are the least solution. -/
theorem solve_genKill [DecidableEq σ] (h_range : (genKill succs gen kill).InRange)
    (solver : Solver) {fuel : Nat} (h_fuel : (n + 2) * (n + 1) ≤ fuel) :
    ((genKill succs gen kill).solve solver fuel (.const n ∅)).status = .settled ∧
      ((genKill succs gen kill).solve solver fuel (.const n ∅)).tables =
        (genKill succs gen kill).tablesOf ((genKill succs gen kill).ascend n) := by
  refine solve_of_rest h_range isMonotone_genKill SetAlgebra.empty_le ascend_genKill_rest ?_ solver h_fuel
  intro i
  have h_seed : (Tables.const n (∅ : σ)).ins.get i = ∅ := Vector.getElem_replicate i.isLt
  rw [h_seed]
  exact SetAlgebra.empty_le _

end Dataflow.Problem

end LiveRange
