import Mathlib.Data.List.NodupEquivFin
import Mathlib.Order.Basic
import LiveRange.Numbering
import LiveRange.Proofs.Repeats

/-! # Sets of temporaries as sets of numbers

What a bit set means, by itself and through a numbering:

* a number is a member of a `BitSet` when its bit is set, and sets are ordered by their
  members;
* a set of numbers `Numbering.holds` a temporary when its number is a member.  Union,
  difference and `Numbering.encode` mean the same for temporaries as for numbers, and
  `Numbering.decode` lists what is held, provided no temporary is numbered twice. -/

namespace LiveRange

/-! ## Sets of numbers in order -/

namespace BitSet

instance : Membership Nat BitSet := ⟨fun s i => s.contains i = true⟩

instance (i : Nat) (s : BitSet) : Decidable (i ∈ s) :=
  inferInstanceAs (Decidable (s.contains i = true))

theorem mem_iff {s : BitSet} {i : Nat} : i ∈ s ↔ s.contains i = true := Iff.rfl

theorem eq_of_mem_iff {s t : BitSet} (h : ∀ i, i ∈ s ↔ i ∈ t) : s = t :=
  ext fun i => Bool.eq_iff_iff.mpr (h i)

/-- A set lies below another when all its members are in that one. -/
instance : PartialOrder BitSet where
  le s t := ∀ i, i ∈ s → i ∈ t
  le_refl _ _ h := h
  le_trans _ _ _ h h' i hi := h' i (h i hi)
  le_antisymm _ _ h h' := eq_of_mem_iff fun i => ⟨h i, h' i⟩

@[simp] theorem notMem_empty (i : Nat) : i ∉ (∅ : BitSet) := by simp [mem_iff]

@[simp] theorem mem_union {s t : BitSet} {i : Nat} : i ∈ s ∪ t ↔ i ∈ s ∨ i ∈ t := by
  simp [mem_iff]

@[simp] theorem mem_sdiff {s t : BitSet} {i : Nat} : i ∈ s \ t ↔ i ∈ s ∧ i ∉ t := by
  simp [mem_iff]

theorem empty_le (s : BitSet) : ∅ ≤ s := fun i hi => absurd hi (notMem_empty i)

end BitSet

namespace Numbering

/-! ## Numbers -/

theorem nodup_ofMentions (mentions : List Temp) : (ofMentions mentions).temps.Nodup :=
  nodup_eraseDups mentions

theorem mem_ofMentions {mentions : List Temp} {t : Temp} :
    t ∈ (ofMentions mentions).temps ↔ t ∈ mentions :=
  List.mem_eraseDups

variable {numbering : Numbering} {s u : BitSet} {t : Temp} {i : Nat}

theorem getElem?_of_number? (h : numbering.number? t = some i) : numbering.temps[i]? = some t := by
  obtain ⟨h_lt, h_at, _⟩ := List.idxOf?_eq_some_iff.mp h
  rw [List.getElem?_eq_getElem h_lt, h_at]

theorem lt_size_of_number? (h : numbering.number? t = some i) : i < numbering.size :=
  (List.getElem?_eq_some_iff.mp (getElem?_of_number? h)).1

theorem number?_of_getElem? (h_nodup : numbering.temps.Nodup) (h : numbering.temps[i]? = some t) :
    numbering.number? t = some i := by
  obtain ⟨h_lt, h_at⟩ := List.getElem?_eq_some_iff.mp h
  refine List.idxOf?_eq_some_iff.mpr ⟨h_lt, h_at, fun j hj h_eq => ?_⟩
  have h_same : j = i := (List.getElem_inj h_nodup).mp (h_eq.trans h_at.symm)
  omega

theorem exists_number? (h : t ∈ numbering.temps) : ∃ i, numbering.number? t = some i :=
  Option.isSome_iff_exists.mp (List.isSome_idxOf?.mpr h)

/-- The temporaries that are mentioned go one to one with the numbers below the size of their
numbering, in the order in which they are mentioned first. -/
theorem exists_equiv_ofMentions (mentions : List Temp) :
    ∃ number : {t // t ∈ mentions} ≃ Fin (ofMentions mentions).size,
      (∀ t : {t // t ∈ mentions}, (ofMentions mentions).number? t = some (number t : Nat)) ∧
        ∀ t u, number t < number u ↔ mentions.idxOf t.1 < mentions.idxOf u.1 := by
  have h_nodup := nodup_ofMentions mentions
  let number : {t // t ∈ mentions} ≃ Fin (ofMentions mentions).size :=
    (Equiv.subtypeEquivRight fun _ => mem_ofMentions.symm).trans (h_nodup.getEquiv _).symm
  have h_get : ∀ t, (ofMentions mentions).temps.get (number t) = t := fun t =>
    congrArg Subtype.val ((h_nodup.getEquiv _).apply_symm_apply ⟨t.1, mem_ofMentions.mpr t.2⟩)
  have h_order : StrictMono fun i => mentions.idxOf ((ofMentions mentions).temps.get i) :=
    fun i j h_lt => List.pairwise_iff_get.mp (pairwise_idxOf_eraseDups mentions) i j h_lt
  refine ⟨number, fun t => number?_of_getElem? h_nodup ?_, fun t u => ?_⟩
  · rw [List.getElem?_eq_getElem (number t).isLt]
    exact congrArg some (h_get t)
  · calc number t < number u
        ↔ mentions.idxOf ((ofMentions mentions).temps.get (number t)) <
            mentions.idxOf ((ofMentions mentions).temps.get (number u)) := h_order.lt_iff_lt.symm
      _ ↔ mentions.idxOf t.1 < mentions.idxOf u.1 := by rw [h_get, h_get]

/-! ## What a set holds -/

theorem holds_iff : numbering.holds s t = true ↔ ∃ i, numbering.number? t = some i ∧ i ∈ s := by
  simp [holds, Option.any_eq_true, BitSet.mem_iff]

theorem holds_empty : numbering.holds ∅ t = false := by
  simp [holds, Option.any_eq_false]

theorem holds_mono (h : s ≤ u) (h_holds : numbering.holds s t = true) :
    numbering.holds u t = true := by
  obtain ⟨i, h_number, h_mem⟩ := holds_iff.mp h_holds
  exact holds_iff.mpr ⟨i, h_number, h i h_mem⟩

theorem holds_union :
    numbering.holds (s ∪ u) t = true ↔ numbering.holds s t = true ∨ numbering.holds u t = true := by
  simp only [holds_iff, BitSet.mem_union, and_or_left, exists_or]

theorem holds_sdiff :
    numbering.holds (s \ u) t = true ↔ numbering.holds s t = true ∧ ¬ numbering.holds u t = true := by
  cases h : numbering.number? t <;> simp [holds_iff, h]

theorem mem_foldl_insert {numbers : List Nat} :
    i ∈ numbers.foldl BitSet.insert s ↔ i ∈ s ∨ i ∈ numbers := by
  induction numbers generalizing s with
  | nil => simp
  | cons j rest ih =>
    rw [List.foldl_cons, ih, List.mem_cons, ← or_assoc]
    simp [BitSet.mem_iff, eq_comm (a := j)]

theorem mem_encode {ts : List Temp} :
    i ∈ numbering.encode ts ↔ ∃ t ∈ ts, numbering.number? t = some i := by
  simp [encode, mem_foldl_insert]

theorem holds_encode_iff {ts : List Temp} :
    numbering.holds (numbering.encode ts) t = true ↔ t ∈ ts ∧ t ∈ numbering.temps := by
  simp only [holds_iff, mem_encode]
  constructor
  · intro h_held
    obtain ⟨i, h_number, t', h_mem, h_number'⟩ := h_held
    have h_at := getElem?_of_number? h_number
    have h_same := h_at.symm.trans (getElem?_of_number? h_number')
    exact ⟨Option.some.inj h_same ▸ h_mem, List.mem_of_getElem? h_at⟩
  · intro h_mem
    obtain ⟨i, h_number⟩ := exists_number? h_mem.2
    exact ⟨i, h_number, t, h_mem.1, h_number⟩

theorem holds_encode {ts : List Temp} (h_numbered : ∀ t ∈ ts, t ∈ numbering.temps) :
    numbering.holds (numbering.encode ts) t = true ↔ t ∈ ts := by
  rw [holds_encode_iff]
  exact and_iff_left_of_imp (h_numbered t)

theorem decode_eq_filter (h_nodup : numbering.temps.Nodup) (s : BitSet) :
    numbering.decode s = numbering.temps.filter (numbering.holds s) := by
  have h_each : ∀ e ∈ numbering.temps.zipIdx,
      (if s.contains e.2 then some e.1 else none) = Option.guard (numbering.holds s) e.1 := by
    intro e he
    have h_number := number?_of_getElem? h_nodup (List.mem_zipIdx_iff_getElem?.mp he)
    simp only [Option.guard, holds, h_number, Option.any_some]
  rw [decode, List.filterMap_congr h_each]
  conv_rhs => rw [← List.zipIdx_map_fst 0 numbering.temps, ← List.filterMap_eq_filter,
    List.filterMap_map]
  rfl

theorem mem_decode (h_nodup : numbering.temps.Nodup) :
    t ∈ numbering.decode s ↔ numbering.holds s t = true := by
  simp only [decode, List.mem_filterMap, Prod.exists, List.mem_zipIdx_iff_getElem?, holds_iff]
  constructor
  · intro h_listed
    obtain ⟨t', i, h_at, h_member⟩ := h_listed
    split at h_member
    · rename_i h_mem
      cases h_member
      exact ⟨i, number?_of_getElem? h_nodup h_at, h_mem⟩
    · cases h_member
  · intro h_held
    obtain ⟨i, h_number, h_mem⟩ := h_held
    exact ⟨t, i, getElem?_of_number? h_number, if_pos h_mem⟩

/-- Listing the temporaries of a set and numbering them again gives the set back, provided it
holds numbers of temporaries only. -/
theorem encode_decode (h_nodup : numbering.temps.Nodup) (h_lt : ∀ i ∈ s, i < numbering.size) :
    numbering.encode (numbering.decode s) = s := by
  refine BitSet.eq_of_mem_iff fun i => ?_
  simp only [mem_encode, mem_decode h_nodup, holds_iff]
  constructor
  · intro h_listed
    obtain ⟨t, ⟨j, h_number, h_mem⟩, h_number'⟩ := h_listed
    rw [h_number, Option.some.injEq] at h_number'
    exact h_number' ▸ h_mem
  · intro h_mem
    have h_number := number?_of_getElem? h_nodup (List.getElem?_eq_getElem (h_lt i h_mem))
    exact ⟨_, ⟨i, h_number, h_mem⟩, h_number⟩

end Numbering

end LiveRange
