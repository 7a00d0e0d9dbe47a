/-! # Sets of small numbers

A `BitSet` is a set of natural numbers held as the bits of one number: `i` is a member
when bit `i` is set.  Equal sets are equal values. -/

namespace LiveRange

/-- A finite set of natural numbers. -/
structure BitSet where
  bits : Nat
deriving DecidableEq

namespace BitSet

def contains (s : BitSet) (i : Nat) : Bool := s.bits.testBit i

def insert (s : BitSet) (i : Nat) : BitSet := ⟨s.bits ||| 1 <<< i⟩

instance : EmptyCollection BitSet := ⟨⟨0⟩⟩

instance : Union BitSet := ⟨fun s t => ⟨s.bits ||| t.bits⟩⟩

instance : SDiff BitSet := ⟨fun s t => ⟨s.bits ^^^ (s.bits &&& t.bits)⟩⟩

/-! ## Members -/

@[simp] theorem contains_empty (i : Nat) : (∅ : BitSet).contains i = false :=
  Nat.zero_testBit i

@[simp] theorem contains_insert (s : BitSet) (i j : Nat) :
    (s.insert i).contains j = (s.contains j || decide (i = j)) := by
  simp only [contains, insert, Nat.testBit_or, Nat.one_shiftLeft, Nat.testBit_two_pow]

@[simp] theorem contains_union (s t : BitSet) (i : Nat) :
    (s ∪ t).contains i = (s.contains i || t.contains i) :=
  Nat.testBit_or s.bits t.bits i

@[simp] theorem contains_sdiff (s t : BitSet) (i : Nat) :
    (s \ t).contains i = (s.contains i && !t.contains i) := by
  show (s.bits ^^^ (s.bits &&& t.bits)).testBit i = _
  simp only [Nat.testBit_xor, Nat.testBit_and, contains]
  cases s.bits.testBit i <;> cases t.bits.testBit i <;> rfl

theorem ext {s t : BitSet} (h : ∀ i, s.contains i = t.contains i) : s = t := by
  cases s; cases t
  exact congrArg BitSet.mk (Nat.eq_of_testBit_eq h)

end BitSet

end LiveRange
