import LiveRange.BitSet
import LiveRange.Name

/-! # Numbered temporaries

A `Numbering` lists temporaries without repetition; the number of a temporary is its
position in the list.  Through a numbering a set of temporaries is a `BitSet`:

* `Numbering.encode` — the bit set of the listed temporaries among some;
* `Numbering.decode` — the temporaries of a bit set, in the order of their numbers. -/

namespace LiveRange

/-- Temporaries, each known by its position. -/
structure Numbering where
  temps : List Temp
deriving DecidableEq

namespace Numbering

/-- Numbers temporaries by first mention. -/
def ofMentions (mentions : List Temp) : Numbering := ⟨mentions.eraseDups⟩

def size (numbering : Numbering) : Nat := numbering.temps.length

def number? (numbering : Numbering) (t : Temp) : Option Nat := numbering.temps.idxOf? t

/-- The numbers of some temporaries.  A temporary without a number is left out. -/
def encode (numbering : Numbering) (ts : List Temp) : BitSet :=
  (ts.filterMap numbering.number?).foldl BitSet.insert ∅

/-- The temporaries of a set of numbers, in the order of their numbers. -/
def decode (numbering : Numbering) (s : BitSet) : List Temp :=
  numbering.temps.zipIdx.filterMap fun (t, i) => if s.contains i then some t else none

/-- Whether the number of a temporary is in a set. -/
def holds (numbering : Numbering) (s : BitSet) (t : Temp) : Bool :=
  (numbering.number? t).any s.contains

end Numbering

end LiveRange
