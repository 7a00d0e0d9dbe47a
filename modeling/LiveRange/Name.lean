import Std.Data.ExtTreeSet

/-! # Temporaries and labels

The two kinds of names a body of instructions is written with:

* `Temp` — a virtual register.  A machine register is a temporary with a well-known name.
* `Label` — a place in a body that a jump can name.
* `TempSet` — a finite set of temporaries, listed in the order of their names.
* `TempSupply`, `LabelSupply` — fresh names `t0`, `t1`, … and `L0`, `L1`, … for one body.

Names are equal when their texts are, and are ordered by their texts, code point by
code point. -/

namespace LiveRange

/-- A virtual register, known by its name alone. -/
structure Temp where
  name : String
deriving DecidableEq, Inhabited

/-- A place in a body of instructions, known by its name alone. -/
structure Label where
  name : String
deriving DecidableEq, Inhabited

/-! ## Order -/

instance : Ord Temp := ⟨compareOn Temp.name⟩

instance : Std.TransOrd Temp := inferInstanceAs (Std.TransCmp (compareOn Temp.name))

instance : Std.LawfulEqOrd Temp where
  eq_of_compare {a b} h := by
    cases a; cases b
    exact congrArg Temp.mk (Std.LawfulEqOrd.eq_of_compare h)

instance : Ord Label := ⟨compareOn Label.name⟩

instance : Std.TransOrd Label := inferInstanceAs (Std.TransCmp (compareOn Label.name))

instance : Std.LawfulEqOrd Label where
  eq_of_compare {a b} h := by
    cases a; cases b
    exact congrArg Label.mk (Std.LawfulEqOrd.eq_of_compare h)

/-- A finite set of temporaries.  Two sets with the same members are equal, and `toList`
lists the members in increasing order of their names. -/
abbrev TempSet := Std.ExtTreeSet Temp compare

/-! ## Fresh names -/

/-- Hands out `t0`, `t1`, … for one body. -/
structure TempSupply where
  next : Nat := 0
deriving DecidableEq, Inhabited

def TempSupply.fresh (supply : TempSupply) : Temp × TempSupply :=
  (⟨"t" ++ toString supply.next⟩, ⟨supply.next + 1⟩)

/-- Hands out `L0`, `L1`, … for one body. -/
structure LabelSupply where
  next : Nat := 0
deriving DecidableEq, Inhabited

def LabelSupply.fresh (supply : LabelSupply) : Label × LabelSupply :=
  (⟨"L" ++ toString supply.next⟩, ⟨supply.next + 1⟩)

end LiveRange
