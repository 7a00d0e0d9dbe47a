import Std.Data.TreeMap

/-! # Handles of graph nodes

A graph hands out a `NodeId` for every node it creates.  The handle holds the tag of that
graph and the position at which the node was created, so it can be told from every handle
of an unrelated graph and stays valid when the graph is copied.

* `GraphTag` — what tells graphs apart: each graph and each copy is made under its own.
* `TagSupply` — hands out tags that were not handed out before, in increasing order.
* `NodeId` — a handle, ordered by tag and then by position.

Serials and positions are natural numbers, so the model is for fewer than 2^32 graphs, copies
included, and for fewer than 2^32 nodes in each, those that were removed included.  A program that
keeps both in 32 bits would start over with the serials after that many graphs, and could not make
a further node after that many nodes. -/

namespace LiveRange

/-- Tells one graph from another. -/
structure GraphTag where
  serial : Nat
deriving DecidableEq, Inhabited

/-- Hands out graph tags, each greater than all before it. -/
structure TagSupply where
  next : Nat := 0
deriving DecidableEq, Inhabited

def TagSupply.fresh (supply : TagSupply) : GraphTag × TagSupply :=
  (⟨supply.next⟩, ⟨supply.next + 1⟩)

/-- A handle to a node: the tag of the graph that created the node, and how many nodes
were created before it on that graph's line of copies. -/
structure NodeId where
  tag : GraphTag
  index : Nat
deriving DecidableEq, Inhabited

/-- A handle prints as its position. -/
def NodeId.text (id : NodeId) : String := toString id.index

/-! ## Order -/

instance : Ord GraphTag := ⟨compareOn GraphTag.serial⟩

instance : Std.TransOrd GraphTag := inferInstanceAs (Std.TransCmp (compareOn GraphTag.serial))

instance : Std.LawfulEqOrd GraphTag where
  eq_of_compare {a b} h := by
    cases a; cases b
    exact congrArg GraphTag.mk (Std.LawfulEqOrd.eq_of_compare h)

instance : Ord NodeId := ⟨compareLex (compareOn NodeId.tag) (compareOn NodeId.index)⟩

instance : Std.TransOrd NodeId :=
  inferInstanceAs (Std.TransCmp (compareLex (compareOn NodeId.tag) (compareOn NodeId.index)))

instance : Std.LawfulEqOrd NodeId where
  eq_of_compare {a b} h := by
    cases a; cases b
    have h_both := Ordering.then_eq_eq.mp h
    exact congr (congrArg NodeId.mk (Std.LawfulEqOrd.eq_of_compare h_both.1))
      (Std.LawfulEqOrd.eq_of_compare h_both.2)

end LiveRange
