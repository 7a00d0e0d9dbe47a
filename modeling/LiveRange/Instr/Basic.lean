import LiveRange.Name

/-! # Machine instructions

`Instr` is an instruction as instruction selection leaves it: a template for its text
(see `LiveRange.Instr.Template`), the temporaries it defines and uses, and where control
may go next.  What the analyses ask of an instruction:

* `Instr.defs`, `Instr.uses` — the temporaries it writes and reads, in order;
* `Instr.targets`, `Instr.fallsThrough` — the labels it may jump to, and whether control
  may pass to the instruction after it;
* `Instr.isMove`, `Instr.definedLabel?` — whether it copies one temporary to another, and
  the label it stands for. -/

namespace LiveRange

/-- Where control may go after an operation that transfers it. -/
structure Targets where
  labels : List Label
  fallsThrough : Bool
deriving DecidableEq

/-- A machine instruction over temporaries. -/
inductive Instr where
  /-- An operation that reads `src` and writes `dst`.  Without `jump`, control passes to
  the next instruction. -/
  | oper (template : String) (dst src : List Temp) (jump : Option Targets)
  | move (template : String) (dst src : Temp)
  /-- The place that `name` stands for, printed as `text`. -/
  | label (text : String) (name : Label)
deriving DecidableEq

namespace Instr

/-! ## Making instructions -/

/-- An operation after which control passes to the next instruction. -/
def op (template : String) (dst src : List Temp) : Instr :=
  .oper template dst src none

/-- An unconditional transfer to one of `labels`. -/
def jump (template : String) (src : List Temp) (labels : List Label) : Instr :=
  .oper template [] src (some ⟨labels, false⟩)

/-- A conditional transfer: to one of `labels`, or to the next instruction. -/
def branch (template : String) (src : List Temp) (labels : List Label) : Instr :=
  .oper template [] src (some ⟨labels, true⟩)

/-- The place `name`, printed as the name and a colon. -/
def place (name : Label) : Instr :=
  .label (name.name ++ ":") name

/-! ## What an instruction does -/

def defs : Instr → List Temp
  | .oper _ dst _ _ => dst
  | .move _ dst _ => [dst]
  | .label _ _ => []

def uses : Instr → List Temp
  | .oper _ _ src _ => src
  | .move _ _ src => [src]
  | .label _ _ => []

/-- Every temporary an instruction names, once for each time it does: first those it
writes, then those it reads. -/
def mentions (i : Instr) : List Temp := i.defs ++ i.uses

def isMove : Instr → Bool
  | .move _ _ _ => true
  | _ => false

def isLabel : Instr → Bool
  | .label _ _ => true
  | _ => false

def targets : Instr → List Label
  | .oper _ _ _ (some t) => t.labels
  | _ => []

/-- Whether control may pass to the next instruction. -/
def fallsThrough : Instr → Bool
  | .oper _ _ _ (some t) => t.fallsThrough
  | _ => true

def definedLabel? : Instr → Option Label
  | .label _ name => some name
  | _ => none

end Instr

/-- Every temporary a body names, in the order in which they stand there. -/
def mentions (body : List Instr) : List Temp := body.flatMap Instr.mentions

end LiveRange
