import LiveRange.Instr.Basic

/-! # Instruction templates

The text of an instruction is a template in which a reference stands for one operand: a
backtick, one character that says which list of operands is meant (`d` for the
temporaries written, `s` for those read, `j` for the jump labels), and the decimal
position in that list.

* `Template.cut` — cuts a template from the left into `Token`s, losing nothing;
* `Token.resolve?` — the operand a token refers to, if it refers to one;
* `Template.fill` — the text with every reference that resolves replaced by its operand.

An operand's name is copied as it is and never searched for references, and a token that
resolves to nothing is copied unchanged. -/

namespace LiveRange

/-- One piece of a template. -/
inductive Token where
  /-- A character that starts no reference. -/
  | plain (c : Char)
  /-- The mark, the character after it, and all decimal digits that follow. -/
  | ref (kind : Char) (digits : List Char)
  /-- A mark that ends the template. -/
  | lone
deriving DecidableEq

/-- The operands a template can refer to. -/
structure Operands where
  dst : List Temp := []
  src : List Temp := []
  labels : List Label := []

namespace Template

/-- The character that starts a reference, a backtick. -/
def mark : Char := '\x60'

/-- Cuts a template into tokens, from the left.  The character after a mark is taken
whatever it is, and then as many digits as there are. -/
def cut : List Char → List Token
  | [] => []
  | c :: rest =>
    if c = mark then
      match rest with
      | [] => [.lone]
      | kind :: rest => .ref kind (rest.takeWhile Char.isDigit) :: cut (rest.dropWhile Char.isDigit)
    else .plain c :: cut rest
termination_by cs => cs.length
decreasing_by
  · have h_le := (List.dropWhile_sublist (l := rest) Char.isDigit).length_le
    simp only [List.length_cons]
    omega
  · simp

end Template

namespace Token

/-- The characters a token was cut from. -/
def source : Token → List Char
  | .plain c => [c]
  | .ref kind digits => Template.mark :: kind :: digits
  | .lone => [Template.mark]

def decimal (digits : List Char) : Nat :=
  digits.foldl (fun v d => 10 * v + (d.toNat - '0'.toNat)) 0

/-- The position that a run of digits writes: there must be a digit, and the number must
fit into 64 bits. -/
def position? (digits : List Char) : Option Nat :=
  if digits ≠ [] ∧ decimal digits < UInt64.size then some (decimal digits) else none

def resolve? (ops : Operands) : Token → Option String
  | .ref kind digits =>
    if kind = 'd' then (position? digits).bind (ops.dst[·]?) |>.map Temp.name
    else if kind = 's' then (position? digits).bind (ops.src[·]?) |>.map Temp.name
    else if kind = 'j' then (position? digits).bind (ops.labels[·]?) |>.map Label.name
    else none
  | _ => none

/-- What a token prints: the operand it refers to, or else itself. -/
def fill (ops : Operands) (token : Token) : List Char :=
  match token.resolve? ops with
  | some name => name.toList
  | none => token.source

end Token

def Template.fill (template : String) (ops : Operands) : String :=
  String.ofList ((Template.cut template.toList).flatMap (Token.fill ops))

/-- The operands an instruction's template can refer to: a move has one of each kind of
temporary and no labels. -/
def Instr.operands (i : Instr) : Operands := ⟨i.defs, i.uses, i.targets⟩

/-- The text of an instruction.  A place prints the text it was given, in which nothing
is replaced. -/
def Instr.text : Instr → String
  | .label text _ => text
  | i@(.oper template _ _ _) => Template.fill template i.operands
  | i@(.move template _ _) => Template.fill template i.operands

/-! ## Nothing is lost by cutting -/

/-- The tokens of a template, put together again, are the template. -/
theorem Template.flatMap_source_cut (cs : List Char) :
    (Template.cut cs).flatMap Token.source = cs := by
  fun_induction Template.cut cs with
  | case1 => rfl
  | case2 => rfl
  | case3 kind rest ih => simp [Token.source, ih, List.takeWhile_append_dropWhile]
  | case4 c rest h ih => simp [Token.source, ih]

end LiveRange
