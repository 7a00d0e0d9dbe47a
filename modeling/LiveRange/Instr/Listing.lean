import LiveRange.Instr.Template

/-! # Listings

`listing` writes a body one instruction to a line.  Places start at the margin and
everything else is indented by four columns. -/

namespace LiveRange

def Instr.line (i : Instr) : String :=
  (if i.isLabel then "" else "    ") ++ i.text ++ "\n"

/-- The text of a body, one instruction to a line. -/
def listing (body : List Instr) : String :=
  String.join (body.map Instr.line)

end LiveRange
