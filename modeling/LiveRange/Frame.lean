import LiveRange.Instr.Basic

/-! # Frames

What register allocation needs to know of a calling convention: the machine registers,
and the ones whose values matter to the caller when the procedure ends.  `Frame.close`
makes the second fact visible to liveness by an empty operation at the end of the body
that uses those registers. -/

namespace LiveRange

/-- The registers of a machine, as seen by one procedure. -/
structure Frame where
  /-- Every machine register, including those no temporary may be given. -/
  registers : List Temp
  /-- The registers whose values must survive to the end of the procedure. -/
  returnSink : List Temp
deriving DecidableEq

namespace Frame

def sink (frame : Frame) : Instr := .op "" [] frame.returnSink

def close (frame : Frame) (body : List Instr) : List Instr := body ++ [frame.sink]

/-! ## The 32-bit x86 convention -/

def x86 : Frame where
  registers := ["eax", "ebp", "ebx", "ecx", "edi", "edx", "eip", "esi", "esp"].map Temp.mk
  returnSink := ["eax", "ebp", "esp", "ebx", "esi", "edi"].map Temp.mk

def x86ReturnValue : Temp := ⟨"eax"⟩

def x86FramePointer : Temp := ⟨"ebp"⟩

end Frame

end LiveRange
