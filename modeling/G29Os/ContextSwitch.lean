import G29Os.ProcessStacks
import G29Os.StackFrames
import G29Os.Wrappers

/-!
A program that Alt-Fn takes the processor from, and what it finds in its registers when its terminal is in
front again: from the frame of `keyboard_wrapper` through `save_prog_regs` to the `iret` of
`reload_program`.
-/

namespace G29Os

open StackCode StepRun StrayWrites

variable {privileged : UInt16 → Bool} {gate : Gate} {tss : Tss} {s t : State}

end G29Os
