import TreeScript.Data.Written
import TreeScript.Scope

/-!
# Written scopes

Frames and stacks for a reader: a frame with its name, the names it binds and
its parent, a stack with the names of its frames, innermost first.
-/

namespace TreeScript.Scope

variable {α : Type}

def writtenFrame (s : Scope α) (f : FrameId) : String :=
  let frame := s.frame f
  let parent := match frame.parent with
    | some p => s!", parent={Text.quoted (s.frame p).name}"
    | none => ""
  s!"<Frame {Text.quoted frame.name} bindings=[{commaSeparated frame.bindings.keys}]{parent}>"

def written (s : Scope α) : String :=
  s!"<Environment stack=[{commaSeparated (s.names.map Text.quoted)}]>"

end TreeScript.Scope
