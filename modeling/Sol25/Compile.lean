import Sol25.Analysis.Basic
import Sol25.Document.Program
import Sol25.Program.Session

/-!
From the text of a program to its document. The whole text is divided into tokens before the first
of them is read, and the whole program is read before it is checked, so a fault of an earlier stage
comes before all those of a later one.
-/

set_option autoImplicit false
set_option relaxedAutoImplicit false

namespace Sol25

/-- The document of the program that a text holds, or the first fault in it. -/
def documentOf (text : List Char) : Except Fault String :=
  match Program.ofText text with
  | .error fault => .error fault
  | .ok program =>
    match (Analyzer.fresh.analyze program).1 with
    | some fault => .error fault
    | none => .ok program.document

end Sol25
