import Sol25.Compile
import Sol25.Report
import Sol25.Text.ControlSequence

/-!
The command line. It takes a program from its input and no arguments other than a request for help.
-/

set_option autoImplicit false
set_option relaxedAutoImplicit false

namespace Sol25.CommandLine

/-- What the arguments ask for. -/
inductive Request where
  | document
  | help
deriving DecidableEq

/-- What a run leaves behind. -/
structure Outcome where
  code : Nat
  output : String
  errors : String
deriving DecidableEq

def helpText : String :=
  "SOL25 parser - reads a program on stdin and writes its XML AST to stdout\n" ++
  "\n" ++
  "Usage: parse < input_file\n" ++
  "\n" ++
  "Options:\n" ++
  "  -h, --help  Print help\n"

/-- A text up to its first line end. A carriage return in front of a line feed belongs to the line
end. -/
def firstLine : List Char → List Char
  | [] => []
  | '\n' :: _ => []
  | '\r' :: '\n' :: _ => []
  | c :: rest => c :: firstLine rest

/-- Of a message about an argument only the first line is kept, as an argument may have several. -/
def refused (message : List Char) : Except Failure Request :=
  .error (.arguments (String.ofList (firstLine message)))

/-- An argument that means nothing here. It is named without what would steer the display. -/
def unexpected (argument : List Char) : Except Failure Request :=
  refused ("unexpected argument '".toList ++ Text.withoutControls argument ++ "' found".toList)

/-- A flag that was given a value although it takes none. -/
def unexpectedValue (value : List Char) : Except Failure Request :=
  refused ("unexpected value '".toList ++ Text.withoutControls value ++
    "' for '--help' found; no more were expected".toList)

/-- The first argument decides. A double dash alone ends the flags, and what follows is unexpected.
A long flag is called by its name without the value, a group of short flags by the first of
them. -/
def Request.ofArguments : List (List Char) → Except Failure Request
  | [] => .ok .document
  | ['-', '-'] :: [] => .ok .document
  | ['-', '-'] :: argument :: _ => unexpected argument
  | ('-' :: '-' :: long) :: _ =>
    let name := long.takeWhile (· ≠ '=')
    match long.drop name.length with
    | [] => if name = "help".toList then .ok .help else unexpected ('-' :: '-' :: name)
    | _ :: value =>
      if name = "help".toList then unexpectedValue value else unexpected ('-' :: '-' :: name)
  | ('-' :: flag :: _) :: _ => if flag = 'h' then .ok .help else unexpected ['-', flag]
  | argument :: _ => unexpected argument

/-- A run that ends with a fault. -/
def failed (fault : Fault) (source? : Option (List Char)) (format : Report.Format) : Outcome :=
  ⟨fault.code, "", (Report.ofFault fault source?).render format ++ "\n"⟩

/-- The run on an input of bytes, which have to be UTF-8. -/
def runOn (format : Report.Format) (input : ByteArray) : Outcome :=
  match String.fromUTF8? input with
  | none =>
    failed (.unlocated (.input
      "failed to read program from standard input: stream did not contain valid UTF-8"))
      none format
  | some source =>
    match documentOf source.toList with
    | .ok document => ⟨0, document, ""⟩
    | .error fault => failed fault (some source.toList) format

/-- What the arguments alone come to, if the input does not matter. -/
def beforeInput (arguments : List String) (format : Report.Format) : Option Outcome :=
  match Request.ofArguments (arguments.map String.toList) with
  | .ok .document => none
  | .ok .help => some ⟨0, helpText, ""⟩
  | .error failure => some (failed (.unlocated failure) none format)

/-- A whole run. The setting chooses the form of a report. -/
def run (arguments : List String) (setting? : Option String) (input : ByteArray) : Outcome :=
  let format := Report.Format.ofSetting setting?
  (beforeInput arguments format).getD (runOn format input)

end Sol25.CommandLine
