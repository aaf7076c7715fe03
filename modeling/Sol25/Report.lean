import Sol25.Fault
import Sol25.Text.Blank
import Sol25.Text.JsonString

/-!
Reports of faults, either one line for people or a JSON object for tools.
-/

set_option autoImplicit false
set_option relaxedAutoImplicit false

namespace Sol25

structure Report where
  code : Nat
  kind : String
  message : String
  location? : Option Location
deriving DecidableEq

namespace Report

/-- The two forms a report can have. -/
inductive Format where
  | human
  | json
deriving DecidableEq

/-- The form that a setting asks for. Blanks around the setting and the case of its letters do not
matter, and people come first: any other setting, or none, asks for the line. -/
def Format.ofSetting (setting? : Option String) : Format :=
  match setting? with
  | none => .human
  | some setting =>
    if (Text.trimmed setting.toList).map Char.toLower = "json".toList then .json else .human

/-- The report of a fault. The place of the fault is known only if there is a text to look it up
in. -/
def ofFault (fault : Fault) (source? : Option (List Char)) : Report :=
  ⟨fault.code, fault.category.name, fault.message,
    fault.span?.bind fun span ↦ source?.map span.location⟩

def human (report : Report) : String :=
  let head := "error[" ++ toString report.code ++ "]: " ++ report.message
  match report.location? with
  | none => head
  | some place => head ++ " at " ++ toString place.line ++ ":" ++ toString place.column

/-- A location as a member of an object that is indented by two blanks. -/
def jsonLocation : Option Location → String
  | none => "null"
  | some place =>
    "\x7b\n    \"line\": " ++ toString place.line ++
      ",\n    \"column\": " ++ toString place.column ++ "\n  \x7d"

def json (report : Report) : String :=
  "\x7b\n  \"code\": " ++ toString report.code ++
    ",\n  \"kind\": " ++ Text.jsonString report.kind ++
    ",\n  \"message\": " ++ Text.jsonString report.message ++
    ",\n  \"location\": " ++ jsonLocation report.location? ++ "\n\x7d"

def render (report : Report) : Format → String
  | .human => report.human
  | .json => report.json

end Report

end Sol25
