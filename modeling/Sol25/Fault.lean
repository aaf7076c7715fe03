import Sol25.Span
import Sol25.Text.Quoted

/-!
What can be wrong. A defect is found somewhere in the program's text and is reported with a span; a
failure concerns the program as a whole or the run, and has no place.
-/

set_option autoImplicit false
set_option relaxedAutoImplicit false

namespace Sol25

/-- The kinds of fault that a caller can tell apart without reading a message. -/
inductive Category where
  | arguments
  | input
  | output
  | lexical
  | grammatical
  | missingMain
  | undefinedName
  | arity
  | collision
  | semantic
  | internal
deriving DecidableEq

namespace Category

/-- The exit code of a run that ends with a fault of this category. -/
def code : Category → Nat
  | arguments => 10
  | input => 11
  | output => 12
  | lexical => 21
  | grammatical => 22
  | missingMain => 31
  | undefinedName => 32
  | arity => 33
  | collision => 34
  | semantic => 35
  | internal => 99

def name : Category → String
  | arguments => "arguments"
  | input => "input"
  | output => "output"
  | lexical => "lexical"
  | grammatical => "syntax"
  | missingMain => "missing-main"
  | undefinedName => "undefined"
  | arity => "arity"
  | collision => "collision"
  | semantic => "semantic"
  | internal => "internal"

end Category

/-- What is wrong at a place of the program's text. -/
inductive Defect where
  | unexpectedChar (c : Char)
  | unterminatedComment
  | unterminatedString
  | invalidEscape (c : Char)
  | unexpectedToken (expected got : String)
  | nestingTooDeep (limit : Nat)
  | missingRun
  | undefinedClass (name : String)
  | undefinedVariable (name : String)
  | undefinedMethod (className selector : String)
  | arityMismatch (selector : String) (expected got : Nat)
  | variableCollision (name : String)
  | duplicateClass (name : String)
  | duplicateMethod (className selector : String)
  | duplicateParameter (name : String)
  | circularInheritance (className : String)
deriving DecidableEq

namespace Defect

def category : Defect → Category
  | unexpectedChar _ | unterminatedComment | unterminatedString | invalidEscape _ => .lexical
  | unexpectedToken _ _ | nestingTooDeep _ => .grammatical
  | missingRun => .missingMain
  | undefinedClass _ | undefinedVariable _ | undefinedMethod _ _ => .undefinedName
  | arityMismatch _ _ _ => .arity
  | variableCollision _ => .collision
  | duplicateClass _ | duplicateMethod _ _ | duplicateParameter _ | circularInheritance _ =>
    .semantic

def message : Defect → String
  | unexpectedChar c => "Unexpected character " ++ Text.quoted c
  | unterminatedComment => "Unterminated comment"
  | unterminatedString => "Unterminated string literal"
  | invalidEscape c => "Invalid escape sequence \\" ++ c.toString
  | unexpectedToken expected got => "Unexpected token: expected " ++ expected ++ ", got " ++ got
  | nestingTooDeep limit => "Expressions nested deeper than " ++ toString limit ++ " levels"
  | missingRun => "Class Main has no parameterless run method"
  | undefinedClass name => "Undefined class: " ++ name
  | undefinedVariable name => "Undefined variable: " ++ name
  | undefinedMethod className selector =>
    "Class " ++ className ++ " does not understand " ++ selector
  | arityMismatch selector expected got =>
    "Arity mismatch in " ++ selector ++ ": selector takes " ++ toString expected ++
      ", block takes " ++ toString got
  | variableCollision name => "Assignment to parameter " ++ name
  | duplicateClass name => "Duplicate class: " ++ name
  | duplicateMethod className selector =>
    "Duplicate method " ++ selector ++ " in class " ++ className
  | duplicateParameter name => "Duplicate parameter: " ++ name
  | circularInheritance className => "Circular inheritance involving class " ++ className

end Defect

/-- What is wrong with no place in the program's text. -/
inductive Failure where
  | arguments (reason : String)
  | input (reason : String)
  | output (reason : String)
  | missingMain
  | internal (reason : String)
deriving DecidableEq

namespace Failure

def category : Failure → Category
  | arguments _ => .arguments
  | input _ => .input
  | output _ => .output
  | missingMain => .missingMain
  | internal _ => .internal

def message : Failure → String
  | arguments reason => "Invalid arguments: " ++ reason
  | input reason => "Input error: " ++ reason
  | output reason => "Output error: " ++ reason
  | missingMain => "Missing class Main"
  | internal reason => "Internal error: " ++ reason

end Failure

inductive Fault where
  | located (defect : Defect) (span : Span)
  | unlocated (failure : Failure)
deriving DecidableEq

namespace Fault

def category : Fault → Category
  | located defect _ => defect.category
  | unlocated failure => failure.category

def code (fault : Fault) : Nat := fault.category.code

def message : Fault → String
  | located defect _ => defect.message
  | unlocated failure => failure.message

def span? : Fault → Option Span
  | located _ span => some span
  | unlocated _ => none

end Fault

end Sol25
