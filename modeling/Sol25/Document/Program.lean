import Sol25.Document.Writer
import Sol25.Program.Basic

/-!
The document of a program. Everything stands in the order of the program, and what has an order of
its own, as parameters and arguments have, is numbered from one.
-/

set_option autoImplicit false
set_option relaxedAutoImplicit false

namespace Sol25.Document

/-- How a document calls a kind of literal. -/
def literalClass : LiteralKind → String
  | .integer => "Integer"
  | .string => "String"
  | .nilValue => "Nil"
  | .trueValue => "True"
  | .falseValue => "False"
  | .className => "class"

/-- The place of something in its order. -/
def orderAttribute (index : Nat) : Attribute := ⟨"order", toString (index + 1)⟩

def variableElement (name : String) : Element := ⟨"var", [⟨"name", name⟩], []⟩

def paramElement (index : Nat) (param : Ident) : Element :=
  ⟨"parameter", [⟨"name", param.name⟩, orderAttribute index], []⟩

mutual

/-- Every expression is wrapped, whatever it is. -/
def exprElement : Expr → Element
  | .literal kind value _ =>
    ⟨"expr", [], [⟨"literal", [⟨"class", literalClass kind⟩, ⟨"value", value⟩], []⟩]⟩
  | .var name _ => ⟨"expr", [], [variableElement name]⟩
  | .send receiver selector args _ =>
    ⟨"expr", [], [⟨"send", [⟨"selector", selector⟩],
      exprElement receiver :: argElements 0 args⟩]⟩
  | .block content => ⟨"expr", [], [blockElement content]⟩

/-- The arguments from number `index` on. -/
def argElements (index : Nat) : List Expr → List Element
  | [] => []
  | arg :: rest => ⟨"arg", [orderAttribute index], [exprElement arg]⟩ :: argElements (index + 1) rest

def blockElement : Block → Element
  | ⟨params, body, _⟩ =>
    ⟨"block", [⟨"arity", toString params.length⟩],
      params.mapIdx paramElement ++ assignmentElements 0 body⟩

/-- The assignments from number `index` on. -/
def assignmentElements (index : Nat) : List Assignment → List Element
  | [] => []
  | assignment :: rest => assignmentElement index assignment :: assignmentElements (index + 1) rest

def assignmentElement (index : Nat) : Assignment → Element
  | ⟨target, value⟩ =>
    ⟨"assign", [orderAttribute index], [variableElement target.name, exprElement value]⟩

end

def methodElement (method : Method) : Element :=
  ⟨"method", [⟨"selector", method.selector⟩], [blockElement method.body]⟩

def classElement (declared : ClassDef) : Element :=
  ⟨"class", [⟨"name", declared.name.name⟩, ⟨"parent", declared.parent.name⟩],
    declared.methods.map methodElement⟩

/-- The name that documents give to the language. -/
def language : String := "SOL25"

def programElement (program : Program) : Element :=
  ⟨"program",
    ⟨"language", language⟩ :: (program.description?.map (Attribute.mk "description")).toList,
    program.classes.map classElement⟩

/-- Writes the document of a program. -/
def Writer.program (program : Program) (writer : Writer) : Writer :=
  writer.document (programElement program)

end Sol25.Document

namespace Sol25

/-- The document of a program. -/
def Program.document (program : Program) : String := (Document.Writer.fresh.program program).text

end Sol25
