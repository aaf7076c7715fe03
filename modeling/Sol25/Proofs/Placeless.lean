import Sol25.Program.Basic

/-!
# Programs without their places

A program remembers where each of its parts was written. `Program.placeless` forgets it: every span
becomes `Span.nowhere`, and nothing else changes. Two programs are the same up to spans if they are
equal once they are placeless. A program that comes from no text at all, such as one that a grammar
or a document describes, is placeless from the start.
-/

set_option autoImplicit false
set_option relaxedAutoImplicit false

namespace Sol25

/-- The name alone. -/
def Ident.placeless (ident : Ident) : Ident := ⟨ident.name, Span.nowhere⟩

mutual

def Expr.placeless : Expr → Expr
  | .literal kind value _ => .literal kind value Span.nowhere
  | .var name _ => .var name Span.nowhere
  | .send receiver selector args _ =>
    .send receiver.placeless selector (Expr.placelessAll args) Span.nowhere
  | .block content => .block content.placeless

def Expr.placelessAll : List Expr → List Expr
  | [] => []
  | expr :: rest => expr.placeless :: Expr.placelessAll rest

def Block.placeless : Block → Block
  | ⟨params, body, _⟩ =>
    ⟨params.map Ident.placeless, Assignment.placelessAll body, Span.nowhere⟩

def Assignment.placelessAll : List Assignment → List Assignment
  | [] => []
  | assignment :: rest => assignment.placeless :: Assignment.placelessAll rest

def Assignment.placeless : Assignment → Assignment
  | ⟨target, value⟩ => ⟨target.placeless, value.placeless⟩

end

theorem Expr.placelessAll_eq_map (exprs : List Expr) :
    Expr.placelessAll exprs = exprs.map Expr.placeless := by
  induction exprs with
  | nil => rfl
  | cons expr rest ih => rw [Expr.placelessAll, ih, List.map_cons]

theorem Assignment.placelessAll_eq_map (assignments : List Assignment) :
    Assignment.placelessAll assignments = assignments.map Assignment.placeless := by
  induction assignments with
  | nil => rfl
  | cons assignment rest ih => rw [Assignment.placelessAll, ih, List.map_cons]

def Method.placeless (method : Method) : Method :=
  ⟨method.selector, method.arity, method.body.placeless, Span.nowhere⟩

def ClassDef.placeless (declared : ClassDef) : ClassDef :=
  ⟨declared.name.placeless, declared.parent.placeless, declared.methods.map Method.placeless⟩

def Program.placeless (program : Program) : Program :=
  ⟨program.classes.map ClassDef.placeless, program.description?⟩

end Sol25
