import Sol25.Program.Basic

/-!
# The expressions inside an expression

A receiver and arguments stand directly inside a message, and the values of its assignments stand
directly inside a block (`Expr.children`). What stands anywhere inside is reached in such steps
(`Expr.PartOf`), so whatever goes over from an expression to those directly inside it goes over to
all (`Expr.PartOf.of_children`).
-/

set_option autoImplicit false
set_option relaxedAutoImplicit false

namespace Sol25

/-- The expressions directly inside an expression. -/
def Expr.children : Expr → List Expr
  | .send receiver _ args _ => receiver :: args
  | .block content => content.body.map Assignment.value
  | _ => []

/-- The first expression is the second one or stands anywhere inside it. -/
inductive Expr.PartOf (part : Expr) : Expr → Prop where
  | whole : PartOf part part
  | inside {child whole : Expr} (hchild : child ∈ whole.children) (hpart : PartOf part child) :
    PartOf part whole

/-- An expression stands anywhere in the body of a method of the program. -/
def Program.HasPart (program : Program) (part : Expr) : Prop :=
  ∃ declared ∈ program.classes, ∃ method ∈ declared.methods, part.PartOf (.block method.body)

/-- What goes over to the expressions directly inside goes over to all. -/
theorem Expr.PartOf.of_children {P : Expr → Prop}
    (hchildren : ∀ whole : Expr, P whole → ∀ child ∈ whole.children, P child) {part whole : Expr}
    (hpart : part.PartOf whole) (h : P whole) : P part := by
  induction hpart with
  | whole => exact h
  | inside hchild _ ih => exact ih (hchildren _ h _ hchild)

end Sol25
