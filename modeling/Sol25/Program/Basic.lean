import Sol25.Span

/-!
Programs as trees. A program declares classes, a class methods, a method has a block for its body,
and a block is a list of assignments whose values may hold further blocks.
-/

set_option autoImplicit false
set_option relaxedAutoImplicit false

namespace Sol25

/-- A name and the span in which it was written. -/
structure Ident where
  name : String
  span : Span
deriving DecidableEq

/-- The kinds of value that can be written out. -/
inductive LiteralKind where
  | integer
  | string
  | nilValue
  | trueValue
  | falseValue
  /-- A class that is used as a value, so that messages can be sent to it. -/
  | className
deriving DecidableEq

mutual

inductive Expr where
  | literal (kind : LiteralKind) (value : String) (span : Span)
  /-- A variable, a parameter or one of the names that every program finds bound. -/
  | var (name : String) (span : Span)
  /-- A message and its receiver. -/
  | send (receiver : Expr) (selector : String) (args : List Expr) (span : Span)
  | block (content : Block)

/-- Parameters and a body in brackets. -/
structure Block where
  params : List Ident
  body : List Assignment
  span : Span

/-- The only kind of statement. -/
structure Assignment where
  target : Ident
  value : Expr

end

namespace Expr

def span : Expr → Span
  | literal _ _ span => span
  | var _ span => span
  | send _ _ _ span => span
  | block content => content.span

/-- The class that an expression denotes, if it is the name of one. -/
def className? : Expr → Option String
  | literal .className value _ => some value
  | _ => none

end Expr

/-- The number of arguments with which a block is evaluated. -/
def Block.arity (block : Block) : Nat := block.params.length

structure Method where
  selector : String
  /-- The number of arguments that the selector asks for. -/
  arity : Nat
  body : Block
  span : Span

structure ClassDef where
  name : Ident
  parent : Ident
  methods : List Method

structure Program where
  classes : List ClassDef
  /-- The text of the first comment. -/
  description? : Option String

end Sol25
