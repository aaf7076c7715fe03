import Sol25.Proofs.Placeless
import Sol25.Token.Basic

/-!
# The grammar and its derivation trees

    program    := { "class" className ":" className "{" { method } "}" }
    method     := ( name | selector+ ) block
    block      := "[" { ":" name } "|" { assignment } "]"
    assignment := name ":=" expression "."
    expression := operand ( name | { selector operand }+ )?
    operand    := literal | variable | "(" expression ")" | block

A derivation is written down as a tree with one type for every symbol of the grammar and one
constructor for every alternative. Nothing here reads tokens. A tree is asked three things: which
kinds of token it derives, from left to right (`kinds`); how deeply parentheses and blocks nest in
it (`nesting`); and which part of a program it denotes (`meaning`). What a tree denotes stands
nowhere, since kinds carry no spans.

Parentheses are a step of the derivation and leave no trace in its meaning. An operand with nothing
behind it means itself, so a message without arguments arises only from a name behind an operand.
The parts of a selector are joined, and the arguments between them keep their order.
-/

set_option autoImplicit false
set_option relaxedAutoImplicit false

namespace Sol25.Grammar

open Token (Kind)

/-- The name of a class that exists beforehand or of one that a program declares. -/
inductive ClassName where
  | builtin (which : BuiltinClass)
  | own (name : String)

namespace ClassName

def kind : ClassName → Kind
  | builtin which => .builtin which
  | own name => .classIdent name

def meaning : ClassName → Ident
  | builtin which => ⟨which.name, Span.nowhere⟩
  | own name => ⟨name, Span.nowhere⟩

end ClassName

/-- The literals and variables, each of which is one token. -/
inductive Atom where
  | integer (digits : String)
  | string (body : String)
  | nilWord
  | trueWord
  | falseWord
  | selfWord
  | superWord
  | name (word : String)
  | className (which : ClassName)

namespace Atom

def kind : Atom → Kind
  | integer digits => .intLit digits
  | string body => .stringLit body
  | nilWord => .keyword .nilWord
  | trueWord => .keyword .trueWord
  | falseWord => .keyword .falseWord
  | selfWord => .keyword .selfWord
  | superWord => .keyword .superWord
  | name word => .ident word
  | className which => which.kind

def meaning : Atom → Expr
  | integer digits => .literal .integer digits Span.nowhere
  | string body => .literal .string body Span.nowhere
  | nilWord => .literal .nilValue "nil" Span.nowhere
  | trueWord => .literal .trueValue "true" Span.nowhere
  | falseWord => .literal .falseValue "false" Span.nowhere
  | selfWord => .var "self" Span.nowhere
  | superWord => .var "super" Span.nowhere
  | name word => .var word Span.nowhere
  | className which => .literal .className which.meaning.name Span.nowhere

end Atom

mutual

inductive OperandTree where
  | atom (atom : Atom)
  | parenthesized (inner : ExpressionTree)
  | block (content : BlockTree)

inductive ExpressionTree where
  | plain (operand : OperandTree)
  | unary (receiver : OperandTree) (selector : String)
  /-- One argument at least, each behind its part of the selector. -/
  | keyword (receiver : OperandTree) (first : ArgumentTree) (others : List ArgumentTree)

/-- A part of a selector and the operand behind it. -/
structure ArgumentTree where
  part : String
  operand : OperandTree

structure BlockTree where
  params : List String
  body : List AssignmentTree

structure AssignmentTree where
  target : String
  value : ExpressionTree

end

/-- A parameter stands behind a colon. -/
def paramKinds (param : String) : List Kind := [.mark .colon, .ident param]

/-- A name that stands nowhere. -/
def placelessIdent (name : String) : Ident := ⟨name, Span.nowhere⟩

mutual

def OperandTree.kinds : OperandTree → List Kind
  | .atom atom => [atom.kind]
  | .parenthesized inner => .mark .leftParen :: (inner.kinds ++ [.mark .rightParen])
  | .block content => content.kinds

def ExpressionTree.kinds : ExpressionTree → List Kind
  | .plain operand => operand.kinds
  | .unary receiver selector => receiver.kinds ++ [.ident selector]
  | .keyword receiver first others =>
    receiver.kinds ++ (first.kinds ++ argumentsKinds others)

def ArgumentTree.kinds : ArgumentTree → List Kind
  | ⟨part, operand⟩ => .selector part :: operand.kinds

def argumentsKinds : List ArgumentTree → List Kind
  | [] => []
  | argument :: rest => argument.kinds ++ argumentsKinds rest

def BlockTree.kinds : BlockTree → List Kind
  | ⟨params, body⟩ =>
    .mark .leftBracket :: ((params.flatMap paramKinds ++ [.mark .pipe]) ++
      (bodyKinds body ++ [.mark .rightBracket]))

def bodyKinds : List AssignmentTree → List Kind
  | [] => []
  | assignment :: rest => assignment.kinds ++ bodyKinds rest

def AssignmentTree.kinds : AssignmentTree → List Kind
  | ⟨target, value⟩ => .ident target :: .mark .assign :: (value.kinds ++ [.mark .dot])

end

mutual

/-- Parentheses and blocks are what nests; the rest is as deep as its deepest part. -/
def OperandTree.nesting : OperandTree → Nat
  | .atom _ => 0
  | .parenthesized inner => inner.nesting + 1
  | .block content => content.nesting + 1

def ExpressionTree.nesting : ExpressionTree → Nat
  | .plain operand => operand.nesting
  | .unary receiver _ => receiver.nesting
  | .keyword receiver first others =>
    max receiver.nesting (max first.nesting (argumentsNesting others))

def ArgumentTree.nesting : ArgumentTree → Nat
  | ⟨_, operand⟩ => operand.nesting

def argumentsNesting : List ArgumentTree → Nat
  | [] => 0
  | argument :: rest => max argument.nesting (argumentsNesting rest)

/-- How deep it gets inside the block, the block itself not counted. -/
def BlockTree.nesting : BlockTree → Nat
  | ⟨_, body⟩ => bodyNesting body

def bodyNesting : List AssignmentTree → Nat
  | [] => 0
  | assignment :: rest => max assignment.nesting (bodyNesting rest)

def AssignmentTree.nesting : AssignmentTree → Nat
  | ⟨_, value⟩ => value.nesting

end

mutual

def OperandTree.meaning : OperandTree → Expr
  | .atom atom => atom.meaning
  | .parenthesized inner => inner.meaning
  | .block content => .block content.meaning

def ExpressionTree.meaning : ExpressionTree → Expr
  | .plain operand => operand.meaning
  | .unary receiver selector => .send receiver.meaning selector [] Span.nowhere
  | .keyword receiver first others =>
    .send receiver.meaning (String.join ((first :: others).map ArgumentTree.part))
      (first.meaning :: argumentsMeaning others) Span.nowhere

def ArgumentTree.meaning : ArgumentTree → Expr
  | ⟨_, operand⟩ => operand.meaning

def argumentsMeaning : List ArgumentTree → List Expr
  | [] => []
  | argument :: rest => argument.meaning :: argumentsMeaning rest

def BlockTree.meaning : BlockTree → Block
  | ⟨params, body⟩ => ⟨params.map placelessIdent, bodyMeaning body, Span.nowhere⟩

def bodyMeaning : List AssignmentTree → List Assignment
  | [] => []
  | assignment :: rest => assignment.meaning :: bodyMeaning rest

def AssignmentTree.meaning : AssignmentTree → Assignment
  | ⟨target, value⟩ => ⟨placelessIdent target, value.meaning⟩

end

theorem BlockTree.exists_kinds_eq_cons (tree : BlockTree) :
    ∃ kinds, tree.kinds = .mark .leftBracket :: kinds := by
  obtain ⟨params, body⟩ := tree
  exact ⟨_, by rw [BlockTree.kinds]⟩

/-- An assignment does not begin with what closes the block around it. -/
theorem AssignmentTree.exists_kinds_eq_cons (tree : AssignmentTree) :
    ∃ kind kinds, tree.kinds = kind :: kinds ∧ kind ≠ .mark .rightBracket := by
  obtain ⟨target, value⟩ := tree
  exact ⟨.ident target, _, by rw [AssignmentTree.kinds], Kind.noConfusion⟩

theorem bodyKinds_eq_flatMap (body : List AssignmentTree) :
    bodyKinds body = body.flatMap AssignmentTree.kinds := by
  induction body with
  | nil => rfl
  | cons assignment rest ih => rw [bodyKinds, ih, List.flatMap_cons]

theorem bodyMeaning_eq_map (body : List AssignmentTree) :
    bodyMeaning body = body.map AssignmentTree.meaning := by
  induction body with
  | nil => rfl
  | cons assignment rest ih => rw [bodyMeaning, ih, List.map_cons]

/-- A body is as deep as the deepest of its assignments. -/
theorem bodyNesting_le_iff {body : List AssignmentTree} {depth : Nat} :
    bodyNesting body ≤ depth ↔ ∀ assignment ∈ body, assignment.nesting ≤ depth := by
  induction body with
  | nil => simp [bodyNesting]
  | cons assignment rest ih => rw [bodyNesting, Nat.max_le, ih, List.forall_mem_cons]

/-- The selector of a method: a name, or one part at least. -/
inductive HeadingTree where
  | name (word : String)
  | parts (first : String) (others : List String)

namespace HeadingTree

def kinds : HeadingTree → List Kind
  | name word => [.ident word]
  | parts first others => (first :: others).map .selector

def selector : HeadingTree → String
  | name word => word
  | parts first others => String.join (first :: others)

/-- A name asks for no arguments, and every part for one. -/
def arity : HeadingTree → Nat
  | name _ => 0
  | parts _ others => others.length + 1

end HeadingTree

structure MethodTree where
  heading : HeadingTree
  body : BlockTree

namespace MethodTree

def kinds (tree : MethodTree) : List Kind := tree.heading.kinds ++ tree.body.kinds

def meaning (tree : MethodTree) : Method :=
  ⟨tree.heading.selector, tree.heading.arity, tree.body.meaning, Span.nowhere⟩

/-- A method does not begin with what closes the class around it. -/
theorem exists_kinds_eq_cons (tree : MethodTree) :
    ∃ kind kinds, tree.kinds = kind :: kinds ∧ kind ≠ .mark .rightBrace := by
  obtain ⟨heading, body⟩ := tree
  cases heading with
  | name word => exact ⟨.ident word, body.kinds, rfl, Kind.noConfusion⟩
  | parts first others =>
    exact ⟨.selector first, others.map .selector ++ body.kinds, rfl, Kind.noConfusion⟩

end MethodTree

structure ClassTree where
  name : String
  parent : ClassName
  methods : List MethodTree

namespace ClassTree

def kinds (tree : ClassTree) : List Kind :=
  .keyword .classWord :: .classIdent tree.name :: .mark .colon :: tree.parent.kind ::
    .mark .leftBrace :: (tree.methods.flatMap MethodTree.kinds ++ [.mark .rightBrace])

def meaning (tree : ClassTree) : ClassDef :=
  ⟨placelessIdent tree.name, tree.parent.meaning, tree.methods.map MethodTree.meaning⟩

/-- No method nests deeper than this inside its body. -/
def NestsWithin (depth : Nat) (tree : ClassTree) : Prop :=
  ∀ method ∈ tree.methods, method.body.nesting ≤ depth

end ClassTree

structure ProgramTree where
  classes : List ClassTree

namespace ProgramTree

def kinds (tree : ProgramTree) : List Kind := tree.classes.flatMap ClassTree.kinds

/-- What the tree denotes. A description is no matter of the grammar. -/
def meaning (tree : ProgramTree) : Program := ⟨tree.classes.map ClassTree.meaning, none⟩

def NestsWithin (depth : Nat) (tree : ProgramTree) : Prop :=
  ∀ declared ∈ tree.classes, declared.NestsWithin depth

end ProgramTree

/-- Behind every method of what a tree denotes stands a method of the tree. -/
theorem ProgramTree.exists_method_of_meaning_eq {tree : ProgramTree} {declared : List ClassDef}
    (h : tree.meaning = ⟨declared.map ClassDef.placeless, none⟩) {item : ClassDef}
    (hitem : item ∈ declared) {method : Method} (hmethod : method ∈ item.methods) :
    ∃ itemTree ∈ tree.classes, ∃ methodTree ∈ itemTree.methods,
      methodTree.meaning = method.placeless := by
  have hclasses : tree.classes.map ClassTree.meaning = declared.map ClassDef.placeless :=
    congrArg Program.classes h
  have hitemMeaning : item.placeless ∈ tree.classes.map ClassTree.meaning :=
    hclasses ▸ List.mem_map_of_mem hitem
  obtain ⟨itemTree, hitemTree, hitemEq⟩ := List.mem_map.mp hitemMeaning
  have hmethods : itemTree.methods.map MethodTree.meaning = item.methods.map Method.placeless :=
    congrArg ClassDef.methods hitemEq
  have hmethodMeaning : method.placeless ∈ itemTree.methods.map MethodTree.meaning :=
    hmethods ▸ List.mem_map_of_mem hmethod
  obtain ⟨methodTree, hmethodTree, hmethodEq⟩ := List.mem_map.mp hmethodMeaning
  exact ⟨itemTree, hitemTree, methodTree, hmethodTree, hmethodEq⟩

/-- The program is what the grammar makes of these kinds of token, by a derivation in which
parentheses and blocks nest at most `depth` deep inside the body of a method. -/
def Derives (depth : Nat) (kinds : List Kind) (program : Program) : Prop :=
  ∃ tree : ProgramTree, tree.kinds = kinds ∧ tree.NestsWithin depth ∧ tree.meaning = program

end Sol25.Grammar
