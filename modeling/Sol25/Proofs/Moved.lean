import Mathlib.Data.List.Basic
import Mathlib.Order.MinMax
import Sol25.Compile
import Sol25.Proofs.Placeless

/-!
# Programs in other places

Whenever the text around a program changes, its parts stand in other places. `moved` takes every
offset of a span, a token, a program or a fault to where it is moved, and
changes nothing else. The least span that reaches over two places is moved along with them, as long
as no offset overtakes another (`Span.moved_merge`), and to forget the places is to move all of them
to one (`Program.moved_everywhere`).

No document depends on the places in its program (`Program.document_moved`), since no span is ever
written.
-/

set_option autoImplicit false
set_option relaxedAutoImplicit false

namespace Sol25

variable {move : Nat → Nat}

/-! ### Places -/

def Span.moved (move : Nat → Nat) (span : Span) : Span := ⟨move span.start, move span.stop⟩

theorem Span.moved_merge (hmove : Monotone move) (former latter : Span) :
    (former.merge latter).moved move = (former.moved move).merge (latter.moved move) := by
  simp only [merge, moved, hmove.map_min, hmove.map_max]

/-- All offsets become one. -/
def everywhere (_ : Nat) : Nat := 0

theorem monotone_everywhere : Monotone everywhere := monotone_const

theorem Span.moved_everywhere (span : Span) : span.moved everywhere = Span.nowhere := rfl

def Token.moved (move : Nat → Nat) (token : Token) : Token := ⟨token.kind, token.span.moved move⟩

/-- What is left of a token without its place is its kind. -/
theorem Token.map_moved_everywhere_eq_iff {tokens others : List Token} :
    tokens.map (Token.moved everywhere) = others.map (Token.moved everywhere) ↔
      tokens.map Token.kind = others.map Token.kind := by
  have hmoved (tokens : List Token) : tokens.map (Token.moved everywhere) =
      (tokens.map Token.kind).map (Token.mk · Span.nowhere) := by
    rw [List.map_map]
    rfl
  rw [hmoved, hmoved]
  exact (List.map_injective_iff.mpr fun _ _ h ↦ congrArg Token.kind h).eq_iff

def Fault.moved (move : Nat → Nat) : Fault → Fault
  | .located defect span => .located defect (span.moved move)
  | .unlocated failure => .unlocated failure

/-- What is wrong, without the place where it is. -/
def Fault.placeless : Fault → Fault
  | .located defect _ => .located defect Span.nowhere
  | .unlocated failure => .unlocated failure

theorem Fault.moved_everywhere : Fault.moved everywhere = Fault.placeless := by
  funext fault
  cases fault <;> rfl

theorem Fault.placeless_moved (move : Nat → Nat) (fault : Fault) :
    (fault.moved move).placeless = fault.placeless := by
  cases fault <;> rfl

/-! ### Programs -/

def Ident.moved (move : Nat → Nat) (ident : Ident) : Ident :=
  ⟨ident.name, ident.span.moved move⟩

mutual

def Expr.moved (move : Nat → Nat) : Expr → Expr
  | .literal kind value span => .literal kind value (span.moved move)
  | .var name span => .var name (span.moved move)
  | .send receiver selector args span =>
    .send (receiver.moved move) selector (Expr.movedAll move args) (span.moved move)
  | .block content => .block (content.moved move)

def Expr.movedAll (move : Nat → Nat) : List Expr → List Expr
  | [] => []
  | expr :: rest => expr.moved move :: Expr.movedAll move rest

def Block.moved (move : Nat → Nat) : Block → Block
  | ⟨params, body, span⟩ =>
    ⟨params.map (Ident.moved move), Assignment.movedAll move body, span.moved move⟩

def Assignment.movedAll (move : Nat → Nat) : List Assignment → List Assignment
  | [] => []
  | assignment :: rest => assignment.moved move :: Assignment.movedAll move rest

def Assignment.moved (move : Nat → Nat) : Assignment → Assignment
  | ⟨target, value⟩ => ⟨target.moved move, value.moved move⟩

end

theorem Expr.movedAll_eq_map (exprs : List Expr) :
    Expr.movedAll move exprs = exprs.map (Expr.moved move) := by
  induction exprs with
  | nil => rfl
  | cons expr rest ih => rw [Expr.movedAll, ih, List.map_cons]

theorem Assignment.movedAll_eq_map (assignments : List Assignment) :
    Assignment.movedAll move assignments = assignments.map (Assignment.moved move) := by
  induction assignments with
  | nil => rfl
  | cons assignment rest ih => rw [Assignment.movedAll, ih, List.map_cons]

def Method.moved (move : Nat → Nat) (method : Method) : Method :=
  ⟨method.selector, method.arity, method.body.moved move, method.span.moved move⟩

def ClassDef.moved (move : Nat → Nat) (declared : ClassDef) : ClassDef :=
  ⟨declared.name.moved move, declared.parent.moved move, declared.methods.map (Method.moved move)⟩

def Program.moved (move : Nat → Nat) (program : Program) : Program :=
  ⟨program.classes.map (ClassDef.moved move), program.description?⟩

theorem Expr.span_moved (expr : Expr) : (expr.moved move).span = expr.span.moved move := by
  cases expr with
  | literal _ _ _ | var _ _ | send _ _ _ _ => rfl
  | block content =>
    obtain ⟨params, body, span⟩ := content
    rfl

theorem Expr.className?_moved (expr : Expr) : (expr.moved move).className? = expr.className? := by
  cases expr with
  | literal kind _ _ => cases kind <;> rfl
  | var _ _ | send _ _ _ _ | block _ => rfl

theorem Block.arity_moved (block : Block) : (block.moved move).arity = block.arity := by
  obtain ⟨params, body, span⟩ := block
  exact List.length_map _

/-! ### Staying in place -/

theorem Token.moved_id : Token.moved id = id := rfl

mutual

theorem Expr.moved_id : ∀ expr : Expr, expr.moved id = expr
  | .literal _ _ _ | .var _ _ => rfl
  | .send receiver selector args span => by
    rw [Expr.moved, receiver.moved_id, Expr.movedAll_id args]
    rfl
  | .block content => by
    rw [Expr.moved, content.moved_id]

theorem Expr.movedAll_id : ∀ exprs : List Expr, Expr.movedAll id exprs = exprs
  | [] => rfl
  | expr :: rest => by
    rw [Expr.movedAll, expr.moved_id, Expr.movedAll_id rest]

theorem Block.moved_id : ∀ block : Block, block.moved id = block
  | ⟨params, body, span⟩ => by
    rw [Block.moved, Assignment.movedAll_id body]
    exact congrArg (Block.mk · body span) (List.map_id params)

theorem Assignment.movedAll_id :
    ∀ assignments : List Assignment, Assignment.movedAll id assignments = assignments
  | [] => rfl
  | ⟨target, value⟩ :: rest => by
    rw [Assignment.movedAll, Assignment.moved, value.moved_id, Assignment.movedAll_id rest]
    rfl

end

theorem Method.moved_id : Method.moved id = id := by
  funext method
  rw [moved, method.body.moved_id]
  rfl

theorem ClassDef.moved_id : ClassDef.moved id = id := by
  funext declared
  rw [moved, Method.moved_id, List.map_id]
  rfl

/-! ### Forgetting the places -/

mutual

theorem Expr.moved_everywhere : ∀ expr : Expr, expr.moved everywhere = expr.placeless
  | .literal _ _ _ | .var _ _ => rfl
  | .send receiver selector args span => by
    rw [Expr.moved, Expr.placeless, receiver.moved_everywhere, Expr.movedAll_everywhere args]
    rfl
  | .block content => by
    rw [Expr.moved, Expr.placeless, content.moved_everywhere]

theorem Expr.movedAll_everywhere :
    ∀ exprs : List Expr, Expr.movedAll everywhere exprs = Expr.placelessAll exprs
  | [] => rfl
  | expr :: rest => by
    rw [Expr.movedAll, Expr.placelessAll, expr.moved_everywhere, Expr.movedAll_everywhere rest]

theorem Block.moved_everywhere : ∀ block : Block, block.moved everywhere = block.placeless
  | ⟨params, body, span⟩ => by
    rw [Block.moved, Block.placeless, Assignment.movedAll_everywhere body]
    rfl

theorem Assignment.movedAll_everywhere : ∀ assignments : List Assignment,
    Assignment.movedAll everywhere assignments = Assignment.placelessAll assignments
  | [] => rfl
  | ⟨target, value⟩ :: rest => by
    rw [Assignment.movedAll, Assignment.placelessAll, Assignment.moved, Assignment.placeless,
      value.moved_everywhere, Assignment.movedAll_everywhere rest]
    rfl

end

theorem Method.moved_everywhere : Method.moved everywhere = Method.placeless := by
  funext method
  rw [moved, placeless, method.body.moved_everywhere, Span.moved_everywhere]

theorem ClassDef.moved_everywhere : ClassDef.moved everywhere = ClassDef.placeless := by
  funext declared
  rw [moved, placeless, Method.moved_everywhere]
  rfl

theorem Program.moved_everywhere : Program.moved everywhere = Program.placeless := by
  funext program
  rw [moved, placeless, ClassDef.moved_everywhere]

/-! ### Documents -/

namespace Document

mutual

theorem exprElement_moved : ∀ expr : Expr, exprElement (expr.moved move) = exprElement expr
  | .literal _ _ _ | .var _ _ => rfl
  | .send receiver selector args span => by
    rw [Expr.moved, exprElement, exprElement, exprElement_moved receiver, argElements_moved args]
  | .block content => by
    rw [Expr.moved, exprElement, exprElement, blockElement_moved content]

theorem argElements_moved : ∀ (args : List Expr) (index : Nat),
    argElements index (Expr.movedAll move args) = argElements index args
  | [], _ => rfl
  | arg :: rest, index => by
    rw [Expr.movedAll, argElements, argElements, exprElement_moved arg, argElements_moved rest]

theorem blockElement_moved : ∀ block : Block, blockElement (block.moved move) = blockElement block
  | ⟨params, body, span⟩ => by
    have hparams : (params.map (Ident.moved move)).mapIdx paramElement =
        params.mapIdx paramElement := by
      apply List.ext_getElem?
      intro index
      rw [List.getElem?_mapIdx, List.getElem?_mapIdx, List.getElem?_map, Option.map_map]
      rfl
    rw [Block.moved, blockElement, blockElement, hparams, List.length_map,
      assignmentElements_moved body]

theorem assignmentElements_moved : ∀ (body : List Assignment) (index : Nat),
    assignmentElements index (Assignment.movedAll move body) = assignmentElements index body
  | [], _ => rfl
  | ⟨target, value⟩ :: rest, index => by
    rw [Assignment.movedAll, Assignment.moved, assignmentElements, assignmentElements,
      assignmentElement, assignmentElement, exprElement_moved value, assignmentElements_moved rest]
    rfl

end

theorem methodElement_moved (method : Method) :
    methodElement (method.moved move) = methodElement method := by
  rw [methodElement, methodElement, Method.moved, blockElement_moved]

theorem classElement_moved (declared : ClassDef) :
    classElement (declared.moved move) = classElement declared := by
  rw [classElement, classElement, ClassDef.moved, List.map_map]
  exact congrArg _ (List.map_congr_left fun method _ ↦ methodElement_moved method)

theorem programElement_moved (program : Program) :
    programElement (program.moved move) = programElement program := by
  rw [programElement, programElement, Program.moved, List.map_map]
  exact congrArg _ (List.map_congr_left fun declared _ ↦ classElement_moved declared)

end Document

/-- The document of a program is that of the program in any other place. -/
theorem Program.document_moved (move : Nat → Nat) (program : Program) :
    (program.moved move).document = program.document := by
  rw [document, Document.Writer.program, Document.programElement_moved]
  rfl

/-- Programs that are the same up to places have the same document. -/
theorem Program.document_eq_of_placeless_eq {program other : Program}
    (h : program.placeless = other.placeless) : program.document = other.document := by
  rw [← program.document_moved everywhere, ← other.document_moved everywhere, moved_everywhere, h]

end Sol25
