import Sol25.Analysis.Basic
import Sol25.Proofs.Analysis.Hierarchy
import Sol25.Proofs.Check

/-!
# All faults of a program

Here is listed what is wrong with a program: every fault there is, in the order in which the text
has them within each of four groups. The first two groups are about the names of all classes and of
their parents, the third goes through one class after the other, and the last is about the way in
which the program starts. Nothing is entered anywhere and nothing is remembered on the way. A class
is looked for in the whole program, and a name in the list of those that are visible: the names that
are bound everywhere, the parameters of the blocks around the place, and the targets of the
assignments in front of it and of its own, in its block and in those around it.

A list may go on behind a fault. A class that is unknown understands no message, so a message to it
has two faults, of which the first is that of the receiver.
-/

set_option autoImplicit false
set_option relaxedAutoImplicit false

namespace Sol25

open Check (faultUnless)
open Analysis (discard mainClass mainSelector)

/-- The items whose key is one of `seen` or that of an item in front of them. -/
def repeats {α : Type} (key : α → String) (seen : List String) : List α → List α
  | [] => []
  | item :: rest =>
    (if key item ∈ seen then [item] else []) ++ repeats key (key item :: seen) rest

theorem mem_of_mem_repeats {α : Type} {key : α → String} {seen : List String} {items : List α}
    {item : α} (h : item ∈ repeats key seen items) : item ∈ items := by
  induction items generalizing seen with
  | nil => exact h
  | cons first rest ih =>
    rw [repeats, List.mem_append] at h
    rcases h with h | h
    · split at h
      · exact List.mem_singleton.mp h ▸ List.mem_cons_self
      · exact absurd h List.not_mem_nil
    · exact List.mem_cons_of_mem _ (ih h)

namespace Program

/-- A class that is named as the receiver has to understand the message. -/
def messageFaults (program : Program) (receiver : Expr) (selector : String) (span : Span) :
    List Fault :=
  match receiver.className? with
  | none => []
  | some name =>
    faultUnless (program.Understands name selector) (.located (.undefinedMethod name selector) span)

mutual

/-- The faults of an expression that stands where these names are visible. -/
def exprFaults (program : Program) (visible : List String) : Expr → List Fault
  | .literal .className value span =>
    faultUnless (program.Knows value) (.located (.undefinedClass value) span)
  | .literal _ _ _ => []
  | .var name span =>
    faultUnless (name = discard ∨ name ∈ visible) (.located (.undefinedVariable name) span)
  | .send receiver selector args span =>
    program.exprFaults visible receiver ++ (program.argsFaults visible args ++
      program.messageFaults receiver selector span)
  | .block content => program.blockFaults visible content

def argsFaults (program : Program) (visible : List String) : List Expr → List Fault
  | [] => []
  | arg :: rest => program.exprFaults visible arg ++ program.argsFaults visible rest

/-- Inside a block its parameters are visible as well. -/
def blockFaults (program : Program) (visible : List String) : Block → List Fault
  | ⟨params, body, _⟩ =>
    (repeats Ident.name [] params).map
        (fun param ↦ .located (.duplicateParameter param.name) param.span) ++
      program.bodyFaults (params.map Ident.name) (params.map Ident.name ++ visible) body

/-- No target may be a parameter of the block. It is visible in its own value and behind it. -/
def bodyFaults (program : Program) (params visible : List String) : List Assignment → List Fault
  | [] => []
  | ⟨target, value⟩ :: rest =>
    faultUnless (target.name = discard ∨ target.name ∉ params)
        (.located (.variableCollision target.name) target.span) ++
      (program.exprFaults (target.name :: visible) value ++
        program.bodyFaults params (target.name :: visible) rest)

end

/-- The body of a method takes as many arguments as its selector. -/
def methodFaults (program : Program) (method : Method) : List Fault :=
  faultUnless (method.arity = method.body.arity)
      (.located (.arityMismatch method.selector method.arity method.body.arity) method.span) ++
    program.blockFaults Scopes.pseudoNames method.body

/-- The faults of a class that are not those of its own name or its parent's. -/
def classFaults (program : Program) (declared : ClassDef) : List Fault :=
  faultUnless (program.Rooted declared.name.name)
      (.located (.circularInheritance declared.name.name) declared.name.span) ++
    ((repeats Method.selector [] declared.methods).map
        (fun method ↦
          .located (.duplicateMethod declared.name.name method.selector) method.span) ++
      declared.methods.flatMap program.methodFaults)

/-- A class may not be called like a built-in one or one that is declared in front of it. -/
def nameFaults (program : Program) : List Fault :=
  (repeats (·.name.name) (BuiltinClass.all.map BuiltinClass.name) program.classes).map
    fun declared ↦ .located (.duplicateClass declared.name.name) declared.name.span

/-- The parent of a class is built in or declared anywhere. -/
def parentFaults (program : Program) (declared : ClassDef) : List Fault :=
  faultUnless (program.Knows declared.parent.name)
    (.located (.undefinedClass declared.parent.name) declared.parent.span)

/-- The program declares the class it starts with, and that class has a method of its own for the
message it starts with. -/
def startFaults (program : Program) : List Fault :=
  match program.declaration? mainClass with
  | none => [.unlocated .missingMain]
  | some declared =>
    faultUnless (∃ method ∈ declared.methods, method.selector = mainSelector ∧ method.arity = 0)
      (.located .missingRun declared.name.span)

/-- Everything that is wrong with a program. -/
def faults (program : Program) : List Fault :=
  program.nameFaults ++ (program.classes.flatMap program.parentFaults ++
    (program.classes.flatMap program.classFaults ++ program.startFaults))

end Program

end Sol25
