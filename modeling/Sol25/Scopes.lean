import Sol25.Fault
import Sol25.Program.Basic
import Sol25.Table

/-!
The scopes that are open while a program is checked. They are kept side by side, and each one but
the outermost knows which scope encloses it. The outermost scope binds the names that mean something
everywhere and is never left.
-/

set_option autoImplicit false
set_option relaxedAutoImplicit false

namespace Sol25

/-- How a name came to be bound. -/
inductive Binding where
  /-- It is bound everywhere. -/
  | pseudo
  | parameter
  /-- It is the target of an assignment. -/
  | assigned
deriving DecidableEq

/-- The names of one scope. -/
structure Frame where
  /-- The index of the scope around it. -/
  enclosing? : Option Nat
  names : Table Binding

structure Scopes where
  frames : Array Frame
  /-- The index of the innermost scope. -/
  current : Nat

namespace Scopes

/-- The names that are bound everywhere. -/
def pseudoNames : List String := ["self", "super", "nil", "true", "false"]

/-- The outermost scope alone. -/
def outermost : Scopes :=
  ⟨#[⟨none, Table.ofList (pseudoNames.map (·, .pseudo))⟩], 0⟩

/-- The number of open scopes. -/
def depth (scopes : Scopes) : Nat := scopes.frames.size

/-- Opens a scope inside the current one. -/
def enter (scopes : Scopes) : Scopes :=
  ⟨scopes.frames.push ⟨some scopes.current, Table.empty⟩, scopes.frames.size⟩

/-- Leaves the current scope and forgets its names. -/
def exit (scopes : Scopes) : Scopes :=
  if 1 < scopes.frames.size then
    ⟨scopes.frames.pop, (scopes.frames.back?.bind Frame.enclosing?).getD 0⟩
  else scopes

/-- The names of the current scope. -/
def currentNames (scopes : Scopes) : Table Binding :=
  (scopes.frames[scopes.current]?.map Frame.names).getD Table.empty

/-- Binds a name in the current scope, unless it is bound there already. -/
def bind (scopes : Scopes) (name : String) (binding : Binding) : Scopes :=
  { scopes with
    frames := scopes.frames.modify scopes.current fun frame ↦
      { frame with names := frame.names.insertNew name binding } }

/-- Binds a parameter. No other name of the scope may be called like it. -/
def defineParam (param : Ident) (scopes : Scopes) : Option Fault × Scopes :=
  if scopes.currentNames.contains param.name then
    (some (.located (.duplicateParameter param.name) param.span), scopes)
  else (none, scopes.bind param.name .parameter)

/-- Binds the target of an assignment. It may be bound already, though not as a parameter. -/
def defineTarget (target : Ident) (scopes : Scopes) : Option Fault × Scopes :=
  if scopes.currentNames.get? target.name = some .parameter then
    (some (.located (.variableCollision target.name) target.span), scopes)
  else (none, scopes.bind target.name .assigned)

/-- The binding of a name in the scope with this index or the nearest one around it. A scope is
opened after those around it, so the index falls on the way out. -/
def lookupFrom (scopes : Scopes) (index : Nat) (name : String) : Option Binding :=
  match scopes.frames[index]? with
  | none => none
  | some frame =>
    match frame.names.get? name with
    | some binding => some binding
    | none =>
      match frame.enclosing? with
      | none => none
      | some outer => if outer < index then lookupFrom scopes outer name else none
termination_by index

/-- The binding of a name, seen from the current scope. -/
def lookup (scopes : Scopes) (name : String) : Option Binding :=
  scopes.lookupFrom scopes.current name

end Scopes

end Sol25
