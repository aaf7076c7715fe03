import Sol25.Analysis.Check
import Sol25.Scopes

/-!
What the checks of a program ask of the scopes. A check is written over these operations alone, so
it does the same over anything that has them.
-/

set_option autoImplicit false
set_option relaxedAutoImplicit false

namespace Sol25

/-- Scopes that are opened and left, in which names are bound and looked up. -/
class Scoping (σ : Type) where
  /-- Opens a scope inside the current one. -/
  enter : σ → σ
  /-- Leaves the current scope and forgets its names. -/
  exit : σ → σ
  /-- Binds a parameter. No other name of the scope may be called like it. -/
  defineParam : Ident → Check σ
  /-- Binds the target of an assignment. It may be bound already, though not as a parameter. -/
  defineTarget : Ident → Check σ
  /-- The binding of a name, seen from the current scope. -/
  lookup : σ → String → Option Binding

instance : Scoping Scopes where
  enter := Scopes.enter
  exit := Scopes.exit
  defineParam := Scopes.defineParam
  defineTarget := Scopes.defineTarget
  lookup := Scopes.lookup

end Sol25
