import Sol25.Analysis.Scoping
import Sol25.Class.Registry
import Sol25.Program.Basic

/-!
Checks of what stands inside a method: every name is bound where it is used, no parameter is
assigned to, every class exists, and a class that is sent a message by name understands it. No other
receiver has a class that is known beforehand.
-/

set_option autoImplicit false
set_option relaxedAutoImplicit false

namespace Sol25.Analysis

variable {σ : Type}

/-- The name under which values are thrown away. It is never bound and can always be used. -/
def discard : String := "_"

/-- A check with a scope of its own, which is left in any case. -/
def inScope [Scoping σ] (check : Check σ) : Check σ := fun scopes ↦
  let (fault?, inner) := check (Scoping.enter scopes)
  (fault?, Scoping.exit inner)

/-- A name has to be bound. -/
def checkName [Scoping σ] (name : String) (span : Span) : Check σ := fun scopes ↦
  Check.demand (name = discard || (Scoping.lookup scopes name).isSome)
    (.located (.undefinedVariable name) span) scopes

/-- The target of an assignment is bound by it, if it can be. -/
def checkTarget [Scoping σ] (target : Ident) : Check σ :=
  if target.name = discard then Check.pass else Scoping.defineTarget target

/-- A class has to be known. -/
def checkClassName (registry : Registry) (name : String) (span : Span) : Check σ :=
  Check.demand (registry.contains name) (.located (.undefinedClass name) span)

/-- A class that is named as the receiver has to understand the message. -/
def checkMessage (registry : Registry) (receiver : Expr) (selector : String) (span : Span) :
    Check σ :=
  match receiver.className? with
  | none => Check.pass
  | some name =>
    Check.demand (registry.lookupMethod name selector).isSome
      (.located (.undefinedMethod name selector) span)

mutual

/-- A message is checked when its receiver and arguments have been. -/
def checkExpr [Scoping σ] (registry : Registry) : Expr → Check σ
  | .literal .className value span => checkClassName registry value span
  | .literal _ _ _ => Check.pass
  | .var name span => checkName name span
  | .send receiver selector args span =>
    (checkExpr registry receiver).andThen
      ((checkArgs registry args).andThen (checkMessage registry receiver selector span))
  | .block content => checkBlock registry content

def checkArgs [Scoping σ] (registry : Registry) : List Expr → Check σ
  | [] => Check.pass
  | arg :: rest => (checkExpr registry arg).andThen (checkArgs registry rest)

def checkBlock [Scoping σ] (registry : Registry) : Block → Check σ
  | ⟨params, body, _⟩ =>
    inScope ((Check.forEach params Scoping.defineParam).andThen (checkBody registry body))

def checkBody [Scoping σ] (registry : Registry) : List Assignment → Check σ
  | [] => Check.pass
  | assignment :: rest => (checkAssignment registry assignment).andThen (checkBody registry rest)

/-- The target is bound before the value is checked, so the value may use it. -/
def checkAssignment [Scoping σ] (registry : Registry) : Assignment → Check σ
  | ⟨target, value⟩ => (checkTarget target).andThen (checkExpr registry value)

end

end Sol25.Analysis
